import LibKit.Support.CString
import LibKit.Support.Results
import LibKit.Support.Runs

namespace LibKit
namespace KitTimezone

/-!
# `kit-timezone.c`

A cache of time zones, by name.  What the clock, `stat` and `tz_tzalloc` answer
to a call is a parameter of the call.  A zone also records whether its modification
time is one that `stat` filled in, and the attempts to load its data, which the
code does not.
-/

/-- How a call ends without returning: it waits for a mutex, or it does something
that is not defined. -/
inductive Stop where
  | blocked
  | undefined
deriving DecidableEq

/-- `struct timespec` -/
structure Timespec where
  sec : Int64
  nsec : Int64
deriving DecidableEq

/-- What is found outside of the program during a call.  A `stat` that fails leaves
something in its buffer. -/
structure World (T : Type) where
  now : Int64
  stat : List UInt8 → Option Timespec
  left : Timespec
  tzalloc : List UInt8 → Option T

/-- An attempt to load a zone: the modification time that the file had, and the
data. -/
structure Attempt (T : Type) where
  mtim : Option Timespec
  tzdata : Option T

/-- `struct kit_timezone`.  The last two fields are those that the code does not
have. -/
structure Zone (T : Type) where
  held : Bool
  filename : List UInt8
  nameLen : Nat
  timeChecked : Int64
  mtim : Timespec
  tzdata : Option T
  known : Bool
  tried : List (Attempt T)

/-- `timezone_cache` -/
abbrev Cache (T : Type) := List UInt8 → Option (Zone T)

/-- `PATH_MAX` -/
def pathMax : Nat := 4096

/-- `TZDIR`, with a slash: `"/usr/share/zoneinfo/"` -/
def tzdir : List UInt8 := [47, 117, 115, 114, 47, 115, 104, 97, 114, 101, 47, 122, 111, 110, 101, 105, 110, 102,
    111, 47]

/-- The path of a name in `TZDIR`. -/
def tzPath (name : List UInt8) : List UInt8 := (tzdir ++ name).take (pathMax - 1)

section

variable {T : Type}

def Zone.name (zone : Zone T) : List UInt8 := CString.text (zone.filename.drop 1)

def Zone.path (zone : Zone T) : List UInt8 := if zone.name.head? = some 47 then zone.name else tzPath zone.name

/-- `zone->tzdata = tz_tzalloc(zone->filename)` -/
def Zone.alloc (world : World T) (zone : Zone T) : Zone T :=
  { zone with
    tzdata := world.tzalloc (CString.text zone.filename)
    tried := ⟨world.stat zone.path, world.tzalloc (CString.text zone.filename)⟩ :: zone.tried }

/-- `kit_timezone_unlock` -/
def unlock (zone : Zone T) : Except Stop (Zone T) :=
  if zone.held then .ok { zone with held := false } else .error .undefined

variable (seconds : UInt32)

/-- Whether the file was checked just before: `cache_seconds && now - zone->time_checked <= cache_seconds` -/
def recent (now checked : Int64) : Except Stop Bool :=
  if seconds = 0 then .ok false
  else if now.toInt - checked.toInt < -2 ^ 63 ∨ 2 ^ 63 ≤ now.toInt - checked.toInt then .error .undefined
  else .ok (now.toInt - checked.toInt ≤ seconds.toNat)

/-- A zone is returned if it has data, and unlocked if it has not. -/
def returnUsable (zone : Zone T) : Bool × Zone T :=
  if zone.tzdata.isSome then (true, zone) else (false, { zone with held := false })

/-- The file of a zone is checked, with its mutex held. -/
def recheck (world : World T) (zone : Zone T) : Bool × Zone T :=
  match world.stat zone.path with
  | some mtim =>
      if mtim = zone.mtim then (true, { zone with timeChecked := world.now })
      else returnUsable (Zone.alloc world { zone with
        timeChecked := world.now, mtim := mtim, tzdata := none, known := true })
  | none =>
      (false, { zone with timeChecked := world.now, mtim := world.left, tzdata := none, known := false, held := false })

/-- `kit_timezone_lock` -/
def lock (world : World T) (me : Zone T) : Except Stop (Bool × Zone T) :=
  if me.held then .error .blocked
  else do
    let isRecent ← recent seconds world.now me.timeChecked
    if isRecent then .ok (returnUsable { me with held := true })
    else .ok (recheck world { me with held := true })

/-- The key of a name in the cache: `len` bytes of it, or those before its NUL if
`len` is zero. -/
def cacheKey (name : List UInt8) (len : Nat) : Except Stop (List UInt8) :=
  if len = 0 then
    if 0 ∈ name then .ok (CString.text name) else .error .undefined
  else if len ≤ name.length then .ok (name.take len)
  else .error .undefined

/-- A zone that is added to the cache.  What becomes of the fields that are not
initialized is not seen. -/
def newZone (key : List UInt8) (now : Int64) : Zone T :=
  { held := false
    filename := 58 :: key ++ [0]
    nameLen := key.length
    timeChecked := now
    mtim := ⟨0, 0⟩
    tzdata := none
    known := false
    tried := [] }

/-- The path that is checked when a zone is loaded by a name. -/
def loadPath (name : List UInt8) (zone : Zone T) : Except Stop (List UInt8) :=
  if name.head? = some 47 then
    if 0 ∈ name then .ok (CString.text name) else .error .undefined
  else .ok (tzPath zone.name)

/-- The data of a zone in the cache, which has none, is loaded. -/
def loadData (world : World T) (path : List UInt8) (zone : Zone T) : Zone T :=
  match world.stat path with
  | some mtim => Zone.alloc world { zone with mtim := mtim, known := true }
  | none => { zone with mtim := ⟨0, 0⟩, known := true, tzdata := none }

/-- A zone is loaded, and remains in the cache if it cannot be. -/
def loadZone (world : World T) (name key : List UInt8) (zone : Zone T) (cache : Cache T) :
    Except Stop (Option (List UInt8) × Cache T) := do
  let path ← loadPath name zone
  let zone := loadData world path zone
  .ok (if zone.tzdata.isSome then some key else none, Function.update cache key (some zone))

/-- `kit_timezone_load` -/
def load (world : World T) (memory : Bool) (name : List UInt8) (len : Nat) (cache : Cache T) :
    Except Stop (Option (List UInt8) × Cache T) := do
  let key ← cacheKey name len
  match cache key with
  | some zone =>
      if zone.tzdata.isSome then .ok (some key, cache)
      else do
        let isRecent ← recent seconds world.now zone.timeChecked
        if isRecent then .ok (none, cache)
        else loadZone world name key { zone with timeChecked := world.now } cache
  | none =>
      if memory then loadZone world name key (newZone key world.now) cache
      else .ok (none, cache)

/-- A call, with what is found during it.  Memory for a zone may be missing. -/
inductive Call (T : Type) where
  | load (name : List UInt8) (len : Nat) (memory : Bool) (world : World T)
  | lock (key : List UInt8) (world : World T)
  | unlock (key : List UInt8)

/-- A zone of the cache is used: its key is returned, or none for `NULL`. -/
def onZone (key : List UInt8) (operation : Zone T → Except Stop (Bool × Zone T)) (cache : Cache T) :
    Except Stop (Option (List UInt8) × Cache T) :=
  match cache key with
  | none => .error .undefined
  | some zone => do
      let (returned, zone) ← operation zone
      .ok (if returned then some key else none, Function.update cache key (some zone))

def Call.run (cache : Cache T) : Call T → Except Stop (Option (List UInt8) × Cache T)
  | .load name len memory world => KitTimezone.load seconds world memory name len cache
  | .lock key world => onZone key (KitTimezone.lock seconds world) cache
  | .unlock key => onZone key (fun zone => do
      let zone ← KitTimezone.unlock zone
      .ok (false, zone)) cache

def step (cache : Cache T) (call : Call T) : Option (Option (List UInt8) × Cache T) :=
  match call.run seconds cache with
  | .ok result => some result
  | .error _ => none

end

end KitTimezone
end LibKit
