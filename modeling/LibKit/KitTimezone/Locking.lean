import LibKit.KitTimezone.Model

namespace LibKit
namespace KitTimezone

/-!
# Locked time zones

What a zone remembers of its file is what its data was loaded from, as long as it
has data.  A lock of a zone without data takes the file for unchanged if its
modification time is the one remembered, which a `stat` that failed may have left.
-/

section

variable {T : Type} (seconds : UInt32)

/-! ## What a lock returns -/

/-- A zone that is returned has data, and only such a zone is locked.  If the file
was not just checked, the data was loaded from the file as it is now, and there is
none if it is not found or could not be loaded. -/
structure Usable (world : World T) (zone : Zone T) (returned : Bool) (after : Zone T) : Prop where
  data : returned = true → after.tzdata ≠ none
  held : after.held = returned
  fresh : recent seconds world.now zone.timeChecked = .ok false → returned = true →
    ∃ mtim data, world.stat zone.path = some mtim ∧ after.tzdata = some data ∧
      after.tried.head? = some ⟨some mtim, some data⟩
  failed : recent seconds world.now zone.timeChecked = .ok false → returned = false →
    world.stat zone.path = none ∨ ∃ mtim, world.stat zone.path = some mtim ∧
      after.tried.find? (fun attempt => attempt.mtim = some mtim) = some ⟨some mtim, none⟩

/-- The same call, with something else left by a `stat` that fails. -/
def Call.withLeft (left : Timespec) : Call T → Call T
  | .load name len memory world => .load name len memory { world with left := left }
  | .lock key world => .lock key { world with left := left }
  | .unlock key => .unlock key

def Checks (cache : Cache T) (world : World T) (memory : Bool) (key : List UInt8) : Prop :=
  (cache key = none ∧ memory = true) ∨
    ∃ zone, cache key = some zone ∧ zone.tzdata = none ∧ recent seconds world.now zone.timeChecked = .ok false

/-- An absolute name is loaded as a whole, and where the file of a zone without data
is found by a lock, its modification time is not the one remembered, and that is one
which `stat` filled in. -/
def Call.Meets (cache : Cache T) : Call T → Prop
  | .load name len memory world => ∀ key, cacheKey name len = .ok key → Checks seconds cache world memory key →
      name.head? = some 47 → CString.text name = CString.text key
  | .lock key world => ∀ zone, cache key = some zone → recent seconds world.now zone.timeChecked ≠ .error .undefined ∧
      (recent seconds world.now zone.timeChecked = .ok false → ∀ mtim, world.stat zone.path = some mtim →
        zone.tzdata = none →
        zone.known = true ∧ mtim ≠ zone.mtim)
  | .unlock _ => True

/-! ## Zones -/

/-- A zone with data remembers what it was loaded from. -/
structure Sound (key : List UInt8) (zone : Zone T) : Prop where
  name : zone.name = CString.text key
  loaded : ∀ data, zone.tzdata = some data → zone.known = true ∧ zone.tried.head? = some ⟨some zone.mtim, some data⟩

variable {seconds}

theorem recent_ok {now checked : Int64} (defined : recent seconds now checked ≠ .error .undefined) :
    ∃ isRecent, recent seconds now checked = .ok isRecent := by
  unfold recent at defined ⊢
  split
  · exact ⟨_, rfl⟩
  · split
    · rename_i notZero outside
      rw [if_neg notZero, if_pos outside] at defined
      exact absurd rfl defined
    · exact ⟨_, rfl⟩

theorem text_append_nul (key : List UInt8) : CString.text (key ++ [0]) = CString.text key := by
  induction key with
  | nil => rfl
  | cons byte key ih => rw [List.cons_append, CString.text_cons, CString.text_cons, ih]

theorem text_head {buffer : List UInt8} : (CString.text buffer).head? = some 47 ↔ buffer.head? = some 47 := by
  cases buffer with
  | nil => exact Iff.rfl
  | cons byte bytes =>
      rw [CString.text_cons]
      by_cases zero : byte = 0
      · subst zero
        rw [if_pos rfl]
        exact ⟨fun wrong => (by cases wrong), fun wrong => absurd (Option.some.inj wrong) (by decide)⟩
      · rw [if_neg zero]
        exact Iff.rfl

theorem cacheKey_head {name key : List UInt8} {len : Nat} (isKey : cacheKey name len = .ok key)
    (first : key.head? = some 47) :
    name.head? = some 47 := by
  unfold cacheKey at isKey
  split at isKey
  · split at isKey
    · cases isKey
      exact text_head.mp first
    · cases isKey
  · rename_i notZero
    split at isKey
    · cases isKey
      rw [List.head?_take, if_neg notZero] at first
      exact first
    · cases isKey

section

variable {key : List UInt8} {zone : Zone T} {world : World T}

theorem Sound.newZone (key : List UInt8) (now : Int64) : Sound key (KitTimezone.newZone (T := T) key now) := by
  refine ⟨text_append_nul key, fun data wrong => ?_⟩
  cases wrong

/-- What a zone is loaded from is its file, if an absolute name is whole. -/
theorem loadPath_eq (isName : zone.name = CString.text key) {name path : List UInt8} {len : Nat}
    (isKey : cacheKey name len = .ok key)
    (whole : name.head? = some 47 → CString.text name = CString.text key) (isPath : loadPath name zone = .ok path) :
    path = zone.path := by
  unfold loadPath at isPath
  unfold Zone.path
  rw [isName] at isPath ⊢
  split at isPath
  · rename_i absolute
    rw [← whole absolute, if_pos (text_head.mpr absolute)]
    split at isPath
    · cases isPath
      rfl
    · cases isPath
  · rename_i relative
    rw [if_neg fun absolute => relative (cacheKey_head isKey (text_head.mp absolute))]
    cases isPath
    rfl

theorem alloc_tried {mtim : Timespec} (isMtim : world.stat zone.path = some mtim) :
    (Zone.alloc world zone).tried = ⟨some mtim, (Zone.alloc world zone).tzdata⟩ :: zone.tried := by
  unfold Zone.alloc
  rw [isMtim]

theorem alloc_sound (name : zone.name = CString.text key) (known : zone.known = true)
    (isMtim : world.stat zone.path = some zone.mtim) : Sound key (Zone.alloc world zone) := by
  refine ⟨name, fun data isData => ⟨known, ?_⟩⟩
  rw [alloc_tried isMtim, List.head?_cons, isData]
  rfl

/-! ## Locks -/

theorem recheck_missing (missing : world.stat zone.path = none) :
    recheck world zone =
      (false, { zone with
        timeChecked := world.now, mtim := world.left, tzdata := none, known := false, held := false }) := by
  unfold recheck
  rw [missing]

theorem recheck_unchanged (found : world.stat zone.path = some zone.mtim) :
    recheck world zone = (true, { zone with timeChecked := world.now }) := by
  unfold recheck
  rw [found]
  exact if_pos rfl

theorem recheck_changed {mtim : Timespec} (found : world.stat zone.path = some mtim) (changed : mtim ≠ zone.mtim) :
    recheck world zone =
      returnUsable (Zone.alloc world { zone with
        timeChecked := world.now, mtim := mtim, tzdata := none, known := true }) := by
  unfold recheck
  rw [found]
  exact if_neg changed

theorem returnUsable_cases (zone : Zone T) :
    (∃ data, zone.tzdata = some data ∧ returnUsable zone = (true, zone)) ∨
      (zone.tzdata = none ∧ returnUsable zone = (false, { zone with held := false })) := by
  unfold returnUsable
  cases isData : zone.tzdata with
  | none => exact .inr ⟨rfl, rfl⟩
  | some data => exact .inl ⟨data, rfl, rfl⟩

theorem Sound.hold (sound : Sound key zone) (held : Bool) :
    Sound key { zone with held := held } := ⟨sound.name, sound.loaded⟩

/-- What is returned if the file is checked is usable. -/
theorem Sound.recheck (sound : Sound key zone) (isHeld : zone.held = true)
    (changes : ∀ mtim, world.stat zone.path = some mtim → zone.tzdata = none → mtim ≠ zone.mtim) :
    Usable seconds world zone (KitTimezone.recheck world zone).1 (KitTimezone.recheck world zone).2 ∧
      Sound key (KitTimezone.recheck world zone).2 := by
  cases found : world.stat zone.path with
  | none =>
      rw [recheck_missing found]
      exact ⟨⟨fun wrong => (by cases wrong), rfl, fun _ wrong => (by cases wrong), fun _ _ => .inl found⟩, sound.name,
        fun data wrong => (by cases wrong)⟩
  | some mtim =>
      by_cases same : mtim = zone.mtim
      · subst same
        rw [recheck_unchanged found]
        have some : ∃ data, zone.tzdata = some data :=
          Option.ne_none_iff_exists'.mp fun isNone => changes _ found isNone rfl
        rcases some with ⟨data, isData⟩
        refine ⟨⟨fun _ isNone => ?_, isHeld, fun _ _ => ?_, fun _ wrong => (by cases wrong)⟩, sound.name, sound.loaded⟩
        · exact absurd (isData.symm.trans isNone) (Option.some_ne_none data)
        · exact ⟨zone.mtim, data, found, isData, (sound.loaded data isData).2⟩
      · rw [recheck_changed found same]
        have loaded := @alloc_sound T key { zone with
          timeChecked := world.now, mtim := mtim, tzdata := none, known := true } world
          sound.name rfl found
        have tried := @alloc_tried T { zone with
          timeChecked := world.now, mtim := mtim, tzdata := none, known := true } world mtim found
        have stays : (Zone.alloc world { zone with
          timeChecked := world.now, mtim := mtim, tzdata := none, known := true }).held = true :=
          isHeld
        generalize Zone.alloc world { zone with
          timeChecked := world.now, mtim := mtim, tzdata := none, known := true } = after
          at loaded tried stays ⊢
        rcases returnUsable_cases after with ⟨data, isData, done⟩ | ⟨isNone, done⟩
        · rw [done]
          refine ⟨⟨fun _ isNone => ?_, stays, fun _ _ => ?_, fun _ wrong => (by cases wrong)⟩, loaded⟩
          · exact absurd (isData.symm.trans isNone) (Option.some_ne_none data)
          · rw [isData] at tried
            exact ⟨mtim, data, found, isData, congrArg List.head? tried⟩
        · rw [done]
          refine ⟨⟨fun wrong => (by cases wrong), rfl, fun _ wrong => (by cases wrong),
            fun _ _ => .inr ⟨mtim, found, ?_⟩⟩,
            loaded.hold false⟩
          dsimp only
          rw [tried, isNone, List.find?_cons_of_pos]
          exact decide_eq_true rfl

theorem Sound.lock (sound : Sound key zone) (free : zone.held = false)
    (defined : recent seconds world.now zone.timeChecked ≠ .error .undefined)
    (changes : recent seconds world.now zone.timeChecked = .ok false → ∀ mtim, world.stat zone.path = some mtim →
      zone.tzdata = none → zone.known = true ∧ mtim ≠ zone.mtim) :
    ∃ returned after, KitTimezone.lock seconds world zone = .ok (returned, after) ∧
      Usable seconds world zone returned after ∧
      Sound key after := by
  rcases recent_ok defined with ⟨isRecent, answer⟩
  unfold KitTimezone.lock
  rw [if_neg (by rw [free]; decide), answer, ok_bind]
  cases isRecent with
  | true =>
      have never : recent seconds world.now zone.timeChecked ≠ .ok false :=
        fun wrong => absurd (answer.symm.trans wrong) (by decide)
      rw [if_pos rfl]
      rcases returnUsable_cases { zone with held := true } with ⟨data, isData, done⟩ | ⟨isNone, done⟩
      · refine ⟨_, _, congrArg _ done, ⟨fun _ => ?_, rfl, fun outside => absurd outside never,
          fun outside => absurd outside never⟩,
          sound.hold true⟩
        rw [isData]
        exact Option.some_ne_none data
      · exact ⟨_, _, congrArg _ done, ⟨fun wrong => (by cases wrong), rfl, fun outside => absurd outside never,
          fun outside => absurd outside never⟩, sound.hold false⟩
  | false =>
      rw [if_neg (by decide)]
      have checked := @Sound.recheck T seconds key { zone with held := true } world (sound.hold true) rfl
        fun mtim found isNone => (changes answer mtim found isNone).2
      exact ⟨_, _, rfl, ⟨checked.1.data, checked.1.held, checked.1.fresh, checked.1.failed⟩, checked.2⟩

/-! ## Loads -/

theorem loadData_sound {path : List UInt8} (name : zone.name = CString.text key) (isPath : path = zone.path) :
    Sound key (loadData world path zone) := by
  subst isPath
  unfold loadData
  cases found : world.stat zone.path with
  | none => exact ⟨name, fun data wrong => (by cases wrong)⟩
  | some mtim => exact @alloc_sound T key { zone with mtim := mtim, known := true } world name rfl found

/-- Zones that differ in the modification time at most, and only if that is what
`stat` left. -/
def Alike (zone other : Zone T) : Prop := ∃ mtim, other = { zone with mtim := mtim } ∧
    (zone.known = true → mtim = zone.mtim)

theorem Alike.refl (zone : Zone T) : Alike zone zone := ⟨zone.mtim, rfl, fun _ => rfl⟩

theorem Alike.hold {other : Zone T} (alike : Alike zone other) (held : Bool) :
    Alike { zone with held := held } { other with held := held } := by
  rcases alike with ⟨mtim, rfl, known⟩
  exact ⟨mtim, rfl, known⟩

theorem Alike.returnUsable {other : Zone T} (alike : Alike zone other) :
    (KitTimezone.returnUsable other).1 = (KitTimezone.returnUsable zone).1 ∧
      Alike (KitTimezone.returnUsable zone).2 (KitTimezone.returnUsable other).2 := by
  rcases alike with ⟨mtim, rfl, known⟩
  unfold KitTimezone.returnUsable
  dsimp only
  by_cases some : zone.tzdata.isSome = true
  · rw [if_pos some, if_pos some]
    exact ⟨rfl, mtim, rfl, known⟩
  · rw [if_neg some, if_neg some]
    exact ⟨rfl, mtim, rfl, known⟩

theorem Alike.recheck {other : Zone T} (alike : Alike zone other) (sound : Sound key zone) (left : Timespec)
    (changes : ∀ mtim, world.stat zone.path = some mtim → zone.tzdata = none → zone.known = true) :
    (KitTimezone.recheck { world with left := left } other).1 = (KitTimezone.recheck world zone).1 ∧
      Alike (KitTimezone.recheck world zone).2 (KitTimezone.recheck { world with left := left } other).2 := by
  rcases alike with ⟨mtim, isOther, same⟩
  cases found : world.stat zone.path with
  | none =>
      subst isOther
      rw [recheck_missing found, @recheck_missing T { zone with mtim := mtim } { world with left := left } found]
      exact ⟨rfl, left, rfl, fun wrong => (by cases wrong)⟩
  | some now =>
      have known : zone.known = true := by
        cases isData : zone.tzdata with
        | none => exact changes now found isData
        | some data => exact (sound.loaded data isData).1
      rw [same known] at isOther
      rw [isOther]
      by_cases unchanged : now = zone.mtim
      · subst unchanged
        rw [recheck_unchanged found, @recheck_unchanged T zone { world with left := left } found]
        exact ⟨rfl, Alike.refl _⟩
      · rw [recheck_changed found unchanged, @recheck_changed T zone { world with left := left } now found unchanged]
        exact ⟨rfl, Alike.refl _⟩

/-- A lock returns the same whatever a `stat` that failed has left. -/
theorem Alike.lock {other after : Zone T} {returned : Bool} (alike : Alike zone other) (sound : Sound key zone)
    (left : Timespec)
    (changes : recent seconds world.now zone.timeChecked = .ok false → ∀ mtim, world.stat zone.path = some mtim →
      zone.tzdata = none → zone.known = true ∧ mtim ≠ zone.mtim)
    (done : KitTimezone.lock seconds world zone = .ok (returned, after)) :
    ∃ next, KitTimezone.lock seconds { world with left := left } other = .ok (returned, next) ∧ Alike after next := by
  have held : other.held = zone.held := by
    rcases alike with ⟨mtim, rfl, -⟩
    rfl
  have checked : other.timeChecked = zone.timeChecked := by
    rcases alike with ⟨mtim, rfl, -⟩
    rfl
  unfold KitTimezone.lock at done ⊢
  rw [held]
  split at done
  · cases done
  · rename_i free
    rw [if_neg free]
    rcases bind_ok done with ⟨isRecent, answer, done⟩
    have otherAnswer : recent seconds world.now other.timeChecked = .ok isRecent := by
      rw [checked]
      exact answer
    dsimp only
    rw [otherAnswer, ok_bind]
    cases isRecent with
    | true =>
        have same := (alike.hold true).returnUsable
        rw [if_pos rfl] at done ⊢
        rw [Except.ok.inj done] at same
        refine ⟨_, ?_, same.2⟩
        exact congrArg Except.ok (Prod.ext same.1 rfl)
    | false =>
        have same := @Alike.recheck T key { zone with held := true } world _ (alike.hold true) (sound.hold true) left
          fun mtim found isNone => (changes answer mtim found isNone).1
        rw [if_neg (by decide)] at done ⊢
        rw [Except.ok.inj done] at same
        refine ⟨_, ?_, same.2⟩
        exact congrArg Except.ok (Prod.ext same.1 rfl)

theorem Alike.loadData {other : Zone T} (alike : Alike zone other) (path : List UInt8) (left : Timespec) :
    KitTimezone.loadData { world with left := left } path other = KitTimezone.loadData world path zone := by
  rcases alike with ⟨mtim, rfl, -⟩
  unfold KitTimezone.loadData
  cases world.stat path with
  | none => rfl
  | some found => rfl

end

/-! ## The cache -/

def CacheSound (cache : Cache T) : Prop := ∀ key zone, cache key = some zone → Sound key zone

/-- Two caches have the same keys, with zones that are alike. -/
def CacheAlike (cache other : Cache T) : Prop := ∀ key, Option.Rel Alike (cache key) (other key)

section

variable {cache next other : Cache T} {answer : Option (List UInt8)}

theorem CacheSound.update (sound : CacheSound cache) {key : List UInt8} {zone : Zone T} (isZone : Sound key zone) :
    CacheSound (Function.update cache key (some zone)) := by
  intro place found isFound
  by_cases same : place = key
  · subst same
    rw [Function.update_self] at isFound
    cases isFound
    exact isZone
  · rw [Function.update_of_ne same] at isFound
    exact sound place found isFound

theorem CacheAlike.update (alike : CacheAlike cache other) (key : List UInt8) {zone after : Zone T}
    (isZone : Alike zone after) :
    CacheAlike (Function.update cache key (some zone)) (Function.update other key (some after)) := by
  intro place
  by_cases same : place = key
  · subst same
    rw [Function.update_self, Function.update_self]
    exact .some isZone
  · rw [Function.update_of_ne same, Function.update_of_ne same]
    exact alike place

/-- A zone is loaded the same whatever a `stat` that failed has left, and is sound. -/
theorem loadZone_both {world : World T} {name key : List UInt8} {len : Nat} {zone after : Zone T}
    (sound : CacheSound cache)
    (alike : CacheAlike cache other) (isName : zone.name = CString.text key) (isAlike : Alike zone after)
    (isKey : cacheKey name len = .ok key) (whole : name.head? = some 47 → CString.text name = CString.text key)
    (left : Timespec)
    (done : loadZone world name key zone cache = .ok (answer, next)) :
    CacheSound next ∧ ∃ reached, loadZone { world with left := left } name key after other = .ok (answer, reached) ∧
      CacheAlike next reached := by
  unfold loadZone at done ⊢
  rcases bind_ok done with ⟨path, isPath, done⟩
  have isAfterPath : loadPath name after = .ok path := by
    rcases isAlike with ⟨mtim, rfl, -⟩
    exact isPath
  rw [isAfterPath, ok_bind]
  dsimp only
  rw [isAlike.loadData path left]
  cases done
  refine ⟨sound.update (loadData_sound isName (loadPath_eq isName isKey whole isPath)), _, rfl, ?_⟩
  exact alike.update key (Alike.refl _)

theorem load_both {world : World T} {memory : Bool} {name : List UInt8} {len : Nat} (sound : CacheSound cache)
    (alike : CacheAlike cache other) (meets : (Call.load name len memory world).Meets seconds cache) (left : Timespec)
    (done : load seconds world memory name len cache = .ok (answer, next)) :
    CacheSound next ∧ ∃ reached, load seconds { world with left := left } memory name len other =
      .ok (answer, reached) ∧
      CacheAlike next reached := by
  unfold load at done ⊢
  rcases bind_ok done with ⟨key, isKey, done⟩
  have pair := alike key
  rw [isKey, ok_bind]
  cases isZone : cache key with
  | none =>
      rw [isZone] at done pair
      cases isOther : other key with
      | some zone =>
          rw [isOther] at pair
          cases pair
      | none =>
          dsimp only at done ⊢
          cases memory with
          | false =>
              cases done
              exact ⟨sound, other, rfl, alike⟩
          | true =>
              exact loadZone_both sound alike (Sound.newZone key world.now).name (Alike.refl _) isKey
                (meets key isKey (.inl ⟨isZone, rfl⟩)) left done
  | some zone =>
      rw [isZone] at done pair
      cases isOther : other key with
      | none =>
          rw [isOther] at pair
          cases pair
      | some after =>
          rw [isOther] at pair
          have zoneAlike : Alike zone after := by
            cases pair
            assumption
          have tzdata : after.tzdata = zone.tzdata := by
            rcases zoneAlike with ⟨mtim, rfl, -⟩
            rfl
          have checked : after.timeChecked = zone.timeChecked := by
            rcases zoneAlike with ⟨mtim, rfl, -⟩
            rfl
          dsimp only at done ⊢
          rw [tzdata, checked]
          split at done
          · rename_i some
            cases done
            rw [if_pos some]
            exact ⟨sound, other, rfl, alike⟩
          · rename_i isNone
            rw [if_neg isNone]
            rcases bind_ok done with ⟨isRecent, isAnswer, done⟩
            rw [isAnswer, ok_bind]
            cases isRecent with
            | true =>
                cases done
                exact ⟨sound, other, rfl, alike⟩
            | false =>
                have checks : Checks seconds cache world memory key :=
                  .inr ⟨zone, isZone, Option.not_isSome_iff_eq_none.mp isNone, isAnswer⟩
                have nowAlike : Alike { zone with timeChecked := world.now }
                  { after with timeChecked := world.now } := by
                  rcases zoneAlike with ⟨mtim, rfl, known⟩
                  exact ⟨mtim, rfl, known⟩
                have isName : Zone.name { zone with timeChecked := world.now } = CString.text key :=
                  (sound key zone isZone).name
                exact loadZone_both sound alike isName nowAlike isKey (meets key isKey checks) left done

/-- An operation on a zone is one on the cache. -/
theorem onZone_both {key : List UInt8} {first second : Zone T → Except Stop (Bool × Zone T)} (sound : CacheSound cache)
    (alike : CacheAlike cache other)
    (both : ∀ zone after returned locked, cache key = some zone → Alike zone after →
      first zone = .ok (returned, locked) →
      Sound key locked ∧ ∃ reached, second after = .ok (returned, reached) ∧ Alike locked reached)
    (done : onZone key first cache = .ok (answer, next)) :
    CacheSound next ∧ ∃ reached, onZone key second other = .ok (answer, reached) ∧ CacheAlike next reached := by
  unfold onZone at done ⊢
  have pair := alike key
  cases isZone : cache key with
  | none =>
      rw [isZone] at done
      cases done
  | some zone =>
      rw [isZone] at done pair
      cases isOther : other key with
      | none =>
          rw [isOther] at pair
          cases pair
      | some after =>
          rw [isOther] at pair
          have zoneAlike : Alike zone after := by
            cases pair
            assumption
          rcases bind_ok done with ⟨⟨returned, locked⟩, isLocked, done⟩
          rcases both zone after returned locked isZone zoneAlike isLocked with ⟨isSound, reached, isReached, isAlike⟩
          cases done
          dsimp only
          rw [isReached, ok_bind]
          exact ⟨sound.update isSound, _, rfl, alike.update key isAlike⟩

theorem lock_both {world : World T} {key : List UInt8} (sound : CacheSound cache) (alike : CacheAlike cache other)
    (meets : (Call.lock key world).Meets seconds cache) (left : Timespec)
    (done : onZone key (lock seconds world) cache = .ok (answer, next)) :
    CacheSound next ∧ ∃ reached, onZone key (lock seconds { world with left := left }) other = .ok (answer, reached) ∧
      CacheAlike next reached := by
  refine onZone_both sound alike (fun zone after returned locked isZone isAlike isLocked => ?_) done
  have fine := meets zone isZone
  have free : zone.held = false := by
    unfold lock at isLocked
    split at isLocked
    · cases isLocked
    · rename_i free
      exact Bool.eq_false_iff.mpr free
  rcases (sound key zone isZone).lock free fine.1 fine.2 with ⟨_, _, isSame, -, isSound⟩
  cases isLocked.symm.trans isSame
  exact ⟨isSound, isAlike.lock (sound key zone isZone) left fine.2 isLocked⟩

theorem unlock_both {key : List UInt8} (sound : CacheSound cache) (alike : CacheAlike cache other)
    (done : (Call.unlock key).run seconds cache = .ok (answer, next)) :
    CacheSound next ∧ ∃ reached, (Call.unlock key).run seconds other = .ok (answer, reached) ∧
      CacheAlike next reached := by
  refine onZone_both sound alike (fun zone after returned locked isZone isAlike isLocked => ?_) done
  have held : after.held = zone.held := by
    rcases isAlike with ⟨mtim, rfl, -⟩
    rfl
  rcases bind_ok isLocked with ⟨released, isReleased, isLocked⟩
  unfold unlock at isReleased ⊢
  rw [held]
  split at isReleased
  · rename_i isHeld
    cases isReleased
    cases isLocked
    rw [if_pos isHeld]
    exact ⟨(sound key zone isZone).hold false, _, rfl, isAlike.hold false⟩
  · cases isReleased

/-- A step keeps zones sound, and answers the same whatever a `stat` that failed has
left. -/
theorem Call.run_both {call : Call T} (sound : CacheSound cache) (alike : CacheAlike cache other)
    (meets : call.Meets seconds cache)
    (left : Timespec) (done : call.run seconds cache = .ok (answer, next)) :
    CacheSound next ∧ ∃ reached, (call.withLeft left).run seconds other = .ok (answer, reached) ∧
      CacheAlike next reached := by
  cases call with
  | load name len memory world => exact load_both sound alike meets left done
  | lock key world => exact lock_both sound alike meets left done
  | unlock key => exact unlock_both sound alike done

end

/-! ## Runs -/

/-- The calls and answers of a history, with something else left by each `stat` that
failed. -/
def SameButLeft (history other : History (Call T) (Option (List UInt8))) : Prop :=
  List.Forall₂ (fun done same => ∃ left, same = (done.1.withLeft left, done.2)) history other

/-- In a run, zones remain sound, and the answers do not depend on what was left. -/
theorem run_both {history : History (Call T) (Option (List UInt8))} {cache : Cache T}
    (run : Run (step seconds) (fun _ cache call => call.Meets seconds cache) (fun _ => none) history cache) :
    CacheSound cache ∧ ∀ other, SameButLeft history other →
      ∃ reached, Run (step seconds) (fun _ _ _ => True) (fun _ => none) other reached ∧ CacheAlike cache reached := by
  induction run with
  | start =>
      refine ⟨fun key zone wrong => (by cases wrong), fun other same => ?_⟩
      rw [List.forall₂_nil_left_iff.mp same]
      exact ⟨_, .start, fun key => .none⟩
  | step before meets stepped ih =>
      rename_i history cache next call answer
      have done : call.run seconds cache = .ok (answer, next) := by
        unfold step at stepped
        split at stepped
        · rename_i result isResult
          cases stepped
          exact isResult
        · cases stepped
      have self : CacheAlike cache cache := by
        intro key
        cases cache key with
        | none => exact .none
        | some zone => exact .some (Alike.refl zone)
      refine ⟨(Call.run_both ih.1 self meets ⟨0, 0⟩ done).1, fun other same => ?_⟩
      rcases List.forall₂_cons_left_iff.mp same with ⟨last, others, ⟨left, isLast⟩, isOthers, isHistory⟩
      rcases ih.2 others isOthers with ⟨reached, isRun, alike⟩
      rcases (Call.run_both ih.1 alike meets left done).2 with ⟨after, isAfter, afterAlike⟩
      subst isLast isHistory
      refine ⟨after, .step isRun trivial ?_, afterAlike⟩
      unfold step
      rw [isAfter]

end

/-- In every run whose loads of absolute names are of whole names, and whose locks
find no file of a zone without data that has the modification time remembered, or
where that was left by a `stat` that failed: the next such lock of a zone that
nobody holds returns, what it returns is usable, and no answer depends on what was
left. -/
theorem locked_zones_usable {T : Type} {seconds : UInt32}
    {history : History (Call T) (Option (List UInt8))} {cache : Cache T}
    (run : Run (step seconds) (fun _ cache call => call.Meets seconds cache) (fun _ => none) history cache) :
    (∀ key zone world, cache key = some zone → zone.held = false → (Call.lock key world).Meets seconds cache →
      ∃ returned after, lock seconds world zone = .ok (returned, after) ∧ Usable seconds world zone returned after) ∧
      ∀ other, SameButLeft history other →
        ∃ reached, Run (step seconds) (fun _ _ _ => True) (fun _ => none) other reached := by
  have both := run_both run
  constructor
  · intro key zone world isZone free meets
    rcases (both.1 key zone isZone).lock free (meets zone isZone).1 (meets zone isZone).2 with
      ⟨returned, after, done, usable, -⟩
    exact ⟨returned, after, done, usable⟩
  · intro other same
    rcases both.2 other same with ⟨reached, isRun, -⟩
    exact ⟨reached, isRun⟩

/-- A zone is loaded, and found unchanged when it is locked. -/
theorem locked_zones_usable_loaded : ∃ (zone : Zone Unit) (returned : Bool) (after : Zone Unit),
    lock 0 ⟨0, fun _ => some ⟨1, 0⟩, ⟨0, 0⟩, fun _ => none⟩ zone = .ok (returned, after) ∧ zone.tzdata = some () ∧
      Usable 0 ⟨0, fun _ => some ⟨1, 0⟩, ⟨0, 0⟩, fun _ => none⟩ zone returned after := by
  have run : ∃ (cache : Cache Unit) (zone : Zone Unit),
    Run (step 0) (fun _ cache call => call.Meets 0 cache) (fun _ => none)
      [(.load [85, 84, 67, 0] 0 true ⟨0, fun _ => some ⟨1, 0⟩, ⟨0, 0⟩, fun _ => some ()⟩, some [85, 84, 67])] cache ∧
      cache [85, 84, 67] = some zone ∧ zone.held = false ∧ zone.tzdata = some () := by
    refine ⟨_, _, .step .start (fun key isKey checks wrong => ?_) rfl, rfl, rfl, rfl⟩
    exact absurd (Option.some.inj wrong) (by decide)
  rcases run with ⟨cache, zone, run, isZone, free, isData⟩
  have meets : (Call.lock [85, 84, 67] ⟨0, fun _ => some ⟨1, 0⟩, ⟨0, 0⟩, fun _ => none⟩).Meets 0 cache := by
    intro other isOther
    cases isZone.symm.trans isOther
    refine ⟨fun wrong => (by cases wrong), fun _ mtim _ isNone => ?_⟩
    exact absurd (isData.symm.trans isNone) (Option.some_ne_none ())
  rcases (locked_zones_usable run).1 [85, 84, 67] zone _ isZone free meets with ⟨returned, after, done, usable⟩
  exact ⟨zone, returned, after, done, isData, usable⟩

/-- A file that changes to one that cannot be loaded is taken for unchanged when the
zone is locked once more. -/
theorem locked_without_data : ¬ ∀ (history : History (Call Unit) (Option (List UInt8))) (cache : Cache Unit),
    Run (step 0) (fun _ _ _ => True) (fun _ => none) history cache → ∀ key zone world, cache key = some zone →
      ∀ returned after, lock 0 world zone = .ok (returned, after) → Usable 0 world zone returned after := by
  intro always
  have run : ∃ (cache : Cache Unit) (zone after : Zone Unit), Run (step 0) (fun _ _ _ => True) (fun _ => none)
      [(.lock [85, 84, 67] ⟨0, fun _ => some ⟨2, 0⟩, ⟨0, 0⟩, fun _ => none⟩, none),
        (.load [85, 84, 67, 0] 0 true ⟨0, fun _ => some ⟨1, 0⟩, ⟨0, 0⟩, fun _ => some ()⟩, some [85, 84, 67])] cache ∧
      cache [85, 84, 67] = some zone ∧
      lock 0 ⟨0, fun _ => some ⟨2, 0⟩, ⟨0, 0⟩, fun _ => none⟩ zone = .ok (true, after) ∧ after.tzdata = none :=
    ⟨_, _, _, .step (.step .start trivial rfl) trivial rfl, rfl, rfl, rfl⟩
  rcases run with ⟨cache, zone, after, run, isZone, done, isNone⟩
  exact (always _ cache run _ zone _ isZone true after done).data rfl isNone

end KitTimezone
end LibKit
