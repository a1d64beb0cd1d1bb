import LibKit.Support.CString
import LibKit.Support.Results
import LibKit.Support.Runs

namespace LibKit
namespace SxeFactory

/-!
# `sxe-factory.c`

A factory collects data in one block, which is allocated when space is first
reserved, and grows after that.  What `kit_realloc` answers is given to the
calls: nothing if it fails, and else the bytes that it finds behind what it
keeps.
-/

/-- `struct sxe_factory`; the block is the list of its bytes. -/
structure Factory where
  len : UInt64
  size : UInt64
  maxincr : UInt64
  data : Option (List UInt8)
deriving DecidableEq

/-- How a call ends without returning: its loop goes on for ever, or it reads or
writes outside of an object. -/
inductive Stop where
  | endless
  | outside
deriving DecidableEq

/-- `sxe_factory_alloc_make` -/
def allocMake (minsize maxincr : UInt64) : Factory :=
  ⟨0, if minsize ≠ 0 then minsize else 8, if maxincr ≠ 0 then maxincr else 4096, none⟩

/-- `kit_realloc` -/
def kitRealloc (block : Option (List UInt8)) (size : UInt64) (answer : Option (Nat → UInt8)) : Option (List UInt8) :=
  answer.map fun fresh => (List.range size.toNat).map fun index => ((block.getD [])[index]?).getD (fresh index)

/-- The loop of `sxe_factory_reserve`. -/
def grow (needed maxincr : UInt64) : Nat → UInt64 → Option UInt64
  | 0, newsize => if newsize < needed then none else some newsize
  | fuel + 1, newsize =>
      if newsize < needed then grow needed maxincr fuel (if maxincr ≤ newsize then newsize + maxincr else newsize <<< 1)
      else some newsize

/-- `sxe_factory_reserve`, which returns a place in the block.  After 2^64 rounds
its loop has come to some size twice. -/
def reserve (len : UInt64) (answer : Option (Nat → UInt8)) (factory : Factory) :
    Except Stop (Option UInt64 × Factory) :=
  let needed := factory.len + len + 1
  if factory.size < needed ∨ factory.data = none then
    match grow needed factory.maxincr (2 ^ 64) factory.size with
    | none => .error .endless
    | some newsize =>
        match kitRealloc factory.data newsize answer with
        | none => .ok (none, factory)
        | some newdata => .ok (some factory.len, { factory with data := some newdata, size := newsize })
  else .ok (some factory.len, factory)

def store (place : UInt64) (bytes : List UInt8) (factory : Factory) : Except Stop Factory :=
  match factory.data with
  | none => .error .outside
  | some data =>
      if place.toNat + bytes.length ≤ data.length then
        .ok { factory with data := some (data.take place.toNat ++ bytes ++ data.drop (place.toNat + bytes.length)) }
      else .error .outside

/-- `sxe_factory_commit` -/
def commit (len : UInt64) (factory : Factory) : Except Stop Factory :=
  store (factory.len + len) [0] { factory with len := factory.len + len }

/-- `sxe_factory_add` of the bytes that can be read from a pointer. -/
def add (data : List UInt8) (len : UInt64) (answer : Option (Nat → UInt8)) (factory : Factory) :
    Except Stop (Int64 × Factory) :=
  match if len ≠ 0 then some len else (CString.strlen data).map UInt64.ofNat with
  | none => .error .outside
  | some len => do
      let (reservation, factory) ← reserve len answer factory
      match reservation with
      | none => .ok (-1, factory)
      | some place =>
          if data.length < len.toNat then .error .outside
          else do
            let factory ← store place (data.take len.toNat) factory
            let factory ← commit len factory
            .ok (len.toInt64, factory)

/-- `sxe_factory_look` -/
def look (factory : Factory) : Option (List UInt8) × UInt64 := (factory.data, factory.len)

/-- `sxe_factory_remove` -/
def remove (answer : Option (Nat → UInt8)) (factory : Factory) : (Option (List UInt8) × UInt64) × Factory :=
  let (data, len) := look factory
  let data :=
    if factory.len + 1 < factory.size then
      match kitRealloc factory.data (factory.len + 1) answer with
      | some shrunk => some shrunk
      | none => factory.data
    else data
  ((data, len), { factory with data := none, len := 0 })

/-! ## Calls -/

/-- The calls of a program, which writes to what it reserved and commits a part
of that. -/
inductive Call where
  | add (data : List UInt8) (len : UInt64) (answer : Option (Nat → UInt8))
  | reserve (len : UInt64) (written : List UInt8) (count : UInt64) (answer : Option (Nat → UInt8))
  | look
  | remove (answer : Option (Nat → UInt8))

inductive Answer where
  | added (result : Int64)
  | reserved (place : Option UInt64)
  | seen (data : Option (List UInt8)) (len : UInt64)
deriving DecidableEq

def Call.run (factory : Factory) : Call → Except Stop (Answer × Factory)
  | .add data len answer => do
      let (result, factory) ← SxeFactory.add data len answer factory
      .ok (.added result, factory)
  | .reserve len written count answer => do
      let (reservation, factory) ← SxeFactory.reserve len answer factory
      match reservation with
      | none => .ok (.reserved none, factory)
      | some place => do
          let factory ← store place written factory
          let factory ← commit count factory
          .ok (.reserved (some place), factory)
  | .look => .ok (.seen factory.data factory.len, factory)
  | .remove answer =>
      let ((data, len), factory) := SxeFactory.remove answer factory
      .ok (.seen data len, factory)

def step (factory : Factory) (call : Call) : Option (Answer × Factory) :=
  match call.run factory with
  | .ok done => some done
  | .error _ => none

end SxeFactory
end LibKit
