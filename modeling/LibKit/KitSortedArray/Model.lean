import Mathlib

namespace LibKit
namespace KitSortedArray

/-!
# Sorted arrays

`kit_sortedarray_find_key` and `kit_sortedarray_intersect` of `lib-kit` work on
arrays of any element type: an element is reached by adding its offset in
bytes to the pointer to the array.  The model keeps that arithmetic and leaves
open what a pointer is.  The functions that change an array work on its bytes.
-/

/-- Pointers that offsets in bytes can be added to. -/
class Pointer (P : Type) where
  advance : P → Nat → P
  advance_zero : ∀ pointer, advance pointer 0 = pointer
  advance_add : ∀ pointer first second, advance (advance pointer first) second = advance pointer (first + second)

open Pointer (advance)

/-- A pointer into an array: what is there from its base on, and an offset in
bytes. -/
structure Address (T : Type) where
  base : List T
  offset : Nat := 0

instance {T : Type} : Pointer (Address T) where
  advance address bytes := { address with offset := address.offset + bytes }
  advance_zero := fun _ => rfl
  advance_add := fun _ _ _ => by simp only [Nat.add_assoc]

/-- What an address points to, with elements of a width in bytes. -/
def Address.tokens {T : Type} (address : Address T) (width : Nat) : List T :=
  address.base.drop (address.offset / width)

@[simp] theorem Address.tokens_zero {T : Type} (base : List T) (width : Nat) :
    (⟨base, 0⟩ : Address T).tokens width = base := by
  simp [Address.tokens]

/-- `INT_MAX`, the result of a comparison that fails. -/
def cmpError : Int := 2147483647

/-- `kit_sortedarray_class`.  The state of a visitor is passed through, and a
visitor that returns false has no next state. -/
structure ArrayClass (Key Elem State : Type) where
  size : Nat
  keyoffset : Nat
  cmp : Key → Elem → Int
  visit : State → Key → Option State
  cmpCanFail : Bool

section

variable {Key Elem State : Type} [Pointer Key] [Pointer Elem]

/-- The loop of `kit_sortedarray_find_key`.  It halves `lim`, so `lim` turns
suffice. -/
def findKeyLoop (cls : ArrayClass Key Elem State) (array : Elem) (key : Key) :
    Nat → Nat → Nat → Option (Nat × Bool)
  | 0, pos, _ => some (pos, false)
  | fuel + 1, pos, lim =>
      if lim = 0 then some (pos, false)
      else
        let i := pos + lim / 2
        let cmp := cls.cmp key (advance array (cls.size * i + cls.keyoffset))
        if cmp = 0 then some (i, true)
        else if cmp = cmpError ∧ cls.cmpCanFail then none
        else if cmp > 0 then findKeyLoop cls array key fuel (i + 1) ((lim - 1) / 2)
        else findKeyLoop cls array key fuel pos (lim / 2)

/-- `kit_sortedarray_find_key`: the index with the match flag, or `none` for
the index `~0U` of a failed comparison. -/
def findKey (cls : ArrayClass Key Elem State) (array : Elem) (count : Nat) (key : Key) : Option (Nat × Bool) :=
  findKeyLoop cls array key count 0 count

/-- `SORTEDARRAY_ELEM` and `SORTEDARRAY_KEY` -/
def elemAt {P : Type} [Pointer P] (cls : ArrayClass Key Elem State) (array : P) (idx : Nat) : P :=
  advance array (idx * cls.size)

def keyAt {P : Type} [Pointer P] (cls : ArrayClass Key Elem State) (array : P) (idx : Nat) : P :=
  advance (elemAt cls array idx) cls.keyoffset

/-- Look up one left element in the right array and visit it on a match. -/
def visitMatch (cls : ArrayClass Key Elem State) (value : State) (left key : Key) (right : Elem)
    (rightCount : Nat) : Option State :=
  match findKey cls right rightCount key with
  | none => none
  | some (_, matched) => if matched then cls.visit value left else some value

/-- `kit_sortedarray_intersect`, where `none` is false.  Each recursion has
fewer left elements. -/
def intersect (cls : ArrayClass Key Elem State) : Nat → State → Key → Nat → Elem → Nat → Option State
  | 0, value, _, _, _, _ => some value
  | fuel + 1, value, left, leftCount, right, rightCount =>
      if leftCount = 0 ∨ rightCount = 0 then some value
      else if leftCount = 1 then visitMatch cls value left (advance left cls.keyoffset) right rightCount
      else
        let median := leftCount / 2
        match findKey cls right rightCount (keyAt cls left median) with
        | none => none
        | some (idx, matched) =>
            (if median > 0 ∧ idx > 0 then intersect cls fuel value left median right idx else some value).bind
              (fun value =>
                if matched then
                  (cls.visit value (elemAt cls left median)).bind (fun value =>
                    if median + 1 = leftCount - 1 then
                      if idx + 1 < rightCount then
                        visitMatch cls value (elemAt cls left (median + 1)) (keyAt cls left (median + 1))
                          (elemAt cls right (idx + 1)) (rightCount - (idx + 1))
                      else some value
                    else if idx + 1 < rightCount then
                      intersect cls fuel value (keyAt cls left (median + 1)) (leftCount - (median + 1))
                        (keyAt cls right (idx + 1)) (rightCount - (idx + 1))
                    else some value)
                else if idx < rightCount then
                  intersect cls fuel value (keyAt cls left (median + 1)) (leftCount - (median + 1))
                    (keyAt cls right idx) (rightCount - idx)
                else some value)

end

/-! ## Changing arrays -/

structure SetClass extends ArrayClass (Address UInt8) (Address UInt8) Unit where
  allowInserts : Bool
  allowGrowth : Bool
  zeroCopy : Bool := false

/-- What the pointers `array`, `count` and `alloc` lead to: the bytes that were
allocated, if any, and the numbers of elements and of slots. -/
structure Slots where
  array : Option (List UInt8)
  count : Nat
  alloc : Nat

/-- What `kit_realloc` does with a number of bytes: fail, or return memory with
some content. -/
abbrev Grant := Nat → Option (Nat → UInt8)

/-- `kit_realloc` of some bytes, which keeps what is in the array. -/
def realloc (grant : Grant) (array : Option (List UInt8)) (bytes : Nat) : Option (List UInt8) :=
  (grant bytes).map fun content => (List.range bytes).map fun i => (array.getD []).getD i (content i)

/-- `memcpy` into a block, where `none` is an access outside of it. -/
def store (block : List UInt8) (offset : Nat) (bytes : List UInt8) : Option (List UInt8) :=
  if offset + bytes.length ≤ block.length then
    some (block.take offset ++ (bytes ++ block.drop (offset + bytes.length)))
  else none

/-- `memmove` within a block. -/
def move (block : List UInt8) (target source length : Nat) : Option (List UInt8) :=
  if source + length ≤ block.length then store block target ((block.drop source).take length) else none

/-- The part of `kit_sortedarray_add_elem` that finds the position of an
element, if it is not refused.  A failed comparison has the position `~0U`. -/
def position (cls : SetClass) (block : List UInt8) (count : Nat) (element : List UInt8) : Option Nat :=
  if count = 0 then some 0
  else
    let key : Address UInt8 := ⟨element, cls.keyoffset⟩
    let cmp := cls.cmp (keyAt cls.toArrayClass ⟨block, 0⟩ (count - 1)) key
    if cmp = 0 then none
    else if cmp > 0 then
      if cls.allowInserts then
        match findKey cls.toArrayClass ⟨block, 0⟩ count key with
        | none => some (2 ^ 32 - 1)
        | some (pos, matched) => if matched then none else some pos
      else none
    else some count

/-- The number of slots by which an array grows. -/
def more (slots : Slots) : Nat :=
  if slots.count = slots.alloc then if slots.alloc > 100 then slots.alloc / 2 else 10 else 0

/-- The number of bytes that is asked for when an array grows. -/
def requested (cls : SetClass) (slots : Slots) : Nat := (slots.alloc + more slots) % 2 ^ 32 * cls.size % 2 ^ 64

/-- The part of `kit_sortedarray_add_elem` that allocates memory: the block and
the number of its slots. -/
def grow (cls : SetClass) (grant : Grant) (slots : Slots) : Option (List UInt8 × Nat) :=
  match slots.array with
  | none => (realloc grant none (requested cls slots)).map fun block => (block, (slots.alloc + more slots) % 2 ^ 32)
  | some block =>
      if more slots = 0 then some (block, slots.alloc)
      else
        (realloc grant (some block) (requested cls slots)).map fun block =>
          (block, (slots.alloc + more slots) % 2 ^ 32)

/-- The part of `kit_sortedarray_add_elem` that moves the elements behind a
position and writes the element there. -/
def insertAt (cls : SetClass) (block : List UInt8) (pos count : Nat) (element : List UInt8) : Option (List UInt8) :=
  (if pos < count then move block (pos * cls.size + cls.size) (pos * cls.size) ((count - pos) * cls.size)
    else some block).bind fun block =>
    if cls.zeroCopy then some block else store block (pos * cls.size) (element.take cls.size)

/-- `kit_sortedarray_add_elem`: the offset of the element, or `none` where a
null pointer is returned, and what the pointers lead to afterwards.  There is
no result if memory outside of the array would be accessed. -/
def addElem (cls : SetClass) (grant : Grant) (slots : Slots) (element : List UInt8) : Option (Option Nat × Slots) :=
  match position cls (slots.array.getD []) slots.count element with
  | none => some (none, slots)
  | some pos =>
      if slots.count = slots.alloc ∧ ¬ cls.allowGrowth then some (none, slots)
      else
        match grow cls grant slots with
        | none => some (none, slots)
        | some (block, alloc) =>
            (insertAt cls block pos slots.count element).map fun block =>
              (some (pos * cls.size), ⟨some block, slots.count + 1, alloc⟩)

/-- `kit_sortedarray_get_elem`: the offset of the element. -/
def getElem (cls : SetClass) (slots : Slots) (key : List UInt8) : Option Nat :=
  match slots.array with
  | none => none
  | some block =>
      match findKey cls.toArrayClass ⟨block, 0⟩ slots.count ⟨key, 0⟩ with
      | some (pos, true) => some (cls.size * pos)
      | _ => none

/-- `kit_sortedarray_delete_elem` -/
def deleteElem (cls : SetClass) (slots : Slots) (key : List UInt8) : Option (Bool × Slots) :=
  match slots.array with
  | none => some (false, slots)
  | some block =>
      if slots.count = 0 then some (false, slots)
      else
        match findKey cls.toArrayClass ⟨block, 0⟩ slots.count ⟨key, 0⟩ with
        | some (pos, true) =>
            (move block (pos * cls.size) ((pos + 1) * cls.size) ((slots.count - pos - 1) * cls.size)).map fun block =>
              (true, ⟨some block, slots.count - 1, slots.alloc⟩)
        | _ => some (false, slots)

end KitSortedArray
end LibKit
