import LibKit.KitSortedArray.SortedSet

namespace LibKit
namespace KitSortedArray

open Pointer (advance)

/-!
# Comparisons that fail

A comparison that fails returns `INT_MAX`, which is greater than zero.  Getting
and deleting elements stops there.  `kit_sortedarray_add_elem` takes a failed
comparison with the last element for one that is out of order, and the index
`~0U` of a failed search for a position.
-/

/-! ## The comparisons of a search -/

section

variable {Key Elem State : Type} [Pointer Key] [Pointer Elem]

/-- The indexes that the loop of `kit_sortedarray_find_key` looks at. -/
def probesLoop (cls : ArrayClass Key Elem State) (array : Elem) (key : Key) : Nat → Nat → Nat → List Nat
  | 0, _, _ => []
  | fuel + 1, pos, lim =>
      if lim = 0 then []
      else
        let i := pos + lim / 2
        let cmp := cls.cmp key (keyAt cls array i)
        i ::
          if cmp = 0 then []
          else if cmp = cmpError ∧ cls.cmpCanFail then []
          else if cmp > 0 then probesLoop cls array key fuel (i + 1) ((lim - 1) / 2)
          else probesLoop cls array key fuel pos (lim / 2)

/-- The indexes of the elements with which a search compares a key. -/
def probes (cls : ArrayClass Key Elem State) (array : Elem) (count : Nat) (key : Key) : List Nat :=
  probesLoop cls array key count 0 count

variable {cls : ArrayClass Key Elem State}

omit [Pointer Key] in
/-- A search fails where a comparison does, and matches where one finds the key
equal. -/
theorem findKeyLoop_probes (canFail : cls.cmpCanFail = true) (array : Elem) (key : Key) (fuel pos lim : Nat) :
    (findKeyLoop cls array key fuel pos lim = none ↔
      ∃ i ∈ probesLoop cls array key fuel pos lim, cls.cmp key (keyAt cls array i) = cmpError) ∧
    ((∃ found, findKeyLoop cls array key fuel pos lim = some (found, true)) ↔
      ∃ i ∈ probesLoop cls array key fuel pos lim, cls.cmp key (keyAt cls array i) = 0) := by
  induction fuel generalizing pos lim with
  | zero => simp [findKeyLoop, probesLoop]
  | succ fuel ih =>
      have looked : advance array (cls.size * (pos + lim / 2) + cls.keyoffset) = keyAt cls array (pos + lim / 2) := by
        have here := @keyAt_window Key Elem State _ cls array 0 (pos + lim / 2)
        rwa [elemAt_zero, Nat.zero_add] at here
      rw [findKeyLoop, probesLoop]
      by_cases empty : lim = 0
      · simp [empty]
      · simp only [if_neg empty, looked]
        by_cases same : cls.cmp key (keyAt cls array (pos + lim / 2)) = 0
        · have ok : (0 : Int) ≠ cmpError := by decide
          simp [same, ok]
        · by_cases failed : cls.cmp key (keyAt cls array (pos + lim / 2)) = cmpError
          · have unequal : cmpError ≠ 0 := by decide
            simp [failed, canFail, unequal]
          · by_cases greater : cls.cmp key (keyAt cls array (pos + lim / 2)) > 0
            · simp only [same, failed, greater, false_and, if_false, if_true, List.mem_cons, exists_eq_or_imp, false_or]
              exact ih _ _
            · simp only [same, failed, greater, false_and, if_false, List.mem_cons, exists_eq_or_imp, false_or]
              exact ih _ _

omit [Pointer Key] in
theorem findKey_none_iff (canFail : cls.cmpCanFail = true) (array : Elem) (count : Nat) (key : Key) :
    findKey cls array count key = none ↔ ∃ i ∈ probes cls array count key, cls.cmp key (keyAt cls array i) = cmpError :=
  (findKeyLoop_probes canFail array key count 0 count).1

omit [Pointer Key] in
theorem findKey_matched_iff (canFail : cls.cmpCanFail = true) (array : Elem) (count : Nat) (key : Key) :
    (∃ found, findKey cls array count key = some (found, true)) ↔
      ∃ i ∈ probes cls array count key, cls.cmp key (keyAt cls array i) = 0 :=
  (findKeyLoop_probes canFail array key count 0 count).2

end

/-! ## Calls with a comparison that fails -/

/-- A search for a key compares it with an element and fails. -/
def SearchFails (cls : SetClass) (slots : Slots) (key : Address UInt8) : Prop :=
  ∃ i ∈ probes cls.toArrayClass (⟨slots.array.getD [], 0⟩ : Address UInt8) slots.count key,
    cls.cmp key (keyAt cls.toArrayClass ⟨slots.array.getD [], 0⟩ i) = cmpError

/-- A comparison of a call fails.  An element that is added is compared with the
last one, and is searched for if that is greater and inserts are allowed. -/
def Fails (cls : SetClass) (slots : Slots) : Call → Prop
  | .add element _ =>
      0 < slots.count ∧
        let cmp := cls.cmp (keyAt cls.toArrayClass ⟨slots.array.getD [], 0⟩ (slots.count - 1)) ⟨element, cls.keyoffset⟩
        (cmp = cmpError ∨ 0 < cmp ∧ cls.allowInserts = true ∧ SearchFails cls slots ⟨element, cls.keyoffset⟩)
  | .get key => SearchFails cls slots ⟨key, 0⟩
  | .find key => SearchFails cls slots ⟨key, 0⟩
  | .delete key => SearchFails cls slots ⟨key, 0⟩

def refusal : Call → Answer
  | .add _ _ => .slot none
  | .get _ => .slot none
  | .find _ => .found (2 ^ 32 - 1) false
  | .delete _ => .deleted false

/-- An element is not added for another reason: inserts are not allowed, there
is no room and it is not allowed to grow or there is no memory, or the search
for its key finds it equal to another element. -/
def Refused (cls : SetClass) (slots : Slots) : Call → Prop
  | .add element grant =>
      cls.allowInserts = false ∨ (slots.count = slots.alloc ∧ cls.allowGrowth = false) ∨
        (slots.Full ∧ grant (requested cls slots) = none) ∨
          ∃ i ∈ probes cls.toArrayClass (⟨slots.array.getD [], 0⟩ : Address UInt8) slots.count ⟨element, cls.keyoffset⟩,
            cls.cmp ⟨element, cls.keyoffset⟩ (keyAt cls.toArrayClass ⟨slots.array.getD [], 0⟩ i) = 0
  | _ => True

variable {cls : SetClass}

/-- There is no memory where it is needed and not granted. -/
theorem grow_none_iff (cls : SetClass) (grant : Grant) (slots : Slots) :
    grow cls grant slots = none ↔ slots.Full ∧ grant (requested cls slots) = none := by
  rw [grow, Slots.Full]
  cases array : slots.array with
  | none => simp [realloc]
  | some block =>
      dsimp only
      have spare := more_eq_zero_iff slots
      by_cases none : more slots = 0
      · simp [none, spare.mp none]
      · have full : slots.count = slots.alloc := by
          by_contra other
          exact none (spare.mpr other)
        simp [none, full, realloc]

/-- An element is not added exactly if it has no position or there is no room
for it. -/
theorem addElem_refused_iff (grant : Grant) (slots : Slots) (element : List UInt8) :
    addElem cls grant slots element = some (none, slots) ↔
      position cls (slots.array.getD []) slots.count element = none ∨
        (slots.count = slots.alloc ∧ cls.allowGrowth = false) ∨
        (slots.Full ∧ grant (requested cls slots) = none) := by
  rw [addElem, ← grow_none_iff]
  cases position cls (slots.array.getD []) slots.count element with
  | none => simp
  | some pos =>
      dsimp only
      by_cases full : slots.count = slots.alloc ∧ ¬ cls.allowGrowth = true
      · rw [if_pos full]
        have refused : cls.allowGrowth = false := by simpa using full.2
        simp [full.1, refused]
      · rw [if_neg full]
        have room : ¬ (slots.count = slots.alloc ∧ cls.allowGrowth = false) := by simpa using full
        cases grown : grow cls grant slots with
        | none => simp
        | some memory =>
            rcases memory with ⟨block, alloc⟩
            cases inserted : insertAt cls block pos slots.count element <;> simp [inserted, room]

/-- Where a comparison fails, there is no position if inserts are not allowed or
the search still finds the key. -/
theorem position_none_iff (canFail : cls.cmpCanFail = true) {slots : Slots} {element : List UInt8} {grant : Grant}
    (fails : Fails cls slots (.add element grant)) :
    position cls (slots.array.getD []) slots.count element = none ↔ cls.allowInserts = false ∨
      ∃ i ∈ probes cls.toArrayClass (⟨slots.array.getD [], 0⟩ : Address UInt8) slots.count ⟨element, cls.keyoffset⟩,
        cls.cmp ⟨element, cls.keyoffset⟩ (keyAt cls.toArrayClass ⟨slots.array.getD [], 0⟩ i) = 0 := by
  rcases fails with ⟨some, failed⟩
  have greater : 0 < cls.cmp (keyAt cls.toArrayClass ⟨slots.array.getD [], 0⟩ (slots.count - 1)) ⟨element,
    cls.keyoffset⟩ := by
    rcases failed with is | ⟨positive, -⟩
    · rw [is]
      decide
    · exact positive
  rw [position, if_neg (by omega)]
  dsimp only
  rw [if_neg (by omega), if_pos greater, ← findKey_matched_iff canFail]
  cases inserts : cls.allowInserts with
  | false => simp
  | true =>
      cases searched : findKey cls.toArrayClass (⟨slots.array.getD [], 0⟩ : Address UInt8) slots.count
        ⟨element, cls.keyoffset⟩ with
      | none => simp
      | some found =>
          rcases found with ⟨pos, matched⟩
          cases matched <;> simp

/-- A call of which a comparison fails returns null or false and leaves the
array as it was, if and only if it is not to add an element or the element is
refused for another reason.  Otherwise an element is stored, in place of the
index `~0U` or between elements. -/
theorem failing_comparison_refused_iff (canFail : cls.cmpCanFail = true) {slots : Slots} {call : Call}
    (fails : Fails cls slots call) :
    perform cls slots call = some (refusal call, slots) ↔ Refused cls slots call := by
  cases call with
  | add element grant =>
      have added : perform cls slots (.add element grant) = some (refusal (.add element grant), slots) ↔
          addElem cls grant slots element = some (none, slots) := by
        rw [perform, refusal]
        cases addElem cls grant slots element with
        | none => simp
        | some result => simp [Prod.ext_iff]
      rw [added, addElem_refused_iff, position_none_iff canFail fails, Refused, or_assoc]
      exact or_congr_right (or_comm.trans or_assoc)
  | get key =>
      have none := (findKey_none_iff canFail (⟨slots.array.getD [], 0⟩ : Address UInt8) slots.count ⟨key, 0⟩).mpr fails
      refine iff_of_true ?_ trivial
      rw [perform, refusal, getElem]
      cases array : slots.array with
      | none => rfl
      | some block =>
          rw [array, Option.getD_some] at none
          dsimp only
          rw [none]
  | find key =>
      have none := (findKey_none_iff canFail (⟨slots.array.getD [], 0⟩ : Address UInt8) slots.count ⟨key, 0⟩).mpr fails
      refine iff_of_true ?_ trivial
      rw [perform, none, refusal]
  | delete key =>
      have none := (findKey_none_iff canFail (⟨slots.array.getD [], 0⟩ : Address UInt8) slots.count ⟨key, 0⟩).mpr fails
      refine iff_of_true ?_ trivial
      rw [perform, refusal, deleteElem]
      cases array : slots.array with
      | none => rfl
      | some block =>
          rw [array, Option.getD_some] at none
          dsimp only
          split
          · rfl
          · rw [none]
            rfl

/-- Elements of a byte, of which those from 128 on cannot be compared. -/
def asciiClass (allowInserts allowGrowth : Bool) : SetClass where
  size := 1
  keyoffset := 0
  cmp first second :=
    let a := (first.tokens 1).headD 0
    let b := (second.tokens 1).headD 0
    if a < 128 ∧ b < 128 then Int.ofNat a.toNat - Int.ofNat b.toNat else cmpError
  visit _ _ := none
  cmpCanFail := true
  allowInserts := allowInserts
  allowGrowth := allowGrowth

/-- An element that cannot be compared with the one in an array of two slots is
written far behind them. -/
theorem failing_comparison_stored :
    Fails (asciiClass true false) ⟨some [65, 0], 1, 2⟩ (.add [200] fun _ => none) ∧
      position (asciiClass true false) [65, 0] 1 [200] = some (2 ^ 32 - 1) ∧
      perform (asciiClass true false) ⟨some [65, 0], 1, 2⟩ (.add [200] fun _ => none) = none ∧
      ¬ perform (asciiClass true false) ⟨some [65, 0], 1, 2⟩ (.add [200] fun _ => none) =
          some (refusal (.add [200] fun _ => none), ⟨some [65, 0], 1, 2⟩) := by
  have outside : perform (asciiClass true false) ⟨some [65, 0], 1, 2⟩ (.add [200] fun _ => none) = none := rfl
  refine ⟨⟨by decide, Or.inl (by decide)⟩, by decide, outside, ?_⟩
  rw [outside]
  exact Option.some_ne_none _ ∘ Eq.symm

/-- The same element is refused where inserts are not allowed. -/
theorem failing_comparison_refused_append :
    perform (asciiClass false true) ⟨some [65, 0], 1, 2⟩ (.add [200] fun _ => none) =
      some (refusal (.add [200] fun _ => none), ⟨some [65, 0], 1, 2⟩) := by
  have fails : Fails (asciiClass false true) ⟨some [65, 0], 1, 2⟩ (.add [200] fun _ => none) :=
    ⟨by decide, Or.inl (by decide)⟩
  exact (failing_comparison_refused_iff rfl fails).mpr (Or.inl rfl)

end KitSortedArray
end LibKit
