import LibKit.KitSortedArray.Model
import LibKit.Support.Visits

namespace LibKit
namespace KitSortedArray

/-!
# Visitors of an intersection

`kit_sortedarray_intersect` returns false when a comparison fails and when the
visitor returns false.  The visitor's state tells which it was, so that it also
matters where the function returns false.
-/

open Pointer (advance)
open LibKit.Visits (HasCourse)

def ArrayClass.search {Key Elem State : Type} (cls : ArrayClass Key Elem State) : ArrayClass Key Elem Unit where
  size := cls.size
  keyoffset := cls.keyoffset
  cmp := cls.cmp
  visit := fun _ _ => none
  cmpCanFail := cls.cmpCanFail

section

variable {Key Elem State Failed : Type} [Pointer Key] [Pointer Elem]

/-- Look up one left element in the right array and visit it on a match.  A
comparison that fails leaves what `fails` says. -/
def visitMatchInto (cls : ArrayClass Key Elem Unit) (fails : State → Failed) (visit : State → Key → Except Failed State)
    (value : State) (left key : Key) (right : Elem) (rightCount : Nat) : Except Failed State :=
  match findKey cls right rightCount key with
  | none => .error (fails value)
  | some (_, matched) => if matched then visit value left else .ok value

/-- `kit_sortedarray_intersect`, with what the visitor left where it is
false. -/
def intersectInto (cls : ArrayClass Key Elem Unit) (fails : State → Failed)
    (visit : State → Key → Except Failed State) :
    Nat → State → Key → Nat → Elem → Nat → Except Failed State
  | 0, value, _, _, _, _ => .ok value
  | fuel + 1, value, left, leftCount, right, rightCount =>
      if leftCount = 0 ∨ rightCount = 0 then .ok value
      else if leftCount = 1 then visitMatchInto cls fails visit value left (advance left cls.keyoffset) right rightCount
      else
        let median := leftCount / 2
        match findKey cls right rightCount (keyAt cls left median) with
        | none => .error (fails value)
        | some (idx, matched) =>
            (if median > 0 ∧ idx > 0 then intersectInto cls fails visit fuel value left median right idx
              else .ok value) >>= fun value =>
              if matched then
                visit value (elemAt cls left median) >>= fun value =>
                  if median + 1 = leftCount - 1 then
                    if idx + 1 < rightCount then
                      visitMatchInto cls fails visit value (elemAt cls left (median + 1)) (keyAt cls left (median + 1))
                        (elemAt cls right (idx + 1)) (rightCount - (idx + 1))
                    else .ok value
                  else if idx + 1 < rightCount then
                    intersectInto cls fails visit fuel value (keyAt cls left (median + 1)) (leftCount - (median + 1))
                      (keyAt cls right (idx + 1)) (rightCount - (idx + 1))
                  else .ok value
              else if idx < rightCount then
                intersectInto cls fails visit fuel value (keyAt cls left (median + 1)) (leftCount - (median + 1))
                  (keyAt cls right idx) (rightCount - idx)
              else .ok value

omit [Pointer Key] in
theorem findKeyLoop_search (cls : ArrayClass Key Elem State) (array : Elem) (key : Key) (fuel pos lim : Nat) :
    findKeyLoop cls.search array key fuel pos lim = findKeyLoop cls array key fuel pos lim := by
  induction fuel generalizing pos lim with
  | zero => rfl
  | succ fuel ih =>
      simp only [findKeyLoop, ih]
      rfl

omit [Pointer Key] in
theorem findKey_search (cls : ArrayClass Key Elem State) (array : Elem) (count : Nat) (key : Key) :
    findKey cls.search array count key = findKey cls array count key := findKeyLoop_search cls array key count 0 count

omit [Pointer Key] [Pointer Elem] in
theorem elemAt_search {P : Type} [Pointer P] (cls : ArrayClass Key Elem State) (array : P) (idx : Nat) :
    elemAt cls.search array idx = elemAt cls array idx := rfl

omit [Pointer Key] [Pointer Elem] in
theorem keyAt_search {P : Type} [Pointer P] (cls : ArrayClass Key Elem State) (array : P) (idx : Nat) :
    keyAt cls.search array idx = keyAt cls array idx := rfl

theorem toOption_bind {α β : Type} (first : Except Failed α) (next : α → Except Failed β) :
    (first >>= next).toOption = first.toOption.bind fun value => (next value).toOption := by
  cases first <;> rfl

variable {cls : ArrayClass Key Elem State} {fails : State → Failed} {visit : State → Key → Except Failed State}

omit [Pointer Key] in
theorem visitMatch_eq (same : ∀ value key, cls.visit value key = (visit value key).toOption) (value : State)
    (left key : Key) (right : Elem) (rightCount : Nat) :
    visitMatch cls value left key right rightCount =
      (visitMatchInto cls.search fails visit value left key right rightCount).toOption := by
  unfold visitMatch visitMatchInto
  rw [findKey_search]
  cases findKey cls right rightCount key with
  | none => rfl
  | some found =>
      dsimp only
      split
      · exact same value left
      · rfl

/-- The function without what is left where it is false. -/
theorem intersect_eq (same : ∀ value key, cls.visit value key = (visit value key).toOption) (fuel : Nat)
    (value : State) (left : Key)
    (leftCount : Nat) (right : Elem) (rightCount : Nat) :
    intersect cls fuel value left leftCount right rightCount =
      (intersectInto cls.search fails visit fuel value left leftCount right rightCount).toOption := by
  induction fuel generalizing value left leftCount right rightCount with
  | zero => rfl
  | succ fuel ih =>
      simp only [intersect, intersectInto, findKey_search, elemAt_search, keyAt_search]
      split
      · rfl
      · split
        · exact visitMatch_eq same value left _ right rightCount
        · cases findKey cls right rightCount (keyAt cls left (leftCount / 2)) with
          | none => rfl
          | some found =>
              rcases found with ⟨idx, matched⟩
              dsimp only
              rw [toOption_bind, apply_ite Except.toOption, ← ih]
              congr 1
              funext value
              split
              · rw [toOption_bind, ← same]
                congr 1
                funext value
                split
                · split
                  · exact visitMatch_eq same value _ _ _ _
                  · rfl
                · split
                  · exact ih value _ _ _ _
                  · rfl
              · split
                · exact ih value _ _ _ _
                · rfl

end

/-! ## The course of an intersection -/

section

variable {Key Elem Cause : Type} [Pointer Key] [Pointer Elem] (search : ArrayClass Key Elem Unit) (cause : Cause)

omit [Pointer Key] in
theorem visitMatchInto_course (left key : Key) (right : Elem) (rightCount : Nat) :
    HasCourse fun _ _ fails visit value => visitMatchInto search
      (fails cause) visit value left key right rightCount := by
  unfold visitMatchInto
  cases findKey search right rightCount key with
  | none => exact .failed cause
  | some found =>
      dsimp only
      split
      · exact .one left
      · exact .done

/-- What an intersection visits does not depend on the visitor. -/
theorem intersectInto_course (fuel : Nat) (left : Key) (leftCount : Nat) (right : Elem) (rightCount : Nat) :
    HasCourse fun _ _ fails visit value => intersectInto search
      (fails cause) visit fuel value left leftCount right rightCount := by
  induction fuel generalizing left leftCount right rightCount with
  | zero => exact .done
  | succ fuel ih =>
      unfold intersectInto
      split
      · exact .done
      · split
        · exact visitMatchInto_course search cause left _ right rightCount
        · dsimp only
          cases findKey search right rightCount (keyAt search left (leftCount / 2)) with
          | none => exact .failed cause
          | some found =>
              dsimp only
              refine HasCourse.bind ?_ ?_
              · split
                · exact ih _ _ _ _
                · exact .done
              · split
                · refine HasCourse.bind (.one _) ?_
                  split
                  · split
                    · exact visitMatchInto_course search cause _ _ _ _
                    · exact .done
                  · split
                    · exact ih _ _ _ _
                    · exact .done
                · split
                  · exact ih _ _ _ _
                  · exact .done

end

end KitSortedArray
end LibKit
