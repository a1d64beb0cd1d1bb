import LibKit.Jitson.Intersect
import LibKit.KitSortedArray.Visiting

namespace LibKit
namespace Jitson

open KitSortedArray Stack
open LibKit.Visits (HasCourse)

/-!
# The loops of the set operators

`INTERSECT` and `INTERSECT_TEST` go through two arrays in the same four ways,
and differ in what they do with an element of both.  The ways are given here for
any visitor of such elements.
-/

/-- Why a loop ends early: elements that cannot be compared, or one that there
is not. -/
inductive Cause where
  | incomparable
  | missing

/-! ## The ways through two arrays -/

/-- `kit_sortedarray_intersect` on the elements of two uniform arrays. -/
def visitUniform (env : Env) (left right : Pointer) : Visits.Run Pointer Cause := fun _ _ fails visit state =>
  intersectInto (elementClass env (uniformSize left)) (fails .incomparable) (fun state element =>
    visit state (element.tokens 16))
    (lenOf left) state (⟨left.drop 1, 0⟩ : Address Token) (lenOf left) (⟨right.drop 1, 0⟩ : Address Token) (lenOf right)

/-- `kit_sortedarray_intersect` on the indexes of two arrays. -/
def visitIndexed (env : Env) (left right : Pointer) : Visits.Run Pointer Cause := fun _ _ fails visit state =>
  let left := indexedArray left
  let right := indexedArray right
  intersectInto (indexedIntersectClass env left right).search (fails .incomparable)
    (fun state element => visit state (left.drop ((element.tokens 4).headD 0)))
    (lenOf left) state (⟨indexOf left, 0⟩ : Address Nat) (lenOf left) (⟨indexOf right, 0⟩ : Address Nat) (lenOf right)

/-- The loop over the `count` left elements left, each of which is looked up
on the right. -/
def visitWithin (contains : Pointer → Found) (left : Pointer) : Nat → Nat → Visits.Run Pointer Cause
  | 0, _ => fun _ _ _ _ state => .ok state
  | count + 1, i => fun State Failed fails visit state =>
      match arrayGetElement left i with
      | none => .error (fails .missing state)
      | some element =>
          match contains element with
          | .error => .error (fails .incomparable state)
          | .null => visitWithin contains left count (i + 1) State Failed fails visit state
          | .value _ => visit state element >>= visitWithin contains left count (i + 1) State Failed fails visit

/-- The inner loop over the `count` right elements left. -/
def visitMatching (env : Env) (element right : Pointer) : Nat → Nat → Visits.Run Pointer Cause
  | 0, _ => fun _ _ _ _ state => .ok state
  | count + 1, j => fun State Failed fails visit state =>
      match arrayGetElement right j with
      | none => .error (fails .missing state)
      | some other =>
          match eq env.ops element other with
          | none => .error (fails .incomparable state)
          | some false => visitMatching env element right count (j + 1) State Failed fails visit state
          | some true => visit state element >>= visitMatching env element right count (j + 1) State Failed fails visit

/-- The outer loop over the `count` left elements left. -/
def visitPlain (env : Env) (left right : Pointer) : Nat → Nat → Visits.Run Pointer Cause
  | 0, _ => fun _ _ _ _ state => .ok state
  | count + 1, i => fun State Failed fails visit state =>
      match arrayGetElement left i with
      | none => .error (fails .missing state)
      | some element =>
          visitMatching env element right (lenOf right) 0 State Failed fails visit state >>=
            visitPlain env left right count (i + 1) State Failed fails visit

/-- The ways through two arrays of which the right one is ordered. -/
def visitOrdered (env : Env) (contains : Pointer → Found) (left right : Pointer) : Visits.Run Pointer Cause :=
  if (typeOf left).isOrd ∧ (typeOf left).isUnif ∧ (typeOf right).isUnif then
    if uniformSize left ≠ uniformSize right then fun _ _ _ _ state => .ok state else visitUniform env left right
  else if (typeOf left).isOrd ∧ ¬ (typeOf left).isUnif ∧ ¬ (typeOf right).isUnif then visitIndexed env left right
  else visitWithin contains left (lenOf left) 0

/-! ## Their courses -/

section

variable (env : Env) (contains : Pointer → Found) (left right : Pointer)

theorem visitUniform_course : HasCourse (visitUniform env left right) :=
  (intersectInto_course (elementClass env (uniformSize left)) Cause.incomparable (lenOf left)
    (⟨left.drop 1, 0⟩ : Address Token)
    (lenOf left) (⟨right.drop 1, 0⟩ : Address Token) (lenOf right)).map fun element => element.tokens 16

theorem visitIndexed_course : HasCourse (visitIndexed env left right) :=
  (intersectInto_course (indexedIntersectClass env (indexedArray left) (indexedArray right)).search Cause.incomparable
    (lenOf (indexedArray left)) (⟨indexOf (indexedArray left), 0⟩ : Address Nat) (lenOf (indexedArray left))
    (⟨indexOf (indexedArray right), 0⟩ : Address Nat) (lenOf (indexedArray right))).map
      fun element => (indexedArray left).drop ((element.tokens 4).headD 0)

theorem visitWithin_course (count i : Nat) : HasCourse (visitWithin contains left count i) := by
  induction count generalizing i with
  | zero => exact .done
  | succ count ih =>
      unfold visitWithin
      cases arrayGetElement left i with
      | none => exact .failed Cause.missing
      | some element =>
          dsimp only
          cases contains element with
          | error => exact .failed Cause.incomparable
          | null => exact ih (i + 1)
          | value result => exact HasCourse.bind (.one element) (ih (i + 1))

theorem visitMatching_course (element : Pointer) (count j : Nat) :
    HasCourse (visitMatching env element right count j) := by
  induction count generalizing j with
  | zero => exact .done
  | succ count ih =>
      unfold visitMatching
      cases arrayGetElement right j with
      | none => exact .failed Cause.missing
      | some other =>
          dsimp only
          cases eq env.ops element other with
          | none => exact .failed Cause.incomparable
          | some equal =>
              cases equal with
              | false => exact ih (j + 1)
              | true => exact HasCourse.bind (.one element) (ih (j + 1))

theorem visitPlain_course (count i : Nat) : HasCourse (visitPlain env left right count i) := by
  induction count generalizing i with
  | zero => exact .done
  | succ count ih =>
      unfold visitPlain
      cases arrayGetElement left i with
      | none => exact .failed Cause.missing
      | some element => exact HasCourse.bind (visitMatching_course env right element (lenOf right) 0) (ih (i + 1))

theorem visitOrdered_course : HasCourse (visitOrdered env contains left right) := by
  unfold visitOrdered
  split
  · split
    · exact .done
    · exact visitUniform_course env left right
  · split
    · exact visitIndexed_course env left right
    · exact visitWithin_course contains left (lenOf left) 0

end

/-- Lookups that give the same lead through the same elements. -/
theorem visitWithin_congr {contains contains' : Pointer → Found} {left : Pointer}
    (same : ∀ i element, arrayGetElement left i = some element → contains' element = contains element) (count i : Nat) :
    visitWithin contains' left count i = visitWithin contains left count i := by
  induction count generalizing i with
  | zero => rfl
  | succ count ih =>
      unfold visitWithin
      rw [ih]
      cases here : arrayGetElement left i with
      | none => rfl
      | some element => simp only [same i element here]

theorem visitOrdered_congr (env : Env) {contains contains' : Pointer → Found} {left : Pointer} (right : Pointer)
    (same : ∀ i element, arrayGetElement left i = some element → contains' element = contains element) :
    visitOrdered env contains' left right = visitOrdered env contains left right := by
  rw [visitOrdered, visitOrdered, visitWithin_congr same]

end Jitson
end LibKit
