import LibKit.Jitson.Building
import LibKit.Jitson.Comparing
import LibKit.Jitson.Filling
import LibKit.Jitson.Meaning

namespace LibKit
namespace Jitson

open Stack

/-!
# Insertion sorted arrays

An array that is opened with `SXE_JITSON_TYPE_MK_SORT` is kept in order by
`sxe_jitson_stack_add_value`, which looks for the place of an element that is
smaller than the last one and moves those behind it up.  It moves them by one
token, whatever the size of an element.
-/

/-! ## Adding an element -/

/-- Where an element of an array with that many elements goes. -/
def Stack.makeRoom (env : Env) (stack : Stack) (collection size len : Nat) (element : Pointer) :
    Except Failure (Stack × Nat) :=
  if len = 0 then .ok (stack, stack.last) else stack.insertElement env collection size len element

namespace Frame

variable {env : Env} {frame : Frame} {maximum last borrow size : Nat}

/-- An array under construction that is kept in order, with its elements. -/
structure Sorting (frame : Frame) (size : Nat) (segments : List (List Token)) : Prop where
  array : frame.type.kind = .array
  mkSort : frame.type.mkSort = true
  counted : frame.len = segments.length
  tokens : frame.tokens = segments.flatten
  each : ∀ segment ∈ segments, segment.length = size

namespace Sorting

variable {segments : List (List Token)}

theorem length (sorting : frame.Sorting size segments) : frame.tokens.length = segments.length * size := by
  rw [sorting.tokens]
  exact flatten_uniform sorting.each

/-- Elements of one size leave the array uniform. -/
theorem notResized (sorting : frame.Sorting size segments) : frame.resized size true = false := by
  rw [Frame.resized, decide_eq_false_iff_not]
  rintro ⟨several, -, differ⟩
  apply differ
  rw [if_pos rfl, Nat.sub_zero, sorting.length, ← sorting.counted]
  exact (Nat.mul_div_cancel_left size (Nat.pos_of_ne_zero several)).symm

/-- `sxe_jitson_stack_add_value` on an array that is kept in order: the first
element is placed where the others are moved from. -/
theorem addValue_eq (sorting : frame.Sorting size segments) (elemType : TypeWord) (element : Pointer) :
    (frame.stack maximum last borrow).addValue env size elemType (some element) = (do
      let stack ← onFailure (((frame.checked size elemType true).stack maximum last borrow).expand env size) fun stack =>
        stack.setLast (2 ^ 32 - 1)
      let (stack, idx) ← (stack.setLast (stack.count - size)).makeRoom env frame.base.length size segments.length element
      .ok ((stack.write idx (element.take size)).noteElement frame.base.length size true)) := by
  simp only [addValue, stack_opened, Nat.add_sub_cancel, pointer_head, typeOf_head, lenOf_head, sorting.array,
    decide_true,
    Nat.add_eq_zero_iff, Nat.one_ne_zero, and_false, true_or, not_true, or_false, if_false, Option.isSome_some,
    frame.checkElement_eq maximum last borrow size elemType true (Or.inl sorting.notResized), ok_bind, placeElement,
    sorting.mkSort, if_true, sorting.counted]
  rfl

end Sorting

end Frame

/-! ## Elements that cannot be compared -/

/-- The stack has no room for some tokens, and memory to grow it cannot be
had. -/
structure Stack.Exhausted (env : Env) (stack : Stack) (more : Nat) : Prop where
  full : stack.maximum < stack.count + more
  inRange : stack.count + more < 2 ^ 32
  fits : stack.count + more ≤ stack.newMaximum (stack.count + more)
  none : env.alloc (stack.newMaximum (stack.count + more)) = false

theorem Stack.Exhausted.expand {env : Env} {stack : Stack} {more : Nat} (exhausted : stack.Exhausted env more) :
    stack.expand env more = .error ⟨.memory, stack⟩ := by
  have inRange := exhausted.inRange
  have fits := exhausted.fits
  simp only [Stack.expand]
  rw [if_neg (by omega), if_pos exhausted.full, if_neg (by omega),
    if_neg (by rw [exhausted.none]; exact Bool.false_ne_true)]

/-- A stack cannot be expanded for want of memory only. -/
theorem Stack.exhausted_of {env : Env} {stack : Stack} {more : Nat} {failure : Failure}
    (allocated : stack.allocated = true)
    (failed : stack.expand env more = .error failure) (returned : failure.fault.returns = true) :
    stack.Exhausted env more := by
  simp only [Stack.expand] at failed
  split at failed
  · cases failed
    cases returned
  · rename_i inRange
    split at failed
    · rename_i full
      split at failed
      · cases failed
        cases returned
      · rename_i fits
        split at failed
        · cases failed
        · rename_i none
          exact ⟨full, Nat.not_le.mp inRange, Nat.not_lt.mp fits, Bool.not_eq_true _ ▸ none⟩
    · rw [if_pos (Or.inl allocated)] at failed
      cases failed

namespace Frame

variable {env : Env} {frame : Frame} {maximum last borrow size : Nat} {segments : List (List Token)} {element : Pointer}

/-- An addition that returns an error and leaves the elements of the array, its
length and the count of the stack as they were. -/
def Refuses (frame : Frame) (outcome : Except Failure Stack) : Prop :=
  ∃ failure, outcome = .error failure ∧ failure.fault.returns = true ∧
    failure.stack.count = frame.start + frame.tokens.length ∧
    lenOf (failure.stack.pointer frame.base.length) = frame.len ∧ failure.stack.pointer frame.start = frame.tokens

/-- An element of the size of those of an array, one of which cannot be
compared with it. -/
structure Apart (env : Env) (frame : Frame) (size : Nat) (segments : List (List Token)) (element : Pointer) : Prop
    extends frame.Sorting size segments where
  long : size ≤ element.length
  apart : ∃ i, i < segments.length ∧ cmp env.ops (frame.tokens.drop (size * i)) element = cmpError

theorem insertElement_failed {stack : Stack} {collection len : Nat} {failure : Failure}
    (failed : stack.insertElement env collection size len element = .error failure) : failure.fault = .assertion := by
  unfold insertElement at failed
  split at failed
  · split at failed
    · cases failed
      rfl
    · split at failed
      · cases failed
      · cases failed
        rfl
  · cases failed

theorem makeRoom_failed {stack : Stack} {collection len : Nat} {failure : Failure}
    (failed : stack.makeRoom env collection size len element = .error failure) : failure.fault = .assertion := by
  unfold makeRoom at failed
  split at failed
  · cases failed
  · exact insertElement_failed failed

/-- An element that cannot be compared with the others is not refused, unless
there is no memory for it. -/
theorem refuses_incomparable_iff (apart : frame.Apart env size segments element) (elemType : TypeWord) :
    frame.Refuses ((frame.stack maximum last borrow).addValue env size elemType (some element)) ↔
      (frame.stack maximum last borrow).Exhausted env size := by
  have counts : ∀ checked : Frame, checked.base = frame.base → checked.tokens = frame.tokens →
      ((checked.stack maximum last borrow).Exhausted env size ↔
        (frame.stack maximum last borrow).Exhausted env size) := by
    intro checked base tokens
    have counted : (checked.stack maximum last borrow).count = (frame.stack maximum last borrow).count := by
      rw [stack_count, stack_count, base, tokens]
    refine ⟨fun exhausted => ?_, fun exhausted => ?_⟩
    · exact ⟨counted ▸ exhausted.full, counted ▸ exhausted.inRange, counted ▸ exhausted.fits, counted ▸ exhausted.none⟩
    · exact ⟨counted ▸ exhausted.full, counted ▸ exhausted.inRange, counted ▸ exhausted.fits, counted ▸ exhausted.none⟩
  rw [apart.toSorting.addValue_eq, ← counts (frame.checked size elemType true) rfl rfl]
  constructor
  · rintro ⟨failure, failed, returned, -⟩
    rcases bind_error failed with unexpanded | ⟨grown, -, failed⟩
    · rcases onFailure_error unexpanded with ⟨inner, notExpanded, rfl⟩
      exact Stack.exhausted_of rfl notExpanded returned
    · rcases bind_error failed with unplaced | ⟨placed, -, failed⟩
      · rw [makeRoom_failed unplaced] at returned
        cases returned
      · cases failed
  · intro exhausted
    rw [exhausted.expand]
    refine ⟨_, rfl, rfl, ?_, ?_, ?_⟩
    · exact stack_count _ _ _ _
    · exact congrArg lenOf (pointer_head (frame.checked size elemType true) maximum _ borrow)
    · exact pointer_tokens (frame.checked size elemType true) maximum _ borrow 0

/-- The array `[1]` under construction. -/
def sortingOne : Frame :=
  ⟨[], { kind := .array, mkSort := true, isOrd := true, isUnif := true, isHomo := true }, 1, false, 1, 0, [makeUint 1]⟩

def crampedEnv : Env := { numberEnv with alloc := fun _ => false }

theorem sortingOne_apart (env : Env) :
    sortingOne.Apart env 1 [[makeUint 1]] [.head { kind := .string, isRef := true } 0 (.reference [97])] :=
  ⟨⟨rfl, rfl, rfl, rfl, by simp⟩, Nat.le_refl _, 0, Nat.one_pos, rfl⟩

/-- Without memory, the string `"a"` is refused. -/
theorem refuses_incomparable_full :
    sortingOne.Refuses ((sortingOne.stack 2 1 0).addValue crampedEnv 1 { kind := .string }
      (some [.head { kind := .string, isRef := true } 0 (.reference [97])])) :=
  (refuses_incomparable_iff (sortingOne_apart _) { kind := .string }).mpr ⟨by decide, by decide, by decide, rfl⟩

/-- With memory, it is not. -/
theorem incomparable_not_refused :
    ¬ sortingOne.Refuses ((sortingOne.stack 2 1 0).addValue numberEnv 1 { kind := .string }
      (some [.head { kind := .string, isRef := true } 0 (.reference [97])])) := by
  rintro ⟨failure, failed, returned, -⟩
  have asserted : ∃ stack, (sortingOne.stack 2 1 0).addValue numberEnv 1 { kind := .string }
      (some [.head { kind := .string, isRef := true } 0 (.reference [97])]) = .error ⟨.assertion, stack⟩ := ⟨_, by rfl⟩
  rcases asserted with ⟨stack, asserted⟩
  rw [asserted] at failed
  cases failed
  cases returned

end Frame

end Jitson
end LibKit
