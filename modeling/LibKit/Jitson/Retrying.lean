import LibKit.Jitson.Unwinding

namespace LibKit
namespace Jitson

open Stack

/-!
# What a failed construction call leaves

The calls that construct collections, each of which may fail for want of
memory.  Some of them have changed the head of the open collection by then.
-/

/-- The calls that add to a collection under construction. -/
inductive Call where
  | openCollection (type : TypeWord)
  | addMemberName (name : List UInt8) (isRef isOwn : Bool)
  | addString (string : List UInt8) (isRef isOwn : Bool)
  | addUint (value : Nat)
  | addBool (value : Bool)
  | addNull
  | addReference (target : Pointer)
  | addDup (value : Pointer)
  | addDupMembers (value : Pointer)

def Call.run (env : Env) (stack : Stack) : Call → Except Failure Stack
  | .openCollection type => stack.openCollection env type
  | .addMemberName name isRef isOwn => stack.addMemberName env name isRef isOwn
  | .addString string isRef isOwn => stack.addString env string isRef isOwn
  | .addUint value => stack.addUint env value
  | .addBool value => stack.addBool env value
  | .addNull => stack.addNull env
  | .addReference target => stack.addReference env target
  | .addDup value => stack.addDup env value
  | .addDupMembers value => stack.addDupMembers env value

/-- The stack and its open collection are as before, but for the flags and the
last value. -/
structure Retained (before after : Stack) : Prop where
  count : after.count = before.count
  opened : after.opened = before.opened
  len : lenOf (after.pointer (before.opened - 1)) = lenOf (before.pointer (before.opened - 1))
  noValue : after.noValue (before.opened - 1) = before.noValue (before.opened - 1)

/-- The calls after whose failure the stack and its open collection are as
before: those that add a value of one token, a string that is copied to an
array, and duplicates where the stack itself cannot be expanded. -/
def Call.retains (env : Env) (stack : Stack) : Call → Prop
  | .openCollection _ => False
  | .addMemberName _ _ _ => False
  | .addString _ isRef isOwn =>
      isRef = true ∨ isOwn = true ∨ (typeOf (stack.pointer (stack.opened - 1))).kind = .array
  | .addUint _ | .addBool _ | .addNull | .addReference _ => True
  | .addDup value => ∀ grown, stack.expand env (size value) ≠ .ok grown
  | .addDupMembers value => ∀ grown, stack.expand env (size (dereference value) - 1) ≠ .ok grown

/-- A value that is duplicated takes tokens, and so do the members of an
object. -/
def Call.takesTokens : Call → Prop
  | .addDup value => 0 < size value
  | .addDupMembers value => 1 < size (dereference value)
  | _ => True

namespace Frame

variable {env : Env} {frame : Frame} {maximum last borrow : Nat}

/-- What is retained, read off the tokens. -/
theorem retained_of {after : Frame} {stack : Stack} (jitsons : stack.jitsons = after.base ++ after.head :: after.tokens)
    (opened : stack.opened = after.base.length + 1) (base : after.base = frame.base)
    (tokens : after.tokens.length = frame.tokens.length) :
    Retained (frame.stack maximum last borrow) stack ↔ after.len = frame.len ∧ after.noValue = frame.noValue := by
  have place : (frame.stack maximum last borrow).opened - 1 = after.base.length := by
    rw [base]
    rfl
  have head : stack.pointer after.base.length = after.head :: after.tokens := by
    rw [Stack.pointer, jitsons, List.drop_left]
  have len : lenOf (stack.pointer after.base.length) = after.len := by
    rw [head]
    rfl
  have noValue : stack.noValue after.base.length = after.noValue := by
    rw [Stack.noValue, head]
    rfl
  have lenBefore : lenOf ((frame.stack maximum last borrow).pointer after.base.length) = frame.len := by
    rw [base, pointer_head, lenOf_head]
  have noValueBefore : (frame.stack maximum last borrow).noValue after.base.length = frame.noValue := by
    rw [base, stack_noValue]
  refine ⟨?_, ?_⟩
  · intro retained
    have sameLen := retained.len
    have sameNoValue := retained.noValue
    rw [place, len, lenBefore] at sameLen
    rw [place, noValue, noValueBefore] at sameNoValue
    exact ⟨sameLen, sameNoValue⟩
  · rintro ⟨sameLen, sameNoValue⟩
    refine ⟨?_, ?_, ?_, ?_⟩
    · rw [stack_count, Stack.count, jitsons, List.length_append, List.length_cons, base, tokens]
      omega
    · rw [opened, base]
      rfl
    · rw [place, len, lenBefore, sameLen]
    · rw [place, noValue, noValueBefore, sameNoValue]

theorem check_ok {α : Type} {wrong : Prop} [Decidable wrong] {failure : Failure} {value result : α}
    (checked : (if wrong then .error failure else .ok value) = Except.ok result) : result = value := by
  by_cases isWrong : wrong
  · rw [if_pos isWrong] at checked
    cases checked
  · rw [if_neg isWrong] at checked
    cases checked
    rfl

theorem check_failed {α : Type} {wrong : Prop} [Decidable wrong] {failure other : Failure} {value : α}
    (checked : (if wrong then .error failure else .ok value) = Except.error other) : other = failure := by
  by_cases isWrong : wrong
  · rw [if_pos isWrong] at checked
    cases checked
    rfl
  · rw [if_neg isWrong] at checked
    cases checked

theorem checkElement_cases {size : Nat} {elemType : TypeWord} {copied : Bool} {after : Stack}
    (result : (frame.stack maximum last borrow).checkElement frame.base.length size elemType copied = .ok after) :
    ∃ type, after = ({ frame with type := type } : Frame).stack maximum last borrow := by
  rw [checkElement] at result
  rw [check_ok result, stack_mapType]
  exact ⟨_, rfl⟩

theorem checkElement_failed {stack : Stack} {collection size : Nat} {elemType : TypeWord} {copied : Bool}
    {failure : Failure} (failed : stack.checkElement collection size elemType copied = .error failure) :
    failure.fault = .assertion := by
  rw [checkElement] at failed
  rw [check_failed failed]

theorem placeElement_failed {stack : Stack} {type : TypeWord} {collection size len : Nat} {element : Option Pointer}
    {failure : Failure} (failed : stack.placeElement env type collection size len element = .error failure) :
    failure.fault = .assertion := by
  simp only [placeElement] at failed
  split at failed
  · cases failed
  · split at failed
    · split at failed
      · rw [insertElement] at failed
        split at failed
        · split at failed
          · cases failed
            rfl
          · split at failed
            · cases failed
            · cases failed
              rfl
        · cases failed
      · cases failed
        rfl
    · split at failed
      · split at failed
        · cases failed
        · split at failed <;> cases failed
      · cases failed

/-- A value that cannot be copied to the stack leaves the collection as it
is. -/
theorem addValue_short {size : Nat} {elemType : TypeWord} {element : Pointer} {after : Stack}
    (failed : (frame.stack maximum last borrow).addValue env size elemType (some element) = .error ⟨.memory, after⟩) :
    Retained (frame.stack maximum last borrow) after := by
  simp only [addValue] at failed
  split at failed
  · cases failed
  · rw [stack_opened, Nat.add_sub_cancel] at failed
    rcases bind_error failed with asserted | ⟨checked, isChecked, rest⟩
    · cases checkElement_failed asserted
    · rcases checkElement_cases isChecked with ⟨type, rfl⟩
      rcases bind_error rest with short | ⟨grown, -, rest⟩
      · rcases onFailure_error short with ⟨inner, failed, same⟩
        have left := (Failure.mk.inj same).2
        rw [left, Stack.expand_failed failed]
        exact (@retained_of frame _ _ _ { frame with type := type }
          (({ frame with type := type } : Frame).stack maximum (2 ^ 32 - 1) borrow) rfl rfl rfl rfl).mpr ⟨rfl, rfl⟩
      · rcases bind_error rest with asserted | ⟨placed, -, rest⟩
        · cases placeElement_failed asserted
        · cases rest

theorem placeElement_announced {stack : Stack} {type : TypeWord} {collection len : Nat} {placed : Stack × Nat}
    (result : stack.placeElement env type collection 0 len none = .ok placed) : placed.1 = stack := by
  simp only [placeElement] at result
  split at result
  · cases result
    rfl
  · split at result
    · cases result
    · split at result
      · rw [if_pos trivial] at result
        cases result
        rfl
      · cases result
        rfl

theorem addValue_announced {elemType : TypeWord} {after : Stack}
    (result : (frame.stack maximum last borrow).addValue env 0 elemType none = .ok after) :
    ∃ (announced : Frame) (last' : Nat), announced.base = frame.base ∧ announced.len = frame.len + 1 ∧
      announced.tokens = frame.tokens ∧
      announced.noValue = (if frame.type.kind = .array then frame.noValue else false) ∧
      (frame.type.kind ≠ .array → frame.noValue = true) ∧ after = announced.stack maximum last' borrow := by
  simp only [addValue, stack_opened, Nat.add_sub_cancel, pointer_head, typeOf_head, lenOf_head, stack_noValue] at result
  split at result
  · cases result
  · rename_i allowed
    have valued : frame.type.kind ≠ .array → frame.noValue = true := by
      intro notArray
      simp only [notArray, decide_false, Bool.false_eq_true, false_or, not_or, not_not] at allowed
      exact allowed.2.2
    rcases bind_ok result with ⟨checked, isChecked, result⟩
    rcases checkElement_cases isChecked with ⟨type, rfl⟩
    rw [ok_bind] at result
    rcases bind_ok result with ⟨placed, isPlaced, result⟩
    have same := placeElement_announced isPlaced
    cases result
    rw [same, stack_setLast, stack_count]
    generalize frame.base.length + 1 + frame.tokens.length - 0 = last'
    by_cases array : frame.type.kind = .array
    · refine ⟨{ frame with type := type, len := frame.len + 1 }, last', rfl, rfl, rfl, (if_pos array).symm, valued, ?_⟩
      simp only [array, noteElement, decide_true, if_true]
      exact stack_mapLen ({ frame with type := type } : Frame) _ _ _ _
    · refine ⟨{ frame with type := type, len := frame.len + 1, noValue := false }, last', rfl, rfl, rfl,
        (if_neg array).symm, valued, ?_⟩
      simp only [array, noteElement, decide_false, Bool.false_eq_true, if_false]
      rw [show frame.base.length = ({ frame with type := type } : Frame).base.length from rfl, stack_setNoValue]
      exact stack_mapLen ({ frame with type := type, noValue := false } : Frame) _ _ _ _

theorem addValue_none_failed {stack : Stack} {size : Nat} {elemType : TypeWord} {failure : Failure}
    (failed : stack.addValue env size elemType none = .error failure) : failure.fault = .assertion := by
  simp only [addValue] at failed
  split at failed
  · cases failed
    rfl
  · rcases bind_error failed with asserted | ⟨checked, -, rest⟩
    · exact checkElement_failed asserted
    · rw [ok_bind] at rest
      rcases bind_error rest with asserted | ⟨placed, -, rest⟩
      · exact placeElement_failed asserted
      · cases rest

end Frame

/-! ## Strings -/

section

variable {env : Env} {stack : Stack}

theorem pushMore_keeps {base : List Token} {before : Stack} (above : Above base before stack) (count : Nat) :
    Keeps id base before (stack.pushMore env count) := by
  induction count generalizing stack with
  | zero => exact Keeps.of_ok above
  | succ count ih =>
      rw [pushMore]
      refine Keeps.bind (Keeps.trans above (expand_keeps stack 1)) ?_
      intro grown above
      exact ih above

theorem pushString_unwinds (string : List UInt8) (isRef isOwn isKey : Bool) :
    Unwinds stack (stack.pushString env string isRef isOwn isKey) := by
  rw [pushString]
  refine Unwinds.bind ?_ ?_
  · intro failure failed _
    rw [Stack.expand_failed failed]
    exact ⟨rfl, rfl, rfl⟩
  · intro grown expanded
    have above : Above stack.jitsons stack grown := (expand_keeps stack 1).ok grown expanded
    dsimp only
    split
    · intro failure failed
      cases failed
    · split
      · exact Unwinds.of_error fun _ => above.unchanged
      · exact (pushMore_keeps (above.write (Nat.le_refl _) _) _).unwinds

end

/-! ## All calls -/

section

variable {env : Env} {frame : Frame} {maximum last borrow : Nat} {after : Stack}

theorem openCollection_short {type : TypeWord}
    (failed : (frame.stack maximum last borrow).openCollection env type = .error ⟨.memory, after⟩) :
    ¬ Retained (frame.stack maximum last borrow) after := by
  rw [openCollection] at failed
  split at failed
  · cases failed
  · rw [Frame.stack_opened, if_pos (Nat.succ_ne_zero _)] at failed
    rcases bind_error failed with asserted | ⟨announced, added, rest⟩
    · cases Frame.addValue_none_failed asserted
    · rcases Frame.addValue_announced added with ⟨inner, last', base, len, tokens, -, -, rfl⟩
      rcases bind_error rest with short | ⟨grown, -, rest⟩
      · have left := Stack.expand_failed short
        dsimp only at left
        rw [left]
        intro retained
        have same := ((Frame.retained_of rfl rfl base (congrArg List.length tokens)).mp retained).1
        omega
      · cases rest

theorem addMemberName_short {name : List UInt8} {isRef isOwn : Bool}
    (failed : (frame.stack maximum last borrow).addMemberName env name isRef isOwn = .error ⟨.memory, after⟩) :
    ¬ Retained (frame.stack maximum last borrow) after := by
  simp only [addMemberName, Frame.stack_opened, Nat.add_sub_cancel, Frame.stack_noValue,
    Frame.stack_setNoValue] at failed
  split at failed
  · cases failed
  · rename_i allowed
    have unnamed : frame.noValue = false := by
      rw [← Bool.not_eq_true]
      exact fun named => allowed (Or.inr (Or.inr named))
    have unchanged := pushString_unwinds name isRef isOwn true _ failed rfl
    intro retained
    have same := ((@Frame.retained_of frame _ _ _ { frame with noValue := true } after unchanged.jitsons
      unchanged.opened rfl rfl).mp retained).2
    rw [unnamed] at same
    cases same

theorem addString_short {string : List UInt8} {isRef isOwn : Bool}
    (failed : (frame.stack maximum last borrow).addString env string isRef isOwn = .error ⟨.memory, after⟩) :
    Retained (frame.stack maximum last borrow) after ↔
      isRef = true ∨ isOwn = true ∨ frame.type.kind = .array := by
  rw [addString] at failed
  split at failed
  · rename_i referred
    refine ⟨fun _ => ?_, fun _ => Frame.addValue_short failed⟩
    rcases (Bool.or_eq_true _ _).mp referred with isRef | isOwn
    · exact Or.inl isRef
    · exact Or.inr (Or.inl isOwn)
  · rename_i copied
    rcases bind_error failed with asserted | ⟨announced, added, rest⟩
    · cases Frame.addValue_none_failed asserted
    · rcases Frame.addValue_announced added with ⟨inner, last', base, len, tokens, noValue, valued, rfl⟩
      rcases bind_error rest with short | ⟨grown, -, rest⟩
      · rcases onFailure_error short with ⟨pushed, notPushed, same⟩
        have left : after = pushed.stack.mapLen (pushed.stack.opened - 1) (· - 1) := (Failure.mk.inj same).2
        have fault : pushed.fault = .memory := (Failure.mk.inj same).1.symm
        have unchanged := pushString_unwinds string false false false _ notPushed (by rw [fault]; rfl)
        have opened : pushed.stack.opened = inner.base.length + 1 := unchanged.opened
        have jitsons : after.jitsons = inner.base ++
          ({ inner with len := inner.len - 1 } : Frame).head :: inner.tokens := by
          rw [left, Stack.mapLen, opened, Nat.add_sub_cancel, unchanged.jitsons]
          exact Frame.modify_middle _ _ _ _
        have retained := @Frame.retained_of frame maximum last borrow { inner with len := inner.len - 1 } after jitsons
          (by rw [left]; exact opened) base (congrArg List.length tokens)
        rw [Bool.or_eq_true, not_or] at copied
        rw [retained]
        dsimp only
        rw [len, noValue, Nat.add_sub_cancel]
        refine ⟨?_, ?_⟩
        · rintro ⟨-, same⟩
          by_cases array : frame.type.kind = .array
          · exact Or.inr (Or.inr array)
          · rw [if_neg array, valued array] at same
            cases same
        · rintro (isRef | isOwn | array)
          · exact absurd isRef copied.1
          · exact absurd isOwn copied.2
          · exact ⟨rfl, if_pos array⟩
      · cases rest

theorem Retained.refl (stack : Stack) : Retained stack stack := ⟨rfl, rfl, rfl, rfl⟩

theorem retained_iff_unexpanded {stack : Stack} {more : Nat} (some : 0 < more)
    (unexpanded : ∀ failure, stack.expand env more = .error failure → after = stack)
    (expanded : ∀ grown, stack.expand env more = .ok grown → grown.count ≤ after.count) :
    Retained stack after ↔ ∀ grown, stack.expand env more ≠ .ok grown := by
  cases result : stack.expand env more with
  | error failure =>
      refine ⟨fun _ grown same => (nomatch same), fun _ => ?_⟩
      rw [unexpanded failure result]
      exact Retained.refl stack
  | ok grown =>
      refine ⟨fun retained => ?_, fun none => absurd rfl (none grown)⟩
      have longer := expanded grown result
      have same := retained.count
      rcases Stack.expand_cases result with ⟨-, maximum, rfl⟩
      simp only [Stack.count, List.length_append, List.length_replicate] at longer same
      omega

theorem addDup_short {value : Pointer} (takes : 0 < size value)
    (failed : (frame.stack maximum last borrow).addDup env value = .error ⟨.memory, after⟩) :
    Retained (frame.stack maximum last borrow) after ↔
      ∀ grown, (frame.stack maximum last borrow).expand env (size value) ≠ .ok grown := by
  rw [addDup] at failed
  rcases bind_error failed with failed | ⟨duplicated, -, rest⟩
  · simp only [dupAtIndex] at failed
    split at failed
    · cases failed
    · rw [if_pos (Nat.lt_add_of_pos_right takes), Nat.add_sub_cancel_left] at failed
      refine retained_iff_unexpanded takes ?_ ?_
      · intro failure short
        rw [short] at failed
        cases failed
        exact Stack.expand_failed short
      · intro grown expanded
        rw [expanded, ok_bind] at failed
        split at failed
        · cases failed
        · cases failed
          rw [count_mapType]
          exact count_le_write _ _ _
  · rcases bind_error rest with asserted | ⟨added, -, rest⟩
    · cases Frame.addValue_none_failed asserted
    · cases rest

theorem addDupMembers_short {value : Pointer} (takes : 1 < size (dereference value))
    (failed : (frame.stack maximum last borrow).addDupMembers env value = .error ⟨.memory, after⟩) :
    Retained (frame.stack maximum last borrow) after ↔
      ∀ grown, (frame.stack maximum last borrow).expand env (size (dereference value) - 1) ≠ .ok grown := by
  simp only [addDupMembers] at failed
  split at failed
  · cases failed
  · split at failed
    · cases failed
    · split at failed
      · cases failed
      · refine retained_iff_unexpanded (Nat.sub_pos_of_lt takes) ?_ ?_
        · intro failure short
          rw [short] at failed
          cases failed
          exact Stack.expand_failed short
        · intro grown expanded
          rw [expanded, ok_bind] at failed
          split at failed
          · cases failed
          · cases failed
            exact count_le_write _ _ _

/-- Which failed calls leave the stack and its open collection as they were. -/
theorem failed_call_retained_iff {call : Call} (takes : call.takesTokens)
    (failed : call.run env (frame.stack maximum last borrow) = .error ⟨.memory, after⟩) :
    Retained (frame.stack maximum last borrow) after ↔ call.retains env (frame.stack maximum last borrow) := by
  cases call with
  | openCollection type => exact ⟨fun retained => absurd retained (openCollection_short failed), False.elim⟩
  | addMemberName name isRef isOwn => exact ⟨fun retained => absurd retained (addMemberName_short failed), False.elim⟩
  | addString string isRef isOwn =>
      have kind : typeOf ((frame.stack maximum last borrow).pointer ((frame.stack maximum last borrow).opened - 1)) =
          frame.type := by
        rw [Frame.stack_opened, Nat.add_sub_cancel, Frame.pointer_head, Frame.typeOf_head]
      rw [Call.retains, kind]
      exact addString_short failed
  | addUint value => exact ⟨fun _ => trivial, fun _ => Frame.addValue_short failed⟩
  | addBool value => exact ⟨fun _ => trivial, fun _ => Frame.addValue_short failed⟩
  | addNull => exact ⟨fun _ => trivial, fun _ => Frame.addValue_short failed⟩
  | addReference target => exact ⟨fun _ => trivial, fun _ => Frame.addValue_short failed⟩
  | addDup value => exact addDup_short takes failed
  | addDupMembers value => exact addDupMembers_short takes failed

end

/-- An array of one number under construction, on a stack that is full. -/
def openedArray : Frame := ⟨[], { kind := .array }, 1, false, 1, 0, [Stack.makeUint 7]⟩

/-- An object under construction, on a stack that is full. -/
def openedObject : Frame := ⟨[], { kind := .object }, 0, false, 0, 0, []⟩

/-- A string that does not fit behind a number can be added again. -/
theorem failed_call_retained_string : ∃ after,
    (Call.addString (List.replicate 20 97) false false).run tightEnv (openedArray.stack 2 0 0) = .error
    ⟨.memory, after⟩ ∧
      Retained (openedArray.stack 2 0 0) after :=
  ⟨_, rfl, (@failed_call_retained_iff tightEnv openedArray 2 0 0 _
    (.addString (List.replicate 20 97) false false) trivial
    rfl).mpr (Or.inr (Or.inr rfl))⟩

/-- A member name that does not fit counts as added. -/
theorem failed_member_name_pending : ∃ after,
    (Call.addMemberName [97] false false).run tightEnv (openedObject.stack 1 0 0) = .error ⟨.memory, after⟩ ∧
      ¬ Retained (openedObject.stack 1 0 0) after :=
  ⟨_, rfl, @addMemberName_short tightEnv openedObject 1 0 0 _ [97] false false rfl⟩

end Jitson
end LibKit
