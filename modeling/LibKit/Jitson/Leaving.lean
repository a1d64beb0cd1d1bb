import LibKit.Jitson.Filling
import LibKit.Jitson.Meaning
import LibKit.Jitson.Visitors

namespace LibKit
namespace Jitson

open Stack
open LibKit.Visits (HasCourse)

/-!
# What a failed intersection leaves

`sxe_jitson_intersect` borrows the stack of the thread.  It gives it back where
its array cannot be opened, and where its value is taken; where it fails in
between, and where the value cannot be taken, it clears the stack instead.  The
functions of `sxe-jitson-intersect.c` are given here with the stack as it is
where they return a null pointer.
-/

/-- `sxe_jitson_stack_clear` -/
def Stack.clear (stack : Stack) : Stack := { stack.truncate stack.borrow with opened := 0 }

namespace Leaving

/-- `jitson_stack_add` -/
def jitsonStackAdd (env : Env) (stack : Stack) (element : Pointer) : Except Failure Stack :=
  if size element = 1 then stack.addDup env element else stack.addReference env element

def leaves : Cause → Stack → Failure
  | .incomparable, stack => ⟨.invalid, stack⟩
  | .missing, stack => ⟨.undefined, stack⟩

/-- A failed call on a borrowed stack that is given back. -/
def returning {α : Type} (iou : Stack) : Except Failure α → Except Failure α
  | .ok result => .ok result
  | .error failure => do
      let stack ← failure.stack.giveBack iou
      .error ⟨failure.fault, stack⟩

/-- `get_stack_open_array` -/
def getStackOpenArray (env : Env) (stack : Stack) : Except Failure Stack :=
  returning stack (stack.lend.openCollection env { kind := .array })

/-- `close_array_and_get`, with the stack as it was before it was borrowed. -/
def closeArrayAndGet (env : Env) (stack iou : Stack) : Except Failure (Pointer × Stack) := do
  let stack ← stack.closeCollection env
  let (jitson, stack) ← returning iou (stack.getJitson env)
  let stack ← stack.giveBack iou
  .ok (jitson, stack)

/-- An intersection with the array of the result open, which a failure clears
away. -/
def intersecting (env : Env) (stack : Stack) (run : Visits.Run Pointer Cause) : Except Failure (Pointer × Stack) := do
  let opened ← getStackOpenArray env stack
  onFailure (do
    let filled ← run Stack Failure leaves (jitsonStackAdd env) opened
    closeArrayAndGet env filled stack) Stack.clear

/-- `sxe_jitson_intersect_ordered_array` -/
def intersectOrderedArray (env : Env) (sum : List UInt8 → Nat) (stack : Stack) (left right : Pointer) :
    Except Failure (Pointer × Stack) :=
  if getType left ≠ .array then .error ⟨.invalid, stack⟩
  else intersecting env stack (visitOrdered env (fun element => jitsonIn env sum element right) left right)

/-- `sxe_jitson_intersect_array` -/
def intersectArray (env : Env) (sum : List UInt8 → Nat) (stack : Stack) (left right : Pointer) :
    Except Failure (Pointer × Stack) :=
  if (typeOf right).isOrd then intersectOrderedArray env sum stack left right
  else if (typeOf left).isOrd then intersectOrderedArray env sum stack right left
  else if getType left ≠ .array then .error ⟨.invalid, stack⟩
  else intersecting env stack (visitPlain env left right (lenOf left) 0)

/-- `sxe_jitson_intersect` -/
def intersect (env : Env) (sum : List UInt8 → Nat) (stack : Stack) (left right : Pointer) :
    Except Failure (Pointer × Stack) :=
  let left := dereference left
  let right := dereference right
  if (typeOf right).kind = .array then intersectArray env sum stack left right else .error ⟨.invalid, stack⟩

/-! ## The same values -/

def Same {α : Type} (first : Except Failure α) (second : Except Fault α) : Prop := first.toOption = second.toOption

theorem Same.bind {α β : Type} {first : Except Failure α} {second : Except Fault α} {next : α → Except Failure β}
    {next' : α → Except Fault β}
    (same : Same first second) (further : ∀ value, Same (next value) (next' value)) :
      Same (first >>= next) (second >>= next') := by
  cases first with
  | error failure =>
      cases second with
      | error fault => rfl
      | ok value => cases same
  | ok value =>
      cases second with
      | error fault => cases same
      | ok value' =>
          cases same
          exact further value

theorem same_faultOf {α : Type} (call : Except Failure α) : Same call (faultOf call) := by
  cases call with
  | error failure => rfl
  | ok value => rfl

theorem same_returning {α : Type} (iou : Stack) (call : Except Failure α) :
    Same (returning iou call) (faultOf call) := by
  cases call with
  | ok value => rfl
  | error failure =>
      have none : ∀ back : Except Failure Stack, (back >>= fun stack =>
        (.error ⟨failure.fault, stack⟩ : Except Failure α)).toOption = none := by
        intro back
        cases back with
        | error other => rfl
        | ok stack => rfl
      exact none (failure.stack.giveBack iou)

theorem same_onFailure {α : Type} {first : Except Failure α} {second : Except Fault α} (same : Same first second)
    (change : Stack → Stack) : Same (onFailure first change) second := by
  cases first with
  | error failure => exact same
  | ok value => exact same

theorem same_jitsonStackAdd (env : Env) (stack : Stack) (element : Pointer) :
    Same (jitsonStackAdd env stack element) (Jitson.jitsonStackAdd env stack element) := same_faultOf _

theorem same_closeArrayAndGet (env : Env) (stack iou : Stack) :
    Same (closeArrayAndGet env stack iou) (Jitson.closeArrayAndGet env stack iou) := by
  refine (same_faultOf _).bind fun closed => (same_returning iou _).bind fun taken => ?_
  rcases taken with ⟨jitson, stack⟩
  exact (same_faultOf _).bind fun stack => rfl

theorem same_orInvalid {outcome : Except Failure Stack} {result : Option Stack} (same : result = outcome.toOption) :
    Same outcome (orInvalid result) := by
  cases outcome with
  | error failure =>
      rw [same]
      rfl
  | ok stack =>
      rw [same]
      rfl

theorem same_uniform (env : Env) (left right : Pointer) (stack : Stack) :
    Same (visitUniform env left right Stack Failure leaves (jitsonStackAdd env) stack)
      (intersectUniform env left right stack) :=
  same_orInvalid (KitSortedArray.intersect_eq (fun stack element =>
    (same_jitsonStackAdd env stack (element.tokens 16)).symm) _ _ _ _ _ _)

theorem same_indexed (env : Env) (left right : Pointer) (stack : Stack) :
    Same (visitIndexed env left right Stack Failure leaves (jitsonStackAdd env) stack)
      (intersectIndexed env left right stack) :=
  same_orInvalid (KitSortedArray.intersect_eq
    (fun stack element => (same_jitsonStackAdd env stack
    ((indexedArray left).drop ((element.tokens 4).headD 0))).symm) _ _ _ _ _ _)

theorem same_within (env : Env) (sum : List UInt8 → Nat) (left right : Pointer) (count i : Nat) (stack : Stack) :
    Same (visitWithin (fun element => jitsonIn env sum element right) left count i Stack Failure leaves
      (jitsonStackAdd env) stack)
      (intersectIn env sum left right count i stack) := by
  induction count generalizing i stack with
  | zero => rfl
  | succ count ih =>
      unfold visitWithin intersectIn
      cases arrayGetElement left i with
      | none => rfl
      | some element =>
          dsimp only
          cases jitsonIn env sum element right with
          | error => rfl
          | null => exact ih (i + 1) stack
          | value result => exact (same_jitsonStackAdd env stack element).bind (ih (i + 1))

theorem same_matching (env : Env) (element right : Pointer) (count j : Nat) (stack : Stack) :
    Same (visitMatching env element right count j Stack Failure leaves (jitsonStackAdd env) stack)
      (addMatches env element right count j stack) := by
  induction count generalizing j stack with
  | zero => rfl
  | succ count ih =>
      unfold visitMatching addMatches
      cases arrayGetElement right j with
      | none => rfl
      | some other =>
          dsimp only
          cases eq env.ops element other with
          | none => rfl
          | some equal =>
              cases equal with
              | false => exact ih (j + 1) stack
              | true => exact (same_jitsonStackAdd env stack element).bind (ih (j + 1))

theorem same_plain (env : Env) (left right : Pointer) (count i : Nat) (stack : Stack) :
    Same (visitPlain env left right count i Stack Failure leaves (jitsonStackAdd env) stack)
      (intersectPlain env left right count i stack) := by
  induction count generalizing i stack with
  | zero => rfl
  | succ count ih =>
      unfold visitPlain intersectPlain
      cases arrayGetElement left i with
      | none => rfl
      | some element => exact (same_matching env element right (lenOf right) 0 stack).bind (ih (i + 1))

theorem same_ordered (env : Env) (sum : List UInt8 → Nat) (stack : Stack) (left right : Pointer) :
    Same (intersectOrderedArray env sum stack left right) (Jitson.intersectOrderedArray env sum stack left right) := by
  unfold intersectOrderedArray Jitson.intersectOrderedArray
  dsimp only
  split
  · rfl
  · refine Same.bind (same_returning stack _) fun opened => same_onFailure ?_ Stack.clear
    have closing := fun filled => same_closeArrayAndGet env filled stack
    unfold visitOrdered
    split
    · split
      · exact closing opened
      · exact (same_uniform env left right opened).bind closing
    · split
      · exact (same_indexed env left right opened).bind closing
      · exact (same_within env sum left right _ _ opened).bind closing

/-- The function succeeds as it does without what it leaves where it fails. -/
theorem same_intersect (env : Env) (sum : List UInt8 → Nat) (stack : Stack) (left right : Pointer) :
    Same (intersect env sum stack left right) (Jitson.intersect env sum stack left right) := by
  unfold intersect Jitson.intersect
  dsimp only
  split
  · unfold intersectArray Jitson.intersectArray
    split
    · exact same_ordered env sum stack _ _
    · split
      · exact same_ordered env sum stack _ _
      · split
        · rfl
        · refine Same.bind (same_returning stack _) fun opened =>
            same_onFailure (Same.bind ?_ fun filled => ?_) Stack.clear
          · exact same_plain env _ _ _ _ opened
          · exact same_closeArrayAndGet env filled stack
  · rfl

/-! ## The stack -/

/-- There is no room for one more token, and no memory for it. -/
def Full (env : Env) (stack : Stack) : Prop := ∀ grown, stack.expand env 1 ≠ .ok grown

theorem expand_lend (env : Env) (stack : Stack) (more : Nat) :
    stack.lend.expand env more = match stack.expand env more with
      | .ok grown => .ok { grown with opened := 0, last := 0, borrow := stack.count }
      | .error failure => .error ⟨failure.fault, stack.lend⟩ := by
  have count : stack.lend.count = stack.count := rfl
  have newMaximum : ∀ expanded, stack.lend.newMaximum expanded = stack.newMaximum expanded := fun _ => rfl
  have maximum : stack.lend.maximum = stack.maximum := rfl
  have allocated : stack.lend.allocated = stack.allocated := rfl
  simp only [Stack.expand, count, newMaximum, maximum, allocated]
  split
  · rfl
  · split
    · split
      · rfl
      · split
        · rfl
        · rfl
    · split
      · rfl
      · rfl

/-- Opening the array of the result: where that fails, the stack is as it was. -/
theorem getStackOpenArray_cases (env : Env) (stack : Stack) :
    (Full env stack ∧ ∃ fault, getStackOpenArray env stack = .error ⟨fault, stack⟩) ∨
      (¬ Full env stack ∧ ∃ maximum, getStackOpenArray env stack =
        .ok ((Frame.opening env stack.jitsons { kind := .array } 0).stack maximum 0 stack.count)) := by
  have opening : stack.lend.openCollection env { kind := .array } = (do
      let grown ← stack.lend.expand env 1
      .ok { grown.write stack.count [.head (Frame.openedType env { kind := .array }) 0 (.part false 0 grown.opened)] with
        opened := stack.count + 1 }) := rfl
  cases expanded : stack.expand env 1 with
  | error failure =>
      refine Or.inl ⟨fun grown done => (by rw [expanded] at done; cases done), failure.fault, ?_⟩
      rw [getStackOpenArray, opening, expand_lend, expanded]
      have back : stack.lend.giveBack stack = .ok stack := by
        unfold giveBack
        rw [if_neg (show ¬ stack.lend.borrow ≠ stack.count from not_not.mpr rfl)]
        have whole : stack.jitsons.take stack.count = stack.jitsons := List.take_length
        exact congrArg Except.ok (congrArg (fun jitsons : List Token =>
          ({ stack with jitsons := jitsons } : Stack)) whole)
      exact congrArg (fun back => back >>= fun stack => (.error ⟨failure.fault, stack⟩ : Except Failure Stack)) back
  | ok grown =>
      refine Or.inr ⟨fun full => full grown expanded, ?_⟩
      rcases Stack.expand_cases expanded with ⟨-, maximum, rfl⟩
      refine ⟨maximum, ?_⟩
      rw [getStackOpenArray, opening, expand_lend, expanded]
      simp [returning, Frame.stack, Frame.opening, Frame.head, Stack.write, Stack.count]

theorem jitsonStackAdd_fills {env : Env} {frame : Frame} {maximum last borrow : Nat} (element : Pointer) :
    frame.Fills borrow 1 (jitsonStackAdd env (frame.stack maximum last borrow) element) := by
  unfold jitsonStackAdd
  split
  · exact Frame.addDup_fills element
  · exact Frame.addReference_fills element

theorem closeCollection_asserts {env : Env} {stack : Stack} {failure : Failure}
    (failed : stack.closeCollection env = .error failure) :
    failure.fault = .assertion := by
  unfold closeCollection at failed
  dsimp only at failed
  split at failed
  · cases failed
    rfl
  · split at failed
    · cases failed
      rfl
    · split at failed
      · cases failed
        rfl
      · cases failed

theorem returning_ok {α : Type} {iou : Stack} {call : Except Failure α} {result : α}
    (done : returning iou call = .ok result) :
    call = .ok result := by
  cases call with
  | ok value => exact done
  | error failure =>
      rcases bind_ok done with ⟨back, -, wrong⟩
      cases wrong

theorem expand_setLast (env : Env) (stack : Stack) (more last : Nat) :
    (stack.setLast last).expand env more = match stack.expand env more with
      | .ok grown => .ok (grown.setLast last)
      | .error failure => .error ⟨failure.fault, failure.stack.setLast last⟩ := by
  have count : (stack.setLast last).count = stack.count := rfl
  have newMaximum : ∀ expanded, (stack.setLast last).newMaximum expanded = stack.newMaximum expanded := fun _ => rfl
  have maximum : (stack.setLast last).maximum = stack.maximum := rfl
  have allocated : (stack.setLast last).allocated = stack.allocated := rfl
  simp only [Stack.expand, count, newMaximum, maximum, allocated]
  split
  · rfl
  · split
    · split
      · rfl
      · split
        · rfl
        · rfl
    · split
      · rfl
      · rfl

theorem checkElement_setLast (stack : Stack) (collection size last : Nat) (elemType : TypeWord) (copied : Bool) :
    (stack.setLast last).checkElement collection size elemType copied =
      match stack.checkElement collection size elemType copied with
      | .ok checked => .ok (checked.setLast last)
      | .error failure => .error ⟨failure.fault, failure.stack.setLast last⟩ := by
  have either : ∀ (condition : Prop) (_ : Decidable condition) (changed : Stack),
      (if condition then .error ⟨.assertion, stack.setLast last⟩
        else .ok (changed.setLast last) : Except Failure Stack) =
        match (if condition then .error ⟨.assertion, stack⟩ else .ok changed : Except Failure Stack) with
        | .ok checked => .ok (checked.setLast last)
        | .error failure => .error ⟨failure.fault, failure.stack.setLast last⟩ := by
    intro condition decidable changed
    split
    · rfl
    · rfl
  have pointer : ∀ idx, (stack.setLast last).pointer idx = stack.pointer idx := fun _ => rfl
  have count : (stack.setLast last).count = stack.count := rfl
  have mapped : ∀ change, (stack.setLast last).mapType collection change =
    (stack.mapType collection change).setLast last :=
    fun _ => rfl
  simp only [checkElement, pointer, count, mapped]
  exact either _ _ _

theorem addValue_setLast (env : Env) (stack : Stack) (size last : Nat) (elemType : TypeWord)
    (element : Option Pointer) :
    faultOf ((stack.setLast last).addValue env size elemType element) =
      faultOf (stack.addValue env size elemType element) := by
  have opened : (stack.setLast last).opened = stack.opened := rfl
  have pointer : ∀ idx, (stack.setLast last).pointer idx = stack.pointer idx := fun _ => rfl
  have noValue : ∀ idx, (stack.setLast last).noValue idx = stack.noValue idx := fun _ => rfl
  unfold addValue
  simp only [opened, pointer, noValue]
  split
  · rfl
  · rw [checkElement_setLast]
    cases stack.checkElement (stack.opened - 1) size elemType element.isSome with
    | error failure => rfl
    | ok checked =>
        cases element with
        | none => rfl
        | some element =>
            dsimp only [ok_bind]
            rw [expand_setLast]
            cases checked.expand env size with
            | error failure => rfl
            | ok grown => rfl

/-- A stack of the thread on which an array is open. -/
def constructing : Stack := ⟨4, [.head { kind := .array } 0 (.part false 0 0)], true, 1, 0, 0⟩

end Leaving

end Jitson
end LibKit
