import LibKit.Jitson.Stack
import LibKit.Support.Results

namespace LibKit
namespace Jitson

/-!
# Open collections on the stack

The innermost open collection splits the stack: what is below it, its head,
and the tokens of the values added to it so far.  Each function of the stack
is given here by what it does to these parts.
-/

theorem onFailure_error {α : Type} {call : Except Failure α} {change : Stack → Stack} {failure : Failure}
    (failed : Stack.onFailure call change = .error failure) :
    ∃ inner, call = .error inner ∧ failure = ⟨inner.fault, change inner.stack⟩ := by
  cases call with
  | ok value => cases failed
  | error inner =>
      cases failed
      exact ⟨inner, rfl, rfl⟩

@[simp] theorem onFailure_ok {α : Type} (value : α) (change : Stack → Stack) :
    Stack.onFailure (.ok value) change = .ok value := rfl

/-- The innermost open collection, with what is below and above its head. -/
structure Frame where
  base : List Token
  type : TypeWord
  len : Nat
  noValue : Bool
  last : Nat
  collection : Nat
  tokens : List Token

namespace Frame

variable (env : Env) (frame : Frame) (maximum last borrow : Nat)

def head : Token := .head frame.type frame.len (.part frame.noValue frame.last frame.collection)

def stack : Stack where
  maximum := maximum
  jitsons := frame.base ++ frame.head :: frame.tokens
  allocated := true
  opened := frame.base.length + 1
  last := last
  borrow := borrow

@[simp] theorem stack_opened : (frame.stack maximum last borrow).opened = frame.base.length + 1 := rfl

@[simp] theorem stack_last : (frame.stack maximum last borrow).last = last := rfl

@[simp] theorem stack_setLast (value : Nat) :
    (frame.stack maximum last borrow).setLast value = frame.stack maximum value borrow := rfl

@[simp] theorem stack_count :
    (frame.stack maximum last borrow).count = frame.base.length + 1 + frame.tokens.length := by
  simp only [Stack.count, stack, List.length_append, List.length_cons]
  omega

@[simp] theorem pointer_head :
    (frame.stack maximum last borrow).pointer frame.base.length = frame.head :: frame.tokens := by
  simp [Stack.pointer, stack]

@[simp] theorem pointer_tokens (i : Nat) :
    (frame.stack maximum last borrow).pointer (frame.base.length + 1 + i) = frame.tokens.drop i := by
  simp only [Stack.pointer, stack, Nat.add_assoc, List.drop_length_add_append]
  rw [Nat.add_comm 1 i, List.drop_succ_cons]

@[simp] theorem typeOf_head : typeOf (frame.head :: frame.tokens) = frame.type := rfl

@[simp] theorem lenOf_head : lenOf (frame.head :: frame.tokens) = frame.len := rfl

@[simp] theorem bodyOf_head :
    bodyOf (frame.head :: frame.tokens) = .part frame.noValue frame.last frame.collection := rfl

@[simp] theorem stack_noValue : (frame.stack maximum last borrow).noValue frame.base.length = frame.noValue := by
  simp [Stack.noValue]

@[simp] theorem stack_partLast : (frame.stack maximum last borrow).partLast frame.base.length = frame.last := by
  simp [Stack.partLast]

@[simp] theorem stack_partCollection :
    (frame.stack maximum last borrow).partCollection frame.base.length = frame.collection := by
  simp [Stack.partCollection]

theorem modify_middle {α : Type} (before : List α) (item : α) (behind : List α) (change : α → α) :
    (before ++ item :: behind).modify before.length change = before ++ change item :: behind := by
  induction before with
  | nil => rfl
  | cons first others ih => simp [ih]

@[simp] theorem stack_mapType (change : TypeWord → TypeWord) :
    (frame.stack maximum last borrow).mapType frame.base.length change =
      ({ frame with type := change frame.type } : Frame).stack maximum last borrow := by
  simp [Stack.mapType, stack, modify_middle, head]

@[simp] theorem stack_mapLen (change : Nat → Nat) :
    (frame.stack maximum last borrow).mapLen frame.base.length change =
      ({ frame with len := change frame.len } : Frame).stack maximum last borrow := by
  simp [Stack.mapLen, stack, modify_middle, head]

@[simp] theorem stack_setPartLast (value : Nat) :
    (frame.stack maximum last borrow).setPartLast frame.base.length value =
      ({ frame with last := value } : Frame).stack maximum last borrow := by
  simp [Stack.setPartLast, Stack.mapPart, stack, modify_middle, head]

@[simp] theorem stack_setNoValue (value : Bool) :
    (frame.stack maximum last borrow).setNoValue frame.base.length value =
      ({ frame with noValue := value } : Frame).stack maximum last borrow := by
  simp [Stack.setNoValue, Stack.mapPart, stack, modify_middle, head]

theorem stack_write (i : Nat) (written : List Token) :
    (frame.stack maximum last borrow).write (frame.base.length + 1 + i) written =
      ({ frame with
          tokens := frame.tokens.take i ++ written ++ frame.tokens.drop (i + written.length) } : Frame).stack
        maximum last borrow := by
  have behind : frame.base.length + 1 + i + written.length = frame.base.length + 1 + (i + written.length) := by omega
  have dropped := frame.pointer_tokens maximum last borrow (i + written.length)
  rw [Stack.pointer] at dropped
  rw [Stack.write, behind, dropped]
  simp only [stack, Nat.add_assoc, List.take_length_add_append, List.append_assoc, head]
  rw [Nat.add_comm 1 i, List.take_succ_cons, List.cons_append]

end Frame

/-! ## Growing the stack -/

structure Env.Roomy (env : Env) : Prop where
  alloc : ∀ tokens, env.alloc tokens = true
  allocClone : env.allocClone = true

theorem Stack.newMaximum_ge {stack : Stack} {expanded : Nat} (positive : 0 < stack.maximum) (some : 0 < expanded)
    (small : expanded ≤ 2 ^ 32 - 4096) : expanded ≤ stack.newMaximum expanded := by
  rw [Stack.newMaximum]
  split
  · have division := Nat.div_add_mod (expanded - 1) stack.maximum
    have remainder := Nat.mod_lt (expanded - 1) positive
    rw [Nat.add_mul, Nat.one_mul, Nat.mul_comm]
    omega
  · rw [Nat.mod_eq_of_lt (by omega)]
    omega

/-- What is no collection has no index. -/
theorem Stack.clonable_of_kind {value : Pointer} (notArray : (typeOf value).isArray = false)
    (notObject : (typeOf value).kind ≠ .object) (address : Nat → Nat) : Stack.clonable address value = true := by
  unfold TypeWord.isArray at notArray
  unfold Stack.clonable Stack.findsIndexes Stack.indexes
  cases isKind : (typeOf value).kind with
  | array => exact absurd notArray (by simp [isKind])
  | range => exact absurd notArray (by simp [isKind])
  | object => exact absurd isKind notObject
  | _ =>
      simp only [isKind]
      rfl

theorem Stack.expand_ok {env : Env} (roomy : env.Roomy) (stack : Stack) (more : Nat) (positive : 0 < stack.maximum)
    (small : stack.count + more ≤ 2 ^ 32 - 4096) :
    ∃ maximum, 0 < maximum ∧ stack.expand env more = .ok { stack with
      maximum := maximum, jitsons := stack.jitsons ++ List.replicate more Token.more, allocated := true } := by
  simp only [Stack.expand]
  rw [if_neg (by omega)]
  by_cases larger : stack.count + more > stack.maximum
  · have enough := Stack.newMaximum_ge positive (by omega) small
    refine ⟨stack.newMaximum (stack.count + more), by omega, ?_⟩
    rw [if_pos larger, if_neg (by omega), if_pos (roomy.alloc _)]
  · refine ⟨stack.maximum, positive, ?_⟩
    rw [if_neg larger, if_pos (Or.inr (roomy.alloc _))]

theorem Stack.expand_cases {env : Env} {stack after : Stack} {more : Nat} (result : stack.expand env more = .ok after) :
    stack.count + more < 2 ^ 32 ∧ ∃ maximum, after = { stack with
      maximum := maximum, jitsons := stack.jitsons ++ List.replicate more Token.more, allocated := true } := by
  simp only [Stack.expand] at result
  split at result
  · cases result
  · rename_i inRange
    refine ⟨by omega, ?_⟩
    split at result
    · split at result
      · cases result
      · split at result
        · exact ⟨_, (Except.ok.inj result).symm⟩
        · cases result
    · split at result
      · exact ⟨_, (Except.ok.inj result).symm⟩
      · cases result

theorem Stack.expand_failed {env : Env} {stack : Stack} {more : Nat} {failure : Failure}
    (result : stack.expand env more = .error failure) : failure.stack = stack := by
  simp only [Stack.expand] at result
  split at result
  · cases result
    rfl
  · split at result
    · split at result
      · cases result
        rfl
      · split at result
        · cases result
        · cases result
          rfl
    · split at result
      · cases result
      · cases result
        rfl

/-! ## Adding a value to an array -/

/-- The type without the flags that adding a value clears. -/
def TypeWord.unflagged (type : TypeWord) : TypeWord :=
  { type with isOrd := false, isUnif := false, isHomo := false }

namespace Frame

variable (env : Env) (frame : Frame) (maximum last borrow : Nat)

/-- The test that clears `IS_UNIF`, where the tokens of the element are on the
stack already or are copied to it later. -/
def resized (size : Nat) (copied : Bool) : Bool :=
  frame.len ≠ 0 ∧ frame.type.isUnif ∧
    size ≠ (frame.tokens.length - (if copied then 0 else size)) / frame.len

/-- The test that clears `IS_HOMO`. -/
def retyped (elemType : TypeWord) : Bool :=
  frame.len ≠ 0 ∧ frame.type.isHomo ∧ (typeOf frame.tokens).masked ≠ elemType

/-- The array with its flags for one more element. -/
def checked (size : Nat) (elemType : TypeWord) (copied : Bool) : Frame :=
  { frame with type := { frame.type with
      isUnif := frame.type.isUnif && !frame.resized size copied
      isHomo := frame.type.isHomo && !frame.retyped elemType } }

theorem checkElement_eq (size : Nat) (elemType : TypeWord) (copied : Bool)
    (uniform : frame.resized size copied = false ∨ frame.type.mkSort = false) :
    (frame.stack maximum last borrow).checkElement frame.base.length size elemType copied =
      .ok ((frame.checked size elemType copied).stack maximum last borrow) := by
  have first := frame.pointer_tokens maximum last borrow 0
  rw [Nat.add_zero, List.drop_zero] at first
  have above : ∀ taken, frame.base.length + 1 + frame.tokens.length - taken - (frame.base.length + 1) =
      frame.tokens.length - taken := by omega
  have allowed : ¬ (frame.resized size copied = true ∧ frame.type.mkSort = true) := by
    rcases uniform with uniform | plain
    · simp [uniform]
    · simp [plain]
  simp only [Stack.checkElement, pointer_head, typeOf_head, lenOf_head, stack_count, above, first, stack_mapType]
  exact if_neg allowed

/-- The index of the first token above the head. -/
def start : Nat := frame.base.length + 1

/-- The value that an index above the head points to. -/
def value (idx : Nat) : Pointer := frame.tokens.drop (idx - frame.start)

theorem pointer_eq_value {idx : Nat} (above : frame.start ≤ idx) :
    (frame.stack maximum last borrow).pointer idx = frame.value idx := by
  have split : idx = frame.base.length + 1 + (idx - frame.start) := by
    rw [start] at above ⊢
    omega
  rw [split, pointer_tokens, value, ← split]

/-- The array without `IS_ORD` where the first value is greater than the
second. -/
def ordered (compared : Bool) (first second : Pointer) : Frame :=
  { frame with type := { frame.type with
      isOrd := frame.type.isOrd && !(compared && decide (cmp env.ops first second > 0)) } }

@[simp] theorem ordered_false (first second : Pointer) : frame.ordered env false first second = frame := by
  simp [ordered]

theorem ordered_isOrd (compared : Bool) (first second : Pointer) :
    (frame.ordered env compared first second).type.isOrd = true ↔
      frame.type.isOrd = true ∧ (compared = true → ¬ cmp env.ops first second > 0) := by
  cases compared <;> simp [ordered]

theorem ordered_unordered {compared : Bool} {first second : Pointer} (unordered : frame.type.isOrd = false) :
    frame.ordered env compared first second = frame := by
  have same : ({ frame.type with
      isOrd := frame.type.isOrd && !(compared && decide (cmp env.ops first second > 0)) } : TypeWord) = frame.type := by
    rw [unordered, Bool.false_and, ← unordered]
  rw [ordered, same]

theorem checkOrder_eq (value : Pointer) (above : frame.start ≤ frame.last) :
    (frame.stack maximum last borrow).checkOrder env frame.base.length value =
      (frame.ordered env true (frame.value frame.last) value).stack maximum last borrow := by
  simp only [Stack.checkOrder, stack_partLast, frame.pointer_eq_value maximum last borrow above, ordered,
    Bool.true_and]
  by_cases greater : cmp env.ops (frame.value frame.last) value > 0
  · simp [greater]
  · simp [greater]

/-- The array after an element was added whose index is the new `last`, or
remains open where the size of the element is not known. -/
def noted (size last : Nat) : Frame :=
  { frame with last := if size = 0 then frame.last else last, len := frame.len + 1 }

theorem noteElement_eq (size : Nat) :
    (frame.stack maximum last borrow).noteElement frame.base.length size true =
      (frame.noted size last).stack maximum last borrow := by
  by_cases zero : size = 0
  · simp [Stack.noteElement, noted, zero]
  · simp [Stack.noteElement, noted, zero]

/-- What `sxe_jitson_stack_add_value` does with an element that is on the stack
already. -/
theorem placeElement_none (type : TypeWord) (size len : Nat) (plain : type.mkSort = false)
    (above : len ≠ 0 → frame.start ≤ frame.last) (sameOrd : type.isOrd = frame.type.isOrd)
    (onStack : size ≠ 0 → frame.start ≤ last) :
    (frame.stack maximum last borrow).placeElement env type frame.base.length size len none =
      .ok ((frame.ordered env (decide (len ≠ 0 ∧ size ≠ 0)) (frame.value frame.last) (frame.value last)).stack
        maximum last borrow, last) := by
  rw [Stack.placeElement]
  by_cases empty : len = 0
  · simp [empty]
  · rw [if_neg empty, plain, if_neg Bool.false_ne_true, sameOrd]
    by_cases zero : size = 0
    · simp [zero]
    · by_cases isOrd : frame.type.isOrd = true
      · simp only [isOrd, if_true, zero, if_false, stack_last,
          frame.pointer_eq_value maximum last borrow (onStack zero),
          frame.checkOrder_eq env maximum last borrow _ (above empty)]
        simp [empty, zero]
      · rw [if_neg isOrd, stack_last, frame.ordered_unordered env (Bool.not_eq_true _ ▸ isOrd)]

/-- `sxe_jitson_stack_add_value` after the element was added to the stack. -/
theorem addValue_none (size : Nat) (elemType : TypeWord) (array : frame.type.kind = .array)
    (plain : frame.type.mkSort = false) (inside : size ≤ frame.tokens.length)
    (above : frame.len ≠ 0 → frame.start ≤ frame.last) :
    (frame.stack maximum last borrow).addValue env size elemType none =
      .ok ((((frame.checked size elemType false).ordered env (decide (frame.len ≠ 0 ∧ size ≠ 0))
          (frame.value frame.last) (frame.tokens.drop (frame.tokens.length - size))).noted size
        (frame.start + (frame.tokens.length - size))).stack
          maximum (frame.start + (frame.tokens.length - size)) borrow) := by
  have index : frame.base.length + 1 + frame.tokens.length - size =
      frame.start + (frame.tokens.length - size) := by
    rw [start]
    omega
  have placed := (frame.checked size elemType false).placeElement_none env maximum
    (frame.start + (frame.tokens.length - size)) borrow frame.type size frame.len plain above rfl
    (fun _ => Nat.le_add_right _ _)
  have value : (frame.checked size elemType false).value (frame.start + (frame.tokens.length - size)) =
      frame.tokens.drop (frame.tokens.length - size) := by
    show frame.tokens.drop (frame.start + (frame.tokens.length - size) - frame.start) = _
    rw [Nat.add_sub_cancel_left]
  have counted : ((frame.checked size elemType false).stack maximum last borrow).count - size =
      frame.start + (frame.tokens.length - size) := by
    rw [stack_count]
    exact index
  simp only [Stack.addValue, stack_opened, Nat.add_sub_cancel, pointer_head, typeOf_head, lenOf_head, array,
    decide_true, Nat.add_eq_zero_iff, Nat.one_ne_zero, and_false, true_or, not_true, or_false, if_false,
    Option.isSome_none, frame.checkElement_eq maximum last borrow size elemType false (Or.inr plain), ok_bind,
    counted, stack_setLast]
  rw [show frame.base.length = (frame.checked size elemType false).base.length from rfl, placed, ok_bind, value]
  exact congrArg Except.ok (noteElement_eq _ _ _ _ _)

def pushed (more : List Token) : Frame := { frame with tokens := frame.tokens ++ more }

theorem expand_ok {env : Env} (roomy : env.Roomy) (more : Nat) (positive : 0 < maximum)
    (small : frame.start + frame.tokens.length + more ≤ 2 ^ 32 - 4096) :
    ∃ maximum', 0 < maximum' ∧ (frame.stack maximum last borrow).expand env more =
      .ok ((frame.pushed (List.replicate more Token.more)).stack maximum' last borrow) := by
  have counted := frame.stack_count maximum last borrow
  rcases Stack.expand_ok roomy (frame.stack maximum last borrow) more positive (by rw [counted]; exact small)
    with ⟨maximum', positive', expanded⟩
  refine ⟨maximum', positive', ?_⟩
  rw [expanded]
  simp [stack, pushed, head]

/-- What `sxe_jitson_stack_add_value` does with an element that it copies to the
stack. -/
theorem placeElement_some (type : TypeWord) (size len : Nat) (element : Pointer) (plain : type.mkSort = false)
    (above : len ≠ 0 → frame.start ≤ frame.last) (sameOrd : type.isOrd = frame.type.isOrd) :
    (frame.stack maximum last borrow).placeElement env type frame.base.length size len (some element) =
      .ok ((frame.ordered env (decide (len ≠ 0)) (frame.value frame.last) element).stack
        maximum last borrow, last) := by
  rw [Stack.placeElement]
  by_cases empty : len = 0
  · simp [empty]
  · rw [if_neg empty, plain, if_neg Bool.false_ne_true, sameOrd]
    by_cases isOrd : frame.type.isOrd = true
    · simp only [isOrd, if_true, stack_last, frame.checkOrder_eq env maximum last borrow _ (above empty)]
      simp [empty]
    · rw [if_neg isOrd, stack_last, frame.ordered_unordered env (Bool.not_eq_true _ ▸ isOrd)]

theorem write_pushed (size : Nat) (element : Pointer) (long : size ≤ element.length) :
    ((frame.pushed (List.replicate size Token.more)).stack maximum last borrow).write
        (frame.start + frame.tokens.length) (element.take size) =
      (frame.pushed (element.take size)).stack maximum last borrow := by
  have written := (frame.pushed (List.replicate size Token.more)).stack_write maximum last borrow
    frame.tokens.length (element.take size)
  have length : (element.take size).length = size := by simp [long]
  rw [length] at written
  have behind : (frame.tokens ++ List.replicate size Token.more).drop (frame.tokens.length + size) = [] := by
    apply List.drop_of_length_le
    simp
  exact written.trans (by simp [pushed, behind])

/-- `sxe_jitson_stack_add_value` of an element that it copies. -/
theorem addValue_some {maximum' size : Nat} (elemType : TypeWord) (element : Pointer)
    (array : frame.type.kind = .array) (plain : frame.type.mkSort = false) (long : size ≤ element.length)
    (above : frame.len ≠ 0 → frame.start ≤ frame.last)
    (expanded : ((frame.checked size elemType true).stack maximum last borrow).expand env size =
      .ok (((frame.checked size elemType true).pushed (List.replicate size Token.more)).stack maximum' last borrow)) :
    (frame.stack maximum last borrow).addValue env size elemType (some element) =
      .ok (((((frame.checked size elemType true).pushed (element.take size)).ordered env (decide (frame.len ≠ 0))
          ((frame.pushed (List.replicate size Token.more)).value frame.last) element).noted size
        (frame.start + frame.tokens.length)).stack maximum' (frame.start + frame.tokens.length) borrow) := by
  have counted : (((frame.checked size elemType true).pushed (List.replicate size Token.more)).stack
      maximum' last borrow).count - size = frame.start + frame.tokens.length := by
    rw [stack_count]
    simp only [pushed, List.length_append, List.length_replicate, start, checked]
    omega
  have placed := ((frame.checked size elemType true).pushed (List.replicate size Token.more)).placeElement_some env
    maximum' (frame.start + frame.tokens.length) borrow frame.type size frame.len element plain above rfl
  have written := ((frame.checked size elemType true).ordered env (decide (frame.len ≠ 0))
    ((frame.pushed (List.replicate size Token.more)).value frame.last) element).write_pushed maximum'
    (frame.start + frame.tokens.length) borrow size element long
  simp only [Stack.addValue, stack_opened, Nat.add_sub_cancel, pointer_head, typeOf_head, lenOf_head, array,
    decide_true, Nat.add_eq_zero_iff, Nat.one_ne_zero, and_false, true_or, not_true, or_false, if_false,
    Option.isSome_some, frame.checkElement_eq maximum last borrow size elemType true (Or.inr plain), ok_bind,
    expanded, onFailure_ok, counted, stack_setLast]
  rw [show frame.base.length = ((frame.checked size elemType true).pushed
    (List.replicate size Token.more)).base.length from rfl, placed, ok_bind]
  refine congrArg Except.ok ?_
  exact (congrArg (fun stack => Stack.noteElement stack frame.base.length size true) written).trans
    (noteElement_eq _ _ _ _ _)

/-- `sxe_jitson_stack_value_added` for an array, whose last value is above its
head. -/
theorem valueAdded_eq (optimize : Bool) (array : frame.type.kind = .array)
    (above : 1 < frame.len → frame.start ≤ frame.last) (onStack : frame.start ≤ last) :
    (frame.stack maximum last borrow).valueAdded env optimize =
      (if optimize then
        { frame.ordered env (decide (1 < frame.len)) (frame.value frame.last) (frame.value last) with last := last }
        else frame).stack maximum last borrow := by
  cases optimize with
  | false => simp [Stack.valueAdded]
  | true =>
      have ordered := frame.checkOrder_eq env maximum last borrow (frame.value last)
      simp only [Stack.valueAdded, stack_opened, Nat.add_sub_cancel, pointer_head, typeOf_head, lenOf_head, array,
        and_self, if_true, stack_last, frame.pointer_eq_value maximum last borrow onStack]
      by_cases several : 1 < frame.len
      · by_cases isOrd : frame.type.isOrd = true
        · rw [if_pos ⟨several, isOrd⟩, ordered (above several)]
          simp only [several, decide_true]
          exact stack_setPartLast _ _ _ _ _
        · rw [if_neg (fun both => isOrd both.2), frame.ordered_unordered env (Bool.not_eq_true _ ▸ isOrd)]
          exact stack_setPartLast _ _ _ _ _
      · rw [if_neg (fun both => several both.1)]
        simp [several]

/-! ## Opening and closing -/

/-- The head of a collection that was just opened. -/
def openedType (type : TypeWord) : TypeWord :=
  if type.kind = .array ∧ (env.optimize ∨ type.mkSort) then
    { type with isOrd := true, isUnif := true, isHomo := true }
  else type

/-- The collection that `sxe_jitson_stack_open_collection` opens. -/
def opening (base : List Token) (type : TypeWord) (collection : Nat) : Frame :=
  ⟨base, openedType env type, 0, false, 0, collection, []⟩

/-- The collection that `sxe_jitson_stack_close_collection` closes, as a value. -/
def closed : List Token := Stack.closeHead frame.tokens.length frame.head :: frame.tokens

/-- Closing a collection, after which the one around it is open. -/
theorem closeCollection_eq (complete : frame.type = { kind := .object } → frame.noValue = false)
    (nested : frame.collection ≤ frame.base.length) :
    (frame.stack maximum last borrow).closeCollection env =
      let stack : Stack := ⟨maximum, frame.base ++ frame.closed, true, frame.collection, last, borrow⟩
      .ok (if frame.collection ≠ 0 then stack.valueAdded env env.optimize else stack) := by
  have above : frame.base.length + 1 + frame.tokens.length - (frame.base.length + 1) = frame.tokens.length := by omega
  have valued : ¬ (frame.type = { kind := .object } ∧ frame.noValue = true) := by
    rintro ⟨object, noValue⟩
    simp [complete object] at noValue
  have inside : ¬ frame.base.length + 1 ≤ frame.collection := by omega
  have closing : (frame.stack maximum last borrow).jitsons.modify frame.base.length
      (Stack.closeHead frame.tokens.length) = frame.base ++ frame.closed := modify_middle _ _ _ _
  simp only [Stack.closeCollection, stack_opened, Nat.add_sub_cancel, Nat.add_eq_zero_iff, Nat.one_ne_zero,
    and_false, if_false, pointer_head, typeOf_head, stack_noValue, stack_partCollection, stack_count, above, closing]
  rw [if_neg valued, if_neg inside]
  rfl

theorem closeCollection_outermost (complete : frame.type = { kind := .object } → frame.noValue = false)
    (outermost : frame.collection = 0) :
    (frame.stack maximum last borrow).closeCollection env =
      .ok ⟨maximum, frame.base ++ frame.closed, true, 0, last, borrow⟩ := by
  rw [frame.closeCollection_eq env maximum last borrow complete (by omega)]
  simp [outermost]

end Frame

theorem Stack.getJitson_borrowed {env : Env} (roomy : env.Roomy) (maximum last : Nat) (base value : List Token)
    (some : value ≠ []) :
    ∃ allocated, getJitson env ⟨maximum, base ++ value, true, 0, last, base.length⟩ =
      .ok (markAlloced value, ⟨maximum, base, allocated, 0, last, base.length⟩) := by
  have positive := List.length_pos_iff.mpr some
  by_cases empty : base = []
  · subst empty
    exact ⟨false, rfl⟩
  · refine ⟨true, ?_⟩
    have borrowed : base.length ≠ 0 := fun zero => empty (List.eq_nil_of_length_eq_zero zero)
    simp [getJitson, borrowed, Stack.count, roomy.alloc _, Stack.pointer, some]

theorem Stack.openCollection_first {env : Env} (roomy : env.Roomy) {stack : Stack} {type : TypeWord}
    (allowed : canOpen type = true) (none : stack.opened = 0) (positive : 0 < stack.maximum)
    (small : stack.count + 1 ≤ 2 ^ 32 - 4096) :
    ∃ maximum, 0 < maximum ∧ stack.openCollection env type =
      .ok ((Frame.opening env stack.jitsons type 0).stack maximum stack.last stack.borrow) := by
  rcases stack.expand_ok roomy 1 positive small with ⟨maximum, positive', expanded⟩
  refine ⟨maximum, positive', ?_⟩
  simp only [Stack.openCollection, allowed, none, not_true, if_false, ne_eq, ok_bind, expanded]
  simp [Frame.stack, Frame.opening, Frame.head, Stack.write, Stack.count, Frame.openedType]

end Jitson
end LibKit
