import LibKit.Jitson.Members
import LibKit.Jitson.Retrying

namespace LibKit
namespace Jitson

open Stack

/-!
# Building objects

An object is built by adding member names and values to it, where a value may
be a collection that is opened, filled by any calls and closed.  What is done
inside the collection stays above its head.
-/

/-! ## Calls on an open collection -/

theorem modify_above {α : Type} (before : List α) (item : α) (behind : List α) (i : Nat) (change : α → α) :
    (before ++ item :: behind).modify (before.length + (i + 1)) change = before ++ item :: behind.modify i change := by
  induction before with
  | nil => simp
  | cons first others ih =>
      rw [List.cons_append, List.length_cons, Nat.succ_add, List.modify_succ_cons, ih, List.cons_append]

theorem onFailure_cases {α : Type} {call : Except Failure α} {change : Stack → Stack} {result : α}
    (succeeded : onFailure call change = .ok result) : call = .ok result := by
  cases call with
  | error failure => cases succeeded
  | ok other => exact succeeded

def retype (change : TypeWord → TypeWord) : Token → Token
  | .head type len body => .head (change type) len body
  | .more => .more

theorem mapType_retype (stack : Stack) (idx : Nat) (change : TypeWord → TypeWord) :
    stack.mapType idx change = { stack with jitsons := stack.jitsons.modify idx (retype change) } := rfl

namespace Frame

/-- The stack after calls that have worked on an open collection: what is below
its head, and the collection around it, are as before. -/
def Within (frame : Frame) (stack : Stack) : Prop :=
  ∃ (inner : Frame) (maximum last borrow : Nat), stack = inner.stack maximum last borrow ∧
    inner.base = frame.base ∧ inner.collection = frame.collection

namespace Within

variable {env : Env} {frame : Frame} {stack after : Stack}

theorem here (frame : Frame) (maximum last borrow : Nat) : Within frame (frame.stack maximum last borrow) :=
  ⟨frame, maximum, last, borrow, rfl, rfl, rfl⟩

theorem opened (within : Within frame stack) : stack.opened = frame.base.length + 1 := by
  rcases within with ⟨inner, maximum, last, borrow, rfl, base, -⟩
  rw [stack_opened, base]

theorem count (within : Within frame stack) : frame.base.length + 1 ≤ stack.count := by
  rcases within with ⟨inner, maximum, last, borrow, rfl, base, -⟩
  rw [stack_count, base]
  exact Nat.le_add_right _ _

theorem setLast (within : Within frame stack) (last : Nat) : Within frame (stack.setLast last) := by
  rcases within with ⟨inner, maximum, last', borrow, rfl, same⟩
  exact ⟨inner, maximum, last, borrow, rfl, same⟩

theorem mapType (within : Within frame stack) (change : TypeWord → TypeWord) :
    Within frame (stack.mapType frame.base.length change) := by
  rcases within with ⟨inner, maximum, last, borrow, rfl, base, collection⟩
  rw [← base, stack_mapType]
  exact ⟨_, maximum, last, borrow, rfl, base, collection⟩

theorem mapLen (within : Within frame stack) (change : Nat → Nat) :
    Within frame (stack.mapLen frame.base.length change) := by
  rcases within with ⟨inner, maximum, last, borrow, rfl, base, collection⟩
  rw [← base, stack_mapLen]
  exact ⟨_, maximum, last, borrow, rfl, base, collection⟩

theorem setPartLast (within : Within frame stack) (value : Nat) :
    Within frame (stack.setPartLast frame.base.length value) := by
  rcases within with ⟨inner, maximum, last, borrow, rfl, base, collection⟩
  rw [← base, stack_setPartLast]
  exact ⟨_, maximum, last, borrow, rfl, base, collection⟩

theorem setNoValue (within : Within frame stack) (value : Bool) :
    Within frame (stack.setNoValue frame.base.length value) := by
  rcases within with ⟨inner, maximum, last, borrow, rfl, base, collection⟩
  rw [← base, stack_setNoValue]
  exact ⟨_, maximum, last, borrow, rfl, base, collection⟩

theorem write (within : Within frame stack) {idx : Nat} (above : frame.base.length < idx) (tokens : List Token) :
    Within frame (stack.write idx tokens) := by
  rcases within with ⟨inner, maximum, last, borrow, rfl, base, collection⟩
  have split : idx = inner.base.length + 1 + (idx - (frame.base.length + 1)) := by
    rw [base]
    omega
  rw [split, stack_write]
  exact ⟨_, maximum, last, borrow, rfl, base, collection⟩

/-- Changing the type of a token above the head. -/
theorem mapType_above (within : Within frame stack) {idx : Nat} (above : frame.base.length < idx)
    (change : TypeWord → TypeWord) : Within frame (stack.mapType idx change) := by
  rcases within with ⟨inner, maximum, last, borrow, rfl, base, collection⟩
  rcases Nat.exists_eq_add_of_lt above with ⟨i, rfl⟩
  refine ⟨{ inner with tokens := inner.tokens.modify i (retype change) }, maximum, last, borrow, ?_, base, collection⟩
  rw [← base, Nat.add_assoc, mapType_retype]
  simp only [Frame.stack, modify_above, Frame.head]

theorem expand (within : Within frame stack) {more : Nat} (expanded : stack.expand env more = .ok after) :
    Within frame after ∧ after.count = stack.count + more := by
  rcases Stack.expand_cases expanded with ⟨-, maximum, rfl⟩
  rcases within with ⟨inner, maximum', last, borrow, rfl, base, collection⟩
  refine ⟨⟨inner.pushed (List.replicate more .more), maximum, last, borrow, ?_, base, collection⟩, ?_⟩
  · simp [Frame.stack, Frame.pushed, Frame.head]
  · simp [Stack.count, Frame.stack]
    omega

theorem placeElement (within : Within frame stack) {type : TypeWord} {size len idx : Nat} {element : Option Pointer}
    (result : stack.placeElement env type frame.base.length size len element = .ok (after, idx)) :
    Within frame after ∧ (idx = stack.last ∨ frame.base.length < idx) := by
  have ordering : ∀ value, Within frame (stack.checkOrder env frame.base.length value) := by
    intro value
    rw [checkOrder]
    split
    · exact within.mapType _
    · exact within
  simp only [Stack.placeElement] at result
  split at result
  · cases result
    exact ⟨within, Or.inl rfl⟩
  · split at result
    · split at result
      · rw [insertElement] at result
        split at result
        · split at result
          · cases result
          · split at result
            · cases result
              exact ⟨within.write (by omega) _, Or.inr (by omega)⟩
            · cases result
        · cases result
          exact ⟨within, Or.inl rfl⟩
      · cases result
    · split at result
      · split at result
        · cases result
          exact ⟨ordering _, Or.inl rfl⟩
        · split at result
          · cases result
            exact ⟨within, Or.inl rfl⟩
          · cases result
            exact ⟨ordering _, Or.inl rfl⟩
      · cases result
        exact ⟨within, Or.inl rfl⟩

theorem noteElement (within : Within frame stack) (size : Nat) (isArray : Bool) :
    Within frame (stack.noteElement frame.base.length size isArray) := by
  rw [Stack.noteElement]
  split
  · split
    · exact within.mapLen _
    · exact (within.setPartLast _).mapLen _
  · exact (within.setNoValue _).mapLen _

theorem addValue (within : Within frame stack) {size : Nat} {elemType : TypeWord} {element : Option Pointer}
    (result : stack.addValue env size elemType element = .ok after) : Within frame after := by
  simp only [Stack.addValue, within.opened, Nat.add_sub_cancel] at result
  split at result
  · cases result
  · rcases bind_ok result with ⟨checked, isChecked, result⟩
    have within' : Within frame checked := by
      rw [checkElement] at isChecked
      rw [check_ok isChecked]
      exact within.mapType _
    cases element with
    | none =>
        rw [ok_bind] at result
        rcases bind_ok result with ⟨⟨placed, idx⟩, isPlaced, result⟩
        cases result
        exact ((within'.setLast _).placeElement isPlaced).1.noteElement _ _
    | some element =>
        rcases bind_ok result with ⟨grown, isGrown, result⟩
        rcases within'.expand (onFailure_cases isGrown) with ⟨withinGrown, counted⟩
        rcases bind_ok result with ⟨⟨placed, idx⟩, isPlaced, result⟩
        cases result
        rcases (withinGrown.setLast _).placeElement isPlaced with ⟨withinPlaced, inside⟩
        have enough := within'.count
        refine (withinPlaced.write ?_ _).noteElement _ _
        rcases inside with same | above
        · rw [same]
          change frame.base.length < grown.count - size
          omega
        · exact above

theorem valueAdded (within : Within frame stack) (optimize : Bool) : Within frame (stack.valueAdded env optimize) := by
  simp only [Stack.valueAdded, within.opened, Nat.add_sub_cancel]
  split
  · split
    · rw [checkOrder]
      split
      · exact (within.mapType _).setPartLast _
      · exact within.setPartLast _
    · exact within.setPartLast _
  · exact within

theorem pushMore (within : Within frame stack) {more : Nat} (result : stack.pushMore env more = .ok after) :
    Within frame after := by
  induction more generalizing stack with
  | zero =>
      cases result
      exact within
  | succ more ih =>
      rcases bind_ok result with ⟨grown, isGrown, result⟩
      exact ih (within.expand isGrown).1 result

theorem pushString (within : Within frame stack) {string : List UInt8} {isRef isOwn isKey : Bool}
    (result : stack.pushString env string isRef isOwn isKey = .ok after) : Within frame after := by
  rw [Stack.pushString] at result
  rcases bind_ok result with ⟨grown, isGrown, result⟩
  have above := within.count
  have within' := (within.expand isGrown).1
  dsimp only at result
  split at result
  · cases result
    exact within'.write above _
  · split at result
    · cases result
    · exact (within'.write above _).pushMore (onFailure_cases result)

theorem dupAtIndex (within : Within frame stack) {value : Pointer} {size : Nat}
    (result : stack.dupAtIndex env stack.count value size = .ok after) : Within frame after := by
  have above := within.count
  rw [Stack.dupAtIndex] at result
  dsimp only at result
  split at result
  · cases result
  · have written : ∀ {grown : Stack}, Within frame grown →
        (let stack := (grown.write stack.count ((clone value).take size)).mapType stack.count fun type =>
          { type with alloced := false }
        if canClone env value then Except.ok stack else Except.error (Failure.mk .memory stack)) = Except.ok after →
        Within frame after := by
      intro grown within' result
      dsimp only at result
      split at result
      · cases result
        exact (within'.write above _).mapType_above above _
      · cases result
    split at result
    · rcases bind_ok result with ⟨grown, isGrown, result⟩
      exact written (within.expand isGrown).1 result
    · exact written within result

end Within

theorem openCollection_ok {env : Env} {stack after : Stack} {type : TypeWord}
    (opening : stack.openCollection env type = .ok after) :
    ∃ before maximum, canOpen type = true ∧
      (if stack.opened ≠ 0 then stack.addValue env 0 type none else .ok stack) = .ok before ∧
      after = (Frame.opening env before.jitsons type before.opened).stack maximum before.last before.borrow := by
  rw [openCollection] at opening
  split at opening
  · cases opening
  · rename_i allowed
    have pushed : ∀ {before : Stack}, (before.expand env 1 >>= fun grown =>
        .ok { grown.write before.count [.head (openedType env type) 0 (.part false 0 grown.opened)] with
          opened := before.count + 1 }) = Except.ok after →
        ∃ maximum, after = (Frame.opening env before.jitsons type before.opened).stack maximum
          before.last before.borrow := by
      intro before pushing
      rcases bind_ok pushing with ⟨grown, isGrown, pushing⟩
      rcases Stack.expand_cases isGrown with ⟨-, maximum, rfl⟩
      cases pushing
      refine ⟨maximum, ?_⟩
      simp [Frame.opening, Frame.stack, Frame.head, Stack.write, Stack.count]
    dsimp only at opening
    split at opening
    · rename_i nested
      rcases bind_ok opening with ⟨before, added, opening⟩
      rcases pushed opening with ⟨maximum, same⟩
      exact ⟨before, maximum, not_not.mp allowed, by rw [if_pos nested, added], same⟩
    · rename_i outermost
      rcases pushed opening with ⟨maximum, same⟩
      exact ⟨stack, maximum, not_not.mp allowed, by rw [if_neg outermost], same⟩

theorem Within.closeCollection {env : Env} {frame : Frame} {stack after : Stack} (within : Within frame stack)
    (closing : stack.closeCollection env = .ok after) :
    frame.collection ≤ frame.base.length ∧ ∃ (inner : Frame) (maximum last borrow : Nat),
      stack = inner.stack maximum last borrow ∧
      inner.base = frame.base ∧
      after = let closed : Stack := ⟨maximum, frame.base ++ inner.closed, true, frame.collection, last, borrow⟩
        if frame.collection ≠ 0 then closed.valueAdded env env.optimize else closed := by
  rcases within with ⟨inner, maximum, last, borrow, rfl, base, collection⟩
  have closing' := closing
  simp only [Stack.closeCollection, stack_opened, Nat.add_sub_cancel, Nat.add_eq_zero_iff, Nat.one_ne_zero,
    and_false, if_false, pointer_head, typeOf_head, stack_noValue, stack_partCollection] at closing'
  split at closing'
  · cases closing'
  · rename_i complete
    split at closing'
    · cases closing'
    · rename_i nested
      have valued : inner.type = { kind := .object } → inner.noValue = false := by
        intro object
        rw [← Bool.not_eq_true]
        exact fun noValue => complete ⟨object, noValue⟩
      rw [inner.closeCollection_eq env maximum last borrow valued (by omega)] at closing
      rw [← base, ← collection]
      exact ⟨by omega, inner, maximum, last, borrow, rfl, rfl, (Except.ok.inj closing).symm⟩

end Frame

/-- Calls that fill a collection: those that add to it, and others for the
collections in it, each of which is closed again. -/
inductive Fills (env : Env) : Stack → Stack → Prop where
  | none (stack : Stack) : Fills env stack stack
  | call {first stack after : Stack} (call : Call) (adds : ∀ type, call ≠ .openCollection type)
      (before : Fills env first stack) (called : call.run env stack = .ok after) : Fills env first after
  | number {first stack after : Stack} (bits : UInt64) (before : Fills env first stack)
      (called : stack.addNumber env bits = .ok after) : Fills env first after
  | nested {first stack inner filled after : Stack} (type : TypeWord) (before : Fills env first stack)
      (opening : stack.openCollection env type = .ok inner) (inside : Fills env inner filled)
      (closing : filled.closeCollection env = .ok after) : Fills env first after

namespace Frame.Within

variable {env : Env} {frame : Frame} {stack after : Stack}

/-- A collection that is opened and closed again inside another. -/
theorem nested {inner filled : Stack} {type : TypeWord} (within : Within frame stack)
    (opening : stack.openCollection env type = .ok inner)
    (inside : ∀ {inner' : Frame}, Within inner' inner → Within inner' filled)
    (closing : filled.closeCollection env = .ok after) : Within frame after := by
  rcases openCollection_ok opening with ⟨before, maximum, -, added, rfl⟩
  rw [if_pos (by rw [within.opened]; exact Nat.succ_ne_zero _)] at added
  have withinBefore := within.addValue added
  have opened := withinBefore.opened
  rcases withinBefore with ⟨outer, maximum', last, borrow, rfl, base, collection⟩
  rcases (inside (here _ maximum _ _)).closeCollection closing with ⟨-, closed, maximum'', last', borrow', -, -, rfl⟩
  have pushed : Within frame ⟨maximum'', (outer.stack maximum' last borrow).jitsons ++ closed.closed, true,
      (outer.stack maximum' last borrow).opened, last', borrow'⟩ := by
    refine ⟨outer.pushed closed.closed, maximum'', last', borrow', ?_, base, collection⟩
    simp [Frame.stack, Frame.pushed, Frame.head]
  have nonzero : (outer.stack maximum' last borrow).opened ≠ 0 := by
    rw [opened]
    exact Nat.succ_ne_zero _
  change Within frame (if (outer.stack maximum' last borrow).opened ≠ 0 then _ else _)
  rw [if_pos nonzero]
  exact pushed.valueAdded env.optimize

theorem call (within : Within frame stack) {call : Call} (adds : ∀ type, call ≠ .openCollection type)
    (called : call.run env stack = .ok after) : Within frame after := by
  cases call with
  | openCollection type => exact absurd rfl (adds type)
  | addMemberName name isRef isOwn =>
      simp only [Call.run, addMemberName, within.opened, Nat.add_sub_cancel] at called
      split at called
      · cases called
      · exact (within.setNoValue true).pushString called
  | addString string isRef isOwn =>
      simp only [Call.run, addString] at called
      split at called
      · exact within.addValue called
      · rcases bind_ok called with ⟨added, isAdded, called⟩
        rcases bind_ok called with ⟨pushed, isPushed, called⟩
        cases called
        exact (((within.addValue isAdded).setLast _).pushString (onFailure_cases isPushed)).valueAdded _
  | addUint value => exact within.addValue called
  | addBool value => exact within.addValue called
  | addNull => exact within.addValue called
  | addReference target => exact within.addValue called
  | addDup value =>
      rcases bind_ok called with ⟨copied, isCopied, called⟩
      rcases bind_ok called with ⟨added, isAdded, called⟩
      cases called
      exact ((within.dupAtIndex isCopied).addValue isAdded).valueAdded _
  | addDupMembers value =>
      simp only [Call.run, addDupMembers, within.opened, Nat.add_sub_cancel] at called
      split at called
      · cases called
      · split at called
        · cases called
          exact within
        · split at called
          · cases called
          · rcases bind_ok called with ⟨grown, isGrown, called⟩
            split at called
            · cases called
              exact (((within.expand isGrown).1).write within.count _).mapLen _
            · cases called

theorem fills {first : Stack} (filling : Jitson.Fills env first stack) :
    ∀ {frame : Frame}, Within frame first → Within frame stack := by
  induction filling with
  | none stack => exact id
  | call call adds before called ih => exact fun within => (ih within).call adds called
  | number bits before called ih => exact fun within => (ih within).addValue called
  | nested type before opening inside closing ihBefore ihInside =>
      exact fun within => (ihBefore within).nested opening ihInside closing

end Frame.Within

/-! ## Members of an object -/

def Call.isValue : Call → Bool
  | .openCollection _ | .addMemberName _ _ _ | .addDupMembers _ => false
  | _ => true

inductive Adds (env : Env) (stack : Stack) : Stack → Prop where
  | call {after : Stack} (call : Call) (isValue : call.isValue = true) (called : call.run env stack = .ok after) :
      Adds env stack after
  | number {after : Stack} (bits : UInt64) (called : stack.addNumber env bits = .ok after) : Adds env stack after
  | collection {inner filled after : Stack} (type : TypeWord) (opening : stack.openCollection env type = .ok inner)
      (inside : Fills env inner filled) (closing : filled.closeCollection env = .ok after) : Adds env stack after

def keeping (isRef isOwn : Bool) : Keeping := if isRef || isOwn then .referenced isOwn else .copied

/-- An object is built at an index: it was opened, and its members are those
that were added.  The value of a member is what was pushed after its name. -/
inductive Builds (env : Env) (idx : Nat) : List Member → Stack → Prop where
  | opened {stack after : Stack} (type : TypeWord) (object : type.kind = .object)
      (opening : stack.openCollection env type = .ok after) (here : after.opened = idx + 1) : Builds env idx [] after
  | member {members : List Member} {stack named after : Stack} (before : Builds env idx members stack)
      (name : List UInt8)
      (isRef isOwn : Bool) (clean : 0 ∉ name) (naming : stack.addMemberName env name isRef isOwn = .ok named)
      (adding : Adds env named after) :
      Builds env idx (members ++ [⟨name, keeping isRef isOwn, after.jitsons.drop named.count⟩]) after

structure TypeWord.PlainObject (type : TypeWord) : Prop where
  kind : type.kind = .object
  unsorted : type.mkSort = false
  unordered : type.isOrd = false
  notUnif : type.isUnif = false
  notHomo : type.isHomo = false
  notOwn : type.isOwn = false

namespace Frame

variable {env : Env} {frame : Frame} {maximum last borrow : Nat} {after : Stack}

/-- The object with the value of its last member. -/
def valued (frame : Frame) : Frame := { frame with noValue := false, len := frame.len + 1 }

/-- Calls that leave the tokens as they are have pushed some. -/
theorem pushed_of (within : Within frame after) (starts : (frame.stack maximum last borrow).jitsons <+: after.jitsons) :
    ∃ (segment : List Token) (maximum last borrow : Nat), after = (frame.pushed segment).stack maximum last borrow := by
  rcases within with ⟨inner, maximum', last', borrow', rfl, base, -⟩
  rcases starts with ⟨segment, same⟩
  refine ⟨segment, maximum', last', borrow', ?_⟩
  have jitsons : inner.base ++ inner.head :: inner.tokens = frame.base ++ frame.head :: (frame.tokens ++ segment) := by
    rw [← List.cons_append, ← List.append_assoc]
    exact same.symm
  unfold Frame.stack
  rw [jitsons, base]
  rfl

theorem checkElement_object (object : frame.type.PlainObject) (size : Nat) (elemType : TypeWord) (copied : Bool) :
    (frame.stack maximum last borrow).checkElement frame.base.length size elemType copied =
      .ok (frame.stack maximum last borrow) := by
  rw [frame.checkElement_eq maximum last borrow size elemType copied (Or.inr object.unsorted)]
  have same : frame.checked size elemType copied = frame := by
    simp only [checked, object.notUnif, object.notHomo, Bool.false_and]
    rcases frame with ⟨base, ⟨⟩, len, noValue, last, collection, tokens⟩
    rcases object with ⟨rfl, rfl, rfl, rfl, rfl, rfl⟩
    rfl
  rw [same]

theorem placeElement_object (object : frame.type.PlainObject) (stack : Stack) (collection size len : Nat)
    (element : Option Pointer) :
    stack.placeElement env frame.type collection size len element = .ok (stack, stack.last) := by
  simp only [placeElement, object.unsorted, object.unordered, Bool.false_eq_true, if_false, ite_self]

theorem noteElement_object (size : Nat) :
    (frame.stack maximum last borrow).noteElement frame.base.length size false =
      frame.valued.stack maximum last borrow := by
  rw [Stack.noteElement, if_neg Bool.false_ne_true, stack_setNoValue]
  exact stack_mapLen { frame with noValue := false } maximum last borrow _

theorem addValue_object_none (object : frame.type.PlainObject) {size : Nat} {elemType : TypeWord}
    (result : (frame.stack maximum last borrow).addValue env size elemType none = .ok after) :
    ∃ last', after = frame.valued.stack maximum last' borrow := by
  simp only [addValue, stack_opened, Nat.add_sub_cancel, pointer_head, typeOf_head, lenOf_head, stack_noValue] at result
  split at result
  · cases result
  · rw [checkElement_object object, ok_bind, ok_bind, placeElement_object object, ok_bind] at result
    cases result
    refine ⟨(frame.stack maximum last borrow).count - size, ?_⟩
    simp only [object.kind, reduceCtorEq, decide_false]
    exact noteElement_object size

theorem addValue_object_some (object : frame.type.PlainObject) {size : Nat} {elemType : TypeWord} {element : Pointer}
    (long : size ≤ element.length)
    (result : (frame.stack maximum last borrow).addValue env size elemType (some element) = .ok after) :
    ∃ maximum' last', after = (frame.valued.pushed (element.take size)).stack maximum' last' borrow := by
  simp only [addValue, stack_opened, Nat.add_sub_cancel, pointer_head, typeOf_head, lenOf_head, stack_noValue] at result
  split at result
  · cases result
  · rw [checkElement_object object, ok_bind] at result
    rcases bind_ok result with ⟨grown, isGrown, result⟩
    rcases Stack.expand_cases (onFailure_cases isGrown) with ⟨-, maximum', rfl⟩
    rw [placeElement_object object, ok_bind] at result
    cases result
    have pushed : ({ frame.stack maximum last borrow with
        maximum := maximum'
        jitsons := (frame.stack maximum last borrow).jitsons ++ List.replicate size Token.more
        allocated := true } : Stack) = (frame.pushed (List.replicate size .more)).stack maximum' last borrow := by
      simp [Frame.stack, Frame.pushed, Frame.head]
    refine ⟨maximum', frame.start + frame.tokens.length, ?_⟩
    have counted : ((frame.pushed (List.replicate size .more)).stack maximum' last borrow).count - size =
        frame.start + frame.tokens.length := by
      simp only [stack_count, Frame.pushed, List.length_append, List.length_replicate, start]
      omega
    simp only [object.kind, reduceCtorEq, decide_false]
    rw [pushed, counted, stack_setLast, stack_last, frame.write_pushed maximum' _ borrow size element long]
    exact @noteElement_object (frame.pushed (element.take size)) maximum' _ borrow size

theorem valueAdded_object (object : frame.type.PlainObject) (optimize : Bool) :
    (frame.stack maximum last borrow).valueAdded env optimize = frame.stack maximum last borrow := by
  simp [valueAdded, object.kind]

theorem pushMore_eq {more : Nat} (result : (frame.stack maximum last borrow).pushMore env more = .ok after) :
    ∃ maximum', after = (frame.pushed (List.replicate more .more)).stack maximum' last borrow := by
  induction more generalizing frame maximum with
  | zero =>
      cases result
      refine ⟨maximum, ?_⟩
      simp [Frame.stack, Frame.pushed, Frame.head]
  | succ more ih =>
      rcases bind_ok result with ⟨grown, isGrown, result⟩
      rcases Stack.expand_cases isGrown with ⟨-, maximum', rfl⟩
      have pushed : ({ frame.stack maximum last borrow with
          maximum := maximum'
          jitsons := (frame.stack maximum last borrow).jitsons ++ List.replicate 1 Token.more
          allocated := true } : Stack) = (frame.pushed [.more]).stack maximum' last borrow := by
        simp [Frame.stack, Frame.pushed, Frame.head]
      rw [pushed] at result
      rcases ih result with ⟨maximum'', same⟩
      refine ⟨maximum'', ?_⟩
      rw [same]
      simp [Frame.stack, Frame.pushed, Frame.head, List.replicate_succ]

theorem pushString_eq {string : List UInt8} {isRef isOwn isKey : Bool}
    (result : (frame.stack maximum last borrow).pushString env string isRef isOwn isKey = .ok after) :
    ∃ maximum', after = (frame.pushed
      (if isRef || isOwn then
        [.head { kind := .string, isRef := true, isOwn := isOwn, isKey := isKey } 0 (.reference string)]
      else .head { kind := .string, isKey := isKey } (CString.text string).length (.string (CString.text string)) ::
        List.replicate (((CString.text string).length + 8) / 16) .more)).stack maximum' last borrow ∧
      ((isRef || isOwn) = false → (CString.text string).length < 2 ^ 32) := by
  rw [Stack.pushString] at result
  rcases bind_ok result with ⟨grown, isGrown, result⟩
  rcases Stack.expand_cases isGrown with ⟨-, maximum', rfl⟩
  have pushed : ({ frame.stack maximum last borrow with
      maximum := maximum'
      jitsons := (frame.stack maximum last borrow).jitsons ++ List.replicate 1 Token.more
      allocated := true } : Stack) = (frame.pushed (List.replicate 1 .more)).stack maximum' last borrow := by
    simp [Frame.stack, Frame.pushed, Frame.head]
  have written : ∀ token : Token, ((frame.pushed (List.replicate 1 .more)).stack maximum' last borrow).write
      (frame.stack maximum last borrow).count [token] = (frame.pushed [token]).stack maximum' last borrow := by
    intro token
    rw [stack_count]
    exact frame.write_pushed maximum' last borrow 1 [token] (Nat.le_refl _)
  dsimp only at result
  rw [pushed] at result
  by_cases referred : (isRef || isOwn) = true
  · rw [if_pos referred] at result ⊢
    cases result
    refine ⟨maximum', ?_, fun copied => absurd (referred.symm.trans copied) (by decide)⟩
    rw [written, referred]
  · rw [if_neg referred] at result ⊢
    rw [Bool.not_eq_true] at referred
    split at result
    · cases result
    · rename_i short
      rw [written] at result
      rcases pushMore_eq (onFailure_cases result) with ⟨maximum'', same⟩
      refine ⟨maximum'', ?_, fun _ => by omega⟩
      have counted : (if (CString.text string).length < 8 then 0 else ((CString.text string).length - 8) / 16 + 1) =
          ((CString.text string).length + 8) / 16 := by
        split
        · omega
        · omega
      have notOwn : isOwn = false := (Bool.or_eq_false_iff.mp referred).2
      rw [same, counted, referred, notOwn]
      simp [Frame.stack, Frame.pushed, Frame.head]

/-- The object with the name of its next member. -/
def named (frame : Frame) (member : Member) : Frame :=
    { frame with noValue := true, tokens := frame.tokens ++ member.key member.len }

theorem addMemberName_eq {name : List UInt8} {isRef isOwn : Bool} (clean : 0 ∉ name) (value : List Token)
    (result : (frame.stack maximum last borrow).addMemberName env name isRef isOwn = .ok after) :
    ∃ maximum', after = (frame.named ⟨name, keeping isRef isOwn, value⟩).stack maximum' last borrow ∧
      (keeping isRef isOwn = .copied → name.length < 2 ^ 32) := by
  simp only [addMemberName, stack_opened, Nat.add_sub_cancel, stack_setNoValue] at result
  split at result
  · cases result
  · rcases pushString_eq result with ⟨maximum', same, short⟩
    rw [CString.text_eq_self clean] at same short
    refine ⟨maximum', ?_, ?_⟩
    · rw [same]
      by_cases referred : (isRef || isOwn) = true
      · simp [Frame.named, Frame.stack, Frame.pushed, Frame.head, keeping, referred, Member.key, Member.len]
      · simp [Frame.named, Frame.stack, Frame.pushed, Frame.head, keeping, referred, Member.key, Member.len]
    · intro copied
      apply short
      rw [← Bool.not_eq_true]
      intro referred
      rw [keeping, if_pos referred] at copied
      cases copied

/-- A value of an object is pushed behind its name. -/
theorem adds_eq (object : frame.type.PlainObject) (adding : Adds env (frame.stack maximum last borrow) after) :
    ∃ (segment : List Token) (maximum last borrow : Nat), after =
      (frame.valued.pushed segment).stack maximum last borrow := by
  have single : ∀ {token : Token} {elemType : TypeWord},
      (frame.stack maximum last borrow).addValue env 1 elemType (some [token]) = .ok after →
      ∃ (segment : List Token) (maximum last borrow : Nat), after =
        (frame.valued.pushed segment).stack maximum last borrow := by
    intro token elemType added
    rcases addValue_object_some object (show 1 ≤ [token].length from Nat.le_refl _) added with ⟨maximum', last', same⟩
    exact ⟨_, maximum', last', borrow, same⟩
  cases adding with
  | call call isValue called =>
      cases call with
      | openCollection type => cases isValue
      | addMemberName name isRef isOwn => cases isValue
      | addDupMembers value => cases isValue
      | addString string isRef isOwn =>
          simp only [Call.run, addString] at called
          split at called
          · exact single called
          · rcases bind_ok called with ⟨added, isAdded, called⟩
            rcases addValue_object_none object isAdded with ⟨last', rfl⟩
            rcases bind_ok called with ⟨pushed, isPushed, called⟩
            rw [stack_setLast] at isPushed
            rcases pushString_eq (onFailure_cases isPushed) with ⟨maximum', rfl, -⟩
            cases called
            exact ⟨_, maximum', _, borrow, @valueAdded_object env (frame.valued.pushed _) maximum' _ borrow object _⟩
      | addUint value => exact single called
      | addBool value => exact single called
      | addNull => exact single called
      | addReference target => exact single called
      | addDup value =>
          rcases bind_ok called with ⟨copied, isCopied, called⟩
          have above := (dupAtIndex_keeps (Above.refl (frame.stack maximum last borrow))
            (Nat.le_refl _) value _).ok copied isCopied
          rcases pushed_of ((Within.here frame maximum last borrow).dupAtIndex isCopied) above.starts with
            ⟨segment, maximum', last', borrow', rfl⟩
          rcases bind_ok called with ⟨added, isAdded, called⟩
          rcases addValue_object_none (show (frame.pushed segment).type.PlainObject from object) isAdded with
            ⟨last'', rfl⟩
          cases called
          exact ⟨segment, maximum', last'', borrow',
            @valueAdded_object env (frame.valued.pushed segment) maximum' last'' borrow' object _⟩
  | number bits called => exact single called
  | collection type opening inside closing =>
      rcases openCollection_ok opening with ⟨before, maximum', -, added, rfl⟩
      rw [stack_opened, if_pos (Nat.succ_ne_zero _)] at added
      rcases addValue_object_none object added with ⟨last', rfl⟩
      rcases (Within.fills inside (Within.here _ _ _ _)).closeCollection closing with
        ⟨-, inner, maximum'', last'', borrow'', -, -, rfl⟩
      refine ⟨inner.closed, maximum'', last'', borrow'', ?_⟩
      have pushed : (⟨maximum'', (frame.valued.stack maximum last' borrow).jitsons ++ inner.closed, true,
          (frame.valued.stack maximum last' borrow).opened, last'', borrow''⟩ : Stack) =
          (frame.valued.pushed inner.closed).stack maximum'' last'' borrow'' := by
        simp [Frame.stack, Frame.pushed, Frame.head]
      have nonzero : (frame.valued.stack maximum last' borrow).opened ≠ 0 := Nat.succ_ne_zero _
      change (if (frame.valued.stack maximum last' borrow).opened ≠ 0 then _ else _) = _
      rw [if_pos nonzero]
      exact (congrArg (fun stack => valueAdded env stack env.optimize) pushed).trans
        (@valueAdded_object env (frame.valued.pushed inner.closed) maximum'' last'' borrow'' object _)

end Frame

theorem plainObject_of_canOpen {type : TypeWord} (object : type.kind = .object) (allowed : canOpen type = true) :
    type.PlainObject := by
  simp only [canOpen, List.mem_cons, List.not_mem_nil, or_false, decide_eq_true_eq] at allowed
  rcases type with ⟨kind, mkSort, isLocal, isHomo, isUnif, isOrd, isUint, isKey, isRef, isOwn, alloced⟩
  simp only at object
  subst object
  rcases allowed with same | same | same
  · cases same
  · cases same
    exact ⟨rfl, rfl, rfl, rfl, rfl, rfl⟩
  · cases same

theorem fresh_concat (members : List Member) (member : Member) :
    laid (fresh (members ++ [member])) = laid (fresh members) ++ member.tokens member.len := by
  simp [laid, fresh]

namespace Builds

variable {env : Env} {idx : Nat} {members : List Member} {stack after : Stack}

/-- An object that is being built, with its members. -/
theorem frame (building : Builds env idx members stack) :
    ∃ (frame : Frame) (maximum last borrow : Nat), stack = frame.stack maximum last borrow ∧ frame.base.length = idx ∧
      frame.type.PlainObject ∧ frame.len = members.length ∧ frame.tokens = laid (fresh members) := by
  induction building with
  | opened type object opening here =>
      rcases Frame.openCollection_ok opening with ⟨before, maximum, allowed, -, rfl⟩
      refine ⟨_, maximum, _, _, rfl, ?_, ?_, rfl, rfl⟩
      · exact Nat.succ.inj here
      · have notArray : ¬ (type.kind = .array ∧ (env.optimize = true ∨ type.mkSort = true)) := by
          rw [object]
          exact fun both => absurd both.1 (by decide)
        change (Frame.openedType env type).PlainObject
        rw [Frame.openedType, if_neg notArray]
        exact plainObject_of_canOpen object allowed
  | member before name isRef isOwn clean naming adding ih =>
      rcases ih with ⟨frame, maximum, last, borrow, rfl, base, object, len, tokens⟩
      rcases Frame.addMemberName_eq clean [] naming with ⟨maximum', rfl, -⟩
      rcases @Frame.adds_eq env (frame.named ⟨name, keeping isRef isOwn, []⟩) maximum' last borrow _ object adding with
        ⟨segment, maximum'', last'', borrow'', rfl⟩
      refine ⟨_, maximum'', last'', borrow'', rfl, base, object, ?_, ?_⟩
      · rw [List.length_append, List.length_singleton, ← len]
        rfl
      · have value : (((frame.named ⟨name, keeping isRef isOwn,
          []⟩).valued.pushed segment).stack maximum'' last'' borrow'').jitsons.drop
            ((frame.named ⟨name, keeping isRef isOwn, []⟩).stack maximum' last borrow).count = segment := by
          rw [Frame.stack_count]
          have above := ((frame.named ⟨name, keeping isRef isOwn,
            []⟩).valued.pushed segment).pointer_tokens maximum'' last''
            borrow'' (frame.named ⟨name, keeping isRef isOwn, []⟩).tokens.length
          exact above.trans List.drop_left
        rw [value, fresh_concat, ← tokens]
        exact List.append_assoc _ _ _

/-- Noting a value in the collection around it changes nothing behind the head
of that collection. -/
theorem pointer_valueAdded (stack : Stack) (optimize : Bool) {idx : Nat} (below : stack.opened - 1 < idx) :
    (stack.valueAdded env optimize).pointer idx = stack.pointer idx := by
  have setting : ∀ (stack : Stack) {collection : Nat} (value : Nat), collection < idx →
      (stack.setPartLast collection value).pointer idx = stack.pointer idx := by
    intro stack collection value under
    exact List.drop_modify_of_lt _ _ _ _ under
  have checking : ∀ (value : Pointer), (checkOrder env stack (stack.opened - 1) value).pointer idx =
    stack.pointer idx := by
    intro value
    rw [checkOrder]
    split
    · exact List.drop_modify_of_lt _ _ _ _ below
    · rfl
  simp only [valueAdded]
  split
  · rw [setting _ _ below]
    split
    · exact checking _
    · rfl
  · rfl

theorem pointer_closed {frame : Frame} {maximum last borrow : Nat}
    (closing : (frame.stack maximum last borrow).closeCollection env = .ok after) :
    after.pointer frame.base.length = frame.closed := by
  rcases (Frame.Within.here frame maximum last borrow).closeCollection closing with
    ⟨inside, inner, maximum', last', borrow', same, base, rfl⟩
  have jitsons : frame.base ++ frame.head :: frame.tokens = inner.base ++ inner.head :: inner.tokens :=
    congrArg Stack.jitsons same
  rw [base, List.append_cancel_left_eq, List.cons.injEq] at jitsons
  have closed : inner.closed = frame.closed := by
    rw [Frame.closed, Frame.closed, jitsons.1, jitsons.2]
  have place : ∀ opening, Stack.pointer ⟨maximum', frame.base ++ inner.closed, true, opening, last',
    borrow'⟩ frame.base.length =
      inner.closed := fun _ => List.drop_left
  rw [← closed]
  dsimp only
  split
  · rename_i nonzero
    rw [pointer_valueAdded _ _ (by dsimp only; omega), place]
  · exact place _

theorem isObject (building : Builds env idx members stack) (closing : stack.closeCollection env = .ok after) :
    IsObject (after.pointer idx) members := by
  rcases building.frame with ⟨frame, maximum, last, borrow, rfl, rfl, object, len, tokens⟩
  refine ⟨frame.type, frame.tokens.length + 1, [], object.kind, object.notOwn, ?_⟩
  rw [pointer_closed closing, Frame.closed, Frame.head, closeHead, closedBody, object.kind, len, tokens,
    List.append_nil,
    if_neg fun all => absurd all.2.1 (by decide)]

end Builds

end Jitson
end LibKit
