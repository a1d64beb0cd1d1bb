import LibKit.Jitson.Retrying

namespace LibKit
namespace Jitson

open Stack

/-!
# Filling an open collection

Whatever the environment, a call that adds something to the innermost open
collection leaves what is below its head, and the collection around it, as they
were.
-/

namespace Frame

variable {env : Env} {frame : Frame} {maximum last borrow added : Nat}

/-- A stack on which something was added to an open collection. -/
def Filled (frame : Frame) (borrow added : Nat) (stack : Stack) : Prop :=
  ∃ (frame' : Frame) (maximum last : Nat), stack = frame'.stack maximum last borrow ∧ frame'.base = frame.base ∧
    frame'.collection = frame.collection ∧ frame'.len = frame.len + added

/-- A call that adds something to an open collection, or returns a failure. -/
structure Fills (frame : Frame) (borrow added : Nat) (outcome : Except Failure Stack) : Prop where
  ok : ∀ stack, outcome = .ok stack → frame.Filled borrow added stack
  failed : ∀ failure, outcome = .error failure → failure.fault.returns = true → frame.Filled borrow 0 failure.stack

theorem filled_of (frame : Frame) (maximum last borrow : Nat) :
    frame.Filled borrow 0 (frame.stack maximum last borrow) :=
  ⟨frame, maximum, last, rfl, rfl, rfl, rfl⟩

theorem Filled.trans {other : Frame} {more : Nat} {stack : Stack} (base : other.base = frame.base)
    (collection : other.collection = frame.collection) (len : other.len = frame.len + added)
    (filled : other.Filled borrow more stack) :
    frame.Filled borrow (added + more) stack := by
  rcases filled with ⟨frame', maximum, last, same, base', collection', len'⟩
  refine ⟨frame', maximum, last, same, base'.trans base, collection'.trans collection, ?_⟩
  rw [len', len, Nat.add_assoc]

theorem Fills.of_ok {stack : Stack} (filled : frame.Filled borrow added stack) :
    frame.Fills borrow added (.ok stack) := by
  refine ⟨?_, ?_⟩
  · intro other same
    cases same
    exact filled
  · intro failure same
    cases same

theorem Fills.of_error {failure : Failure}
    (filled : failure.fault.returns = true → frame.Filled borrow 0 failure.stack) :
    frame.Fills borrow added (.error failure) := by
  refine ⟨?_, ?_⟩
  · intro other same
    cases same
  · intro other same returned
    cases same
    exact filled returned

/-- A call after another one that added nothing so far. -/
theorem Fills.bind {first : Except Failure Stack} {next : Stack → Except Failure Stack}
    (fills : frame.Fills borrow 0 first)
    (further : ∀ (frame' : Frame) (maximum last : Nat), frame'.base = frame.base →
      frame'.collection = frame.collection →
      frame'.len = frame.len → frame.Fills borrow added (next (frame'.stack maximum last borrow))) :
    frame.Fills borrow added (first >>= next) := by
  cases first with
  | error failure => exact .of_error (fills.failed failure rfl)
  | ok stack =>
      rcases fills.ok stack rfl with ⟨frame', maximum, last, rfl, base, collection, len⟩
      exact further frame' maximum last base collection len

/-! ## Changes above the head -/

theorem modify_behind {α : Type} (before : List α) (item : α) (behind : List α) (i : Nat) (change : α → α) :
    (before ++ item :: behind).modify (before.length + 1 + i) change = before ++ item :: behind.modify i change := by
  induction before with
  | nil =>
      rw [List.length_nil, Nat.zero_add, Nat.add_comm, List.nil_append, List.modify_succ_cons, List.nil_append]
  | cons first others ih =>
      have further : (first :: others).length + 1 + i = others.length + 1 + i + 1 := by
        rw [List.length_cons]
        omega
      rw [further, List.cons_append, List.modify_succ_cons, ih, List.cons_append]

theorem stack_modify_above (i : Nat) (change : Token → Token) :
    ∃ tokens, ({ frame.stack maximum last borrow with
      jitsons := (frame.stack maximum last borrow).jitsons.modify (frame.base.length + 1 + i) change } : Stack) =
      ({ frame with tokens := tokens } : Frame).stack maximum last borrow := by
  refine ⟨frame.tokens.modify i change, ?_⟩
  rw [stack, modify_behind]
  rfl

theorem stack_mapType_above (i : Nat) (change : TypeWord → TypeWord) :
    ∃ tokens, (frame.stack maximum last borrow).mapType (frame.base.length + 1 + i) change =
      ({ frame with tokens := tokens } : Frame).stack maximum last borrow :=
  stack_modify_above i _

theorem stack_write_above {idx : Nat} (above : frame.start ≤ idx) (written : List Token) :
    ∃ tokens, (frame.stack maximum last borrow).write idx written =
      ({ frame with tokens := tokens } : Frame).stack maximum last borrow := by
  have split : idx = frame.base.length + 1 + (idx - frame.start) := by
    rw [start] at above ⊢
    omega
  rw [split, stack_write]
  exact ⟨_, rfl⟩

theorem expand_fills (more : Nat) : frame.Fills borrow 0 ((frame.stack maximum last borrow).expand env more) := by
  refine ⟨?_, ?_⟩
  · intro after done
    rcases Stack.expand_cases done with ⟨-, maximum', rfl⟩
    refine ⟨frame.pushed (List.replicate more .more), maximum', last, ?_, rfl, rfl, rfl⟩
    simp [stack, pushed, head]
  · intro failure failed _
    rw [Stack.expand_failed failed]
    exact frame.filled_of maximum last borrow

/-! ## Adding a value -/

theorem checkElement_fills (size : Nat) (elemType : TypeWord) (copied : Bool) :
    frame.Fills borrow 0 ((frame.stack maximum last borrow).checkElement frame.base.length size elemType copied) := by
  simp only [checkElement, stack_mapType]
  apply iteInduction
  · intro _
    refine .of_error ?_
    intro returned
    cases returned
  · intro _
    exact .of_ok ⟨_, maximum, last, rfl, rfl, rfl, rfl⟩

theorem checkOrder_fills (value : Pointer) :
    frame.Filled borrow 0 ((frame.stack maximum last borrow).checkOrder env frame.base.length value) := by
  rw [checkOrder]
  split
  · rw [stack_mapType]
    exact ⟨_, maximum, last, rfl, rfl, rfl, rfl⟩
  · exact frame.filled_of maximum last borrow

/-- Making room for an element moves only what is above the head. -/
theorem placeElement_fills (type : TypeWord) (size len : Nat) (element : Option Pointer) :
    ∀ placed, (frame.stack maximum last borrow).placeElement env type frame.base.length size len element = .ok placed →
      frame.Filled borrow 0 placed.1 ∧ (placed.2 = last ∨ frame.start ≤ placed.2) := by
  have kept : frame.Filled borrow 0 (frame.stack maximum last borrow) := frame.filled_of maximum last borrow
  intro placed result
  unfold placeElement at result
  split at result
  · cases result
    exact ⟨kept, Or.inl rfl⟩
  · split at result
    · cases element with
      | none => cases result
      | some element =>
          simp only [insertElement] at result
          split at result
          · split at result
            · cases result
            · split at result
              · rename_i pos _ _ _
                cases result
                have above : frame.start ≤ frame.base.length + 1 + size * pos := Nat.le_add_right _ _
                rcases @stack_write_above frame maximum last borrow _ (Nat.le_succ_of_le above)
                  (((frame.stack maximum last borrow).pointer (frame.base.length + 1 + size * pos)).take
                  ((len - pos) * size)) with
                  ⟨tokens, same⟩
                exact ⟨⟨_, maximum, last, same, rfl, rfl, rfl⟩, Or.inr above⟩
              · cases result
          · cases result
            exact ⟨kept, Or.inl rfl⟩
    · split at result
      · cases element with
        | none =>
            dsimp only at result
            split at result
            · cases result
              exact ⟨kept, Or.inl rfl⟩
            · cases result
              exact ⟨checkOrder_fills _, Or.inl rfl⟩
        | some element =>
            cases result
            exact ⟨checkOrder_fills element, Or.inl rfl⟩
      · cases result
        exact ⟨kept, Or.inl rfl⟩

theorem noteElement_fills (size : Nat) (isArray : Bool) :
    frame.Filled borrow 1 ((frame.stack maximum last borrow).noteElement frame.base.length size isArray) := by
  have counted : ∀ frame' : Frame, frame'.base = frame.base → frame'.collection = frame.collection →
    frame'.len = frame.len →
      frame.Filled borrow 1 ((frame'.stack maximum last borrow).mapLen frame.base.length (· + 1)) := by
    intro frame' base collection len
    rw [← base, stack_mapLen]
    exact ⟨_, maximum, last, rfl, base, collection, by rw [← len]⟩
  unfold noteElement
  split
  · split
    · exact counted frame rfl rfl rfl
    · rw [stack_setPartLast]
      exact counted _ rfl rfl rfl
  · rw [stack_setNoValue]
    exact counted _ rfl rfl rfl

theorem Fills.of_filled {other : Frame} (base : other.base = frame.base)
    (collection : other.collection = frame.collection)
    (len : other.len = frame.len) {outcome : Except Failure Stack} (fills : other.Fills borrow added outcome) :
    frame.Fills borrow added outcome := by
  refine ⟨?_, ?_⟩
  · intro stack done
    have filled := (fills.ok stack done).trans base collection (show other.len = frame.len + 0 from len)
    rwa [Nat.zero_add] at filled
  · intro failure failed returned
    exact (fills.failed failure failed returned).trans base collection (show other.len = frame.len + 0 from len)

theorem place_fills (type : TypeWord) (size len : Nat) (element : Option Pointer) (isArray : Bool)
    (above : element.isSome → frame.start ≤ last) :
    frame.Fills borrow 1 (do
      let (stack, idx) ← (frame.stack maximum last borrow).placeElement env type frame.base.length size len element
      let stack := match element with
        | some element => stack.write idx (element.take size)
        | none => stack
      .ok (stack.noteElement frame.base.length size isArray)) := by
  cases placed : (frame.stack maximum last borrow).placeElement env type frame.base.length size len element with
  | error failure =>
      refine .of_error ?_
      rw [placeElement_failed placed]
      intro returned
      cases returned
  | ok result =>
      rcases placeElement_fills type size len element result placed with
        ⟨⟨frame', maximum', last', same, base, collection, counted⟩, here⟩
      rcases result with ⟨stack, idx⟩
      dsimp only at same here
      subst same
      rw [ok_bind]
      dsimp only
      apply Fills.of_ok
      rw [← base]
      cases element with
      | none => exact (noteElement_fills size isArray).trans base collection counted
      | some element =>
          have inside : frame'.start ≤ idx := by
            rw [start, base]
            rcases here with same | higher
            · rw [same]
              exact above rfl
            · exact higher
          rcases @stack_write_above frame' maximum' last' borrow idx inside (element.take size) with ⟨tokens, written⟩
          dsimp only
          rw [written]
          exact (@noteElement_fills { frame' with tokens := tokens } maximum' last' borrow size isArray).trans
            base collection counted

/-- An added value counts, and one that cannot be added does not. -/
theorem addValue_fills (size : Nat) (elemType : TypeWord) (element : Option Pointer) :
    frame.Fills borrow 1 ((frame.stack maximum last borrow).addValue env size elemType element) := by
  simp only [addValue, stack_opened, Nat.add_sub_cancel]
  apply iteInduction
  · intro _
    refine .of_error ?_
    intro returned
    cases returned
  intro _
  generalize typeOf ((frame.stack maximum last borrow).pointer frame.base.length) = type
  generalize lenOf ((frame.stack maximum last borrow).pointer frame.base.length) = len
  apply (checkElement_fills size elemType element.isSome).bind
  intro checked maximum last base collection counted
  rw [← base]
  refine .of_filled base collection counted ?_
  cases element with
  | none =>
      dsimp only
      rw [ok_bind, stack_setLast]
      exact place_fills type size len none _ fun impossible => by cases impossible
  | some element =>
      dsimp only
      cases grown : (checked.stack maximum last borrow).expand env size with
      | error failure =>
          refine .of_error ?_
          intro _
          dsimp only
          rw [Stack.expand_failed grown, stack_setLast]
          exact checked.filled_of maximum _ borrow
      | ok after =>
          rcases Stack.expand_cases grown with ⟨-, maximum', same⟩
          have pushed : after = (checked.pushed (List.replicate size .more)).stack maximum' last borrow := by
            rw [same]
            simp [stack, Frame.pushed, head]
          rw [onFailure_ok, ok_bind, pushed, stack_setLast]
          refine Fills.of_filled (show (checked.pushed (List.replicate size .more)).base =
            checked.base from rfl) rfl rfl ?_
          refine @place_fills env (checked.pushed (List.replicate size .more)) maximum' _ borrow type size len
            (some element) _ ?_
          intro _
          rw [stack_count, start, Frame.pushed]
          dsimp only
          rw [List.length_append, List.length_replicate]
          omega

theorem valueAdded_fills (optimize : Bool) : frame.Filled borrow 0
    ((frame.stack maximum last borrow).valueAdded env optimize) := by
  unfold valueAdded
  simp only [stack_opened, Nat.add_sub_cancel, stack_last]
  apply iteInduction
  · intro _
    split
    · rcases @checkOrder_fills env frame maximum last borrow ((frame.stack maximum last borrow).pointer last) with
        ⟨frame', maximum', last', same, base, collection, len⟩
      rw [same, ← base, stack_setPartLast]
      exact ⟨_, maximum', last', rfl, base, collection, len⟩
    · rw [stack_setPartLast]
      exact ⟨_, maximum, last, rfl, rfl, rfl, rfl⟩
  · intro _
    exact frame.filled_of maximum last borrow

/-! ## Adding copies and references -/

theorem dupAtIndex_fills {idx : Nat} (above : frame.start ≤ idx) (value : Pointer) (size : Nat) :
    frame.Fills borrow 0 ((frame.stack maximum last borrow).dupAtIndex env idx value size) := by
  have cloned : ∀ (frame' : Frame) (maximum last : Nat), frame'.base = frame.base →
    frame'.collection = frame.collection →
      frame'.len = frame.len → frame.Fills borrow 0
        (let stack := ((frame'.stack maximum last borrow).write idx ((clone value).take size)).mapType idx fun type =>
          { type with alloced := false }
        if canClone env value then .ok stack else .error ⟨.memory, stack⟩) := by
    intro frame' maximum last base collection len
    have above' : frame'.start ≤ idx := by rwa [start, base]
    rcases @stack_write_above frame' maximum last borrow idx above' ((clone value).take size) with ⟨tokens, written⟩
    have split : idx = frame'.base.length + 1 + (idx - frame'.start) := by
      rw [start] at above' ⊢
      omega
    rcases @stack_mapType_above { frame' with tokens := tokens } maximum last borrow (idx - frame'.start)
      (fun type => { type with alloced := false }) with ⟨tokens', changed⟩
    dsimp only
    rw [written, split, changed]
    split
    · exact .of_ok ⟨_, maximum, last, rfl, base, collection, len⟩
    · exact .of_error fun _ => ⟨_, maximum, last, rfl, base, collection, len⟩
  simp only [dupAtIndex]
  apply iteInduction
  · intro _
    refine .of_error ?_
    intro returned
    cases returned
  · intro _
    apply iteInduction
    · intro _
      exact (expand_fills _).bind cloned
    · intro _
      exact cloned frame maximum last rfl rfl rfl

theorem addDup_fills (value : Pointer) : frame.Fills borrow 1 ((frame.stack maximum last borrow).addDup env value) := by
  unfold addDup
  apply (dupAtIndex_fills ?_ value (size value)).bind
  · intro frame' maximum last base collection len
    refine .of_filled base collection len ?_
    cases added : (frame'.stack maximum last borrow).addValue env (size value) (typeOf (clone value)) none with
    | error failure => exact .of_error fun returned => (addValue_fills _ _ _).failed failure added returned
    | ok stack =>
        rcases (addValue_fills _ _ _).ok stack added with ⟨frame'', maximum'', last'', rfl, base', collection', len'⟩
        exact .of_ok ((valueAdded_fills env.optimize).trans base' collection' len')
  · rw [stack_count, start]
    omega

theorem addReference_fills (target : Pointer) : frame.Fills borrow 1
    ((frame.stack maximum last borrow).addReference env target) :=
  addValue_fills 1 (typeOf target) (some [makeReference target])

end Frame

/-! ## Opening and closing -/

namespace Frame

variable {env : Env}

theorem closed_outermost {frame : Frame} {maximum last borrow : Nat} {closed : Stack} (outermost : frame.collection = 0)
    (done : (frame.stack maximum last borrow).closeCollection env = .ok closed) :
    closed = ⟨maximum, frame.base ++ frame.closed, true, 0, last, borrow⟩ := by
  have complete : frame.type = { kind := .object } → frame.noValue = false := by
    intro object
    cases noValue : frame.noValue with
    | false => rfl
    | true =>
        simp only [closeCollection, stack_opened, Nat.add_sub_cancel, pointer_head, typeOf_head, stack_noValue] at done
        rw [if_neg (Nat.succ_ne_zero _), if_pos ⟨object, noValue⟩] at done
        cases done
  rw [frame.closeCollection_outermost env maximum last borrow complete outermost] at done
  exact (Except.ok.inj done).symm

theorem closed_taken {frame : Frame} {maximum last : Nat} {closed : Stack} {taken : Pointer × Stack}
    (outermost : frame.collection = 0)
    (done : (frame.stack maximum last frame.base.length).closeCollection env = .ok closed)
    (got : closed.getJitson env = .ok taken) : taken.1 = markAlloced frame.closed ∧ lenOf taken.1 = frame.len := by
  rw [closed_outermost outermost done] at got
  have value : taken.1 = markAlloced frame.closed := by
    unfold getJitson at got
    split at got
    · cases got
    · split at got
      · split at got
        · cases got
        · split at got
          · cases got
            rw [Stack.pointer, List.drop_left]
          · cases got
      · rename_i empty
        have nothing : frame.base = [] := List.eq_nil_of_length_eq_zero (not_not.mp empty)
        cases got
        rw [nothing, List.nil_append]
  exact ⟨value, by rw [value]; rfl⟩

end Frame

end Jitson
end LibKit
