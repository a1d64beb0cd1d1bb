import LibKit.Jitson.Unwinding

namespace LibKit
namespace Jitson

open Stack

/-!
# The memory of a stack

`sxe_jitson_stack_get_jitson` gives the memory of a stack away, unless the stack
is borrowed.  Then there is nothing on it any more, and what is pushed next gets
memory of its own.
-/

def Stack.InMemory (stack : Stack) : Prop := stack.jitsons ≠ [] → stack.allocated = true

/-- A call after which what is on the stack is in its memory. -/
abbrev Stores {α : Type} (stackOf : α → Stack) (outcome : Except Failure α) : Prop :=
  Ensures (fun result => (stackOf result).InMemory) (fun failure => failure.stack.InMemory) outcome

abbrev Allocates {α : Type} (stackOf : α → Stack) (outcome : Except Failure α) : Prop :=
  Ensures (fun result => (stackOf result).allocated = true) (fun failure => failure.stack.allocated = true) outcome

section

variable {env : Env} {stack : Stack}

theorem Stack.inMemory_of (allocated : stack.allocated = true) : stack.InMemory := fun _ => allocated

theorem Stack.InMemory.truncate (memory : stack.InMemory) (count : Nat) : (stack.truncate count).InMemory := by
  intro some
  apply memory
  intro none
  exact some (by rw [Stack.truncate, none, List.take_nil])

theorem Allocates.stores {α : Type} {stackOf : α → Stack} {outcome : Except Failure α}
    (allocates : Allocates stackOf outcome) :
    Stores stackOf outcome := allocates.mono (fun _ => Stack.inMemory_of) fun _ => Stack.inMemory_of

theorem onFailure_ensures {α : Type} {ok : α → Prop} {failed failed' : Failure → Prop}
    {outcome : Except Failure α} {change : Stack → Stack} (ensures : Ensures ok failed outcome)
    (undo : ∀ failure, failed failure → failed' ⟨failure.fault, change failure.stack⟩) :
    Ensures ok failed' (onFailure outcome change) := by
  cases outcome with
  | ok value => exact .of_ok (ensures.result value rfl)
  | error failure => exact .of_error (undo _ (ensures.failure failure rfl))

theorem onFailure_stores {α : Type} {stackOf : α → Stack} {outcome : Except Failure α}
    (stores : Stores stackOf outcome) {change : Stack → Stack}
    (undo : ∀ stack : Stack, stack.InMemory → (change stack).InMemory) : Stores stackOf (onFailure outcome change) :=
  onFailure_ensures stores fun failure memory => undo failure.stack memory

/-! ## Pushing -/

theorem expand_ensures (stack : Stack) (more : Nat) :
    Ensures (fun after => after.allocated = true ∧ after.jitsons = stack.jitsons ++ List.replicate more .more)
      (fun failure => failure.stack = stack) (stack.expand env more) := by
  refine ⟨?_, fun failure failed => Stack.expand_failed failed⟩
  intro after done
  rcases Stack.expand_cases done with ⟨-, maximum, rfl⟩
  exact ⟨rfl, rfl⟩

theorem expand_allocates (allocated : stack.allocated = true) (more : Nat) : Allocates id (stack.expand env more) := by
  refine (expand_ensures stack more).mono (fun after holds => holds.1) ?_
  intro failure same
  rw [same]
  exact allocated

theorem loadStringLoop_allocates {idx fuel space : Nat} {source : Source} {bytes : List UInt8}
    (allocated : stack.allocated = true) :
    Allocates Prod.snd (stack.loadStringLoop env idx fuel source bytes space) := by
  induction fuel generalizing source stack bytes space with
  | zero => exact .of_error allocated
  | succ fuel ih =>
      rw [loadStringLoop]
      split
      · exact .of_ok allocated
      · split
        · exact .of_error allocated
        · split
          · have grows : Allocates id (stack.expand env 1) := expand_allocates allocated 1
            cases expanded : stack.expand env 1 with
            | error failure => exact .of_error (grows.failure failure expanded)
            | ok grown => exact ih (grows.result grown expanded)
          · exact ih allocated

/-- A string is pushed to memory, or nothing is pushed. -/
theorem loadString_ensures (stack : Stack) (source : Source) :
    Ensures (fun result => result.2.allocated = true) (fun failure => failure.stack = stack ∨
      failure.stack.allocated = true)
      (stack.loadString env source) := by
  simp only [loadString]
  split
  · exact .of_error (Or.inl rfl)
  · refine Ensures.bind ((expand_ensures stack 1).mono (fun after holds => holds) fun failure => Or.inl) ?_
    intro grown _ holds
    exact (loadStringLoop_allocates holds.1).mono (fun _ => id) fun _ => Or.inr

theorem loadNumber_allocates (allocated : stack.allocated = true) (idx : Nat) (source : Source) :
    Allocates Prod.snd (stack.loadNumber env source idx) := by
  rw [loadNumber]
  split
  · exact .of_error allocated
  · split
    · exact .of_ok allocated
    · exact .of_ok allocated

theorem dupAtIndex_allocates (allocated : stack.allocated = true) (idx : Nat) (value : Pointer) (size : Nat) :
    Allocates id (stack.dupAtIndex env idx value size) := by
  simp only [dupAtIndex]
  split
  · exact .of_error allocated
  · split
    · refine Ensures.bind (expand_allocates allocated _) ?_
      intro grown _ grew
      split
      · exact .of_ok grew
      · exact .of_error grew
    · split
      · exact .of_ok allocated
      · exact .of_error allocated

/-- A duplicate at the end of a stack, where an empty one needs no memory. -/
theorem dupAtIndex_stores (memory : stack.InMemory) (value : Pointer) (size : Nat) :
    Stores id (stack.dupAtIndex env stack.count value size) := by
  by_cases none : stack.jitsons = []
  · simp only [dupAtIndex]
    split
    · exact .of_error memory
    · split
      · refine Ensures.bind ((expand_ensures stack _).mono (fun after holds => holds.1) ?_) ?_
        · intro failure same
          rw [same]
          exact memory
        · intro grown _ grew
          split
          · exact .of_ok (Stack.inMemory_of grew)
          · exact .of_error (Stack.inMemory_of grew)
      · rename_i fits
        have empty : size = 0 := by omega
        have nothing : ((stack.write stack.count ((clone value).take size)).mapType stack.count fun type =>
            { type with alloced := false }).InMemory := by
          intro some
          apply absurd _ some
          rw [empty]
          simp [mapType, write, none]
        split
        · exact .of_ok nothing
        · exact .of_error nothing
  · exact (dupAtIndex_allocates (memory none) stack.count value size).stores

theorem rangeCast_stores (memory : stack.InMemory) (value : Pointer) : Stores id (stack.rangeCast env value) := by
  simp only [rangeCast]
  split
  · exact .of_error memory
  · split
    · split
      · refine Ensures.bind (dupAtIndex_stores memory value _) ?_
        intro after _ memory
        refine .of_ok fun some => memory fun none => some ?_
        change after.jitsons = [] at none
        simp [mapType, none]
      · exact .of_error memory
    · exact .of_error memory

theorem pushIdent_stores (memory : stack.InMemory) (name : List UInt8) : Stores id (stack.pushIdent env name) := by
  rw [pushIdent]
  refine Ensures.bind ((expand_ensures stack _).mono (fun after holds => holds.1) ?_) ?_
  · intro failure same
    rw [same]
    exact memory
  · intro grown _ grew
    exact .of_ok (Stack.inMemory_of grew)

/-! ## Borrowing -/

theorem getJitson_stores (memory : stack.InMemory) : Stores Prod.snd (stack.getJitson env) := by
  unfold getJitson
  split
  · exact .of_error memory
  · split
    · split
      · exact .of_error memory
      · split
        · exact .of_ok (memory.truncate stack.borrow)
        · exact .of_error memory
    · exact .of_ok fun some => absurd rfl some

theorem giveBack_stores (memory : stack.InMemory) (iou : Stack) : Stores id (stack.giveBack iou) := by
  unfold giveBack
  split
  · exact .of_error memory
  · exact .of_ok (memory.truncate iou.count)

theorem finishCast_stores {iou : Stack} {parsed : Except Failure (Source × Stack)} (stores : Stores Prod.snd parsed) :
    Stores Prod.snd (finishCast env iou parsed) := by
  have argument : Stores (fun result => result.2.2)
      (parsed >>= fun parsed => getJitson env parsed.2 >>= fun taken =>
        Except.ok (taken.1, parsed.1, taken.2) : Except Failure (Pointer × Source × Stack)) := by
    refine stores.bind fun parsed _ memory => ?_
    exact (getJitson_stores memory).bind fun taken _ memory => .of_ok memory
  simp only [finishCast]
  split
  · rename_i failure failed
    refine Ensures.bind (giveBack_stores (argument.failure failure failed) iou) ?_
    intro after _ memory
    exact .of_error memory
  · rename_i value source stack taken
    refine Ensures.bind (giveBack_stores (argument.result _ taken) iou) ?_
    intro after _ memory
    split
    · exact .of_error memory
    · refine Ensures.bind (rangeCast_stores memory value) ?_
      intro cast _ memory
      exact .of_ok memory

/-! ## Parsing -/

theorem load_some {fuel : Nat} {source : Source} {result : Source × Stack} (some : stack.jitsons ≠ [])
    (done : stack.loadJson env fuel source = .ok result) : result.2.jitsons ≠ [] := by
  intro none
  have starts := (((loading_keeps env fuel).1 source stack).ok result done).starts
  rw [none] at starts
  exact some (List.prefix_nil.mp starts)

theorem checkParsed_kept (stack : Stack) (env : Env) (optimize : Bool) (idx previous current : Nat) :
    (stack.checkParsed env optimize idx previous current).allocated = stack.allocated ∧
      (stack.checkParsed env optimize idx previous current).jitsons.length = stack.jitsons.length := by
  unfold checkParsed
  split
  · exact ⟨rfl, List.length_modify _ _ _⟩
  · exact ⟨rfl, rfl⟩

/-- Parsing happens in the memory of the stack, for every amount of fuel. -/
theorem loading_stores (env : Env) (fuel : Nat) :
    (∀ (source : Source) (stack : Stack), stack.InMemory → Stores Prod.snd (stack.loadJson env fuel source)) ∧
    (∀ (source : Source) (stack : Stack) (idx : Nat) (c : UInt8), stack.allocated = true → stack.jitsons ≠ [] →
      Stores Prod.snd (stack.loadMembers env fuel source idx c)) ∧
    (∀ (source : Source) (stack : Stack) (idx : Nat), stack.allocated = true → stack.jitsons ≠ [] →
      Stores Prod.snd (stack.loadElements env fuel source idx)) := by
  induction fuel with
  | zero =>
      refine ⟨?_, ?_, ?_⟩
      · intro source stack memory
        exact .of_error memory
      · intro source stack idx c allocated _
        exact .of_error (Stack.inMemory_of allocated)
      · intro source stack idx allocated _
        exact .of_error (Stack.inMemory_of allocated)
  | succ fuel ih =>
      rcases ih with ⟨values, members, elements⟩
      have unwound : ∀ (idx : Nat) (after : Stack), after.InMemory → (after.truncate idx).InMemory :=
        fun idx after memory => memory.truncate idx
      refine ⟨?_, ?_, ?_⟩
      · intro source stack memory
        simp only [loadJson]
        split
        · exact .of_error memory
        · refine Ensures.bind ((expand_ensures stack 1).mono (fun after holds => holds) ?_) ?_
          · intro failure same
            rw [same]
            exact memory
          rintro grown - ⟨allocated, pushed⟩
          have placed : (grown.setLast stack.count).allocated = true := allocated
          have truncated : ((grown.setLast stack.count).truncate stack.count).InMemory := Stack.inMemory_of allocated
          have lent : ((grown.setLast stack.count).truncate stack.count).lend.InMemory := Stack.inMemory_of allocated
          have opened : ∀ type, ((grown.setLast stack.count).setHead stack.count type .unset).allocated = true :=
            fun _ => allocated
          have some : ∀ type, ((grown.setLast stack.count).setHead stack.count type .unset).jitsons ≠ [] := by
            intro type
            simp [setHead, write]
          cases charClass source.skipSpace.peekChar with
          | quote =>
              refine (loadString_ensures _ _).mono (fun _ => Stack.inMemory_of) ?_
              rintro failure (same | holds)
              · rw [same]
                exact truncated
              · exact Stack.inMemory_of holds
          | brace =>
              dsimp only
              split
              · exact .of_ok (Stack.inMemory_of allocated)
              · exact onFailure_stores (members _ _ _ _ (opened _) (some _)) (unwound _)
          | bracket =>
              dsimp only
              split
              · exact .of_ok (Stack.inMemory_of allocated)
              · exact onFailure_stores (elements _ _ _ (opened _) (some _)) (unwound _)
          | number => exact onFailure_stores (loadNumber_allocates placed _ _).stores (unwound _)
          | letter =>
              dsimp only
              split
              · split
                · exact .of_error truncated
                · exact onFailure_stores (finishCast_stores (values _ _ lent)) (unwound _)
              · refine Ensures.bind (dupAtIndex_allocates placed stack.count _ _).stores ?_
                intro after _ memory
                exact .of_ok memory
              · split
                · refine Ensures.bind (onFailure_stores (pushIdent_stores truncated _) (unwound _)) ?_
                  intro after _ memory
                  exact .of_ok memory
                · exact .of_error truncated
          | other => exact .of_error truncated
      · intro source stack idx c allocated some
        simp only [loadMembers]
        split
        · exact .of_error (Stack.inMemory_of allocated)
        · refine Ensures.bind ((loadString_ensures stack source).mono (fun _ => id) ?_) ?_
          · rintro failure (same | holds)
            · rw [same]
              exact Stack.inMemory_of allocated
            · exact Stack.inMemory_of holds
          rintro ⟨afterName, named⟩ done allocated'
          have some' : named.jitsons ≠ [] := by
            intro none
            have starts := ((loadString_keeps stack source).ok _ done).starts
            rw [none] at starts
            exact some (List.prefix_nil.mp starts)
          dsimp only
          split
          · exact .of_error (Stack.inMemory_of allocated')
          · refine Ensures.bind (values _ named (Stack.inMemory_of allocated')) ?_
            rintro ⟨behind, after⟩ done memory
            have some'' : after.jitsons ≠ [] := load_some some' done
            have marked : (((after.mapLen idx (· + 1)).mapType stack.count fun type =>
              { type with isKey := true })).jitsons ≠ [] := by
              simpa [mapLen, mapType] using some''
            have allocated'' : after.allocated = true := memory some''
            dsimp only
            split
            · exact members _ _ _ _ allocated'' marked
            · split
              · exact .of_ok (Stack.inMemory_of allocated'')
              · exact .of_error (Stack.inMemory_of allocated'')
      · intro source stack idx allocated some
        simp only [loadElements]
        refine Ensures.bind (values source stack (Stack.inMemory_of allocated)) ?_
        rintro ⟨behind, after⟩ done memory
        have some' : after.jitsons ≠ [] := load_some some done
        have allocated' : after.allocated = true := memory some'
        rcases checkParsed_kept after env behind.optimize idx stack.last stack.count with ⟨sameMemory, sameSize⟩
        have counted : ((after.checkParsed env behind.optimize idx stack.last stack.count).mapLen idx (· +
          1)).jitsons ≠ [] := by
          intro none
          apply some'
          rw [← List.length_eq_zero_iff, ← sameSize]
          simpa [mapLen] using none
        have allocated'' : ((after.checkParsed env behind.optimize idx stack.last stack.count).mapLen idx
          (· + 1)).allocated = true :=
          sameMemory.trans allocated'
        dsimp only
        split
        · exact elements _ _ _ allocated'' counted
        · split
          · exact .of_ok (Stack.inMemory_of allocated'')
          · exact .of_error (Stack.inMemory_of allocated'')

end

end Jitson
end LibKit
