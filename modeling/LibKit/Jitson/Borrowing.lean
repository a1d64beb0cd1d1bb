import LibKit.Jitson.Concatenation
import LibKit.Jitson.Leaving

namespace LibKit
namespace Jitson

open Stack

/-!
# Borrowed stacks

A borrower of a stack pushes its values above the tokens of the lender, and
`borrow` tells how many these are.  A stack that was borrowed while it was empty
is like one that is not borrowed.  Whatever the borrower does, the stack that it
gives back is the one that it was lent.
-/

/-! ## Open collections of the borrower -/

/-- The collections that are open on a stack, which all lie above some tokens. -/
inductive OpenAbove (base : List Token) : List Token → Nat → Prop where
  | none {jitsons : List Token} (starts : base <+: jitsons) : OpenAbove base jitsons 0
  | frame (frame : Frame) (outer : OpenAbove base frame.base frame.collection) :
      OpenAbove base (frame.base ++ frame.head :: frame.tokens) (frame.base.length + 1)

namespace OpenAbove

variable {base jitsons more : List Token} {opened : Nat}

theorem starts (above : OpenAbove base jitsons opened) : base <+: jitsons := by
  induction above with
  | none starts => exact starts
  | frame frame outer ih => exact ih.trans (List.prefix_append _ _)

/-- What is pushed belongs to the innermost collection. -/
theorem pushed (above : OpenAbove base jitsons opened) (starts : jitsons <+: more) : OpenAbove base more opened := by
  cases above with
  | none first => exact .none (first.trans starts)
  | frame frame outer =>
      rcases starts with ⟨rest, rfl⟩
      have inside := OpenAbove.frame (frame.pushed rest) outer
      rwa [List.append_assoc]

end OpenAbove

/-- A stack that was borrowed with some tokens on it. -/
structure Borrowed (base : List Token) (stack : Stack) : Prop where
  within : OpenAbove base stack.jitsons stack.opened
  borrow : stack.borrow = base.length
  memory : stack.InMemory

/-- A call after which the stack is still borrowed, whether it succeeds or
returns a failure. -/
abbrev Remains (base : List Token) (outcome : Except Failure Stack) : Prop :=
  Ensures (Borrowed base) (fun failure => failure.fault.returns = true → Borrowed base failure.stack) outcome

section

variable {env : Env} {base : List Token} {stack after : Stack} {frame : Frame} {maximum last added : Nat}

theorem Borrowed.of_frame (outer : OpenAbove base frame.base frame.collection) (maximum last : Nat) :
    Borrowed base (frame.stack maximum last base.length) := ⟨.frame frame outer, rfl, fun _ => rfl⟩

/-- Nothing is open on a borrowed stack, or it has an innermost collection. -/
theorem Borrowed.cases (borrowed : Borrowed base stack) : stack.opened = 0 ∨ ∃ (frame : Frame) (maximum last : Nat),
    stack = frame.stack maximum last base.length ∧ OpenAbove base frame.base frame.collection := by
  rcases stack with ⟨maximum, jitsons, allocated, opened, last, borrow⟩
  rcases borrowed with ⟨within, rfl, memory⟩
  cases within with
  | none starts => exact Or.inl rfl
  | frame frame outer =>
      have held : allocated = true := memory (by simp)
      rw [held]
      exact Or.inr ⟨frame, maximum, last, rfl, outer⟩

theorem Borrowed.above (borrowed : Borrowed base stack) (above : Above stack.jitsons stack after)
    (memory : after.InMemory) :
    Borrowed base after := by
  refine ⟨?_, above.borrow.trans borrowed.borrow, memory⟩
  rw [above.opened]
  exact borrowed.within.pushed above.starts

theorem Borrowed.keeps {α : Type} {stackOf : α → Stack} {outcome : Except Failure α} (borrowed : Borrowed base stack)
    (keeps : Keeps stackOf stack.jitsons stack outcome) (stores : Stores stackOf outcome) :
    Ensures (fun result => Borrowed base (stackOf result) ∧ (stackOf result).opened = stack.opened)
      (fun failure => failure.fault.returns = true → Borrowed base failure.stack ∧
        failure.stack.opened = stack.opened) outcome := by
  refine ⟨?_, ?_⟩
  · intro result done
    exact ⟨borrowed.above (keeps.ok result done) (stores.result result done), (keeps.ok result done).opened⟩
  · intro failure failed returned
    exact ⟨borrowed.above (keeps.failed failure failed returned) (stores.failure failure failed),
      (keeps.failed failure failed returned).opened⟩

theorem Frame.Filled.borrowed (filled : frame.Filled base.length added stack)
    (outer : OpenAbove base frame.base frame.collection) :
    Borrowed base stack := by
  rcases filled with ⟨frame', maximum, last, rfl, sameBase, collection, -⟩
  refine .of_frame ?_ maximum last
  rw [sameBase, collection]
  exact outer

theorem Frame.Fills.remains {outcome : Except Failure Stack} (fills : frame.Fills base.length added outcome)
    (outer : OpenAbove base frame.base frame.collection) : Remains base outcome :=
  ⟨fun stack done => (fills.ok stack done).borrowed outer,
    fun failure failed returned => (fills.failed failure failed returned).borrowed outer⟩

theorem asserts_remains (stack : Stack) : Remains base (.error ⟨.assertion, stack⟩) := by
  refine .of_error ?_
  intro returned
  cases returned

/-! ## Calls of the borrower -/

theorem addValue_unopened (none : stack.opened = 0) (size : Nat) (elemType : TypeWord) (element : Option Pointer) :
    stack.addValue env size elemType element = .error ⟨.assertion, stack⟩ := by
  unfold Stack.addValue
  exact if_pos (Or.inl none)

theorem Borrowed.addValue (borrowed : Borrowed base stack) (size : Nat) (elemType : TypeWord)
    (element : Option Pointer) :
    Remains base (stack.addValue env size elemType element) := by
  rcases borrowed.cases with none | ⟨frame, maximum, last, rfl, outer⟩
  · rw [addValue_unopened none]
    exact asserts_remains stack
  · exact (Frame.addValue_fills size elemType element).remains outer

theorem Borrowed.mapLen (borrowed : Borrowed base stack) (some : stack.opened ≠ 0) (change : Nat → Nat) :
    Borrowed base (stack.mapLen (stack.opened - 1) change) := by
  rcases borrowed.cases with none | ⟨frame, maximum, last, rfl, outer⟩
  · exact absurd none some
  · rw [Frame.stack_opened, Nat.add_sub_cancel, Frame.stack_mapLen]
    refine .of_frame ?_ maximum last
    exact outer

theorem Borrowed.setNoValue (borrowed : Borrowed base stack) (some : stack.opened ≠ 0) (value : Bool) :
    Borrowed base (stack.setNoValue (stack.opened - 1) value) := by
  rcases borrowed.cases with none | ⟨frame, maximum, last, rfl, outer⟩
  · exact absurd none some
  · rw [Frame.stack_opened, Nat.add_sub_cancel, Frame.stack_setNoValue]
    refine .of_frame ?_ maximum last
    exact outer

theorem Borrowed.valueAdded (borrowed : Borrowed base stack) (some : stack.opened ≠ 0) (env : Env) (optimize : Bool) :
    Borrowed base (stack.valueAdded env optimize) := by
  rcases borrowed.cases with none | ⟨frame, maximum, last, rfl, outer⟩
  · exact absurd none some
  · exact (Frame.valueAdded_fills optimize).borrowed outer

theorem pushMore_allocates (allocated : stack.allocated = true) (more : Nat) :
    Allocates id (stack.pushMore env more) := by
  induction more generalizing stack with
  | zero => exact .of_ok allocated
  | succ more ih =>
      refine Ensures.bind (expand_allocates allocated 1) ?_
      intro grown _ allocated
      exact ih allocated

theorem pushString_keeps (stack : Stack) (string : List UInt8) (isRef isOwn isKey : Bool) :
    Keeps id stack.jitsons stack (stack.pushString env string isRef isOwn isKey) := by
  simp only [pushString]
  refine Keeps.bind (expand_keeps stack 1) ?_
  intro grown above
  split
  · exact Keeps.of_ok (above.write (Nat.le_refl _) _)
  · split
    · exact Keeps.of_error fun _ => above.truncate (Nat.le_refl _)
    · refine Keeps.onFailure (pushMore_keeps (above.write (Nat.le_refl _) _) _) ?_
      intro after above
      exact above.truncate (Nat.le_refl _)

theorem pushString_stores (memory : stack.InMemory) (string : List UInt8) (isRef isOwn isKey : Bool) :
    Stores id (stack.pushString env string isRef isOwn isKey) := by
  simp only [pushString]
  refine Ensures.bind ((expand_ensures stack 1).mono (fun after holds => holds.1) ?_) ?_
  · intro failure same
    rw [same]
    exact memory
  · intro grown _ grew
    split
    · exact .of_ok (Stack.inMemory_of grew)
    · split
      · exact .of_error (Stack.inMemory_of grew)
      · refine onFailure_stores (pushMore_allocates ?_ _).stores ?_
        · exact grew
        · intro after memory
          exact memory.truncate _

theorem Borrowed.pushString (borrowed : Borrowed base stack) (env : Env) (string : List UInt8)
    (isRef isOwn isKey : Bool) :
    Ensures (fun after => Borrowed base after ∧ after.opened = stack.opened)
      (fun failure => failure.fault.returns = true → Borrowed base failure.stack ∧ failure.stack.opened = stack.opened)
      (stack.pushString env string isRef isOwn isKey) :=
  borrowed.keeps (pushString_keeps stack string isRef isOwn isKey)
    (pushString_stores borrowed.memory string isRef isOwn isKey)

theorem Borrowed.addMemberName (borrowed : Borrowed base stack) (name : List UInt8) (isRef isOwn : Bool) :
    Remains base (stack.addMemberName env name isRef isOwn) := by
  unfold Stack.addMemberName
  dsimp only
  split
  · exact asserts_remains stack
  · rename_i allowed
    have named := borrowed.setNoValue (fun none => allowed (Or.inl none)) true
    exact (named.pushString env name isRef isOwn true).mono (fun after holds => holds.1) fun failure holds returned =>
      (holds returned).1

theorem Borrowed.addString (borrowed : Borrowed base stack) (string : List UInt8) (isRef isOwn : Bool) :
    Remains base (stack.addString env string isRef isOwn) := by
  unfold Stack.addString
  split
  · exact borrowed.addValue _ _ _
  · refine Ensures.bind (borrowed.addValue 0 _ none) ?_
    intro added done borrowed'
    have some : added.opened ≠ 0 := by
      rcases borrowed.cases with unopened | ⟨frame, maximum, last, rfl, -⟩
      · rw [addValue_unopened unopened] at done
        cases done
      · rcases (Frame.addValue_fills 0 _ none).ok added done with ⟨frame', maximum', last', rfl, -⟩
        exact Nat.succ_ne_zero _
    have noted : Borrowed base (added.setLast added.count) := ⟨borrowed'.within, borrowed'.borrow, borrowed'.memory⟩
    have pushes := noted.pushString env string false false false
    refine Ensures.bind (onFailure_ensures pushes ?_) ?_
    · intro failure holds returned
      rcases holds returned with ⟨borrowed'', opened⟩
      have some' : failure.stack.opened ≠ 0 := by
        rw [opened]
        exact some
      exact borrowed''.mapLen some' (· - 1)
    · rintro pushed - ⟨borrowed'', opened⟩
      have some' : pushed.opened ≠ 0 := by
        rw [opened]
        exact some
      exact .of_ok (borrowed''.valueAdded some' env _)

theorem Borrowed.addDup (borrowed : Borrowed base stack) (value : Pointer) : Remains base (stack.addDup env value) := by
  rcases borrowed.cases with none | ⟨frame, maximum, last, rfl, outer⟩
  · have copies := borrowed.keeps (@dupAtIndex_keeps _ _ _ env (Above.refl stack) _ (Nat.le_refl _) value (size value))
      (dupAtIndex_stores borrowed.memory value (size value))
    refine Ensures.bind (copies.mono (fun after holds => holds) fun failure holds returned => (holds returned).1) ?_
    rintro copied - ⟨-, opened⟩
    have unopened : copied.opened = 0 := opened.trans none
    rw [addValue_unopened unopened]
    exact asserts_remains copied
  · exact (Frame.addDup_fills value).remains outer

theorem Borrowed.addDupMembers (borrowed : Borrowed base stack) (value : Pointer) :
    Remains base (stack.addDupMembers env value) := by
  unfold Stack.addDupMembers
  dsimp only
  split
  · exact asserts_remains stack
  · rename_i allowed
    have some : stack.opened ≠ 0 := fun none => allowed (Or.inl none)
    split
    · exact .of_ok borrowed
    · split
      · refine .of_error ?_
        intro returned
        cases returned
      · refine Ensures.bind ((expand_ensures stack _).mono (fun after holds => holds) ?_) ?_
        · intro failure same _
          rw [same]
          exact borrowed
        rintro grown done ⟨allocated, -⟩
        have above : Above stack.jitsons stack grown := (expand_keeps stack _).ok grown done
        have written : ∀ tokens, Borrowed base (grown.write stack.count tokens) := by
          intro tokens
          exact borrowed.above (above.write (Nat.le_refl _) tokens) (Stack.inMemory_of allocated)
        have some' : ∀ tokens, (grown.write stack.count tokens).opened ≠ 0 := by
          intro tokens
          change grown.opened ≠ 0
          rw [above.opened]
          exact some
        split
        · have mapped := (written (((clone (dereference value)).drop 1).take
            (size (dereference value) - 1))).mapLen (some' _)
            (· + lenOf (dereference value))
          rw [show (grown.write stack.count _).opened = stack.opened from above.opened] at mapped
          exact .of_ok mapped
        · exact .of_error fun _ => written _

/-! ## Opening and closing -/

theorem Borrowed.openCollection (borrowed : Borrowed base stack) (type : TypeWord) :
    Remains base (stack.openCollection env type) := by
  have added : Remains base (if stack.opened ≠ 0 then stack.addValue env 0 type none else .ok stack) := by
    split
    · exact borrowed.addValue 0 type none
    · exact .of_ok borrowed
  refine ⟨?_, ?_⟩
  · intro opened done
    rcases Frame.openCollection_ok done with ⟨before, maximum, -, adding, rfl⟩
    have borrowed' := added.result before adding
    rw [borrowed'.borrow]
    exact .of_frame borrowed'.within maximum before.last
  · intro failure failed returned
    unfold Stack.openCollection at failed
    split at failed
    · cases failed
      cases returned
    · have expands : ∀ {before : Stack} {next : Stack → Stack}, Borrowed base before →
          (before.expand env 1 >>= fun grown => .ok (next grown)) = .error failure → Borrowed base failure.stack := by
        intro before next borrowed' failed
        rcases bind_error failed with failed | ⟨grown, -, wrong⟩
        · rw [Stack.expand_failed failed]
          exact borrowed'
        · cases wrong
      dsimp only at failed
      split at failed
      · rename_i nested
        rw [if_pos nested] at added
        rcases bind_error failed with failed | ⟨before, adding, failed⟩
        · exact added.failure failure failed returned
        · exact expands (added.result before adding) failed
      · exact expands borrowed failed

theorem Borrowed.closeCollection (borrowed : Borrowed base stack) : Remains base (stack.closeCollection env) := by
  refine ⟨?_, ?_⟩
  · intro closed done
    rcases borrowed.cases with none | ⟨frame, maximum, last, rfl, outer⟩
    · unfold Stack.closeCollection at done
      dsimp only at done
      rw [if_pos none] at done
      cases done
    · rcases (Frame.Within.here frame maximum last base.length).closeCollection done with
        ⟨-, inner, maximum', last', borrow, same, sameBase, rfl⟩
      have borrow' : borrow = base.length := (congrArg Stack.borrow same).symm
      have closed : Borrowed base ⟨maximum', frame.base ++ inner.closed, true, frame.collection, last', borrow⟩ :=
        ⟨outer.pushed (List.prefix_append _ _), borrow', fun _ => rfl⟩
      dsimp only
      split
      · rename_i nested
        exact closed.valueAdded nested env _
      · exact closed
  · intro failure failed returned
    rw [Leaving.closeCollection_asserts failed] at returned
    cases returned

/-! ## Taking and clearing -/

/-- What is taken from a borrowed stack is what was pushed to it. -/
theorem Borrowed.getJitson (borrowed : Borrowed base stack) {value : Pointer}
    (done : stack.getJitson env = .ok (value, after)) :
    Borrowed base after ∧ after.jitsons = base ∧ ∃ built, stack.jitsons = base ++ built ∧
      value = markAlloced built := by
  rcases borrowed.within.starts with ⟨built, split⟩
  unfold Stack.getJitson at done
  split at done
  · cases done
  · rename_i closed
    have unopened : stack.opened = 0 := by
      by_contra opened
      exact closed (Or.inr opened)
    split at done
    · split at done
      · cases done
      · split at done
        · cases done
          refine ⟨⟨?_, borrowed.borrow, borrowed.memory.truncate stack.borrow⟩, ?_, built, split.symm, ?_⟩
          · rw [unopened]
            exact .none (take_starts borrowed.within.starts (Nat.le_of_eq borrowed.borrow.symm))
          · change stack.jitsons.take stack.borrow = base
            rw [← split, borrowed.borrow, List.take_left]
          · rw [Stack.pointer, ← split, borrowed.borrow, List.drop_left]
        · cases done
    · rename_i empty
      have nothing : base = [] := by
        rw [← List.length_eq_zero_iff, ← borrowed.borrow]
        exact not_not.mp empty
      cases done
      refine ⟨⟨?_, borrowed.borrow, fun some => absurd rfl some⟩, nothing.symm, built, split.symm, ?_⟩
      · rw [unopened, nothing]
        exact .none (List.prefix_refl _)
      · rw [← split, nothing, List.nil_append]

theorem Borrowed.clear (borrowed : Borrowed base stack) : Borrowed base stack.clear := by
  refine ⟨.none ?_, borrowed.borrow, borrowed.memory.truncate stack.borrow⟩
  exact take_starts borrowed.within.starts (Nat.le_of_eq borrowed.borrow.symm)

theorem Borrowed.clear_jitsons (borrowed : Borrowed base stack) : stack.clear.jitsons = base := by
  rcases borrowed.within.starts with ⟨built, split⟩
  change stack.jitsons.take stack.borrow = base
  rw [← split, borrowed.borrow, List.take_left]

theorem Borrowed.lend (memory : stack.InMemory) : Borrowed stack.jitsons stack.lend :=
    ⟨.none (List.prefix_refl _), rfl, memory⟩

theorem Borrowed.giveBack (borrowed : Borrowed stack.jitsons after) : ∃ back, after.giveBack stack = .ok back ∧
    back.jitsons = stack.jitsons ∧ back.opened = stack.opened ∧ back.last = stack.last ∧ back.borrow = stack.borrow ∧
      back.InMemory := by
  have whole : after.jitsons.take stack.count = stack.jitsons := by
    rcases borrowed.within.starts with ⟨built, split⟩
    rw [← split]
    exact List.take_left
  refine ⟨_, if_neg (not_not.mpr borrowed.borrow), whole, rfl, rfl, rfl, ?_⟩
  exact borrowed.memory.truncate stack.count

end

/-! ## All uses -/

/-- The calls with which values are parsed or constructed. -/
inductive Construction where
  | adds (call : Call)
  | addNumber (bits : UInt64)
  | closeCollection
  | pushString (string : List UInt8) (isRef isOwn : Bool)
  | pushConcatArray (array1 array2 : Pointer) (isOwn : Bool)
  | load (source : Source)

def Construction.run (env : Env) (stack : Stack) : Construction → Except Failure Stack
  | .adds call => call.run env stack
  | .addNumber bits => stack.addNumber env bits
  | .closeCollection => stack.closeCollection env
  | .pushString string isRef isOwn => stack.pushString env string isRef isOwn false
  | .pushConcatArray array1 array2 isOwn => stack.pushConcatArray env array1 array2 isOwn
  | .load source => do
      let (_, stack) ← stack.load env source
      .ok stack

/-- What a borrower does with a stack: calls that succeed or return a failure,
values that are taken, and borrowers of its own that give the stack back. -/
inductive Uses (env : Env) : Stack → Stack → Prop where
  | start (first : Stack) : Uses env first first
  | construct {first stack after : Stack} (construction : Construction) (before : Uses env first stack)
      (done : construction.run env stack = .ok after) : Uses env first after
  | failed {first stack : Stack} {failure : Failure} (construction : Construction) (before : Uses env first stack)
      (stopped : construction.run env stack = .error failure) (returned : failure.fault.returns = true) :
        Uses env first failure.stack
  | get {first stack after : Stack} {value : Pointer} (before : Uses env first stack)
      (taken : stack.getJitson env = .ok (value, after)) :
      Uses env first after
  | clear {first stack : Stack} (before : Uses env first stack) : Uses env first stack.clear
  | nested {first stack inner after : Stack} (before : Uses env first stack) (inside : Uses env stack.lend inner)
      (back : inner.giveBack stack = .ok after) : Uses env first after

section

variable {env : Env} {base : List Token} {stack after : Stack}

theorem Borrowed.construct (borrowed : Borrowed base stack) (construction : Construction) :
    Remains base (construction.run env stack) := by
  have weaken : ∀ {α : Type} {stackOf : α → Stack} {outcome : Except Failure α},
      Ensures (fun result => Borrowed base (stackOf result) ∧ (stackOf result).opened = stack.opened)
        (fun failure => failure.fault.returns = true → Borrowed base failure.stack ∧
          failure.stack.opened = stack.opened) outcome →
      Ensures (fun result => Borrowed base (stackOf result))
        (fun failure => failure.fault.returns = true → Borrowed base failure.stack) outcome :=
    fun ensures => ensures.mono (fun _ holds => holds.1) fun _ holds returned => (holds returned).1
  cases construction with
  | adds call =>
      cases call with
      | openCollection type => exact borrowed.openCollection type
      | addMemberName name isRef isOwn => exact borrowed.addMemberName name isRef isOwn
      | addString string isRef isOwn => exact borrowed.addString string isRef isOwn
      | addUint value => exact borrowed.addValue _ _ _
      | addBool value => exact borrowed.addValue _ _ _
      | addNull => exact borrowed.addValue _ _ _
      | addReference target => exact borrowed.addValue _ _ _
      | addDup value => exact borrowed.addDup value
      | addDupMembers value => exact borrowed.addDupMembers value
  | addNumber bits => exact borrowed.addValue _ _ _
  | closeCollection => exact borrowed.closeCollection
  | pushString string isRef isOwn => exact weaken (borrowed.pushString env string isRef isOwn false)
  | pushConcatArray array1 array2 isOwn =>
      exact weaken (borrowed.keeps (pushConcatArray_keeps stack array1 array2 isOwn)
        (pushConcatArray_stores borrowed.memory array1 array2 isOwn))
  | load source =>
      have loads := weaken (borrowed.keeps ((loading_keeps env (2 * source.next.length + 2)).1 source stack)
        ((loading_stores env (2 * source.next.length + 2)).1 source stack borrowed.memory))
      exact Ensures.bind loads fun result _ holds => .of_ok holds

/-- Whatever is done with a borrowed stack, it remains borrowed. -/
theorem Uses.borrowed (uses : Uses env stack after) :
    ∀ {base : List Token}, Borrowed base stack → Borrowed base after := by
  induction uses with
  | start first => exact id
  | construct construction before done ih => exact fun borrowed => ((ih borrowed).construct construction).result _ done
  | failed construction before stopped returned ih =>
      exact fun borrowed => ((ih borrowed).construct construction).failure _ stopped returned
  | get before taken ih => exact fun borrowed => ((ih borrowed).getJitson taken).1
  | clear before ih => exact fun borrowed => (ih borrowed).clear
  | nested before inside back ih ihInside =>
      intro base borrowed
      have lender := ih borrowed
      rcases (ihInside (Borrowed.lend lender.memory)).giveBack with ⟨given, isGiven, jitsons, opened, -, borrow, memory⟩
      cases back.symm.trans isGiven
      refine ⟨?_, borrow.trans lender.borrow, memory⟩
      rw [jitsons, opened]
      exact lender.within

/-- Borrowing a stack is transparent to the lender, and what the borrower takes
is what was pushed since the stack was lent, taken or cleared. -/
theorem borrowing_transparent (memory : stack.InMemory) (uses : Uses env stack.lend after) :
    (∃ back, after.giveBack stack = .ok back ∧ back.jitsons = stack.jitsons ∧ back.opened = stack.opened ∧
      back.last = stack.last ∧
        back.borrow = stack.borrow) ∧
      (∀ value rest, after.getJitson env = .ok (value, rest) →
        ∃ built, after.jitsons = stack.jitsons ++ built ∧ value = markAlloced built ∧ rest.jitsons = stack.jitsons) ∧
      after.clear.jitsons = stack.jitsons ∧ after.InMemory := by
  have borrowed := uses.borrowed (Borrowed.lend memory)
  refine ⟨?_, ?_, borrowed.clear_jitsons, borrowed.memory⟩
  · rcases borrowed.giveBack with ⟨back, given, jitsons, opened, last, borrow, -⟩
    exact ⟨back, given, jitsons, opened, last, borrow⟩
  · intro value rest taken
    rcases borrowed.getJitson taken with ⟨-, left, built, split, isValue⟩
    exact ⟨built, split, isValue, left⟩

end

/-- The stack on which an array is open, with the number 7 parsed by a borrower. -/
def parsedSeven : Stack := ⟨4, [.head { kind := .array } 0 (.part false 0 0), makeUint 7], true, 0, 1, 1⟩

theorem borrowing_transparent_seven :
    (∃ back, parsedSeven.giveBack Leaving.constructing = .ok back ∧ back.jitsons = Leaving.constructing.jitsons ∧
        back.opened = Leaving.constructing.opened ∧ back.last = Leaving.constructing.last ∧
          back.borrow = Leaving.constructing.borrow) ∧
      (∀ value rest, parsedSeven.getJitson numberEnv = .ok (value, rest) → ∃ built,
        parsedSeven.jitsons = Leaving.constructing.jitsons ++ built ∧ value = markAlloced built ∧
          rest.jitsons = Leaving.constructing.jitsons) ∧
      parsedSeven.clear.jitsons = Leaving.constructing.jitsons ∧ parsedSeven.InMemory := by
  have parsed : (Construction.load (.fromString [55] [] {})).run numberEnv Leaving.constructing.lend =
    .ok parsedSeven := by rfl
  exact borrowing_transparent (fun _ => rfl) (.construct (.load (.fromString [55] [] {})) (.start _) parsed)

end Jitson
end LibKit
