import LibKit.Jitson.Frames
import LibKit.Jitson.Parser

namespace LibKit
namespace Jitson

open Stack

/-!
# What a failed parse leaves

All that `sxe_jitson_stack_load_json` does happens above the tokens that were
on the stack before, also where it fails on the way.  Each of its exits but one
discards what is above them.
-/

/-! ## Working above some tokens -/

/-- A stack that still starts with some tokens, and that is open and borrowed
as before. -/
structure Above (base : List Token) (before after : Stack) : Prop where
  starts : base <+: after.jitsons
  opened : after.opened = before.opened
  borrow : after.borrow = before.borrow

theorem modify_starts {α : Type} {base list : List α} (starts : base <+: list) {idx : Nat} (above : base.length ≤ idx)
    (change : α → α) : base <+: list.modify idx change := by
  rcases starts with ⟨rest, rfl⟩
  refine ⟨rest.modify (idx - base.length) change, ?_⟩
  induction base generalizing idx with
  | nil => simp
  | cons first others ih =>
      cases idx with
      | zero => simp at above
      | succ idx =>
          have further := ih (Nat.le_of_succ_le_succ above)
          simp only [List.cons_append, List.modify_succ_cons, List.length_cons, Nat.add_sub_add_right]
          rw [further]

theorem take_starts {α : Type} {base list : List α} (starts : base <+: list) {count : Nat}
    (above : base.length ≤ count) :
    base <+: list.take count := by
  rcases starts with ⟨rest, rfl⟩
  rw [List.take_append, List.take_of_length_le above]
  exact List.prefix_append _ _

namespace Above

variable {base : List Token} {before stack after : Stack}

theorem refl (stack : Stack) : Above stack.jitsons stack stack := ⟨List.prefix_refl _, rfl, rfl⟩

theorem trans (first : Above base before stack) (second : Above stack.jitsons stack after) : Above base before after :=
  ⟨first.starts.trans second.starts, second.opened.trans first.opened, second.borrow.trans first.borrow⟩

theorem truncate (above : Above base before stack) {count : Nat} (inside : base.length ≤ count) :
    Above base before (stack.truncate count) :=
  ⟨take_starts above.starts inside, above.opened, above.borrow⟩

/-- Back to where the tokens were all that was on the stack. -/
theorem truncate_eq (above : Above base before stack) : (stack.truncate base.length).jitsons = base := by
  rcases above.starts with ⟨rest, split⟩
  rw [Stack.truncate, ← split]
  exact List.take_left

theorem setLast (above : Above base before stack) (last : Nat) : Above base before (stack.setLast last) :=
  ⟨above.starts, above.opened, above.borrow⟩

theorem mapType (above : Above base before stack) {idx : Nat} (inside : base.length ≤ idx)
    (change : TypeWord → TypeWord) : Above base before (stack.mapType idx change) :=
  ⟨modify_starts above.starts inside _, above.opened, above.borrow⟩

theorem mapLen (above : Above base before stack) {idx : Nat} (inside : base.length ≤ idx) (change : Nat → Nat) :
    Above base before (stack.mapLen idx change) :=
  ⟨modify_starts above.starts inside _, above.opened, above.borrow⟩

theorem write (above : Above base before stack) {idx : Nat} (inside : base.length ≤ idx) (tokens : List Token) :
    Above base before (stack.write idx tokens) := by
  refine ⟨?_, above.opened, above.borrow⟩
  rw [Stack.write, List.append_assoc]
  exact (take_starts above.starts inside).trans (List.prefix_append _ _)

theorem setHead (above : Above base before stack) {idx : Nat} (inside : base.length ≤ idx) (type : TypeWord)
    (body : Body (List Token)) : Above base before (stack.setHead idx type body) := above.write inside _

theorem finishObject (above : Above base before stack) {idx : Nat} (inside : base.length ≤ idx) :
    Above base before (stack.finishObject idx) :=
  ⟨modify_starts above.starts inside _, above.opened, above.borrow⟩

theorem finishArray (above : Above base before stack) {idx : Nat} (inside : base.length ≤ idx) :
    Above base before (stack.finishArray idx) :=
  ⟨modify_starts above.starts inside _, above.opened, above.borrow⟩

theorem checkParsed (above : Above base before stack) {idx : Nat} (inside : base.length ≤ idx) (env : Env)
    (optimize : Bool) (previous current : Nat) :
    Above base before (stack.checkParsed env optimize idx previous current) := by
  rw [Stack.checkParsed]
  split
  · exact above.mapType inside _
  · exact above

theorem length_le (above : Above base before stack) : base.length ≤ stack.count := above.starts.length_le

end Above

def Fault.returns : Fault → Bool
  | .memory | .invalid => true
  | .assertion | .undefined => false

/-- A call that works above some tokens, whether it succeeds or returns a
failure. -/
structure Keeps {α : Type} (stackOf : α → Stack) (base : List Token) (before : Stack)
    (outcome : Except Failure α) : Prop where
  ok : ∀ result, outcome = .ok result → Above base before (stackOf result)
  failed : ∀ failure, outcome = .error failure → failure.fault.returns = true → Above base before failure.stack

section

variable {α β : Type} {stackOf : α → Stack} {stackOf' : β → Stack} {base : List Token} {before stack : Stack}

theorem Keeps.of_ok {result : α} (above : Above base before (stackOf result)) :
    Keeps stackOf base before (.ok result) := by
  refine ⟨?_, ?_⟩
  · intro other same
    cases same
    exact above
  · intro failure same
    cases same

theorem Keeps.of_error {failure : Failure} (above : failure.fault.returns = true → Above base before failure.stack) :
    Keeps stackOf base before (.error failure) := by
  refine ⟨?_, ?_⟩
  · intro other same
    cases same
  · intro other same returned
    cases same
    exact above returned

theorem Keeps.bind {first : Except Failure α} {next : α → Except Failure β} (keeps : Keeps stackOf base before first)
    (further : ∀ result, Above base before (stackOf result) → Keeps stackOf' base before (next result)) :
    Keeps stackOf' base before (first >>= next) := by
  cases first with
  | error failure => exact Keeps.of_error (keeps.failed failure rfl)
  | ok result => exact further result (keeps.ok result rfl)

theorem Keeps.onFailure {outcome : Except Failure α} {change : Stack → Stack}
    (keeps : Keeps stackOf base before outcome)
    (undo : ∀ stack, Above base before stack → Above base before (change stack)) :
    Keeps stackOf base before (Stack.onFailure outcome change) := by
  cases outcome with
  | ok result => exact Keeps.of_ok (keeps.ok result rfl)
  | error failure => exact Keeps.of_error fun returned => undo _ (keeps.failed failure rfl returned)

/-- A call on a stack that is above some tokens already. -/
theorem Keeps.trans {outcome : Except Failure α} (above : Above base before stack)
    (keeps : Keeps stackOf stack.jitsons stack outcome) : Keeps stackOf base before outcome :=
  ⟨fun result same => above.trans (keeps.ok result same),
    fun failure same returned => above.trans (keeps.failed failure same returned)⟩

variable {env : Env}

theorem expand_keeps (stack : Stack) (more : Nat) : Keeps id stack.jitsons stack (stack.expand env more) := by
  refine ⟨?_, ?_⟩
  · intro after result
    rcases Stack.expand_cases result with ⟨-, maximum, rfl⟩
    exact ⟨List.prefix_append _ _, rfl, rfl⟩
  · intro failure result _
    rw [Stack.expand_failed result]
    exact Above.refl stack

/-! ## Strings and symbols -/

theorem loadStringLoop_keeps {idx fuel space : Nat} {source : Source} {bytes : List UInt8}
    (above : Above base before stack) (inside : base.length ≤ idx) :
    Keeps Prod.snd base before (stack.loadStringLoop env idx fuel source bytes space) := by
  induction fuel generalizing source stack bytes space with
  | zero => exact Keeps.of_error fun returned => nomatch returned
  | succ fuel ih =>
      rw [loadStringLoop]
      split
      · exact Keeps.of_ok (above.write inside _)
      · split
        · exact Keeps.of_error fun _ => above.truncate inside
        · split
          · refine Keeps.bind ((Keeps.trans above (expand_keeps stack 1)).onFailure ?_) ?_
            · intro stack above
              exact above.truncate inside
            · intro after grown
              exact ih grown
          · exact ih above

theorem loadString_keeps (stack : Stack) (source : Source) :
    Keeps Prod.snd stack.jitsons stack (stack.loadString env source) := by
  simp only [loadString]
  split
  · exact Keeps.of_error fun _ => Above.refl stack
  · refine Keeps.bind (expand_keeps stack 1) ?_
    intro after above
    exact loadStringLoop_keeps above (Nat.le_refl _)

theorem dupAtIndex_keeps (above : Above base before stack) {idx : Nat} (inside : base.length ≤ idx) (value : Pointer)
    (size : Nat) : Keeps id base before (stack.dupAtIndex env idx value size) := by
  have cloned : ∀ after, Above base before after → Keeps id base before
      (let stack := (after.write idx ((clone value).take size)).mapType idx fun type => { type with alloced := false }
      if canClone env value then .ok stack else .error ⟨.memory, stack⟩) := by
    intro after grown
    have written := (grown.write inside ((clone value).take size)).mapType inside
      fun type => { type with alloced := false }
    dsimp only
    split
    · exact Keeps.of_ok written
    · exact Keeps.of_error fun _ => written
  simp only [dupAtIndex]
  split
  · exact Keeps.of_error fun returned => nomatch returned
  · split
    · exact Keeps.bind (Keeps.trans above (expand_keeps stack _)) cloned
    · exact cloned stack above

theorem rangeCast_keeps (stack : Stack) (value : Pointer) :
    Keeps id stack.jitsons stack (stack.rangeCast env value) := by
  have refused : Keeps id stack.jitsons stack (.error ⟨.invalid, stack⟩) := Keeps.of_error fun _ => Above.refl stack
  simp only [rangeCast]
  split
  · exact refused
  · split
    · split
      · refine Keeps.bind (dupAtIndex_keeps (Above.refl stack) (Nat.le_refl _) value _) ?_
        intro after above
        exact Keeps.of_ok (above.mapType (Nat.le_refl _) _)
      · exact refused
    · exact refused

theorem pushIdent_keeps (stack : Stack) (name : List UInt8) :
    Keeps id stack.jitsons stack (stack.pushIdent env name) := by
  rw [pushIdent]
  refine Keeps.bind (expand_keeps stack _) ?_
  intro after above
  exact Keeps.of_ok (above.write (Nat.le_refl _) _)

/-! ## Casts -/

theorem giveBack_keeps {iou after : Stack} (above : Above iou.jitsons iou.lend after) :
    Keeps id iou.jitsons iou (after.giveBack iou) := by
  rw [giveBack]
  split
  · exact Keeps.of_error fun returned => nomatch returned
  · exact Keeps.of_ok ⟨take_starts above.starts (Nat.le_refl _), rfl, rfl⟩

theorem getJitson_keeps {iou after : Stack} (above : Above iou.jitsons iou.lend after) :
    Keeps Prod.snd iou.jitsons iou.lend (after.getJitson env) := by
  have borrow : after.borrow = iou.jitsons.length := above.borrow
  rw [getJitson]
  split
  · refine Keeps.of_error ?_
    intro returned
    cases returned
  · split
    · split
      · refine Keeps.of_error ?_
        intro returned
        cases returned
      · split
        · exact Keeps.of_ok ⟨take_starts above.starts (Nat.le_of_eq borrow.symm), above.opened, above.borrow⟩
        · exact Keeps.of_error fun _ => above
    · rename_i lent
      have empty : iou.jitsons = [] := by
        rw [← List.length_eq_zero_iff, ← borrow]
        exact not_not.mp lent
      exact Keeps.of_ok ⟨empty ▸ List.nil_prefix, above.opened, above.borrow⟩

theorem finishCast_keeps {iou : Stack} {parsed : Except Failure (Source × Stack)}
    (keeps : Keeps Prod.snd iou.jitsons iou.lend parsed) :
    Keeps Prod.snd iou.jitsons iou (finishCast env iou parsed) := by
  have argument : Keeps (fun result => result.2.2) iou.jitsons iou.lend
      (parsed >>= fun parsed => getJitson env parsed.2 >>= fun taken =>
        Except.ok (taken.1, parsed.1, taken.2) : Except Failure (Pointer × Source × Stack)) := by
    refine keeps.bind ?_
    intro parsed above
    refine (getJitson_keeps above).bind ?_
    intro taken above
    exact Keeps.of_ok above
  simp only [finishCast]
  split
  · rename_i failure failed
    refine ⟨?_, ?_⟩
    · intro result same
      rw [giveBack] at same
      split at same <;> cases same
    · intro other same returned
      rw [giveBack] at same
      split at same
      · cases same
        cases returned
      · cases same
        exact ⟨take_starts (argument.failed failure failed returned).starts (Nat.le_refl _), rfl, rfl⟩
  · rename_i value source stack taken
    refine Keeps.bind (giveBack_keeps (argument.ok _ taken)) ?_
    intro after above
    split
    · exact Keeps.of_error fun _ => above
    · refine Keeps.bind (Keeps.trans above (rangeCast_keeps after value)) ?_
      intro cast above
      exact Keeps.of_ok above

/-! ## Values -/

theorem loadNumber_keeps (above : Above base before stack) {idx : Nat} (inside : base.length ≤ idx) (source : Source) :
    Keeps Prod.snd base before (stack.loadNumber env source idx) := by
  rw [loadNumber]
  split
  · exact Keeps.of_error fun _ => above
  · split
    · exact Keeps.of_ok (above.write inside _)
    · exact Keeps.of_ok (above.write inside _)

/-- Parsing happens above the tokens that were there, for every amount of
fuel. -/
theorem loading_keeps (env : Env) (fuel : Nat) :
    (∀ source stack, Keeps Prod.snd stack.jitsons stack (stack.loadJson env fuel source)) ∧
    (∀ source stack before base idx c, Above base before stack → base.length ≤ idx →
      Keeps Prod.snd base before (stack.loadMembers env fuel source idx c)) ∧
    (∀ source stack before base idx, Above base before stack → base.length ≤ idx →
      Keeps Prod.snd base before (stack.loadElements env fuel source idx)) := by
  induction fuel with
  | zero =>
      refine ⟨?_, ?_, ?_⟩
      · intro source stack
        exact Keeps.of_error fun returned => nomatch returned
      · intro source stack before base idx c _ _
        exact Keeps.of_error fun returned => nomatch returned
      · intro source stack before base idx _ _
        exact Keeps.of_error fun returned => nomatch returned
  | succ fuel ih =>
      rcases ih with ⟨values, members, elements⟩
      refine ⟨?_, ?_, ?_⟩
      · intro source stack
        have unwound : ∀ after, Above stack.jitsons stack after →
            Above stack.jitsons stack (after.truncate stack.jitsons.length) :=
          fun after above => above.truncate (Nat.le_refl _)
        simp only [loadJson]
        split
        · exact Keeps.of_error fun _ => Above.refl stack
        · refine Keeps.bind (expand_keeps stack 1) ?_
          intro grown above
          have placed := above.setLast stack.count
          cases charClass source.skipSpace.peekChar with
          | quote =>
              exact Keeps.trans (unwound _ placed) (loadString_keeps _ _)
          | brace =>
              have opened := placed.setHead (Nat.le_refl _) { kind := .object } .unset
              dsimp only
              split
              · exact Keeps.of_ok (opened.setHead (Nat.le_refl _) _ _)
              · exact (members _ _ _ _ _ _ opened (Nat.le_refl _)).onFailure unwound
          | bracket =>
              have opened := fun type => placed.setHead (Nat.le_refl _) type .unset
              dsimp only
              split
              · exact Keeps.of_ok ((opened _).setHead (Nat.le_refl _) _ _)
              · exact (elements _ _ _ _ _ (opened _) (Nat.le_refl _)).onFailure unwound
          | number => exact (loadNumber_keeps placed (Nat.le_refl _) _).onFailure unwound
          | letter =>
              dsimp only
              split
              · split
                · exact Keeps.of_error fun _ => unwound _ placed
                · have argument := values (({ source.skipSpace with
                    next := source.skipSpace.next.dropWhile Source.isIdentifier } : Source).skipSpace.consume 1)
                    ((grown.setLast stack.count).truncate stack.count).lend
                  exact Keeps.onFailure (Keeps.trans (unwound _ placed) (finishCast_keeps argument)) unwound
              · refine Keeps.bind (dupAtIndex_keeps placed (Nat.le_refl _) _ _) ?_
                intro after above
                exact Keeps.of_ok above
              · split
                · refine Keeps.bind (Keeps.onFailure (Keeps.trans (unwound _ placed) (pushIdent_keeps _ _)) unwound) ?_
                  intro after above
                  exact Keeps.of_ok above
                · exact Keeps.of_error fun _ => unwound _ placed
          | other => exact Keeps.of_error fun _ => unwound _ placed
      · intro source stack before base idx c above inside
        simp only [loadMembers]
        split
        · exact Keeps.of_error fun _ => above
        · refine Keeps.bind (Keeps.trans above (loadString_keeps stack source)) ?_
          rintro ⟨afterName, named⟩ above'
          dsimp only
          split
          · exact Keeps.of_error fun _ => above'
          · refine Keeps.bind (Keeps.trans above' (values _ named)) ?_
            rintro ⟨behind, after⟩ above''
            have marked := (above''.mapLen inside (· + 1)).mapType above.length_le fun type =>
              { type with isKey := true }
            dsimp only
            split
            · exact members _ _ _ _ _ _ marked inside
            · split
              · exact Keeps.of_ok (marked.finishObject inside)
              · exact Keeps.of_error fun _ => marked
      · intro source stack before base idx above inside
        simp only [loadElements]
        refine Keeps.bind (Keeps.trans above (values source stack)) ?_
        rintro ⟨behind, after⟩ above'
        have counted := (above'.checkParsed inside env behind.optimize stack.last stack.count).mapLen inside (· + 1)
        dsimp only
        split
        · exact elements _ _ _ _ _ counted inside
        · split
          · exact Keeps.of_ok (counted.finishArray inside)
          · exact Keeps.of_error fun _ => counted

/-! ## Failures -/

/-- The stack as it was, but for its last value and its memory. -/
structure Unchanged (before after : Stack) : Prop where
  jitsons : after.jitsons = before.jitsons
  opened : after.opened = before.opened
  borrow : after.borrow = before.borrow

/-- The parser duplicates a constant to the token that it has allocated for the
value. -/
def DuplicatesConstant (env : Env) (source : Source) (stack : Stack) : Prop :=
  (∃ value, charClass source.skipSpace.peekChar = .letter ∧
    constGet env source.allowConsts source.skipSpace.getIdentifier.1 = some (.value value)) ∧
  ∃ grown, stack.expand env 1 = .ok grown

theorem Unchanged.trans {after : Stack} (first : Unchanged before stack) (second : Unchanged stack after) :
    Unchanged before after :=
  ⟨second.jitsons.trans first.jitsons, second.opened.trans first.opened, second.borrow.trans first.borrow⟩

theorem Above.unchanged {after : Stack} (above : Above stack.jitsons stack after) :
    Unchanged stack (after.truncate stack.jitsons.length) :=
  ⟨above.truncate_eq, above.opened, above.borrow⟩

/-- A call whose failures leave the stack unchanged. -/
def Unwinds {α : Type} (before : Stack) (outcome : Except Failure α) : Prop :=
  ∀ failure, outcome = .error failure → failure.fault.returns = true → Unchanged before failure.stack

theorem Unwinds.of_error {failure : Failure}
    (unchanged : failure.fault.returns = true → Unchanged before failure.stack) :
    @Unwinds α before (.error failure) := by
  intro other same
  cases same
  exact unchanged

theorem Unwinds.bind {first : Except Failure α} {next : α → Except Failure β} (unwinds : Unwinds before first)
    (further : ∀ result, first = .ok result → Unwinds before (next result)) : Unwinds before (first >>= next) := by
  cases first with
  | error failure => exact Unwinds.of_error (unwinds failure rfl)
  | ok result => exact further result rfl

/-- What is discarded on failure. -/
theorem Keeps.unwinds {outcome : Except Failure α} (keeps : Keeps stackOf stack.jitsons stack outcome) :
    Unwinds stack (Stack.onFailure outcome fun after => after.truncate stack.jitsons.length) := by
  intro failure failed returned
  cases outcome with
  | ok result => cases failed
  | error inner =>
      cases failed
      exact (keeps.failed inner rfl returned).unchanged

theorem loadStringLoop_unwinds {grown : Stack} {fuel space : Nat} {source : Source} {bytes : List UInt8}
    (above : Above stack.jitsons stack grown) :
    Unwinds stack (grown.loadStringLoop env stack.jitsons.length fuel source bytes space) := by
  induction fuel generalizing source grown bytes space with
  | zero => exact Unwinds.of_error fun returned => nomatch returned
  | succ fuel ih =>
      rw [loadStringLoop]
      split
      · intro failure failed
        cases failed
      · split
        · exact Unwinds.of_error fun _ => above.unchanged
        · split
          · have keeps := @Keeps.trans _ _ _ _ _ _ above (@expand_keeps env grown 1)
            refine Unwinds.bind keeps.unwinds ?_
            intro after expanded
            have above' : Above stack.jitsons stack after := by
              refine keeps.ok after ?_
              cases result : grown.expand env 1 with
              | ok after' =>
                  rw [result] at expanded
                  exact expanded
              | error failure =>
                  rw [result] at expanded
                  cases expanded
            exact ih above'
          · exact ih above

theorem loadString_unwinds (stack : Stack) (source : Source) : Unwinds stack (stack.loadString env source) := by
  simp only [loadString]
  split
  · exact Unwinds.of_error fun _ => ⟨rfl, rfl, rfl⟩
  · refine Unwinds.bind ?_ ?_
    · intro failure failed _
      rw [Stack.expand_failed failed]
      exact ⟨rfl, rfl, rfl⟩
    · intro after expanded
      exact loadStringLoop_unwinds ((expand_keeps stack 1).ok after expanded)

theorem count_le_write (stack : Stack) (idx : Nat) (tokens : List Token) :
    stack.count ≤ (stack.write idx tokens).count := by
  simp only [Stack.count, Stack.write, List.length_append, List.length_take, List.length_drop]
  omega

theorem count_mapType (stack : Stack) (idx : Nat) (change : TypeWord → TypeWord) :
    (stack.mapType idx change).count = stack.count := by
  simp only [Stack.count, Stack.mapType, List.length_modify]

/-- What a failed duplication leaves on the stack is not discarded. -/
theorem dupAtIndex_failed {idx size : Nat} {value : Pointer} {failure : Failure}
    (failed : stack.dupAtIndex env idx value size = .error failure) (returned : failure.fault.returns = true) :
    stack.count ≤ failure.stack.count := by
  simp only [dupAtIndex] at failed
  split at failed
  · cases failed
    cases returned
  · split at failed
    · cases result : stack.expand env (idx + size - stack.count) with
      | error inner =>
          rw [result] at failed
          cases failed
          rw [Stack.expand_failed result]
      | ok after =>
          rcases Stack.expand_cases result with ⟨-, maximum, same⟩
          have longer : stack.count ≤ after.count := by
            rw [same, Stack.count, Stack.count, List.length_append]
            exact Nat.le_add_right _ _
          rw [result, ok_bind] at failed
          split at failed
          · cases failed
          · cases failed
            dsimp only
            rw [count_mapType]
            exact Nat.le_trans longer (count_le_write _ _ _)
    · rw [ok_bind] at failed
      split at failed
      · cases failed
      · cases failed
        dsimp only
        rw [count_mapType]
        exact count_le_write _ _ _

/-- Either the stack is unchanged, or the token for a constant remains. -/
theorem loadJson_failed {fuel : Nat} {source : Source} {failure : Failure}
    (failed : stack.loadJson env (fuel + 1) source = .error failure) (returned : failure.fault.returns = true) :
    (¬ DuplicatesConstant env source stack ∧ Unchanged stack failure.stack) ∨
      (DuplicatesConstant env source stack ∧ stack.count < failure.stack.count) := by
  rcases loading_keeps env fuel with ⟨values, members, elements⟩
  simp only [loadJson] at failed
  split at failed
  · rename_i ended
    cases failed
    refine Or.inl ⟨?_, rfl, rfl, rfl⟩
    rintro ⟨⟨value, letter, -⟩, -⟩
    rw [ended] at letter
    exact absurd letter (by decide)
  · cases result : stack.expand env 1 with
    | error inner =>
        rw [result] at failed
        cases failed
        refine Or.inl ⟨?_, ?_⟩
        · rintro ⟨-, grown, expanded⟩
          rw [result] at expanded
          cases expanded
        · rw [Stack.expand_failed result]
          exact ⟨rfl, rfl, rfl⟩
    | ok grown =>
        have above := (@expand_keeps env stack 1).ok grown result
        have placed := above.setLast stack.count
        rw [result, ok_bind] at failed
        have unwound : ∀ outcome : Except Failure (Source × Stack), Keeps Prod.snd stack.jitsons stack outcome →
            Unwinds stack (Stack.onFailure outcome fun after => after.truncate stack.count) :=
          fun outcome keeps => keeps.unwinds
        have plain : charClass source.skipSpace.peekChar ≠ .letter →
            ∀ outcome : Except Failure (Source × Stack), Unwinds stack outcome → outcome = .error failure →
            (¬ DuplicatesConstant env source stack ∧ Unchanged stack failure.stack) ∨
              (DuplicatesConstant env source stack ∧ stack.count < failure.stack.count) := by
          intro notLetter outcome unwinds same
          refine Or.inl ⟨?_, unwinds failure same returned⟩
          rintro ⟨⟨value, letter, -⟩, -⟩
          exact notLetter letter
        cases isClass : charClass source.skipSpace.peekChar with
        | quote =>
            rw [isClass] at failed plain
            refine plain (by decide) _ ?_ failed
            intro inner same returned
            exact placed.unchanged.trans (loadString_unwinds _ _ inner same returned)
        | brace =>
            rw [isClass] at failed plain
            have opened := placed.setHead (Nat.le_refl _) { kind := .object } .unset
            dsimp only at failed
            split at failed
            · cases failed
            · exact plain (by decide) _ (unwound _ (members _ _ _ _ _ _ opened (Nat.le_refl _))) failed
        | bracket =>
            rw [isClass] at failed plain
            have opened := fun type => placed.setHead (Nat.le_refl _) type .unset
            dsimp only at failed
            split at failed
            · cases failed
            · exact plain (by decide) _ (unwound _ (elements _ _ _ _ _ (opened _) (Nat.le_refl _))) failed
        | number =>
            rw [isClass] at failed plain
            exact plain (by decide) _ (unwound _ (loadNumber_keeps placed (Nat.le_refl _) _)) failed
        | letter =>
            rw [isClass] at failed
            dsimp only at failed
            have missing : ∀ constant, constGet env source.allowConsts source.skipSpace.getIdentifier.1 = constant →
                (∀ value, constant ≠ some (.value value)) → ¬ DuplicatesConstant env source stack := by
              rintro constant found other ⟨⟨value, -, found'⟩, -⟩
              exact other value (found.symm.trans found')
            split at failed
            · rename_i found
              refine Or.inl ⟨missing _ found (by simp), ?_⟩
              split at failed
              · cases failed
                exact placed.unchanged
              · have argument := values (({ source.skipSpace with
                  next := source.skipSpace.next.dropWhile Source.isIdentifier } : Source).skipSpace.consume 1)
                  ((grown.setLast stack.count).truncate stack.count).lend
                exact unwound _ (Keeps.trans (placed.truncate (Nat.le_refl _))
                  (finishCast_keeps argument)) failure failed
                  returned
            · rename_i value found
              refine Or.inr ⟨⟨⟨value, isClass, found⟩, grown, result⟩, ?_⟩
              rcases Stack.expand_cases result with ⟨-, maximum, same⟩
              have longer : stack.count < (grown.setLast stack.count).count := by
                rw [same, Stack.count, Stack.count, Stack.setLast, List.length_append]
                exact Nat.lt_succ_self _
              cases duplicated : (grown.setLast stack.count).dupAtIndex env stack.count value (size value) with
              | ok after =>
                  rw [duplicated] at failed
                  cases failed
              | error inner =>
                  rw [duplicated] at failed
                  cases failed
                  exact Nat.lt_of_lt_of_le longer (dupAtIndex_failed duplicated returned)
            · rename_i found
              refine Or.inl ⟨missing _ found (by simp), ?_⟩
              split at failed
              · refine Unwinds.bind ?_ ?_ failure failed returned
                · exact (Keeps.trans (placed.truncate (Nat.le_refl _)) (pushIdent_keeps _ _)).unwinds
                · intro after _ inner same
                  cases same
              · cases failed
                exact placed.unchanged
        | other =>
            rw [isClass] at failed plain
            exact plain (by decide) _ (Unwinds.of_error fun _ => placed.unchanged) failed

/-- Where `sxe_jitson_stack_load_json` returns false, the stack is as it was
before, unless a constant was to be duplicated. -/
theorem failed_load_unchanged_iff {source : Source} {fault : Fault} {after : Stack}
    (failed : stack.load env source = .error ⟨fault, after⟩) (returned : fault.returns = true) :
    Unchanged stack after ↔ ¬ DuplicatesConstant env source stack := by
  rcases loadJson_failed failed returned with ⟨notConstant, unchanged⟩ | ⟨constant, longer⟩
  · exact ⟨fun _ => notConstant, fun _ => unchanged⟩
  · refine ⟨fun unchanged => ?_, fun notConstant => absurd constant notConstant⟩
    have same : after.count = stack.count := congrArg List.length unchanged.jitsons
    exact absurd longer (by rw [same]; exact Nat.lt_irrefl _)

end

/-- An environment without doubles and constants but one, with memory for a
single token. -/
def tightEnv : Env where
  ops := ⟨fun _ _ => false, fun _ _ => false, fun _ => 0, fun _ => 0, fun _ => (0, 0)⟩
  alloc tokens := decide (tokens ≤ 1)
  optimize := false
  constants name :=
    if name = [99] then
      some (.value [.head { kind := .string } 8 (.string [48, 49, 50, 51, 52, 53, 54, 55]), .more])
    else none

/-- `sxe_jitson_stack_new(1)` -/
def newStack : Stack := ⟨1, [], true, 0, 0, 0⟩

/-- The text `["a",{"b":1}`, an array that is not closed, leaves nothing on the
stack. -/
theorem failed_load_unclosed : ∃ fault after,
    newStack.load { tightEnv with alloc := fun _ => true }
        (.fromString [91, 34, 97, 34, 44, 123, 34, 98, 34, 58, 49, 125] [] {}) = .error ⟨fault, after⟩ ∧
      Unchanged newStack after := by
  refine ⟨.invalid, ⟨8, [], true, 0, 4, 0⟩, rfl, ?_⟩
  refine (@failed_load_unchanged_iff newStack { tightEnv with alloc := fun _ => true }
    (.fromString [91, 34, 97, 34, 44, 123, 34, 98, 34, 58, 49, 125] [] {}) .invalid _ rfl rfl).mpr ?_
  rintro ⟨⟨value, letter, -⟩, -⟩
  exact absurd letter (by decide)

/-- The constant `c` takes two tokens, of which the first remains on the
stack. -/
theorem failed_load_keeps_constant : ∃ fault after,
    newStack.load tightEnv (.fromString [99] [] { allowConsts := true }) = .error ⟨fault, after⟩ ∧
      fault.returns = true ∧ ¬ Unchanged newStack after := by
  refine ⟨.memory, ⟨1, [.more], true, 0, 0, 0⟩, rfl, rfl, ?_⟩
  intro unchanged
  cases unchanged.jitsons

end Jitson
end LibKit
