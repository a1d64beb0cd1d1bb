import LibKit.Jitson.Frames
import LibKit.Jitson.Reading

namespace LibKit
namespace Jitson

open Stack

/-!
# The parser produces the tokens of what it reads

`sxe_jitson_stack_load_json` succeeds on what `readValue` reads, as long as
memory can be had, and pushes the tokens of the tree.
-/

/-! ## Following a computation -/

/-- What is known of a call: whether its memory is ample, and whether symbols
are restricted to those of JSON. -/
structure Terms where
  ample : Prop
  strict : Prop

/-- A call fails where nothing is expected of it, if symbols are restricted.
Otherwise it returns what is expected, or its memory was not ample. -/
def Meets {α β : Type} (terms : Terms) (outcome : Except Failure α) (expected : Option β)
    (relation : β → α → Prop) : Prop :=
  match expected with
  | none => terms.strict → ∃ failure, outcome = .error failure
  | some wanted => (∃ result, outcome = .ok result ∧ relation wanted result) ∨
      (¬ terms.ample ∧ ∃ failure, outcome = .error failure)

section

variable {α β γ δ : Type} {terms : Terms}

theorem Meets.ok {result : α} {wanted : β} {relation : β → α → Prop} (holds : relation wanted result) :
    Meets terms (.ok result) (some wanted) relation := Or.inl ⟨result, rfl, holds⟩

theorem Meets.error (failure : Failure) (relation : β → α → Prop) : Meets terms (.error failure) none relation :=
  fun _ => ⟨failure, rfl⟩

theorem Meets.failed {outcome : Except Failure α} {expected : Option β} {relation : β → α → Prop}
    (short : ¬ terms.ample) {failure : Failure} (failed : outcome = .error failure) :
    Meets terms outcome expected relation := by
  cases expected with
  | none => exact fun _ => ⟨failure, failed⟩
  | some wanted => exact Or.inr ⟨short, failure, failed⟩

/-- What a failed call leaves on the stack does not matter here. -/
theorem Meets.onFailure {outcome : Except Failure α} {expected : Option β} {relation : β → α → Prop}
    {change : Stack → Stack} (meets : Meets terms outcome expected relation) :
    Meets terms (Stack.onFailure outcome change) expected relation := by
  have failing : ∀ failure, outcome = .error failure →
      ∃ failure, Stack.onFailure outcome change = .error failure := by
    rintro failure rfl
    exact ⟨_, rfl⟩
  cases expected with
  | none =>
      intro strict
      rcases meets strict with ⟨failure, failed⟩
      exact failing failure failed
  | some wanted =>
      rcases meets with ⟨result, rfl, holds⟩ | ⟨short, failure, failed⟩
      · exact Or.inl ⟨result, rfl, holds⟩
      · exact Or.inr ⟨short, failing failure failed⟩

theorem Meets.bind {outcome : Except Failure α} {expected : Option β} {relation : β → α → Prop}
    {next : α → Except Failure γ} {nextExpected : β → Option δ} {nextRelation : δ → γ → Prop}
    (first : Meets terms outcome expected relation)
    (second : ∀ wanted result, expected = some wanted → relation wanted result →
      Meets terms (next result) (nextExpected wanted) nextRelation) :
    Meets terms (outcome >>= next) (expected.bind nextExpected) nextRelation := by
  cases expected with
  | none =>
      intro strict
      rcases first strict with ⟨failure, failed⟩
      exact ⟨failure, by rw [failed]; rfl⟩
  | some wanted =>
      rcases first with ⟨result, done, holds⟩ | ⟨short, failure, failed⟩
      · rw [done]
        exact second wanted result rfl holds
      · exact Meets.failed short (by rw [failed]; rfl)

theorem Meets.first {outcome : Except Failure α} {relation : α → Prop} {next : α → Except Failure γ}
    {expected : Option δ} {nextRelation : δ → γ → Prop}
    (first : Meets terms outcome (some ()) fun _ => relation)
    (second : ∀ result, relation result → Meets terms (next result) expected nextRelation) :
    Meets terms (outcome >>= next) expected nextRelation := by
  rcases first with ⟨result, done, holds⟩ | ⟨short, failure, failed⟩
  · rw [done]
    exact second result holds
  · exact Meets.failed short (by rw [failed]; rfl)

theorem Meets.after {outcome : Except Failure α} {expected : Option β} {relation : β → α → Prop}
    {further : β → Option δ} {other : δ → α → Prop} (meets : Meets terms outcome expected relation)
    (next : ∀ wanted result, relation wanted result → ∃ more, further wanted = some more ∧ other more result) :
    Meets terms outcome (expected.bind further) other := by
  cases expected with
  | none => exact meets
  | some wanted =>
      rcases meets with ⟨result, done, holds⟩ | ⟨short, failure, failed⟩
      · rcases next wanted result holds with ⟨more, found, holds'⟩
        rw [Option.bind_some, found]
        exact Or.inl ⟨result, done, holds'⟩
      · exact Meets.failed short failed

end

/-! ## Growing -/

/-- The stack with other tokens, after it may have grown. -/
def Grown (terms : Terms) (stack : Stack) (jitsons : List Token) (last : Nat) (after : Stack) : Prop :=
  jitsons.length < 2 ^ 32 ∧ ∃ maximum, (terms.ample → 0 < maximum) ∧
    after = ⟨maximum, jitsons, true, stack.opened, last, stack.borrow⟩

/-- The symbols of JSON have their values, and where symbols are restricted
there are no others. -/
structure Plain (terms : Terms) (env : Env) (flags : Flags) : Prop where
  builtin : ∀ name value, builtin name = some value → constGet env flags.allowConsts name = some (.value [value])
  strict : terms.strict → flags.allowConsts = false ∧ flags.allowIdents = false

/-- A stack with a number of tokens that its fields can hold.  Where memory is
ample there is room for all that can be read from a source. -/
structure Fits (terms : Terms) (env : Env) (stack : Stack) (source : Source) : Prop where
  plain : Plain terms env source.toFlags
  count : stack.count < 2 ^ 32
  roomy : terms.ample → env.Roomy
  positive : terms.ample → 0 < stack.maximum
  room : terms.ample → stack.count + source.next.length ≤ 2 ^ 32 - 4096

section

variable {env : Env} {terms : Terms}

/-- A stack that has grown by no more than what was read still fits. -/
theorem Grown.fits {stack after : Stack} {jitsons : List Token} {last : Nat} {source behind : Source}
    (grown : Grown terms stack jitsons last after) (fits : Fits terms env stack source) (later : Behind source behind)
    (shorter : jitsons.length + behind.next.length ≤ stack.count + source.next.length) :
    Fits terms env after behind := by
  rcases grown with ⟨short, maximum, positive, rfl⟩
  refine ⟨later.flags ▸ fits.plain, short, fits.roomy, positive, ?_⟩
  intro plenty
  exact Nat.le_trans shorter (fits.room plenty)

theorem expand_meets {stack : Stack} {source : Source} (fits : Fits terms env stack source)
    (some : 0 < source.next.length) :
    Meets terms (stack.expand env 1) (Option.some ()) fun _ =>
      Grown terms stack (stack.jitsons ++ [.more]) stack.last := by
  by_cases plenty : terms.ample
  · have room := fits.room plenty
    rcases stack.expand_ok (fits.roomy plenty) 1 (fits.positive plenty) (by omega) with ⟨maximum, positive, expanded⟩
    refine Or.inl ⟨_, expanded, ?_, maximum, fun _ => positive, rfl⟩
    rw [Stack.count] at room
    rw [List.length_append, List.length_singleton]
    omega
  · cases result : stack.expand env 1 with
    | error failure => exact Or.inr ⟨plenty, failure, rfl⟩
    | ok after =>
        rcases Stack.expand_cases result with ⟨bound, maximum, same⟩
        refine Or.inl ⟨after, rfl, ?_, maximum, fun enough => absurd enough plenty, same⟩
        rw [List.length_append, List.length_singleton]
        exact bound

/-! ## Strings -/

theorem write_middle {stack : Stack} {base behind : List Token} {allocated : Token} (written : Token)
    (holds : stack.jitsons = base ++ allocated :: behind) :
    stack.write base.length [written] = { stack with jitsons := base ++ written :: behind } := by
  have rest : (base ++ allocated :: behind).drop (base.length + 1) = behind := by
    rw [List.drop_length_add_append, List.drop_one, List.tail_cons]
  simp only [Stack.write, holds, List.take_left, List.length_singleton, rest, List.append_assoc, List.singleton_append]

/-- A stack that can take the string that is read behind `below` tokens, where
memory is ample. -/
structure TakesString (terms : Terms) (env : Env) (stack : Stack) (below : Nat)
    (expected : Option (List UInt8 × Source)) : Prop where
  count : stack.count < 2 ^ 32
  roomy : terms.ample → env.Roomy
  positive : terms.ample → 0 < stack.maximum
  room : terms.ample → ∃ wanted, expected = some wanted ∧ below + (wanted.1.length + 8) / 16 + 1 ≤ 2 ^ 32 - 4096

theorem TakesString.expand_meets {stack : Stack} {count : Nat} {expected : Option (List UInt8 × Source)}
    (takes : TakesString terms env stack count expected)
    (small : ∀ wanted, expected = some wanted → stack.count ≤ count + (wanted.1.length + 8) / 16) :
    Meets terms (stack.expand env 1) (some ()) fun _ after =>
      TakesString terms env after count expected ∧
        ∃ maximum, after = { stack with maximum := maximum, jitsons := stack.jitsons ++ [.more], allocated := true } := by
  by_cases plenty : terms.ample
  · rcases takes.room plenty with ⟨wanted, isWanted, room⟩
    have few := small wanted isWanted
    rcases stack.expand_ok (takes.roomy plenty) 1 (takes.positive plenty) (by omega) with ⟨maximum, positive, expanded⟩
    refine Or.inl ⟨_, expanded, ⟨?_, takes.roomy, fun _ => positive, takes.room⟩, maximum, rfl⟩
    rw [Stack.count] at few
    simp only [Stack.count, List.length_append, List.length_replicate]
    omega
  · cases result : stack.expand env 1 with
    | error failure => exact Or.inr ⟨plenty, failure, rfl⟩
    | ok after =>
        rcases Stack.expand_cases result with ⟨bound, maximum, rfl⟩
        refine Or.inl ⟨_, rfl, ⟨?_, takes.roomy, fun enough => absurd enough plenty, takes.room⟩, maximum, rfl⟩
        simpa [Stack.count] using bound

/-- The loop over a string keeps to the space that was allocated: eight bytes
in the head, and sixteen in each of the other tokens. -/
theorem loadStringLoop_meets {base : List Token} {fuel space extra : Nat} {source : Source} {stack : Stack}
    {bytes : List UInt8} (takes : TakesString terms env stack base.length (readChars fuel source bytes))
    (allocated : stack.allocated = true) (holds : stack.jitsons = base ++ List.replicate (1 + extra) .more)
    (accounted : 8 + 16 * extra = bytes.length + space) (some : 0 < space) (few : space ≤ 16) :
    Meets terms (stack.loadStringLoop env base.length fuel source bytes space) (readChars fuel source bytes)
      fun wanted result => result.1 = wanted.2 ∧
        Grown terms stack (base ++ stringTokens false wanted.1) stack.last result.2 := by
  induction fuel generalizing source stack bytes space extra with
  | zero => exact Meets.error _ _
  | succ fuel ih =>
      rw [loadStringLoop]
      rw [readChars] at takes ⊢
      by_cases quote : source.peekChar = 34
      · rw [if_pos quote, if_pos quote]
        have tokens : extra = (bytes.length + 8) / 16 := by omega
        rw [Nat.add_comm 1 extra, List.replicate_succ] at holds
        have bound := takes.count
        rw [Stack.count, holds, tokens] at bound
        refine Meets.ok ⟨rfl, ?_, stack.maximum, takes.positive, ?_⟩
        · simpa [stringTokens] using bound
        · rw [write_middle _ holds, tokens, ← allocated]
          rfl
      · rw [if_neg quote] at takes ⊢
        rw [if_neg quote]
        cases read : source.character with
        | none => exact Meets.error _ _
        | some pair =>
            rcases pair with ⟨chars, behind⟩
            rcases character_behind read with ⟨-, -, nonempty, atMost⟩
            rw [read] at takes
            dsimp only [Option.bind_some] at takes ⊢
            split
            · refine Meets.first (takes.expand_meets ?_).onFailure ?_
              · intro wanted isWanted
                have longer := readChars_length isWanted
                rw [List.length_append] at longer
                rw [Stack.count, holds, List.length_append, List.length_replicate]
                omega
              · rintro after ⟨takes', maximum, rfl⟩
                have longer : stack.jitsons ++ [Token.more] = base ++ List.replicate (1 + (extra + 1)) .more := by
                  rw [holds, List.append_assoc, ← Nat.add_assoc, List.replicate_succ']
                refine ih takes' rfl longer ?_ ?_ ?_
                · rw [List.length_append]
                  omega
                · omega
                · omega
            · refine ih takes allocated holds ?_ ?_ ?_
              · rw [List.length_append]
                omega
              · omega
              · omega

theorem loadString_takes {source : Source} {stack : Stack}
    (takes : TakesString terms env stack stack.count (readString source)) :
    Meets terms (stack.loadString env source) (readString source) fun wanted result =>
      result.1 = wanted.2 ∧ Grown terms stack (stack.jitsons ++ stringTokens false wanted.1) stack.last result.2 := by
  simp only [loadString, readString] at takes ⊢
  by_cases quote : source.skipSpace.peekChar = 34
  · rw [if_neg (not_not_intro quote)] at takes ⊢
    rw [if_neg (not_not_intro quote)]
    refine Meets.first (takes.expand_meets fun _ _ => Nat.le_add_right _ _) ?_
    rintro after ⟨takes', maximum, rfl⟩
    exact @loadStringLoop_meets env terms stack.jitsons _ 8 0 _ _ [] takes' rfl rfl rfl (by decide) (by decide)
  · rw [if_pos quote, if_pos quote]
    exact Meets.error _ _

/-- Where the stack has room for all of the source, it has room for a string
that is read from it. -/
theorem loadString_meets {source : Source} {stack : Stack} (fits : Fits terms env stack source) :
    Meets terms (stack.loadString env source) (readString source) fun wanted result =>
      result.1 = wanted.2 ∧ Grown terms stack (stack.jitsons ++ stringTokens false wanted.1) stack.last result.2 := by
  have takes : TakesString ⟨terms.ample ∧ (readString source).isSome, terms.strict⟩ env stack stack.count
    (readString source) := by
    refine ⟨fits.count, fun plenty => fits.roomy plenty.1, fun plenty => fits.positive plenty.1, ?_⟩
    rintro ⟨plenty, isSome⟩
    rcases Option.isSome_iff_exists.mp isSome with ⟨⟨bytes, behind⟩, read⟩
    have room := fits.room plenty
    have shorter := (readString_behind read).2
    refine ⟨_, read, ?_⟩
    dsimp only
    omega
  have meets := loadString_takes takes
  cases read : readString source with
  | none =>
      rw [read] at meets
      exact meets
  | some wanted =>
      rw [read] at meets
      rcases meets with ⟨result, done, same, short, maximum, positive, grown⟩ | ⟨scarce, failed⟩
      · exact Or.inl ⟨result, done, same, short, maximum, fun plenty => positive ⟨plenty, rfl⟩, grown⟩
      · exact Or.inr ⟨fun plenty => scarce ⟨plenty, rfl⟩, failed⟩

/-! ## Elements of arrays -/

theorem agree_concat (test : Block → Block → Bool) (blocks : List Block) (previous block : Block) :
    agree test (blocks ++ [previous] ++ [block]) = (agree test (blocks ++ [previous]) && test previous block) := by
  induction blocks with
  | nil => simp [agree]
  | cons first others ih =>
      cases others with
      | nil => simp [agree]
      | cons second others =>
          simp only [List.cons_append] at ih ⊢
          rw [agree, agree, ih, Bool.and_assoc]

theorem parsedType_concat (ops : FloatOps) (optimize : Bool) (blocks : List Block) (previous block : Block) :
    parsedType ops optimize (blocks ++ [previous] ++ [block]) =
      let type := parsedType ops optimize (blocks ++ [previous])
      if optimize then { type with
        isOrd := type.isOrd && !decide (cmp ops (previous.value block) block.tokens > 0)
        isUnif := type.isUnif && decide (previous.tokens.length - previous.last = block.tokens.length)
        isHomo := type.isHomo && decide (typeOf (previous.value block) = typeOf block.tokens) }
      else type := by
  cases optimize with
  | false => rfl
  | true => simp only [parsedType, agree_concat, Bool.true_and, if_true]

/-- An array, some elements of which are on the stack. -/
def elementTokens (ops : FloatOps) (optimize : Bool) (blocks : List Block) (len : Nat) : List Token :=
  .head (parsedType ops optimize blocks) len .unset :: flatten blocks

/-- The index of the value parsed last, where the array starts at a base. -/
def lastElement (base : Nat) (blocks : List Block) : Nat := base + lastOffset (flatten blocks).length blocks.getLast?

/-- The flags of an array after another element. -/
theorem checkParsed_eq {stack : Stack} {base : List Token} {optimize : Bool} {blocks : List Block} {block : Block}
    (inside : ∀ previous ∈ blocks, previous.last < previous.tokens.length)
    (holds : stack.jitsons = base ++ (elementTokens env.ops optimize blocks blocks.length ++ block.tokens)) :
    (stack.checkParsed env optimize base.length (lastElement base.length blocks)
        (base.length + 1 + (flatten blocks).length)).mapLen base.length (· + 1) =
      { stack with jitsons := base ++ elementTokens env.ops optimize (blocks ++ [block]) (blocks ++ [block]).length } := by
  have head : stack.pointer base.length = elementTokens env.ops optimize blocks blocks.length ++ block.tokens := by
    rw [Stack.pointer, holds, List.drop_left]
  have counted : (blocks ++ [block]).length = blocks.length + 1 := List.length_append
  rcases List.eq_nil_or_concat blocks with rfl | ⟨others, previous, rfl⟩
  · rw [Stack.checkParsed, if_neg]
    · simp only [Stack.mapLen, holds, elementTokens, List.cons_append, Frame.modify_middle]
      simp [flatten, parsedType, agree]
    · rw [head]
      simp [elementTokens]
  · rw [List.concat_eq_append] at *
    have bounds := inside previous (List.mem_append_right _ (List.mem_singleton_self _))
    have length : (flatten (others ++ [previous])).length = (flatten others).length + previous.tokens.length := by
      rw [flatten_append, flatten_single, List.length_append]
    have before : lastElement base.length (others ++ [previous]) =
        base.length + (1 + (flatten others).length + previous.last) := by
      rw [lastElement, length, List.getLast?_concat]
      simp only [lastOffset]
      omega
    have first : stack.pointer (lastElement base.length (others ++ [previous])) = previous.value block := by
      rw [before, Stack.pointer, holds, List.drop_length_add_append, elementTokens, List.cons_append,
        flatten_append, flatten_single, List.append_assoc, Nat.add_assoc, Nat.add_comm 1, List.drop_succ_cons,
        List.drop_length_add_append, List.drop_append_of_le_length (Nat.le_of_lt bounds)]
      rfl
    have second : stack.pointer (base.length + 1 + (flatten (others ++ [previous])).length) = block.tokens := by
      rw [Stack.pointer, holds, Nat.add_assoc, List.drop_length_add_append, elementTokens, List.cons_append,
        Nat.add_comm 1, List.drop_succ_cons, List.drop_left]
    have distance : base.length + 1 + (flatten (others ++ [previous])).length -
        lastElement base.length (others ++ [previous]) = previous.tokens.length - previous.last := by
      rw [before, length]
      omega
    have above : stack.count - (base.length + 1 + (flatten (others ++ [previous])).length) = block.tokens.length := by
      rw [Stack.count, holds, elementTokens, List.length_append, List.length_append, List.length_cons]
      omega
    have several : lenOf (stack.pointer base.length) > 0 := by
      rw [head, elementTokens, List.cons_append, lenOf_head, List.length_append]
      exact Nat.succ_pos _
    cases optimize with
    | false =>
        rw [Stack.checkParsed, if_neg (fun both => Bool.false_ne_true both.1)]
        simp only [Stack.mapLen, holds, elementTokens, List.cons_append, Frame.modify_middle, counted,
          parsedType_concat, flatten_append _ [block], flatten_single]
        rfl
    | true =>
        rw [Stack.checkParsed, if_pos ⟨rfl, several⟩, first, second, distance, above]
        simp only [Stack.mapType, Stack.mapLen, holds, elementTokens, List.cons_append, Frame.modify_middle, counted,
          parsedType_concat, flatten_append _ [block], flatten_single]
        rfl

theorem finishArray_eq {stack : Stack} {base : List Token} {optimize : Bool} {blocks : List Block}
    (holds : stack.jitsons = base ++ elementTokens env.ops optimize blocks blocks.length) :
    stack.finishArray base.length = { stack with jitsons := base ++ (arrayBlock env.ops optimize blocks).tokens } := by
  have above : stack.count - (base.length + 1) = (flatten blocks).length := by
    rw [Stack.count, holds, elementTokens, List.length_append, List.length_cons]
    omega
  rw [Stack.finishArray, above]
  simp only [holds, elementTokens, Frame.modify_middle]
  rfl

/-! ## Members of objects -/

/-- An object, some members of which are on the stack. -/
def objectTokens (members : List (List UInt8 × Block)) : List Token :=
  .head { kind := .object } members.length .unset :: memberTokens members

theorem memberTokens_append (first second : List (List UInt8 × Block)) :
    memberTokens (first ++ second) = memberTokens first ++ memberTokens second := by
  simp [memberTokens]

/-- The index of the value parsed last, where the object starts at a base. -/
def lastMember (base : Nat) (members : List (List UInt8 × Block)) : Nat :=
  base + lastOffset (memberTokens members).length (members.getLast?.map Prod.snd)

/-- The string before the value of a member becomes its name. -/
theorem markMember_eq {stack : Stack} {base : List Token} {members : List (List UInt8 × Block)} {name : List UInt8}
    {block : Block}
    (holds : stack.jitsons = base ++ objectTokens members ++ stringTokens false name ++ block.tokens) :
    (stack.mapLen base.length (· + 1)).mapType (base ++ objectTokens members).length
        (fun type => { type with isKey := true }) =
      { stack with jitsons := base ++ objectTokens (members ++ [(name, block)]) } := by
  have counted : (members ++ [(name, block)]).length = members.length + 1 := List.length_append
  have marked : ∀ (other : Stack) (before : List Token),
      other.jitsons = before ++ stringTokens false name ++ block.tokens →
      other.mapType before.length (fun type => { type with isKey := true }) =
        { other with jitsons := before ++ stringTokens true name ++ block.tokens } := by
    intro other before same
    simp only [Stack.mapType, same, stringTokens, List.append_assoc, List.cons_append, Frame.modify_middle]
  have lengthened : (stack.mapLen base.length (· + 1)).jitsons =
      base ++ .head { kind := .object } (members.length + 1) .unset :: memberTokens members ++
        stringTokens false name ++ block.tokens := by
    simp only [Stack.mapLen, holds, objectTokens, List.append_assoc, List.cons_append, Frame.modify_middle]
  have length : (base ++ objectTokens members).length =
      (base ++ .head { kind := .object } (members.length + 1) .unset :: memberTokens members).length := by
    simp only [objectTokens, List.length_append, List.length_cons]
  rw [length, marked _ _ lengthened]
  simp only [objectTokens, memberTokens_append, counted, memberTokens_cons, List.append_assoc, List.cons_append]
  simp [memberTokens, Stack.mapLen]

theorem finishObject_eq {stack : Stack} {base : List Token} {members : List (List UInt8 × Block)}
    (holds : stack.jitsons = base ++ objectTokens members) :
    stack.finishObject base.length = { stack with jitsons := base ++ (objectBlock members).tokens } := by
  have above : stack.count - base.length = (memberTokens members).length + 1 := by
    rw [Stack.count, holds, objectTokens, List.length_append, List.length_cons]
    omega
  rw [Stack.finishObject, above]
  simp only [holds, objectTokens, Frame.modify_middle]
  rfl

/-! ## Values -/

/-- What parsing a value leaves: its tokens on the stack. -/
def Loaded (terms : Terms) (ops : FloatOps) (optimize : Bool) (stack : Stack) (wanted : Json × Source)
    (result : Source × Stack) : Prop :=
  result.1 = wanted.2 ∧ Grown terms stack (stack.jitsons ++ (encode ops optimize wanted.1).tokens)
    (stack.count + (encode ops optimize wanted.1).last) result.2

def LoadedArray (terms : Terms) (ops : FloatOps) (optimize : Bool) (stack : Stack) (base : List Token)
    (blocks : List Block)
    (wanted : List Json × Source) (result : Source × Stack) : Prop :=
  result.1 = wanted.2 ∧
    Grown terms stack (base ++ (arrayBlock ops optimize (blocks ++ encodeAll ops optimize wanted.1)).tokens)
      (lastElement base.length (blocks ++ encodeAll ops optimize wanted.1)) result.2

def LoadedObject (terms : Terms) (ops : FloatOps) (optimize : Bool) (stack : Stack) (base : List Token)
    (members : List (List UInt8 × Block)) (wanted : List (List UInt8 × Json) × Source)
      (result : Source × Stack) : Prop :=
  result.1 = wanted.2 ∧
    Grown terms stack (base ++ (objectBlock (members ++ encodeMembers ops optimize wanted.1)).tokens)
      (lastMember base.length (members ++ encodeMembers ops optimize wanted.1)) result.2

/-- Values are parsed into their tokens with some fuel. -/
def LoadsValues (terms : Terms) (env : Env) (fuel : Nat) : Prop :=
  ∀ (source : Source) (stack : Stack), Fits terms env stack source →
    Meets terms (stack.loadJson env fuel source) (readValue env.ops fuel source)
      (Loaded terms env.ops source.optimize stack)

def LoadsElements (terms : Terms) (env : Env) (fuel : Nat) : Prop :=
  ∀ (source : Source) (stack : Stack) (base : List Token) (blocks : List Block), Fits terms env stack source →
    (∀ block ∈ blocks, block.last < block.tokens.length) →
    stack.jitsons = base ++ elementTokens env.ops source.optimize blocks blocks.length →
    stack.last = lastElement base.length blocks →
    Meets terms (stack.loadElements env fuel source base.length) (readElements env.ops fuel source)
      (LoadedArray terms env.ops source.optimize stack base blocks)

def LoadsMembers (terms : Terms) (env : Env) (fuel : Nat) : Prop :=
  ∀ (source : Source) (stack : Stack) (base : List Token) (members : List (List UInt8 × Block)) (c : UInt8),
    Fits terms env stack source → stack.jitsons = base ++ objectTokens members →
    Meets terms (stack.loadMembers env fuel source base.length c) (readMembers env.ops fuel source c)
      (LoadedObject terms env.ops source.optimize stack base members)

theorem loadElements_step {fuel : Nat} (values : LoadsValues terms env fuel) (elements : LoadsElements terms env fuel) :
    LoadsElements terms env (fuel + 1) := by
  intro source stack base blocks fits inside holds last
  simp only [loadElements, readElements]
  refine Meets.bind (values source stack fits) ?_
  rintro ⟨element, behind⟩ ⟨behind', after⟩ read ⟨same, short, maximum, positive, grown⟩
  cases same
  dsimp only at short grown ⊢
  rcases (reading_behind source.optimize fuel).1 source element behind read with ⟨later, bound⟩
  have counted : stack.count = base.length + 1 + (flatten blocks).length := by
    rw [Stack.count, holds, elementTokens, List.length_append, List.length_cons]
    omega
  have jitsons : after.jitsons = base ++ (elementTokens env.ops source.optimize blocks blocks.length ++
      (encode env.ops source.optimize element).tokens) := by
    rw [grown, ← List.append_assoc, ← holds]
  rw [later.optimize, last, counted, checkParsed_eq inside jitsons]
  subst grown
  have lastHere : stack.count + (encode env.ops source.optimize element).last =
      lastElement base.length (blocks ++ [encode env.ops source.optimize element]) := by
    rw [counted, lastElement, flatten_append, flatten_single, List.getLast?_concat, List.length_append]
    simp only [lastOffset]
    omega
  have further : ∀ block ∈ blocks ++ [encode env.ops source.optimize element], block.last < block.tokens.length := by
    intro block member
    rcases List.mem_append.mp member with old | new
    · exact inside block old
    · rw [List.mem_singleton.mp new]
      exact encode_last_lt _ _ _
  have tokens : (base ++ elementTokens env.ops source.optimize (blocks ++ [encode env.ops source.optimize element])
      (blocks ++ [encode env.ops source.optimize element]).length).length =
      stack.count + (encode env.ops source.optimize element).tokens.length := by
    rw [counted, elementTokens, flatten_append, flatten_single, List.length_append, List.length_cons,
      List.length_append]
    omega
  by_cases comma : behind.skipSpace.peekChar = 44
  · rw [if_pos comma, if_pos comma]
    have shorter := getNonspace_length comma (by decide)
    have further' := later.trans (Behind.getNonspace behind)
    have optimize := further'.optimize
    dsimp only at optimize
    refine Meets.after (elements _ _ base _ ⟨further'.flags ▸ fits.plain, ?_, fits.roomy, positive, ?_⟩ further
      (by rw [optimize]) lastHere) ?_
    · rw [Stack.count, tokens]
      simpa [Stack.count] using short
    · intro plenty
      have room := fits.room plenty
      rw [Stack.count, tokens]
      omega
    · rintro ⟨others, final⟩ result ⟨sameFinal, finished⟩
      rw [optimize, List.append_assoc] at finished
      exact ⟨_, rfl, sameFinal, finished⟩
  · rw [if_neg comma, if_neg comma]
    by_cases close : behind.skipSpace.peekChar = 93
    · rw [if_pos close, if_pos close]
      refine Meets.ok ⟨rfl, ?_, maximum, positive, ?_⟩
      · rw [List.length_append] at tokens short ⊢
        exact (congrArg (· < 2 ^ 32) tokens).mpr short
      · rw [finishArray_eq rfl, lastHere]
        rfl
    · rw [if_neg close, if_neg close]
      exact Meets.error _ _

theorem loadMembers_step {fuel : Nat} (values : LoadsValues terms env fuel) (members : LoadsMembers terms env fuel) :
    LoadsMembers terms env (fuel + 1) := by
  intro source stack base done c fits holds
  simp only [loadMembers, readMembers]
  by_cases quote : c = 34
  · rw [if_neg (not_not_intro quote), if_neg (not_not_intro quote)]
    refine Meets.bind (loadString_meets fits) ?_
    rintro ⟨name, afterName⟩ ⟨afterName', named⟩ string ⟨same, grown⟩
    cases same
    dsimp only at grown ⊢
    rcases readString_behind string with ⟨toName, nameBound⟩
    by_cases colon : afterName.skipSpace.peekChar = 58
    · rw [if_neg (not_not_intro colon), if_neg (not_not_intro colon)]
      have colonShorter := getNonspace_length colon (by decide)
      have toColon := toName.trans (Behind.getNonspace afterName)
      have namedCount : named.count = stack.count + (1 + (name.length + 8) / 16) := by
        rcases grown with ⟨-, maximum, -, rfl⟩
        rw [Stack.count, List.length_append, stringTokens_length]
        rfl
      have namedFits : Fits terms env named (afterName.skipSpace.consume 1) := by
        refine grown.fits fits toColon ?_
        rw [List.length_append, stringTokens_length, Stack.count]
        omega
      refine Meets.bind (values _ named namedFits) ?_
      rcases grown with ⟨-, maximum, -, grown⟩
      rintro ⟨value, behind⟩ ⟨behind', after⟩ read ⟨same, short, maximum', positive', loaded⟩
      cases same
      dsimp only at short loaded ⊢
      have optimize : (afterName.skipSpace.consume 1).optimize = source.optimize := toColon.optimize
      rw [optimize] at loaded
      rcases (reading_behind source.optimize fuel).1 _ value behind read with ⟨toValue, valueBound⟩
      have jitsons : after.jitsons = base ++ objectTokens done ++ stringTokens false name ++
          (encode env.ops source.optimize value).tokens := by
        rw [loaded, grown, holds]
      have namePlace : stack.count = (base ++ objectTokens done).length := by
        rw [Stack.count, holds]
      rw [namePlace, markMember_eq jitsons]
      have lastHere : named.count + (encode env.ops source.optimize value).last =
          lastMember base.length (done ++ [(name, encode env.ops source.optimize value)]) := by
        rw [namedCount, namePlace, lastMember, memberTokens_append, memberTokens_cons, List.getLast?_concat,
          objectTokens]
        simp only [lastOffset, Option.map_some, List.length_append, List.length_cons, stringTokens_length,
          memberTokens, List.map_nil, List.flatten_nil, List.length_nil]
        omega
      have tokens : (base ++ objectTokens (done ++ [(name, encode env.ops source.optimize value)])).length =
          named.count + (encode env.ops source.optimize value).tokens.length := by
        rw [namedCount, namePlace, objectTokens, objectTokens, memberTokens_append, memberTokens_cons]
        simp only [List.length_append, List.length_cons, stringTokens_length, memberTokens, List.map_nil,
          List.flatten_nil, List.length_nil]
        omega
      have later := toColon.trans toValue
      rw [loaded, lastHere, grown]
      dsimp only
      by_cases comma : behind.skipSpace.peekChar = 44
      · rw [if_pos comma, if_pos comma]
        have shorter := getNonspace_length comma (by decide)
        have spaced := Behind.skipSpace (behind.skipSpace.consume 1)
        have spacedShorter := spaced.length_le
        have further := (later.trans (Behind.getNonspace behind)).trans spaced
        have optimize' := further.optimize
        refine Meets.after (members _ _ base _ _ ⟨further.flags ▸ fits.plain, ?_, fits.roomy, positive', ?_⟩ rfl) ?_
        · rw [Stack.count, tokens]
          simpa [Stack.count, optimize] using short
        · intro plenty
          have room := namedFits.room plenty
          rw [Stack.count, tokens]
          omega
        · rintro ⟨others, final⟩ result ⟨sameFinal, finished⟩
          rw [optimize', List.append_assoc] at finished
          exact ⟨_, rfl, sameFinal, finished⟩
      · rw [if_neg comma, if_neg comma]
        by_cases close : behind.skipSpace.peekChar = 125
        · rw [if_pos close, if_pos close]
          refine Meets.ok ⟨rfl, ?_, maximum', positive', ?_⟩
          · rw [List.length_append] at tokens short ⊢
            exact (congrArg (· < 2 ^ 32) tokens).mpr (optimize ▸ short)
          · rw [finishObject_eq rfl]
            rfl
        · rw [if_neg close, if_neg close]
          exact Meets.error _ _
    · rw [if_pos colon, if_pos colon]
      exact Meets.error _ _
  · rw [if_pos quote, if_pos quote]
    exact Meets.error _ _

/-- Writing a value that takes one token to the place that was allocated for
it. -/
theorem write_grown {stack : Stack} {base : List Token} (positive : terms.ample → 0 < stack.maximum)
    (small : base.length + 1 < 2 ^ 32) (allocated : stack.allocated = true) (holds : stack.jitsons = base ++ [.more])
    (value : Token) :
    Grown terms stack (base ++ [value]) stack.last (stack.write base.length [value]) :=
  ⟨by simpa using small, stack.maximum, positive, by rw [write_middle _ holds, allocated]⟩

theorem loadNumber_meets {source : Source} {stack : Stack} {base : List Token}
    (positive : terms.ample → 0 < stack.maximum)
    (small : base.length + 1 < 2 ^ 32) (allocated : stack.allocated = true) (holds : stack.jitsons = base ++ [.more]) :
    Meets terms (stack.loadNumber env source base.length) (readNumber env.ops source) fun wanted result =>
      result.1 = wanted.2 ∧ Grown terms stack (base ++ (encode env.ops source.optimize wanted.1).tokens)
        (stack.last + (encode env.ops source.optimize wanted.1).last) result.2 := by
  rw [loadNumber, readNumber]
  cases number : source.getNumber with
  | none => exact Meets.error _ _
  | some pair =>
      rcases pair with ⟨isUint, behind⟩
      cases isUint with
      | true => exact Meets.ok ⟨rfl, write_grown positive small allocated holds _⟩
      | false => exact Meets.ok ⟨rfl, write_grown positive small allocated holds _⟩

theorem dupAtIndex_builtin {stack : Stack} {base : List Token} (holds : stack.jitsons = base ++ [.more])
    {name : List UInt8} {value : Token} (isBuiltin : builtin name = some value) :
    stack.dupAtIndex env base.length [value] (size [value]) = .ok (stack.write base.length [value]) := by
  have counted : ¬ base.length + 1 > stack.count := by
    rw [Stack.count, holds, List.length_append, List.length_singleton]
    exact Nat.lt_irrefl _
  have duplicated : ∀ type body, value = .head type 0 body → type.alloced = false → type.isArray = false →
      type.kind ≠ .object → size [value] = 1 → canClone env [value] = true →
      stack.dupAtIndex env base.length [value] (size [value]) = .ok (stack.write base.length [value]) := by
    rintro type body rfl unalloced notArray notObject single cloneable
    have finds := @clonable_of_kind [Token.head type 0 body] notArray notObject env.address
    have same : ({ type with alloced := false } : TypeWord) = type := by rw [← unalloced]
    have cloned : (clone [Token.head type 0 body]).take 1 = [.head type 0 body] := by
      simp [clone, notArray]
    simp only [dupAtIndex, single, finds, not_true, if_false, counted, ok_bind, cloneable, if_true, cloned]
    rw [write_middle _ holds]
    simp only [Stack.mapType, Frame.modify_middle, same]
  rw [builtin] at isBuiltin
  split_ifs at isBuiltin
  · cases isBuiltin
    exact duplicated _ _ rfl rfl rfl (by decide) rfl (by simp [canClone, ownsMemory, boolValue])
  · cases isBuiltin
    exact duplicated _ _ rfl rfl rfl (by decide) rfl (by simp [canClone, ownsMemory, boolValue])
  · cases isBuiltin
    exact duplicated _ _ rfl rfl rfl (by decide) rfl (by simp [canClone, ownsMemory, nullValue])

theorem symbol_builtin (name : List UInt8) :
    (∃ value tree, builtin name = some value ∧ symbol name = some tree ∧
      ∀ ops optimize, encode ops optimize tree = ⟨[value], 0⟩) ∨ (builtin name = none ∧ symbol name = none) := by
  rw [builtin, symbol]
  split_ifs
  · exact Or.inl ⟨_, _, rfl, rfl, fun _ _ => rfl⟩
  · exact Or.inl ⟨_, _, rfl, rfl, fun _ _ => rfl⟩
  · exact Or.inl ⟨_, _, rfl, rfl, fun _ _ => rfl⟩
  · exact Or.inr ⟨rfl, rfl⟩

theorem loadJson_step {fuel : Nat} (elements : LoadsElements terms env fuel) (members : LoadsMembers terms env fuel) :
    LoadsValues terms env (fuel + 1) := by
  intro source stack fits
  have skipped := (Behind.skipSpace source)
  have shorter := skipped.length_le
  have inside := Behind.skipSpace (source.skipSpace.consume 1)
  have insideShorter := inside.length_le
  simp only [loadJson, readValue]
  by_cases ended : source.skipSpace.peekChar = 0
  · rw [if_pos ended, if_pos ended]
    exact Meets.error _ _
  · rw [if_neg ended, if_neg ended]
    have consumed := consume_length rfl ended
    refine Meets.first (expand_meets fits (by omega)) ?_
    rintro after ⟨short, maximum, positive, rfl⟩
    rw [List.length_append, List.length_singleton] at short
    have placed : ∀ (token : Token) (type : TypeWord) (body : Body (List Token)),
        (⟨maximum, stack.jitsons ++ [token], true, stack.opened, stack.count, stack.borrow⟩ : Stack).setHead
            stack.count type body =
          ⟨maximum, stack.jitsons ++ [.head type 0 body], true, stack.opened, stack.count, stack.borrow⟩ := by
      intro token type body
      exact write_middle _ rfl
    have fits' : ∀ type body, Fits terms env
        ⟨maximum, stack.jitsons ++ [.head type 0 body], true, stack.opened, stack.count, stack.borrow⟩
        (source.skipSpace.consume 1).skipSpace := by
      intro type body
      have counted : (stack.jitsons ++ [Token.head type 0 body]).length = stack.count + 1 := List.length_append
      refine ⟨((skipped.trans (Behind.consume _ 1)).trans inside).flags ▸ fits.plain, lt_of_eq_of_lt counted short,
        fits.roomy, positive, ?_⟩
      intro plenty
      have room := fits.room plenty
      rw [Stack.count, counted]
      omega
    have optimize := ((skipped.trans (Behind.consume _ 1)).trans inside).optimize
    cases charClass source.skipSpace.peekChar with
    | quote =>
        dsimp only [Stack.setLast, Stack.count, Stack.truncate]
        rw [List.take_left]
        refine Meets.after (loadString_meets ⟨skipped.flags ▸ fits.plain, fits.count, fits.roomy, positive, ?_⟩) ?_
        · intro plenty
          exact Nat.le_trans (Nat.add_le_add_left shorter _) (fits.room plenty)
        · rintro ⟨bytes, behind⟩ result ⟨same, grown⟩
          exact ⟨_, rfl, same, grown⟩
    | brace =>
        dsimp only [Stack.setLast]
        rw [placed]
        by_cases close : (source.skipSpace.consume 1).skipSpace.peekChar = 125
        · rw [if_pos close, if_pos close, placed]
          exact Meets.ok ⟨rfl, by rw [List.length_append]; exact short, maximum, positive, rfl⟩
        · rw [if_neg close, if_neg close]
          refine Meets.after (members _ _ stack.jitsons [] _ (fits' _ _) rfl).onFailure ?_
          rintro ⟨found, behind⟩ result ⟨same, grown⟩
          rw [optimize] at grown
          exact ⟨_, rfl, same, grown⟩
    | bracket =>
        dsimp only [Stack.setLast]
        rw [placed]
        by_cases close : (source.skipSpace.consume 1).skipSpace.peekChar = 93
        · rw [if_pos close, if_pos close, placed]
          refine Meets.ok ⟨rfl, by rw [List.length_append]; exact short, maximum, positive, ?_⟩
          dsimp only
          rw [show (source.skipSpace.consume 1).optimize = source.optimize from rfl]
          cases source.optimize <;> rfl
        · rw [if_neg close, if_neg close]
          refine Meets.after (elements _ _ stack.jitsons [] (fits' _ _) ?_ ?_ rfl).onFailure ?_
          · intro block member
            cases member
          · rw [optimize, show (source.skipSpace.consume 1).optimize = source.optimize from rfl]
            cases source.optimize <;> rfl
          · rintro ⟨found, behind⟩ result ⟨same, grown⟩
            rw [optimize] at grown
            exact ⟨_, rfl, same, grown⟩
    | number => exact (loadNumber_meets positive short rfl rfl).onFailure
    | letter =>
        have plain : Plain terms env source.toFlags := fits.plain
        dsimp only [readIdentifier]
        rcases symbol_builtin source.skipSpace.getIdentifier.1 with
          ⟨value, tree, isBuiltin, isSymbol, encoded⟩ | ⟨isBuiltin, isSymbol⟩
        · have found := plain.builtin _ _ isBuiltin
          have loaded := @dupAtIndex_builtin env
            ⟨maximum, stack.jitsons ++ [.more], true, stack.opened, stack.count, stack.borrow⟩ stack.jitsons rfl _ _
            isBuiltin
          dsimp only at isSymbol found
          rw [isSymbol, show (source.skipSpace).allowConsts = source.allowConsts from rfl, found]
          dsimp only [Stack.setLast]
          rw [show stack.count = stack.jitsons.length from rfl] at loaded ⊢
          rw [loaded]
          refine Meets.ok ⟨rfl, ?_⟩
          dsimp only
          rw [encoded]
          exact write_grown positive short rfl rfl value
        · dsimp only at isSymbol isBuiltin
          rw [isSymbol]
          intro strict
          rcases plain.strict strict with ⟨noConsts, noIdents⟩
          have missing : constGet env source.skipSpace.allowConsts
            (source.skipSpace.next.takeWhile Source.isIdentifier) =
              none := by
            rw [constGet, show (source.skipSpace).allowConsts = false from noConsts, isBuiltin]
            rfl
          rw [missing]
          dsimp only
          rw [if_neg]
          · exact ⟨_, rfl⟩
          · rintro ⟨-, allowed⟩
            exact Bool.false_ne_true (noIdents.symm.trans allowed)
    | other => exact Meets.error _ _

theorem loading_meets (fuel : Nat) : LoadsValues terms env fuel ∧ LoadsElements terms env fuel ∧
    LoadsMembers terms env fuel := by
  induction fuel with
  | zero =>
      refine ⟨?_, ?_, ?_⟩
      · intro source stack _
        exact Meets.error _ _
      · intro source stack base blocks _ _ _ _
        exact Meets.error _ _
      · intro source stack base members c _ _
        exact Meets.error _ _
  | succ fuel ih =>
      rcases ih with ⟨values, elements, members⟩
      exact ⟨loadJson_step elements members, loadElements_step values elements, loadMembers_step values members⟩

/-- `sxe_jitson_stack_load_json` fails on what cannot be read.  It pushes the
tokens of the tree that is read, unless memory is short. -/
theorem load_meets {source : Source} {stack : Stack} (fits : Fits terms env stack source) :
    Meets terms (stack.load env source) (read env.ops source) (Loaded terms env.ops source.optimize stack) :=
  (loading_meets _).1 source stack fits

end

end Jitson
end LibKit
