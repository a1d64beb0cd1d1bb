import LibKit.Jitson.Parser
import LibKit.Jitson.Tree

namespace LibKit
namespace Jitson

open Stack (charClass)

/-!
# What the parser reads

The parser without its stack: the tree that it reads from a source, and the
source behind it.
-/

/-- The bytes of a string after its first quote. -/
def readChars : Nat → Source → List UInt8 → Option (List UInt8 × Source)
  | 0, _, _ => none
  | fuel + 1, source, bytes =>
      if source.peekChar = 34 then some (bytes, source.consume 1)
      else source.character.bind fun (chars, source) => readChars fuel source (bytes ++ chars)

def readString (source : Source) : Option (List UInt8 × Source) :=
  let (c, source) := source.getNonspace
  if c ≠ 34 then none else readChars (source.next.length + 1) source []

def readNumber (ops : FloatOps) (source : Source) : Option (Json × Source) :=
  source.getNumber.map fun (isUint, behind) =>
    if isUint then
      let (value, _) := Source.strtoul source.memory source.allowHex
      (.uint value, behind)
    else
      let (bits, _) := ops.strtod source.memory
      (.number bits, behind)

def symbol (name : List UInt8) : Option Json :=
  if name = [116, 114, 117, 101] then some (.bool true)
  else if name = [102, 97, 108, 115, 101] then some (.bool false)
  else if name = [110, 117, 108, 108] then some .null
  else none

def readIdentifier (source : Source) : Option (Json × Source) :=
  (symbol source.getIdentifier.1).map fun tree => (tree, source.getIdentifier.2)

mutual

def readValue (ops : FloatOps) : Nat → Source → Option (Json × Source)
  | 0, _ => none
  | fuel + 1, source =>
      let (c, source) := source.peekNonspace
      if c = 0 then none
      else
        match charClass c with
        | .quote => (readString source).bind fun (bytes, source) => some (.string bytes, source)
        | .brace =>
            let source := source.consume 1
            let (c, source) := source.peekNonspace
            if c = 125 then some (.object [], source.consume 1)
            else (readMembers ops fuel source c).bind fun (members, source) => some (.object members, source)
        | .bracket =>
            let source := source.consume 1
            let (c, source) := source.peekNonspace
            if c = 93 then some (.array [], source.consume 1)
            else (readElements ops fuel source).bind fun (elements, source) => some (.array elements, source)
        | .number => readNumber ops source
        | .letter => readIdentifier source
        | .other => none

def readMembers (ops : FloatOps) : Nat → Source → UInt8 → Option (List (List UInt8 × Json) × Source)
  | 0, _, _ => none
  | fuel + 1, source, c =>
      if c ≠ 34 then none
      else
        (readString source).bind fun (name, source) =>
          let (c, source) := source.getNonspace
          if c ≠ 58 then none
          else
            (readValue ops fuel source).bind fun (value, source) =>
              let (c, source) := source.getNonspace
              if c = 44 then
                let (c, source) := source.peekNonspace
                (readMembers ops fuel source c).bind fun (members, source) => some ((name, value) :: members, source)
              else if c = 125 then some ([(name, value)], source)
              else none

def readElements (ops : FloatOps) : Nat → Source → Option (List Json × Source)
  | 0, _ => none
  | fuel + 1, source =>
      (readValue ops fuel source).bind fun (element, source) =>
        let (c, source) := source.getNonspace
        if c = 44 then
          (readElements ops fuel source).bind fun (elements, source) => some (element :: elements, source)
        else if c = 93 then some ([element], source)
        else none

end

/-- What `sxe_jitson_stack_load_json` reads. -/
def read (ops : FloatOps) (source : Source) : Option (Json × Source) :=
  readValue ops (2 * source.next.length + 2) source

/-! ## What is read is behind -/

structure Behind (source behind : Source) : Prop where
  suffix : behind.next.IsSuffix source.next
  beyond : behind.beyond = source.beyond
  flags : behind.toFlags = source.toFlags

namespace Behind

variable {source middle behind : Source}

theorem refl (source : Source) : Behind source source := ⟨List.suffix_refl _, rfl, rfl⟩

theorem trans (first : Behind source middle) (second : Behind middle behind) : Behind source behind :=
  ⟨second.suffix.trans first.suffix, second.beyond.trans first.beyond, second.flags.trans first.flags⟩

theorem optimize (later : Behind source behind) : behind.optimize = source.optimize :=
  congrArg Flags.optimize later.flags

theorem length_le (later : Behind source behind) : behind.next.length ≤ source.next.length :=
  later.suffix.length_le

theorem consume (source : Source) (size : Nat) : Behind source (source.consume size) :=
  ⟨List.drop_suffix _ _, rfl, rfl⟩

theorem skipSpace (source : Source) : Behind source source.skipSpace :=
  ⟨List.dropWhile_suffix _, rfl, rfl⟩

theorem getNonspace (source : Source) : Behind source source.getNonspace.2 :=
  (skipSpace source).trans (consume _ 1)

end Behind

section

variable {source behind : Source}

/-- A character that is not NUL takes a byte. -/
theorem consume_length {c : UInt8} (is : source.peekChar = c) (nonzero : c ≠ 0) :
    (source.consume 1).next.length + 1 = source.next.length := by
  rcases source with ⟨flags, next, beyond⟩
  cases next with
  | nil => exact absurd is.symm nonzero
  | cons byte next => simp [Source.consume]

theorem getNonspace_length {c : UInt8} (is : source.skipSpace.peekChar = c) (nonzero : c ≠ 0) :
    (source.skipSpace.consume 1).next.length + 1 ≤ source.next.length := by
  have consumed := @consume_length source.skipSpace c is nonzero
  have skipped := (Behind.skipSpace source).length_le
  exact Nat.le_trans (Nat.le_of_eq consumed) skipped

theorem hexDigits_behind {count unicode value : Nat}
    (read : Source.hexDigits count unicode source = some (value, behind)) :
    Behind source behind ∧ behind.next.length + count ≤ source.next.length := by
  induction count generalizing unicode source with
  | zero =>
      cases read
      exact ⟨Behind.refl _, Nat.le_refl _⟩
  | succ count ih =>
      simp only [Source.hexDigits] at read
      by_cases digit : Source.isXDigit source.peekChar = true
      · rw [if_pos digit] at read
        have nonzero : source.peekChar ≠ 0 := by
          intro zero
          rw [zero] at digit
          exact absurd digit (by decide)
        rcases ih read with ⟨later, shorter⟩
        have consumed := consume_length rfl nonzero
        exact ⟨(Behind.consume source 1).trans later, by omega⟩
      · rw [if_neg digit] at read
        cases read

theorem toUtf8_length_le {unicode : Nat} (small : unicode < 2 ^ 16) : (Source.toUtf8 unicode).length ≤ 3 := by
  rw [Source.toUtf8]
  split
  · exact Nat.le_add_left 1 2
  · split
    · exact Nat.le_add_left 2 1
    · split
      · exact Nat.le_refl 3
      · omega

theorem toUtf8_length_pos {unicode : Nat} (small : unicode < 2 ^ 16) : 0 < (Source.toUtf8 unicode).length := by
  rw [Source.toUtf8]
  split
  · exact Nat.succ_pos _
  · split
    · exact Nat.succ_pos _
    · split
      · exact Nat.succ_pos _
      · omega

theorem digitValue_lt {byte : UInt8} (digit : Source.isXDigit byte = true) : Source.digitValue byte < 16 := by
  have bounds : byte.toNat ≤ 57 ∧ 48 ≤ byte.toNat ∨ (65 ≤ byte.toNat ∧ byte.toNat ≤ 70) ∨
      (97 ≤ byte.toNat ∧ byte.toNat ≤ 102) := by
    simp only [Source.isXDigit, Source.isDigit, UInt8.le_iff_toNat_le, decide_eq_true_eq] at digit
    simpa [and_comm] using digit
  simp only [Source.digitValue, Source.isDigit, UInt8.le_iff_toNat_le, decide_eq_true_eq, UInt8.reduceToNat]
  split
  · omega
  · split <;> omega

theorem hexDigits_lt {count unicode value : Nat} (read : Source.hexDigits count unicode source = some (value, behind)) :
    value < (unicode + 1) * 16 ^ count := by
  induction count generalizing unicode source with
  | zero =>
      cases read
      omega
  | succ count ih =>
      simp only [Source.hexDigits] at read
      by_cases digit : Source.isXDigit source.peekChar = true
      · rw [if_pos digit] at read
        have small := digitValue_lt digit
        have below := ih read
        calc value < (unicode * 16 + Source.digitValue source.peekChar + 1) * 16 ^ count := below
          _ ≤ ((unicode + 1) * 16) * 16 ^ count := Nat.mul_le_mul_right _ (by omega)
          _ = (unicode + 1) * 16 ^ (count + 1) := by rw [Nat.pow_succ, Nat.mul_assoc, Nat.mul_comm 16]
      · rw [if_neg digit] at read
        cases read

/-- The bytes for an escape sequence are not more than it takes in the source,
and at least one. -/
theorem escape_behind {chars : List UInt8} (read : source.escape = some (chars, behind)) :
    Behind source behind ∧ behind.next.length + chars.length ≤ source.next.length + 1 ∧ 0 < chars.length ∧
      chars.length ≤ 3 := by
  have next := Behind.consume source 1
  have shorter := next.length_le
  have single : ∀ {byte : UInt8}, some ([byte], source.consume 1) = some (chars, behind) →
      Behind source behind ∧ behind.next.length + chars.length ≤ source.next.length + 1 ∧ 0 < chars.length ∧
        chars.length ≤ 3 := by
    intro byte same
    cases same
    exact ⟨next, by rw [List.length_singleton]; omega, Nat.one_pos, Nat.le_add_left 1 2⟩
  simp only [Source.escape] at read
  split_ifs at read with quote b f n r t u
  any_goals exact single read
  rcases Option.map_eq_some_iff.mp read with ⟨⟨unicode, after⟩, digits, same⟩
  cases same
  rcases hexDigits_behind digits with ⟨further, room⟩
  have small : unicode < 2 ^ 16 := by simpa using hexDigits_lt digits
  have few := toUtf8_length_le small
  dsimp only
  exact ⟨next.trans further, by omega, toUtf8_length_pos small, few⟩

/-- The bytes of a character of a string are not more than it takes in the
source, and at least one. -/
theorem character_behind {chars : List UInt8} (read : source.character = some (chars, behind)) :
    Behind source behind ∧ behind.next.length + chars.length ≤ source.next.length ∧ 0 < chars.length ∧
      chars.length ≤ 3 := by
  have later := Behind.consume source 1
  simp only [Source.character] at read
  split_ifs at read with zero backslash
  · have consumed := consume_length rfl zero
    rcases escape_behind read with ⟨further, room, positive, few⟩
    exact ⟨later.trans further, by omega, positive, few⟩
  · have consumed := consume_length rfl zero
    cases read
    exact ⟨later, by rw [List.length_singleton]; omega, Nat.one_pos, Nat.le_add_left 1 2⟩

theorem readChars_behind {fuel : Nat} {bytes result : List UInt8}
    (read : readChars fuel source bytes = some (result, behind)) :
    Behind source behind ∧ behind.next.length + result.length + 1 ≤ source.next.length + bytes.length := by
  induction fuel generalizing source bytes with
  | zero => cases read
  | succ fuel ih =>
      rw [readChars] at read
      split at read
      · rename_i quote
        cases read
        have consumed := consume_length quote (by decide)
        exact ⟨Behind.consume source 1, by omega⟩
      · rcases Option.bind_eq_some_iff.mp read with ⟨⟨chars, next⟩, character, rest⟩
        rcases character_behind character with ⟨later, shorter, _⟩
        rcases ih rest with ⟨further, room⟩
        rw [List.length_append] at room
        exact ⟨later.trans further, by omega⟩

theorem readChars_length {fuel : Nat} {bytes : List UInt8} {wanted : List UInt8 × Source}
    (read : readChars fuel source bytes = some wanted) : bytes.length ≤ wanted.1.length := by
  induction fuel generalizing source bytes with
  | zero => cases read
  | succ fuel ih =>
      rw [readChars] at read
      split at read
      · cases read
        exact Nat.le_refl _
      · rcases Option.bind_eq_some_iff.mp read with ⟨⟨chars, next⟩, -, rest⟩
        have longer := ih rest
        rw [List.length_append] at longer
        omega

theorem readString_behind {bytes : List UInt8} (read : readString source = some (bytes, behind)) :
    Behind source behind ∧ behind.next.length + bytes.length + 2 ≤ source.next.length := by
  simp only [readString] at read
  split at read
  · cases read
  · rename_i quote
    rcases readChars_behind read with ⟨later, room⟩
    have first := getNonspace_length (Decidable.not_not.mp quote) (by decide)
    rw [List.length_nil] at room
    exact ⟨(Behind.getNonspace source).trans later, by omega⟩

theorem stringTokens_length (isKey : Bool) (bytes : List UInt8) :
    (stringTokens isKey bytes).length = 1 + (bytes.length + 8) / 16 := by
  simp [stringTokens, Nat.add_comm]

theorem Behind.skipDigits (source : Source) : Behind source source.skipDigits :=
  ⟨List.dropWhile_suffix _, rfl, rfl⟩

theorem someDigits_behind (read : source.someDigits = some behind) : Behind source behind := by
  rw [Source.someDigits] at read
  split at read
  · cases read
    exact (Behind.consume source 1).trans (Behind.skipDigits _)
  · cases read

theorem fraction_behind {none : Bool} (read : source.fraction = some (none, behind)) : Behind source behind := by
  rw [Source.fraction] at read
  split at read
  · rcases Option.map_eq_some_iff.mp read with ⟨after, digits, same⟩
    cases same
    exact (Behind.consume source 1).trans (someDigits_behind digits)
  · cases read
    exact Behind.refl source

theorem exponent_behind {none : Bool} (read : source.exponent = some (none, behind)) : Behind source behind := by
  rw [Source.exponent] at read
  split at read
  · rcases Option.map_eq_some_iff.mp read with ⟨after, digits, same⟩
    cases same
    refine ((Behind.consume source 1).trans ?_).trans (someDigits_behind digits)
    split
    · exact Behind.consume _ 1
    · exact Behind.refl _
  · cases read
    exact Behind.refl source

theorem hexadecimal_behind (read : source.hexadecimal = some behind) :
    Behind source behind ∧ behind.next.length + 1 ≤ source.next.length := by
  simp only [Source.hexadecimal] at read
  split at read
  · cases read
  · rename_i digits
    cases read
    refine ⟨⟨(List.dropWhile_suffix _).trans (List.drop_suffix _ _), rfl, rfl⟩, ?_⟩
    dsimp only
    omega

theorem getNumber_behind {isUint : Bool} (read : source.getNumber = some (isUint, behind)) :
    Behind source behind ∧ behind.next.length + 1 ≤ source.next.length := by
  have unsigned : Behind source source.afterMinus := by
    rw [Source.afterMinus]
    split
    · exact Behind.consume source 1
    · exact Behind.refl source
  rw [Source.getNumber] at read
  split_ifs at read with digit hex
  · rcases Option.map_eq_some_iff.mp read with ⟨after, digits, same⟩
    cases same
    exact hexadecimal_behind digits
  · rcases Option.bind_eq_some_iff.mp read with ⟨⟨noFraction, middle⟩, isFraction, rest⟩
    rcases Option.map_eq_some_iff.mp rest with ⟨⟨noExponent, after⟩, isExponent, same⟩
    cases same
    have nonzero : source.afterMinus.peekChar ≠ 0 := by
      intro zero
      rw [zero] at digit
      exact absurd digit (by decide)
    have consumed := consume_length rfl nonzero
    have later := (Behind.skipDigits _).trans ((fraction_behind isFraction).trans (exponent_behind isExponent))
    have shorter := later.length_le
    have before := unsigned.length_le
    exact ⟨(unsigned.trans (Behind.consume _ 1)).trans later, by omega⟩

variable {ops : FloatOps}

theorem readNumber_behind {tree : Json} (read : readNumber ops source = some (tree, behind)) (optimize : Bool) :
    Behind source behind ∧
      behind.next.length + (encode ops optimize tree).tokens.length ≤ source.next.length := by
  rcases Option.map_eq_some_iff.mp read with ⟨⟨isUint, after⟩, number, same⟩
  have behindIt := getNumber_behind number
  cases isUint with
  | true =>
      cases same
      exact behindIt
  | false =>
      cases same
      exact behindIt

theorem readIdentifier_behind {tree : Json} (read : readIdentifier source = some (tree, behind)) (optimize : Bool) :
    Behind source behind ∧
      behind.next.length + (encode ops optimize tree).tokens.length ≤ source.next.length := by
  rcases Option.map_eq_some_iff.mp read with ⟨value, isSymbol, same⟩
  cases same
  refine ⟨⟨List.dropWhile_suffix _, rfl, rfl⟩, ?_⟩
  have parts := congrArg List.length (List.takeWhile_append_dropWhile (p := Source.isIdentifier) (l := source.next))
  rw [List.length_append] at parts
  change source.getIdentifier.1.length + source.getIdentifier.2.next.length = source.next.length at parts
  rw [symbol] at isSymbol
  split_ifs at isSymbol with isTrue isFalse isNull
  · cases isSymbol
    rw [isTrue] at parts
    simp only [encode, List.length_cons, List.length_nil] at parts ⊢
    omega
  · cases isSymbol
    rw [isFalse] at parts
    simp only [encode, List.length_cons, List.length_nil] at parts ⊢
    omega
  · cases isSymbol
    rw [isNull] at parts
    simp only [encode, List.length_cons, List.length_nil] at parts ⊢
    omega

theorem encode_array_length (optimize : Bool) (elements : List Json) :
    (encode ops optimize (.array elements)).tokens.length =
    (flatten (encodeAll ops optimize elements)).length + 1 := rfl

theorem encode_object_length (optimize : Bool) (members : List (List UInt8 × Json)) :
    (encode ops optimize (.object members)).tokens.length =
      (memberTokens (encodeMembers ops optimize members)).length + 1 := rfl

theorem flatten_cons (block : Block) (blocks : List Block) :
    flatten (block :: blocks) = block.tokens ++ flatten blocks :=
  rfl

theorem memberTokens_cons (member : List UInt8 × Block) (members : List (List UInt8 × Block)) :
    memberTokens (member :: members) = stringTokens true member.1 ++ member.2.tokens ++ memberTokens members := rfl

/-- The tokens of what is read are not more than the bytes it takes. -/
theorem reading_behind (optimize : Bool) (fuel : Nat) :
    (∀ source tree behind, readValue ops fuel source = some (tree, behind) → Behind source behind ∧
      behind.next.length + (encode ops optimize tree).tokens.length ≤ source.next.length) ∧
    (∀ source c members behind, readMembers ops fuel source c = some (members, behind) → Behind source behind ∧
      behind.next.length + (memberTokens (encodeMembers ops optimize members)).length + 1 ≤ source.next.length) ∧
    (∀ source elements behind, readElements ops fuel source = some (elements, behind) → Behind source behind ∧
      behind.next.length + (flatten (encodeAll ops optimize elements)).length + 1 ≤ source.next.length) := by
  induction fuel with
  | zero =>
      refine ⟨?_, ?_, ?_⟩
      · intro source tree behind read
        cases read
      · intro source c members behind read
        cases read
      · intro source elements behind read
        cases read
  | succ fuel ih =>
      rcases ih with ⟨values, memberLists, elementLists⟩
      refine ⟨?_, ?_, ?_⟩
      · intro source tree behind read
        have skipped := Behind.skipSpace source
        have shorter := skipped.length_le
        simp only [readValue] at read
        split at read
        · cases read
        · rename_i nonzero
          have consumed := consume_length rfl nonzero
          have opened := Behind.consume source.skipSpace 1
          have inside := Behind.skipSpace (source.skipSpace.consume 1)
          have insideShorter := inside.length_le
          split at read
          · rcases Option.bind_eq_some_iff.mp read with ⟨⟨bytes, after⟩, string, same⟩
            cases same
            rcases readString_behind string with ⟨later, room⟩
            refine ⟨skipped.trans later, ?_⟩
            simp only [encode, stringTokens_length]
            omega
          · split at read
            · rename_i close
              cases read
              have closed := consume_length close (by decide)
              refine ⟨((skipped.trans opened).trans inside).trans (Behind.consume _ 1), ?_⟩
              rw [encode_object_length]
              simp only [encodeMembers, memberTokens, List.map_nil, List.flatten_nil, List.length_nil]
              omega
            · rcases Option.bind_eq_some_iff.mp read with ⟨⟨members, after⟩, isMembers, same⟩
              cases same
              rcases memberLists _ _ _ _ isMembers with ⟨later, room⟩
              refine ⟨((skipped.trans opened).trans inside).trans later, ?_⟩
              rw [encode_object_length]
              dsimp only
              omega
          · split at read
            · rename_i close
              cases read
              have closed := consume_length close (by decide)
              refine ⟨((skipped.trans opened).trans inside).trans (Behind.consume _ 1), ?_⟩
              rw [encode_array_length]
              simp only [encodeAll, flatten, List.map_nil, List.flatten_nil, List.length_nil]
              omega
            · rcases Option.bind_eq_some_iff.mp read with ⟨⟨elements, after⟩, isElements, same⟩
              cases same
              rcases elementLists _ _ _ isElements with ⟨later, room⟩
              refine ⟨((skipped.trans opened).trans inside).trans later, ?_⟩
              rw [encode_array_length]
              dsimp only
              omega
          · rcases readNumber_behind read optimize with ⟨later, room⟩
            exact ⟨skipped.trans later, by omega⟩
          · rcases @readIdentifier_behind _ _ ops _ read optimize with ⟨later, room⟩
            exact ⟨skipped.trans later, by omega⟩
          · cases read
      · intro source c members behind read
        simp only [readMembers] at read
        split at read
        · cases read
        · rcases Option.bind_eq_some_iff.mp read with ⟨⟨name, afterName⟩, string, rest⟩
          rcases readString_behind string with ⟨toName, nameRoom⟩
          dsimp only at rest
          split at rest
          · cases rest
          · rename_i colon
            have colonRoom := getNonspace_length (Decidable.not_not.mp colon) (by decide)
            have toColon := Behind.getNonspace afterName
            rcases Option.bind_eq_some_iff.mp rest with ⟨⟨value, afterValue⟩, isValue, rest⟩
            rcases values _ _ _ isValue with ⟨toValue, valueRoom⟩
            have soFar := (toName.trans toColon).trans toValue
            have toNext := Behind.getNonspace afterValue
            dsimp only at rest
            split at rest
            · rename_i comma
              have commaRoom := getNonspace_length comma (by decide)
              have spaced := Behind.skipSpace (afterValue.skipSpace.consume 1)
              have spacedShorter := spaced.length_le
              rcases Option.bind_eq_some_iff.mp rest with ⟨⟨others, after⟩, isOthers, same⟩
              cases same
              rcases memberLists _ _ _ _ isOthers with ⟨toRest, restRoom⟩
              refine ⟨((soFar.trans toNext).trans spaced).trans toRest, ?_⟩
              rw [encodeMembers, memberTokens_cons, List.length_append, List.length_append, stringTokens_length]
              dsimp only
              omega
            · split at rest
              · rename_i close
                have closeRoom := getNonspace_length close (by decide)
                cases rest
                refine ⟨soFar.trans toNext, ?_⟩
                rw [encodeMembers, memberTokens_cons, List.length_append, List.length_append, stringTokens_length]
                simp only [encodeMembers, memberTokens, List.map_nil, List.flatten_nil, List.length_nil]
                omega
              · cases rest
      · intro source elements behind read
        simp only [readElements] at read
        rcases Option.bind_eq_some_iff.mp read with ⟨⟨element, afterElement⟩, isElement, rest⟩
        rcases values _ _ _ isElement with ⟨toElement, elementRoom⟩
        have toNext := Behind.getNonspace afterElement
        dsimp only at rest
        split at rest
        · rename_i comma
          have commaRoom := getNonspace_length comma (by decide)
          rcases Option.bind_eq_some_iff.mp rest with ⟨⟨others, after⟩, isOthers, same⟩
          cases same
          rcases elementLists _ _ _ isOthers with ⟨toRest, restRoom⟩
          refine ⟨(toElement.trans toNext).trans toRest, ?_⟩
          rw [encodeAll, flatten_cons, List.length_append]
          dsimp only
          omega
        · split at rest
          · rename_i close
            have closeRoom := getNonspace_length close (by decide)
            cases rest
            refine ⟨toElement.trans toNext, ?_⟩
            rw [encodeAll, flatten_cons, List.length_append]
            simp only [encodeAll, flatten, List.map_nil, List.flatten_nil, List.length_nil]
            omega
          · cases rest

end

end Jitson
end LibKit
