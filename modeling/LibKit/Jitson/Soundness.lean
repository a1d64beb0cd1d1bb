import LibKit.Jitson.Grammar

namespace LibKit
namespace Jitson

open Stack (charClass)

/-!
# What the strict parser accepts

Each text that is read is a text of the dialect `Dialect.parsed`.
-/

/-! ## Characters -/

section

variable {source behind : Source}

theorem peekChar_next {c : UInt8} (is : source.peekChar = c) (nonzero : c ≠ 0) :
    source.next = c :: (source.consume 1).next := by
  rcases source with ⟨flags, next, beyond⟩
  cases next with
  | nil => exact absurd is.symm nonzero
  | cons byte next => exact congrArg (· :: next) is

theorem skipSpace_next (source : Source) :
    ∃ spaces, Dialect.parsed.Spaces spaces ∧ source.next = spaces ++ source.skipSpace.next :=
  ⟨source.next.takeWhile Source.isSpace, fun _ member => List.mem_takeWhile_imp member,
    List.takeWhile_append_dropWhile.symm⟩

theorem hexDigits_next {count unicode value : Nat}
    (read : Source.hexDigits count unicode source = some (value, behind)) :
    ∃ digits, source.next = digits ++ behind.next ∧ digits.length = count ∧
      (∀ byte ∈ digits, Source.isXDigit byte = true) ∧
      value = digits.foldl (fun value byte => value * 16 + Source.digitValue byte) unicode := by
  induction count generalizing unicode source with
  | zero =>
      cases read
      exact ⟨[], rfl, rfl, fun _ => nofun, rfl⟩
  | succ count ih =>
      simp only [Source.hexDigits] at read
      by_cases digit : Source.isXDigit source.peekChar = true
      · rw [if_pos digit] at read
        have nonzero : source.peekChar ≠ 0 := by
          intro zero
          rw [zero] at digit
          exact absurd digit (by decide)
        rcases ih read with ⟨digits, next, length, areDigits, isValue⟩
        refine ⟨source.peekChar :: digits, ?_, congrArg Nat.succ length, ?_, isValue⟩
        · rw [peekChar_next rfl nonzero, next]
          rfl
        · intro byte member
          rcases List.mem_cons.mp member with rfl | later
          · exact digit
          · exact areDigits byte later
      · rw [if_neg digit] at read
        cases read

theorem escape_next {chars : List UInt8} (read : source.escape = some (chars, behind)) :
    ∃ text, source.next = text ++ behind.next ∧ Escape .parsed (92 :: text) chars := by
  have single : ∀ {c value : UInt8}, source.peekChar = c → c ≠ 0 →
    some ([value], source.consume 1) = some (chars, behind) →
      Escape .parsed [92, c] [value] → ∃ text, source.next = text ++ behind.next ∧
        Escape .parsed (92 :: text) chars := by
    intro c value is nonzero same isEscape
    cases same
    exact ⟨[c], peekChar_next is nonzero, isEscape⟩
  simp only [Source.escape] at read
  split_ifs at read with itself b f n r t u
  · refine single rfl ?_ read (.itself itself)
    rcases itself with is | is | is
    · rw [is]
      decide
    · rw [is]
      decide
    · rw [is]
      decide
  · exact single b (by decide) read .backspace
  · exact single f (by decide) read .formFeed
  · exact single n (by decide) read .lineFeed
  · exact single r (by decide) read .carriageReturn
  · exact single t (by decide) read .tab
  · rcases Option.map_eq_some_iff.mp read with ⟨⟨unicode, after⟩, digits, same⟩
    cases same
    rcases hexDigits_next digits with ⟨text, next, length, areDigits, isValue⟩
    refine ⟨117 :: text, ?_, ?_⟩
    · rw [peekChar_next u (by decide), next]
      rfl
    · rw [isValue]
      exact .unicode length areDigits rfl

theorem readChars_next {fuel : Nat} {bytes result : List UInt8}
    (read : readChars fuel source bytes = some (result, behind)) :
    ∃ text chars, source.next = text ++ 34 :: behind.next ∧ Chars .parsed text chars := by
  induction fuel generalizing source bytes with
  | zero => cases read
  | succ fuel ih =>
      rw [readChars] at read
      by_cases quote : source.peekChar = 34
      · rw [if_pos quote] at read
        cases read
        exact ⟨[], [], peekChar_next quote (by decide), .nil⟩
      · rw [if_neg quote] at read
        rcases Option.bind_eq_some_iff.mp read with ⟨⟨chars, after⟩, character, rest⟩
        rcases ih rest with ⟨text, others, next, areChars⟩
        simp only [Source.character] at character
        split_ifs at character with zero backslash
        · rcases escape_next character with ⟨escape, escapeNext, isEscape⟩
          refine ⟨(92 :: escape) ++ text, chars ++ others, ?_, .escape isEscape areChars⟩
          rw [peekChar_next backslash (by decide), escapeNext, next]
          simp
        · cases character
          refine ⟨[source.peekChar] ++ text, [source.peekChar] ++ others, ?_,
            .unit ⟨source.peekChar, rfl, zero, quote, backslash⟩ areChars⟩
          rw [peekChar_next rfl zero, next]
          rfl

theorem readString_next {bytes : List UInt8} (read : readString source = some (bytes, behind)) :
    ∃ spaces text chars, source.next = spaces ++ quoted text ++ behind.next ∧ Dialect.parsed.Spaces spaces ∧
      Chars .parsed text chars := by
  simp only [readString] at read
  by_cases quote : source.skipSpace.peekChar = 34
  · rw [if_neg (not_not.mpr quote)] at read
    rcases readChars_next read with ⟨text, chars, next, areChars⟩
    rcases skipSpace_next source with ⟨spaces, areSpaces, spacesNext⟩
    refine ⟨spaces, text, chars, ?_, areSpaces, areChars⟩
    rw [spacesNext, peekChar_next quote (by decide), next, quoted]
    simp
  · rw [if_pos quote] at read
    cases read

/-! ## Numbers -/

theorem skipDigits_next (source : Source) :
    ∃ digits, (∀ byte ∈ digits, Source.isDigit byte = true) ∧ source.next = digits ++ source.skipDigits.next :=
  ⟨source.next.takeWhile Source.isDigit, fun _ member => List.mem_takeWhile_imp member,
    List.takeWhile_append_dropWhile.symm⟩

theorem isDigit_nonzero {byte : UInt8} (digit : Source.isDigit byte = true) : byte ≠ 0 := by
  rintro rfl
  exact absurd digit (by decide)

theorem digits_next (digit : Source.isDigit source.peekChar = true) :
    ∃ digits, Digits digits ∧ source.next = digits ++ (source.consume 1).skipDigits.next := by
  rcases skipDigits_next (source.consume 1) with ⟨digits, areDigits, next⟩
  refine ⟨source.peekChar :: digits, ⟨List.cons_ne_nil _ _, ?_⟩, ?_⟩
  · intro byte member
    rcases List.mem_cons.mp member with rfl | later
    · exact digit
    · exact areDigits byte later
  · rw [peekChar_next rfl (isDigit_nonzero digit), next]
    rfl

theorem someDigits_next (read : source.someDigits = some behind) :
    ∃ digits, Digits digits ∧ source.next = digits ++ behind.next := by
  rw [Source.someDigits] at read
  split_ifs at read with digit
  cases read
  exact digits_next digit

theorem fraction_next {none : Bool} (read : source.fraction = some (none, behind)) :
    ∃ text, Fraction text ∧ source.next = text ++ behind.next ∧ (none = true ↔ text = []) := by
  rw [Source.fraction] at read
  split_ifs at read with point
  · rcases Option.map_eq_some_iff.mp read with ⟨after, digits, same⟩
    cases same
    rcases someDigits_next digits with ⟨digits, areDigits, next⟩
    refine ⟨46 :: digits, Or.inr ⟨digits, areDigits, rfl⟩, ?_, ?_⟩
    · rw [peekChar_next point (by decide), next]
      rfl
    · exact iff_of_false Bool.false_ne_true (List.cons_ne_nil _ _)
  · cases read
    exact ⟨[], Or.inl rfl, rfl, iff_of_true rfl rfl⟩

theorem exponent_next {none : Bool} (read : source.exponent = some (none, behind)) :
    ∃ text, Exponent text ∧ source.next = text ++ behind.next ∧ (none = true ↔ text = []) := by
  rw [Source.exponent] at read
  split_ifs at read with letter
  · rcases Option.map_eq_some_iff.mp read with ⟨after, digits, same⟩
    cases same
    have nonzero : source.peekChar ≠ 0 := by
      rcases letter with is | is
      · rw [is]
        decide
      · rw [is]
        decide
    have signed : ∃ sign, (sign = [] ∨ sign = [43] ∨ sign = [45]) ∧ ∃ digits, Digits digits ∧
        (source.consume 1).next = sign ++ digits ++ behind.next := by
      split_ifs at digits with sign
      · rcases someDigits_next digits with ⟨digits, areDigits, next⟩
        rcases sign with minus | plus
        · exact ⟨[45], Or.inr (Or.inr rfl), digits, areDigits, by rw [peekChar_next minus (by decide), next]; rfl⟩
        · exact ⟨[43], Or.inr (Or.inl rfl), digits, areDigits, by rw [peekChar_next plus (by decide), next]; rfl⟩
      · rcases someDigits_next digits with ⟨digits, areDigits, next⟩
        exact ⟨[], Or.inl rfl, digits, areDigits, next⟩
    rcases signed with ⟨sign, isSign, digits, areDigits, next⟩
    refine ⟨source.peekChar :: (sign ++ digits), Or.inr ⟨source.peekChar, sign, digits, letter, isSign, areDigits,
      rfl⟩, ?_, ?_⟩
    · rw [peekChar_next rfl nonzero, next]
      rfl
    · exact iff_of_false Bool.false_ne_true (List.cons_ne_nil _ _)
  · cases read
    exact ⟨[], Or.inl rfl, rfl, iff_of_true rfl rfl⟩

theorem afterMinus_next (source : Source) :
    ∃ sign, Sign sign ∧ source.next = sign ++ source.afterMinus.next ∧ (source.peekChar ≠ 45 ↔ sign = []) := by
  by_cases minus : source.peekChar = 45
  · rw [Source.afterMinus, if_pos minus]
    exact ⟨[45], Or.inr rfl, peekChar_next minus (by decide), iff_of_false (not_not.mpr minus) (List.cons_ne_nil _ _)⟩
  · rw [Source.afterMinus, if_neg minus]
    exact ⟨[], Or.inl rfl, rfl, iff_of_true minus rfl⟩

theorem getNumber_next {isUint : Bool} (strict : source.allowHex = false)
    (read : source.getNumber = some (isUint, behind)) :
    ∃ sign digits fraction exponent, Sign sign ∧ Digits digits ∧ Fraction fraction ∧ Exponent exponent ∧
      source.next = sign ++ digits ++ fraction ++ exponent ++ behind.next ∧
      (isUint = true ↔ sign = [] ∧ fraction = [] ∧ exponent = []) := by
  rw [Source.getNumber] at read
  split_ifs at read with digit hex
  · rw [strict] at hex
    cases hex.1
  · rcases Option.bind_eq_some_iff.mp read with ⟨⟨noFraction, middle⟩, isFraction, rest⟩
    rcases Option.map_eq_some_iff.mp rest with ⟨⟨noExponent, after⟩, isExponent, same⟩
    cases same
    rcases afterMinus_next source with ⟨sign, isSign, signNext, unsigned⟩
    rcases digits_next digit with ⟨digits, areDigits, digitsNext⟩
    rcases fraction_next isFraction with ⟨fraction, fractionText, fractionNext, fractionNone⟩
    rcases exponent_next isExponent with ⟨exponent, exponentText, exponentNext, exponentNone⟩
    refine ⟨sign, digits, fraction, exponent, isSign, areDigits, fractionText, exponentText, ?_, ?_⟩
    · rw [signNext, digitsNext, fractionNext, exponentNext]
      simp
    · rw [Bool.and_eq_true, Bool.and_eq_true, decide_eq_true_eq, unsigned, fractionNone, exponentNone, and_assoc]

end

/-! ## Collections -/

theorem commas_cons (text : List UInt8) {rest : List (List UInt8)} (some : rest ≠ []) :
    commas (text :: rest) = text ++ 44 :: commas rest := by
  cases rest with
  | nil => exact absurd rfl some
  | cons next rest => rfl

structure ArePieces (dialect : Dialect) (double : List UInt8 → UInt64) (pieces : List Piece) : Prop where
  some : pieces ≠ []
  spaced : ∀ piece ∈ pieces, dialect.Spaces piece.before ∧ dialect.Spaces piece.after
  values : ∀ piece ∈ pieces, Value dialect double piece.text piece.tree

structure AreMembers (dialect : Dialect) (double : List UInt8 → UInt64) (members : List MemberPiece) : Prop where
  some : members ≠ []
  spaced : ∀ member ∈ members, dialect.Spaces member.before ∧ dialect.Spaces member.between ∧
    dialect.Spaces member.value.before ∧ dialect.Spaces member.value.after
  names : ∀ member ∈ members, Chars dialect member.quotedName member.name
  values : ∀ member ∈ members, Value dialect double member.value.text member.value.tree

section

variable {dialect : Dialect} {double : List UInt8 → UInt64}

theorem Dialect.Spaces.append {first second : List UInt8} (areFirst : dialect.Spaces first)
    (areSecond : dialect.Spaces second) :
    dialect.Spaces (first ++ second) := by
  intro byte member
  rcases List.mem_append.mp member with inFirst | inSecond
  · exact areFirst byte inFirst
  · exact areSecond byte inSecond

theorem ArePieces.single {piece : Piece} (before : dialect.Spaces piece.before) (after : dialect.Spaces piece.after)
    (value : Value dialect double piece.text piece.tree) : ArePieces dialect double [piece] := by
  refine ⟨List.cons_ne_nil _ _, ?_, ?_⟩
  · intro other member
    rw [List.mem_singleton.mp member]
    exact ⟨before, after⟩
  · intro other member
    rw [List.mem_singleton.mp member]
    exact value

theorem ArePieces.cons {piece : Piece} {pieces : List Piece} (first : ArePieces dialect double [piece])
    (others : ArePieces dialect double pieces) : ArePieces dialect double (piece :: pieces) := by
  refine ⟨List.cons_ne_nil _ _, ?_, ?_⟩
  · intro other member
    rcases List.mem_cons.mp member with rfl | later
    · exact first.spaced other (List.mem_singleton_self _)
    · exact others.spaced other later
  · intro other member
    rcases List.mem_cons.mp member with rfl | later
    · exact first.values other (List.mem_singleton_self _)
    · exact others.values other later

theorem AreMembers.single {member : MemberPiece} (before : dialect.Spaces member.before)
    (between : dialect.Spaces member.between) (name : Chars dialect member.quotedName member.name)
    (value : ArePieces dialect double [member.value]) : AreMembers dialect double [member] := by
  have inside := List.mem_singleton_self member.value
  refine ⟨List.cons_ne_nil _ _, ?_, ?_, ?_⟩
  · intro other isOther
    rw [List.mem_singleton.mp isOther]
    exact ⟨before, between, value.spaced _ inside⟩
  · intro other isOther
    rw [List.mem_singleton.mp isOther]
    exact name
  · intro other isOther
    rw [List.mem_singleton.mp isOther]
    exact value.values _ inside

theorem AreMembers.cons {member : MemberPiece} {members : List MemberPiece} (first : AreMembers dialect double [member])
    (others : AreMembers dialect double members) : AreMembers dialect double (member :: members) := by
  refine ⟨List.cons_ne_nil _ _, ?_, ?_, ?_⟩
  · intro other isOther
    rcases List.mem_cons.mp isOther with rfl | later
    · exact first.spaced other (List.mem_singleton_self _)
    · exact others.spaced other later
  · intro other isOther
    rcases List.mem_cons.mp isOther with rfl | later
    · exact first.names other (List.mem_singleton_self _)
    · exact others.names other later
  · intro other isOther
    rcases List.mem_cons.mp isOther with rfl | later
    · exact first.values other (List.mem_singleton_self _)
    · exact others.values other later

end

/-! ## Values -/

theorem charClass_brace {byte : UInt8} (isBrace : charClass byte = .brace) : byte = 123 := by
  rw [charClass] at isBrace
  split_ifs at isBrace with quote brace
  exact brace

theorem charClass_bracket {byte : UInt8} (isBracket : charClass byte = .bracket) : byte = 91 := by
  rw [charClass] at isBracket
  split_ifs at isBracket with quote brace bracket
  exact bracket

section

variable {ops : FloatOps} (double : List UInt8 → UInt64)

theorem readNumber_text {source behind : Source} {tree : Json} (strict : source.allowHex = false)
    (read : readNumber ops source = some (tree, behind)) :
    ∃ text tree', source.next = text ++ behind.next ∧ Value .parsed double text tree' := by
  rcases Option.map_eq_some_iff.mp read with ⟨⟨isUint, after⟩, number, same⟩
  have isBehind : after = behind := by
    cases isUint with
    | true => exact congrArg Prod.snd same
    | false => exact congrArg Prod.snd same
  subst isBehind
  rcases getNumber_next strict number with
    ⟨sign, digits, fraction, exponent, isSign, areDigits, isFraction, isExponent, next, unsigned⟩
  cases isUint with
  | true =>
      rcases unsigned.mp rfl with ⟨rfl, rfl, rfl⟩
      refine ⟨digits, _, ?_, .uint areDigits⟩
      rw [next]
      simp
  | false => exact ⟨_, _, next, .number isSign areDigits isFraction isExponent (mt unsigned.mpr Bool.false_ne_true)⟩

theorem readIdentifier_text {source behind : Source} {tree : Json}
    (read : readIdentifier source = some (tree, behind)) :
    ∃ text tree', source.next = text ++ behind.next ∧ Value .parsed double text tree' := by
  rcases Option.map_eq_some_iff.mp read with ⟨value, isSymbol, same⟩
  cases same
  exact ⟨_, _, List.takeWhile_append_dropWhile.symm, .symbol isSymbol⟩

/-- What is read without hexadecimal numbers is a text of the dialect.  Spaces
in front of a collection's first element may have been skipped before. -/
theorem reading_text (fuel : Nat) :
    (∀ source tree behind, source.allowHex = false → readValue ops fuel source = some (tree, behind) →
      ∃ spaces text tree', source.next = spaces ++ text ++ behind.next ∧ Dialect.parsed.Spaces spaces ∧
        Value .parsed double text tree') ∧
    (∀ source c members behind spaces, source.allowHex = false → Dialect.parsed.Spaces spaces →
      readMembers ops fuel source c = some (members, behind) →
      ∃ pieces, spaces ++ source.next = commas (pieces.map MemberPiece.bytes) ++ 125 :: behind.next ∧
        AreMembers .parsed double pieces) ∧
    (∀ source elements behind spaces, source.allowHex = false → Dialect.parsed.Spaces spaces →
      readElements ops fuel source = some (elements, behind) →
      ∃ pieces, spaces ++ source.next = commas (pieces.map Piece.bytes) ++ 93 :: behind.next ∧
        ArePieces .parsed double pieces) := by
  induction fuel with
  | zero =>
      refine ⟨?_, ?_, ?_⟩
      · intro source tree behind _ read
        cases read
      · intro source c members behind spaces _ _ read
        cases read
      · intro source elements behind spaces _ _ read
        cases read
  | succ fuel ih =>
      rcases ih with ⟨values, memberLists, elementLists⟩
      refine ⟨?_, ?_, ?_⟩
      · intro source tree behind strict read
        rcases skipSpace_next source with ⟨spaces, areSpaces, next⟩
        suffices inner : ∃ spaces' text tree', source.skipSpace.next = spaces' ++ text ++ behind.next ∧
            Dialect.parsed.Spaces spaces' ∧ Value .parsed double text tree' by
          rcases inner with ⟨spaces', text, tree', innerNext, areSpaces', value⟩
          refine ⟨spaces ++ spaces', text, tree', ?_, areSpaces.append areSpaces', value⟩
          rw [next, innerNext]
          simp
        have unspaced : Dialect.parsed.Spaces [] := fun _ => nofun
        simp only [readValue] at read
        split at read
        · cases read
        · rcases skipSpace_next (source.skipSpace.consume 1) with ⟨inside, areInside, insideNext⟩
          split at read
          · rcases Option.bind_eq_some_iff.mp read with ⟨⟨bytes, after⟩, string, same⟩
            cases same
            rcases readString_next string with ⟨spaces', text, chars, stringNext, areSpaces', areChars⟩
            exact ⟨spaces', quoted text, .string chars, stringNext, areSpaces', .string areChars⟩
          · rename_i brace
            have opened := peekChar_next (charClass_brace brace) (by decide)
            split at read
            · rename_i close
              cases read
              refine ⟨[], _, _, ?_, unspaced, .emptyObject areInside⟩
              rw [opened, insideNext, peekChar_next close (by decide)]
              simp
            · rcases Option.bind_eq_some_iff.mp read with ⟨⟨members, after⟩, isMembers, same⟩
              cases same
              rcases memberLists (source.skipSpace.consume 1).skipSpace _ _ _ inside strict areInside isMembers with
                ⟨pieces, piecesNext, areMembers⟩
              refine ⟨[], _, _, ?_, unspaced, .object areMembers.some areMembers.spaced areMembers.names areMembers.values⟩
              rw [opened, insideNext, piecesNext]
              simp
          · rename_i bracket
            have opened := peekChar_next (charClass_bracket bracket) (by decide)
            split at read
            · rename_i close
              cases read
              refine ⟨[], _, _, ?_, unspaced, .emptyArray areInside⟩
              rw [opened, insideNext, peekChar_next close (by decide)]
              simp
            · rcases Option.bind_eq_some_iff.mp read with ⟨⟨elements, after⟩, isElements, same⟩
              cases same
              rcases elementLists (source.skipSpace.consume 1).skipSpace _ _ inside strict areInside isElements with
                ⟨pieces, piecesNext, arePieces⟩
              refine ⟨[], _, _, ?_, unspaced, .array arePieces.some arePieces.spaced arePieces.values⟩
              rw [opened, insideNext, piecesNext]
              simp
          · rcases readNumber_text double (show source.skipSpace.allowHex = false from strict) read with
              ⟨text, tree', numberNext, value⟩
            exact ⟨[], text, tree', numberNext, unspaced, value⟩
          · rcases readIdentifier_text double read with ⟨text, tree', symbolNext, value⟩
            exact ⟨[], text, tree', symbolNext, unspaced, value⟩
          · cases read
      · intro source c members behind spaces strict areSpaces read
        simp only [readMembers] at read
        split at read
        · cases read
        · rcases Option.bind_eq_some_iff.mp read with ⟨⟨name, afterName⟩, string, rest⟩
          have toName := (readString_behind string).1
          rcases readString_next string with ⟨before, text, chars, nameNext, areBefore, areChars⟩
          rcases skipSpace_next afterName with ⟨between, areBetween, betweenNext⟩
          dsimp only at rest
          split at rest
          · cases rest
          · rename_i colon
            have colonNext := peekChar_next (not_not.mp colon) (by decide)
            rcases Option.bind_eq_some_iff.mp rest with ⟨⟨value, afterValue⟩, isValue, rest⟩
            have strictName : (afterName.skipSpace.consume 1).allowHex = false :=
              (congrArg Flags.allowHex (toName.trans (Behind.getNonspace afterName)).flags).trans strict
            rcases values _ _ _ strictName isValue with ⟨spaces', text', tree', valueNext, areSpaces', isText⟩
            have toValue := ((reading_behind false fuel).1 _ _ _ isValue).1
            have strictValue : (afterValue.skipSpace.consume 1).skipSpace.allowHex = false :=
              (congrArg Flags.allowHex (toValue.trans
                ((Behind.getNonspace afterValue).trans (Behind.skipSpace _))).flags).trans
                strictName
            rcases skipSpace_next afterValue with ⟨after, areAfter, afterNext⟩
            have piece : ArePieces .parsed double [⟨spaces', text', after, tree'⟩] := .single areSpaces' areAfter isText
            have first : AreMembers .parsed double [⟨spaces ++ before, text, between, chars,
              ⟨spaces', text', after, tree'⟩⟩] :=
              .single (areSpaces.append areBefore) areBetween areChars piece
            have taken : spaces ++ source.next =
                MemberPiece.bytes ⟨spaces ++ before, text, between, chars, ⟨spaces', text', after, tree'⟩⟩ ++
                  afterValue.skipSpace.next := by
              rw [nameNext, betweenNext, colonNext, valueNext, afterNext, MemberPiece.bytes, Piece.bytes]
              simp
            dsimp only at rest
            split at rest
            · rename_i comma
              rcases Option.bind_eq_some_iff.mp rest with ⟨⟨others, final⟩, isOthers, same⟩
              cases same
              rcases skipSpace_next (afterValue.skipSpace.consume 1) with ⟨lead, areLead, leadNext⟩
              rcases memberLists _ _ _ _ lead strictValue areLead isOthers with ⟨pieces, piecesNext, areMembers⟩
              refine ⟨_ :: pieces, ?_, first.cons areMembers⟩
              rw [taken, peekChar_next comma (by decide), leadNext, piecesNext, List.map_cons,
                commas_cons _ (mt List.map_eq_nil_iff.mp areMembers.some)]
              simp
            · split at rest
              · rename_i close
                cases rest
                refine ⟨_, ?_, first⟩
                rw [taken, peekChar_next close (by decide)]
                rfl
              · cases rest
      · intro source elements behind spaces strict areSpaces read
        simp only [readElements] at read
        rcases Option.bind_eq_some_iff.mp read with ⟨⟨element, afterElement⟩, isElement, rest⟩
        rcases values _ _ _ strict isElement with ⟨before, text, tree', elementNext, areBefore, isText⟩
        have toElement := ((reading_behind false fuel).1 _ _ _ isElement).1
        have strictElement : (afterElement.skipSpace.consume 1).allowHex = false :=
          (congrArg Flags.allowHex (toElement.trans (Behind.getNonspace afterElement)).flags).trans strict
        rcases skipSpace_next afterElement with ⟨after, areAfter, afterNext⟩
        have first : ArePieces .parsed double [⟨spaces ++ before, text, after, tree'⟩] :=
          .single (areSpaces.append areBefore) areAfter isText
        have taken : spaces ++ source.next =
            Piece.bytes ⟨spaces ++ before, text, after, tree'⟩ ++ afterElement.skipSpace.next := by
          rw [elementNext, afterNext, Piece.bytes]
          simp
        dsimp only at rest
        split at rest
        · rename_i comma
          rcases Option.bind_eq_some_iff.mp rest with ⟨⟨others, final⟩, isOthers, same⟩
          cases same
          rcases elementLists _ _ _ [] strictElement (fun _ => nofun) isOthers with ⟨pieces, piecesNext, arePieces⟩
          refine ⟨_ :: pieces, ?_, first.cons arePieces⟩
          rw [taken, peekChar_next comma (by decide), ← List.nil_append (afterElement.skipSpace.consume 1).next,
            piecesNext,
            List.map_cons, commas_cons _ (mt List.map_eq_nil_iff.mp arePieces.some)]
          simp
        · split at rest
          · rename_i close
            cases rest
            refine ⟨_, ?_, first⟩
            rw [taken, peekChar_next close (by decide)]
            rfl
          · cases rest

end

end Jitson
end LibKit
