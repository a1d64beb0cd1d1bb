import LibKit.KitBaseEncode.Reading

namespace LibKit
namespace KitBaseEncode

open Radix (Regrouped Filled Small)

/-!
# Decoding accepts encodings

What is decoded without an error is the encoding of what is written, and no more
of the text is.  The table for base16 has an entry too many: it takes a `P` for
an `F`.
-/

/-! ## Encodings -/

def upper (c : UInt8) : UInt8 := if 97 ≤ c ∧ c ≤ 122 then c - 32 else c

/-- A character in the case of the encoder, where the case does not matter. -/
def Base.fold (base : Base) (c : UInt8) : UInt8 :=
  match base with
  | .base16 | .base32hex => upper c
  | .base32 | .base64 | .base64url => c

/-- The encoding of some bytes, in a buffer with room for it. -/
def Base.encoding (base : Base) (bytes : List UInt8) : List UInt8 :=
  let olen := base.textLength bytes.length + 1
  let result := baseEncode base (List.replicate olen 0) olen bytes
  result.out.take result.olen

/-- The bits of the last digit that are not needed for some bytes. -/
def Base.unused (base : Base) (bytes : Nat) : Nat := (base.shval - bytes * 8 % base.shval) % base.shval

/-- A text is the encoding of some bytes up to the case of letters, where that
does not matter, and up to the unused low bits of the last digit. -/
def Base.Spells (base : Base) (text bytes : List UInt8) : Prop :=
  text.map base.fold = base.encoding bytes ∨
    ∃ front last last', Small base.shval (front ++ [last]) ∧ last' < 2 ^ base.shval ∧
      last / 2 ^ base.unused bytes.length = last' / 2 ^ base.unused bytes.length ∧
      base.encoding bytes = base.encoder.text (front ++ [last]) ∧
        text.map base.fold = base.encoder.text (front ++ [last'])

/-- The text is the one for digits that are regrouped to the bytes, with less
than a digit left. -/
def Base.Spelled (base : Base) (text bytes : List UInt8) : Prop :=
  ∃ digits bits rest, Small base.shval digits ∧ text.map base.fold = base.encoder.text digits ∧
    Regrouped base.shval 8 digits (bytes.map UInt8.toNat) bits rest ∧ bits < base.shval

theorem small_bytes (bytes : List UInt8) : Small 8 (bytes.map UInt8.toNat) := by
  intro digit member
  rcases List.mem_map.mp member with ⟨byte, -, rfl⟩
  exact byte.toNat_lt

theorem Base.encoding_eq (base : Base) {bytes : List UInt8} {digits : List Nat}
    (filled : Filled 8 base.shval (bytes.map UInt8.toNat) digits) : base.encoding bytes = base.encoder.text digits := by
  have length := base.text_length filled
  rw [encoding, baseEncode]
  rcases encode_eq base.alphabet filled (Nat.le_of_eq List.length_replicate.symm) with ⟨small, -⟩ | ⟨-, done⟩
  · rw [length] at small
    exact absurd small (Nat.lt_irrefl _)
  · rw [done]
    exact List.take_left

/-- The character of a digit is no equals sign. -/
theorem Base.char_ne (base : Base) : ∀ digit < 2 ^ base.shval, base.encoder.char digit ≠ 61 := by
  cases base with
  | _ => decide

theorem Base.values_of_chars (base : Base) {digits : List Nat} (small : Small base.shval digits) :
    (digits.map base.encoder.char).map base.decoder.value = digits := by
  rw [List.map_map]
  nth_rewrite 2 [← List.map_id digits]
  apply List.map_congr_left
  intro digit member
  exact (base.alphabet.inverse digit (small digit member)).1

theorem takeWhile_text (base : Base) {digits : List Nat} (small : Small base.shval digits) :
    (base.encoder.text digits).takeWhile (· ≠ 61) = digits.map base.encoder.char := by
  have chars : ∀ c ∈ digits.map base.encoder.char, decide (c ≠ 61) = true := by
    intro c member
    rcases List.mem_map.mp member with ⟨digit, isDigit, rfl⟩
    exact decide_eq_true (base.char_ne digit (small digit isDigit))
  rw [BaseCfg.text, List.takeWhile_append_of_pos chars, List.takeWhile_replicate]
  exact List.append_nil _

theorem text_injective (base : Base) {first second : List Nat} (small : Small base.shval first)
    (small' : Small base.shval second)
    (same : base.encoder.text first = base.encoder.text second) : first = second := by
  have chars := congrArg (List.takeWhile (· ≠ 61)) same
  rw [takeWhile_text base small, takeWhile_text base small'] at chars
  have values := congrArg (List.map base.decoder.value) chars
  rwa [base.values_of_chars small, base.values_of_chars small'] at values

theorem Base.unused_eq (base : Base) {digits bytes fill : Nat} (total : digits * base.shval = bytes * 8 + fill)
    (few : fill < base.shval) : base.unused bytes = fill := by
  cases base with
  | _ =>
      simp only [Base.unused, Base.shval] at total few ⊢
      omega

/-- Digits that differ in the unused bits of the last are regrouped to the same
bytes, and all that are regrouped to them do not differ otherwise. -/
theorem Base.spells_iff (base : Base) (text bytes : List UInt8) : base.Spells text bytes ↔ base.Spelled text bytes := by
  have positive := base.alphabet.positive
  rcases exists_filled base.alphabet bytes with ⟨digits, filled⟩
  have isText := base.encoding_eq filled
  rcases filled.fill with ⟨fill, few, total, -⟩
  have unused := total
  rw [List.length_map] at unused
  have isFill := base.unused_eq unused few
  rw [Spells, isText, isFill]
  have readBack {front : List Nat} {last last' : Nat} (split : digits = front ++ [last])
      (same : last / 2 ^ fill = last' / 2 ^ fill) :
      Regrouped base.shval 8 (front ++ [last']) (bytes.map UInt8.toNat) fill (last' % 2 ^ fill) := by
    rw [split] at filled total
    rw [List.length_append, List.length_singleton] at total
    exact filled.regrouped (small_bytes bytes) total few same
  constructor
  · rintro (same | ⟨front, last, last', small, small', same, isSplit, isFolded⟩)
    · rcases List.eq_nil_or_concat digits with none | ⟨front, last, split⟩
      · rw [none] at total same
        have noBytes : bytes = [] := by
          have zero : (bytes.map UInt8.toNat).length * 8 + fill = 0 := total.symm.trans (Nat.zero_mul _)
          rw [List.length_map] at zero
          exact List.eq_nil_of_length_eq_zero (by omega)
        rw [noBytes]
        exact ⟨[], 0, 0, fun digit member => absurd member List.not_mem_nil, same, Regrouped.start, positive⟩
      · rw [List.concat_eq_append] at split
        rw [split] at same
        exact ⟨front ++ [last], fill, _, split ▸ filled.small, same, readBack split rfl, few⟩
    · have split := text_injective base filled.small small isSplit
      refine ⟨front ++ [last'], fill, _, ?_, isFolded, readBack split same, few⟩
      exact Small.concat (fun digit member => small digit (List.mem_append_left _ member)) small'
  · rintro ⟨digits', bits, rest, small, isFolded, regrouped, less⟩
    rcases List.eq_nil_or_concat digits' with none | ⟨front, last, split⟩
    · have noDigits : digits = [] := by
        have total' := regrouped.length
        rw [none, List.length_nil, Nat.zero_mul] at total'
        rw [show (bytes.map UInt8.toNat).length = 0 by omega, Nat.zero_mul, Nat.zero_add] at total
        apply List.eq_nil_of_length_eq_zero
        by_contra some
        have more := Nat.le_mul_of_pos_left base.shval (Nat.pos_of_ne_zero some)
        omega
      rw [noDigits]
      rw [none] at isFolded
      exact Or.inl isFolded
    · rw [List.concat_eq_append] at split
      rw [split] at small isFolded regrouped
      have cleared := filled.unique positive (regrouped.cleared small less)
      have isBits : fill = bits := by
        have total' := regrouped.length
        rw [cleared, List.length_append, List.length_singleton] at total
        rw [List.length_append, List.length_singleton] at total'
        omega
      refine Or.inr ⟨front, last / 2 ^ bits * 2 ^ bits, last, ?_, ?_, ?_, ?_, isFolded⟩
      · exact cleared ▸ filled.small
      · exact small last (List.mem_append_right _ (List.mem_singleton_self _))
      · rw [isBits, Nat.mul_div_cancel _ (Nat.two_pow_pos bits)]
      · rw [cleared]

/-! ## Characters of an encoding -/

/-- A character of the alphabet is taken for a digit, and so is the other case
of a letter. -/
theorem Base.digit_of_fold (base : Base) : ∀ c : UInt8, base.fold c ∈ base.encoder.binmap →
    base.decoder.isDigit c = true := by
  cases base with
  | _ =>
      apply Bytes.forall_bytes
      decide +kernel

theorem Base.char_mem (base : Base) {digit : Nat} (small : digit < 2 ^ base.shval) :
    base.encoder.char digit ∈ base.encoder.binmap := by
  have length : base.encoder.binmap.length = 2 ^ base.shval := by
    cases base with
    | _ => rfl
  rw [BaseCfg.char, List.getD_eq_getElem _ _ (length ▸ small)]
  exact List.getElem_mem _

theorem Base.equals_of_fold (base : Base) : ∀ c : UInt8, base.fold c = 61 → base.decoder.isDigit c = false := by
  cases base with
  | _ =>
      apply Bytes.forall_bytes
      decide +kernel

/-- What is taken for a digit is the character of that digit, but for the `P` in
base16. -/
theorem Base.fold_of_digit (base : Base) : ∀ c : UInt8, base.decoder.isDigit c = true → ¬ (base = .base16 ∧ c = 80) →
    base.fold c = base.encoder.char (base.decoder.value c) := by
  cases base with
  | _ =>
      apply Bytes.forall_bytes
      decide +kernel

/-- A text has so many digits, which end a group, and the equals signs for
them. -/
structure Base.Shape (base : Base) (text : List UInt8) (count : Nat) : Prop where
  length : text.length = count + base.encoder.padCount count
  group : count * base.shval % 8 < base.shval
  digits : ∀ index < count, ∃ c, text[index]? = some c ∧ base.decoder.isDigit c = true
  others : ∀ index c, count ≤ index → text[index]? = some c → base.decoder.isDigit c = false

theorem Base.Spelled.shape {base : Base} {text bytes : List UInt8} (spelled : base.Spelled text bytes) :
    ∃ count, base.Shape text count := by
  rcases spelled with ⟨digits, bits, rest, small, folded, regrouped, few⟩
  have total := regrouped.length
  have narrow := base.alphabet.narrow
  have same (index : Nat) := congrArg (·[index]?) folded
  simp only [List.getElem?_map, BaseCfg.text] at same
  refine ⟨digits.length, ?_, by omega, ?_, ?_⟩
  · rw [← base.encoder.text_length, ← folded, List.length_map]
  · intro index inside
    have here := same index
    rw [List.getElem?_append_left (by rw [List.length_map]; exact inside), List.getElem?_map,
      List.getElem?_eq_getElem inside] at here
    rcases Option.map_eq_some_iff.mp here with ⟨c, isChar, isFold⟩
    exact ⟨c, isChar, base.digit_of_fold c (isFold ▸ base.char_mem (small _ (List.getElem_mem inside)))⟩
  · intro index c behind isChar
    have here := same index
    rw [isChar, List.getElem?_append_right (by rw [List.length_map]; exact behind)] at here
    have member := List.mem_of_getElem? here.symm
    exact base.equals_of_fold c (List.eq_of_mem_replicate member)

/-! ## What is decoded -/

/-- What was decoded without an error: digits from the front of the text that
end a group, with the equals signs for them, and at most one digit is left
behind. -/
structure Decoded (base : Base) (text : List UInt8) (front : List UInt8) (result : Result) : Prop where
  ilen : result.ilen = front.length + base.encoder.padCount front.length
  taken : text.take result.ilen = front ++ List.replicate (base.encoder.padCount front.length) 61
  inside : result.ilen ≤ text.length
  isFront : front = (base.decoder.run false text).take front.length
  less : front.length ≤ (base.decoder.run false text).length
  most : (base.decoder.run false text).length = front.length ∨ base.decoder.wantpadding = false ∧
    (base.decoder.run false text).length = front.length + 1 ∧
    base.shval ≤ (base.decoder.run false text).length * base.shval % 8
  regrouped : ∃ bits rest, bits < base.shval ∧
    Regrouped base.shval 8 (front.map base.decoder.value) ((result.out.take result.olen).map UInt8.toNat) bits rest

theorem decoded_plain (base : Base) (plain : base.decoder.wantpadding = false) {out : List UInt8} {olen : Nat}
    (fits : olen ≤ out.length) {text : List UInt8} (success : (decode base.decoder false out olen text).error = none) :
    ∃ front, Decoded base text front (decode base.decoder false out olen text) := by
  have alphabet := base.alphabet
  have half : 8 ≤ 2 * base.shval := by
    cases base with
    | _ => decide
  have noPad (count : Nat) : base.encoder.padCount count = 0 := by
    rw [BaseCfg.padCount, ← alphabet.padding, plain]
    rfl
  rcases @run_beyond base.decoder false text with ⟨beyond, split, -⟩
  rcases decode_plain alphabet base.table plain fits false text with
    ⟨failed, -⟩ | ⟨back, bits, rest, regrouped, few, -, done⟩
  · rw [failed] at success
    cases success
  have total := regrouped.length
  rw [digits_run] at total regrouped
  rw [List.length_map, List.length_map] at total
  rw [done]
  by_cases dangling : bits ≥ base.shval
  · rw [if_pos dangling]
    rcases List.eq_nil_or_concat (base.decoder.run false text) with none | ⟨front, c, isRun⟩
    · rw [none, List.length_nil, Nat.zero_mul] at total
      omega
    · rw [List.concat_eq_append] at isRun
      have digit := run_goesOn false text c (isRun ▸ List.mem_append_right front (List.mem_singleton_self c))
      rw [goesOn_plain] at digit
      have lengths := congrArg List.length isRun
      rw [List.length_append, List.length_singleton] at lengths
      rw [isRun, List.map_append, List.map_singleton] at regrouped
      have inside : (base.decoder.run false text).length ≤ text.length := (List.takeWhile_prefix _).length_le
      have isFront : (base.decoder.run false text).take front.length = front := by
        rw [isRun]
        exact List.take_left
      refine ⟨front, ?_, ?_, ?_, isFront.symm, by omega, Or.inr ⟨plain, lengths, by omega⟩, bits - base.shval,
        rest / 2 ^ base.shval, by omega, ?_⟩
      · rw [noPad, lengths]
        rfl
      · rw [noPad, List.replicate_zero, List.append_nil, lengths]
        have taken := congrArg (List.take front.length) split
        rwa [List.take_append_of_le_length (by omega), isFront] at taken
      · dsimp only
        omega
      · dsimp only
        rw [List.take_left]
        exact regrouped.front (base.table.small c digit) dangling
  · rw [if_neg dangling]
    refine ⟨base.decoder.run false text, ?_, ?_, ?_, ?_, Nat.le_refl _, Or.inl rfl, bits, rest, by omega, ?_⟩
    · rw [noPad, Nat.add_zero]
    · rw [noPad, List.replicate_zero, List.append_nil]
      exact (congrArg (List.take _) split).trans List.take_left
    · exact (List.takeWhile_prefix _).length_le
    · exact List.take_length.symm
    · dsimp only
      rw [List.take_left]
      exact regrouped

theorem decoded_padded {out : List UInt8} {olen : Nat} (fits : olen ≤ out.length) {text : List UInt8}
    (success : (decode Base.base64.decoder false out olen text).error = none) :
    ∃ front, Decoded .base64 text front (decode Base.base64.decoder false out olen text) := by
  rcases decode_padded Base.base64.alphabet Base.base64.table rfl fits false text success with
    ⟨back, bits, rest, front, behind, pads, regrouped, few, -, split, -, equals, isPads, -, done⟩
  have total := regrouped.length
  rw [digits_run] at total regrouped
  rw [List.length_map, List.length_map] at total
  have isCount : Base.base64.encoder.padCount (Base.base64.decoder.run false text).length = pads := by
    rw [BaseCfg.padCount, if_pos (show Base.base64.encoder.wantpadding = true from rfl)]
    omega
  have isFront := equals rfl
  have length : front.length = pads := by rw [isFront, List.length_replicate]
  rw [← List.append_assoc] at split
  rw [done]
  refine ⟨Base.base64.decoder.run false text, ?_, ?_, ?_, ?_, Nat.le_refl _, Or.inl rfl, bits, rest, few, ?_⟩
  · rw [isCount, length]
  · rw [isCount, ← isFront, ← List.length_append]
    exact (congrArg (List.take _) split).trans List.take_left
  · have lengths := congrArg List.length split
    rw [List.length_append, List.length_append] at lengths
    dsimp only
    omega
  · exact List.take_length.symm
  · dsimp only
    rw [List.take_left]
    exact regrouped

theorem decoded (base : Base) {out : List UInt8} {olen : Nat} (fits : olen ≤ out.length) {text : List UInt8}
    (success : (baseDecode base false out olen text).error = none) :
    ∃ front, Decoded base text front (baseDecode base false out olen text) := by
  cases base with
  | base64 => exact decoded_padded fits success
  | base16 => exact decoded_plain .base16 rfl fits success
  | base32 => exact decoded_plain .base32 rfl fits success
  | base32hex => exact decoded_plain .base32hex rfl fits success
  | base64url => exact decoded_plain .base64url rfl fits success

/-! ## Acceptance -/

/-- What was consumed is the encoding of what was written, in characters of the
alphabet and its padding.  No longer front of the text is an encoding, and if
one more character could be the next of an encoding, two could not. -/
structure Accepted (base : Base) (text : List UInt8) (result : Result) : Prop where
  inside : result.ilen ≤ text.length
  spells : base.Spells (text.take result.ilen) (result.out.take result.olen)
  chars : ∀ c ∈ text.take result.ilen, base.fold c ∈ base.encoder.binmap ∨ base.encoder.wantpadding = true ∧ c = 61
  longest : ∀ count bytes, count ≤ text.length → base.Spells (text.take count) bytes → count ≤ result.ilen
  stops : ∀ count more bytes, count ≤ text.length → base.Spells (text.take count ++ more) bytes →
    count ≤ result.ilen + 1

/-- The bytes of a text in base16 with a `P` among their digits are written. -/
def TakesP (base : Base) (olen : Nat) (text : List UInt8) : Prop :=
  base = .base16 ∧ (base.decoder.run false text).length / 2 ≤ olen ∧
    80 ∈ (base.decoder.run false text).take ((base.decoder.run false text).length / 2 * 2)

/-- The digits at the front of a text are followed by something else. -/
theorem run_get (decoder : BaseCfg) (text : List UInt8) :
    (∀ index < (decoder.run false text).length, ∃ c, text[index]? = some c ∧ decoder.isDigit c = true) ∧
      ∀ c, text[(decoder.run false text).length]? = some c → decoder.isDigit c = false := by
  rcases @run_beyond decoder false text with ⟨beyond, split, stopped⟩
  rw [goesOn_plain] at stopped
  have digits := @run_goesOn decoder false text
  rw [goesOn_plain] at digits
  constructor
  · intro index inside
    have here : text[index]? = some (decoder.run false text)[index] := by
      have same := congrArg (·[index]?) split
      rwa [List.getElem?_append_left inside, List.getElem?_eq_getElem inside] at same
    exact ⟨_, here, digits _ (List.getElem_mem inside)⟩
  · intro c isChar
    have same := congrArg (·[(decoder.run false text).length]?) split
    rw [List.getElem?_append_right (Nat.le_refl _), Nat.sub_self, ← List.head?_eq_getElem?, isChar] at same
    exact stopped c same.symm

/-- A front of the text that can be continued to an encoding has at most one
character more than what was decoded, and then it is not itself one. -/
theorem Decoded.longest {base : Base} {text front : List UInt8} {result : Result}
    (decoded : Decoded base text front result)
    {count digits : Nat} {more : List UInt8} (within : count ≤ text.length)
    (shape : base.Shape (text.take count ++ more) digits) :
    count ≤ result.ilen + 1 ∧ (more = [] → count ≤ result.ilen) := by
  have total := shape.length
  have plainPad (plain : base.decoder.wantpadding = false) (count : Nat) : base.encoder.padCount count = 0 := by
    rw [BaseCfg.padCount, ← base.alphabet.padding, plain]
    rfl
  have takenLength : (text.take count).length = count := List.length_take_of_le within
  rw [List.length_append, takenLength] at total
  rcases run_get base.decoder text with ⟨inRun, behindRun⟩
  have same {index : Nat} (inside : index < count) : (text.take count ++ more)[index]? = text[index]? := by
    rw [List.getElem?_append_left (by rw [takenLength]; exact inside), List.getElem?_take_of_lt inside]
  have ilen := decoded.ilen
  have less := decoded.less
  by_cases short : count ≤ (base.decoder.run false text).length
  · refine ⟨?_, ?_⟩
    · rcases decoded.most with whole | ⟨-, one, -⟩
      · omega
      · omega
    · intro noMore
      rcases decoded.most with whole | ⟨plain, one, residue⟩
      · omega
      · rw [plainPad plain, noMore, List.length_nil] at total
        rw [plainPad plain] at ilen
        by_contra longer
        have isRun : digits = (base.decoder.run false text).length := by omega
        have group := shape.group
        rw [isRun] at group
        omega
  · have inText : (base.decoder.run false text).length < text.length := by omega
    have next : text[(base.decoder.run false text).length]? = some text[(base.decoder.run false text).length] :=
      List.getElem?_eq_getElem inText
    have noDigit := behindRun _ next
    have few : digits ≤ (base.decoder.run false text).length := by
      by_contra many
      rcases shape.digits _ (Nat.lt_of_not_le many) with ⟨c, isChar, digit⟩
      rw [same (Nat.lt_of_not_le short), next] at isChar
      cases isChar
      exact absurd digit (Bool.eq_false_iff.mp noDigit)
    have enough : (base.decoder.run false text).length ≤ digits := by
      by_contra fewer
      rcases inRun digits (Nat.lt_of_not_le fewer) with ⟨c, isChar, digit⟩
      have other := shape.others digits c (Nat.le_refl _) ((same (by omega)).trans isChar)
      exact absurd digit (Bool.eq_false_iff.mp other)
    have isRun : digits = (base.decoder.run false text).length := Nat.le_antisymm few enough
    rw [isRun] at total
    rcases decoded.most with whole | ⟨plain, -, -⟩
    · rw [← whole] at ilen
      omega
    · rw [plainPad plain] at total
      omega

theorem Decoded.digits {base : Base} {text front : List UInt8} {result : Result}
    (decoded : Decoded base text front result) :
    ∀ c ∈ front, base.decoder.isDigit c = true := by
  intro c member
  rw [decoded.isFront] at member
  have more := run_goesOn false text c (List.mem_of_mem_take member)
  rwa [goesOn_plain] at more

/-- The text for the digits that were read, if they are those of the
alphabet. -/
theorem Decoded.spelled {base : Base} {text front : List UInt8} {result : Result}
    (decoded : Decoded base text front result)
    (clean : ¬ (base = .base16 ∧ 80 ∈ front)) : base.Spelled (text.take result.ilen) (result.out.take result.olen) := by
  have digit := decoded.digits
  have equals : base.fold 61 = 61 := by
    cases base with
    | _ => rfl
  rcases decoded.regrouped with ⟨bits, rest, few, regrouped⟩
  refine ⟨front.map base.decoder.value, bits, rest, ?_, ?_, regrouped, few⟩
  · intro value member
    rcases List.mem_map.mp member with ⟨c, inFront, rfl⟩
    exact base.table.small c (digit c inFront)
  · rw [decoded.taken, BaseCfg.text, List.map_append, List.map_replicate, equals, List.length_map, List.map_map]
    congr 1
    apply List.map_congr_left
    intro c member
    apply base.fold_of_digit c (digit c member)
    rintro ⟨isBase, rfl⟩
    exact clean ⟨isBase, member⟩

theorem Decoded.pairs {text front : List UInt8} {result : Result} (decoded : Decoded .base16 text front result) :
    front = (Base.base16.decoder.run false text).take ((Base.base16.decoder.run false text).length / 2 * 2) := by
  rcases decoded.regrouped with ⟨bits, rest, few, regrouped⟩
  have total := regrouped.length
  rw [List.length_map, List.length_map] at total
  change bits < 4 at few
  change _ = front.length * 4 at total
  have isFront := decoded.isFront
  have most := decoded.most
  have even : front.length = (Base.base16.decoder.run false text).length / 2 * 2 := by
    rcases most with whole | ⟨-, one, residue⟩
    · omega
    · omega
  rw [even] at isFront
  exact isFront

/-- Decoding a text without skipping white space accepts its encodings and
nothing else, unless a `P` is taken for a digit. -/
theorem decode_accepts (base : Base) {out : List UInt8} {olen : Nat} (fits : olen ≤ out.length) (text : List UInt8) :
    ((baseDecode base false out olen text).error = none → Accepted base text (baseDecode base false out olen text)) ↔
      ¬ TakesP base olen text := by
  constructor
  · rintro accepted ⟨rfl, room, isP⟩
    have success : (baseDecode .base16 false out olen text).error = none := by
      rcases decode_plain Base.base16.alphabet Base.base16.table rfl fits false text with
        ⟨-, overflow⟩ | ⟨_, _, _, _, _, _, done⟩
      · rw [digits_run, List.length_map] at overflow
        change (olen + 1) * 8 ≤ _ * 4 at overflow
        omega
      · exact congrArg Result.error done
    rcases decoded .base16 fits success with ⟨front, isDecoded⟩
    have consumed : 80 ∈ text.take (baseDecode .base16 false out olen text).ilen := by
      rw [isDecoded.taken]
      apply List.mem_append_left
      rw [isDecoded.pairs]
      exact isP
    exact absurd ((accepted success).chars 80 consumed) (by decide)
  · intro clean success
    rcases decoded base fits success with ⟨front, isDecoded⟩
    have noP : ¬ (base = .base16 ∧ 80 ∈ front) := by
      rintro ⟨rfl, isP⟩
      refine clean ⟨rfl, ?_, ?_⟩
      · rcases decode_plain Base.base16.alphabet Base.base16.table rfl fits false text with
          ⟨failed, -⟩ | ⟨back, bits, rest, regrouped, few, room, -⟩
        · rw [show baseDecode .base16 false out olen text = decode Base.base16.decoder false out olen text from rfl,
            failed] at success
          cases success
        · have total := regrouped.length
          rw [digits_run, List.length_map, List.length_map] at total
          change _ = _ * 4 at total
          omega
      · rw [← isDecoded.pairs]
        exact isP
    have spells := (base.spells_iff _ _).mpr (isDecoded.spelled noP)
    refine ⟨isDecoded.inside, spells, ?_, ?_, ?_⟩
    · intro c member
      rw [isDecoded.taken] at member
      rcases List.mem_append.mp member with inFront | isPad
      · have digit := isDecoded.digits c inFront
        rw [base.fold_of_digit c digit (by rintro ⟨isBase, rfl⟩; exact noP ⟨isBase, inFront⟩)]
        exact Or.inl (base.char_mem (base.table.small c digit))
      · have wanted : base.encoder.wantpadding = true := by
          by_contra plain
          rw [BaseCfg.padCount, if_neg plain] at isPad
          exact absurd isPad List.not_mem_nil
        exact Or.inr ⟨wanted, List.eq_of_mem_replicate isPad⟩
    · intro count bytes within isSpelled
      rw [← List.append_nil (text.take count)] at isSpelled
      rcases ((base.spells_iff _ _).mp isSpelled).shape with ⟨digits, shape⟩
      exact (isDecoded.longest within shape).2 rfl
    · intro count more bytes within isSpelled
      rcases ((base.spells_iff _ _).mp isSpelled).shape with ⟨digits, shape⟩
      exact (isDecoded.longest within shape).1

/-- A text in base64 is accepted with its padding. -/
theorem decode_accepts_padded : Accepted .base64 [81, 82, 61, 61] (baseDecode .base64 false [0] 1 [81, 82, 61, 61]) :=
  (decode_accepts .base64 (Nat.le_refl 1) [81, 82, 61, 61]).mpr (fun bad => absurd bad.1 (by decide)) (by decide)

/-- `4P` is decoded as `4F`. -/
theorem decode_takes_p : (baseDecode .base16 false [0] 1 [52, 80]).error = none ∧
    ¬ Accepted .base16 [52, 80] (baseDecode .base16 false [0] 1 [52, 80]) := by
  refine ⟨by decide, ?_⟩
  intro accepted
  exact absurd (accepted.chars 80 (by decide)) (by decide)

end KitBaseEncode
end LibKit
