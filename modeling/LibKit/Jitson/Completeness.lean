import LibKit.Jitson.Bounded
import LibKit.Jitson.Strictness

namespace LibKit
namespace Jitson

open Stack (charClass)

/-!
# What the strict parser must accept

Each text of JSON is read, and to the tree that it means.
-/

/-! ## Sources -/

namespace Source

def seek (source : Source) (next : List UInt8) : Source := { source with next := next }

section

variable (source : Source) (next : List UInt8)

@[simp] theorem seek_next : (source.seek next).next = next := rfl

@[simp] theorem seek_seek (other : List UInt8) : (source.seek next).seek other = source.seek other := rfl

@[simp] theorem seek_peekChar : (source.seek next).peekChar = next.headD 0 := rfl

@[simp] theorem seek_consume (size : Nat) : (source.seek next).consume size = source.seek (next.drop size) := rfl

@[simp] theorem seek_flags : (source.seek next).toFlags = source.toFlags := rfl

@[simp] theorem seek_memory : (source.seek next).memory = next ++ source.beyond := rfl

end

end Source

/-! ## Spaces -/

def Solid (next : List UInt8) : Prop := Source.isSpace (next.headD 0) = false ∧ next.headD 0 ≠ 0

theorem noSpaces : Dialect.json.Spaces [] := fun _ member => (List.not_mem_nil member).elim

theorem isSpace_of_json {byte : UInt8} (space : Dialect.json.space byte) : Source.isSpace byte = true := by
  rcases space with rfl | rfl | rfl | rfl
  · rfl
  · rfl
  · rfl
  · rfl

section

variable (source : Source)

theorem skipSpace_seek {spaces next : List UInt8} (areSpaces : Dialect.json.Spaces spaces)
    (noSpace : Source.isSpace (next.headD 0) = false) :
    (source.seek (spaces ++ next)).skipSpace = source.seek next := by
  have skipped : (spaces ++ next).dropWhile Source.isSpace = next := by
    induction spaces with
    | nil =>
        cases next with
        | nil => rfl
        | cons byte next =>
          exact List.dropWhile_cons_of_neg (by rw [show Source.isSpace byte = false from noSpace]; decide)
    | cons byte spaces ih =>
        rw [List.cons_append, List.dropWhile_cons_of_pos (isSpace_of_json (areSpaces byte List.mem_cons_self))]
        exact ih fun other member => areSpaces other (List.mem_cons_of_mem _ member)
  exact congrArg source.seek skipped

/-! ## Strings -/

theorem hexDigits_seek {digits : List UInt8} (areDigits : ∀ byte ∈ digits, Source.isXDigit byte = true)
    (rest : List UInt8)
    (unicode : Nat) :
    Source.hexDigits digits.length unicode (source.seek (digits ++ rest)) =
      some (digits.foldl (fun value byte => value * 16 + Source.digitValue byte) unicode, source.seek rest) := by
  induction digits generalizing unicode with
  | nil => rfl
  | cons byte digits ih =>
      have digit : Source.isXDigit (source.seek (byte :: digits ++ rest)).peekChar = true :=
        areDigits byte List.mem_cons_self
      rw [List.length_cons, Source.hexDigits]
      exact (if_pos digit).trans (ih (fun other member => areDigits other (List.mem_cons_of_mem _ member)) _)

theorem escape_seek {text chars : List UInt8} (isEscape : Escape .parsed (92 :: text) chars) (rest : List UInt8) :
    (source.seek (text ++ rest)).escape = some (chars, source.seek rest) := by
  cases isEscape with
  | itself special =>
      rw [Source.escape]
      exact if_pos special
  | backspace => rfl
  | formFeed => rfl
  | lineFeed => rfl
  | carriageReturn => rfl
  | tab => rfl
  | @unicode digits bytes four areDigits encoded =>
      have read := hexDigits_seek source areDigits rest 0
      rw [four] at read
      have mapped : (source.seek ((117 :: digits) ++ rest)).escape =
          (Source.hexDigits 4 0 (source.seek (digits ++ rest))).map fun read => (Source.toUtf8 read.1, read.2) := rfl
      rw [mapped, read, show chars = _ from encoded]
      rfl

/-- The bytes of a character that needs no escape are read one by one. -/
theorem unescaped_bytes {text : List UInt8} (unescaped : Unescaped text) :
    ∀ byte ∈ text, byte ≠ 0 ∧ byte ≠ 34 ∧ byte ≠ 92 := by
  have high : ∀ byte : UInt8, 0x80 ≤ byte → byte ≠ 0 ∧ byte ≠ 34 ∧ byte ≠ 92 := by
    intro byte isHigh
    refine ⟨?_, ?_, ?_⟩
    · rintro rfl
      exact absurd isHigh (by decide)
    · rintro rfl
      exact absurd isHigh (by decide)
    · rintro rfl
      exact absurd isHigh (by decide)
  have tails : ∀ {more : Nat} {low top : UInt8} {rest : List UInt8}, Tail more low top rest → 0x80 ≤ low →
      ∀ byte ∈ rest, 0x80 ≤ byte := by
    intro more low top rest tail ascii
    induction tail with
    | nil => exact fun _ => nofun
    | cons isLow isHigh tail ih =>
        intro byte member
        rcases List.mem_cons.mp member with rfl | later
        · exact UInt8.le_trans ascii isLow
        · exact ih (by decide) byte later
  cases unescaped with
  | @ascii byte printable seven noQuote noBackslash =>
      intro other member
      rw [List.mem_singleton.mp member]
      refine ⟨?_, noQuote, noBackslash⟩
      rintro rfl
      exact absurd printable (by decide)
  | @several lead more low top rest follows tail =>
      intro byte member
      have bounds := follow_bounds follows
      rcases List.mem_cons.mp member with rfl | later
      · exact high byte (UInt8.le_trans (by decide) bounds.2.2)
      · exact high byte (tails tail bounds.2.1 byte later)

theorem Chars.bytes {text rest bytes : List UInt8} (plain : ∀ byte ∈ text, byte ≠ 0 ∧ byte ≠ 34 ∧ byte ≠ 92)
    (others : Chars .parsed rest bytes) : Chars .parsed (text ++ rest) (text ++ bytes) := by
  induction text with
  | nil => exact others
  | cons byte text ih =>
      have later := ih fun other member => plain other (List.mem_cons_of_mem _ member)
      have itself : Dialect.parsed.unit [byte] := ⟨byte, rfl, plain byte List.mem_cons_self⟩
      exact @Chars.unit _ [byte] _ _ itself later

theorem Chars.parsed {text bytes : List UInt8} (chars : Chars .plain text bytes) : Chars .parsed text bytes := by
  induction chars with
  | nil => exact .nil
  | unit isUnit others ih => exact ih.bytes (unescaped_bytes isUnit)
  | escape isEscape others ih =>
      have encodes : ∀ point bytes, Dialect.plain.unicode point bytes → Dialect.parsed.unicode point bytes :=
        fun point bytes encoded => encoded.2.trans (toUtf8_eq encoded.1).symm
      exact .escape (isEscape.mono encodes) ih

theorem readChars_seek {text chars : List UInt8} (areChars : Chars .parsed text chars) (rest bytes : List UInt8)
    {fuel : Nat}
    (enough : text.length < fuel) :
    readChars fuel (source.seek (text ++ 34 :: rest)) bytes = some (bytes ++ chars, source.seek rest) := by
  induction areChars generalizing bytes fuel with
  | nil =>
      rcases fuel with _ | fuel
      · exact absurd enough (Nat.not_lt_zero _)
      · rw [List.append_nil]
        rfl
  | @unit text others chars isUnit areOthers ih =>
      rcases isUnit with ⟨byte, rfl, nonzero, noQuote, noBackslash⟩
      rcases fuel with _ | fuel
      · exact absurd enough (Nat.not_lt_zero _)
      · have first : (source.seek ([byte] ++ others ++ 34 :: rest)).peekChar = byte := rfl
        have character : (source.seek ([byte] ++ others ++ 34 :: rest)).character =
            some ([byte], source.seek (others ++ 34 :: rest)) := by
          simp only [Source.character, first, if_neg nonzero, if_neg noBackslash]
          rfl
        rw [readChars, if_neg (first ▸ noQuote), character]
        have read := @ih (bytes ++ [byte]) fuel (by
          rw [List.length_append, List.length_singleton] at enough
          omega)
        rw [List.append_assoc] at read
        exact read
  | @escape text chars others otherChars isEscape areOthers ih =>
      have backslash : ∃ escaped, text = 92 :: escaped := by
        cases isEscape with
        | itself special => exact ⟨_, rfl⟩
        | backspace => exact ⟨_, rfl⟩
        | formFeed => exact ⟨_, rfl⟩
        | lineFeed => exact ⟨_, rfl⟩
        | carriageReturn => exact ⟨_, rfl⟩
        | tab => exact ⟨_, rfl⟩
        | unicode four areDigits encoded => exact ⟨_, rfl⟩
      rcases backslash with ⟨escaped, rfl⟩
      rcases fuel with _ | fuel
      · exact absurd enough (Nat.not_lt_zero _)
      · have character : (source.seek (92 :: escaped ++ others ++ 34 :: rest)).character =
            some (chars, source.seek (others ++ 34 :: rest)) := by
          have read := escape_seek source isEscape (others ++ 34 :: rest)
          rw [List.append_assoc]
          exact read
        have noQuote : ¬ (source.seek (92 :: escaped ++ others ++ 34 :: rest)).peekChar = 34 :=
          show ¬ (92 : UInt8) = 34 by decide
        rw [readChars, if_neg noQuote, character]
        have read := @ih (bytes ++ chars) fuel (by
          rw [List.length_append, List.length_cons] at enough
          omega)
        rw [List.append_assoc] at read
        exact read

theorem readString_seek {spaces text bytes : List UInt8} (areSpaces : Dialect.json.Spaces spaces)
    (chars : Chars .parsed text bytes)
    (rest : List UInt8) : readString (source.seek (spaces ++ quoted text ++ rest)) =
      some (bytes, source.seek rest) := by
  have quote : quoted text ++ rest = 34 :: (text ++ 34 :: rest) := by
    rw [quoted, List.cons_append, List.append_assoc]
    rfl
  have skipped : (source.seek (spaces ++ quoted text ++ rest)).skipSpace =
    source.seek (34 :: (text ++ 34 :: rest)) := by
    rw [List.append_assoc, quote]
    exact skipSpace_seek source areSpaces rfl
  have read := readChars_seek source chars rest [] (show text.length < (text ++ 34 :: rest).length + 1 by
    rw [List.length_append]
    omega)
  simp only [readString, skipped]
  exact read

end

/-! ## Numbers -/

def Delimited (rest : List UInt8) : Prop := rest = [] ∨ isSeparator (rest.headD 0) = true

theorem Delimited.head {rest : List UInt8} (delimited : Delimited rest) :
    rest.headD 0 = 0 ∨ isSeparator (rest.headD 0) = true := by
  rcases delimited with rfl | separator
  · exact Or.inl rfl
  · exact Or.inr separator

theorem Delimited.numeral {rest : List UInt8} (delimited : Delimited rest) :
    Source.isNumeral (rest.headD 0) = false := by
  rcases delimited.head with zero | separator
  · rw [zero]
    rfl
  · simp only [isSeparator, decide_eq_true_eq] at separator
    rcases separator with is | is | is | is | is | is | is | is
    all_goals
      rw [is]
      rfl

theorem not_numeral {byte : UInt8} (other : Source.isNumeral byte = false) :
    Source.isDigit byte = false ∧ byte ≠ 46 ∧ byte ≠ 69 ∧ byte ≠ 101 := by
  refine ⟨?_, ?_, ?_, ?_⟩
  · cases digit : Source.isDigit byte with
    | false => rfl
    | true =>
        rw [Source.isNumeral_of_digit digit] at other
        cases other
  · rintro rfl
    cases other
  · rintro rfl
    cases other
  · rintro rfl
    cases other

section

variable (source : Source) {next : List UInt8}

theorem takeWhile_digits {kind : UInt8 → Bool} {digits : List UInt8} (areDigits : ∀ byte ∈ digits, kind byte = true)
    (noDigit : next = [] ∨ kind (next.headD 0) = false) :
    (digits ++ next).takeWhile kind = digits ∧ (digits ++ next).dropWhile kind = next := by
  induction digits with
  | nil =>
      rcases next with _ | ⟨byte, next⟩
      · exact ⟨rfl, rfl⟩
      · have notKind : ¬ kind byte = true := by
          rcases noDigit with empty | other
          · cases empty
          · exact ne_true_of_eq_false other
        exact ⟨List.takeWhile_cons_of_neg notKind, List.dropWhile_cons_of_neg notKind⟩
  | cons byte digits ih =>
      have others := ih fun other member => areDigits other (List.mem_cons_of_mem _ member)
      have digit := areDigits byte List.mem_cons_self
      rw [List.cons_append, List.takeWhile_cons_of_pos digit, List.dropWhile_cons_of_pos digit, others.1, others.2]
      exact ⟨rfl, rfl⟩

theorem skipDigits_seek {digits : List UInt8} (areDigits : ∀ byte ∈ digits, Source.isDigit byte = true)
    (noDigit : Source.isDigit (next.headD 0) = false) : (source.seek (digits ++ next)).skipDigits = source.seek next :=
  congrArg source.seek (takeWhile_digits areDigits (Or.inr noDigit)).2

theorem digits_seek {digits : List UInt8} (areDigits : Digits digits)
    (noDigit : Source.isDigit (next.headD 0) = false) :
    Source.isDigit (source.seek (digits ++ next)).peekChar = true ∧
      ((source.seek (digits ++ next)).consume 1).skipDigits = source.seek next := by
  rcases areDigits with ⟨some, each⟩
  rcases digits with _ | ⟨first, others⟩
  · exact absurd rfl some
  · exact ⟨each first List.mem_cons_self,
      skipDigits_seek source (fun byte member => each byte (List.mem_cons_of_mem _ member)) noDigit⟩

theorem someDigits_seek {digits : List UInt8} (areDigits : Digits digits)
    (noDigit : Source.isDigit (next.headD 0) = false) :
    (source.seek (digits ++ next)).someDigits = some (source.seek next) := by
  have read := digits_seek source areDigits noDigit
  rw [Source.someDigits, if_pos read.1, read.2]

theorem fraction_seek {fraction : List UInt8} (isFraction : Fraction fraction)
    (noDigit : Source.isDigit (next.headD 0) = false)
    (noPoint : next.headD 0 ≠ 46) :
    (source.seek (fraction ++ next)).fraction = some (decide (fraction = []), source.seek next) := by
  rcases isFraction with rfl | ⟨digits, areDigits, rfl⟩
  · rw [Source.fraction, if_neg (show ¬ (source.seek ([] ++ next)).peekChar = 46 from noPoint)]
    rfl
  · have read := someDigits_seek source areDigits noDigit
    rw [Source.fraction, if_pos (show (source.seek (46 :: digits ++ next)).peekChar = 46 from rfl)]
    exact congrArg (Option.map fun source => (false, source)) read

theorem exponent_seek {exponent : List UInt8} (isExponent : Exponent exponent)
    (noDigit : Source.isDigit (next.headD 0) = false)
    (noLetter : next.headD 0 ≠ 69 ∧ next.headD 0 ≠ 101) :
    (source.seek (exponent ++ next)).exponent = some (decide (exponent = []), source.seek next) := by
  rcases isExponent with rfl | ⟨letter, sign, digits, isLetter, isSign, areDigits, rfl⟩
  · rw [Source.exponent, if_neg (show ¬ ((source.seek ([] ++ next)).peekChar = 69 ∨
      (source.seek ([] ++ next)).peekChar = 101) from
      not_or.mpr noLetter)]
    rfl
  · have read := someDigits_seek source areDigits noDigit
    have first : (source.seek (letter :: (sign ++ digits) ++ next)).consume 1 =
      source.seek (sign ++ (digits ++ next)) := by
      rw [← List.append_assoc]
      rfl
    have started : (source.seek (letter :: (sign ++ digits) ++ next)).peekChar = 69 ∨
        (source.seek (letter :: (sign ++ digits) ++ next)).peekChar = 101 := isLetter
    rw [Source.exponent, if_pos started, first]
    rcases isSign with rfl | rfl | rfl
    · have digit := (digits_seek source areDigits noDigit).1
      have unsigned : ¬ ((source.seek ([] ++ (digits ++ next))).peekChar = 45 ∨
          (source.seek ([] ++ (digits ++ next))).peekChar = 43) := by
        rintro (is | is)
        · rw [show (source.seek (digits ++ next)).peekChar = 45 from is] at digit
          exact absurd digit (by decide)
        · rw [show (source.seek (digits ++ next)).peekChar = 43 from is] at digit
          exact absurd digit (by decide)
      dsimp only
      rw [if_neg unsigned]
      exact congrArg (Option.map fun source => (false, source)) read
    · exact congrArg (Option.map fun source => (false, source)) read
    · exact congrArg (Option.map fun source => (false, source)) read

theorem number_head {digits : List UInt8} (areDigits : Digits digits) :
    Source.isDigit ((digits ++ next).headD 0) = true :=
  match digits, areDigits with
  | [], areDigits => absurd rfl areDigits.1
  | first :: _, areDigits => areDigits.2 first List.mem_cons_self

theorem getNumber_seek {sign digits fraction exponent : List UInt8} (strict : source.allowHex = false)
    (isSign : Sign sign)
    (areDigits : Digits digits) (isFraction : Fraction fraction) (isExponent : Exponent exponent)
    (delimited : Delimited next) :
    (source.seek (sign ++ digits ++ fraction ++ exponent ++ next)).getNumber =
      some (decide (sign = [] ∧ fraction = [] ∧ exponent = []), source.seek next) := by
  have behind := not_numeral delimited.numeral
  have afterFraction : Source.isDigit ((exponent ++ next).headD 0) = false ∧ (exponent ++ next).headD 0 ≠ 46 := by
    rcases isExponent with rfl | ⟨letter, sign, digits, rfl | rfl, -, -, rfl⟩
    · exact ⟨behind.1, behind.2.1⟩
    · exact ⟨rfl, show (69 : UInt8) ≠ 46 by decide⟩
    · exact ⟨rfl, show (101 : UInt8) ≠ 46 by decide⟩
  have afterDigits : Source.isDigit ((fraction ++ (exponent ++ next)).headD 0) = false := by
    rcases isFraction with rfl | ⟨digits, -, rfl⟩
    · exact afterFraction.1
    · rfl
  have head := @number_head (fraction ++ (exponent ++ next)) _ areDigits
  have text : sign ++ digits ++ fraction ++ exponent ++ next =
    sign ++ (digits ++ (fraction ++ (exponent ++ next))) := by
    simp only [List.append_assoc]
  have signed : (source.seek (sign ++ (digits ++ (fraction ++ (exponent ++ next))))).afterMinus =
        source.seek (digits ++ (fraction ++ (exponent ++ next))) ∧
      ((source.seek (sign ++ (digits ++ (fraction ++ (exponent ++ next))))).peekChar ≠ 45 ↔ sign = []) := by
    rcases isSign with rfl | rfl
    · have noMinus : (digits ++ (fraction ++ (exponent ++ next))).headD 0 ≠ 45 := by
        intro minus
        rw [minus] at head
        exact absurd head (by decide)
      refine ⟨if_neg noMinus, iff_of_true noMinus rfl⟩
    · exact ⟨rfl, iff_of_false (not_not.mpr rfl) (List.cons_ne_nil _ _)⟩
  have whole := digits_seek source areDigits afterDigits
  rw [text, Source.getNumber, signed.1, if_neg (not_not.mpr whole.1),
    if_neg (fun hex => Bool.false_ne_true (strict.symm.trans hex.1)), whole.2,
      fraction_seek source isFraction afterFraction.1 afterFraction.2]
  dsimp only [Option.bind_some]
  rw [exponent_seek source isExponent behind.1 behind.2.2]
  simp only [Option.map_some, signed.2, Bool.and_assoc, Bool.decide_and]

end

/-- What the C standard says of `strtod`, for which the numbers of JSON are
numerals. -/
structure ReadsNumbers (numeral : List UInt8 → Prop) (double : List UInt8 → UInt64)
    (strtod : List UInt8 → UInt64 × Nat) : Prop
    extends Source.ReadsNumerals numeral double strtod where
  numbers : ∀ sign digits fraction exponent, Sign sign → Digits digits → Fraction fraction → Exponent exponent →
    numeral (sign ++ digits ++ fraction ++ exponent)

section

variable {next behind : List UInt8}

theorem strtoul_seek {digits : List UInt8} (areDigits : Digits digits) (delimited : Delimited next)
    (small : Source.digitsValue 10 digits < 2 ^ 64) :
    (Source.strtoul (digits ++ next ++ 0 :: behind) false).1 = Source.digitsValue 10 digits := by
  have noDigit : Source.isDigit ((next ++ 0 :: behind).headD 0) = false := by
    rcases next with _ | ⟨byte, next⟩
    · rfl
    · exact (not_numeral delimited.numeral).1
  have taken := (takeWhile_digits areDigits.2 (Or.inr noDigit)).1
  rw [Source.strtoul, if_neg (fun both => Bool.false_ne_true both.1), List.append_assoc]
  simp only [taken]
  exact Nat.min_eq_left (by omega)

theorem strtod_seek {numeral : List UInt8 → Prop} {double : List UInt8 → UInt64} {strtod : List UInt8 → UInt64 × Nat}
    (reads : Source.ReadsNumerals numeral double strtod) {text : List UInt8} (isNumeral : numeral text)
    (starts : Source.startsNumber text = true) (delimited : Delimited next) :
    (strtod (text ++ next ++ 0 :: behind)).1 = double text := by
  rcases reads.reads _ (Source.startsNumber_append starts (next ++ 0 :: behind)) with ⟨longest, isLongest, converted⟩
  have stops : Source.isNumeral ((next ++ 0 :: behind).headD 0) = false := by
    rcases next with _ | ⟨byte, next⟩
    · rfl
    · exact delimited.numeral
  have notShorter := isLongest.longest text (List.prefix_append _ _) isNumeral
  have same : text = longest := by
    by_contra differs
    have within : text <+: longest :=
      List.prefix_of_prefix_length_le (List.prefix_append _ _) isLongest.starts notShorter
    rcases within with ⟨more, rfl⟩
    rcases more with _ | ⟨byte, more⟩
    · exact differs (List.append_nil text).symm
    · have first : byte = (next ++ 0 :: behind).headD 0 := by
        rcases isLongest.starts with ⟨others, whole⟩
        rw [List.append_assoc, List.append_cancel_left_eq] at whole
        rw [← whole]
        rfl
      have bad := reads.bytes _ isLongest.isKind byte (List.mem_append_right _ List.mem_cons_self)
      rw [first, stops] at bad
      cases bad
  rw [List.append_assoc, converted, same]

end

/-! ## Values -/

/-- Unsigned integers fit into 64 bits, and member names have no NUL. -/
inductive Fitting : Json → Prop where
  | null : Fitting .null
  | bool (value : Bool) : Fitting (.bool value)
  | uint {value : Nat} (small : value < 2 ^ 64) : Fitting (.uint value)
  | number (bits : UInt64) : Fitting (.number bits)
  | string (bytes : List UInt8) : Fitting (.string bytes)
  | array {elements : List Json} (each : ∀ element ∈ elements, Fitting element) : Fitting (.array elements)
  | object {members : List (List UInt8 × Json)} (names : ∀ member ∈ members, 0 ∉ member.1)
      (values : ∀ member ∈ members, Fitting member.2) : Fitting (.object members)

section

variable {ops : FloatOps} {numeral : List UInt8 → Prop} {double : List UInt8 → UInt64} {behind : List UInt8}

/-- A value is read wherever it stands, with enough fuel. -/
def Reads (ops : FloatOps) (behind : List UInt8) (text : List UInt8) (tree : Json) : Prop :=
  Solid text ∧ ∀ (source : Source) (spaces next : List UInt8) (fuel : Nat), source.allowHex = false →
    source.beyond = 0 :: behind →
    Dialect.json.Spaces spaces → Delimited next → 2 * text.length ≤ fuel →
    readValue ops fuel (source.seek (spaces ++ (text ++ next))) = some (tree, source.seek next)

theorem Solid.append {text : List UInt8} (solid : Solid text) (next : List UInt8) : Solid (text ++ next) := by
  cases text with
  | nil => exact absurd rfl solid.2
  | cons byte text => exact solid

theorem Solid.headD_append {text : List UInt8} (solid : Solid text) (next : List UInt8) :
    (text ++ next).headD 0 = text.headD 0 := by
  cases text with
  | nil => exact absurd rfl solid.2
  | cons byte text => rfl

theorem Solid.length_pos {text : List UInt8} (solid : Solid text) : 0 < text.length := by
  cases text with
  | nil => exact absurd rfl solid.2
  | cons byte text => exact Nat.succ_pos _

/-- Reading a value starts with its first byte. -/
theorem readValue_step {source : Source} {spaces next : List UInt8} (areSpaces : Dialect.json.Spaces spaces)
    (solid : Solid next)
    (fuel : Nat) :
    readValue ops (fuel + 1) (source.seek (spaces ++ next)) =
      match charClass (next.headD 0) with
      | .quote => (readString (source.seek next)).bind fun (bytes, source) => some (.string bytes, source)
      | .brace =>
          let source := (source.seek (next.drop 1)).skipSpace
          if source.peekChar = 125 then some (.object [], source.consume 1)
          else (readMembers ops fuel source source.peekChar).bind fun (members, source) =>
            some (.object members, source)
      | .bracket =>
          let source := (source.seek (next.drop 1)).skipSpace
          if source.peekChar = 93 then some (.array [], source.consume 1)
          else (readElements ops fuel source).bind fun (elements, source) => some (.array elements, source)
      | .number => readNumber ops (source.seek next)
      | .letter => readIdentifier (source.seek next)
      | .other => none := by
  have skipped := skipSpace_seek source areSpaces solid.1
  cases isClass : charClass (next.headD 0) <;>
    simp only [readValue, skipped, Source.seek_peekChar, if_neg solid.2, Source.seek_consume, isClass]

theorem reads_symbol {name : List UInt8} {tree : Json} (isSymbol : symbol name = some tree) :
    Reads ops behind name tree := by
  have identifier : (∀ byte ∈ name, Source.isIdentifier byte = true) ∧ Solid name ∧
    charClass (name.headD 0) = .letter := by
    rw [symbol] at isSymbol
    split_ifs at isSymbol with isTrue isFalse isNull
    · rw [isTrue]
      exact ⟨List.all_eq_true.mp (by decide), ⟨by decide, by decide⟩, by decide⟩
    · rw [isFalse]
      exact ⟨List.all_eq_true.mp (by decide), ⟨by decide, by decide⟩, by decide⟩
    · rw [isNull]
      exact ⟨List.all_eq_true.mp (by decide), ⟨by decide, by decide⟩, by decide⟩
  rcases identifier with ⟨letters, solid, isLetter⟩
  refine ⟨solid, ?_⟩
  intro source spaces next fuel strict ends areSpaces delimited enough
  have positive := solid.length_pos
  rcases fuel with _ | fuel
  · omega
  have other : next = [] ∨ Source.isIdentifier (next.headD 0) = false := by
    rcases delimited with rfl | separator
    · exact Or.inl rfl
    · refine Or.inr ?_
      simp only [isSeparator, decide_eq_true_eq] at separator
      rcases separator with is | is | is | is | is | is | is | is
      all_goals
        rw [is]
        decide
  have first := solid.headD_append next
  have taken := takeWhile_digits letters other
  rw [readValue_step areSpaces (solid.append next), first, isLetter]
  simp only [readIdentifier, Source.seek_next, taken.1, taken.2, isSymbol]
  rfl

theorem reads_string {text bytes : List UInt8} (chars : Chars .parsed text bytes) :
    Reads ops behind (quoted text) (.string bytes) := by
  refine ⟨⟨rfl, show (34 : UInt8) ≠ 0 by decide⟩, ?_⟩
  intro source spaces next fuel strict ends areSpaces delimited enough
  rcases fuel with _ | fuel
  · exact absurd enough (by simp [quoted])
  have solid : Solid (quoted text ++ next) := ⟨rfl, show (34 : UInt8) ≠ 0 by decide⟩
  have read := @readString_seek source [] text bytes noSpaces chars next
  rw [List.nil_append] at read
  rw [readValue_step areSpaces solid, show charClass ((quoted text ++ next).headD 0) = .quote from rfl]
  simp only [read, Option.bind_some]

theorem isSpace_of_digit {byte : UInt8} (digit : Source.isDigit byte = true) : Source.isSpace byte = false := by
  have bounds := digit_bounds digit
  simp only [Source.isSpace, decide_eq_false_iff_not, UInt8.le_iff_toNat_le, ← UInt8.toNat_inj]
  rintro (is | is)
  · change byte.toNat = 32 at is
    omega
  · change _ ∧ byte.toNat ≤ 13 at is
    omega

theorem reads_number (reads : ReadsNumbers numeral double ops.strtod) {sign digits fraction exponent : List UInt8}
    (isSign : Sign sign)
    (areDigits : Digits digits) (isFraction : Fraction fraction) (isExponent : Exponent exponent) {tree : Json}
    (isTree : (sign = [] ∧ fraction = [] ∧ exponent = [] → tree = .uint (Source.digitsValue 10 digits) ∧
        Source.digitsValue 10 digits < 2 ^ 64) ∧
      (¬ (sign = [] ∧ fraction = [] ∧ exponent = []) →
        tree = .number (double (sign ++ digits ++ fraction ++ exponent)))) :
    Reads ops behind (sign ++ digits ++ fraction ++ exponent) tree := by
  have starts : Source.startsNumber (sign ++ digits ++ fraction ++ exponent) = true := by
    have digit := @number_head (fraction ++ exponent) _ areDigits
    rw [List.append_assoc, List.append_assoc]
    rcases isSign with rfl | rfl
    · simp only [Source.startsNumber, List.nil_append, digit, true_or, decide_true]
    · have second : ([45] ++ (digits ++ (fraction ++ exponent))).getD 1 0 =
        (digits ++ (fraction ++ exponent)).headD 0 := by
        rw [List.getD_eq_getElem?_getD, List.headD_eq_head?_getD, List.head?_eq_getElem?]
        rfl
      rw [Source.startsNumber, second, digit]
      rfl
  have solid : Solid (sign ++ digits ++ fraction ++ exponent) := by
    rw [List.append_assoc, List.append_assoc]
    have digit := @number_head (fraction ++ exponent) _ areDigits
    rcases isSign with rfl | rfl
    · exact ⟨isSpace_of_digit digit, isDigit_nonzero digit⟩
    · exact ⟨rfl, show (45 : UInt8) ≠ 0 by decide⟩
  refine ⟨solid, ?_⟩
  intro source spaces next fuel strict ends areSpaces delimited enough
  have positive := solid.length_pos
  rcases fuel with _ | fuel
  · omega
  have isNumber : charClass ((sign ++ digits ++ fraction ++ exponent ++ next).headD 0) = .number :=
    @startsNumber_class (source.seek _) (Source.startsNumber_append starts next)
  have found := getNumber_seek source strict isSign areDigits isFraction isExponent delimited
  rw [readValue_step areSpaces (solid.append next), isNumber]
  dsimp only
  rw [readNumber, found, Option.map_some, Source.seek_memory, ends]
  by_cases isUint : sign = [] ∧ fraction = [] ∧ exponent = []
  · rcases isTree.1 isUint with ⟨rfl, small⟩
    rcases isUint with ⟨rfl, rfl, rfl⟩
    have value := @strtoul_seek next behind digits areDigits delimited small
    simp only [List.nil_append, List.append_nil, and_self, decide_true, if_true, Source.seek_flags, strict, value]
  · have value := @strtod_seek next behind numeral double _ reads.toReadsNumerals _
      (reads.numbers sign digits fraction exponent isSign areDigits isFraction isExponent) starts delimited
    simp only [decide_eq_false isUint, Bool.false_eq_true, if_false, value, isTree.2 isUint]

/-! ## Collections -/

theorem Reads.head_ne {text : List UInt8} {tree : Json} (reads : Reads ops behind text tree) : text.headD 0 ≠ 93 := by
  intro bracket
  have read := reads.2 { next := [], beyond := 0 :: behind } [] [] (2 * text.length + 1) rfl rfl noSpaces (Or.inl rfl)
    (Nat.le_succ _)
  rw [@readValue_step ops _ [] _ noSpaces (reads.1.append []), List.append_nil, bracket] at read
  cases read

theorem delimited_spaces {after : List UInt8} (areSpaces : Dialect.json.Spaces after) {c : UInt8}
    (separator : isSeparator c = true)
    (next : List UInt8) : Delimited (after ++ c :: next) := by
  cases after with
  | nil => exact Or.inr separator
  | cons byte after => exact Or.inr (separator_of_space (areSpaces byte List.mem_cons_self))

theorem commas_bytes (piece : Piece) (pieces : List Piece) :
    commas ((piece :: pieces).map Piece.bytes) = piece.before ++ commas
      (({ piece with before := [] } :: pieces).map Piece.bytes) := by
  cases pieces with
  | nil => simp [commas, Piece.bytes]
  | cons next pieces => simp [commas, Piece.bytes]

theorem commas_members (member : MemberPiece) (members : List MemberPiece) :
    commas ((member :: members).map MemberPiece.bytes) =
      member.before ++ commas (({ member with before := [] } :: members).map MemberPiece.bytes) := by
  cases members with
  | nil => simp [commas, MemberPiece.bytes]
  | cons next members => simp [commas, MemberPiece.bytes]

theorem readElements_seek (source : Source) (strict : source.allowHex = false) (ends : source.beyond = 0 :: behind)
    (next : List UInt8) {pieces : List Piece} (some : pieces ≠ [])
    (spaced : ∀ piece ∈ pieces, Dialect.json.Spaces piece.before ∧ Dialect.json.Spaces piece.after)
    (values : ∀ piece ∈ pieces, Reads ops behind piece.text piece.tree) {fuel : Nat}
    (enough : 2 * (commas (pieces.map Piece.bytes)).length + 1 ≤ fuel) :
    readElements ops fuel (source.seek (commas (pieces.map Piece.bytes) ++ 93 :: next)) =
      .some (pieces.map Piece.tree, source.seek next) := by
  induction pieces generalizing fuel with
  | nil => exact absurd rfl some
  | cons piece pieces ih =>
      have itself := List.mem_cons_self (a := piece) (l := pieces)
      rcases fuel with _ | fuel
      · exact absurd enough (Nat.not_succ_le_zero _)
      cases pieces with
      | nil =>
          have long : 2 * piece.text.length ≤ fuel := by
            simp only [commas, List.map_cons, List.map_nil, Piece.bytes, List.length_append] at enough
            omega
          have read := (values piece itself).2 source piece.before (piece.after ++ 93 :: next) fuel strict ends
            (spaced piece itself).1
            (delimited_spaces (spaced piece itself).2 rfl next) long
          have skipped := skipSpace_seek source (spaced piece itself).2
            (show Source.isSpace ((93 :: next).headD 0) = false from rfl)
          have text : commas ([piece].map Piece.bytes) ++ 93 :: next =
              piece.before ++ (piece.text ++ (piece.after ++ 93 :: next)) := by
            simp [commas, Piece.bytes]
          rw [text, readElements, read]
          simp only [Option.bind_some, skipped]
          rfl
      | cons second pieces =>
          have later := @ih (List.cons_ne_nil _ _) (fun other member => spaced other (List.mem_cons_of_mem _ member))
            (fun other member => values other (List.mem_cons_of_mem _ member)) fuel (by
              simp only [List.map_cons, commas, List.length_append, List.length_cons] at enough ⊢
              omega)
          have long : 2 * piece.text.length ≤ fuel := by
            simp only [commas, List.map_cons, Piece.bytes, List.length_append] at enough
            omega
          have read := (values piece itself).2 source piece.before
            (piece.after ++ 44 :: (commas ((second :: pieces).map Piece.bytes) ++ 93 :: next)) fuel strict ends
            (spaced piece itself).1
            (delimited_spaces (spaced piece itself).2 rfl _) long
          have skipped := @skipSpace_seek source piece.after
            (44 :: (commas ((second :: pieces).map Piece.bytes) ++ 93 :: next))
            (spaced piece itself).2 rfl
          have text : commas ((piece :: second :: pieces).map Piece.bytes) ++ 93 :: next =
              piece.before ++ (piece.text ++ (piece.after ++ 44 ::
                (commas ((second :: pieces).map Piece.bytes) ++ 93 :: next))) := by
            simp [commas, Piece.bytes]
          rw [text, readElements, read]
          simp only [Option.bind_some, skipped, Source.seek_peekChar, Source.seek_consume]
          exact (congrArg (Option.bind · _) later).trans rfl

theorem readMembers_seek (source : Source) (strict : source.allowHex = false) (ends : source.beyond = 0 :: behind)
    (next : List UInt8) {member : MemberPiece} {members : List MemberPiece}
    (spaced : ∀ other ∈ member :: members, Dialect.json.Spaces other.before ∧ Dialect.json.Spaces other.between ∧
      Dialect.json.Spaces other.value.before ∧ Dialect.json.Spaces other.value.after)
    (names : ∀ other ∈ member :: members, Chars .parsed other.quotedName other.name)
    (values : ∀ other ∈ member :: members, Reads ops behind other.value.text other.value.tree) {fuel : Nat}
    (enough : 2 * (commas ((member :: members).map MemberPiece.bytes)).length + 1 ≤ fuel) :
    readMembers ops fuel
        (source.seek (commas (({ member with before := [] } :: members).map MemberPiece.bytes) ++ 125 :: next)) 34 =
      .some ((member :: members).map fun member => (member.name, member.value.tree), source.seek next) := by
  induction members generalizing member fuel with
  | nil =>
      have itself := List.mem_singleton_self member
      rcases spaced member itself with ⟨-, areBetween, areBefore, areAfter⟩
      rcases fuel with _ | fuel
      · exact absurd enough (Nat.not_succ_le_zero _)
      have long : 2 * member.value.text.length ≤ fuel := by
        simp only [commas, List.map_cons, List.map_nil, MemberPiece.bytes, Piece.bytes, List.length_append,
          List.length_cons] at enough
        omega
      have name := @readString_seek source [] _ _ noSpaces (names member itself)
        (member.between ++ 58 :: (member.value.before ++ (member.value.text ++ (member.value.after ++ 125 :: next))))
      have colon := @skipSpace_seek source member.between
        (58 :: (member.value.before ++ (member.value.text ++ (member.value.after ++ 125 :: next)))) areBetween rfl
      have read := (values member itself).2 source member.value.before
        (member.value.after ++ 125 :: next) fuel strict ends areBefore
        (delimited_spaces areAfter rfl next) long
      have close := @skipSpace_seek source member.value.after (125 :: next) areAfter rfl
      have text : commas ([{ member with before := [] }].map MemberPiece.bytes) ++ 125 :: next =
          [] ++ quoted member.quotedName ++ (member.between ++ 58 ::
            (member.value.before ++ (member.value.text ++ (member.value.after ++ 125 :: next)))) := by
        simp [commas, MemberPiece.bytes, Piece.bytes]
      rw [text, readMembers, if_neg (not_not.mpr rfl), name]
      simp only [Option.bind_some, colon, Source.seek_peekChar, Source.seek_consume]
      refine (congrArg (Option.bind · _) read).trans ?_
      simp only [Option.bind_some, close, Source.seek_peekChar, Source.seek_consume]
      rfl
  | cons second members ih =>
      have itself := List.mem_cons_self (a := member) (l := second :: members)
      rcases spaced member itself with ⟨-, areBetween, areBefore, areAfter⟩
      rcases fuel with _ | fuel
      · exact absurd enough (Nat.not_succ_le_zero _)
      have later := @ih second (fun other inside => spaced other (List.mem_cons_of_mem _ inside))
        (fun other inside => names other (List.mem_cons_of_mem _ inside))
        (fun other inside => values other (List.mem_cons_of_mem _ inside)) fuel (by
          simp only [List.map_cons, commas, List.length_append, List.length_cons] at enough ⊢
          omega)
      have long : 2 * member.value.text.length ≤ fuel := by
        simp only [commas, List.map_cons, MemberPiece.bytes, Piece.bytes, List.length_append,
          List.length_cons] at enough
        omega
      have rest := commas_members second members
      have areSecond := (spaced second (List.mem_cons_of_mem _ List.mem_cons_self)).1
      let others := commas ((second :: members).map MemberPiece.bytes) ++ 125 :: next
      have name := @readString_seek source [] _ _ noSpaces (names member itself)
        (member.between ++ 58 :: (member.value.before ++ (member.value.text ++ (member.value.after ++ 44 :: others))))
      have colon := @skipSpace_seek source member.between
        (58 :: (member.value.before ++ (member.value.text ++ (member.value.after ++ 44 :: others)))) areBetween rfl
      have read := (values member itself).2 source member.value.before
        (member.value.after ++ 44 :: others) fuel strict ends areBefore
        (delimited_spaces areAfter rfl _) long
      have comma := @skipSpace_seek source member.value.after (44 :: others) areAfter rfl
      have quote : ((commas (({ second with before := [] } :: members).map MemberPiece.bytes) ++
        125 :: next).headD 0) = 34 := by
        cases members with
        | nil => rfl
        | cons third members => rfl
      have following : (source.seek others).skipSpace =
          source.seek (commas (({ second with before := [] } :: members).map MemberPiece.bytes) ++ 125 :: next) := by
        rw [show others = _ from congrArg (· ++ 125 :: next) rest, List.append_assoc]
        exact skipSpace_seek source areSecond (by rw [quote]; rfl)
      have text : commas (({ member with before := [] } :: second :: members).map MemberPiece.bytes) ++ 125 :: next =
          [] ++ quoted member.quotedName ++ (member.between ++ 58 ::
            (member.value.before ++ (member.value.text ++ (member.value.after ++ 44 :: others)))) := by
        simp [commas, MemberPiece.bytes, Piece.bytes, others]
      rw [text, readMembers, if_neg (not_not.mpr rfl), name]
      simp only [Option.bind_some, colon, Source.seek_peekChar, Source.seek_consume]
      refine (congrArg (Option.bind · _) read).trans ?_
      simp only [Option.bind_some, comma, Source.seek_peekChar, Source.seek_consume]
      refine (congrArg (fun source => Option.bind (readMembers ops fuel source source.peekChar) _) following).trans ?_
      rw [Source.seek_peekChar, quote, later]
      rfl

theorem commas_text (piece : Piece) (pieces : List Piece) :
    ∃ rest, commas (({ piece with before := [] } :: pieces).map Piece.bytes) = piece.text ++ rest := by
  cases pieces with
  | nil => exact ⟨piece.after, rfl⟩
  | cons second pieces =>
      refine ⟨piece.after ++ 44 :: commas ((second :: pieces).map Piece.bytes), ?_⟩
      simp [commas, Piece.bytes]

/-! ## Texts -/

theorem readValue_bracket {source : Source} {outer inside next : List UInt8} (areOuter : Dialect.json.Spaces outer)
    (areInside : Dialect.json.Spaces inside) (noSpace : Source.isSpace (next.headD 0) = false) (fuel : Nat) :
    readValue ops (fuel + 1) (source.seek (outer ++ 91 :: (inside ++ next))) =
      if next.headD 0 = 93 then some (.array [], source.seek (next.drop 1))
      else (readElements ops fuel (source.seek next)).bind fun (elements, source) =>
        some (.array elements, source) := by
  have solid : Solid (91 :: (inside ++ next)) := ⟨rfl, show (91 : UInt8) ≠ 0 by decide⟩
  have skipped := skipSpace_seek source areInside noSpace
  rw [readValue_step areOuter solid]
  simp only [List.headD_cons, show charClass 91 = .bracket from rfl, List.drop_succ_cons, List.drop_zero, skipped]
  rfl

theorem readValue_brace {source : Source} {outer inside next : List UInt8} (areOuter : Dialect.json.Spaces outer)
    (areInside : Dialect.json.Spaces inside) (noSpace : Source.isSpace (next.headD 0) = false) (fuel : Nat) :
    readValue ops (fuel + 1) (source.seek (outer ++ 123 :: (inside ++ next))) =
      if next.headD 0 = 125 then some (.object [], source.seek (next.drop 1))
      else (readMembers ops fuel (source.seek next) (next.headD 0)).bind fun (members, source) =>
        some (.object members, source) := by
  have solid : Solid (123 :: (inside ++ next)) := ⟨rfl, show (123 : UInt8) ≠ 0 by decide⟩
  have skipped := skipSpace_seek source areInside noSpace
  rw [readValue_step areOuter solid]
  simp only [List.headD_cons, show charClass 123 = .brace from rfl, List.drop_succ_cons, List.drop_zero, skipped]
  rfl

structure Dialect.Readable (dialect : Dialect) : Prop where
  spaces : ∀ text, dialect.Spaces text → Dialect.json.Spaces text
  whole : ∀ text, dialect.whole text → Digits text
  chars : ∀ text bytes, Chars dialect text bytes → Chars .parsed text bytes

theorem readable_plain : Dialect.plain.Readable :=
  ⟨fun _ areSpaces => areSpaces, fun _ isWhole => isWhole.1, fun _ _ chars => chars.parsed⟩

theorem Value.reads {dialect : Dialect} (readable : dialect.Readable) (numbers : ReadsNumbers numeral double ops.strtod)
    {text : List UInt8} {tree : Json} (value : Value dialect double text tree) (fitting : Fitting tree) :
    Reads ops behind text tree := by
  induction value with
  | symbol isSymbol => exact reads_symbol isSymbol
  | @uint digits isWhole =>
      cases fitting with
      | uint small =>
          have read := @reads_number ops numeral double behind numbers [] digits [] [] (Or.inl rfl)
            (readable.whole _ isWhole) (Or.inl rfl) (Or.inl rfl)
            (.uint (Source.digitsValue 10 digits)) ⟨fun _ => ⟨rfl, small⟩, fun other => absurd ⟨rfl, rfl, rfl⟩ other⟩
          rw [List.nil_append, List.append_nil, List.append_nil] at read
          exact read
  | number isSign isWhole isFraction isExponent notUint =>
      exact reads_number numbers isSign (readable.whole _ isWhole) isFraction isExponent
        ⟨fun isUint => absurd isUint notUint, fun _ => rfl⟩
  | string chars => exact reads_string (readable.chars _ _ chars)
  | @emptyArray spaces areSpaces =>
      refine ⟨⟨rfl, show (91 : UInt8) ≠ 0 by decide⟩, ?_⟩
      intro source outer next fuel strict ends areOuter delimited enough
      rcases fuel with _ | fuel
      · exact absurd enough (by simp)
      have text : 91 :: (spaces ++ [93]) ++ next = 91 :: (spaces ++ 93 :: next) := by simp
      rw [text, readValue_bracket areOuter (readable.spaces _ areSpaces) rfl]
      exact if_pos rfl
  | @array pieces some spaced values ih =>
      cases fitting with
      | array each =>
          refine ⟨⟨rfl, show (91 : UInt8) ≠ 0 by decide⟩, ?_⟩
          intro source outer next fuel strict ends areOuter delimited enough
          rcases fuel with _ | fuel
          · exact absurd enough (by simp)
          replace spaced : ∀ piece ∈ pieces, Dialect.json.Spaces piece.before ∧ Dialect.json.Spaces piece.after :=
            fun piece member => ⟨readable.spaces _ (spaced piece member).1, readable.spaces _ (spaced piece member).2⟩
          rcases pieces with _ | ⟨piece, pieces⟩
          · exact absurd rfl some
          have are : ∀ other ∈ piece :: pieces, Reads ops behind other.text other.tree :=
            fun other member => ih other member (each _ (List.mem_map_of_mem member))
          have first := are piece List.mem_cons_self
          rcases commas_text piece pieces with ⟨rest, isText⟩
          have head : (commas (({ piece with before := [] } :: pieces).map Piece.bytes) ++ 93 :: next).headD 0 =
              piece.text.headD 0 := by
            rw [isText, List.append_assoc]
            exact first.1.headD_append _
          have read := @readElements_seek ops behind source strict ends next ({ piece with before := [] } :: pieces)
            (List.cons_ne_nil _ _) (by
              intro other member
              rcases List.mem_cons.mp member with rfl | later
              · exact ⟨noSpaces, (spaced piece List.mem_cons_self).2⟩
              · exact spaced other (List.mem_cons_of_mem _ later)) (by
              intro other member
              rcases List.mem_cons.mp member with rfl | later
              · exact first
              · exact are other (List.mem_cons_of_mem _ later)) fuel (by
              rw [commas_bytes, List.length_cons, List.length_append, List.length_append] at enough
              omega)
          have text : 91 :: (commas ((piece :: pieces).map Piece.bytes) ++ [93]) ++ next =
              91 :: (piece.before ++ (commas (({ piece with before := [] } :: pieces).map Piece.bytes) ++
                93 :: next)) := by
            rw [commas_bytes]
            simp
          rw [text, readValue_bracket areOuter (spaced piece List.mem_cons_self).1
            (by rw [head]; exact first.1.1), head,
            if_neg first.head_ne, read]
          rfl
  | @emptyObject spaces areSpaces =>
      refine ⟨⟨rfl, show (123 : UInt8) ≠ 0 by decide⟩, ?_⟩
      intro source outer next fuel strict ends areOuter delimited enough
      rcases fuel with _ | fuel
      · exact absurd enough (by simp)
      have text : 123 :: (spaces ++ [125]) ++ next = 123 :: (spaces ++ 125 :: next) := by simp
      rw [text, readValue_brace areOuter (readable.spaces _ areSpaces) rfl]
      exact if_pos rfl
  | @object members some spaced names values ih =>
      cases fitting with
      | object noNul each =>
          refine ⟨⟨rfl, show (123 : UInt8) ≠ 0 by decide⟩, ?_⟩
          intro source outer next fuel strict ends areOuter delimited enough
          rcases fuel with _ | fuel
          · exact absurd enough (by simp)
          replace spaced : ∀ member ∈ members, Dialect.json.Spaces member.before ∧ Dialect.json.Spaces member.between ∧
              Dialect.json.Spaces member.value.before ∧ Dialect.json.Spaces member.value.after := by
            intro member inside
            rcases spaced member inside with ⟨before, between, beforeValue, afterValue⟩
            exact ⟨readable.spaces _ before, readable.spaces _ between, readable.spaces _ beforeValue,
              readable.spaces _ afterValue⟩
          rcases members with _ | ⟨member, members⟩
          · exact absurd rfl some
          have are : ∀ other ∈ member :: members, Reads ops behind other.value.text other.value.tree :=
            fun other inside => ih other inside (each _ (List.mem_map_of_mem inside))
          have head : (commas (({ member with before := [] } :: members).map MemberPiece.bytes) ++
            125 :: next).headD 0 = 34 := by
            cases members with
            | nil => rfl
            | cons second members => rfl
          have read := @readMembers_seek ops behind source strict ends next member members spaced
            (fun other inside => readable.chars _ _ (names other inside)) are fuel (by
            rw [List.length_cons, List.length_append] at enough
            omega)
          have text : 123 :: (commas ((member :: members).map MemberPiece.bytes) ++ [125]) ++ next =
              123 :: (member.before ++ (commas (({ member with before := [] } :: members).map MemberPiece.bytes) ++
                125 :: next)) := by
            rw [commas_members]
            simp
          rw [text, readValue_brace areOuter (spaced member List.mem_cons_self).1 (by rw [head]; rfl), head,
            if_neg (show ¬ (34 : UInt8) = 125 by decide), read]
          rfl

end

end Jitson
end LibKit
