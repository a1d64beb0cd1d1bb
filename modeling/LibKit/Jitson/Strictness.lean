import LibKit.Jitson.Soundness
import LibKit.Jitson.Layout

namespace LibKit
namespace Jitson

/-!
# Strict parsing

The strict parser accepts texts that are no JSON: it takes vertical tabs and
form feeds for spaces, whole numbers with leading zeros, and any bytes but NUL
in strings.  A scan of the bytes of a text tells them apart.
-/

/-! ## Scanning a text -/

/-- Where a scan is in a text: outside of strings and numbers, behind the
leading zero of a number, in a number, in a string, behind a backslash, or in a
character of several bytes. -/
inductive Scan where
  | outside
  | zero
  | number
  | string
  | escape
  | tail (more : Nat) (low high : UInt8)

namespace Scan

def enter (byte : UInt8) : Option Scan :=
  if byte = 34 then some .string
  else if byte = 48 then some .zero
  else if Source.isDigit byte then some .number
  else if byte = 11 ∨ byte = 12 then none
  else some .outside

def step (state : Scan) (byte : UInt8) : Option Scan :=
  match state with
  | .outside => enter byte
  | .zero =>
      if Source.isDigit byte then none
      else if byte = 46 ∨ byte = 69 ∨ byte = 101 then some .number
      else enter byte
  | .number =>
      if Source.isDigit byte ∨ byte = 43 ∨ byte = 45 ∨ byte = 46 ∨ byte = 69 ∨ byte = 101 then some .number
      else enter byte
  | .string =>
      if byte = 34 then some .outside
      else if byte = 92 then some .escape
      else if byte < 32 then none
      else if byte < 128 then some .string
      else (follow byte).map fun (more, low, high) => .tail more low high
  | .escape => some .string
  | .tail more low high =>
      if low ≤ byte ∧ byte ≤ high then some (if more ≤ 1 then .string else .tail (more - 1) 0x80 0xBF)
      else none

def scan : Scan → List UInt8 → Option Scan
  | state, [] => some state
  | state, byte :: rest => (state.step byte).bind fun next => scan next rest

theorem scan_append (state : Scan) (first second : List UInt8) :
    scan state (first ++ second) = (scan state first).bind fun next => scan next second := by
  induction first generalizing state with
  | nil => rfl
  | cons byte first ih =>
      rw [List.cons_append, scan, scan, Option.bind_assoc]
      exact congrArg _ (funext ih)

theorem scan_append_eq_some {state last : Scan} {first second : List UInt8}
    (scanned : scan state (first ++ second) = some last) :
    ∃ middle, scan state first = some middle ∧ scan middle second = some last := by
  rw [scan_append] at scanned
  exact Option.bind_eq_some_iff.mp scanned

theorem scan_trans {state middle last : Scan} {first second : List UInt8} (one : scan state first = some middle)
    (other : scan middle second = some last) : scan state (first ++ second) = some last := by
  rw [scan_append, one]
  exact other

theorem scan_cons {state next last : Scan} {byte : UInt8} {rest : List UInt8} (one : state.step byte = some next)
    (other : scan next rest = some last) : scan state (byte :: rest) = some last := by
  rw [scan, one]
  exact other

/-- Neither in a string nor in one of its characters. -/
def settled : Scan → Bool
  | .outside | .zero | .number => true
  | .string | .escape | .tail _ _ _ => false

def numeric : Scan → Bool
  | .zero | .number => true
  | _ => false

theorem settled_of_numeric {state : Scan} (isNumeric : state.numeric = true) : state.settled = true := by
  cases state with
  | zero => rfl
  | number => rfl
  | outside => cases isNumeric
  | string => cases isNumeric
  | escape => cases isNumeric
  | tail more low high => cases isNumeric

end Scan

open Scan (scan)

/-- No vertical tab or form feed is outside of a string, no digit behind a
leading zero, and strings are UTF-8 without control characters. -/
def Clean (text : List UInt8) : Prop := ∃ last, scan .outside text = some last

/-! ## Spaces -/

def isSeparator (byte : UInt8) : Bool :=
  byte = 9 ∨ byte = 10 ∨ byte = 13 ∨ byte = 32 ∨ byte = 44 ∨ byte = 58 ∨ byte = 93 ∨ byte = 125

theorem step_separator {state : Scan} (isSettled : state.settled = true) {byte : UInt8}
    (separator : isSeparator byte = true) :
    state.step byte = some .outside := by
  simp only [isSeparator, decide_eq_true_eq] at separator
  cases state with
  | outside => rcases separator with rfl | rfl | rfl | rfl | rfl | rfl | rfl | rfl <;> rfl
  | zero => rcases separator with rfl | rfl | rfl | rfl | rfl | rfl | rfl | rfl <;> rfl
  | number => rcases separator with rfl | rfl | rfl | rfl | rfl | rfl | rfl | rfl <;> rfl
  | string => cases isSettled
  | escape => cases isSettled
  | tail more low high => cases isSettled

theorem separator_of_space {byte : UInt8} (space : Dialect.json.space byte) : isSeparator byte = true := by
  simp only [isSeparator, decide_eq_true_eq]
  rcases space with is | is | is | is
  · exact Or.inr (Or.inr (Or.inr (Or.inl is)))
  · exact Or.inl is
  · exact Or.inr (Or.inl is)
  · exact Or.inr (Or.inr (Or.inl is))

theorem scan_spaces {spaces : List UInt8} (areSpaces : Dialect.json.Spaces spaces) {state : Scan}
    (isSettled : state.settled = true) :
    ∃ last, scan state spaces = some last ∧ last.settled = true ∧ (state = .outside → last = .outside) := by
  induction spaces generalizing state with
  | nil => exact ⟨state, rfl, isSettled, id⟩
  | cons byte spaces ih =>
      rcases @ih (fun other member => areSpaces other (List.mem_cons_of_mem _ member)) .outside rfl with
        ⟨last, scanned, lastSettled, outside⟩
      have stepped := step_separator isSettled (separator_of_space (areSpaces byte List.mem_cons_self))
      exact ⟨last, Scan.scan_cons stepped scanned, lastSettled, fun _ => outside rfl⟩

theorem isSpace_cases {byte : UInt8} (space : Source.isSpace byte = true) :
    Dialect.json.space byte ∨ byte = 11 ∨ byte = 12 := by
  simp only [Source.isSpace, UInt8.le_iff_toNat_le, decide_eq_true_eq] at space
  rcases space with is | ⟨low, high⟩
  · exact Or.inl (Or.inl is)
  · have cases : byte.toNat = 9 ∨ byte.toNat = 10 ∨ byte.toNat = 11 ∨ byte.toNat = 12 ∨ byte.toNat = 13 := by
      have low' : 9 ≤ byte.toNat := low
      have high' : byte.toNat ≤ 13 := high
      omega
    rcases cases with is | is | is | is | is
    · exact Or.inl (Or.inr (Or.inl (UInt8.toNat_inj.mp is)))
    · exact Or.inl (Or.inr (Or.inr (Or.inl (UInt8.toNat_inj.mp is))))
    · exact Or.inr (Or.inl (UInt8.toNat_inj.mp is))
    · exact Or.inr (Or.inr (UInt8.toNat_inj.mp is))
    · exact Or.inl (Or.inr (Or.inr (Or.inr (UInt8.toNat_inj.mp is))))

/-- The scan stops at a vertical tab and at a form feed. -/
theorem step_tab {state : Scan} (isSettled : state.settled = true) {byte : UInt8} (tab : byte = 11 ∨ byte = 12) :
    state.step byte = none := by
  cases state with
  | outside => rcases tab with rfl | rfl <;> rfl
  | zero => rcases tab with rfl | rfl <;> rfl
  | number => rcases tab with rfl | rfl <;> rfl
  | string => cases isSettled
  | escape => cases isSettled
  | tail more low high => cases isSettled

theorem spaces_of_scan {spaces : List UInt8} (areSpaces : Dialect.parsed.Spaces spaces) {state last : Scan}
    (isSettled : state.settled = true) (scanned : scan state spaces = some last) : Dialect.json.Spaces spaces := by
  induction spaces generalizing state with
  | nil => exact fun _ => nofun
  | cons byte spaces ih =>
      rcases Option.bind_eq_some_iff.mp scanned with ⟨next, stepped, rest⟩
      have space : Dialect.json.space byte := by
        rcases isSpace_cases (areSpaces byte List.mem_cons_self) with isJson | tab
        · exact isJson
        · rw [step_tab isSettled tab] at stepped
          cases stepped
      have outside := step_separator isSettled (separator_of_space space)
      rw [outside] at stepped
      cases stepped
      have others := ih (fun other member => areSpaces other (List.mem_cons_of_mem _ member)) rfl rest
      intro other member
      rcases List.mem_cons.mp member with rfl | later
      · exact space
      · exact others other later

/-! ## Numbers -/

theorem digit_bounds {byte : UInt8} (digit : Source.isDigit byte = true) : 48 ≤ byte.toNat ∧ byte.toNat ≤ 57 := by
  simp only [Source.isDigit, UInt8.le_iff_toNat_le, decide_eq_true_eq] at digit
  exact digit

theorem enter_digit {byte : UInt8} (digit : Source.isDigit byte = true) :
    Scan.enter byte = some (if byte = 48 then .zero else .number) := by
  have noQuote : byte ≠ 34 := by
    rintro rfl
    exact absurd digit (by decide)
  rw [Scan.enter, if_neg noQuote]
  by_cases zero : byte = 48
  · rw [if_pos zero, if_pos zero]
  · rw [if_neg zero, if_neg zero, if_pos digit]

theorem step_digit {byte : UInt8} (digit : Source.isDigit byte = true) : Scan.step .number byte = some .number := by
  rw [Scan.step, if_pos (Or.inl digit)]

theorem scan_digits {digits : List UInt8} (areDigits : ∀ byte ∈ digits, Source.isDigit byte = true) :
    scan .number digits = some .number := by
  induction digits with
  | nil => rfl
  | cons byte digits ih =>
      exact Scan.scan_cons (step_digit (areDigits byte List.mem_cons_self))
        (ih fun other member => areDigits other (List.mem_cons_of_mem _ member))

theorem scan_whole {digits : List UInt8} (isWhole : Dialect.json.whole digits) :
    ∃ last, scan .outside digits = some last ∧ last.numeric = true := by
  rcases isWhole with ⟨⟨some, areDigits⟩, leading⟩
  rcases digits with _ | ⟨first, others⟩
  · exact absurd rfl some
  · have entered := enter_digit (areDigits first List.mem_cons_self)
    by_cases zero : first = 48
    · rw [leading zero]
      exact ⟨.zero, rfl, rfl⟩
    · rw [if_neg zero] at entered
      exact ⟨.number, Scan.scan_cons entered (scan_digits fun byte member =>
        areDigits byte (List.mem_cons_of_mem _ member)), rfl⟩

theorem whole_of_scan {digits : List UInt8} (areDigits : Dialect.parsed.whole digits) {last : Scan}
    (scanned : scan .outside digits = some last) : Dialect.json.whole digits := by
  refine ⟨areDigits, ?_⟩
  intro zero
  rcases digits with _ | ⟨first, _ | ⟨second, others⟩⟩
  · cases zero
  · exact congrArg (fun byte => [byte]) zero
  · have isZero : first = 48 := zero
    subst isZero
    have digit := areDigits.2 second (List.mem_cons_of_mem _ List.mem_cons_self)
    rcases Option.bind_eq_some_iff.mp scanned with ⟨next, stepped, rest⟩
    cases stepped
    rcases Option.bind_eq_some_iff.mp rest with ⟨further, stepped, -⟩
    rw [Scan.step, if_pos digit] at stepped
    cases stepped

theorem scan_fraction {fraction : List UInt8} (isFraction : Fraction fraction) {state : Scan}
    (isNumeric : state.numeric = true) : ∃ last, scan state fraction = some last ∧ last.numeric = true := by
  rcases isFraction with rfl | ⟨digits, areDigits, rfl⟩
  · exact ⟨state, rfl, isNumeric⟩
  · have point : state.step 46 = some .number := by
      cases state with
      | zero => rfl
      | number => rfl
      | outside => cases isNumeric
      | string => cases isNumeric
      | escape => cases isNumeric
      | tail more low high => cases isNumeric
    exact ⟨.number, Scan.scan_cons point (scan_digits areDigits.2), rfl⟩

theorem scan_exponent {exponent : List UInt8} (isExponent : Exponent exponent) {state : Scan}
    (isNumeric : state.numeric = true) : ∃ last, scan state exponent = some last ∧ last.numeric = true := by
  rcases isExponent with rfl | ⟨letter, sign, digits, isLetter, isSign, areDigits, rfl⟩
  · exact ⟨state, rfl, isNumeric⟩
  · have started : state.step letter = some .number := by
      cases state with
      | zero => rcases isLetter with rfl | rfl <;> rfl
      | number => rcases isLetter with rfl | rfl <;> rfl
      | outside => cases isNumeric
      | string => cases isNumeric
      | escape => cases isNumeric
      | tail more low high => cases isNumeric
    have signed : scan .number sign = some .number := by
      rcases isSign with rfl | rfl | rfl
      · rfl
      · rfl
      · rfl
    exact ⟨.number, Scan.scan_cons started (Scan.scan_trans signed (scan_digits areDigits.2)), rfl⟩

theorem scan_sign {sign : List UInt8} (isSign : Sign sign) : scan .outside sign = some .outside := by
  rcases isSign with rfl | rfl
  · rfl
  · rfl

theorem scan_number {sign digits fraction exponent : List UInt8} (isSign : Sign sign)
    (isWhole : Dialect.json.whole digits)
    (isFraction : Fraction fraction) (isExponent : Exponent exponent) :
    ∃ last, scan .outside (sign ++ digits ++ fraction ++ exponent) = some last ∧ last.numeric = true := by
  rcases scan_whole isWhole with ⟨whole, wholeScanned, isNumeric⟩
  rcases scan_fraction isFraction isNumeric with ⟨middle, fractionScanned, isNumeric⟩
  rcases scan_exponent isExponent isNumeric with ⟨last, exponentScanned, isNumeric⟩
  refine ⟨last, ?_, isNumeric⟩
  exact Scan.scan_trans (Scan.scan_trans (Scan.scan_trans
    (scan_sign isSign) wholeScanned) fractionScanned) exponentScanned

/-! ## Strings -/

theorem step_ascii {byte : UInt8} (printable : 32 ≤ byte) (seven : byte < 128) (noQuote : byte ≠ 34)
    (noBackslash : byte ≠ 92) : Scan.step .string byte = some .string := by
  rw [Scan.step, if_neg noQuote, if_neg noBackslash, if_neg (UInt8.not_lt.mpr printable), if_pos seven]

theorem step_xdigit {byte : UInt8} (digit : Source.isXDigit byte = true) : Scan.step .string byte = some .string := by
  have bounds : 48 ≤ byte.toNat ∧ byte.toNat ≤ 57 ∨ (65 ≤ byte.toNat ∧ byte.toNat ≤ 70) ∨
      (97 ≤ byte.toNat ∧ byte.toNat ≤ 102) := by
    simp only [Source.isXDigit, Source.isDigit, UInt8.le_iff_toNat_le, decide_eq_true_eq] at digit
    exact digit
  refine step_ascii ?_ ?_ ?_ ?_
  · exact UInt8.le_iff_toNat_le.mpr (show 32 ≤ byte.toNat by omega)
  · exact UInt8.lt_iff_toNat_lt.mpr (show byte.toNat < 128 by omega)
  · rintro rfl
    exact absurd digit (by decide)
  · rintro rfl
    exact absurd digit (by decide)

theorem scan_xdigits {digits : List UInt8} (areDigits : ∀ byte ∈ digits, Source.isXDigit byte = true) :
    scan .string digits = some .string := by
  induction digits with
  | nil => rfl
  | cons byte digits ih =>
      exact Scan.scan_cons (step_xdigit (areDigits byte List.mem_cons_self))
        (ih fun other member => areDigits other (List.mem_cons_of_mem _ member))

theorem scan_escape {dialect : Dialect} {text chars : List UInt8} (isEscape : Escape dialect text chars) :
    scan .string text = some .string := by
  cases isEscape with
  | itself special => rfl
  | backspace => rfl
  | formFeed => rfl
  | lineFeed => rfl
  | carriageReturn => rfl
  | tab => rfl
  | unicode four areDigits encoded => exact Scan.scan_cons rfl (Scan.scan_cons rfl (scan_xdigits areDigits))

theorem follow_bounds {lead : UInt8} {more : Nat} {low high : UInt8} (follows : follow lead = some (more, low, high)) :
    0 < more ∧ 0x80 ≤ low ∧ 0xC2 ≤ lead := by
  rw [follow] at follows
  split_ifs at follows with two e0 ed three f0 four f4
  · cases follows
    exact ⟨by decide, by decide, two.1⟩
  · cases follows
    exact ⟨by decide, by decide, by rw [e0]; decide⟩
  · cases follows
    exact ⟨by decide, by decide, by rw [ed]; decide⟩
  · cases follows
    exact ⟨by decide, by decide, UInt8.le_trans (by decide) three.1⟩
  · cases follows
    exact ⟨by decide, by decide, by rw [f0]; decide⟩
  · cases follows
    exact ⟨by decide, by decide, UInt8.le_trans (by decide) four.1⟩
  · cases follows
    exact ⟨by decide, by decide, by rw [f4]; decide⟩

theorem step_lead {lead : UInt8} {more : Nat} {low high : UInt8} (follows : follow lead = some (more, low, high)) :
    Scan.step .string lead = some (.tail more low high) := by
  have high := (follow_bounds follows).2.2
  have noQuote : lead ≠ 34 := by
    rintro rfl
    exact absurd high (by decide)
  have noBackslash : lead ≠ 92 := by
    rintro rfl
    exact absurd high (by decide)
  have notAscii : ∀ bound : UInt8, bound ≤ 0xC2 → ¬ lead < bound :=
    fun bound small => UInt8.not_lt.mpr (UInt8.le_trans small high)
  rw [Scan.step, if_neg noQuote, if_neg noBackslash, if_neg (notAscii 32 (by decide)),
    if_neg (notAscii 128 (by decide)),
    follows]
  rfl

theorem scan_tail {more : Nat} {low high : UInt8} {rest : List UInt8} (tail : Tail more low high rest)
    (some' : 0 < more) :
    scan (.tail more low high) rest = some .string := by
  induction tail with
  | nil low high => exact absurd some' (Nat.lt_irrefl 0)
  | @cons more low high byte rest isLow isHigh tail ih =>
      have stepped : Scan.step (.tail (more + 1) low high) byte =
          some (if more + 1 ≤ 1 then .string else .tail more 0x80 0xBF) := by
        rw [Scan.step, if_pos ⟨isLow, isHigh⟩]
        rfl
      rcases Nat.eq_zero_or_pos more with rfl | positive
      · cases tail with
        | nil => exact Scan.scan_cons stepped rfl
      · rw [if_neg (by omega)] at stepped
        exact Scan.scan_cons stepped (ih positive)

theorem scan_unescaped {text : List UInt8} (unescaped : Unescaped text) : scan .string text = some .string := by
  cases unescaped with
  | ascii printable seven noQuote noBackslash =>
      exact Scan.scan_cons (step_ascii printable seven noQuote noBackslash) rfl
  | several follows tail => exact Scan.scan_cons (step_lead follows) (scan_tail tail (follow_bounds follows).1)

theorem scan_chars {text bytes : List UInt8} (chars : Chars .json text bytes) : scan .string text = some .string := by
  induction chars with
  | nil => rfl
  | unit isUnit others ih => exact Scan.scan_trans (scan_unescaped isUnit) ih
  | escape isEscape others ih => exact Scan.scan_trans (scan_escape isEscape) ih

theorem Escape.json {text chars : List UInt8} (isEscape : Escape .parsed text chars) : Escape .json text chars := by
  apply isEscape.mono
  intro point bytes encoded valid
  exact Eq.trans encoded (toUtf8_eq valid)

theorem step_tail {more : Nat} {low high byte : UInt8} {next : Scan} (ascii : 0x80 ≤ low)
    (stepped : Scan.step (.tail more low high) byte = some next) :
    0x80 ≤ byte ∧ low ≤ byte ∧ byte ≤ high ∧ next = if more ≤ 1 then .string else .tail (more - 1) 0x80 0xBF := by
  rw [Scan.step] at stepped
  split_ifs at stepped with inside
  · exact ⟨UInt8.le_trans ascii inside.1, inside.1, inside.2, (Option.some.inj stepped).symm.trans (by rw [if_pos ‹_›])⟩
  · exact ⟨UInt8.le_trans ascii inside.1, inside.1, inside.2, (Option.some.inj stepped).symm.trans (by rw [if_neg ‹_›])⟩

/-- The characters of a string in a clean text are UTF-8.  The scan of the
string starts at a character, or behind some bytes of one. -/
theorem chars_of_scan {text bytes : List UInt8} (chars : Chars .parsed text bytes) (last : Scan) :
    (scan .string (text ++ [34]) = some last → last = .outside ∧ Chars .json text bytes) ∧
    (∀ more low high, 0x80 ≤ low → scan (.tail (more + 1) low high) (text ++ [34]) = some last →
      last = .outside ∧ ∃ tail rest others, text = tail ++ rest ∧ bytes = tail ++ others ∧
        Tail (more + 1) low high tail ∧ Chars .json rest others) := by
  induction chars with
  | nil =>
      refine ⟨?_, ?_⟩
      · intro scanned
        cases scanned
        exact ⟨rfl, .nil⟩
      · intro more low high ascii scanned
        rcases Option.bind_eq_some_iff.mp scanned with ⟨next, stepped, -⟩
        exact absurd (step_tail ascii stepped).1 (by decide)
  | @unit text rest bytes isUnit others ih =>
      rcases isUnit with ⟨byte, rfl, nonzero, noQuote, noBackslash⟩
      refine ⟨?_, ?_⟩
      · intro scanned
        rcases Option.bind_eq_some_iff.mp scanned with ⟨next, stepped, scannedRest⟩
        rw [Scan.step, if_neg noQuote, if_neg noBackslash] at stepped
        split_ifs at stepped with control seven
        · cases stepped
          rcases ih.1 scannedRest with ⟨outside, areChars⟩
          exact ⟨outside, .unit (.ascii (UInt8.not_lt.mp control) seven noQuote noBackslash) areChars⟩
        · rcases Option.map_eq_some_iff.mp stepped with ⟨⟨more, low, high⟩, follows, rfl⟩
          have bounds := follow_bounds follows
          have isMore : more - 1 + 1 = more := Nat.succ_pred_eq_of_pos bounds.1
          rcases ih.2 (more - 1) low high bounds.2.1 (by rw [isMore]; exact scannedRest) with
            ⟨outside, tail, rest', others', rfl, rfl, isTail, areChars⟩
          rw [isMore] at isTail
          have joined : Chars .json ((byte :: tail) ++ rest') ((byte :: tail) ++ others') :=
            .unit (.several follows isTail) areChars
          exact ⟨outside, joined⟩
      · intro more low high ascii scanned
        rcases Option.bind_eq_some_iff.mp scanned with ⟨next, stepped, scannedRest⟩
        rcases step_tail ascii stepped with ⟨-, isLow, isHigh, rfl⟩
        rcases more with _ | more
        · rcases ih.1 scannedRest with ⟨outside, areChars⟩
          exact ⟨outside, [byte], rest, bytes, rfl, rfl, .cons isLow isHigh (.nil _ _), areChars⟩
        · rcases ih.2 more 0x80 0xBF (by decide) scannedRest with
            ⟨outside, tail, rest', others', rfl, rfl, isTail, areChars⟩
          exact ⟨outside, byte :: tail, rest', others', rfl, rfl, .cons isLow isHigh isTail, areChars⟩
  | @escape text chars rest bytes isEscape others ih =>
      refine ⟨?_, ?_⟩
      · intro scanned
        rw [List.append_assoc, Scan.scan_append, scan_escape isEscape] at scanned
        rcases ih.1 scanned with ⟨outside, areChars⟩
        exact ⟨outside, .escape isEscape.json areChars⟩
      · intro more low high ascii scanned
        have backslash : ∃ others, text = 92 :: others := by
          cases isEscape with
          | itself special => exact ⟨_, rfl⟩
          | backspace => exact ⟨_, rfl⟩
          | formFeed => exact ⟨_, rfl⟩
          | lineFeed => exact ⟨_, rfl⟩
          | carriageReturn => exact ⟨_, rfl⟩
          | tab => exact ⟨_, rfl⟩
          | unicode four areDigits encoded => exact ⟨_, rfl⟩
        rcases backslash with ⟨others, rfl⟩
        rcases Option.bind_eq_some_iff.mp scanned with ⟨next, stepped, -⟩
        exact absurd (step_tail ascii stepped).1 (by decide)

theorem scan_quoted {text bytes : List UInt8} (chars : Chars .json text bytes) :
    scan .outside (quoted text) = some .outside :=
  Scan.scan_cons rfl (Scan.scan_trans (scan_chars chars) rfl)

theorem scan_symbol {name : List UInt8} {tree : Json} (isSymbol : symbol name = some tree) :
    scan .outside name = some .outside := by
  rw [symbol] at isSymbol
  split_ifs at isSymbol with isTrue isFalse isNull
  · rw [isTrue]
    rfl
  · rw [isFalse]
    rfl
  · rw [isNull]
    rfl

/-! ## Collections -/

section

variable {double : List UInt8 → UInt64}

def Scans (text : List UInt8) : Prop := ∃ last, scan .outside text = some last ∧ last.settled = true

theorem Scans.separated {text : List UInt8} (scans : Scans text) {byte : UInt8} (separator : isSeparator byte = true) :
    scan .outside (text ++ [byte]) = some .outside := by
  rcases scans with ⟨last, scanned, isSettled⟩
  exact Scan.scan_trans scanned (Scan.scan_cons (step_separator isSettled separator) rfl)

theorem Scans.spaced {text before after : List UInt8} (scans : Scans text) (areBefore : Dialect.json.Spaces before)
    (areAfter : Dialect.json.Spaces after) : Scans (before ++ text ++ after) := by
  rcases @scan_spaces before areBefore .outside rfl with ⟨first, beforeScanned, -, outside⟩
  rw [outside rfl] at beforeScanned
  rcases scans with ⟨middle, scanned, isSettled⟩
  rcases scan_spaces areAfter isSettled with ⟨last, afterScanned, lastSettled, -⟩
  exact ⟨last, Scan.scan_trans (Scan.scan_trans beforeScanned scanned) afterScanned, lastSettled⟩

theorem scans_commas {texts : List (List UInt8)} (scans : ∀ text ∈ texts, Scans text) : Scans (commas texts) := by
  induction texts with
  | nil => exact ⟨.outside, rfl, rfl⟩
  | cons text texts ih =>
      have first := scans text List.mem_cons_self
      rcases ih fun other member => scans other (List.mem_cons_of_mem _ member) with ⟨last, scanned, isSettled⟩
      rcases texts with _ | ⟨next, rest⟩
      · exact first
      · refine ⟨last, ?_, isSettled⟩
        have joined := Scan.scan_trans (first.separated (show isSeparator 44 = true from rfl)) scanned
        rwa [List.append_assoc] at joined

theorem scans_member {member : MemberPiece}
    (spaced : Dialect.json.Spaces member.before ∧ Dialect.json.Spaces member.between ∧
      Dialect.json.Spaces member.value.before ∧ Dialect.json.Spaces member.value.after)
    (name : Chars .json member.quotedName member.name) (value : Scans member.value.text) : Scans member.bytes := by
  rcases spaced with ⟨before, between, valueBefore, valueAfter⟩
  have scansName : Scans (quoted member.quotedName) := ⟨.outside, scan_quoted name, rfl⟩
  rcases value.spaced valueBefore valueAfter with ⟨last, scanned, isSettled⟩
  have colon := (scansName.spaced before between).separated (show isSeparator 58 = true from rfl)
  have joined := Scan.scan_trans colon scanned
  rw [List.append_assoc] at joined
  exact ⟨last, joined, isSettled⟩

/-- The texts of JSON are clean. -/
theorem Value.scans {text : List UInt8} {tree : Json} (value : Value .json double text tree) : Scans text := by
  induction value with
  | symbol isSymbol => exact ⟨.outside, scan_symbol isSymbol, rfl⟩
  | uint isWhole =>
      rcases scan_whole isWhole with ⟨last, scanned, isNumeric⟩
      exact ⟨last, scanned, Scan.settled_of_numeric isNumeric⟩
  | number isSign isWhole isFraction isExponent notUint =>
      rcases scan_number isSign isWhole isFraction isExponent with ⟨last, scanned, isNumeric⟩
      exact ⟨last, scanned, Scan.settled_of_numeric isNumeric⟩
  | string chars => exact ⟨.outside, scan_quoted chars, rfl⟩
  | emptyArray areSpaces =>
      have inside : Scans ([] ++ [] ++ _) := Scans.spaced ⟨.outside, rfl, rfl⟩ (fun _ => nofun) areSpaces
      exact ⟨.outside, Scan.scan_cons rfl (inside.separated rfl), rfl⟩
  | @array pieces some spaced values ih =>
      have inside : Scans (commas (pieces.map Piece.bytes)) := by
        refine scans_commas ?_
        intro text member
        rcases List.mem_map.mp member with ⟨piece, isPiece, rfl⟩
        exact (ih piece isPiece).spaced (spaced piece isPiece).1 (spaced piece isPiece).2
      exact ⟨.outside, Scan.scan_cons rfl (inside.separated rfl), rfl⟩
  | emptyObject areSpaces =>
      have inside : Scans ([] ++ [] ++ _) := Scans.spaced ⟨.outside, rfl, rfl⟩ (fun _ => nofun) areSpaces
      exact ⟨.outside, Scan.scan_cons rfl (inside.separated rfl), rfl⟩
  | @object members some spaced names values ih =>
      have inside : Scans (commas (members.map MemberPiece.bytes)) := by
        refine scans_commas ?_
        intro text member
        rcases List.mem_map.mp member with ⟨piece, isPiece, rfl⟩
        exact scans_member (spaced piece isPiece) (names piece isPiece) (ih piece isPiece)
      exact ⟨.outside, Scan.scan_cons rfl (inside.separated rfl), rfl⟩

/-! ## Clean texts -/

theorem Clean.left {first second : List UInt8} (clean : Clean (first ++ second)) : Clean first := by
  rcases clean with ⟨last, scanned⟩
  rcases Scan.scan_append_eq_some scanned with ⟨middle, one, -⟩
  exact ⟨middle, one⟩

theorem Clean.right {first second : List UInt8} (clean : Clean (first ++ second))
    (outside : scan .outside first = some .outside) :
    Clean second := by
  rcases clean with ⟨last, scanned⟩
  rw [Scan.scan_append, outside] at scanned
  exact ⟨last, scanned⟩

theorem clean_commas {texts : List (List UInt8)} (scans : ∀ text ∈ texts, Clean text → Scans text)
    (clean : Clean (commas texts)) : ∀ text ∈ texts, Clean text := by
  induction texts with
  | nil => exact fun _ => nofun
  | cons text texts ih =>
      intro other member
      rcases texts with _ | ⟨next, rest⟩
      · rw [List.mem_singleton.mp member]
        exact clean
      · rcases List.mem_cons.mp member with rfl | later
        · exact clean.left
        · have first := (scans text List.mem_cons_self clean.left).separated (show isSeparator 44 = true from rfl)
          have split : commas (text :: next :: rest) = (text ++ [44]) ++ commas (next :: rest) := by
            rw [commas, List.append_assoc]
            rfl
          rw [split] at clean
          exact ih (fun other member => scans other (List.mem_cons_of_mem _ member)) (clean.right first) other later

theorem spaced_of_clean {before text after : List UInt8} (areBefore : Dialect.parsed.Spaces before)
    (areAfter : Dialect.parsed.Spaces after) (value : Clean text → Scans text)
    (clean : Clean (before ++ text ++ after)) :
    Dialect.json.Spaces before ∧ Dialect.json.Spaces after ∧ Clean text := by
  rcases clean.left.left with ⟨first, beforeScanned⟩
  have jsonBefore := spaces_of_scan areBefore rfl beforeScanned
  rcases @scan_spaces before jsonBefore .outside rfl with ⟨middle, scanned, -, outside⟩
  rw [outside rfl] at scanned
  have cleanText := clean.left.right scanned
  rcases value cleanText with ⟨last, textScanned, isSettled⟩
  rcases clean with ⟨final, allScanned⟩
  rw [Scan.scan_append, Scan.scan_trans scanned textScanned] at allScanned
  exact ⟨jsonBefore, spaces_of_scan areAfter isSettled allScanned, cleanText⟩

theorem chars_of_clean {text bytes : List UInt8} (chars : Chars .parsed text bytes) (clean : Clean (quoted text)) :
    Chars .json text bytes := by
  rcases clean with ⟨last, scanned⟩
  rcases Option.bind_eq_some_iff.mp scanned with ⟨next, stepped, rest⟩
  cases stepped
  exact ((chars_of_scan chars last).1 rest).2

theorem member_of_clean {member : MemberPiece}
    (spaced : Dialect.parsed.Spaces member.before ∧ Dialect.parsed.Spaces member.between ∧
      Dialect.parsed.Spaces member.value.before ∧ Dialect.parsed.Spaces member.value.after)
    (name : Chars .parsed member.quotedName member.name) (value : Clean member.value.text → Scans member.value.text)
    (clean : Clean member.bytes) :
    (Dialect.json.Spaces member.before ∧ Dialect.json.Spaces member.between ∧
      Dialect.json.Spaces member.value.before ∧ Dialect.json.Spaces member.value.after) ∧
      Chars .json member.quotedName member.name ∧ Clean member.value.text := by
  rcases spaced with ⟨before, between, valueBefore, valueAfter⟩
  have scansName : Clean (quoted member.quotedName) → Scans (quoted member.quotedName) :=
    fun cleanName => ⟨.outside, scan_quoted (chars_of_clean name cleanName), rfl⟩
  rcases spaced_of_clean before between scansName clean.left with ⟨jsonBefore, jsonBetween, cleanName⟩
  have colon := ((scansName cleanName).spaced jsonBefore jsonBetween).separated (show isSeparator 58 = true from rfl)
  have split : member.bytes = (member.before ++ quoted member.quotedName ++ member.between ++ [58]) ++
    member.value.bytes := by
    rw [MemberPiece.bytes, List.append_assoc _ [58]]
    rfl
  rw [split] at clean
  rcases spaced_of_clean valueBefore valueAfter value (clean.right colon) with
    ⟨jsonValueBefore, jsonValueAfter, cleanValue⟩
  exact ⟨⟨jsonBefore, jsonBetween, jsonValueBefore, jsonValueAfter⟩, chars_of_clean name cleanName, cleanValue⟩

/-- A clean text of the dialect is a text of JSON. -/
theorem Value.of_clean {text : List UInt8} {tree : Json} (value : Value .parsed double text tree) (clean : Clean text) :
    Value .json double text tree := by
  induction value with
  | symbol isSymbol => exact .symbol isSymbol
  | uint isWhole =>
      rcases clean with ⟨last, scanned⟩
      exact .uint (whole_of_scan isWhole scanned)
  | number isSign isWhole isFraction isExponent notUint =>
      rcases clean.left.left.right (scan_sign isSign) with ⟨last, scanned⟩
      exact .number isSign (whole_of_scan isWhole scanned) isFraction isExponent notUint
  | string chars => exact .string (chars_of_clean chars clean)
  | emptyArray areSpaces =>
      rcases (@Clean.right [91] _ clean rfl).left with ⟨last, scanned⟩
      exact .emptyArray (spaces_of_scan areSpaces rfl scanned)
  | @array pieces some spaced values ih =>
      have each : ∀ piece ∈ pieces, Clean piece.bytes →
          Dialect.json.Spaces piece.before ∧ Dialect.json.Spaces piece.after ∧ Clean piece.text :=
        fun piece isPiece => spaced_of_clean (spaced piece isPiece).1 (spaced piece isPiece).2
          fun cleanText => (ih piece isPiece cleanText).scans
      have inside : ∀ piece ∈ pieces, Clean piece.bytes := by
        intro piece isPiece
        refine clean_commas ?_ (@Clean.right [91] _ clean rfl).left piece.bytes (List.mem_map_of_mem isPiece)
        intro text member cleanText
        rcases List.mem_map.mp member with ⟨other, isOther, rfl⟩
        rcases each other isOther cleanText with ⟨before, after, cleanValue⟩
        exact (ih other isOther cleanValue).scans.spaced before after
      refine .array some ?_ ?_
      · intro piece isPiece
        rcases each piece isPiece (inside piece isPiece) with ⟨before, after, -⟩
        exact ⟨before, after⟩
      · intro piece isPiece
        exact ih piece isPiece (each piece isPiece (inside piece isPiece)).2.2
  | emptyObject areSpaces =>
      rcases (@Clean.right [123] _ clean rfl).left with ⟨last, scanned⟩
      exact .emptyObject (spaces_of_scan areSpaces rfl scanned)
  | @object members some spaced names values ih =>
      have each : ∀ member ∈ members, Clean member.bytes → _ :=
        fun member isMember => member_of_clean (spaced member isMember) (names member isMember)
          fun cleanText => (ih member isMember cleanText).scans
      have inside : ∀ member ∈ members, Clean member.bytes := by
        intro member isMember
        refine clean_commas ?_ (@Clean.right [123] _ clean rfl).left member.bytes (List.mem_map_of_mem isMember)
        intro text inTexts cleanText
        rcases List.mem_map.mp inTexts with ⟨other, isOther, rfl⟩
        rcases each other isOther cleanText with ⟨otherSpaced, name, cleanValue⟩
        exact scans_member otherSpaced name (ih other isOther cleanValue).scans
      refine .object some ?_ ?_ ?_
      · exact fun member isMember => (each member isMember (inside member isMember)).1
      · exact fun member isMember => (each member isMember (inside member isMember)).2.1
      · exact fun member isMember => ih member isMember (each member isMember (inside member isMember)).2.2

theorem isText_iff_clean {text : List UInt8} {tree : Json} (isText : IsText .parsed double text tree) :
    (∃ tree, IsText .json double text tree) ↔ Clean text := by
  constructor
  · rintro ⟨tree, before, inner, after, rfl, areBefore, areAfter, value⟩
    rcases value.scans.spaced areBefore areAfter with ⟨last, scanned, -⟩
    exact ⟨last, scanned⟩
  · intro clean
    rcases isText with ⟨before, inner, after, rfl, areBefore, areAfter, value⟩
    rcases spaced_of_clean areBefore areAfter (fun cleanText => (value.of_clean cleanText).scans) clean with
      ⟨jsonBefore, jsonAfter, cleanText⟩
    exact ⟨tree, before, inner, after, rfl, jsonBefore, jsonAfter, value.of_clean cleanText⟩

end

/-! ## Strict parsing -/

/-- A text that the strict parser accepts, up to spaces behind its value, is a
text of RFC 8259 if and only if it is clean. -/
theorem strict_text_iff {env : Env} {stack after : Stack} {source left : Source} (strict : source.toFlags = {})
    (loaded : stack.load env source = .ok (left, after)) (spaces : ∀ byte ∈ left.next, Source.isSpace byte = true)
    (double : List UInt8 → UInt64) : (∃ tree, IsText .json double source.next tree) ↔ Clean source.next := by
  rcases load_strict strict loaded with ⟨tree, reading, -, -⟩
  have decimal : source.allowHex = false := by
    rw [show source.allowHex = source.toFlags.allowHex from rfl, strict]
  rcases (reading_text double _).1 _ _ _ decimal reading with ⟨before, text, tree', next, areBefore, value⟩
  exact isText_iff_clean ⟨before, text, left.next, next, areBefore, spaces, value⟩

/-- The text `[0, "a"]`. -/
theorem strict_text_array : ∃ tree, IsText .json (fun _ => 0) [91, 48, 44, 32, 34, 97, 34, 93] tree := by
  have loaded : ∃ left after, freshStack.load plainEnv (.fromString [91, 48, 44, 32, 34, 97, 34, 93] [] {}) =
      .ok (left, after) ∧ left.next = [] := ⟨_, _, rfl, rfl⟩
  rcases loaded with ⟨left, after, loaded, rest⟩
  refine (@strict_text_iff plainEnv freshStack after _ left rfl loaded ?_ fun _ => 0).mpr ⟨_, rfl⟩
  rw [rest]
  exact fun _ => nofun

/-- The text `01`, which the strict parser accepts. -/
theorem strict_text_leading_zero :
    (∃ left after, freshStack.load plainEnv (.fromString [48, 49] [] {}) = .ok (left, after) ∧ left.next = []) ∧
      ∀ double, ¬ ∃ tree, IsText .json double [48, 49] tree := by
  refine ⟨⟨_, _, rfl, rfl⟩, ?_⟩
  rintro double ⟨tree, before, inner, after, text, areBefore, areAfter, value⟩
  rcases value.scans.spaced areBefore areAfter with ⟨last, scanned, -⟩
  rw [← text] at scanned
  cases scanned

end Jitson
end LibKit
