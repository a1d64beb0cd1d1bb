import Mathlib
import LibKit.Support.Bytes

namespace LibKit
namespace Numeral

/-!
# Integers in text

The C library looks for an integer behind white space and a sign.  The base
decides which digits the integer has, and whether `0x` may come before them.
-/

/-! ## What the library reads -/

/-- `isspace` -/
def isSpace (byte : UInt8) : Bool := byte = 32 ∨ 9 ≤ byte ∧ byte ≤ 13

/-- The value of a letter or digit; other characters are digits in no base. -/
def digit (byte : UInt8) : Nat :=
  if 48 ≤ byte ∧ byte ≤ 57 then byte.toNat - 48
  else if 65 ≤ byte ∧ byte ≤ 90 then byte.toNat - 55
  else if 97 ≤ byte ∧ byte ≤ 122 then byte.toNat - 87
  else 36

def isDigit (radix : Nat) (byte : UInt8) : Bool := digit byte < radix

def value (radix : Nat) (digits : List UInt8) : Nat := digits.foldl (fun value byte => value * radix + digit byte) 0

def negative (text : List UInt8) : Bool := (text.dropWhile isSpace).head? = some 45

def behindSign (text : List UInt8) : List UInt8 :=
  let signed := text.dropWhile isSpace
  if signed.head? = some 45 ∨ signed.head? = some 43 then signed.tail else signed

/-- The text starts with `0x` or `0X`. -/
def isMarked (text : List UInt8) : Prop := text[0]? = some 48 ∧ (text[1]? = some 120 ∨ text[1]? = some 88)

instance (text : List UInt8) : Decidable (isMarked text) := inferInstanceAs (Decidable (_ ∧ _))

/-- The base of the digits, and where they start. -/
def radix (base : Nat) (text : List UInt8) : Nat × List UInt8 :=
  if (base = 0 ∨ base = 16) ∧ isMarked text ∧ isDigit 16 (text.getD 2 0) then (16, text.drop 2)
  else if base = 0 then (if text[0]? = some 48 then 8 else 10, text)
  else (base, text)

/-- An integer at the start of a text, and what is behind it. -/
structure Subject where
  negative : Bool
  magnitude : Nat
  rest : List UInt8
deriving DecidableEq

/-- The subject sequence of a conversion, unless it is empty. -/
def subject (base : Nat) (text : List UInt8) : Option Subject :=
  let digits := (radix base (behindSign text)).2
  let isDigit := isDigit (radix base (behindSign text)).1
  if digits.takeWhile isDigit = [] then none
  else some ⟨negative text, value (radix base (behindSign text)).1 (digits.takeWhile isDigit), digits.dropWhile isDigit⟩

/-! ## Numerals -/

inductive Sign : Bool → List UInt8 → Prop where
  | none : Sign false []
  | plus : Sign false [43]
  | minus : Sign true [45]

/-- What comes before the digits, the base of which depends on it. -/
inductive Mark (base : Nat) (digits : List UInt8) : Nat → List UInt8 → Prop where
  | given (based : base ≠ 0) : Mark base digits base []
  | octal (based : base = 0) (zero : digits[0]? = some 48) : Mark base digits 8 []
  | decimal (based : base = 0) (nonzero : digits[0]? ≠ some 48) : Mark base digits 10 []
  | hexadecimal (based : base = 0 ∨ base = 16) {letter : UInt8} (isX : letter = 120 ∨ letter = 88) :
      Mark base digits 16 [48, letter]

/-- The parts of a numeral at the start of a text.  The digits end where no more
follow, and a leading `0x` is never a digit with something behind it. -/
structure Parts (base : Nat) (text : List UInt8) (numeral : Subject) (spaces sign mark digits : List UInt8)
    (radix : Nat) : Prop where
  whole : text = spaces ++ (sign ++ (mark ++ (digits ++ numeral.rest)))
  blank : ∀ byte ∈ spaces, isSpace byte = true
  signed : Sign numeral.negative sign
  marked : Mark base digits radix mark
  present : digits ≠ []
  each : ∀ byte ∈ digits, isDigit radix byte = true
  last : ∀ byte, numeral.rest[0]? = some byte → isDigit radix byte = false
  unmarked : base = 0 ∨ base = 16 → mark = [] → ¬ isMarked (digits ++ numeral.rest)
  magnitude : numeral.magnitude = value radix digits

/-- `0x` without digits at the start of a text. -/
def Lone (base : Nat) (text : List UInt8) : Prop :=
  (base = 0 ∨ base = 16) ∧ isMarked text ∧ isDigit 16 (text.getD 2 0) = false

instance (base : Nat) (text : List UInt8) : Decidable (Lone base text) := inferInstanceAs (Decidable (_ ∧ _))

def Begins (base : Nat) (text : List UInt8) (numeral : Subject) : Prop :=
  ∃ spaces sign mark digits radix, Parts base text numeral spaces sign mark digits radix

def Common (base : Nat) : Prop := base = 0 ∨ base = 8 ∨ base = 10 ∨ base = 16

theorem isDigit_bounds {radix : Nat} {byte : UInt8} (few : radix ≤ 36) (is_digit : isDigit radix byte = true) :
    48 ≤ byte ∧ byte ≤ 122 := by
  have small : digit byte < 36 := Nat.lt_of_lt_of_le (of_decide_eq_true is_digit) few
  rw [digit] at small
  split at small
  · rename_i range
    exact ⟨range.1, UInt8.le_trans range.2 (by decide)⟩
  · split at small
    · rename_i range
      exact ⟨UInt8.le_trans (by decide) range.1, UInt8.le_trans range.2 (by decide)⟩
    · split at small
      · rename_i range
        exact ⟨UInt8.le_trans (by decide) range.1, range.2⟩
      · exact absurd small (Nat.lt_irrefl 36)

theorem isSpace_of_ge {byte : UInt8} (large : 33 ≤ byte) : isSpace byte = false := by
  apply decide_eq_false
  rintro (rfl | ⟨-, small⟩)
  · exact absurd large (by decide)
  · exact absurd (UInt8.le_trans large small) (by decide)

theorem dropWhile_head {p : UInt8 → Bool} {byte : UInt8} (rest : List UInt8) (fails : p byte = false) :
    (byte :: rest).dropWhile p = byte :: rest :=
  List.dropWhile_cons_of_neg (by rw [fails]; exact Bool.false_ne_true)

/-- A character that starts what is behind white space and a sign. -/
def Plain (byte : UInt8) : Prop := isSpace byte = false ∧ byte ≠ 45 ∧ byte ≠ 43

theorem plain_of_ge {byte : UInt8} (large : 48 ≤ byte) : Plain byte := by
  refine ⟨isSpace_of_ge (UInt8.le_trans (by decide) large), ?_, ?_⟩
  · rintro rfl
    exact absurd large (by decide)
  · rintro rfl
    exact absurd large (by decide)

/-- White space and a sign are skipped. -/
theorem behindSign_append {spaces sign rest : List UInt8} {byte : UInt8} {minus : Bool}
    (blank : ∀ byte ∈ spaces, isSpace byte = true) (signed : Sign minus sign) (plain : Plain byte) :
    behindSign (spaces ++ (sign ++ byte :: rest)) = byte :: rest ∧
      negative (spaces ++ (sign ++ byte :: rest)) = minus := by
  have skipped : (spaces ++ (sign ++ byte :: rest)).dropWhile isSpace = sign ++ byte :: rest := by
    rw [List.dropWhile_append_of_pos blank]
    cases signed with
    | none => exact dropWhile_head rest plain.1
    | plus => exact dropWhile_head _ (by decide)
    | minus => exact dropWhile_head _ (by decide)
  rw [behindSign, negative, skipped]
  cases signed with
  | none =>
      rw [List.nil_append, List.head?_cons, if_neg]
      · exact ⟨rfl, decide_eq_false fun same => plain.2.1 (Option.some.inj same)⟩
      · rintro (same | same)
        · exact plain.2.1 (Option.some.inj same)
        · exact plain.2.2 (Option.some.inj same)
  | plus => exact ⟨if_pos (Or.inr rfl), rfl⟩
  | minus => exact ⟨if_pos (Or.inl rfl), rfl⟩

theorem takeWhile_digits {digits rest : List UInt8} {radix : Nat} (each : ∀ byte ∈ digits, isDigit radix byte = true)
    (last : ∀ byte, rest[0]? = some byte → isDigit radix byte = false) :
    (digits ++ rest).takeWhile (isDigit radix) = digits ∧ (digits ++ rest).dropWhile (isDigit radix) = rest := by
  rw [List.takeWhile_append_of_pos each, List.dropWhile_append_of_pos each]
  cases rest with
  | nil => exact ⟨List.append_nil digits, rfl⟩
  | cons byte rest =>
      have stops := last byte rfl
      rw [dropWhile_head rest stops, List.takeWhile_cons_of_neg (by rw [stops]; exact Bool.false_ne_true),
        List.append_nil]
      exact ⟨rfl, rfl⟩

theorem Mark.few {base radix : Nat} {digits mark : List UInt8} (common : Common base)
    (marked : Mark base digits radix mark) :
    radix ≤ 36 := by
  cases marked with
  | given based => rcases common with rfl | rfl | rfl | rfl <;> decide
  | octal based zero => decide
  | decimal based nonzero => decide
  | hexadecimal based isX => decide

/-- The base of the digits is told from what comes before them. -/
theorem Mark.radix_eq {base radix : Nat} {digits mark rest : List UInt8} (marked : Mark base digits radix mark)
    (present : digits ≠ [])
    (each : ∀ byte ∈ digits, isDigit radix byte = true)
    (unmarked : base = 0 ∨ base = 16 → mark = [] → ¬ isMarked (digits ++ rest)) :
    Numeral.radix base (mark ++ (digits ++ rest)) = (radix, digits ++ rest) := by
  cases digits with
  | nil => exact absurd rfl present
  | cons first others =>
      cases marked with
      | given based =>
          rw [List.nil_append, Numeral.radix, if_neg, if_neg based]
          exact fun marked => unmarked marked.1 rfl marked.2.1
      | octal based zero =>
          rw [List.nil_append, Numeral.radix, if_neg, if_pos based]
          · rw [if_pos]
            exact zero
          · exact fun marked => unmarked marked.1 rfl marked.2.1
      | decimal based nonzero =>
          rw [List.nil_append, Numeral.radix, if_neg, if_pos based]
          · rw [if_neg]
            exact nonzero
          · exact fun marked => unmarked marked.1 rfl marked.2.1
      | hexadecimal based isX =>
          rw [Numeral.radix, if_pos]
          · rfl
          · refine ⟨based, ⟨rfl, ?_⟩, each first List.mem_cons_self⟩
            rcases isX with rfl | rfl
            · exact Or.inl rfl
            · exact Or.inr rfl

/-- A numeral is what the library reads. -/
theorem Begins.subject {base : Nat} {text : List UInt8} {numeral : Subject} (common : Common base)
    (begins : Begins base text numeral) :
    Numeral.subject base text = some numeral ∧ ¬ Lone base (behindSign text) := by
  rcases begins with ⟨spaces, sign, mark, digits, radix, parts⟩
  have few := parts.marked.few common
  have front : ∃ byte others, mark ++ (digits ++ numeral.rest) = byte :: others ∧ 48 ≤ byte := by
    have plain : ∃ byte others, digits ++ numeral.rest = byte :: others ∧ 48 ≤ byte := by
      cases isDigits : digits with
      | nil => exact absurd isDigits parts.present
      | cons byte others =>
          have is_digit := parts.each byte (by rw [isDigits]; exact List.mem_cons_self)
          exact ⟨byte, _, rfl, (isDigit_bounds few is_digit).1⟩
    cases parts.marked with
    | given based => exact plain
    | octal based zero => exact plain
    | decimal based nonzero => exact plain
    | hexadecimal based isX => exact ⟨48, _, rfl, UInt8.le_refl 48⟩
  have skipped : behindSign text = mark ++ (digits ++ numeral.rest) ∧ negative text = numeral.negative := by
    rcases front with ⟨byte, others, body, large⟩
    rw [parts.whole, body]
    exact behindSign_append parts.blank parts.signed (plain_of_ge large)
  have isRadix := parts.marked.radix_eq parts.present parts.each parts.unmarked
  have taken := takeWhile_digits parts.each parts.last
  refine ⟨?_, ?_⟩
  · simp only [Numeral.subject, skipped, isRadix, taken]
    rw [if_neg parts.present, ← parts.magnitude]
  · rintro ⟨based, isX, none⟩
    rw [skipped.1] at isX none
    cases marked : parts.marked with
    | given nonzero => exact parts.unmarked based rfl isX
    | octal zero first => exact parts.unmarked based rfl isX
    | decimal zero first => exact parts.unmarked based rfl isX
    | hexadecimal based' isX' =>
        cases isDigits : digits with
        | nil => exact parts.present isDigits
        | cons byte others =>
            have is_digit := parts.each byte (by rw [isDigits]; exact List.mem_cons_self)
            rw [isDigits] at none
            change isDigit 16 byte = false at none
            rw [is_digit] at none
            cases none

theorem exists_sign (text : List UInt8) : ∃ sign, Sign (negative text) sign ∧
    text.dropWhile isSpace = sign ++ behindSign text := by
  rw [negative, behindSign]
  cases signed : text.dropWhile isSpace with
  | nil => exact ⟨[], Sign.none, rfl⟩
  | cons byte rest =>
      by_cases minus : byte = 45
      · subst minus
        exact ⟨[45], Sign.minus, rfl⟩
      · have notMinus : ¬ (byte :: rest).head? = some 45 := fun same => minus (Option.some.inj same)
        rw [decide_eq_false notMinus]
        by_cases plus : byte = 43
        · subst plus
          exact ⟨[43], Sign.plus, rfl⟩
        · refine ⟨[], Sign.none, ?_⟩
          rw [if_neg, List.nil_append]
          rintro (same | same)
          · exact notMinus same
          · exact plus (Option.some.inj same)

/-- What comes before the digits that are taken. -/
theorem exists_mark {base : Nat} {text : List UInt8} (alone : ¬ Lone base text) {digits rest : List UInt8}
    (present : digits ≠ []) (taken : (radix base text).2 = digits ++ rest) :
    ∃ mark, Mark base digits (radix base text).1 mark ∧ text = mark ++ (digits ++ rest) ∧
      (base = 0 ∨ base = 16 → mark = [] → ¬ isMarked (digits ++ rest)) := by
  have first : ∀ whole, whole = digits ++ rest → whole[0]? = digits[0]? := by
    rintro whole rfl
    exact List.getElem?_append_left (List.length_pos_of_ne_nil present)
  by_cases marked : (base = 0 ∨ base = 16) ∧ isMarked text ∧ isDigit 16 (text.getD 2 0)
  · rw [radix, if_pos marked] at taken ⊢
    cases text with
    | nil => cases marked.2.1.1
    | cons zero text =>
        cases text with
        | nil =>
            rcases marked.2.1.2 with isX | isX
            · cases isX
            · cases isX
        | cons letter text =>
            have isZero : zero = 48 := Option.some.inj marked.2.1.1
            have isX : letter = 120 ∨ letter = 88 := marked.2.1.2.imp Option.some.inj Option.some.inj
            change text = digits ++ rest at taken
            refine ⟨[48, letter], Mark.hexadecimal marked.1 isX, ?_, fun _ wrong => (by cases wrong)⟩
            rw [isZero, taken]
            rfl
  · have unmarked : base = 0 ∨ base = 16 → ¬ isMarked text := by
      intro based isX
      exact alone ⟨based, isX, Bool.eq_false_iff.mpr fun is_digit => marked ⟨based, isX, is_digit⟩⟩
    rw [radix, if_neg marked] at taken ⊢
    by_cases based : base = 0
    · rw [if_pos based] at taken ⊢
      change text = digits ++ rest at taken
      refine ⟨[], ?_, taken, fun _ _ => by rw [← taken]; exact unmarked (Or.inl based)⟩
      by_cases zero : text[0]? = some 48
      · rw [if_pos zero]
        exact Mark.octal based ((first text taken).symm.trans zero)
      · rw [if_neg zero]
        exact Mark.decimal based fun same => zero ((first text taken).trans same)
    · rw [if_neg based] at taken ⊢
      change text = digits ++ rest at taken
      refine ⟨[], Mark.given based, taken, fun based' _ => ?_⟩
      rw [← taken]
      exact unmarked based'

theorem begins_of_subject {base : Nat} {text : List UInt8} {numeral : Subject}
    (isSubject : subject base text = some numeral)
    (alone : ¬ Lone base (behindSign text)) : Begins base text numeral := by
  rw [subject] at isSubject
  split at isSubject
  · cases isSubject
  · rename_i present
    cases isSubject
    rcases exists_sign text with ⟨sign, signed, skipped⟩
    have split := (List.takeWhile_append_dropWhile (p := isDigit (radix base (behindSign text)).1)
      (l := (radix base (behindSign text)).2)).symm
    rcases exists_mark alone present split with ⟨mark, marked, body, unmarked⟩
    refine ⟨text.takeWhile isSpace, sign, mark, _, _, ⟨?_, ?_, signed, marked, present, ?_, ?_, unmarked, rfl⟩⟩
    · rw [← body, ← skipped, List.takeWhile_append_dropWhile]
    · intro byte inside
      exact List.mem_takeWhile_imp inside
    · intro byte inside
      exact List.mem_takeWhile_imp inside
    · intro byte first
      have stopped := List.head?_dropWhile_not (isDigit (radix base (behindSign text)).1)
        (radix base (behindSign text)).2
      rw [List.head?_eq_getElem?, first] at stopped
      exact stopped

/-- A text begins with a numeral if and only if the library reads one that is
not the zero of a lone `0x`. -/
theorem begins_iff {base : Nat} {text : List UInt8} {numeral : Subject} (common : Common base) :
    Begins base text numeral ↔ subject base text = some numeral ∧ ¬ Lone base (behindSign text) :=
  ⟨fun begins => begins.subject common, fun read => begins_of_subject read.1 read.2⟩

/-! ## Zero -/

theorem digit_eq_zero : ∀ byte : UInt8, digit byte = 0 ↔ byte = 48 := by
  apply Bytes.forall_bytes
  decide +kernel

theorem value_eq_zero {radix : Nat} (positive : 0 < radix) {digits : List UInt8} :
    value radix digits = 0 ↔ ∀ byte ∈ digits, byte = 48 := by
  induction digits using List.reverseRecOn with
  | nil => exact ⟨fun _ byte member => absurd member List.not_mem_nil, fun _ => rfl⟩
  | append_singleton digits byte ih =>
      have concat : value radix (digits ++ [byte]) = value radix digits * radix + digit byte := by
        rw [value, List.foldl_append]
        rfl
      rw [concat, Nat.add_eq_zero_iff, Nat.mul_eq_zero, or_iff_left (Nat.ne_of_gt positive), ih, digit_eq_zero,
        List.forall_mem_append, List.forall_mem_singleton]

end Numeral
end LibKit
