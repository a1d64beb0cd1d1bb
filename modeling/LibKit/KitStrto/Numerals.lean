import LibKit.KitStrto.Model

namespace LibKit
namespace KitStrto

open Numeral (isSpace subject behindSign Lone isMarked isDigit Begins Common Subject)

/-!
# `errno` tells whether a text begins with a numeral

A result of zero is scanned again.  The scan agrees with the library on spaces,
signs and digits, but it looks for a lone `0x` in lower case only, and for a
zero with the digit in front of the decimal point.
-/

/-! ## The scan -/

theorem charAt_eq {str : List UInt8} {index : Nat} {c : UInt8} (nonzero : c ≠ 0) :
    charAt str index = c ↔ str[index]? = some c := by
  rw [charAt, List.getD_eq_getElem?_getD]
  cases str[index]? with
  | none => exact iff_of_false (fun same => nonzero same.symm) (fun same => (by cases same))
  | some byte => exact ⟨fun same => congrArg some same, fun same => Option.some.inj same⟩

theorem checkZeroResult_eq {str : List UInt8} {endptr : Option Nat} (moved : endptr ≠ some 0) (base : Nat)
    (errno : Errno) :
    checkZeroResult str endptr base errno =
      if (behindSign str)[0]? ≠ some 48 then .einval
      else if (base = 0 ∨ base = 16) ∧ (behindSign str)[1]? = some 120 then
        if (behindSign str)[2]? ≠ some 48 then .einval else errno
      else errno := by
  have skipped : (if charAt (str.dropWhile isSpace) 0 = 45 ∨ charAt (str.dropWhile isSpace) 0 = 43 then
      (str.dropWhile isSpace).drop 1 else str.dropWhile isSpace) = behindSign str := by
    simp only [charAt_eq (show (45 : UInt8) ≠ 0 by decide), charAt_eq (show (43 : UInt8) ≠ 0 by decide)]
    rw [behindSign, List.head?_eq_getElem?, List.drop_one]
  rw [checkZeroResult, if_neg moved]
  dsimp only
  rw [skipped]
  simp only [ne_eq, charAt_eq (show (48 : UInt8) ≠ 0 by decide), charAt_eq (show (120 : UInt8) ≠ 0 by decide)]

theorem checkZeroResult_endptr {str : List UInt8} {consumed : Nat}
    (unread : consumed = 0 → (behindSign str)[0]? ≠ some 48)
    (base : Nat) (errno : Errno) : checkZeroResult str (some consumed) base errno =
      checkZeroResult str none base errno := by
  rw [@checkZeroResult_eq str none ((Option.some_ne_none 0).symm)]
  by_cases moved : consumed = 0
  · rw [if_pos (unread moved), moved]
    rfl
  · rw [checkZeroResult_eq fun same => moved (Option.some.inj same)]

section

variable {base : Nat} {str : List UInt8} {numeral : Subject}

theorem radix_pos (common : Common base) (text : List UInt8) : 0 < (Numeral.radix base text).1 := by
  rw [Numeral.radix]
  split
  · exact Nat.succ_pos 15
  · split
    · split
      · exact Nat.succ_pos 7
      · exact Nat.succ_pos 9
    · rcases common with rfl | rfl | rfl | rfl
      · contradiction
      · exact Nat.succ_pos 7
      · exact Nat.succ_pos 9
      · exact Nat.succ_pos 15

theorem subject_parts (read : subject base str = some numeral) :
    ∃ digits, digits ≠ [] ∧ (Numeral.radix base (behindSign str)).2 = digits ++ numeral.rest ∧
      numeral.magnitude = Numeral.value (Numeral.radix base (behindSign str)).1 digits := by
  rw [subject] at read
  split at read
  · cases read
  · rename_i present
    cases read
    exact ⟨_, present, (List.takeWhile_append_dropWhile).symm, rfl⟩

theorem behindSign_length (str : List UInt8) : (behindSign str).length ≤ str.length := by
  have spaces := (List.dropWhile_suffix isSpace (l := str)).length_le
  rw [behindSign]
  split
  · rw [List.length_tail]
    omega
  · exact spaces

theorem consumed_pos (read : subject base str = some numeral) : consumed str numeral ≠ 0 := by
  rcases subject_parts read with ⟨digits, present, split, -⟩
  have some := List.length_pos_of_ne_nil present
  have lengths := congrArg List.length split
  rw [List.length_append] at lengths
  have shorter : (Numeral.radix base (behindSign str)).2.length ≤ (behindSign str).length := by
    rw [Numeral.radix]
    split
    · rw [List.length_drop]
      exact Nat.sub_le _ _
    · split
      · exact Nat.le_refl _
      · exact Nat.le_refl _
  have whole := behindSign_length str
  rw [consumed]
  omega

theorem radix_marked {text : List UInt8}
    (marked : (base = 0 ∨ base = 16) ∧ isMarked text ∧ isDigit 16 (text.getD 2 0) = true) :
    Numeral.radix base text = (16, text.drop 2) :=
  if_pos marked

theorem radix_unmarked {text : List UInt8}
    (unmarked : ¬ ((base = 0 ∨ base = 16) ∧ isMarked text ∧ isDigit 16 (text.getD 2 0) = true)) :
    (Numeral.radix base text).2 = text := by
  rw [Numeral.radix, if_neg unmarked]
  split
  · rfl
  · rfl

theorem zero_is_digit {radix : Nat} (positive : 0 < radix) : isDigit radix 48 = true :=
  decide_eq_true positive

/-- The digits of a lone `0x` are its zero. -/
theorem lone_subject (common : Common base) (alone : Lone base (behindSign str)) :
    ∃ numeral, subject base str = some numeral ∧ numeral.magnitude = 0 := by
  rcases alone with ⟨based, ⟨isZero, isX⟩, noDigit⟩
  have unmarked : ¬ ((base = 0 ∨ base = 16) ∧ isMarked (behindSign str) ∧
    isDigit 16 ((behindSign str).getD 2 0) = true) := by
    rintro ⟨-, -, digit⟩
    rw [noDigit] at digit
    cases digit
  have positive := radix_pos common (behindSign str)
  have low : (Numeral.radix base (behindSign str)).1 ≤ 16 := by
    rw [Numeral.radix, if_neg unmarked]
    rcases based with rfl | rfl
    · rw [if_pos rfl, if_pos isZero]
      exact Nat.le_of_lt (show 8 < 16 by decide)
    · rw [if_neg (by decide)]
  have digits : (behindSign str).takeWhile (isDigit (Numeral.radix base (behindSign str)).1) = [48] := by
    cases behind : behindSign str with
    | nil =>
        rw [behind] at isZero
        cases isZero
    | cons zero others =>
        rw [behind] at isZero isX positive low
        cases isZero
        cases others with
        | nil =>
            rcases isX with isX | isX
            · cases isX
            · cases isX
        | cons letter others =>
            have isLetter : letter = 120 ∨ letter = 88 := isX.imp Option.some.inj Option.some.inj
            have beyond : isDigit (Numeral.radix base (48 :: letter :: others)).1 letter = false := by
              apply decide_eq_false
              have large : 16 ≤ Numeral.digit letter := by
                rcases isLetter with rfl | rfl
                · decide
                · decide
              omega
            rw [List.takeWhile_cons_of_pos (zero_is_digit positive),
              List.takeWhile_cons_of_neg (by rw [beyond]; exact Bool.false_ne_true)]
  rw [subject]
  simp only [radix_unmarked unmarked, digits]
  exact ⟨_, rfl, (Numeral.value_eq_zero positive).mpr fun byte member => List.mem_singleton.mp member⟩

/-- A text without an integer does not go on with a zero. -/
theorem unread_zero (common : Common base) (unread : subject base str = none) : (behindSign str)[0]? ≠ some 48 := by
  intro isZero
  rw [subject] at unread
  split at unread
  · rename_i empty
    by_cases marked : (base = 0 ∨ base = 16) ∧ isMarked (behindSign str) ∧ isDigit 16 ((behindSign str).getD 2 0) = true
    · rw [radix_marked marked] at empty
      have digit := marked.2.2
      rw [List.getD_eq_getElem?_getD, ← Nat.add_zero 2, ← List.getElem?_drop] at digit
      cases behind : (behindSign str).drop 2 with
      | nil =>
          rw [behind] at digit
          exact absurd digit (by decide)
      | cons byte others =>
          rw [behind] at digit empty
          change isDigit 16 byte = true at digit
          have taken := (List.takeWhile_cons_of_pos digit (l := others)).symm.trans empty
          cases taken
    · have positive := radix_pos common (behindSign str)
      rw [radix_unmarked marked] at empty
      cases behind : behindSign str with
      | nil =>
          rw [behind] at isZero
          cases isZero
      | cons zero others =>
          rw [behind] at isZero positive empty
          cases isZero
          rw [List.takeWhile_cons_of_pos (zero_is_digit positive)] at empty
          cases empty
  · cases unread

/-- A zero starts with one, and has nothing of a lone `0x`, or is that of
one. -/
theorem zero_scanned (common : Common base) (read : subject base str = some numeral) (zero : numeral.magnitude = 0) :
    (behindSign str)[0]? = some 48 ∧
      ((base = 0 ∨ base = 16) → (behindSign str)[1]? = some 120 →
        ((behindSign str)[2]? ≠ some 48 ↔ Lone base (behindSign str))) := by
  rcases subject_parts read with ⟨digits, present, split, magnitude⟩
  rw [magnitude, Numeral.value_eq_zero (radix_pos common _)] at zero
  have first : digits[0]? = some 48 := by
    cases digits with
    | nil => exact absurd rfl present
    | cons byte others => exact congrArg some (zero byte List.mem_cons_self)
  have front : (digits ++ numeral.rest)[0]? = some 48 := by
    rw [List.getElem?_append_left (List.length_pos_of_ne_nil present)]
    exact first
  by_cases marked : (base = 0 ∨ base = 16) ∧ isMarked (behindSign str) ∧ isDigit 16 ((behindSign str).getD 2 0) = true
  · rw [radix_marked marked] at split
    rw [← split, List.getElem?_drop] at front
    refine ⟨marked.2.1.1, fun _ _ => iff_of_false (not_not.mpr front) ?_⟩
    rintro ⟨-, -, noDigit⟩
    rw [marked.2.2] at noDigit
    cases noDigit
  · rw [radix_unmarked marked] at split
    rw [← split] at front
    refine ⟨front, fun based isX => ?_⟩
    have noDigit : isDigit 16 ((behindSign str).getD 2 0) = false :=
      Bool.eq_false_iff.mpr fun digit => marked ⟨based, ⟨front, Or.inl isX⟩, digit⟩
    refine iff_of_true ?_ ⟨based, ⟨front, Or.inl isX⟩, noDigit⟩
    intro isZero
    rw [List.getD_eq_getElem?_getD, isZero] at noDigit
    exact absurd noDigit (by decide)

end

/-! ## Integers -/

/-- A function of the library that converts integers of some type. -/
structure Converts (convert : List UInt8 → Nat → Parsed Int) (fits : Subject → Prop) : Prop where
  unread : ∀ str base, subject base str = none → convert str base = ⟨0, .none, 0⟩
  large : ∀ str base numeral, subject base str = some numeral → ¬ fits numeral → (convert str base).errno = .erange
  read : ∀ str base numeral, subject base str = some numeral → fits numeral → (convert str base).errno = .none ∧
    (convert str base).consumed = consumed str numeral ∧ ((convert str base).value = 0 ↔ numeral.magnitude = 0)
  zero : ∀ numeral, numeral.magnitude = 0 → fits numeral

def FitsUnsigned (numeral : Subject) : Prop := numeral.magnitude < 2 ^ 64

def FitsSigned (numeral : Subject) : Prop := -2 ^ 63 ≤ signed numeral ∧ signed numeral < 2 ^ 63

theorem signed_eq_zero (numeral : Subject) : signed numeral = 0 ↔ numeral.magnitude = 0 := by
  rw [signed]
  split
  · omega
  · omega

theorem strtoul_fits {str : List UInt8} {base : Nat} {numeral : Subject} (read : subject base str = some numeral)
    (fits : FitsUnsigned numeral) : strtoul str base = ⟨signed numeral % 2 ^ 64, .none, consumed str numeral⟩ := by
  unfold FitsUnsigned at fits
  rw [strtoul, read]
  dsimp only
  rw [if_neg (by unfold ulongMax; omega)]

theorem strtoul_large {str : List UInt8} {base : Nat} {numeral : Subject} (read : subject base str = some numeral)
    (large : ¬ FitsUnsigned numeral) : strtoul str base = ⟨ulongMax, .erange, consumed str numeral⟩ := by
  unfold FitsUnsigned at large
  rw [strtoul, read]
  dsimp only
  rw [if_pos (by unfold ulongMax; omega)]

theorem strtoul_converts : Converts strtoul FitsUnsigned where
  unread := by
    intro str base unread
    rw [strtoul, unread]
  large := by
    intro str base numeral read large
    rw [strtoul_large read large]
  read := by
    intro str base numeral read fits
    rw [strtoul_fits read fits, ← signed_eq_zero]
    refine ⟨rfl, rfl, ?_⟩
    unfold FitsUnsigned at fits
    unfold signed
    dsimp only
    split
    · omega
    · omega
  zero := by
    intro numeral zero
    rw [FitsUnsigned, zero]
    exact Nat.two_pow_pos 64

theorem strtol_converts : Converts strtol FitsSigned where
  unread := by
    intro str base unread
    rw [strtol, unread]
  large := by
    intro str base numeral read large
    unfold FitsSigned at large
    rw [strtol, read]
    dsimp only
    by_cases beyond : signed numeral > longMax
    · rw [if_pos beyond]
    · rw [if_neg beyond, if_pos (by unfold longMin longMax at *; omega)]
  read := by
    intro str base numeral read fits
    unfold FitsSigned at fits
    rw [strtol, read]
    dsimp only
    rw [if_neg (by unfold longMax; omega), if_neg (by unfold longMin; omega)]
    exact ⟨rfl, rfl, signed_eq_zero numeral⟩
  zero := by
    intro numeral zero
    rw [FitsSigned, (signed_eq_zero numeral).mpr zero]
    decide

section

variable {convert : List UInt8 → Nat → Parsed Int} {fits : Subject → Prop} {str : List UInt8} {base : Nat}

/-- A lone `0x` in lower case. -/
def LoneLower (base : Nat) (str : List UInt8) : Prop := Lone base (behindSign str) ∧ (behindSign str)[1]? = some 120

/-- A lone `0X` in upper case. -/
def LoneUpper (base : Nat) (str : List UInt8) : Prop := Lone base (behindSign str) ∧ (behindSign str)[1]? = some 88

/-- What a conversion with the check returns for an integer that is read. -/
theorem checked_read (converts : Converts convert fits) (common : Common base) {numeral : Subject}
    (read : subject base str = some numeral) (isFit : fits numeral) (endptr : Bool) :
    (LoneLower base str → (checked (· = 0) convert str endptr base).errno = .einval) ∧
      (¬ LoneLower base str → checked (· = 0) convert str endptr base = convert str base) := by
  rcases converts.read str base numeral read isFit with ⟨noError, moved, isZero⟩
  rw [checked]
  by_cases zero : numeral.magnitude = 0
  · have scanned := zero_scanned common read zero
    have behind : (if endptr then some (convert str base).consumed else none) ≠ some 0 := by
      rw [moved]
      cases endptr with
      | false => exact fun same => (by cases same)
      | true => exact fun same => consumed_pos read (Option.some.inj same)
    rw [if_pos ⟨decide_eq_true (isZero.mpr zero), noError⟩, checkZeroResult_eq behind, if_neg (not_not.mpr scanned.1)]
    constructor
    · rintro ⟨alone, isX⟩
      rw [if_pos ⟨alone.1, isX⟩, if_pos ((scanned.2 alone.1 isX).mpr alone)]
    · intro clean
      by_cases marked : (base = 0 ∨ base = 16) ∧ (behindSign str)[1]? = some 120
      · rw [if_pos marked, if_neg fun notZero => clean ⟨(scanned.2 marked.1 marked.2).mp notZero, marked.2⟩]
      · rw [if_neg marked]
  · have nonzero : ¬ (decide ((convert str base).value = 0) = true ∧ (convert str base).errno = .none) :=
      fun both => zero (isZero.mp (of_decide_eq_true both.1))
    rw [if_neg nonzero]
    refine ⟨?_, fun _ => rfl⟩
    rintro ⟨alone, -⟩
    rcases lone_subject common alone with ⟨other, isOther, isZero'⟩
    rw [read] at isOther
    cases isOther
    exact absurd isZero' zero

theorem checked_value (endptr : Bool) : (checked (· = 0) convert str endptr base).value = (convert str base).value := by
  rw [checked]
  split
  · rfl
  · rfl

theorem checked_large (converts : Converts convert fits) {numeral : Subject} (read : subject base str = some numeral)
    (large : ¬ fits numeral) (endptr : Bool) : checked (· = 0) convert str endptr base = convert str base := by
  rw [checked, if_neg]
  rintro ⟨-, noError⟩
  rw [converts.large str base numeral read large] at noError
  cases noError

theorem checked_unread (converts : Converts convert fits) (common : Common base) (unread : subject base str = none)
    (endptr : Bool) : checked (· = 0) convert str endptr base = ⟨0, .einval, 0⟩ := by
  have noZero := unread_zero common unread
  rw [checked, converts.unread str base unread]
  cases endptr with
  | true => rfl
  | false =>
      dsimp only
      rw [if_pos ⟨rfl, rfl⟩, if_neg Bool.false_ne_true, checkZeroResult_eq (fun same => (by cases same)), if_pos noZero]

/-- What is said of a conversion: `errno` is cleared if the text begins with a
numeral that fits, and tells whether there is none. -/
def Tells (parse : List UInt8 → Bool → Nat → Parsed Int) (fits : Subject → Prop) (str : List UInt8)
    (base : Nat) : Prop :=
  ∀ endptr, ((parse str endptr base).errno = .none ↔ ∃ numeral, Begins base str numeral ∧ fits numeral) ∧
    ((parse str endptr base).errno = .einval ↔ ¬ ∃ numeral, Begins base str numeral)

/-- Without a lone `0x`, what the library reads is what the text begins with. -/
theorem begins_unless (common : Common base) (clean : ¬ Lone base (behindSign str)) (numeral : Subject) :
    Begins base str numeral ↔ subject base str = some numeral := by
  rw [Numeral.begins_iff common]
  exact and_iff_left clean

theorem lone_cases (alone : Lone base (behindSign str)) : LoneLower base str ∨ LoneUpper base str := by
  rcases alone.2.1.2 with isLower | isUpper
  · exact Or.inl ⟨alone, isLower⟩
  · exact Or.inr ⟨alone, isUpper⟩

/-- `errno` tells it unless the text has a lone `0X`. -/
theorem checked_tells (converts : Converts convert fits) (common : Common base) :
    Tells (checked (· = 0) convert) fits str base ↔ ¬ LoneUpper base str := by
  constructor
  · rintro tells ⟨alone, isUpper⟩
    rcases lone_subject common alone with ⟨numeral, read, zero⟩
    have isFit := converts.zero numeral zero
    have notLower : ¬ LoneLower base str := by
      rintro ⟨-, isLower⟩
      rw [isUpper] at isLower
      cases isLower
    have noError := (converts.read str base numeral read isFit).1
    rw [← (checked_read converts common read isFit true).2 notLower] at noError
    rcases (tells true).1.mp noError with ⟨other, begins, -⟩
    exact (begins.subject common).2 alone
  · intro clean endptr
    by_cases alone : Lone base (behindSign str)
    · have noNumeral : ¬ ∃ numeral, Begins base str numeral := fun begins => (begins.choose_spec.subject common).2 alone
      rcases lone_subject common alone with ⟨numeral, read, zero⟩
      have isLower := (lone_cases alone).resolve_right clean
      rw [(checked_read converts common read (converts.zero numeral zero) endptr).1 isLower]
      refine ⟨iff_of_false (fun same => (by cases same)) ?_, iff_of_true rfl noNumeral⟩
      rintro ⟨other, begins, -⟩
      exact noNumeral ⟨other, begins⟩
    · simp only [begins_unless common alone]
      have notLower : ¬ LoneLower base str := fun isLower => alone isLower.1
      cases read : subject base str with
      | none =>
          rw [checked_unread converts common read]
          refine ⟨iff_of_false (fun same => (by cases same)) ?_, iff_of_true rfl ?_⟩
          · rintro ⟨other, isOther, -⟩
            cases isOther
          · rintro ⟨other, isOther⟩
            cases isOther
      | some numeral =>
          by_cases isFit : fits numeral
          · have noError := (converts.read str base numeral read isFit).1
            rw [(checked_read converts common read isFit endptr).2 notLower, noError]
            exact ⟨iff_of_true rfl ⟨numeral, rfl, isFit⟩,
              iff_of_false (fun same => (by cases same)) fun none => none ⟨numeral, rfl⟩⟩
          · rw [checked_large converts read isFit, converts.large str base numeral read isFit]
            refine ⟨iff_of_false (fun same => (by cases same)) ?_,
              iff_of_false (fun same => (by cases same)) fun none => none ⟨numeral, rfl⟩⟩
            rintro ⟨other, isOther, otherFits⟩
            cases isOther
            exact isFit otherFits

theorem checked_endptr (converts : Converts convert fits) (common : Common base) :
    checked (· = 0) convert str true base = checked (· = 0) convert str false base := by
  cases read : subject base str with
  | none => rw [checked_unread converts common read, checked_unread converts common read]
  | some numeral =>
      by_cases isFit : fits numeral
      · have moved : (convert str base).consumed ≠ 0 := by
          rw [(converts.read str base numeral read isFit).2.1]
          exact consumed_pos read
        rw [checked, checked, if_pos rfl, if_neg Bool.false_ne_true,
          checkZeroResult_endptr fun none => absurd none moved]
      · rw [checked_large converts read isFit, checked_large converts read isFit]

/-! ## 32 bits -/

/-- What is said of `kit_strtou32`: `errno` is cleared if the text begins with a
numeral in the range, which is what it returns. -/
def Tells32 (str : List UInt8) (base : Nat) : Prop :=
  ∀ endptr, ((kitStrtou32 str endptr base).errno = .none ↔
      ∃ numeral, Begins base str numeral ∧ 0 ≤ signed numeral ∧ signed numeral < 2 ^ 32) ∧
    ∀ numeral, (kitStrtou32 str endptr base).errno = .none → Begins base str numeral →
      (kitStrtou32 str endptr base).value = signed numeral

/-- The text begins with a negative numeral that is negated to a number of 32
bits. -/
def Wraps (base : Nat) (str : List UInt8) : Prop :=
  ∃ numeral, Begins base str numeral ∧ numeral.negative = true ∧ 2 ^ 64 - 2 ^ 32 < numeral.magnitude ∧
    numeral.magnitude < 2 ^ 64

theorem kitStrtou32_eq {endptr : Bool} {ret : Parsed Int} (isChecked : checked (· = 0) strtoul str endptr base = ret) :
    kitStrtou32 str endptr base = if ret.value ≠ ret.value % 2 ^ 32 then ⟨uint32Max, .erange, ret.consumed⟩
      else ret := by
  rw [← isChecked]
  rfl

/-- The value of a numeral that fits the unsigned type has 32 bits if the numeral
has, or if it wraps. -/
theorem wrapped_value {numeral : Subject} (isFit : FitsUnsigned numeral)
    (notWrapped : ¬ (numeral.negative = true ∧ 2 ^ 64 - 2 ^ 32 < numeral.magnitude)) :
    (signed numeral % 2 ^ 64 = signed numeral % 2 ^ 64 % 2 ^ 32 ↔ 0 ≤ signed numeral ∧ signed numeral < 2 ^ 32) ∧
      (0 ≤ signed numeral → signed numeral % 2 ^ 64 = signed numeral) := by
  unfold FitsUnsigned at isFit
  unfold signed
  split
  · rename_i minus
    have few : ¬ 2 ^ 64 - 2 ^ 32 < numeral.magnitude := fun many => notWrapped ⟨minus, many⟩
    omega
  · omega

theorem kitStrtou32_tells (common : Common base) : Tells32 str base ↔ ¬ LoneUpper base str ∧ ¬ Wraps base str := by
  constructor
  · intro tells
    refine ⟨?_, ?_⟩
    · rintro ⟨alone, isUpper⟩
      rcases lone_subject common alone with ⟨numeral, read, zero⟩
      have notLower : ¬ LoneLower base str := by
        rintro ⟨-, isLower⟩
        rw [isUpper] at isLower
        cases isLower
      have isFit := strtoul_converts.zero numeral zero
      have isChecked := (checked_read strtoul_converts common read isFit true).2 notLower
      have isZero := (signed_eq_zero numeral).mpr zero
      rw [strtoul_fits read isFit, isZero] at isChecked
      have noError : (kitStrtou32 str true base).errno = .none := by
        rw [kitStrtou32_eq isChecked]
        rfl
      rcases (tells true).1.mp noError with ⟨other, begins, -⟩
      exact (begins.subject common).2 alone
    · rintro ⟨numeral, begins, minus, many, isFit⟩
      rcases begins.subject common with ⟨read, clean⟩
      have isChecked := (checked_read strtoul_converts common read isFit true).2 fun isLower => clean isLower.1
      have isSigned : signed numeral = -numeral.magnitude := if_pos minus
      rw [strtoul_fits read isFit, isSigned] at isChecked
      have noError : (kitStrtou32 str true base).errno = .none := by
        rw [kitStrtou32_eq isChecked, if_neg]
        dsimp only
        omega
      rcases (tells true).1.mp noError with ⟨other, isOther, positive, -⟩
      have same := (isOther.subject common).1
      rw [read] at same
      cases same
      omega
  · rintro ⟨noUpper, noWrap⟩ endptr
    by_cases alone : Lone base (behindSign str)
    · have noNumeral : ¬ ∃ numeral, Begins base str numeral := fun begins => (begins.choose_spec.subject common).2 alone
      rcases lone_subject common alone with ⟨numeral, read, zero⟩
      have isLower := (lone_cases alone).resolve_right noUpper
      have isFit := strtoul_converts.zero numeral zero
      have isZero : (checked (· = 0) strtoul str endptr base).value = 0 := by
        rw [checked_value, strtoul_fits read isFit, (signed_eq_zero numeral).mpr zero]
        rfl
      have error : (kitStrtou32 str endptr base).errno = .einval := by
        rw [kitStrtou32_eq rfl, if_neg (by rw [isZero]; decide)]
        exact (checked_read strtoul_converts common read isFit endptr).1 isLower
      rw [error]
      refine ⟨iff_of_false (fun same => (by cases same)) ?_, fun other same => (by cases same)⟩
      rintro ⟨other, begins, -⟩
      exact noNumeral ⟨other, begins⟩
    · have notLower : ¬ LoneLower base str := fun isLower => alone isLower.1
      simp only [begins_unless common alone]
      cases read : subject base str with
      | none =>
          rw [kitStrtou32_eq (checked_unread strtoul_converts common read endptr), if_neg (by decide)]
          refine ⟨iff_of_false (fun same => (by cases same)) ?_, fun other same => (by cases same)⟩
          rintro ⟨other, isOther, -⟩
          cases isOther
      | some numeral =>
          have only (property : Subject → Prop) : (∃ other, some numeral = some other ∧ property other) ↔
            property numeral := by
            refine ⟨?_, fun holds => ⟨numeral, rfl, holds⟩⟩
            rintro ⟨other, same, holds⟩
            cases same
            exact holds
          rw [only fun other => 0 ≤ signed other ∧ signed other < 2 ^ 32]
          by_cases isFit : FitsUnsigned numeral
          · have isChecked := (checked_read strtoul_converts common read isFit endptr).2 notLower
            rw [strtoul_fits read isFit] at isChecked
            have notWrapped : ¬ (numeral.negative = true ∧ 2 ^ 64 - 2 ^ 32 < numeral.magnitude) := by
              rintro ⟨minus, many⟩
              exact noWrap ⟨numeral, (begins_unless common alone numeral).mpr read, minus, many, isFit⟩
            rcases wrapped_value isFit notWrapped with ⟨inRange, isValue⟩
            rw [kitStrtou32_eq isChecked]
            dsimp only
            by_cases kept : signed numeral % 2 ^ 64 = signed numeral % 2 ^ 64 % 2 ^ 32
            · rw [if_neg (not_not.mpr kept)]
              refine ⟨iff_of_true rfl (inRange.mp kept), ?_⟩
              intro other _ same
              cases same
              exact isValue (inRange.mp kept).1
            · rw [if_pos kept]
              exact ⟨iff_of_false (fun same => (by cases same)) fun range => kept (inRange.mpr range),
                fun other same => (by cases same)⟩
          · have isChecked := checked_large strtoul_converts read isFit endptr
            rw [strtoul_large read isFit] at isChecked
            rw [kitStrtou32_eq isChecked, if_pos (show ulongMax ≠ ulongMax % 2 ^ 32 by decide)]
            refine ⟨iff_of_false (fun same => (by cases same)) ?_, fun other same => (by cases same)⟩
            unfold FitsUnsigned at isFit
            unfold signed
            split
            · omega
            · omega

end

/-! ## Floating point -/

/-- The text begins with a decimal numeral of value zero: zeros around a decimal
point, with one at least, and any exponent behind them.  The numeral does not go
on with digits or a decimal point, and is not hexadecimal. -/
def ZeroDecimal (str : List UInt8) : Prop :=
  ∃ spaces sign whole point fraction rest minus,
    str = spaces ++ (sign ++ (whole ++ (point ++ (fraction ++ rest)))) ∧ (∀ byte ∈ spaces, isSpace byte = true) ∧
      Numeral.Sign minus sign ∧ (∀ byte ∈ whole, byte = 48) ∧ (∀ byte ∈ fraction, byte = 48) ∧ whole ++ fraction ≠ [] ∧
      (point = [46] ∨ point = [] ∧ fraction = [] ∧ rest[0]? ≠ some 46 ∧ ¬ isMarked (whole ++ rest)) ∧
      ∀ byte, rest[0]? = some byte → isDigit 10 byte = false

/-- What is assumed of the library: a zero is converted to zero, and a text that
goes on with a digit behind spaces and sign is converted. -/
structure Strtod {α : Type} (isZero : α → Bool) (strtod : List UInt8 → Parsed α) : Prop where
  zero : ∀ str, ZeroDecimal str → isZero (strtod str).value = true ∧ (strtod str).errno = .none ∧
    (strtod str).consumed ≠ 0
  unread : ∀ str, (strtod str).consumed = 0 → ∀ byte, (behindSign str)[0]? = some byte → isDigit 10 byte = false

section

variable {α : Type} {isZero : α → Bool} {strtod : List UInt8 → Parsed α} {str : List UInt8}

/-- A zero starts with one or with its decimal point. -/
theorem ZeroDecimal.first (decimal : ZeroDecimal str) :
    (behindSign str)[0]? = some 48 ∨ (behindSign str)[0]? = some 46 := by
  rcases decimal with ⟨spaces, sign, whole, point, fraction, rest, minus, rfl, blank, signed, zeros, zeros', some,
    isPoint, -⟩
  cases whole with
  | cons byte others =>
      have isZero := zeros byte List.mem_cons_self
      subst isZero
      rw [List.cons_append, (Numeral.behindSign_append blank signed (Numeral.plain_of_ge (UInt8.le_refl 48))).1]
      exact Or.inl rfl
  | nil =>
      rcases isPoint with rfl | ⟨-, none, -⟩
      · have plain : Numeral.Plain 46 := ⟨rfl, by decide, by decide⟩
        rw [List.nil_append, List.singleton_append, (Numeral.behindSign_append blank signed plain).1]
        exact Or.inr rfl
      · exact absurd none some

theorem kitStrtod_zero (library : Strtod isZero strtod) (decimal : ZeroDecimal str) (endptr : Bool) :
    (kitStrtod isZero strtod str endptr).errno = .none ↔ (behindSign str)[0]? ≠ some 46 := by
  rcases library.zero str decimal with ⟨zero, noError, moved⟩
  have behind : (if endptr then some (strtod str).consumed else none) ≠ some 0 := by
    cases endptr with
    | false => exact fun same => (by cases same)
    | true => exact fun same => moved (Option.some.inj same)
  rw [kitStrtod, checked, if_pos ⟨zero, noError⟩, checkZeroResult_eq behind]
  rcases decimal.first with isZero | isPoint
  · have decimal : ¬ ((10 = 0 ∨ 10 = 16) ∧ (behindSign str)[1]? = some 120) := fun both => absurd both.1 (by decide)
    rw [isZero, if_neg (not_not.mpr rfl), if_neg decimal, noError]
    exact iff_of_true rfl (by decide)
  · rw [isPoint, if_pos (by decide)]
    exact iff_of_false (fun same => (by cases same)) (not_not.mpr rfl)

theorem kitStrtod_endptr (library : Strtod isZero strtod) :
    kitStrtod isZero strtod str true = kitStrtod isZero strtod str false := by
  have unread (moved : (strtod str).consumed = 0) : (behindSign str)[0]? ≠ some 48 :=
    fun isZero => absurd (library.unread str moved 48 isZero) (by decide)
  rw [kitStrtod, kitStrtod, checked, checked, if_pos rfl, if_neg Bool.false_ne_true, checkZeroResult_endptr unread]

end

/-- When `errno` tells what the text begins with: for integers unless there is a
lone `0X`, for those of 32 bits unless a negative one wraps, and for a floating
point zero if a digit is in front of its decimal point.  Whether there is an
`endptr` makes no difference. -/
theorem errno_tells {α : Type} {isZero : α → Bool} {strtod : List UInt8 → Parsed α}
    (library : Strtod isZero strtod) {base : Nat}
    (common : Common base) (str : List UInt8) :
    ((Tells kitStrtoul FitsUnsigned str base ↔ ¬ LoneUpper base str) ∧
    (Tells kitStrtoull FitsUnsigned str base ↔ ¬ LoneUpper base str) ∧
      (Tells kitStrtol FitsSigned str base ↔ ¬ LoneUpper base str) ∧
      (Tells kitStrtoll FitsSigned str base ↔ ¬ LoneUpper base str)) ∧
    (Tells32 str base ↔ ¬ LoneUpper base str ∧ ¬ Wraps base str) ∧
    (∀ endptr, (ZeroDecimal str → (kitStrtod isZero strtod str endptr).errno = .none) ↔
      (ZeroDecimal str → (behindSign str)[0]? ≠ some 46)) ∧
    kitStrtoul str true base = kitStrtoul str false base ∧ kitStrtoull str true base = kitStrtoull str false base ∧
    kitStrtol str true base = kitStrtol str false base ∧ kitStrtoll str true base = kitStrtoll str false base ∧
    kitStrtou32 str true base = kitStrtou32 str false base ∧
    kitStrtod isZero strtod str true = kitStrtod isZero strtod str false := by
  have unsigned := @checked_tells _ _ str base strtoul_converts common
  have signed := @checked_tells _ _ str base strtol_converts common
  have endptrUnsigned := @checked_endptr _ _ str base strtoul_converts common
  have endptrSigned := @checked_endptr _ _ str base strtol_converts common
  refine ⟨⟨unsigned, unsigned, signed, signed⟩, kitStrtou32_tells common, ?_, endptrUnsigned, endptrUnsigned,
    endptrSigned,
    endptrSigned, ?_, kitStrtod_endptr library⟩
  · intro endptr
    exact forall_congr' fun decimal => kitStrtod_zero library decimal endptr
  · rw [kitStrtou32_eq endptrUnsigned]
    rfl

/-- A `strtod` for whole numbers, and for what is smaller than one. -/
def wholePart (str : List UInt8) : Parsed Nat :=
  match subject 10 str with
  | some numeral => ⟨numeral.magnitude, .none, consumed str numeral⟩
  | none =>
    if (behindSign str)[0]? = some 46 ∧ isDigit 10 (charAt (behindSign str) 1) then ⟨0, .none, 2⟩ else ⟨0, .none, 0⟩

theorem radix_decimal (text : List UInt8) : Numeral.radix 10 text = (10, text) := by
  rw [Numeral.radix, if_neg, if_neg (by decide)]
  rintro ⟨based, -⟩
  exact absurd based (by decide)

theorem subject_decimal {str digits rest : List UInt8} (behind : behindSign str = digits ++ rest)
    (present : digits ≠ [])
    (each : ∀ byte ∈ digits, isDigit 10 byte = true) (last : ∀ byte, rest[0]? = some byte → isDigit 10 byte = false) :
    subject 10 str = some ⟨Numeral.negative str, Numeral.value 10 digits, rest⟩ := by
  have taken := Numeral.takeWhile_digits each last
  rw [subject, behind]
  simp only [radix_decimal, taken, if_neg present]

theorem subject_decimal_none (str : List UInt8) :
    subject 10 str = none ↔ ∀ byte, (behindSign str)[0]? = some byte → isDigit 10 byte = false := by
  rw [subject]
  simp only [radix_decimal]
  cases behindSign str with
  | nil => exact iff_of_true rfl fun byte first => (by cases first)
  | cons first others =>
      by_cases digit : isDigit 10 first = true
      · rw [List.takeWhile_cons_of_pos digit, if_neg (List.cons_ne_nil _ _)]
        refine iff_of_false (fun same => (by cases same)) fun none => ?_
        rw [none first rfl] at digit
        cases digit
      · rw [List.takeWhile_cons_of_neg digit, if_pos rfl]
        refine iff_of_true rfl fun byte same => ?_
        cases same
        exact Bool.eq_false_iff.mpr digit

theorem wholePart_strtod : Strtod (fun value : Nat => decide (value = 0)) wholePart where
  zero := by
    rintro str ⟨spaces, sign, whole, point, fraction, rest, minus, rfl, blank, signed, zeros, zeros', some,
      isPoint, last⟩
    cases whole with
    | cons byte others =>
        have isZero := zeros byte List.mem_cons_self
        subst isZero
        have behind := (@Numeral.behindSign_append spaces sign (others ++
          (point ++ (fraction ++ rest))) 48 minus blank signed
          (Numeral.plain_of_ge (UInt8.le_refl 48))).1
        have stops : ∀ byte, (point ++ (fraction ++ rest))[0]? = Option.some byte → isDigit 10 byte = false := by
          intro byte first
          rcases isPoint with rfl | ⟨rfl, rfl, -, -⟩
          · cases first
            decide
          · exact last byte first
        have digits : ∀ byte ∈ 48 :: others, isDigit 10 byte = true := by
          intro byte member
          rw [zeros byte member]
          decide
        have read := @subject_decimal (spaces ++ (sign ++ 48 :: (others ++ (point ++ (fraction ++ rest)))))
          (48 :: others)
          (point ++ (fraction ++ rest)) behind (List.cons_ne_nil _ _) digits stops
        have moved := consumed_pos read
        rw [List.cons_append, wholePart, read]
        exact ⟨decide_eq_true ((Numeral.value_eq_zero (by decide)).mpr zeros), rfl, moved⟩
    | nil =>
        cases fraction with
        | nil => exact absurd rfl some
        | cons zero others =>
            rcases isPoint with rfl | ⟨-, none, -, -⟩
            · have isZero := zeros' zero List.mem_cons_self
              subst isZero
              have behind := (@Numeral.behindSign_append spaces sign (48 :: (others ++ rest)) 46 minus blank signed
                ⟨rfl, by decide, by decide⟩).1
              have noInteger : subject 10 (spaces ++ (sign ++ 46 :: 48 :: (others ++ rest))) = none := by
                rw [subject_decimal_none, behind]
                intro byte first
                cases first
                decide
              change _ ∧ (wholePart (spaces ++ (sign ++ 46 :: 48 :: (others ++ rest)))).errno = _ ∧ _
              rw [List.nil_append, List.singleton_append, List.cons_append, wholePart, noInteger]
              dsimp only
              rw [behind, if_pos ⟨rfl, rfl⟩]
              exact ⟨rfl, rfl, by decide⟩
            · cases none
  unread := by
    intro str unmoved
    rw [wholePart] at unmoved
    cases read : subject 10 str with
    | none => exact (subject_decimal_none str).mp read
    | some numeral =>
        rw [read] at unmoved
        exact absurd unmoved (consumed_pos read)

/-- The numeral `31`, which is also one in base 16. -/
theorem errno_tells_digits : Tells kitStrtoul FitsUnsigned [51, 49] 16 ∧
    kitStrtod (fun value : Nat => decide (value = 0)) wholePart [51, 49] true =
      kitStrtod (fun value : Nat => decide (value = 0)) wholePart [51, 49] false := by
  have told := @errno_tells Nat _ _ wholePart_strtod 16 (Or.inr (Or.inr (Or.inr rfl))) [51, 49]
  refine ⟨told.1.1.mpr ?_, told.2.2.2.2.2.2.2.2⟩
  rintro ⟨alone, -⟩
  exact absurd alone (by decide)

/-- `0Xg` is taken for a zero, the smallest number of 64 bits for one, and `.0`
for none. -/
theorem errno_misleads : ¬ Tells kitStrtoul FitsUnsigned [48, 88, 103] 16 ∧
    ¬ Tells32 [45, 49, 56, 52, 52, 54, 55, 52, 52, 48, 55, 51, 55, 48, 57, 53, 53, 49, 54, 49, 53] 10 ∧
    ZeroDecimal [46, 48] ∧ (kitStrtod (fun value : Nat => decide (value = 0)) wholePart [46, 48] true).errno =
      .einval := by
  refine ⟨?_, ?_, ?_, by decide⟩
  · intro tells
    rcases (tells true).1.mp (by decide) with ⟨numeral, begins, -⟩
    exact (begins.subject (Or.inr (Or.inr (Or.inr rfl)))).2 (by decide)
  · intro tells
    rcases (tells true).1.mp (by decide) with ⟨numeral, begins, positive, -⟩
    have read := (begins.subject (Or.inr (Or.inr (Or.inl rfl)))).1
    cases read
    exact absurd positive (by decide)
  · refine ⟨[], [], [], [46], [48], [], false, rfl, ?_, Numeral.Sign.none, ?_, ?_, by decide, Or.inl rfl, ?_⟩
    · exact fun byte member => absurd member List.not_mem_nil
    · exact fun byte member => absurd member List.not_mem_nil
    · exact fun byte member => List.mem_singleton.mp member
    · exact fun byte first => (by cases first)

end KitStrto
end LibKit
