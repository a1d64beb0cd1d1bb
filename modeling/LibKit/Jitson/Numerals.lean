import LibKit.Jitson.Meaning

namespace LibKit
namespace Jitson

open Source Stack

/-!
# Unsigned integers

`sxe_jitson_source_get_number` finds the end of a numeral, and `strtoul`
converts what is in memory there.  They agree on a numeral if its value fits,
if memory does not go on with a digit behind it, and if `strtoul` is not told to
read it as octal.
-/

/-! ## The value of a numeral -/

def Source.token (source behind : Source) : List UInt8 := source.next.take (source.next.length - behind.next.length)

/-- The number that a numeral stands for: decimal, or hexadecimal where that is
allowed. -/
def numeralValue (allowHex : Bool) (token : List UInt8) : Nat :=
  if allowHex ∧ token.getD 1 0 = 120 then digitsValue 16 (token.drop 2) else digitsValue 10 token

/-- The base in which `strtoul` reads a numeral. -/
def numeralBase (allowHex : Bool) (token : List UInt8) : Nat :=
  if allowHex ∧ token.headD 0 = 48 then if token.getD 1 0 = 120 then 16 else 8 else 10

def isOctal (byte : UInt8) : Bool := 48 ≤ byte ∧ byte ≤ 55

def isDigitOf (base : Nat) : UInt8 → Bool := if base = 16 then isXDigit else if base = 8 then isOctal else isDigit

inductive Numeral (allowHex : Bool) : List UInt8 → Prop where
  | decimal {digits : List UInt8} (areDigits : Digits digits) : Numeral allowHex digits
  | hexadecimal {digits : List UInt8} (allowed : allowHex = true) (some : digits ≠ [])
      (each : ∀ byte ∈ digits, isXDigit byte = true) :
      Numeral allowHex (48 :: 120 :: digits)

section

variable {source behind : Source}

theorem token_of_next {token : List UInt8} (next : source.next = token ++ behind.next) :
    source.token behind = token := by
  rw [Source.token, next, List.length_append, Nat.add_sub_cancel, List.take_left]

/-- The scanner accepts numerals. -/
theorem getNumber_numeral (read : source.getNumber = some (true, behind)) :
    Numeral source.allowHex (source.token behind) ∧ source.next = source.token behind ++ behind.next := by
  suffices found : ∃ token, Numeral source.allowHex token ∧ source.next = token ++ behind.next by
    rcases found with ⟨token, numeral, next⟩
    rw [token_of_next next]
    exact ⟨numeral, next⟩
  rw [Source.getNumber] at read
  split_ifs at read with digit hex
  · rcases Option.map_eq_some_iff.mp read with ⟨after, found, same⟩
    cases same
    have unsigned : source.afterMinus = source := by
      rw [Source.afterMinus, if_neg (by rw [hex.2.1]; decide)]
    rw [unsigned] at hex
    have next : source.next = 48 :: 120 :: (source.consume 2).next := by
      rw [peekChar_next hex.2.1 (by decide), peekChar_next hex.2.2 (by decide)]
      simp [Source.consume]
    simp only [Source.hexadecimal] at found
    split at found
    · cases found
    · rename_i long
      cases found
      refine ⟨48 :: 120 :: (source.consume 2).next.takeWhile isXDigit, .hexadecimal hex.1 ?_ ?_, ?_⟩
      · intro none
        apply long
        have whole := congrArg List.length (@List.takeWhile_append_dropWhile _ isXDigit (source.consume 2).next)
        rw [none, List.nil_append] at whole
        have total := congrArg List.length next
        rw [List.length_cons, List.length_cons] at total
        omega
      · exact fun byte inside => List.mem_takeWhile_imp inside
      · rw [next, List.cons_append, List.cons_append, List.takeWhile_append_dropWhile]
  · rcases Option.bind_eq_some_iff.mp read with ⟨⟨noFraction, middle⟩, isFraction, rest⟩
    rcases Option.map_eq_some_iff.mp rest with ⟨⟨noExponent, after⟩, isExponent, same⟩
    rcases afterMinus_next source with ⟨sign, isSign, signNext, unsigned⟩
    rcases digits_next digit with ⟨digits, areDigits, digitsNext⟩
    rcases fraction_next isFraction with ⟨fraction, fractionText, fractionNext, fractionNone⟩
    rcases exponent_next isExponent with ⟨exponent, exponentText, exponentNext, exponentNone⟩
    have plain := congrArg Prod.fst same
    rw [Bool.and_eq_true, Bool.and_eq_true, decide_eq_true_eq, unsigned, fractionNone, exponentNone] at plain
    rcases plain with ⟨⟨rfl, rfl⟩, rfl⟩
    have ends : after = behind := congrArg Prod.snd same
    subst ends
    refine ⟨digits, .decimal areDigits, ?_⟩
    rw [signNext, digitsNext, fractionNext, exponentNext]
    rfl

end

/-! ## Digits -/

theorem digitsValue_append (base : Nat) (digits : List UInt8) (digit : UInt8) :
    digitsValue base (digits ++ [digit]) = digitsValue base digits * base + digitValue digit := by
  rw [digitsValue, List.foldl_append]
  rfl

theorem isDigit_of_octal {byte : UInt8} (octal : isOctal byte = true) : isDigit byte = true := by
  simp only [isOctal, isDigit, Bool.decide_and, Bool.and_eq_true, decide_eq_true_eq] at octal ⊢
  exact ⟨octal.1, UInt8.le_trans octal.2 (by decide)⟩

theorem octal_iff {byte : UInt8} (digit : isDigit byte = true) : isOctal byte = true ↔ digitValue byte < 8 := by
  rw [digitValue, if_pos digit]
  simp only [isOctal, isDigit, Bool.decide_and, Bool.and_eq_true, decide_eq_true_eq, UInt8.le_iff_toNat_le] at digit ⊢
  have low : 48 ≤ byte.toNat := digit.1
  constructor
  · intro octal
    have high : byte.toNat ≤ 55 := octal.2
    omega
  · intro small
    exact ⟨low, show byte.toNat ≤ 55 by omega⟩

/-- Decimal digits that stand for a single octal digit are octal, and stand for
the same number. -/
theorem octal_of_small {digits : List UInt8} (each : ∀ byte ∈ digits, isDigit byte = true)
    (small : digitsValue 10 digits < 8) :
    (∀ byte ∈ digits, isOctal byte = true) ∧ digitsValue 8 digits = digitsValue 10 digits := by
  induction digits using List.reverseRecOn with
  | nil => exact ⟨fun byte inside => (by cases inside), rfl⟩
  | append_singleton digits digit ih =>
      rw [digitsValue_append] at small
      rcases ih (fun byte inside => each byte (List.mem_append_left _ inside)) (by omega) with ⟨octals, same⟩
      have last := (octal_iff (each digit (by simp))).mpr (by omega)
      refine ⟨?_, ?_⟩
      · intro byte inside
        rcases List.mem_append.mp inside with before | here
        · exact octals byte before
        · rwa [List.mem_singleton.mp here]
      · rw [digitsValue_append, digitsValue_append, same]
        omega

theorem octal_less {digits : List UInt8} (each : ∀ byte ∈ digits, isOctal byte = true)
    (large : 8 ≤ digitsValue 10 digits) :
    digitsValue 8 digits < digitsValue 10 digits := by
  induction digits using List.reverseRecOn with
  | nil => exact absurd large (by decide)
  | append_singleton digits digit ih =>
      have before : ∀ byte ∈ digits, isOctal byte = true := fun byte inside => each byte (List.mem_append_left _ inside)
      have digit8 := (octal_iff (isDigit_of_octal (each digit (by simp)))).mp (each digit (by simp))
      rw [digitsValue_append] at large
      rw [digitsValue_append, digitsValue_append]
      by_cases several : 8 ≤ digitsValue 10 digits
      · have less := ih before several
        omega
      · have same := (octal_of_small (fun byte inside => isDigit_of_octal (before byte inside))
          (Nat.not_le.mp several)).2
        omega

/-- Bytes of a kind are taken up to the end of a token exactly if they are all
of the kind, and the byte behind it is not. -/
theorem takeWhile_length_iff {kind : UInt8 → Bool} (notNul : kind 0 = false) (token rest : List UInt8) :
    ((token ++ rest).takeWhile kind).length = token.length ↔ (∀ byte ∈ token, kind byte = true) ∧
      kind (rest.headD 0) = false := by
  induction token with
  | nil =>
      rw [List.nil_append, List.length_nil, List.length_eq_zero_iff]
      rcases rest with _ | ⟨byte, rest⟩
      · exact iff_of_true rfl ⟨fun byte inside => (by cases inside), notNul⟩
      · rw [List.takeWhile_cons]
        cases isKind : kind byte with
        | true => simp [isKind]
        | false => simp [isKind]
  | cons first token ih =>
      rw [List.cons_append, List.takeWhile_cons, List.forall_mem_cons]
      cases isKind : kind first with
      | true => simp [ih]
      | false => simp

/-! ## Conversion -/

/-- A conversion of a numeral that takes all of it, and no more, and whose
result is its value. -/
def ConvertsExactly (allowHex : Bool) (token rest : List UInt8) : Prop :=
  strtoul (token ++ rest) allowHex = (numeralValue allowHex token, token.length) ∧ numeralValue allowHex token < 2 ^ 64

/-- A numeral whose value fits, behind which memory does not go on with a digit
of the base that `strtoul` reads it in, and which stands for an octal digit if
that base is eight. -/
structure Convertible (allowHex : Bool) (token rest : List UInt8) : Prop where
  fits : numeralValue allowHex token < 2 ^ 64
  ends : isDigitOf (numeralBase allowHex token) (rest.headD 0) = false
  octal : numeralBase allowHex token = 8 → numeralValue allowHex token < 8
  unmarked : numeralBase allowHex token = 8 → token.length = 1 → ¬ StartsHex (48 :: rest)

section

variable {allowHex : Bool} {token rest : List UInt8}

/-- Digits of the base in which they are read. -/
theorem converts_iff {base : Nat} {kind : UInt8 → Bool} (notNul : kind 0 = false) {digits : List UInt8}
    (each : ∀ byte ∈ digits, kind byte = true) :
    (min (digitsValue base ((digits ++ rest).takeWhile kind)) (2 ^ 64 - 1) = digitsValue base digits ∧
        ((digits ++ rest).takeWhile kind).length = digits.length) ∧ digitsValue base digits < 2 ^ 64 ↔
      kind (rest.headD 0) = false ∧ digitsValue base digits < 2 ^ 64 := by
  rw [takeWhile_length_iff notNul]
  constructor
  · rintro ⟨⟨-, -, ends⟩, fits⟩
    exact ⟨ends, fits⟩
  · rintro ⟨ends, fits⟩
    refine ⟨⟨?_, each, ends⟩, fits⟩
    rw [(takeWhile_digits each (Or.inr ends)).1]
    exact Nat.min_eq_left (by omega)

theorem second_decimal (digits : Digits token) : token.getD 1 0 ≠ 120 ∧ token.getD 1 0 ≠ 88 := by
  rcases token with _ | ⟨first, _ | ⟨second, others⟩⟩
  · exact absurd rfl digits.1
  · exact ⟨show (0 : UInt8) ≠ 120 by decide, show (0 : UInt8) ≠ 88 by decide⟩
  · have digit : isDigit second = true := digits.2 second (by simp)
    refine ⟨fun letter => ?_, fun letter => ?_⟩
    · rw [show second = 120 from letter] at digit
      exact absurd digit (by decide)
    · rw [show second = 88 from letter] at digit
      exact absurd digit (by decide)

theorem value_decimal (allowHex : Bool) (digits : Digits token) : numeralValue allowHex token = digitsValue 10 token :=
  if_neg fun hex => (second_decimal digits).1 hex.2

theorem converts_decimal (digits : Digits token) (decimal : ¬ (allowHex = true ∧ token.headD 0 = 48)) :
    ConvertsExactly allowHex token rest ↔ Convertible allowHex token rest := by
  have base : numeralBase allowHex token = 10 := if_neg decimal
  have value := value_decimal allowHex digits
  have read : strtoul (token ++ rest) allowHex =
      (min (digitsValue 10 ((token ++ rest).takeWhile isDigit)) (2 ^ 64 - 1),
        ((token ++ rest).takeWhile isDigit).length) := by
    rcases token with _ | ⟨first, others⟩
    · exact absurd rfl digits.1
    · exact if_neg decimal
  rw [ConvertsExactly, read, value, Prod.mk.injEq, converts_iff (by decide) digits.2]
  constructor
  · rintro ⟨ends, fits⟩
    refine ⟨value ▸ fits, ?_, ?_, ?_⟩
    · rw [base]
      exact ends
    · intro octal
      exact absurd (base.symm.trans octal) (by decide)
    · intro octal
      exact absurd (base.symm.trans octal) (by decide)
  · intro convertible
    have ends := convertible.ends
    rw [base] at ends
    exact ⟨ends, value ▸ convertible.fits⟩

theorem converts_octal (digits : Digits token) (zero : token.headD 0 = 48) :
    ConvertsExactly true token rest ↔ Convertible true token rest := by
  have second := second_decimal digits
  have base : numeralBase true token = 8 := by
    rw [numeralBase, if_pos ⟨rfl, zero⟩, if_neg second.1]
  have value := value_decimal true digits
  rcases token with _ | ⟨first, others⟩
  · cases zero
  have isZero : first = 48 := zero
  subst isZero
  by_cases hex : StartsHex (48 :: (others ++ rest))
  · have single : others = [] := by
      rcases others with _ | ⟨second', others⟩
      · rfl
      · exact absurd hex.1 (not_or.mpr second)
    subst single
    refine iff_of_false ?_ fun convertible => convertible.unmarked base rfl hex
    rintro ⟨exact, -⟩
    have taken := congrArg Prod.snd exact
    rw [List.cons_append, (strtoul_zero _).1 hex] at taken
    change 2 + _ = 1 at taken
    omega
  · have read : strtoul (48 :: others ++ rest) true =
        (min (digitsValue 8 ((48 :: others ++ rest).takeWhile isOctal)) (2 ^ 64 - 1),
          ((48 :: others ++ rest).takeWhile isOctal).length) :=
      (strtoul_zero (others ++ rest)).2 hex
    constructor
    · rintro ⟨exact, fits⟩
      rw [read, value, Prod.mk.injEq] at exact
      rcases (takeWhile_length_iff (by decide) _ _).mp exact.2 with ⟨octals, ends⟩
      have same := exact.1
      rw [(takeWhile_digits octals (Or.inr ends)).1] at same
      refine ⟨fits, ?_, ?_, ?_⟩
      · rw [base]
        exact ends
      · intro _
        rw [value]
        by_contra large
        have less := octal_less octals (Nat.not_lt.mp large)
        omega
      · intro _ single hex'
        have none : others = [] := List.eq_nil_of_length_eq_zero (Nat.succ.inj single)
        rw [none, List.nil_append] at hex
        exact hex hex'
    · intro convertible
      have small := convertible.octal base
      have ends := convertible.ends
      rw [base] at ends
      rw [value] at small
      rcases octal_of_small digits.2 small with ⟨octals, same⟩
      refine ⟨?_, convertible.fits⟩
      rw [read, value, (takeWhile_digits octals (Or.inr ends)).1, same, Nat.min_eq_left (by omega)]

theorem converts_hexadecimal {digits : List UInt8} (some : digits ≠ []) (each : ∀ byte ∈ digits, isXDigit byte = true) :
    ConvertsExactly true (48 :: 120 :: digits) rest ↔ Convertible true (48 :: 120 :: digits) rest := by
  have base : numeralBase true (48 :: 120 :: digits) = 16 := rfl
  have value : numeralValue true (48 :: 120 :: digits) = digitsValue 16 digits := rfl
  have hex : StartsHex (48 :: (120 :: (digits ++ rest))) := by
    rcases digits with _ | ⟨first, others⟩
    · exact absurd rfl some
    · exact ⟨Or.inl rfl, each first List.mem_cons_self⟩
  have read : strtoul (48 :: 120 :: digits ++ rest) true =
      (min (digitsValue 16 ((digits ++ rest).takeWhile isXDigit)) (2 ^ 64 - 1),
        2 + ((digits ++ rest).takeWhile isXDigit).length) :=
    (strtoul_zero (120 :: (digits ++ rest))).1 hex
  have counted : ∀ taken : Nat, 2 + taken = (48 :: 120 :: digits).length ↔ taken = digits.length := by
    intro taken
    rw [List.length_cons, List.length_cons]
    omega
  rw [ConvertsExactly, read, value, Prod.mk.injEq, counted, converts_iff (by decide) each]
  constructor
  · rintro ⟨ends, fits⟩
    exact ⟨fits, ends, fun impossible => absurd impossible (by rw [base]; decide),
      fun impossible => absurd impossible (by rw [base]; decide)⟩
  · exact fun convertible => ⟨convertible.ends, convertible.fits⟩

theorem Numeral.converts (numeral : Numeral allowHex token) (rest : List UInt8) :
    ConvertsExactly allowHex token rest ↔ Convertible allowHex token rest := by
  cases numeral with
  | decimal digits =>
      by_cases octal : allowHex = true ∧ token.headD 0 = 48
      · rcases octal with ⟨rfl, zero⟩
        exact converts_octal digits zero
      · exact converts_decimal digits octal
  | hexadecimal allowed some each =>
      subst allowed
      exact converts_hexadecimal some each

end

/-! ## Parsing -/

/-- A numeral is converted whole, and its value is stored if it fits and refused
otherwise. -/
structure LoadsExactly (env : Env) (source behind : Source) (stack : Stack) : Prop where
  whole : (strtoul source.skipSpace.memory source.allowHex).2 = (source.skipSpace.token behind).length
  stored : numeralValue source.allowHex (source.skipSpace.token behind) < 2 ^ 64 →
    ∃ after, stack.load env source = .ok (behind, after) ∧ after.pointer stack.count =
      [.head { kind := .number, isUint := true } 0 (.integer
        (numeralValue source.allowHex (source.skipSpace.token behind)))]
  refused : 2 ^ 64 ≤ numeralValue source.allowHex (source.skipSpace.token behind) →
    ∃ failure, stack.load env source = .error failure ∧ failure.fault.returns = true

/-- A numeral is never refused where there is memory for it. -/
theorem numeral_loaded {env : Env} {source behind : Source} {stack grown : Stack}
    (number : source.skipSpace.getNumber = some (true, behind)) (expanded : stack.expand env 1 = .ok grown) :
    ∃ after, stack.load env source = .ok (behind, after) := by
  rw [Stack.load, loadJson_number _ stack (startsNumber_class (getNumber_starts number)), expanded, ok_bind,
    loadNumber_eq, number]
  exact ⟨_, rfl⟩

/-- Where there is memory for it, exactly a numeral that `strtoul` reads as the
parser does is stored with its value. -/
theorem loads_exactly_iff {env : Env} {source behind : Source} {stack grown : Stack}
    (number : source.skipSpace.getNumber = some (true, behind)) (expanded : stack.expand env 1 = .ok grown) :
    LoadsExactly env source behind stack ↔
      Convertible source.allowHex (source.skipSpace.token behind) behind.memory := by
  rcases getNumber_numeral number with ⟨numeral, next⟩
  have memory : source.skipSpace.memory = source.skipSpace.token behind ++ behind.memory := by
    rw [Source.memory, Source.memory, (getNumber_behind number).1.beyond, ← List.append_assoc, ← next]
  rcases numeral_loaded number expanded with ⟨after, loaded⟩
  have pointed := load_number number loaded
  have read : (strtoul source.skipSpace.memory source.allowHex).1 =
    numeralValue source.allowHex (source.skipSpace.token behind) ↔
      after.pointer stack.count = [.head { kind := .number, isUint := true } 0
        (.integer (numeralValue source.allowHex (source.skipSpace.token behind)))] := by
    rw [pointed]
    simp [convert]
  refine Iff.trans ?_ (Numeral.converts numeral behind.memory)
  rw [ConvertsExactly, ← memory, Prod.ext_iff]
  constructor
  · intro exact
    have fits : numeralValue source.allowHex (source.skipSpace.token behind) < 2 ^ 64 := by
      by_contra large
      rcases exact.refused (Nat.not_lt.mp large) with ⟨failure, refused, -⟩
      rw [loaded] at refused
      cases refused
    rcases exact.stored fits with ⟨after', stored, value⟩
    rw [loaded] at stored
    cases stored
    exact ⟨⟨read.mpr value, exact.whole⟩, fits⟩
  · rintro ⟨⟨value, whole⟩, fits⟩
    exact ⟨whole, fun _ => ⟨after, loaded, read.mp value⟩, fun large => absurd fits (Nat.not_lt.mpr large)⟩

/-- The text of `2 ^ 64 - 1`, the largest integer. -/
def largestInteger : List UInt8 := [49, 56, 52, 52, 54, 55, 52, 52, 48, 55, 51, 55, 48, 57, 53, 53, 49, 54, 49, 53]

theorem loads_exactly_largest : LoadsExactly numberEnv (.fromString largestInteger [] {})
    (.fromString [] [] {}) emptyStack := by
  have expanded : emptyStack.expand numberEnv 1 = .ok { emptyStack with jitsons := [.more] } := rfl
  have number : (Source.fromString largestInteger [] {}).skipSpace.getNumber = some (true, .fromString [] [] {}) := rfl
  refine (loads_exactly_iff number expanded).mpr ⟨?_, ?_, ?_, ?_⟩
  · decide
  · decide
  · exact fun octal => absurd octal (by decide)
  · exact fun octal => absurd octal (by decide)

/-- The text of `2 ^ 64`. -/
def tooLarge : List UInt8 := [49, 56, 52, 52, 54, 55, 52, 52, 48, 55, 51, 55, 48, 57, 53, 53, 49, 54, 49, 54]

theorem too_large_loaded : ¬ LoadsExactly numberEnv (.fromString tooLarge [] {}) (.fromString [] [] {}) emptyStack := by
  intro exact
  have expanded : emptyStack.expand numberEnv 1 = .ok { emptyStack with jitsons := [.more] } := rfl
  have number : (Source.fromString tooLarge [] {}).skipSpace.getNumber = some (true, .fromString [] [] {}) := rfl
  rcases numeral_loaded number expanded with ⟨after, loaded⟩
  rcases exact.refused (by decide) with ⟨failure, refused, -⟩
  rw [loaded] at refused
  cases refused

end Jitson
end LibKit
