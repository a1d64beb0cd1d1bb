import LibKit.SxeHex.Model
import LibKit.Support.Bytes

namespace LibKit
namespace SxeHex

/-!
# Conversions stay within their arguments

An even number of digits is converted two by two, up to the first that is none.
The assertion that the number is even takes a remainder by one: it never fails,
and an odd number of digits is read past its end.
-/

/-! ## Digits -/

def isDigit (character : UInt8) : Bool :=
  48 ≤ character ∧ character ≤ 57 ∨ 65 ≤ character ∧ character ≤ 70 ∨ 97 ≤ character ∧ character ≤ 102

def lower (character : UInt8) : UInt8 := if 65 ≤ character ∧ character ≤ 90 then character + 32 else character

theorem nibble_table : ∀ byte : UInt8,
    (isDigit byte = true → character (nibble byte) = lower byte ∧ (nibble byte).toNat < 16 ∧
      (nibble byte = 0 ↔ byte = 48)) ∧
      (isDigit byte = false → nibble byte = na) := by
  apply Bytes.forall_bytes
  decide +kernel

theorem character_nibble (byte : UInt8) (isOne : isDigit byte = true) :
    character (nibble byte) = lower byte ∧ (nibble byte).toNat < 16 := by
  have here := (nibble_table byte).1 isOne
  exact ⟨here.1, here.2.1⟩

theorem nibble_character {value : UInt8} (small : value.toNat < 16) : nibble (character value) = value := by
  have all : ∀ n < 16, nibble (character (UInt8.ofNat n)) = UInt8.ofNat n := by decide
  have here := all value.toNat small
  rwa [UInt8.ofNat_toNat] at here

theorem nibble_ne_na {value : UInt8} (small : value.toNat < 16) : value ≠ na := by
  rintro rfl
  exact absurd small (by decide)

theorem nibble_na (byte : UInt8) : nibble byte = na ↔ isDigit byte = false := by
  constructor
  · intro none
    rw [← Bool.not_eq_true]
    intro isOne
    exact nibble_ne_na (character_nibble byte isOne).2 none
  · exact (nibble_table byte).2

theorem nibbles_of_byte (byte : UInt8) : (byte >>> 4) <<< 4 ||| (byte &&& 0xF) = byte ∧ (byte >>> 4).toNat < 16 ∧
    (byte &&& 0xF).toNat < 16 := by
  have all : ∀ byte : UInt8, (byte >>> 4) <<< 4 ||| (byte &&& 0xF) = byte ∧ (byte >>> 4).toNat < 16 ∧
    (byte &&& 0xF).toNat < 16 := by
    apply Bytes.forall_bytes
    decide +kernel
  exact all byte

theorem byte_of_nibbles {high low : UInt8} (smallHigh : high.toNat < 16) (smallLow : low.toNat < 16) :
    (high <<< 4 ||| low) >>> 4 = high ∧ (high <<< 4 ||| low) &&& 0xF = low := by
  have all : ∀ m < 16, ∀ n < 16, (UInt8.ofNat m <<< 4 ||| UInt8.ofNat n) >>> 4 = UInt8.ofNat m ∧
      (UInt8.ofNat m <<< 4 ||| UInt8.ofNat n) &&& 0xF = UInt8.ofNat n := by decide +kernel
  have here := all high.toNat smallHigh low.toNat smallLow
  rwa [UInt8.ofNat_toNat, UInt8.ofNat_toNat] at here

/-! ## What is converted -/

/-- The bytes of digits taken two by two, up to the first that is none, and
whether all of them are digits. -/
def unhex : List UInt8 → List UInt8 × Bool
  | high :: low :: rest =>
      if isDigit high && isDigit low then ((nibble high <<< 4 ||| nibble low) :: (unhex rest).1, (unhex rest).2)
        else ([], false)
  | [] => ([], true)
  | [_] => ([], false)

def hexOf (bytes : List UInt8) : List UInt8 := bytes.flatMap fun byte :
    UInt8 => [character (byte >>> 4), character (byte &&& 0xF)]

theorem unhex_length (digits : List UInt8) : (unhex digits).1.length ≤ digits.length / 2 ∧
    ((unhex digits).2 = true → (unhex digits).1.length = digits.length / 2 ∧ digits.length % 2 = 0) := by
  induction digits using unhex.induct with
  | case1 high low rest both ih =>
      rw [unhex, if_pos both]
      simp only [List.length_cons]
      refine ⟨by omega, fun all => ?_⟩
      have evenly := ih.2 all
      omega
  | case2 high low rest both =>
      rw [unhex, if_neg both]
      exact ⟨Nat.zero_le _, fun wrong => (by cases wrong)⟩
  | case3 => exact ⟨Nat.le_refl _, fun _ => ⟨rfl, rfl⟩⟩
  | case4 digit => exact ⟨Nat.zero_le _, fun wrong => (by cases wrong)⟩

/-- All of an even number of characters are converted if and only if they are
digits. -/
theorem unhex_all {digits : List UInt8} (even : digits.length % 2 = 0) :
    (unhex digits).2 = true ↔ ∀ digit ∈ digits, isDigit digit = true := by
  induction digits using unhex.induct with
  | case1 high low rest both ih =>
      have ih' := ih (by simp only [List.length_cons] at even; omega)
      rw [unhex, if_pos both, List.forall_mem_cons, List.forall_mem_cons, ← ih']
      rw [Bool.and_eq_true] at both
      exact ⟨fun all => ⟨both.1, both.2, all⟩, fun all => all.2.2⟩
  | case2 high low rest both =>
      rw [unhex, if_neg both, List.forall_mem_cons, List.forall_mem_cons]
      refine ⟨fun wrong => (by cases wrong), fun all => absurd ?_ both⟩
      rw [all.1, all.2.1]
      rfl
  | case3 => exact ⟨fun _ _ inside => absurd inside List.not_mem_nil, fun _ => rfl⟩
  | case4 digit => exact absurd even (by simp)

theorem byte_eq_zero {high low : UInt8} (isHigh : isDigit high = true) (isLow : isDigit low = true) :
    nibble high <<< 4 ||| nibble low = 0 ↔ high = 48 ∧ low = 48 := by
  have zero : ∀ digit : UInt8, isDigit digit = true → (nibble digit = 0 ↔ digit = 48) :=
    fun digit isOne => ((nibble_table digit).1 isOne).2.2
  have nibbles := byte_of_nibbles (character_nibble high isHigh).2 (character_nibble low isLow).2
  rw [← zero high isHigh, ← zero low isLow]
  constructor
  · intro isZero
    rw [isZero] at nibbles
    exact ⟨nibbles.1.symm, nibbles.2.symm⟩
  · rintro ⟨highZero, lowZero⟩
    rw [highZero, lowZero]
    rfl

/-- The pairs of digits at the front are converted, to zeros if they are. -/
theorem unhex_front (text : List UInt8) : (unhex text).1.length = (text.takeWhile isDigit).length / 2 ∧
    ((∀ byte ∈ (unhex text).1, byte = 0) ↔ ∀ digit ∈ text.take ((text.takeWhile isDigit).length / 2 * 2), digit =
      48) := by
  induction text using unhex.induct with
  | case1 high low rest both ih =>
      rw [unhex, if_pos both]
      rw [Bool.and_eq_true] at both
      have length : (List.takeWhile isDigit (high :: low :: rest)).length / 2 =
        (rest.takeWhile isDigit).length / 2 + 1 := by
        rw [List.takeWhile_cons_of_pos both.1, List.takeWhile_cons_of_pos both.2, List.length_cons, List.length_cons]
        omega
      rw [length, List.length_cons, ih.1, Nat.succ_mul, List.take_succ_cons, List.take_succ_cons, List.forall_mem_cons,
        List.forall_mem_cons, List.forall_mem_cons, byte_eq_zero both.1 both.2, ih.2, and_assoc]
      exact ⟨rfl, Iff.rfl⟩
  | case2 high low rest both =>
      rw [unhex, if_neg both]
      have few : (List.takeWhile isDigit (high :: low :: rest)).length / 2 = 0 := by
        by_cases isHigh : isDigit high = true
        · have isLow : ¬ isDigit low = true := fun isLow => both (by rw [isHigh, isLow]; rfl)
          rw [List.takeWhile_cons_of_pos isHigh, List.takeWhile_cons_of_neg isLow]
          exact Nat.div_eq_of_lt (Nat.lt_succ_self 1)
        · rw [List.takeWhile_cons_of_neg isHigh]
          rfl
      rw [few, Nat.zero_mul, List.take_zero]
      exact ⟨rfl, Iff.intro (fun _ _ member => absurd member List.not_mem_nil) fun _ _ member =>
        absurd member List.not_mem_nil⟩
  | case3 =>
    exact ⟨rfl, Iff.intro (fun _ _ member => absurd member List.not_mem_nil) fun _ _ member =>
      absurd member List.not_mem_nil⟩
  | case4 digit =>
      have few : (List.takeWhile isDigit [digit]).length / 2 = 0 := by
        by_cases isDigit' : isDigit digit = true
        · rw [List.takeWhile_cons_of_pos isDigit', List.takeWhile_nil]
          exact Nat.div_eq_of_lt (Nat.lt_succ_self 1)
        · rw [List.takeWhile_cons_of_neg isDigit']
          rfl
      rw [few, Nat.zero_mul, List.take_zero]
      exact ⟨rfl, Iff.intro (fun _ _ member => absurd member List.not_mem_nil) fun _ _ member =>
        absurd member List.not_mem_nil⟩

theorem hexOf_unhex {digits : List UInt8} (all : (unhex digits).2 = true) :
    hexOf (unhex digits).1 = digits.map lower := by
  induction digits using unhex.induct with
  | case1 high low rest both ih =>
      rw [unhex, if_pos both] at all ⊢
      rw [Bool.and_eq_true] at both
      have isHigh := character_nibble high both.1
      have isLow := character_nibble low both.2
      have nibbles := byte_of_nibbles isHigh.2 isLow.2
      rw [hexOf, List.flatMap_cons, nibbles.1, nibbles.2, isHigh.1, isLow.1]
      change lower high :: lower low :: hexOf (unhex rest).1 = _
      rw [ih all]
      rfl
  | case2 high low rest both =>
      rw [unhex, if_neg both] at all
      cases all
  | case3 => rfl
  | case4 digit => cases all

theorem unhex_hexOf (bytes : List UInt8) : unhex (hexOf bytes) = (bytes, true) := by
  induction bytes with
  | nil => rfl
  | cons byte bytes ih =>
      rcases nibbles_of_byte byte with ⟨whole, smallHigh, smallLow⟩
      have digit : ∀ value : UInt8, value.toNat < 16 → isDigit (character value) = true := by
        intro value small
        have valued := nibble_ne_na small
        rwa [← nibble_character small, Ne, nibble_na, Bool.not_eq_false] at valued
      change unhex (character (byte >>> 4) :: character (byte &&& 0xF) :: hexOf bytes) = _
      rw [unhex, digit _ smallHigh, digit _ smallLow, nibble_character smallHigh, nibble_character smallLow, whole, ih]
      rfl

theorem hexOf_length (bytes : List UInt8) : (hexOf bytes).length = 2 * bytes.length := by
  induction bytes with
  | nil => rfl
  | cons byte bytes ih =>
      change (hexOf bytes).length + 2 = 2 * (bytes.length + 1)
      omega

theorem hexOf_digits (bytes : List UInt8) : ∀ digit ∈ hexOf bytes, isDigit digit = true := by
  apply (unhex_all (by rw [hexOf_length]; exact Nat.mul_mod_right 2 _)).mp
  rw [unhex_hexOf]

/-! ## Bytes from digits -/

section

variable {hex bytes : List UInt8} {hexLength : UInt32} {count : Nat}

theorem nibbleAt_ok {digit : UInt8} {i : UInt32} (found : hex[i.toNat]? = some digit) :
    nibbleAt hex i = .ok (nibble digit) := by
  rw [nibbleAt, found]

theorem store_ok {i : UInt32} (inside : i.toNat < bytes.length) (byte : UInt8) :
    store bytes i byte = .ok (bytes.set i.toNat byte) :=
  if_pos inside

/-- What a conversion returns for an even number of characters. -/
def converted (digits : List UInt8) : Return := if (unhex digits).2 then .ok else .errorInternal

/-- The characters that are left are taken two by two. -/
theorem drop_digits {k : Nat} (inHex : 2 * count ≤ hex.length) (early : k < count) :
    ∃ high low, hex[2 * k]? = some high ∧ hex[2 * k + 1]? = some low ∧
      (hex.take (2 * count)).drop (2 * k) = high :: low :: (hex.take (2 * count)).drop (2 * (k + 1)) := by
  have first : 2 * k < (hex.take (2 * count)).length := by
    rw [List.length_take, Nat.min_eq_left inHex]
    omega
  have second : 2 * k + 1 < (hex.take (2 * count)).length := by
    rw [List.length_take, Nat.min_eq_left inHex]
    omega
  refine ⟨(hex.take (2 * count))[2 * k], (hex.take (2 * count))[2 * k + 1], ?_, ?_, ?_⟩
  · rw [List.getElem_take]
    exact List.getElem?_eq_getElem _
  · rw [List.getElem_take]
    exact List.getElem?_eq_getElem _
  · rw [List.drop_eq_getElem_cons first, List.drop_eq_getElem_cons second]
    rfl

theorem convert_turn {k : Nat} (turns : Nat) {high low : UInt8} (even : hexLength.toNat = 2 * count)
    (inBytes : count ≤ bytes.length)
    (early : k < count) (isHigh : hex[2 * k]? = some high) (isLow : hex[2 * k + 1]? = some low) :
    convert hex hexLength (turns + 1) (UInt32.ofNat (2 * k)) bytes =
      if isDigit high && isDigit low then
        convert hex hexLength turns (UInt32.ofNat (2 * (k + 1))) (bytes.set k (nibble high <<< 4 ||| nibble low))
      else .ok (.errorInternal, bytes) := by
  have below := hexLength.toNat_lt
  have small : 2 * k + 1 < 2 ^ 32 := by omega
  have index : (UInt32.ofNat (2 * k)).toNat = 2 * k := UInt32.toNat_ofNat_of_lt' (Nat.lt_of_succ_lt small)
  have next : (UInt32.ofNat (2 * k) + 1).toNat = 2 * k + 1 := by
    rw [UInt32.toNat_add, index]
    exact Nat.mod_eq_of_lt small
  have half : ((UInt32.ofNat (2 * k) + 1 - 1) / 2).toNat = k := by
    rw [UInt32.add_sub_cancel, UInt32.toNat_div, index]
    exact Nat.mul_div_cancel_left k (by decide)
  have after : UInt32.ofNat (2 * k) + 1 + 1 = UInt32.ofNat (2 * (k + 1)) := by
    rw [Nat.mul_succ, UInt32.ofNat_add, UInt32.add_assoc]
    rfl
  have going : UInt32.ofNat (2 * k) < hexLength := by
    rw [UInt32.lt_iff_toNat_lt, index, even]
    omega
  have room : ((UInt32.ofNat (2 * k) + 1 - 1) / 2).toNat < bytes.length := by
    rw [half]
    omega
  have known : ∀ digit : UInt8, isDigit digit = true → nibble digit ≠ na :=
    fun digit is_digit wrong => Bool.eq_false_iff.mp ((nibble_na digit).mp wrong) is_digit
  rw [convert, if_pos going, nibbleAt_ok (by rw [index]; exact isHigh), ok_bind]
  cases firstDigit : isDigit high with
  | false =>
      rw [if_pos ((nibble_na high).mpr firstDigit)]
      rfl
  | true =>
      rw [if_neg (known high firstDigit)]
      simp only
      rw [nibbleAt_ok (by rw [next]; exact isLow), ok_bind]
      cases secondDigit : isDigit low with
      | false =>
          rw [if_pos ((nibble_na low).mpr secondDigit)]
          rfl
      | true =>
          rw [if_neg (known low secondDigit), store_ok room, ok_bind, half, after]
          rfl

/-- The loop writes the bytes of the characters that are left. -/
theorem convert_even {k turns : Nat} (even : hexLength.toNat = 2 * count) (inHex : 2 * count ≤ hex.length)
    (inBytes : count ≤ bytes.length) (early : k ≤ count) (enough : count - k < turns) :
    convert hex hexLength turns (UInt32.ofNat (2 * k)) bytes =
      .ok (converted ((hex.take (2 * count)).drop (2 * k)),
        bytes.take k ++ ((unhex ((hex.take (2 * count)).drop (2 * k))).1 ++
          bytes.drop (k + (unhex ((hex.take (2 * count)).drop (2 * k))).1.length))) := by
  induction turns generalizing k bytes with
  | zero => exact absurd enough (Nat.not_lt_zero _)
  | succ turns ih =>
      rcases Nat.lt_or_eq_of_le early with earlier | rfl
      · rcases drop_digits inHex earlier with ⟨high, low, isHigh, isLow, rest⟩
        rw [convert_turn turns even inBytes earlier isHigh isLow, rest, converted, unhex]
        by_cases both : (isDigit high && isDigit low) = true
        · rw [if_pos both, if_pos both, ih (by rw [List.length_set]; exact inBytes) earlier (by omega)]
          have inside : k < bytes.length := Nat.lt_of_lt_of_le earlier inBytes
          rw [List.take_add_one, List.take_set_of_le (Nat.le_refl k), List.getElem?_set_self inside,
            List.drop_set_of_lt (by omega),
            List.length_cons, List.append_assoc, Nat.add_right_comm k 1, Nat.add_assoc k]
          rfl
        · rw [if_neg both, if_neg both, List.nil_append, List.length_nil, Nat.add_zero, List.take_append_drop]
          rfl
      · have stopped : ¬ UInt32.ofNat (2 * k) < hexLength := by
          rw [← even, UInt32.ofNat_toNat]
          exact UInt32.lt_irrefl hexLength
        have none : (hex.take (2 * k)).drop (2 * k) = [] := List.drop_eq_nil_of_le (List.length_take_le _ _)
        rw [convert, if_neg stopped, none]
        change _ = Except.ok (Return.ok, bytes.take k ++ ([] ++ bytes.drop (k + 0)))
        rw [List.nil_append, Nat.add_zero, List.take_append_drop]

theorem nibbleAt_error {i : UInt32} {stop : Stop} (failed : nibbleAt hex i = .error stop) : stop = .undefined := by
  rw [nibbleAt] at failed
  split at failed
  · cases failed
    rfl
  · cases failed

theorem store_error {i : UInt32} {byte : UInt8} {stop : Stop} (failed : store bytes i byte = .error stop) :
    stop = .undefined := by
  rw [store] at failed
  split at failed
  · cases failed
  · cases failed
    rfl

theorem convert_error {turns : Nat} {i : UInt32} {stop : Stop}
    (failed : convert hex hexLength turns i bytes = .error stop) :
    stop = .undefined := by
  induction turns generalizing i bytes with
  | zero =>
      cases failed
      rfl
  | succ turns ih =>
      rw [convert] at failed
      split at failed
      · rcases bind_error failed with failed | ⟨high, -, failed⟩
        · exact nibbleAt_error failed
        · split at failed
          · cases failed
          · rcases bind_error failed with failed | ⟨low, -, failed⟩
            · exact nibbleAt_error failed
            · split at failed
              · cases failed
              · rcases bind_error failed with failed | ⟨stored, -, failed⟩
                · exact store_error failed
                · exact ih failed
      · cases failed

theorem toBytes_even (even : hexLength.toNat = 2 * count) (inHex : 2 * count ≤ hex.length)
    (inBytes : count ≤ bytes.length) :
    toBytes bytes hex hexLength = .ok (converted (hex.take (2 * count)),
      (unhex (hex.take (2 * count))).1 ++ bytes.drop (unhex (hex.take (2 * count))).1.length) := by
  have below := hexLength.toNat_lt
  have whole : hexLength % 1 = 0 := by
    apply UInt32.toNat_inj.mp
    rw [UInt32.toNat_mod]
    exact Nat.mod_one _
  have all := @convert_even hex bytes hexLength count 0 (2 ^ 32) even inHex inBytes (Nat.zero_le _) (by omega)
  rw [Nat.mul_zero, List.drop_zero, List.take_zero, List.nil_append, Nat.zero_add] at all
  rw [toBytes, if_pos whole]
  exact all

theorem toBytes_error {stop : Stop} (failed : toBytes bytes hex hexLength = .error stop) : stop = .undefined := by
  have whole : hexLength % 1 = 0 := by
    apply UInt32.toNat_inj.mp
    rw [UInt32.toNat_mod]
    exact Nat.mod_one _
  rw [toBytes, if_pos whole] at failed
  exact convert_error failed

/-! ## Digits from bytes -/

theorem take_pair {i : Nat} {first second : UInt8} (inside : 2 * i + 1 < hex.length) :
    ((hex.set (2 * i) first).set (2 * i + 1) second).take (2 * (i + 1)) = hex.take (2 * i) ++ [first, second] := by
  have inside' : 2 * i + 1 < (hex.set (2 * i) first).length := by
    rw [List.length_set]
    exact inside
  rw [Nat.mul_succ, List.take_add_one, List.getElem?_set_self inside', List.take_set_of_le (Nat.le_refl _),
    List.take_add_one,
    List.getElem?_set_self (Nat.lt_of_succ_lt inside), List.take_set_of_le (Nat.le_refl _), List.append_assoc]
  rfl

theorem print_digits {size : UInt32} {k turns : Nat} (counted : size.toNat = count) (few : count < 2 ^ 31)
    (inBytes : count ≤ bytes.length)
    (inHex : 2 * count ≤ hex.length) (early : k ≤ count) (enough : count - k < turns) :
    print bytes size turns (UInt32.ofNat k) hex =
      .ok (hex.take (2 * k) ++ (hexOf ((bytes.take count).drop k) ++ hex.drop (2 * count))) := by
  induction turns generalizing k hex with
  | zero => exact absurd enough (Nat.not_lt_zero _)
  | succ turns ih =>
      have small : k < 2 ^ 31 := Nat.lt_of_le_of_lt early few
      have index : (UInt32.ofNat k).toNat = k := UInt32.toNat_ofNat_of_lt' (Nat.lt_trans small (by decide))
      rw [print]
      rcases Nat.lt_or_eq_of_le early with earlier | rfl
      · have inside : k < bytes.length := Nat.lt_of_lt_of_le earlier inBytes
        have going : UInt32.ofNat k < size := by
          rw [UInt32.lt_iff_toNat_lt, index, counted]
          exact earlier
        have double : (2 * UInt32.ofNat k).toNat = 2 * k := by
          rw [UInt32.toNat_mul, index]
          exact Nat.mod_eq_of_lt (by change 2 * k < 2 ^ 32; omega)
        have first : (2 * UInt32.ofNat k + 0).toNat = 2 * k := by rw [UInt32.add_zero, double]
        have second : (2 * UInt32.ofNat k + 1).toNat = 2 * k + 1 := by
          rw [UInt32.toNat_add, double]
          exact Nat.mod_eq_of_lt (by change 2 * k + 1 < 2 ^ 32; omega)
        have rest : (bytes.take count).drop k = bytes[k] :: (bytes.take count).drop (k + 1) := by
          have inTake : k < (bytes.take count).length := by
            rw [List.length_take, Nat.min_eq_left inBytes]
            exact earlier
          rw [List.drop_eq_getElem_cons inTake, List.getElem_take]
        have next : UInt32.ofNat k + 1 = UInt32.ofNat (k + 1) := by
          rw [UInt32.ofNat_add]
          rfl
        rw [if_pos going, index, List.getElem?_eq_getElem inside]
        simp only
        rw [store_ok (by rw [first]; omega), ok_bind, store_ok (by rw [second, List.length_set]; omega), ok_bind, next,
          ih (by rw [List.length_set, List.length_set]; exact inHex) earlier (by omega), first, second, rest,
          take_pair (by omega), List.drop_set_of_lt (by omega), List.drop_set_of_lt (by omega), List.append_assoc]
        rfl
      · have stopped : ¬ UInt32.ofNat k < size := by
          rw [← counted, UInt32.ofNat_toNat]
          exact UInt32.lt_irrefl size
        rw [if_neg stopped, List.drop_eq_nil_of_le (List.length_take_le _ _)]
        change _ = Except.ok (hex.take (2 * k) ++ ([] ++ hex.drop (2 * k)))
        rw [List.nil_append, List.take_append_drop]

theorem fromBytes_eq {size : UInt32} (counted : size.toNat = count) (few : count < 2 ^ 31)
    (inBytes : count ≤ bytes.length)
    (inHex : 2 * count ≤ hex.length) : fromBytes hex bytes size =
      .ok (hexOf (bytes.take count) ++ hex.drop (2 * count)) := by
  have all := @print_digits hex bytes count size 0 (2 ^ 32) counted few inBytes inHex (Nat.zero_le _) (by omega)
  rw [Nat.mul_zero, List.take_zero, List.drop_zero, List.nil_append] at all
  exact all

/-! ## Accesses -/

/-- What is said of a call: an odd number of digits fails the assertion; else
characters behind those of the argument do not matter, bytes behind those of the
result are unchanged, and it succeeds if and only if all characters are digits,
which are then, in lower case, those of the result. -/
structure StaysWithin (bytes hex : List UInt8) (hexLength : UInt32) : Prop where
  odd : hexLength.toNat % 2 = 1 → toBytes bytes hex hexLength = .error .assertion
  even : hexLength.toNat % 2 = 0 → ∃ returned written, written.length = hexLength.toNat / 2 ∧
    (∀ bytes' hex', bytes'.take (hexLength.toNat / 2) = bytes.take (hexLength.toNat / 2) →
      hex'.take hexLength.toNat = hex.take hexLength.toNat →
      toBytes bytes' hex' hexLength = .ok (returned, written ++ bytes'.drop (hexLength.toNat / 2))) ∧
    (returned = .ok ↔ ∀ character ∈ hex.take hexLength.toNat, isDigit character = true) ∧
    (returned = .ok → ∀ out : List UInt8, out.length = hexLength.toNat →
      fromBytes out written (hexLength / 2) = .ok ((hex.take hexLength.toNat).map lower))

theorem converted_ok {digits : List UInt8} : converted digits = .ok ↔ (unhex digits).2 = true := by
  rw [converted]
  cases (unhex digits).2 with
  | false => exact ⟨fun wrong => (by cases wrong), fun wrong => (by cases wrong)⟩
  | true => exact ⟨fun _ => rfl, fun _ => rfl⟩

/-- What is left of a list is left of its start, with the rest behind it. -/
theorem drop_split {list : List UInt8} {few many : Nat} (less : few ≤ many) (inside : many ≤ list.length) :
    list.drop few = (list.take many).drop few ++ list.drop many := by
  have length : few ≤ (list.take many).length := by
    rw [List.length_take, Nat.min_eq_left inside]
    exact less
  rw [← List.drop_append_of_le_length length, List.take_append_drop]

theorem length_of_take {list other : List UInt8} {many : Nat} (same : list.take many = other.take many)
    (inside : many ≤ other.length) :
    many ≤ list.length := by
  have lengths := congrArg List.length same
  rw [List.length_take, List.length_take, Nat.min_eq_left inside] at lengths
  omega

/-- A conversion of an even number of characters stays within its arguments. -/
theorem even_staysWithin (even : hexLength.toNat % 2 = 0) (inHex : hexLength.toNat ≤ hex.length)
    (inBytes : hexLength.toNat / 2 ≤ bytes.length) : StaysWithin bytes hex hexLength := by
  refine ⟨fun odd => absurd (even.symm.trans odd) (by decide), fun _ => ?_⟩
  have counted : hexLength.toNat = 2 * (hexLength.toNat / 2) := by omega
  have length : (hex.take hexLength.toNat).length = hexLength.toNat := by rw [List.length_take, Nat.min_eq_left inHex]
  have few := (unhex_length (hex.take hexLength.toNat)).1
  rw [length] at few
  refine ⟨converted (hex.take hexLength.toNat), (unhex (hex.take hexLength.toNat)).1 ++
    (bytes.take (hexLength.toNat / 2)).drop (unhex (hex.take hexLength.toNat)).1.length, ?_, ?_, ?_, ?_⟩
  · rw [List.length_append, List.length_drop, List.length_take, Nat.min_eq_left inBytes]
    omega
  · intro bytes' hex' sameBytes sameHex
    have inBytes' := length_of_take sameBytes inBytes
    have inHex' := length_of_take sameHex inHex
    have done := toBytes_even counted (counted ▸ inHex') inBytes'
    rw [← counted, sameHex, drop_split few inBytes', sameBytes, ← List.append_assoc] at done
    exact done
  · rw [converted_ok]
    exact unhex_all (by rw [length]; exact even)
  · intro all out room
    rw [converted_ok] at all
    have exactly := (unhex_length (hex.take hexLength.toNat)).2 all
    rw [length] at exactly
    have nothing : (bytes.take (hexLength.toNat / 2)).drop (unhex (hex.take hexLength.toNat)).1.length = [] := by
      apply List.drop_eq_nil_of_le
      rw [exactly.1]
      exact List.length_take_le _ _
    have half : (hexLength / 2).toNat = hexLength.toNat / 2 := UInt32.toNat_div _ _
    have below := hexLength.toNat_lt
    rw [nothing, List.append_nil, fromBytes_eq half (by omega) (Nat.le_of_eq exactly.1.symm) (by omega), ← exactly.1,
      List.take_length,
      hexOf_unhex all, exactly.1, ← counted, List.drop_eq_nil_of_le (Nat.le_of_eq room), List.append_nil]

/-- Conversions stay within their arguments, and behave as they should, exactly
for an even number of characters. -/
theorem toBytes_stays_iff (bytes hex : List UInt8) (hexLength : UInt32) (inHex : hexLength.toNat ≤ hex.length)
    (inBytes : hexLength.toNat / 2 ≤ bytes.length) : StaysWithin bytes hex hexLength ↔ hexLength.toNat % 2 = 0 := by
  refine ⟨fun stays => ?_, fun even => even_staysWithin even inHex inBytes⟩
  rcases Nat.mod_two_eq_zero_or_one hexLength.toNat with even | odd
  · exact even
  · have undefined := toBytes_error (stays.odd odd)
    cases undefined

end

/-- The digits of `2c` and of `E6`. -/
theorem toBytes_stays_four : StaysWithin [0, 0] [50, 99, 69, 54] 4 :=
  (toBytes_stays_iff [0, 0] [50, 99, 69, 54] 4 (by decide) (by decide)).mpr (by decide)

/-- Three characters are read as if they were four, and one byte too many is
written. -/
theorem toBytes_three : toBytes [0, 0] [97, 98, 99, 100] 3 = .ok (.ok, [0xAB, 0xCD]) ∧
    ¬ StaysWithin [0, 0] [97, 98, 99, 100] 3 := by
  have done : toBytes [0, 0] [97, 98, 99, 100] 3 = .ok (.ok, [0xAB, 0xCD]) := by rfl
  refine ⟨done, fun stays => ?_⟩
  have rejected := stays.odd (by decide)
  rw [done] at rejected
  cases rejected

end SxeHex
end LibKit
