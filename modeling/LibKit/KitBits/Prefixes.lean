import LibKit.KitBits.Model
import LibKit.Support.Bytes

namespace LibKit
namespace KitBits

/-!
# Prefixes of bits

The bits of memory are those of its bytes, each from its most significant one on.
All three functions are about a prefix of them.  The number of bytes of a copy is
computed with a sum that may be too large.
-/

/-! ## Bits -/

/-- The bits of a byte, the most significant first. -/
def byteBits (byte : UInt8) : List Bool := (List.range 8).map fun i => byte.toNat.testBit (7 - i)

def bits (bytes : List UInt8) : List Bool := bytes.flatMap byteBits

def byteCount (numBits : UInt64) : Nat := (numBits.toNat + 7) / 8

def firstBits (bytes : List UInt8) (numBits : UInt64) : List Bool := (bits bytes).take numBits.toNat

/-- What `kit_bits_copy` is to write: as many bytes as have the bits, which are
those copied, and zeros behind them. -/
structure Copies (d s : List UInt8) (numBits : UInt64) (copied : List UInt8) : Prop where
  done : copy d s numBits = some (UInt64.ofNat (byteCount numBits), copied ++ d.drop (byteCount numBits))
  length : copied.length = byteCount numBits
  bits : bits copied = firstBits s numBits ++ List.replicate (8 * byteCount numBits - numBits.toNat) false

/-- The functions agree on the first bits of some bytes. -/
structure Agree (s1 s2 : List UInt8) (numBits : UInt64) : Prop where
  equal : ∃ same, equal s1 s2 numBits = some same ∧ (same = true ↔ firstBits s1 numBits = firstBits s2 numBits)
  copies : ∀ d1 d2, byteCount numBits ≤ d1.length → byteCount numBits ≤ d2.length → ∃ copied1 copied2,
    Copies d1 s1 numBits copied1 ∧ Copies d2 s2 numBits copied2 ∧
      (copied1 = copied2 ↔ firstBits s1 numBits = firstBits s2 numBits)
  isset : ∀ d, byteCount numBits ≤ d.length → ∃ any copied, issetAny s1 numBits = some any ∧
    Copies d s1 numBits copied ∧
    (any = true ↔ copied ≠ List.replicate (byteCount numBits) 0)

theorem byteBits_length (byte : UInt8) : (byteBits byte).length = 8 := by
  rw [byteBits, List.length_map, List.length_range]

theorem bits_length (bytes : List UInt8) : (bits bytes).length = 8 * bytes.length := by
  induction bytes with
  | nil => rfl
  | cons byte bytes ih =>
      rw [bits, List.flatMap_cons, List.length_append, byteBits_length, ← bits, ih, List.length_cons]
      omega

theorem bits_append (first second : List UInt8) : bits (first ++ second) = bits first ++ bits second :=
  List.flatMap_append

/-- A byte is told from its bits. -/
theorem byteBits_inj {first second : UInt8} (same : byteBits first = byteBits second) : first = second := by
  apply UInt8.toNat_inj.mp
  apply Nat.eq_of_testBit_eq
  intro i
  by_cases small : i < 8
  · have found := congrArg (fun list => list[7 - i]?) same
    simp only [byteBits, List.getElem?_map] at found
    rw [List.getElem?_range (by omega)] at found
    have here := Option.some.inj found
    have back : 7 - (7 - i) = i := by omega
    dsimp only at here
    rwa [back] at here
  · have large : 2 ^ 8 ≤ 2 ^ i := Nat.pow_le_pow_right (by decide) (by omega)
    rw [Nat.testBit_lt_two_pow (first.toNat_lt.trans_le large), Nat.testBit_lt_two_pow (second.toNat_lt.trans_le large)]

theorem bits_inj {first second : List UInt8} (same : bits first = bits second) : first = second := by
  induction first generalizing second with
  | nil =>
      have length := congrArg List.length same
      rw [bits_length, bits_length, List.length_nil] at length
      exact (List.length_eq_zero_iff.mp (by omega)).symm
  | cons byte first ih =>
      cases second with
      | nil =>
          have length := congrArg List.length same
          rw [bits_length, bits_length, List.length_nil, List.length_cons] at length
          omega
      | cons other second =>
          rcases List.append_inj same ((byteBits_length byte).trans (byteBits_length other).symm) with ⟨isByte, isRest⟩
          rw [byteBits_inj isByte, ih isRest]

/-! ## The last byte -/

def masked (r : Nat) (byte : UInt8) : UInt8 := (byte.toUInt32 &&& 0xFF <<< UInt32.ofNat (8 - r)).toUInt8

section

variable {r : Nat} (small : r < 8)

include small

theorem masked_bits (byte : UInt8) : byteBits (masked r byte) =
    (byteBits byte).take r ++ List.replicate (8 - r) false := by
  have all : ∀ r < 8, ∀ code < 256, byteBits (masked r (UInt8.ofNat code)) =
      (byteBits (UInt8.ofNat code)).take r ++ List.replicate (8 - r) false := by decide +kernel
  have here := all r small byte.toNat byte.toNat_lt
  rwa [UInt8.ofNat_toNat] at here

theorem masked_shift (byte : UInt8) : (masked r byte).toUInt32 >>> UInt32.ofNat (8 - r) =
    byte.toUInt32 >>> UInt32.ofNat (8 - r) ∧
    masked r byte = ((byte.toUInt32 >>> UInt32.ofNat (8 - r)) <<< UInt32.ofNat (8 - r)).toUInt8 := by
  have all : ∀ r < 8, ∀ code < 256,
      (masked r (UInt8.ofNat code)).toUInt32 >>> UInt32.ofNat (8 - r) =
      (UInt8.ofNat code).toUInt32 >>> UInt32.ofNat (8 - r) ∧
      masked r (UInt8.ofNat code) =
        (((UInt8.ofNat code).toUInt32 >>> UInt32.ofNat (8 - r)) <<< UInt32.ofNat (8 - r)).toUInt8 := by decide +kernel
  have here := all r small byte.toNat byte.toNat_lt
  rwa [UInt8.ofNat_toNat] at here

theorem masked_zero (byte : UInt8) : byte.toUInt32 &&& 0xFF <<< UInt32.ofNat (8 - r) = 0 ↔ masked r byte = 0 := by
  have all : ∀ r < 8, ∀ code < 256, (UInt8.ofNat code).toUInt32 &&& 0xFF <<< UInt32.ofNat (8 - r) = 0 ↔
      masked r (UInt8.ofNat code) = 0 := by decide +kernel
  have here := all r small byte.toNat byte.toNat_lt
  rwa [UInt8.ofNat_toNat] at here

theorem masked_eq (first second : UInt8) :
    (first.toUInt32 ^^^ second.toUInt32) >>> UInt32.ofNat (8 - r) = 0 ↔ masked r first = masked r second := by
  rw [UInt32.shiftRight_xor, UInt32.xor_eq_zero_iff]
  constructor
  · intro same
    rw [(masked_shift small first).2, (masked_shift small second).2, same]
  · intro same
    rw [← (masked_shift small first).1, ← (masked_shift small second).1, same]

end

/-! ## Counts -/

section

variable {numBits : UInt64}

theorem rest_toNat (numBits : UInt64) : (numBits % 8).toNat = numBits.toNat % 8 := by
  rw [UInt64.toNat_mod]
  rfl

theorem whole_toNat (numBits : UInt64) : (numBits / 8).toNat = numBits.toNat / 8 := by
  rw [UInt64.toNat_div]
  rfl

theorem shift_eq (numBits : UInt64) : shift numBits = UInt32.ofNat (8 - numBits.toNat % 8) := by
  have small := Nat.mod_lt numBits.toNat (by decide : 0 < 8)
  have eight : (8 : UInt64).toNat = 8 := rfl
  apply UInt32.toNat_inj.mp
  rw [shift, UInt64.toNat_toUInt32, UInt64.toNat_sub_of_le _ _ (by rw [UInt64.le_iff_toNat_le, rest_toNat]; omega),
    rest_toNat, eight,
    UInt32.toNat_ofNat']

theorem masked_mask (byte : UInt8) : (byte.toUInt32 &&& mask numBits).toUInt8 = masked (numBits.toNat % 8) byte := by
  rw [mask, shift_eq, masked]

theorem partial_iff (numBits : UInt64) : 0 < numBits % 8 ↔ numBits.toNat % 8 ≠ 0 := by
  rw [UInt64.lt_iff_toNat_lt, rest_toNat]
  exact Nat.pos_iff_ne_zero

theorem bytes_toNat (few : numBits.toNat + 7 < 2 ^ 64) : ((numBits + 7) / 8).toNat = byteCount numBits := by
  have seven : (7 : UInt64).toNat = 7 := rfl
  have eight : (8 : UInt64).toNat = 8 := rfl
  rw [UInt64.toNat_div, UInt64.toNat_add, seven, eight, Nat.mod_eq_of_lt few, byteCount]

theorem bytes_wrapped (many : 2 ^ 64 ≤ numBits.toNat + 7) : (numBits + 7) / 8 = 0 := by
  have seven : (7 : UInt64).toNat = 7 := rfl
  have eight : (8 : UInt64).toNat = 8 := rfl
  have below := numBits.toNat_lt
  apply UInt64.toNat_inj.mp
  rw [UInt64.toNat_div, UInt64.toNat_add, seven, eight, Nat.mod_eq_sub_mod many, Nat.mod_eq_of_lt (by omega)]
  exact Nat.div_eq_of_lt (by omega)

/-- There are whole bytes, and one of which some bits are used if the number of bits
is no multiple of eight. -/
theorem byteCount_eq (numBits : UInt64) :
    byteCount numBits = numBits.toNat / 8 + if numBits.toNat % 8 = 0 then 0 else 1 := by
  rw [byteCount]
  split
  · omega
  · omega

end

/-! ## Prefixes -/

section

variable {numBits : UInt64} {s : List UInt8}

def copied (s : List UInt8) (numBits : UInt64) : List UInt8 :=
  s.take (numBits.toNat / 8) ++ if numBits.toNat % 8 = 0 then []
    else [masked (numBits.toNat % 8) (s.getD (numBits.toNat / 8) 0)]

theorem within_cases (inside : numBits.toNat ≤ 8 * s.length) :
    (numBits.toNat % 8 = 0 ∧ byteCount numBits = numBits.toNat / 8 ∧ numBits.toNat / 8 ≤ s.length) ∨
      ∃ byte, numBits.toNat % 8 ≠ 0 ∧ byteCount numBits = numBits.toNat / 8 + 1 ∧ numBits.toNat / 8 < s.length ∧
        s[numBits.toNat / 8]? = some byte := by
  have count := byteCount_eq numBits
  by_cases whole : numBits.toNat % 8 = 0
  · rw [if_pos whole, Nat.add_zero] at count
    exact .inl ⟨whole, count, by omega⟩
  · rw [if_neg whole] at count
    have below : numBits.toNat / 8 < s.length := by omega
    exact .inr ⟨s[numBits.toNat / 8], whole, count, below, List.getElem?_eq_getElem below⟩

theorem copied_length (inside : numBits.toNat ≤ 8 * s.length) : (copied s numBits).length = byteCount numBits := by
  rw [copied, List.length_append, List.length_take]
  rcases within_cases inside with ⟨whole, count, below⟩ | ⟨byte, part, count, below, -⟩
  · rw [if_pos whole, List.length_nil, count]
    omega
  · rw [if_neg part, List.length_singleton, count]
    omega

theorem copied_bits (inside : numBits.toNat ≤ 8 * s.length) :
    bits (copied s numBits) = firstBits s numBits ++ List.replicate (8 * byteCount numBits - numBits.toNat) false := by
  have split : bits s = bits (s.take (numBits.toNat / 8)) ++ bits (s.drop (numBits.toNat / 8)) := by
    rw [← bits_append, List.take_append_drop]
  rw [copied, bits_append, firstBits, split, List.take_append, bits_length, List.length_take]
  rcases within_cases inside with ⟨whole, count, below⟩ | ⟨byte, part, count, below, found⟩
  · have all : (bits (s.take (numBits.toNat / 8))).length ≤ numBits.toNat := by
      rw [bits_length, List.length_take]
      omega
    have none : numBits.toNat - 8 * min (numBits.toNat / 8) s.length = 0 := by omega
    have noRest : 8 * byteCount numBits - numBits.toNat = 0 := by omega
    rw [if_pos whole, List.take_of_length_le all, none, noRest, List.take_zero, List.append_nil]
    rfl
  · have all : (bits (s.take (numBits.toNat / 8))).length ≤ numBits.toNat := by
      rw [bits_length, List.length_take]
      omega
    have rest : numBits.toNat - 8 * min (numBits.toNat / 8) s.length = numBits.toNat % 8 := by omega
    have more : 8 * byteCount numBits - numBits.toNat = 8 - numBits.toNat % 8 := by omega
    have next : s.drop (numBits.toNat / 8) = byte :: s.drop (numBits.toNat / 8 + 1) := by
      rw [List.drop_eq_getElem_cons below]
      rw [List.getElem?_eq_getElem below] at found
      rw [Option.some.inj found]
    rw [if_neg part, List.take_of_length_le all, rest, more, next, List.getD_eq_getElem?_getD, found, Option.getD_some,
      List.append_assoc]
    congr 1
    have small := Nat.mod_lt numBits.toNat (by decide : 0 < 8)
    rw [bits, List.flatMap_cons, List.flatMap_nil, List.append_nil, masked_bits small, bits, List.flatMap_cons,
      List.take_append_of_le_length (by rw [byteBits_length]; exact small.le)]

theorem copied_eq_iff {other : List UInt8} (inside : numBits.toNat ≤ 8 * s.length)
    (inOther : numBits.toNat ≤ 8 * other.length) :
    copied s numBits = copied other numBits ↔ firstBits s numBits = firstBits other numBits := by
  constructor
  · intro same
    have isBits := congrArg bits same
    rw [copied_bits inside, copied_bits inOther] at isBits
    exact List.append_cancel_right isBits
  · intro same
    apply bits_inj
    rw [copied_bits inside, copied_bits inOther, same]

theorem copy_eq {d : List UInt8} (few : numBits.toNat + 7 < 2 ^ 64) (inside : numBits.toNat ≤ 8 * s.length)
    (enough : byteCount numBits ≤ d.length) :
    copy d s numBits = some (UInt64.ofNat (byteCount numBits), copied s numBits ++ d.drop (byteCount numBits)) := by
  have bytes := bytes_toNat few
  have isCount : UInt64.ofNat (byteCount numBits) = (numBits + 7) / 8 := by rw [← bytes, UInt64.ofNat_toNat]
  unfold copy
  dsimp only
  rw [bytes, isCount]
  rcases within_cases inside with ⟨whole, count, below⟩ | ⟨byte, part, count, below, found⟩
  · rw [if_pos ⟨by omega, enough⟩, if_neg (mt (partial_iff numBits).mp (not_not_intro whole)), copied, if_pos whole,
      List.append_nil, count]
  · have one : (1 : UInt64).toNat = 1 := rfl
    have last : ((numBits + 7) / 8 - 1).toNat = numBits.toNat / 8 := by
      rw [UInt64.toNat_sub_of_le _ _ (by rw [UInt64.le_iff_toNat_le, bytes, one]; omega), bytes, one]
      omega
    rw [if_pos ⟨by omega, enough⟩, if_pos ((partial_iff numBits).mpr part), last, copied, if_neg part, count,
      List.getD_eq_getElem?_getD, found, Option.getD_some]
    have front : (s.take (numBits.toNat / 8)).length = numBits.toNat / 8 := List.length_take_of_le below.le
    have next : s.take (numBits.toNat / 8 + 1) ++ d.drop (numBits.toNat / 8 + 1) =
        s.take (numBits.toNat / 8) ++ byte :: d.drop (numBits.toNat / 8 + 1) := by
      rw [List.take_add_one, found, List.append_assoc]
      rfl
    rw [next, List.getElem?_append_right front.le, front, Nat.sub_self, List.getElem?_cons_zero, Option.bind_eq_bind,
      Option.bind_some,
      masked_mask, List.set_append_right _ _ front.le, front, Nat.sub_self, List.append_assoc]
    rfl

theorem equal_eq {other : List UInt8} (inside : numBits.toNat ≤ 8 * s.length)
    (inOther : numBits.toNat ≤ 8 * other.length) :
    equal s other numBits = some (decide (copied s numBits = copied other numBits)) := by
  have rest : numBits % 8 = 0 ↔ numBits.toNat % 8 = 0 := by rw [← UInt64.toNat_inj, rest_toNat]; rfl
  have front : (s.take (numBits.toNat / 8)).length = numBits.toNat / 8 := List.length_take_of_le (by omega)
  have frontOther : (other.take (numBits.toNat / 8)).length = numBits.toNat / 8 := List.length_take_of_le (by omega)
  unfold equal
  dsimp only
  rw [whole_toNat, CString.memeq, if_pos ⟨by omega, by omega⟩, Option.bind_eq_bind, Option.bind_some]
  by_cases same : s.take (numBits.toNat / 8) = other.take (numBits.toNat / 8)
  · rw [if_pos (beq_iff_eq.mpr same)]
    rcases within_cases inside with ⟨whole, -⟩ | ⟨byte, part, -, below, found⟩
    · rw [if_pos (rest.mpr whole), copied, copied, if_pos whole, if_pos whole, same, decide_eq_true rfl]
    · rcases within_cases inOther with ⟨whole, -⟩ | ⟨byteOther, -, -, -, foundOther⟩
      · exact absurd whole part
      · have small := Nat.mod_lt numBits.toNat (by decide : 0 < 8)
        rw [if_neg (mt rest.mp part), found, foundOther, copied, copied, if_neg part, if_neg part, same,
          List.getD_eq_getElem?_getD, List.getD_eq_getElem?_getD, found, foundOther, shift_eq]
        simp only [Option.bind_eq_bind, Option.bind_some, Option.getD_some, List.append_cancel_left_eq,
          List.cons.injEq, and_true,
          ← masked_eq small]
        rfl
  · rw [if_neg (fun wrong => same (beq_iff_eq.mp wrong)), decide_eq_false]
    exact fun wrong => same (List.append_inj wrong (front.trans frontOther.symm)).1

/-- The loop finds a byte that is not zero. -/
theorem issetWhole_eq {wholeBytes byte : UInt64} {turns : Nat} (inside : wholeBytes.toNat ≤ s.length)
    (early : byte.toNat ≤ wholeBytes.toNat) (enough : wholeBytes.toNat - byte.toNat < turns) :
    issetWhole s wholeBytes turns byte = some (decide ((s.take wholeBytes.toNat).drop byte.toNat ≠
      List.replicate (wholeBytes.toNat - byte.toNat) 0)) := by
  induction turns generalizing byte with
  | zero => omega
  | succ turns ih =>
      rw [issetWhole]
      by_cases more : byte.toNat < wholeBytes.toNat
      · have next : (byte + 1).toNat = byte.toNat + 1 := by
          have one : (1 : UInt64).toNat = 1 := rfl
          have below := wholeBytes.toNat_lt
          rw [UInt64.toNat_add, one, Nat.mod_eq_of_lt (by omega)]
        have inTake : byte.toNat < (s.take wholeBytes.toNat).length := by
          rw [List.length_take]
          omega
        have found : s[byte.toNat]? = some ((s.take wholeBytes.toNat)[byte.toNat]) := by
          rw [← List.getElem?_eq_getElem inTake, List.getElem?_take_of_lt more]
        have zeros : wholeBytes.toNat - byte.toNat = (wholeBytes.toNat - (byte.toNat + 1)) + 1 := by omega
        rw [if_pos (UInt64.lt_iff_toNat_lt.mpr more), found, Option.bind_eq_bind, Option.bind_some,
          List.drop_eq_getElem_cons inTake, zeros,
          List.replicate_succ]
        by_cases zero : (s.take wholeBytes.toNat)[byte.toNat] = 0
        · rw [if_neg (not_not_intro zero), ih (by omega) (by omega), next, zero]
          congr 2
          rw [ne_eq, ne_eq, List.cons.injEq, eq_self, true_and]
        · rw [if_pos zero, decide_eq_true]
          exact fun same => zero (List.cons.inj same).1
      · have none : wholeBytes.toNat - byte.toNat = 0 := by omega
        rw [if_neg (mt UInt64.lt_iff_toNat_lt.mp more), none, List.replicate_zero, decide_eq_false]
        rw [not_not, List.drop_eq_nil_iff, List.length_take]
        omega

theorem issetAny_eq (inside : numBits.toNat ≤ 8 * s.length) :
    issetAny s numBits = some (decide (copied s numBits ≠ List.replicate (byteCount numBits) 0)) := by
  have zero : (0 : UInt64).toNat = 0 := rfl
  have below := numBits.toNat_lt
  unfold issetAny
  dsimp only
  rw [issetWhole_eq (by rw [whole_toNat]; omega) (by rw [zero]; exact Nat.zero_le _) (by rw [whole_toNat]; omega),
    Option.bind_eq_bind,
    Option.bind_some, zero, Nat.sub_zero, List.drop_zero, whole_toNat]
  have front : (s.take (numBits.toNat / 8)).length = numBits.toNat / 8 := List.length_take_of_le (by omega)
  by_cases same : s.take (numBits.toNat / 8) = List.replicate (numBits.toNat / 8) 0
  · rw [if_neg (by rw [decide_eq_true_eq]; exact not_not_intro same), copied, same]
    rcases within_cases inside with ⟨whole, count, -⟩ | ⟨byte, part, count, -, found⟩
    · rw [if_neg (mt (partial_iff numBits).mp (not_not_intro whole)), if_pos whole, List.append_nil, count,
        decide_eq_false]
      exact not_not_intro rfl
    · have small := Nat.mod_lt numBits.toNat (by decide : 0 < 8)
      rw [if_pos ((partial_iff numBits).mpr part), if_neg part, found, count, List.replicate_add,
        List.getD_eq_getElem?_getD, found,
        Option.bind_eq_bind, Option.bind_some, mask, shift_eq]
      have iff : masked (numBits.toNat % 8) byte ≠ 0 ↔
          List.replicate (numBits.toNat / 8) 0 ++ [masked (numBits.toNat % 8) byte] ≠
            List.replicate (numBits.toNat / 8) 0 ++ List.replicate 1 0 := by
        rw [ne_eq, ne_eq, List.append_cancel_left_eq, List.replicate_one, List.cons.injEq, eq_self, and_true]
      refine congrArg some (Bool.eq_iff_iff.mpr ?_)
      rw [bne_iff_ne, decide_eq_true_eq, Option.getD_some, ← iff]
      exact not_congr (masked_zero small byte)
  · rw [if_pos (decide_eq_true same), decide_eq_true]
    intro wrong
    rcases within_cases inside with ⟨whole, count, -⟩ | ⟨byte, part, count, -, found⟩
    · rw [copied, if_pos whole, List.append_nil, count] at wrong
      exact same wrong
    · rw [copied, count, List.replicate_add] at wrong
      exact same (List.append_inj wrong (front.trans List.length_replicate.symm)).1

/-! ## The functions -/

theorem copied_copies {d : List UInt8} (few : numBits.toNat + 7 < 2 ^ 64) (inside : numBits.toNat ≤ 8 * s.length)
    (enough : byteCount numBits ≤ d.length) : Copies d s numBits (copied s numBits) :=
  ⟨copy_eq few inside enough, copied_length inside, copied_bits inside⟩

theorem wrapped_not_copies {d copied : List UInt8} (many : 2 ^ 64 ≤ numBits.toNat + 7) :
    ¬ Copies d s numBits copied := by
  intro copies
  have done := copies.done
  have count : UInt64.ofNat (byteCount numBits) = 0 := by
    unfold copy at done
    dsimp only at done
    rw [bytes_wrapped many] at done
    split at done
    · split at done
      · rcases Option.bind_eq_some_iff.mp done with ⟨last, -, isLast⟩
        exact (Prod.mk.inj (Option.some.inj isLast)).1.symm
      · exact (Prod.mk.inj (Option.some.inj done)).1.symm
    · cases done
  have below := numBits.toNat_lt
  have isZero := congrArg UInt64.toNat count
  rw [UInt64.toNat_ofNat', byteCount] at isZero
  have zero : (0 : UInt64).toNat = 0 := rfl
  omega

end

/-- Bits are compared, copied and tested alike for all bytes, unless they are as many
that the number of their bytes is not computed right. -/
theorem bits_agree (s1 s2 : List UInt8) (numBits : UInt64) (inFirst : numBits.toNat ≤ 8 * s1.length)
    (inSecond : numBits.toNat ≤ 8 * s2.length) : Agree s1 s2 numBits ↔ numBits.toNat + 7 < 2 ^ 64 := by
  constructor
  · intro agree
    by_contra many
    have enough : byteCount numBits ≤ (List.replicate (byteCount numBits) (0 : UInt8)).length :=
      List.length_replicate.ge
    rcases agree.copies _ _ enough enough with ⟨copied1, -, copies, -⟩
    exact wrapped_not_copies (Nat.le_of_not_lt many) copies
  · intro few
    refine ⟨⟨_, equal_eq inFirst inSecond, ?_⟩, fun d1 d2 enough1 enough2 => ?_, fun d enough => ?_⟩
    · rw [decide_eq_true_eq]
      exact copied_eq_iff inFirst inSecond
    · exact ⟨_, _, copied_copies few inFirst enough1, copied_copies few inSecond enough2,
        copied_eq_iff inFirst inSecond⟩
    · exact ⟨_, _, issetAny_eq inFirst, copied_copies few inFirst enough, decide_eq_true_iff⟩

/-- Twelve bits of two bytes, which are those of two others. -/
theorem bits_agree_twelve : Agree [0xAB, 0xC1] [0xAB, 0xCF] 12 :=
  (bits_agree [0xAB, 0xC1] [0xAB, 0xCF] 12 (by decide) (by decide)).mpr (by decide)

/-- The bits of as many bytes that their number is no `size_t` with seven added. -/
theorem bits_disagree : ¬ Agree (List.replicate (2 ^ 61) 0) (List.replicate (2 ^ 61) 0) 0xFFFFFFFFFFFFFFFF := by
  intro agree
  have many : 2 ^ 64 ≤ (0xFFFFFFFFFFFFFFFF : UInt64).toNat + 7 := by decide
  rcases agree.copies (List.replicate (byteCount 0xFFFFFFFFFFFFFFFF) 0)
    (List.replicate (byteCount 0xFFFFFFFFFFFFFFFF) 0)
    List.length_replicate.ge List.length_replicate.ge with ⟨copied, -, copies, -⟩
  exact wrapped_not_copies many copies

end KitBits
end LibKit
