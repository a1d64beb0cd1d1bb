import LibKit.Support.Bytes

namespace LibKit
namespace Words

/-!
# Words of 32 bits and their bytes

C code that does not depend on the order of the bytes of its machine puts a word
together from bytes with shifts, and takes it apart in the same way.
-/

/-- A word from four bytes, the least significant first. -/
def join (first second third fourth : UInt8) : BitVec 32 :=
  first.toBitVec.setWidth 32 ||| (second.toBitVec.setWidth 32 <<< 8) ||| (third.toBitVec.setWidth 32 <<< 16) |||
    (fourth.toBitVec.setWidth 32 <<< 24)

/-- The byte that a shift brings to the low end. -/
def part (word : BitVec 32) (shift : Nat) : UInt8 := UInt8.ofBitVec ((word >>> shift).setWidth 8)

/-- The bytes of a word, the least significant first. -/
def split (word : BitVec 32) : List UInt8 := [part word 0, part word 8, part word 16, part word 24]

theorem shifted_toNat (byte : UInt8) {shift : Nat} (small : shift ≤ 24) :
    (byte.toBitVec.setWidth 32 <<< shift).toNat = byte.toNat <<< shift := by
  have bound := byte.toNat_lt
  have wide : (byte.toBitVec.setWidth 32).toNat = byte.toNat := by
    rw [BitVec.toNat_setWidth, UInt8.toNat_toBitVec, Nat.mod_eq_of_lt (by omega)]
  have fits : byte.toNat <<< shift < 2 ^ 32 := by
    rw [Nat.shiftLeft_eq]
    calc byte.toNat * 2 ^ shift < 2 ^ 8 * 2 ^ shift := Nat.mul_lt_mul_of_pos_right bound (Nat.two_pow_pos shift)
      _ ≤ 2 ^ 8 * 2 ^ 24 := Nat.mul_le_mul_left _ (Nat.pow_le_pow_right (by decide) small)
  rw [BitVec.toNat_shiftLeft, wide, Nat.mod_eq_of_lt fits]

theorem join_toNat (first second third fourth : UInt8) :
    (join first second third fourth).toNat =
      first.toNat + 256 * (second.toNat + 256 * (third.toNat + 256 * fourth.toNat)) := by
  have one := first.toNat_lt
  have two := second.toNat_lt
  have three := third.toNat_lt
  have plain : (first.toBitVec.setWidth 32).toNat = first.toNat := by
    rw [BitVec.toNat_setWidth, UInt8.toNat_toBitVec, Nat.mod_eq_of_lt (by omega)]
  simp only [join, BitVec.toNat_or, shifted_toNat _ (by decide : 8 ≤ 24), shifted_toNat _ (by decide : 16 ≤ 24),
    shifted_toNat _ (by decide : 24 ≤ 24), plain]
  have low : first.toNat ||| second.toNat <<< 8 = first.toNat + 256 * second.toNat := by
    rw [Nat.or_comm, ← Nat.shiftLeft_add_eq_or_of_lt (by omega), Nat.shiftLeft_eq]
    omega
  have middle : first.toNat + 256 * second.toNat ||| third.toNat <<< 16 =
      first.toNat + 256 * (second.toNat + 256 * third.toNat) := by
    rw [Nat.or_comm, ← Nat.shiftLeft_add_eq_or_of_lt (by omega), Nat.shiftLeft_eq]
    omega
  have high : first.toNat + 256 * (second.toNat + 256 * third.toNat) ||| fourth.toNat <<< 24 =
      first.toNat + 256 * (second.toNat + 256 * (third.toNat + 256 * fourth.toNat)) := by
    rw [Nat.or_comm, ← Nat.shiftLeft_add_eq_or_of_lt (by omega), Nat.shiftLeft_eq]
    omega
  rw [low, middle, high]

theorem part_eq (word : BitVec 32) (shift : Nat) : part word shift = UInt8.ofNat (word.toNat / 2 ^ shift % 256) := by
  apply UInt8.toNat_inj.mp
  rw [UInt8.toNat_ofNat', part, ← UInt8.toNat_toBitVec, UInt8.toBitVec_ofBitVec, BitVec.toNat_setWidth,
    BitVec.toNat_ushiftRight, Nat.shiftRight_eq_div_pow]
  omega

theorem split_join (first second third fourth : UInt8) :
    split (join first second third fourth) = [first, second, third, fourth] := by
  have one := first.toNat_lt
  have two := second.toNat_lt
  have three := third.toNat_lt
  have four := fourth.toNat_lt
  have back : ∀ byte : UInt8, ∀ number, number % 256 = byte.toNat → UInt8.ofNat (number % 256) = byte := by
    intro byte number same
    rw [same, UInt8.ofNat_toNat]
  simp only [split, part_eq, join_toNat]
  rw [back first _ (by omega), back second _ (by omega), back third _ (by omega), back fourth _ (by omega)]

/-- A word is combined with another one byte by byte. -/
theorem part_xor (word other : BitVec 32) (shift : Nat) :
    part (word ^^^ other) shift = part word shift ^^^ part other shift := by
  apply UInt8.toBitVec_inj.mp
  rw [UInt8.toBitVec_xor, part, part, part, UInt8.toBitVec_ofBitVec, UInt8.toBitVec_ofBitVec, UInt8.toBitVec_ofBitVec,
    BitVec.ushiftRight_xor_distrib, BitVec.setWidth_xor]

end Words
end LibKit
