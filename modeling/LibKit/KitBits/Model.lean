import LibKit.Support.CString

namespace LibKit
namespace KitBits

/-!
# `kit-bits.c`

Operations on the first bits of memory, of which only some of the last byte are
used.  Memory is the list of the bytes that can be accessed, and there is no
result of a call that accesses others.  An `int` that a byte is promoted to has
no sign here, since none gets negative.
-/

/-- `8 - num_bits % 8`, by which an `int` is shifted. -/
def shift (numBits : UInt64) : UInt32 := (8 - numBits % 8).toUInt32

/-- `0xFF << (8 - num_bits % 8)` -/
def mask (numBits : UInt64) : UInt32 := 0xFF <<< shift numBits

/-- `kit_bits_copy`, with the memory copied to. -/
def copy (d s : List UInt8) (numBits : UInt64) : Option (UInt64 × List UInt8) :=
  let numBytes := (numBits + 7) / 8
  if numBytes.toNat ≤ s.length ∧ numBytes.toNat ≤ d.length then
    let d := s.take numBytes.toNat ++ d.drop numBytes.toNat
    if 0 < numBits % 8 then do
      let last ← d[(numBytes - 1).toNat]?
      some (numBytes, d.set (numBytes - 1).toNat (last.toUInt32 &&& mask numBits).toUInt8)
    else some (numBytes, d)
  else none

/-- `kit_bits_equal` -/
def equal (s1 s2 : List UInt8) (numBits : UInt64) : Option Bool := do
  let numBytes := numBits / 8
  let same ← CString.memeq s1 s2 numBytes.toNat
  if same then
    if numBits % 8 = 0 then some true
    else do
      let first ← s1[numBytes.toNat]?
      let second ← s2[numBytes.toNat]?
      some ((first.toUInt32 ^^^ second.toUInt32) >>> shift numBits == 0)
  else some false

/-- The loop of `kit_bits_isset_any`. -/
def issetWhole (bits : List UInt8) (wholeBytes : UInt64) : Nat → UInt64 → Option Bool
  | 0, _ => none
  | turns + 1, byte =>
      if byte < wholeBytes then do
        let value ← bits[byte.toNat]?
        if value ≠ 0 then some true else issetWhole bits wholeBytes turns (byte + 1)
      else some false

/-- `kit_bits_isset_any` -/
def issetAny (bits : List UInt8) (numBits : UInt64) : Option Bool := do
  let wholeBytes := numBits / 8
  let found ← issetWhole bits wholeBytes (2 ^ 64) 0
  if found then some true
  else if 0 < numBits % 8 then do
    let value ← bits[wholeBytes.toNat]?
    some (value.toUInt32 &&& mask numBits != 0)
  else some false

end KitBits
end LibKit
