import LibKit.SxeHash.Model
import LibKit.SxeHex.Model
import LibKit.Support.Bytes

namespace LibKit
namespace SxeHash

open SxeList (Heap)

/-!
# `sxe-hash-classic.c` and `sxe-hash-sha1.c`

A hash of the values of keys that are given as hexadecimal digits.  An element is
a SHA1, which is its own hash value, and a word.
-/

/-- `sizeof(SXE_SHA1)` -/
def sha1Size : Nat := 20

/-- `sizeof(SXE_HASH_KEY_VALUE_PAIR)` -/
def pairSize : Nat := 24

/-- `SXE_HASH_SHA1_AS_HEX_LENGTH` -/
def sha1AsHexLength : UInt32 := 40

/-- `sxe_prehashed_key_hash` -/
def prehashedKeyHash (key : List UInt8) : UInt32 := UInt32.ofNat (Bytes.readWord (fun i => key.getD i 0) 0 4)

/-- What `sxe_hash_new` gives to `sxe_hash_new_plus`. -/
def classicOptions (elementCount : Nat) : Options := ⟨elementCount, pairSize, 0, sha1Size, prehashedKeyHash⟩

/-- `sxe_hash_new` -/
def hashNew (elementCount : Nat) (heap : Heap) (last : UInt64 → Nat) (base : UInt64) (memory : Nat → UInt8) : Hash :=
  newPlus (classicOptions elementCount) heap last base memory

/-- `sxe_hash_sha1_from_hex` -/
def sha1FromHex (sha1 sha1InHex : List UInt8) : Except SxeHex.Stop (SxeHex.Return × List UInt8) :=
  SxeHex.toBytes sha1 sha1InHex sha1AsHexLength

namespace Hash

def value (hash : Hash) (id : Nat) : Nat := Bytes.readWord hash.memory (id * pairSize + sha1Size) 4

def writeValue (hash : Hash) (id : Nat) (value : UInt32) : Hash :=
  { hash with memory := Bytes.write hash.memory (id * pairSize + sha1Size) (Bytes.encodeWord 4 value.toNat) }

/-- `sxe_hash_set`: what the conversion of the key returns is not looked at. -/
def set (hash : Hash) (sha1AsChar : List UInt8) (value : UInt32) : Option (Nat × Hash) := do
  let (id, hash) ← hash.take
  if id = noElement then some (id, hash)
  else
    match sha1FromHex (bytesAt hash.memory (id * pairSize) sha1Size) sha1AsChar with
    | .error _ => none
    | .ok (_, sha1) => do
        let hash ← ((hash.writeKey id sha1).writeValue id value).add id
        some (id, hash)

/-- `sxe_hash_action`, with or without the removal of the element.  The bytes of the
local `sha1` are not initialized, and not used unless all are written. -/
def action (hash : Hash) (sha1AsChar : List UInt8) (remove : Bool) : Option (Nat × Hash) :=
  match sha1FromHex (List.replicate sha1Size 0) sha1AsChar with
  | .error _ => none
  | .ok (.errorInternal, _) => some (noElement, hash)
  | .ok (.ok, sha1) => do
      let id ← hash.look sha1
      if id = noElement then some (noElement, hash)
      else if remove then do
        let after ← hash.give id
        some (hash.value id, after)
      else some (hash.value id, hash)

end Hash

inductive ClassicCall where
  | set (sha1AsChar : List UInt8) (value : UInt32)
  | get (sha1AsChar : List UInt8)
  | remove (sha1AsChar : List UInt8)

def classicStep (hash : Hash) : ClassicCall → Option (Nat × Hash)
  | .set sha1AsChar value => hash.set sha1AsChar value
  | .get sha1AsChar => hash.action sha1AsChar false
  | .remove sha1AsChar => hash.action sha1AsChar true

end SxeHash
end LibKit
