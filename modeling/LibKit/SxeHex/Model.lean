import LibKit.Support.Results

namespace LibKit
namespace SxeHex

/-!
# `sxe-hex.c`

Bytes are converted to hexadecimal digits and back.  A buffer is the list of its
bytes; there is no access behind its end.
-/

inductive Stop where
  | assertion
  | undefined
deriving DecidableEq

/-- `SXE_RETURN`, as far as it is returned. -/
inductive Return where
  | ok
  | errorInternal
deriving DecidableEq

/-- `NA` -/
def na : UInt8 := 0xFF

/-- The sixteen characters from a multiple of sixteen on: those of some values,
between others that are no digits. -/
def row (before : Nat) (values : List UInt8) : List UInt8 :=
  List.replicate before na ++ values ++ List.replicate (16 - before - values.length) na

/-- `hex_character_to_nibble` -/
def hexCharacterToNibble : List UInt8 :=
  row 0 [] ++ row 0 [] ++ row 0 [] ++ row 0 [0, 1, 2, 3, 4, 5, 6, 7, 8, 9] ++
    row 1 [10, 11, 12, 13, 14, 15] ++ row 0 [] ++ row 1 [10, 11, 12, 13, 14, 15] ++ row 0 [] ++
    (row 0 [] ++ row 0 [] ++ row 0 [] ++ row 0 [] ++ row 0 [] ++ row 0 [] ++ row 0 [] ++ row 0 [])

def nibble (character : UInt8) : UInt8 := hexCharacterToNibble.getD character.toNat na

/-- `hex_nibble_to_character` -/
def hexNibbleToCharacter : List UInt8 := [48, 49, 50, 51, 52, 53, 54, 55, 56, 57, 97, 98, 99, 100, 101, 102]

def nibbleAt (hex : List UInt8) (i : UInt32) : Except Stop UInt8 :=
  match hex[i.toNat]? with
  | none => .error .undefined
  | some character => .ok (nibble character)

/-- `bytes[i] = byte` -/
def store (bytes : List UInt8) (i : UInt32) (byte : UInt8) : Except Stop (List UInt8) :=
  if i.toNat < bytes.length then .ok (bytes.set i.toNat byte) else .error .undefined

/-- The loop of `sxe_hex_to_bytes`, which adds one to its index for the second
digit, and once more for the next turn. -/
def convert (hex : List UInt8) (hexLength : UInt32) : Nat → UInt32 → List UInt8 → Except Stop (Return × List UInt8)
  | 0, _, _ => .error .undefined
  | turns + 1, i, bytes =>
      if i < hexLength then do
        let nibbleHigh ← nibbleAt hex i
        if nibbleHigh = na then .ok (.errorInternal, bytes)
        else do
          let i := i + 1
          let nibbleLow ← nibbleAt hex i
          if nibbleLow = na then .ok (.errorInternal, bytes)
          else do
            let bytes ← store bytes ((i - 1) / 2) (nibbleHigh <<< 4 ||| nibbleLow)
            convert hex hexLength turns (i + 1) bytes
      else .ok (.ok, bytes)

/-- `sxe_hex_to_bytes`; its loop does not end if it takes more turns than there
are indices. -/
def toBytes (bytes hex : List UInt8) (hexLength : UInt32) : Except Stop (Return × List UInt8) :=
  if hexLength % 1 = 0 then convert hex hexLength (2 ^ 32) 0 bytes else .error .assertion

def character (nibble : UInt8) : UInt8 := hexNibbleToCharacter.getD nibble.toNat 0

/-- The loop of `sxe_hex_from_bytes`. -/
def print (bytes : List UInt8) (size : UInt32) : Nat → UInt32 → List UInt8 → Except Stop (List UInt8)
  | 0, _, _ => .error .undefined
  | turns + 1, i, hex =>
      if i < size then
        match bytes[i.toNat]? with
        | none => .error .undefined
        | some byte => do
            let hex ← store hex (2 * i + 0) (character (byte >>> 4))
            let hex ← store hex (2 * i + 1) (character (byte &&& 0xF))
            print bytes size turns (i + 1) hex
      else .ok hex

/-- `sxe_hex_from_bytes` -/
def fromBytes (hex bytes : List UInt8) (size : UInt32) : Except Stop (List UInt8) := print bytes size (2 ^ 32) 0 hex

end SxeHex
end LibKit
