import Mathlib

namespace LibKit
namespace Jitson

/-!
# Sources of JSON

`sxe-jitson-source.c` and `sxe-unicode.c`.  A source is the bytes that are
left up to its end, and the memory behind the end, which is not part of the
source but is read by the conversions of the C library.  The end of a source
made from a string is its NUL.  Line numbers are left out.
-/

/-- The flags of a source; without any it is strict. -/
structure Flags where
  allowHex : Bool := false
  allowConsts : Bool := false
  allowIdents : Bool := false
  optimize : Bool := false

structure Source extends Flags where
  next : List UInt8
  beyond : List UInt8

namespace Source

/-- `sxe_jitson_source_from_buffer`, with the memory behind the buffer. -/
def fromBuffer (buffer beyond : List UInt8) (flags : Flags) : Source :=
  { flags with next := buffer, beyond := beyond }

/-- `sxe_jitson_source_from_string` of a text without NUL, and what is behind
its NUL. -/
def fromString (text behind : List UInt8) (flags : Flags) : Source :=
  { flags with next := text, beyond := 0 :: behind }

/-- `isspace` -/
def isSpace (byte : UInt8) : Bool := byte = 32 ∨ (9 ≤ byte ∧ byte ≤ 13)

/-- `isdigit` -/
def isDigit (byte : UInt8) : Bool := 48 ≤ byte ∧ byte ≤ 57

/-- `isxdigit` -/
def isXDigit (byte : UInt8) : Bool := isDigit byte ∨ (65 ≤ byte ∧ byte ≤ 70) ∨ (97 ≤ byte ∧ byte ≤ 102)

/-- `sxe_jitson_source_peek_char` -/
def peekChar (source : Source) : UInt8 := source.next.headD 0

/-- `sxe_jitson_source_consume` -/
def consume (source : Source) (size : Nat) : Source := { source with next := source.next.drop size }

/-- `sxe_jitson_source_get_char` -/
abbrev getChar (source : Source) : UInt8 × Source := (source.peekChar, source.consume 1)

def skipSpace (source : Source) : Source := { source with next := source.next.dropWhile isSpace }

/-- `sxe_jitson_source_peek_nonspace` -/
abbrev peekNonspace (source : Source) : UInt8 × Source := (source.skipSpace.peekChar, source.skipSpace)

/-- `sxe_jitson_source_get_nonspace` -/
abbrev getNonspace (source : Source) : UInt8 × Source := source.skipSpace.getChar

/-- The bit mask `identifier_chars`. -/
def isIdentifier (byte : UInt8) : Bool :=
  ([0x03FF400000000000, 0x07FFFFFE87FFFFFE, 0, 0].getD (byte.toNat / 64) 0).testBit (byte.toNat % 64)

/-- `sxe_jitson_source_get_identifier` -/
abbrev getIdentifier (source : Source) : List UInt8 × Source :=
  (source.next.takeWhile isIdentifier, { source with next := source.next.dropWhile isIdentifier })

/-! ## Numbers -/

def skipDigits (source : Source) : Source := { source with next := source.next.dropWhile isDigit }

def someDigits (source : Source) : Option Source :=
  if isDigit source.peekChar then some (source.consume 1).skipDigits else none

def fraction (source : Source) : Option (Bool × Source) :=
  if source.peekChar = 46 then (source.consume 1).someDigits.map fun source => (false, source)
  else some (true, source)

def exponent (source : Source) : Option (Bool × Source) :=
  if source.peekChar = 69 ∨ source.peekChar = 101 then
    let source := source.consume 1
    let source := if source.peekChar = 45 ∨ source.peekChar = 43 then source.consume 1 else source
    source.someDigits.map fun source => (false, source)
  else some (true, source)

/-- A hexadecimal number, of which there must be more than `0x`. -/
def hexadecimal (source : Source) : Option Source :=
  let digits := (source.consume 2).next.dropWhile isXDigit
  if source.next.length - digits.length ≤ 2 then none else some { source with next := digits }

/-- The source after a minus sign, if there is one. -/
def afterMinus (source : Source) : Source := if source.peekChar = 45 then source.consume 1 else source

/-- `sxe_jitson_source_get_number`: whether it is an unsigned integer, and the
source behind it. -/
def getNumber (source : Source) : Option (Bool × Source) :=
  if ¬ isDigit source.afterMinus.peekChar then none
  else if source.allowHex ∧ source.peekChar = 48 ∧ (source.afterMinus.consume 1).peekChar = 120 then
    source.hexadecimal.map fun behind => (true, behind)
  else
    (source.afterMinus.consume 1).skipDigits.fraction.bind fun (noFraction, middle) =>
      middle.exponent.map fun (noExponent, behind) =>
        (decide (source.peekChar ≠ 45) && noFraction && noExponent, behind)

def digitValue (byte : UInt8) : Nat :=
  if isDigit byte then byte.toNat - 48
  else if 97 ≤ byte then byte.toNat - 97 + 10
  else byte.toNat - 65 + 10

def digitsValue (base : Nat) (digits : List UInt8) : Nat :=
  digits.foldl (fun value byte => value * base + digitValue byte) 0

/-- `strtoul` of memory that starts with a digit: the value, which stays below
`2 ^ 64`, and the number of bytes taken. -/
def strtoul (memory : List UInt8) (anyBase : Bool) : Nat × Nat :=
  if anyBase ∧ memory.headD 0 = 48 then
    if (memory.getD 1 0 = 120 ∨ memory.getD 1 0 = 88) ∧ isXDigit (memory.getD 2 0) then
      let digits := (memory.drop 2).takeWhile isXDigit
      (min (digitsValue 16 digits) (2 ^ 64 - 1), 2 + digits.length)
    else
      let digits := memory.takeWhile fun byte => 48 ≤ byte ∧ byte ≤ 55
      (min (digitsValue 8 digits) (2 ^ 64 - 1), digits.length)
  else
    let digits := memory.takeWhile isDigit
    (min (digitsValue 10 digits) (2 ^ 64 - 1), digits.length)

def memory (source : Source) : List UInt8 := source.next ++ source.beyond

/-! ## Escapes -/

/-- `sxe_unicode_to_utf8` -/
def toUtf8 (unicode : Nat) : List UInt8 :=
  if unicode ≤ 0x7F then [UInt8.ofNat unicode]
  else if unicode ≤ 0x7FF then
    [UInt8.ofNat (0xC0 ||| unicode >>> 6), UInt8.ofNat (0x80 ||| unicode &&& 0x3F)]
  else if unicode ≤ 0xFFFF then
    [UInt8.ofNat (0xE0 ||| unicode >>> 12), UInt8.ofNat (0x80 ||| (unicode >>> 6) &&& 0x3F),
      UInt8.ofNat (0x80 ||| unicode &&& 0x3F)]
  else if unicode ≤ 0x10FFFF then
    [UInt8.ofNat (0xF0 ||| unicode >>> 18), UInt8.ofNat (0x80 ||| (unicode >>> 12) &&& 0x3F),
      UInt8.ofNat (0x80 ||| (unicode >>> 6) &&& 0x3F), UInt8.ofNat (0x80 ||| unicode &&& 0x3F)]
  else []

/-- The loop of `sxe_jitson_stack_load_string` over the digits of a unicode
escape. -/
def hexDigits : Nat → Nat → Source → Option (Nat × Source)
  | 0, unicode, source => some (unicode, source)
  | count + 1, unicode, source =>
      let (c, source) := source.getChar
      if isXDigit c then hexDigits count (unicode * 16 + digitValue c) source else none

/-- The bytes for an escape sequence after its backslash. -/
def escape (source : Source) : Option (List UInt8 × Source) :=
  let (c, source) := source.getChar
  if c = 34 ∨ c = 92 ∨ c = 47 then some ([c], source)
  else if c = 98 then some ([8], source)
  else if c = 102 then some ([12], source)
  else if c = 110 then some ([10], source)
  else if c = 114 then some ([13], source)
  else if c = 116 then some ([9], source)
  else if c = 117 then (hexDigits 4 0 source).map fun (unicode, source) => (toUtf8 unicode, source)
  else none

/-- One character of a string: a byte or an escape sequence. -/
def character (source : Source) : Option (List UInt8 × Source) :=
  let (c, source) := source.getChar
  if c = 0 then none else if c = 92 then source.escape else some ([c], source)

end Source

end Jitson
end LibKit
