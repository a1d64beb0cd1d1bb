import LibKit.Jitson.Reading

namespace LibKit
namespace Jitson

/-!
# The grammar of JSON

The grammar of RFC 8259 over the bytes of a text, with the tree that a text
means.  A parser that accepts more has a dialect: other spaces, other whole
numbers or other characters in strings.
-/

/-- What dialects of JSON differ in: spaces, the digits of whole numbers, what
stands for itself in a string, and the bytes of escaped code points. -/
structure Dialect where
  space : UInt8 → Prop
  whole : List UInt8 → Prop
  unit : List UInt8 → Prop
  unicode : Nat → List UInt8 → Prop

/-! ## UTF-8 -/

/-- The number of bytes that follow the first byte of a character of several
bytes, and the bounds of the first of them. -/
def follow (lead : UInt8) : Option (Nat × UInt8 × UInt8) :=
  if 0xC2 ≤ lead ∧ lead ≤ 0xDF then some (1, 0x80, 0xBF)
  else if lead = 0xE0 then some (2, 0xA0, 0xBF)
  else if lead = 0xED then some (2, 0x80, 0x9F)
  else if 0xE1 ≤ lead ∧ lead ≤ 0xEF then some (2, 0x80, 0xBF)
  else if lead = 0xF0 then some (3, 0x90, 0xBF)
  else if 0xF1 ≤ lead ∧ lead ≤ 0xF3 then some (3, 0x80, 0xBF)
  else if lead = 0xF4 then some (3, 0x80, 0x8F)
  else none

/-- Bytes that follow the first of a character. -/
inductive Tail : Nat → UInt8 → UInt8 → List UInt8 → Prop where
  | nil (low high : UInt8) : Tail 0 low high []
  | cons {more : Nat} {low high byte : UInt8} {rest : List UInt8} (isLow : low ≤ byte) (isHigh : byte ≤ high)
      (tail : Tail more 0x80 0xBF rest) : Tail (more + 1) low high (byte :: rest)

/-- The UTF-8 encoding of a character that needs no escape. -/
inductive Unescaped : List UInt8 → Prop where
  | ascii {byte : UInt8} (printable : 32 ≤ byte) (seven : byte < 128) (noQuote : byte ≠ 34) (noBackslash : byte ≠ 92) :
      Unescaped [byte]
  | several {lead : UInt8} {more : Nat} {low high : UInt8} {rest : List UInt8} (follows : follow lead =
      some (more, low, high))
      (tail : Tail more low high rest) : Unescaped (lead :: rest)

/-- `sxe_unicode_to_utf8` is UTF-8. -/
theorem toUtf8_eq {point : Nat} (valid : point.isValidChar) :
    Source.toUtf8 point = String.utf8EncodeChar (Char.ofNat point) := by
  have isPoint : (Char.ofNat point).val.toNat = point := by
    rw [Char.ofNat, dif_pos valid]
    rfl
  have high : point ≤ 0x10FFFF := by
    rcases valid with low | ⟨-, high⟩
    · omega
    · omega
  have joined : ∀ count base value : Nat, value < 2 ^ count →
    2 ^ count * base ||| value = value + 2 ^ count * base := by
    intro count base value small
    rw [← Nat.two_pow_add_eq_or_of_lt small, Nat.add_comm]
  have masked : ∀ value : Nat, 0x80 ||| value &&& 0x3F = value % 0x40 + 0x80 := by
    intro value
    rw [show 0x3F = 2 ^ 6 - 1 from rfl, Nat.and_two_pow_sub_one_eq_mod]
    exact joined 6 2 _ (Nat.mod_lt _ (by decide))
  rw [Source.toUtf8, String.utf8EncodeChar]
  simp only [isPoint, Nat.shiftRight_eq_div_pow, masked]
  by_cases one : point ≤ 0x7F
  · rw [if_pos one, if_pos one]
  by_cases two : point ≤ 0x7FF
  · have lead := joined 6 3 (point / 2 ^ 6) (by omega)
    rw [if_neg one, if_neg one, if_pos two, if_pos two, show 0xC0 = 2 ^ 6 * 3 from rfl, lead,
      show point / 64 % 0x20 = point / 2 ^ 6 by omega]
  by_cases three : point ≤ 0xFFFF
  · have lead := joined 5 7 (point / 2 ^ 12) (by omega)
    rw [if_neg one, if_neg one, if_neg two, if_neg two, if_pos three, if_pos three, show 0xE0 =
      2 ^ 5 * 7 from rfl, lead,
      show point / 4096 % 0x10 = point / 2 ^ 12 by omega]
  · have lead := joined 4 15 (point / 2 ^ 18) (by omega)
    rw [if_neg one, if_neg one, if_neg two, if_neg two, if_neg three, if_neg three, if_pos high,
      show 0xF0 = 2 ^ 4 * 15 from rfl, lead, show point / 262144 % 0x08 = point / 2 ^ 18 by omega]

/-! ## Dialects -/

def Digits (text : List UInt8) : Prop := text ≠ [] ∧ ∀ byte ∈ text, Source.isDigit byte = true

/-- RFC 8259.  What a half of a surrogate pair means is left open. -/
def Dialect.json : Dialect where
  space byte := byte = 32 ∨ byte = 9 ∨ byte = 10 ∨ byte = 13
  whole text := Digits text ∧ (text.headD 0 = 48 → text = [48])
  unit text := Unescaped text
  unicode point bytes := point.isValidChar → bytes = String.utf8EncodeChar (Char.ofNat point)

/-- RFC 8259 without escaped halves of surrogate pairs. -/
def Dialect.plain : Dialect :=
  { Dialect.json with unicode := fun point bytes => point.isValidChar ∧ bytes = String.utf8EncodeChar (Char.ofNat point) }

def Dialect.parsed : Dialect where
  space byte := Source.isSpace byte = true
  whole text := Digits text
  unit text := ∃ byte, text = [byte] ∧ byte ≠ 0 ∧ byte ≠ 34 ∧ byte ≠ 92
  unicode point bytes := bytes = Source.toUtf8 point

/-! ## Strings -/

inductive Escape (dialect : Dialect) : List UInt8 → List UInt8 → Prop where
  | itself {c : UInt8} (special : c = 34 ∨ c = 92 ∨ c = 47) : Escape dialect [92, c] [c]
  | backspace : Escape dialect [92, 98] [8]
  | formFeed : Escape dialect [92, 102] [12]
  | lineFeed : Escape dialect [92, 110] [10]
  | carriageReturn : Escape dialect [92, 114] [13]
  | tab : Escape dialect [92, 116] [9]
  | unicode {digits bytes : List UInt8} (four : digits.length = 4) (areDigits : ∀ byte ∈ digits,
      Source.isXDigit byte = true)
      (encoded : dialect.unicode (Source.digitsValue 16 digits) bytes) : Escape dialect (92 :: 117 :: digits) bytes

/-- Escapes of one dialect are those of another that encodes the same code
points. -/
theorem Escape.mono {dialect other : Dialect}
    (unicode : ∀ point bytes, dialect.unicode point bytes → other.unicode point bytes) {text chars : List UInt8}
    (isEscape : Escape dialect text chars) : Escape other text chars := by
  cases isEscape with
  | itself special => exact .itself special
  | backspace => exact .backspace
  | formFeed => exact .formFeed
  | lineFeed => exact .lineFeed
  | carriageReturn => exact .carriageReturn
  | tab => exact .tab
  | unicode four areDigits encoded => exact .unicode four areDigits (unicode _ _ encoded)

/-- What is between the quotes of a string, and its bytes. -/
inductive Chars (dialect : Dialect) : List UInt8 → List UInt8 → Prop where
  | nil : Chars dialect [] []
  | unit {text rest bytes : List UInt8} (isUnit : dialect.unit text) (others : Chars dialect rest bytes) :
      Chars dialect (text ++ rest) (text ++ bytes)
  | escape {text chars rest bytes : List UInt8} (isEscape : Escape dialect text chars)
      (others : Chars dialect rest bytes) :
      Chars dialect (text ++ rest) (chars ++ bytes)

def quoted (text : List UInt8) : List UInt8 := 34 :: (text ++ [34])

/-! ## Numbers -/

def Sign (text : List UInt8) : Prop := text = [] ∨ text = [45]

def Fraction (text : List UInt8) : Prop := text = [] ∨ ∃ digits, Digits digits ∧ text = 46 :: digits

def Exponent (text : List UInt8) : Prop :=
  text = [] ∨ ∃ letter sign digits, (letter = 69 ∨ letter = 101) ∧ (sign = [] ∨ sign = [43] ∨ sign = [45]) ∧
    Digits digits ∧ text = letter :: (sign ++ digits)

/-! ## Values -/

def Dialect.Spaces (dialect : Dialect) (text : List UInt8) : Prop := ∀ byte ∈ text, dialect.space byte

structure Piece where
  before : List UInt8
  text : List UInt8
  after : List UInt8
  tree : Json

def Piece.bytes (piece : Piece) : List UInt8 := piece.before ++ piece.text ++ piece.after

structure MemberPiece where
  before : List UInt8
  quotedName : List UInt8
  between : List UInt8
  name : List UInt8
  value : Piece

def MemberPiece.bytes (member : MemberPiece) : List UInt8 :=
  member.before ++ quoted member.quotedName ++ member.between ++ 58 :: member.value.bytes

def commas : List (List UInt8) → List UInt8
  | [] => []
  | [text] => text
  | text :: next :: rest => text ++ 44 :: commas (next :: rest)

/-- A value and the tree that it means.  The values of numbers that are no
unsigned integers are doubles. -/
inductive Value (dialect : Dialect) (double : List UInt8 → UInt64) : List UInt8 → Json → Prop where
  | symbol {name : List UInt8} {tree : Json} (isSymbol : symbol name = some tree) : Value dialect double name tree
  | uint {digits : List UInt8} (isWhole : dialect.whole digits) :
      Value dialect double digits (.uint (Source.digitsValue 10 digits))
  | number {sign digits fraction exponent : List UInt8} (isSign : Sign sign) (isWhole : dialect.whole digits)
      (isFraction : Fraction fraction) (isExponent : Exponent exponent)
      (notUint : ¬ (sign = [] ∧ fraction = [] ∧ exponent = [])) :
      Value dialect double (sign ++ digits ++ fraction ++ exponent)
        (.number (double (sign ++ digits ++ fraction ++ exponent)))
  | string {text bytes : List UInt8} (chars : Chars dialect text bytes) :
    Value dialect double (quoted text) (.string bytes)
  | emptyArray {spaces : List UInt8} (areSpaces : dialect.Spaces spaces) :
      Value dialect double (91 :: (spaces ++ [93])) (.array [])
  | array {pieces : List Piece} (some : pieces ≠ [])
      (spaced : ∀ piece ∈ pieces, dialect.Spaces piece.before ∧ dialect.Spaces piece.after)
      (values : ∀ piece ∈ pieces, Value dialect double piece.text piece.tree) :
      Value dialect double (91 :: (commas (pieces.map Piece.bytes) ++ [93])) (.array (pieces.map Piece.tree))
  | emptyObject {spaces : List UInt8} (areSpaces : dialect.Spaces spaces) :
      Value dialect double (123 :: (spaces ++ [125])) (.object [])
  | object {members : List MemberPiece} (some : members ≠ [])
      (spaced : ∀ member ∈ members, dialect.Spaces member.before ∧ dialect.Spaces member.between ∧
        dialect.Spaces member.value.before ∧ dialect.Spaces member.value.after)
      (names : ∀ member ∈ members, Chars dialect member.quotedName member.name)
      (values : ∀ member ∈ members, Value dialect double member.value.text member.value.tree) :
      Value dialect double (123 :: (commas (members.map MemberPiece.bytes) ++ [125]))
        (.object (members.map fun member => (member.name, member.value.tree)))

/-- A text of the grammar: a value with spaces around it. -/
def IsText (dialect : Dialect) (double : List UInt8 → UInt64) (text : List UInt8) (tree : Json) : Prop :=
  ∃ before inner after, text = before ++ inner ++ after ∧ dialect.Spaces before ∧ dialect.Spaces after ∧
    Value dialect double inner tree

end Jitson
end LibKit
