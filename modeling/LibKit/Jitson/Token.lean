import LibKit.Support.CString

namespace LibKit
namespace Jitson

/-!
# Tokens of `lib-sxe-jitson`

A value is a run of tokens of sixteen bytes: a head, and for a collection the
values it contains.  A pointer to a value is modelled by the list of tokens
from there on, so that adding to a pointer drops tokens.  The bytes of a string
that is too long for its head continue in the tokens after it; the model keeps
all of them in the head and marks the tokens they occupy as `more`.

Of the types other than those of JSON there are ranges and identifiers.  The
member `uniform.type`, which is never read, is left out.
-/

/-- The values of a type word under `SXE_JITSON_TYPE_MASK`, of which the last
two are registered at run time. -/
inductive Kind where
  | invalid
  | null
  | bool
  | number
  | string
  | array
  | object
  | reference
  | range
  | ident
deriving DecidableEq

/-- A type word.  `IS_UINT` shares its bit with `REVERSED`, and `IS_OWN` with
`INDEXED`. -/
structure TypeWord where
  kind : Kind
  mkSort : Bool := false
  isLocal : Bool := false
  isHomo : Bool := false
  isUnif : Bool := false
  isOrd : Bool := false
  isUint : Bool := false
  isKey : Bool := false
  isRef : Bool := false
  isOwn : Bool := false
  alloced : Bool := false
deriving DecidableEq

/-- `SXE_JITSON_TYPE_INDEXED` -/
def TypeWord.indexed (type : TypeWord) : Bool := type.isOwn

/-- An array, or a range, which is an array but for its type. -/
def TypeWord.isArray (type : TypeWord) : Bool := type.kind = .array ∨ type.kind = .range

def TypeWord.masked (type : TypeWord) : TypeWord := { kind := type.kind }

/-- The union in a token.  The two pointers of a concatenation are its last
members, the second of which lies in the next token. -/
inductive Body (Pointer : Type) where
  | unset
  | integer (value : Nat)
  | number (bits : UInt64)
  | boolean (value : Bool)
  | string (bytes : List UInt8)
  | reference (text : List UInt8)
  | jitref (target : Pointer)
  | index (offsets : List Nat)
  | part (noValue : Bool) (last collection : Nat)
  | uniform (size : Nat)
  | concat (first second : Pointer)

/-- `struct sxe_jitson`, or a token with more bytes of a string. -/
inductive Token where
  | head (type : TypeWord) (len : Nat) (body : Body (List Token))
  | more

/-- A pointer to a token: the tokens from there on. -/
abbrev Pointer := List Token

mutual

/-- The number of tokens that can be reached from a token, a bound for the
recursions that follow pointers. -/
def Token.weight : Token → Nat
  | .head _ _ (.jitref target) => 1 + weight target
  | .head _ _ (.concat first second) => 1 + weight first + weight second
  | _ => 1

def weight : List Token → Nat
  | [] => 0
  | token :: tokens => token.weight + weight tokens

end

/-! ## Fields -/

def typeOf : Pointer → TypeWord
  | .head type _ _ :: _ => type
  | _ => { kind := .invalid }

def lenOf : Pointer → Nat
  | .head _ len _ :: _ => len
  | _ => 0

def bodyOf : Pointer → Body (List Token)
  | .head _ _ body :: _ => body
  | _ => .unset

section

variable (type : TypeWord) (len : Nat) (body : Body (List Token)) (rest : List Token)

@[simp] theorem typeOf_head : typeOf (.head type len body :: rest) = type := rfl

@[simp] theorem lenOf_head : lenOf (.head type len body :: rest) = len := rfl

@[simp] theorem bodyOf_head : bodyOf (.head type len body :: rest) = body := rfl

end

/-- `integer`; the size of a uniform element is its upper half. -/
def integerOf (pointer : Pointer) : Nat :=
  match bodyOf pointer with
  | .integer value => value
  | .uniform size => size * 2 ^ 32
  | _ => 0

/-- `uniform.size` -/
def uniformSize (pointer : Pointer) : Nat :=
  match bodyOf pointer with
  | .uniform size => size
  | .integer value => value / 2 ^ 32
  | _ => 0

def indexOf (pointer : Pointer) : List Nat :=
  match bodyOf pointer with
  | .index offsets => offsets
  | _ => []

/-- The bytes at `string` or at `reference`, up to the length of the string. -/
def bytesOf (pointer : Pointer) : List UInt8 :=
  match bodyOf pointer with
  | .string bytes => bytes
  | .reference text => text
  | _ => []

/-! ## Types -/

/-- `sxe_jitson_is_reference` -/
def isReference (pointer : Pointer) : Bool := (typeOf pointer).kind = .reference

/-- `sxe_jitson_dereference` -/
def dereference (pointer : Pointer) : Pointer :=
  if isReference pointer then
    match bodyOf pointer with
    | .jitref target => target
    | _ => []
  else pointer

/-- `sxe_jitson_get_type`; references to references are not made. -/
def getType (pointer : Pointer) : Kind := (typeOf (dereference pointer)).kind

/-! ## Lengths and sizes -/

/-- `sxe_jitson_string_len`.  The length of a reference is cached in the field
`len`, which changes no result. -/
def stringLen (pointer : Pointer) : Nat :=
  if (typeOf pointer).isKey then (CString.text (bytesOf pointer)).length
  else if lenOf pointer = 0 ∧ (typeOf pointer).isRef then (CString.text (bytesOf pointer)).length
  else lenOf pointer

/-- `sxe_jitson_string_size` -/
def stringSize (pointer : Pointer) : Nat :=
  if (typeOf pointer).isRef then 1 else 1 + (stringLen pointer + 16 - 8) / 16

/-- `sxe_jitson_size_indexed` -/
def sizeIndexed (pointer : Pointer) : Nat :=
  if (typeOf pointer).indexed then (indexOf pointer).getD (lenOf pointer) 0
  else integerOf pointer % 2 ^ 32

/-- `sxe_jitson_array_size` -/
def arraySize (pointer : Pointer) : Nat :=
  if (typeOf pointer).isRef then 2
  else if (typeOf pointer).isUnif then (1 + lenOf pointer * ((uniformSize pointer + 16 - 1) / 16)) % 2 ^ 32
  else sizeIndexed pointer

/-- `sxe_jitson_size`; a token that is no head has no size, for which zero
stands. -/
def size (pointer : Pointer) : Nat :=
  match (typeOf pointer).kind with
  | .invalid => 0
  | .null | .bool | .number | .reference => 1
  | .string => stringSize pointer
  | .array | .range => arraySize pointer
  | .object => sizeIndexed pointer
  | .ident => 1 + (lenOf pointer + 8) / 16

end Jitson
end LibKit
