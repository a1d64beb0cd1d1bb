import LibKit.Jitson.Token
import LibKit.KitSortedArray.Model

namespace LibKit
namespace Jitson

/-!
# Elements, members and comparisons

The accessors of `sxe-jitson.c` and the comparisons of `sxe-jitson-type.c`.
Arrays and objects are indexed when they are first accessed; the index is part
of the token of the collection.  Locks and allocation failures of the index
are left out.
-/

/-! ## Elements of arrays -/

/-- The offsets of `count` values that follow each other, from an offset on. -/
def walkOffsets (pointer : Pointer) : Nat → Nat → List Nat
  | 0, _ => []
  | count + 1, offset => offset :: walkOffsets pointer count (offset + size (pointer.drop offset))

/-- The just in time indexing of `sxe_jitson_array_get_element`. -/
def indexArray (pointer : Pointer) : Pointer :=
  match pointer with
  | .head type len body :: rest =>
      .head { type with isOwn := true } len
        (.index (walkOffsets pointer len 1 ++ [integerOf (.head type len body :: rest) % 2 ^ 32])) :: rest
  | _ => pointer

def indexedArray (pointer : Pointer) : Pointer :=
  if (typeOf pointer).indexed then pointer else indexArray pointer

/-- `sxe_jitson_array_get_element`, where concatenations may be of
concatenations up to a depth. -/
def getElementDepth : Nat → Pointer → Nat → Option Pointer
  | 0, _, _ => none
  | depth + 1, pointer, idx =>
      let array := dereference pointer
      if idx ≥ lenOf array then none
      else if (typeOf array).isRef then
        match bodyOf array with
        | .concat first second =>
            if idx < lenOf first then getElementDepth depth first idx
            else getElementDepth depth second (idx - lenOf first)
        | _ => none
      else if (typeOf array).isUnif then some (array.drop (1 + uniformSize array / 16 * idx))
      else some ((indexedArray array).drop ((indexOf (indexedArray array)).getD idx 0))

/-- `sxe_jitson_array_get_element` -/
def arrayGetElement (pointer : Pointer) (idx : Nat) : Option Pointer :=
  getElementDepth (weight pointer) pointer idx

/-! ## Members of objects -/

/-- Write the field `len`, which is the link of an indexed member name. -/
def setLen (len : Nat) : Token → Token
  | .head type _ body => .head type len body
  | .more => .more

/-- The loop of `sxe_jitson_object_get_member` that enters the members in
their buckets: the tokens of the object, the buckets and the offset of the
next member name. -/
def indexMembers (sum : List UInt8 → Nat) (len : Nat) : Nat → Pointer → List Nat → Nat → Pointer × List Nat
  | 0, object, buckets, _ => (object, buckets)
  | count + 1, object, buckets, offset =>
      let member := object.drop offset
      let memlen :=
        if (typeOf member).isRef then (CString.text (bytesOf member)).length else lenOf member
      let bucket := sum ((bytesOf member).take memlen) % len
      let object := object.modify offset (setLen (buckets.getD bucket 0))
      let value := offset + size (object.drop offset)
      indexMembers sum len count object (buckets.set bucket offset) (value + size (object.drop value))

/-- The just in time indexing of `sxe_jitson_object_get_member`. -/
def indexObject (sum : List UInt8 → Nat) (pointer : Pointer) : Pointer :=
  let len := lenOf pointer
  let (object, buckets) := indexMembers sum len len pointer (List.replicate len 0) 1
  match object with
  | .head type len _ :: rest =>
      .head { type with isOwn := true } len (.index (buckets ++ [integerOf pointer % 2 ^ 32])) :: rest
  | _ => object

def indexedObject (sum : List UInt8 → Nat) (pointer : Pointer) : Pointer :=
  if (typeOf pointer).indexed then pointer else indexObject sum pointer

/-- Follow the links of a bucket, each of which leads to an earlier member. -/
def findMember (object : Pointer) (name : List UInt8) : Nat → Nat → Option Pointer
  | 0, _ => none
  | fuel + 1, i =>
      if i = 0 then none
      else
        let member := object.drop i
        if stringLen member = name.length ∧ (bytesOf member).take name.length = name then
          some (member.drop (size member))
        else findMember object name fuel (lenOf member)

/-- `sxe_jitson_object_get_member`, with the bytes of the name. -/
def objectGetMember (sum : List UInt8 → Nat) (pointer : Pointer) (name : List UInt8) : Option Pointer :=
  let object := dereference pointer
  if lenOf object = 0 then none
  else
    let object := indexedObject sum object
    findMember object name (lenOf object + 1) ((indexOf object).getD (sum name % lenOf object) 0)

/-! ## Comparing values -/

/-- The operations of the machine and of the C library on doubles.  `strtod`
also returns the number of bytes that it takes. -/
structure FloatOps where
  lt : UInt64 → UInt64 → Bool
  eq : UInt64 → UInt64 → Bool
  toUint : UInt64 → Nat
  ofUint : Nat → UInt64
  strtod : List UInt8 → UInt64 × Nat

/-- `SXE_JITSON_CMP_ERROR` -/
abbrev cmpError : Int := KitSortedArray.cmpError

/-- `sxe_uint64_cmp` -/
def uintCmp (left right : Nat) : Int :=
  if left < right then -1 else if left = right then 0 else 1

def floatCmp (ops : FloatOps) (left right : UInt64) : Int :=
  if ops.lt left right then -1 else if ops.eq left right then 0 else 1

def numberOf (pointer : Pointer) : UInt64 :=
  match bodyOf pointer with
  | .number bits => bits
  | _ => 0

/-- `sxe_jitson_number_cmp` -/
def numberCmp (ops : FloatOps) (left right : Pointer) : Int :=
  if (typeOf left).isUint then
    if (typeOf right).isUint then uintCmp (integerOf left) (integerOf right)
    else if ops.eq (ops.ofUint (ops.toUint (numberOf right))) (numberOf right) then
      uintCmp (integerOf left) (ops.toUint (numberOf right))
    else if ops.toUint (ops.ofUint (integerOf left)) = integerOf left then
      floatCmp ops (ops.ofUint (integerOf left)) (numberOf right)
    else cmpError
  else if ¬ (typeOf right).isUint then floatCmp ops (numberOf left) (numberOf right)
  else if ops.eq (ops.ofUint (ops.toUint (numberOf left))) (numberOf left) then
    uintCmp (ops.toUint (numberOf left)) (integerOf right)
  else if ops.toUint (ops.ofUint (integerOf right)) = integerOf right then
    floatCmp ops (numberOf left) (ops.ofUint (integerOf right))
  else cmpError

/-- `strcmp` of the bytes of two strings, with the NUL behind them. -/
def bytesCmp (left right : List UInt8) : Int :=
  (CString.strcmp (left ++ [0]) (right ++ [0])).getD 0

/-- `sxe_jitson_string_cmp` -/
def stringCmp (left right : Pointer) : Int := bytesCmp (bytesOf left) (bytesOf right)

/-- The loop of `sxe_jitson_array_cmp` over the `count` elements left. -/
def arrayCmpLoop (cmp : Pointer → Pointer → Int) (left right : Pointer) : Nat → Nat → Int
  | 0, i => if i < lenOf right then -1 else 0
  | count + 1, i =>
      if i ≥ lenOf right then 1
      else
        let ret :=
          match arrayGetElement left i, arrayGetElement right i with
          | some first, some second => cmp first second
          | _, _ => cmpError
        if ret ≠ 0 then ret else arrayCmpLoop cmp left right count (i + 1)

/-- `sxe_jitson_cmp` up to a depth of nested arrays. -/
def cmpDepth (ops : FloatOps) : Nat → Pointer → Pointer → Int
  | 0, _, _ => cmpError
  | depth + 1, left, right =>
      let left := dereference left
      let right := dereference right
      if (typeOf left).kind ≠ (typeOf right).kind then cmpError
      else
        match (typeOf left).kind with
        | .number => numberCmp ops left right
        | .string => stringCmp left right
        | .array => arrayCmpLoop (cmpDepth ops depth) left right (lenOf left) 0
        | _ => cmpError

/-- `sxe_jitson_cmp` -/
def cmp (ops : FloatOps) (left right : Pointer) : Int := cmpDepth ops (weight left + 1) left right

/-- `sxe_jitson_string_eq` -/
def stringEq (left right : Pointer) : Option Bool :=
  if lenOf left ≠ 0 ∧ lenOf right ≠ 0 ∧ lenOf left ≠ lenOf right then some false
  else some (bytesCmp (bytesOf left) (bytesOf right) = 0)

def boolOf (pointer : Pointer) : Bool :=
  match bodyOf pointer with
  | .boolean value => value
  | _ => false

/-- The loop of `sxe_jitson_array_eq` over the `count` elements left. -/
def arrayEqLoop (eq : Pointer → Pointer → Option Bool) (left right : Pointer) : Nat → Nat → Option Bool
  | 0, _ => some true
  | count + 1, i =>
      let ret :=
        match arrayGetElement left i, arrayGetElement right i with
        | some first, some second => eq first second
        | _, _ => none
      if ret ≠ some true then ret else arrayEqLoop eq left right count (i + 1)

/-- `sxe_jitson_eq` up to a depth of nested arrays; `none` is
`SXE_JITSON_TEST_ERROR`. -/
def eqDepth (ops : FloatOps) : Nat → Pointer → Pointer → Option Bool
  | 0, _, _ => none
  | depth + 1, left, right =>
      let left := dereference left
      let right := dereference right
      if (typeOf left).kind ≠ (typeOf right).kind then some false
      else
        match (typeOf left).kind with
        | .null => some true
        | .bool => some (boolOf left = boolOf right)
        | .number =>
            if numberCmp ops left right = cmpError then none else some (numberCmp ops left right = 0)
        | .string => stringEq left right
        | .array | .range =>
            if lenOf left ≠ lenOf right then some false
            else arrayEqLoop (eqDepth ops depth) left right (lenOf left) 0
        | _ => none

/-- `sxe_jitson_eq` -/
def eq (ops : FloatOps) (left right : Pointer) : Option Bool := eqDepth ops (weight left + 1) left right

end Jitson
end LibKit
