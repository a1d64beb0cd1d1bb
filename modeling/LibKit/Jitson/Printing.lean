import LibKit.Support.Grouping
import LibKit.Jitson.Elements
import LibKit.Jitson.Meaning

namespace LibKit
namespace Jitson

open Grouping

/-!
# Writing JSON

`sxe_jitson_to_json`.  The members of an object are written in the order of
their buckets, and those of a bucket in the order of its links, from the last
to the first.  The factory never fails here, and strings are shorter than
`2 ^ 32` bytes, beyond which the loop over their bytes does not end.  How
`snprintf` writes a double with `%.16G` is a parameter.
-/

/-! ## Scalars -/

/-- `snprintf` of an unsigned integer. -/
def decimal (value : Nat) : List UInt8 := (Nat.toDigits 10 value).map fun digit => UInt8.ofNat digit.toNat

/-- A byte that is written as an escape sequence. -/
def escapes (byte : UInt8) : Bool := byte ≤ 0x1F ∨ byte = 34 ∨ byte = 92

/-- `snprintf` of a byte as `\u00%02x`. -/
def unicodeEscape (byte : UInt8) : List UInt8 :=
  [92, 117, 48, 48] ++ ([byte.toNat / 16, byte.toNat % 16].map fun digit => UInt8.ofNat digit.digitChar.toNat)

/-- The loop of `sxe_jitson_string_build_json` from the byte at `i` on.  Bytes
from `first` on were not written yet. -/
def buildChars (string : List UInt8) (len : Nat) : Nat → Nat → Nat → List UInt8 → List UInt8
  | 0, first, _, factory => if first < len then factory ++ (string.take len).drop first else factory
  | count + 1, first, i, factory =>
      if escapes (string.getD i 0) then
        let factory := if first < i then factory ++ (string.take i).drop first else factory
        buildChars string len count (i + 1) (i + 1) (factory ++ unicodeEscape (string.getD i 0))
      else buildChars string len count first (i + 1) factory

/-- `sxe_jitson_string_build_json` -/
def stringBuildJson (pointer : Pointer) : List UInt8 :=
  let len := stringLen pointer
  buildChars (bytesOf pointer) len len 0 0 [34] ++ [34]

/-- `sxe_jitson_number_build_json` -/
def numberBuildJson (format : UInt64 → List UInt8) (pointer : Pointer) : List UInt8 :=
  if (typeOf pointer).isUint then decimal (integerOf pointer) else format (numberOf pointer)

/-! ## Collections -/

/-- The offsets of the members in a bucket, as its links lead to them. -/
def chain (object : Pointer) : Nat → Nat → List Nat
  | 0, _ => []
  | fuel + 1, i => if i = 0 then [] else i :: chain object fuel (lenOf (object.drop i))

/-- The offsets of all members, bucket by bucket. -/
def memberOffsets (object : Pointer) : List Nat :=
  (List.range (lenOf object)).flatMap fun bucket => chain object (lenOf object) ((indexOf object).getD bucket 0)

/-- `sxe_jitson_build_json` up to a depth of nested values.  It is undefined for
values that have no type. -/
def buildDepth (format : UInt64 → List UInt8) (sum : List UInt8 → Nat) : Nat → Pointer → Option (List UInt8)
  | 0, _ => none
  | depth + 1, pointer =>
      let value := dereference pointer
      let elements := ((List.range (lenOf value)).mapM fun i =>
        (arrayGetElement value i).bind (buildDepth format sum depth)).map fun texts => 91 :: (commas texts ++ [93])
      match (typeOf value).kind with
      | .null => some [110, 117, 108, 108]
      | .bool => some (if boolOf value then [116, 114, 117, 101] else [102, 97, 108, 115, 101])
      | .number => some (numberBuildJson format value)
      | .string => some (stringBuildJson value)
      | .array => elements
      | .range => elements.map fun text => [114, 97, 110, 103, 101, 40] ++ text ++ [41]
      | .object =>
          if lenOf value = 0 then some [123, 125]
          else
            let object := indexedObject sum value
            ((memberOffsets object).mapM fun i =>
              (buildDepth format sum depth (object.drop i)).bind fun name =>
                (buildDepth format sum depth ((object.drop i).drop (size (object.drop i)))).map fun text =>
                  name ++ 58 :: text).map fun texts => 123 :: (commas texts ++ [125])
      | .ident => some (CString.text (bytesOf value))
      | .invalid | .reference => none

/-- `sxe_jitson_to_json` -/
def toJson (format : UInt64 → List UInt8) (sum : List UInt8 → Nat) (pointer : Pointer) : Option (List UInt8) :=
  buildDepth format sum (weight pointer) pointer

/-! ## Text of a tree -/

def written (byte : UInt8) : List UInt8 := if escapes byte then unicodeEscape byte else [byte]

def quotedJson (bytes : List UInt8) : List UInt8 := quoted (bytes.flatMap written)

/-- Members in the order of their buckets, the last of each bucket first. -/
def bucketed {α : Type} (sum : List UInt8 → Nat) (members : List (List UInt8 × α)) : List (List UInt8 × α) :=
  grouped (fun member => sum member.1 % members.length) members.length members

mutual

def printed (format : UInt64 → List UInt8) (sum : List UInt8 → Nat) : Json → List UInt8
  | .null => [110, 117, 108, 108]
  | .bool value => if value then [116, 114, 117, 101] else [102, 97, 108, 115, 101]
  | .uint value => decimal value
  | .number bits => format bits
  | .string bytes => quotedJson bytes
  | .array elements => 91 :: (commas (printedAll format sum elements) ++ [93])
  | .object members =>
      123 :: (commas ((bucketed sum (printedMembers format sum members)).map fun member =>
        quotedJson member.1 ++ 58 :: member.2) ++ [125])

def printedAll (format : UInt64 → List UInt8) (sum : List UInt8 → Nat) : List Json → List (List UInt8)
  | [] => []
  | element :: elements => printed format sum element :: printedAll format sum elements

def printedMembers (format : UInt64 → List UInt8) (sum : List UInt8 → Nat) :
    List (List UInt8 × Json) → List (List UInt8 × List UInt8)
  | [] => []
  | (name, value) :: members => (name, printed format sum value) :: printedMembers format sum members

end

section

variable {format : UInt64 → List UInt8} {sum : List UInt8 → Nat}

theorem printedAll_eq (elements : List Json) : printedAll format sum elements = elements.map (printed format sum) := by
  induction elements with
  | nil => rfl
  | cons element elements ih => rw [printedAll, ih, List.map_cons]

theorem printedMembers_eq (members : List (List UInt8 × Json)) :
    printedMembers format sum members = members.map fun member => (member.1, printed format sum member.2) := by
  induction members with
  | nil => rfl
  | cons member members ih => rw [printedMembers, ih, List.map_cons]

theorem flatMap_written {bytes : List UInt8} (plain : ∀ byte ∈ bytes, escapes byte = false) :
    bytes.flatMap written = bytes := by
  induction bytes with
  | nil => rfl
  | cons byte bytes ih =>
      rw [List.flatMap_cons, ih fun other member => plain other (List.mem_cons_of_mem _ member), written,
        plain byte List.mem_cons_self]
      rfl

/-- Bytes from an offset on, up to another byte and after it. -/
theorem drop_take_split {string : List UInt8} {first i len : Nat} (behind : first ≤ i) (inside : i < len)
    (within : len ≤ string.length) :
    (string.take len).drop first = (string.take i).drop first ++ string.getD i 0 :: (string.take len).drop (i + 1) := by
  have short : i < (string.take len).length := by
    rw [List.length_take]
    omega
  have head : (string.take len).drop i = string.getD i 0 :: (string.take len).drop (i + 1) := by
    rw [List.drop_eq_getElem_cons short, List.getElem_take, List.getD_eq_getElem]
  have start : (string.take len).take i = string.take i := by
    rw [List.take_take, Nat.min_eq_left (Nat.le_of_lt inside)]
  rw [← head, ← start]
  conv_lhs => rw [← List.take_append_drop i (string.take len)]
  rw [List.drop_append_of_le_length]
  rw [List.length_take]
  omega

/-- Runs of bytes are written as the bytes one by one. -/
theorem buildChars_eq {string : List UInt8} {len count first i : Nat} (factory : List UInt8)
    (within : len ≤ string.length)
    (here : i + count = len) (behind : first ≤ i) (plain : ∀ byte ∈ (string.take i).drop first, escapes byte = false) :
    buildChars string len count first i factory = factory ++ ((string.take len).drop first).flatMap written := by
  induction count generalizing first i factory with
  | zero =>
      rw [Nat.add_zero] at here
      subst here
      rw [flatMap_written plain, buildChars]
      split
      · rfl
      · rename_i empty
        rw [List.drop_eq_nil_of_le (Nat.le_trans (List.length_take_le _ _) (Nat.not_lt.mp empty)), List.append_nil]
  | succ count ih =>
      have split := drop_take_split behind (show i < len by omega) within
      rw [buildChars, split, List.flatMap_append, flatMap_written plain, List.flatMap_cons]
      cases isEscape : escapes (string.getD i 0) with
      | true =>
          have run : (if first < i then factory ++ (string.take i).drop first else factory) = factory ++
            (string.take i).drop first := by
            split
            · rfl
            · rename_i empty
              rw [List.drop_eq_nil_of_le (Nat.le_trans (List.length_take_le _ _) (Nat.not_lt.mp empty)),
                List.append_nil]
          have none : ∀ byte ∈ (string.take (i + 1)).drop (i + 1), escapes byte = false := by
            rw [List.drop_eq_nil_of_le (List.length_take_le _ _)]
            exact fun byte member => absurd member List.not_mem_nil
          rw [if_pos rfl, run, ih _ (by omega) (Nat.le_refl _) none, written, isEscape, if_pos rfl]
          simp only [List.append_assoc]
      | false =>
          have longer := drop_take_split behind (Nat.lt_succ_self i) (show i + 1 ≤ string.length by omega)
          rw [List.drop_eq_nil_of_le (List.length_take_le _ _)] at longer
          have plain' : ∀ byte ∈ (string.take (i + 1)).drop first, escapes byte = false := by
            rw [longer]
            intro byte member
            rcases List.mem_append.mp member with before | last
            · exact plain byte before
            · rw [List.mem_singleton.mp last]
              exact isEscape
          rw [if_neg Bool.false_ne_true, ih _ (by omega) (Nat.le_succ_of_le behind) plain', split, List.flatMap_append,
            flatMap_written plain, List.flatMap_cons]

theorem stringBuildJson_eq {pointer : Pointer} {bytes : List UInt8} (len : stringLen pointer = bytes.length)
    (same : bytesOf pointer = bytes) : stringBuildJson pointer = quotedJson bytes := by
  have built := @buildChars_eq bytes bytes.length bytes.length 0 0 [34] (Nat.le_refl _) (Nat.zero_add _) (Nat.le_refl _)
    (fun byte member => absurd member (List.not_mem_nil))
  rw [List.take_length, List.drop_zero] at built
  rw [stringBuildJson, len, same, built]
  rfl

theorem decimal_eq (value : Nat) :
    decimal value = if value < 10 then [UInt8.ofNat (48 + value)] else decimal (value / 10) ++
      [UInt8.ofNat (48 + value % 10)] := by
  have digit : ∀ digit < 10, UInt8.ofNat (Nat.digitChar digit).toNat = UInt8.ofNat (48 + digit) := by decide
  rw [decimal, Nat.toDigits_eq_if (by decide)]
  split
  · rename_i small
    rw [List.map_singleton, digit value small]
  · rw [List.map_append, List.map_singleton, digit _ (Nat.mod_lt _ (by decide))]
    rfl

/-! ## Weights -/

theorem Member.weight_tokens (member : Member) (link other : Nat) :
    weight (member.tokens link) = weight (member.tokens other) := by
  rcases member with ⟨name, keeping, value⟩
  cases keeping <;> rfl

theorem weight_laid {links others : List (Nat × Member)} (same : links.map Prod.snd = others.map Prod.snd) :
    weight (laid links) = weight (laid others) := by
  induction links generalizing others with
  | nil =>
      rcases others with _ | ⟨other, others⟩
      · rfl
      · cases same
  | cons entry links ih =>
      rcases others with _ | ⟨other, others⟩
      · cases same
      · rw [List.map_cons, List.map_cons, List.cons.injEq] at same
        rw [laid_cons, laid_cons, weight_append, weight_append, ih same.2, same.1,
          other.2.weight_tokens entry.1 other.1]

end

end Jitson
end LibKit
