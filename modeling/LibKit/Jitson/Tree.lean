import LibKit.Jitson.Parser

namespace LibKit
namespace Jitson

open Stack (nullValue boolValue makeUint makeNumber closedBody wrapped)

/-!
# JSON trees and their tokens

A tree is what a JSON text means.  `encode` lays a tree out as the tokens that
the parser produces for it, with and without optimisation.
-/

inductive Json where
  | null
  | bool (value : Bool)
  | uint (value : Nat)
  | number (bits : UInt64)
  | string (bytes : List UInt8)
  | array (elements : List Json)
  | object (members : List (List UInt8 × Json))

/-- Induction over trees, with the elements and the values of the members as
subtrees. -/
theorem Json.induction {motive : Json → Prop} (null : motive .null) (bool : ∀ value, motive (.bool value))
    (uint : ∀ value, motive (.uint value)) (number : ∀ bits, motive (.number bits))
    (string : ∀ bytes, motive (.string bytes))
    (array : ∀ elements, (∀ element ∈ elements, motive element) → motive (.array elements))
    (object : ∀ members, (∀ member ∈ members, motive member.2) → motive (.object members)) (tree : Json) :
    motive tree := by
  refine @Json.rec motive (fun elements => ∀ element ∈ elements, motive element)
    (fun members => ∀ member ∈ members, motive member.2) (fun member => motive member.2)
    null bool uint number string array object ?_ ?_ ?_ ?_ ?_ tree
  · intro element member
    cases member
  · intro first others isFirst areOthers element member
    rcases List.mem_cons.mp member with same | later
    · rw [same]
      exact isFirst
    · exact areOthers element later
  · intro element member
    cases member
  · intro first others isFirst areOthers element member
    rcases List.mem_cons.mp member with same | later
    · rw [same]
      exact isFirst
    · exact areOthers element later
  · intro name value isValue
    exact isValue

/-- The tokens of a value, and the offset of the value parsed last in it. -/
structure Block where
  tokens : List Token
  last : Nat

def stringTokens (isKey : Bool) (bytes : List UInt8) : List Token :=
  .head { kind := .string, isKey := isKey } (bytes.length % 2 ^ 32) (.string (wrapped bytes)) ::
    List.replicate ((bytes.length + 8) / 16) .more

def flatten (blocks : List Block) : List Token := (blocks.map Block.tokens).flatten

/-- The offset of the value parsed last in a collection with these tokens, of
which the block is the last. -/
def lastOffset (tokens : Nat) (final : Option Block) : Nat :=
  match final with
  | none => 0
  | some block => 1 + tokens - block.tokens.length + block.last

def agree (test : Block → Block → Bool) : List Block → Bool
  | first :: second :: rest => test first second && agree test (second :: rest)
  | _ => true

/-- The value parsed last in a block, with the tokens of the next block. -/
def Block.value (first second : Block) : Pointer := first.tokens.drop first.last ++ second.tokens

/-- The type of an array after its elements were parsed. -/
def parsedType (ops : FloatOps) (optimize : Bool) (blocks : List Block) : TypeWord where
  kind := .array
  isOrd := optimize && agree (fun first second => !decide (cmp ops (first.value second) second.tokens > 0)) blocks
  isUnif := optimize && agree (fun first second => first.tokens.length - first.last = second.tokens.length) blocks
  isHomo := optimize && agree (fun first second => typeOf (first.value second) = typeOf second.tokens) blocks

/-- The tokens of an array with these elements. -/
def arrayBlock (ops : FloatOps) (optimize : Bool) (blocks : List Block) : Block :=
  let type := parsedType ops optimize blocks
  let tokens := flatten blocks
  { tokens := .head { type with isOrd := type.isOrd && decide (blocks.length > 1) } blocks.length
      (closedBody type blocks.length tokens.length) :: tokens
    last := lastOffset tokens.length blocks.getLast? }

def memberTokens (members : List (List UInt8 × Block)) : List Token :=
  (members.map fun member => stringTokens true member.1 ++ member.2.tokens).flatten

/-- The tokens of an object with these members. -/
def objectBlock (members : List (List UInt8 × Block)) : Block :=
  let tokens := memberTokens members
  { tokens := .head { kind := .object } members.length (.integer (tokens.length + 1)) :: tokens
    last := lastOffset tokens.length (members.getLast?.map Prod.snd) }

mutual

/-- The tokens that the parser produces for a tree. -/
def encode (ops : FloatOps) (optimize : Bool) : Json → Block
  | .null => ⟨[nullValue], 0⟩
  | .bool value => ⟨[boolValue value], 0⟩
  | .uint value => ⟨[makeUint value], 0⟩
  | .number bits => ⟨[makeNumber bits], 0⟩
  | .string bytes => ⟨stringTokens false bytes, 0⟩
  | .array elements => arrayBlock ops optimize (encodeAll ops optimize elements)
  | .object members => objectBlock (encodeMembers ops optimize members)

def encodeAll (ops : FloatOps) (optimize : Bool) : List Json → List Block
  | [] => []
  | element :: elements => encode ops optimize element :: encodeAll ops optimize elements

def encodeMembers (ops : FloatOps) (optimize : Bool) : List (List UInt8 × Json) → List (List UInt8 × Block)
  | [] => []
  | (name, value) :: members => (name, encode ops optimize value) :: encodeMembers ops optimize members

end

section

variable (ops : FloatOps) (optimize : Bool)

theorem encodeAll_eq (elements : List Json) : encodeAll ops optimize elements = elements.map (encode ops optimize) := by
  induction elements with
  | nil => rfl
  | cons element elements ih => rw [encodeAll, ih, List.map_cons]

theorem encodeMembers_eq (members : List (List UInt8 × Json)) :
    encodeMembers ops optimize members = members.map fun member => (member.1, encode ops optimize member.2) := by
  induction members with
  | nil => rfl
  | cons member members ih => rw [encodeMembers, ih, List.map_cons]

theorem flatten_append (first second : List Block) : flatten (first ++ second) = flatten first ++ flatten second := by
  simp [flatten]

@[simp] theorem flatten_single (block : Block) : flatten [block] = block.tokens := by
  simp [flatten]

/-- The value parsed last is inside its block. -/
theorem lastOffset_le {tokens : Nat} {final : Option Block}
    (inside : ∀ block, final = some block → block.tokens.length ≤ tokens ∧ block.last < block.tokens.length) :
    lastOffset tokens final < 1 + tokens := by
  cases final with
  | none => exact Nat.lt_of_lt_of_le Nat.one_pos (Nat.le_add_right 1 tokens)
  | some block =>
      have bounds := inside block rfl
      simp only [lastOffset]
      omega

theorem length_le_flatten {blocks : List Block} {block : Block} (member : block ∈ blocks) :
    block.tokens.length ≤ (flatten blocks).length := by
  induction blocks with
  | nil => cases member
  | cons first others ih =>
      rw [← List.singleton_append, flatten_append, flatten_single, List.length_append]
      rcases List.mem_cons.mp member with same | later
      · rw [same]
        omega
      · have bound := ih later
        omega

theorem member_le_memberTokens {members : List (List UInt8 × Block)} {member : List UInt8 × Block}
    (isMember : member ∈ members) :
    (stringTokens true member.1).length + member.2.tokens.length ≤ (memberTokens members).length := by
  induction members with
  | nil => cases isMember
  | cons first others ih =>
      rw [memberTokens, List.map_cons, List.flatten_cons, List.length_append, List.length_append]
      rcases List.mem_cons.mp isMember with same | later
      · rw [same]
        omega
      · have bound := ih later
        rw [memberTokens] at bound
        omega

theorem length_le_memberTokens {members : List (List UInt8 × Block)} {member : List UInt8 × Block}
    (isMember : member ∈ members) : member.2.tokens.length ≤ (memberTokens members).length :=
  Nat.le_trans (Nat.le_add_left _ _) (member_le_memberTokens isMember)

theorem encode_last_lt (tree : Json) : (encode ops optimize tree).last < (encode ops optimize tree).tokens.length := by
  induction tree using Json.induction with
  | null => exact Nat.one_pos
  | bool => exact Nat.one_pos
  | uint => exact Nat.one_pos
  | number => exact Nat.one_pos
  | string bytes => exact Nat.succ_pos _
  | array elements ih =>
      simp only [encode, arrayBlock, List.length_cons, encodeAll_eq]
      rw [Nat.add_comm]
      apply lastOffset_le
      intro block found
      have member := List.mem_of_getLast? found
      refine ⟨length_le_flatten member, ?_⟩
      rcases List.mem_map.mp member with ⟨element, isElement, rfl⟩
      exact ih element isElement
  | object members ih =>
      simp only [encode, objectBlock, List.length_cons, encodeMembers_eq]
      rw [Nat.add_comm]
      apply lastOffset_le
      intro block found
      rcases Option.map_eq_some_iff.mp found with ⟨member, isLast, rfl⟩
      have isMember := List.mem_of_getLast? isLast
      refine ⟨length_le_memberTokens isMember, ?_⟩
      rcases List.mem_map.mp isMember with ⟨original, isOriginal, rfl⟩
      exact ih original isOriginal

end

end Jitson
end LibKit
