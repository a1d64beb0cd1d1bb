import LibKit.Jitson.Intersect
import LibKit.Jitson.Scalars

namespace LibKit
namespace Jitson

open KitSortedArray (Address Agrees NonDecreasing Located findKey_located)
open Stack (elementClass)

/-!
# Arrays of scalars

The arrays that `INTERSECT` is meant for: their elements are scalars in any
storage, and they may be ordered, uniform, indexed or concatenations of other
arrays, as long as their flags tell the truth.
-/

/-! ## Where the elements are -/

/-- The offset of an element from the head of its array. -/
def offsetAt (array : Pointer) : Nat → Nat
  | 0 => 1
  | i + 1 => offsetAt array i + size (array.drop (offsetAt array i))

/-- The element of an array that follows its head. -/
def elementAt (array : Pointer) (i : Nat) : Pointer := array.drop (offsetAt array i)

theorem offsetAt_pos (array : Pointer) (i : Nat) : 0 < offsetAt array i := by
  induction i with
  | zero => exact Nat.one_pos
  | succ i ih => exact Nat.add_pos_left ih _

theorem walkOffsets_eq (array : Pointer) (count start : Nat) :
    walkOffsets array count (offsetAt array start) = (List.range' start count).map (offsetAt array) := by
  induction count generalizing start with
  | zero => rfl
  | succ count ih =>
      rw [walkOffsets, List.range'_succ, List.map_cons]
      exact congrArg _ (ih (start + 1))

structure Laid (scalars : List Scalar) (array : Pointer) : Prop where
  kind : (typeOf array).kind = .array
  whole : (typeOf array).isRef = false
  len : lenOf array = scalars.length
  stored : ∀ i scalar, scalars[i]? = some scalar → Stored scalar (elementAt array i)
  uniform : (typeOf array).isUnif = true → ∃ tokens, (scalars ≠ [] → uniformSize array = 16 * tokens) ∧
    ∀ i, i < scalars.length → size (elementAt array i) = tokens
  indexed : (typeOf array).isUnif = false → (typeOf array).indexed = true →
    ∃ total, indexOf array = (List.range scalars.length).map (offsetAt array) ++ [total]
  homogeneous : (typeOf array).isHomo = true →
    ∀ first ∈ scalars, ∀ second ∈ scalars, first.kind = second.kind
  ordered : (typeOf array).isOrd = true → scalars.Pairwise fun first second => first.rank ≤ second.rank

/-- An array of scalars, which may be a concatenation.  A concatenation is
never marked as ordered. -/
inductive Operand : List Scalar → Pointer → Prop where
  | laid {scalars : List Scalar} {array : Pointer} : Laid scalars array → Operand scalars array
  | concat {first second : List Scalar} {left right : Pointer} {type : TypeWord} {rest : List Token} :
      type.kind = .array → type.isRef = true → type.isOrd = false →
      Operand first left → Operand second right →
      Operand (first ++ second) (.head type (first ++ second).length (.concat left right) :: rest)

section

variable {scalars : List Scalar} {array : Pointer}

theorem dereference_array (kind : (typeOf array).kind = .array) : dereference array = array := by
  simp [dereference, isReference, kind]

theorem Operand.kind_eq (operand : Operand scalars array) : (typeOf array).kind = .array := by
  cases operand with
  | laid laid => exact laid.kind
  | concat kind => exact kind

theorem Operand.len_eq (operand : Operand scalars array) : lenOf array = scalars.length := by
  cases operand with
  | laid laid => exact laid.len
  | concat => rfl

/-- Only arrays that follow their heads are marked as ordered. -/
theorem Operand.laid_of_ordered (operand : Operand scalars array) (ordered : (typeOf array).isOrd = true) :
    Laid scalars array := by
  cases operand with
  | laid laid => exact laid
  | concat _ _ unordered => simp [typeOf, unordered] at ordered

theorem offsetAt_uniform {tokens : Nat}
    (sizes : ∀ i, i < scalars.length → size (elementAt array i) = tokens) (i : Nat) (inside : i ≤ scalars.length) :
    offsetAt array i = 1 + tokens * i := by
  induction i with
  | zero => rfl
  | succ i ih =>
      have step := sizes i inside
      rw [elementAt] at step
      rw [offsetAt, step, ih (by omega), Nat.mul_succ]
      omega

theorem exists_head (kind : (typeOf array).kind = .array) :
    ∃ type len body rest, array = .head type len body :: rest := by
  match array with
  | .head type len body :: rest => exact ⟨type, len, body, rest, rfl⟩
  | .more :: _ => cases kind
  | [] => cases kind

theorem Laid.indexOf_indexedArray (laid : Laid scalars array) (plain : (typeOf array).isUnif = false) :
    ∃ total, indexOf (indexedArray array) = (List.range scalars.length).map (offsetAt array) ++ [total] := by
  by_cases indexed : (typeOf array).indexed = true
  · rw [indexedArray, if_pos indexed]
    exact laid.indexed plain indexed
  · rw [indexedArray, if_neg indexed]
    have len := laid.len
    rcases exists_head laid.kind with ⟨type, count, body, rest, rfl⟩
    have counted : count = scalars.length := len
    refine ⟨_, congrArg (· ++ [_]) ?_⟩
    rw [List.range_eq_range', ← counted]
    exact walkOffsets_eq _ count 0

theorem drop_indexedArray (kind : (typeOf array).kind = .array) {offset : Nat} (positive : 0 < offset) :
    (indexedArray array).drop offset = array.drop offset := by
  rw [indexedArray]
  split
  · rfl
  · rcases exists_head kind with ⟨type, count, body, rest, rfl⟩
    cases offset with
    | zero => exact absurd positive (Nat.lt_irrefl 0)
    | succ offset => rfl

theorem lenOf_indexedArray (kind : (typeOf array).kind = .array) : lenOf (indexedArray array) = lenOf array := by
  rw [indexedArray]
  split
  · rfl
  · rcases exists_head kind with ⟨type, count, body, rest, rfl⟩
    rfl

theorem Laid.index_getD (laid : Laid scalars array) (plain : (typeOf array).isUnif = false) {i : Nat}
    (inside : i < scalars.length) : (indexOf (indexedArray array)).getD i 0 = offsetAt array i := by
  rcases laid.indexOf_indexedArray plain with ⟨total, index⟩
  rw [index, List.getD_eq_getElem?_getD, List.getElem?_append_left (by simpa using inside)]
  simp [inside]

theorem Laid.getElementDepth (laid : Laid scalars array) {i : Nat} (inside : i < scalars.length) (depth : Nat) :
    Jitson.getElementDepth (depth + 1) array i = some (elementAt array i) := by
  have bound : ¬ i ≥ lenOf array := by
    rw [laid.len]
    omega
  simp only [Jitson.getElementDepth, dereference_array laid.kind, bound, if_false, laid.whole, Bool.false_eq_true]
  by_cases uniform : (typeOf array).isUnif = true
  · rcases laid.uniform uniform with ⟨tokens, width, sizes⟩
    have some : scalars ≠ [] := List.ne_nil_of_length_pos (by omega)
    rw [if_pos uniform, elementAt, offsetAt_uniform sizes i (by omega), width some,
      Nat.mul_div_cancel_left _ (by omega)]
  · have plain := Bool.not_eq_true _ ▸ uniform
    rw [if_neg uniform, laid.index_getD plain inside, drop_indexedArray laid.kind (offsetAt_pos array i), elementAt]

theorem weight_pos (kind : (typeOf array).kind = .array) : 0 < weight array := by
  rcases exists_head kind with ⟨type, count, body, rest, rfl⟩
  rw [weight]
  refine Nat.add_pos_left ?_ _
  cases body <;> simp [Token.weight]

theorem Operand.getElementDepth (operand : Operand scalars array) {i : Nat} {scalar : Scalar}
    (found : scalars[i]? = some scalar) (depth : Nat) (enough : weight array ≤ depth) :
    ∃ element, Jitson.getElementDepth depth array i = some element ∧ Stored scalar element := by
  induction operand generalizing i depth with
  | @laid scalars array laid =>
      have inside := (List.getElem?_eq_some_iff.mp found).1
      have positive := weight_pos laid.kind
      rw [show depth = depth - 1 + 1 by omega]
      exact ⟨_, laid.getElementDepth inside _, laid.stored i scalar found⟩
  | @concat first second left right type rest kind isRef _ operandLeft operandRight ihLeft ihRight =>
      have inside := (List.getElem?_eq_some_iff.mp found).1
      simp only [weight, Token.weight] at enough
      rw [show depth = depth - 1 + 1 by omega]
      have here : dereference (Token.head type (first ++ second).length (.concat left right) :: rest) =
          Token.head type (first ++ second).length (.concat left right) :: rest := dereference_array kind
      have bound : ¬ i ≥ (first ++ second).length := by omega
      simp only [Jitson.getElementDepth, here, lenOf_head, bound, if_false, typeOf_head, isRef, if_true, bodyOf_head]
      rw [operandLeft.len_eq]
      by_cases before : i < first.length
      · rw [if_pos before]
        rw [List.getElem?_append_left before] at found
        exact ihLeft found (depth - 1) (by omega)
      · rw [if_neg before]
        rw [List.getElem?_append_right (by omega)] at found
        exact ihRight found (depth - 1) (by omega)

theorem Operand.element (operand : Operand scalars array) {i : Nat} {scalar : Scalar}
    (found : scalars[i]? = some scalar) :
    ∃ element, arrayGetElement array i = some element ∧ Stored scalar element :=
  operand.getElementDepth found (weight array) (Nat.le_refl _)

/-! ## Searching -/

theorem Laid.tokens_uniform (laid : Laid scalars array) (uniform : (typeOf array).isUnif = true) {i : Nat}
    (inside : i < scalars.length) :
    (⟨array.drop 1, uniformSize array * i⟩ : Address Token).tokens 16 = elementAt array i := by
  rcases laid.uniform uniform with ⟨tokens, width, sizes⟩
  have some : scalars ≠ [] := List.ne_nil_of_length_pos (by omega)
  rw [Address.tokens, width some, Nat.mul_assoc, Nat.mul_div_cancel_left _ (by omega), List.drop_drop, elementAt,
    offsetAt_uniform sizes i (by omega)]

theorem Laid.tokens_index (laid : Laid scalars array) (plain : (typeOf array).isUnif = false) {i : Nat}
    (inside : i < scalars.length) :
    (indexedArray array).drop (((⟨indexOf (indexedArray array), 4 * i⟩ : Address Nat).tokens 4).headD 0) =
      elementAt array i := by
  have entry : ((⟨indexOf (indexedArray array), 4 * i⟩ : Address Nat).tokens 4).headD 0 = offsetAt array i := by
    rw [Address.tokens, Nat.mul_div_cancel_left _ (by omega), List.headD_eq_head?_getD, List.head?_drop,
      ← List.getD_eq_getElem?_getD]
    exact laid.index_getD plain inside
  rw [entry, drop_indexedArray laid.kind (offsetAt_pos array i), elementAt]

def rankAt (scalars : List Scalar) (i : Nat) : List Nat := (scalars[i]?.map Scalar.rank).getD []

theorem rankAt_eq {i : Nat} {scalar : Scalar} (found : scalars[i]? = some scalar) :
    rankAt scalars i = scalar.rank := by
  rw [rankAt, found]
  rfl

theorem nonDecreasing_rankAt (sorted : scalars.Pairwise fun first second => first.rank ≤ second.rank) :
    NonDecreasing (rankAt scalars) scalars.length := by
  intro i j less inside
  rw [rankAt_eq (List.getElem?_eq_getElem (Nat.lt_trans less inside)), rankAt_eq (List.getElem?_eq_getElem inside)]
  exact List.pairwise_iff_getElem.mp sorted i j _ inside less

theorem exists_rankAt_iff (scalar : Scalar) :
    (∃ j, j < scalars.length ∧ rankAt scalars j = scalar.rank) ↔ scalar ∈ scalars := by
  constructor
  · rintro ⟨j, inside, same⟩
    rw [rankAt_eq (List.getElem?_eq_getElem inside)] at same
    exact Scalar.rank_injective same ▸ List.getElem_mem inside
  · intro member
    rcases List.getElem?_of_mem member with ⟨j, found⟩
    exact ⟨j, (List.getElem?_eq_some_iff.mp found).1, rankAt_eq found⟩

variable {scalar : Scalar} {left : Pointer} (env : Env)

theorem Laid.agrees (laid : Laid scalars array) (stored : Stored scalar left)
    (same : ∀ other ∈ scalars, other.kind = scalar.kind) {i : Nat} (inside : i < scalars.length) :
    Agrees (cmp env.ops left (elementAt array i)) scalar.rank (rankAt scalars i) := by
  have found := List.getElem?_eq_getElem inside
  rw [rankAt_eq found]
  exact stored.cmp_agrees env.ops (laid.stored i _ found) (same _ (List.getElem_mem inside)).symm

theorem Laid.findKey_uniform (laid : Laid scalars array) (ordered : (typeOf array).isOrd = true)
    (uniform : (typeOf array).isUnif = true) (stored : Stored scalar left)
    (same : ∀ other ∈ scalars, other.kind = scalar.kind) :
    ∃ pos matched, KitSortedArray.findKey (elementClass env (uniformSize array)) ⟨array.drop 1, 0⟩ (lenOf array)
      ⟨left, 0⟩ = some (pos, matched) ∧ (matched = true ↔ scalar ∈ scalars) := by
  have agrees : ∀ i, i < scalars.length → Agrees ((elementClass env (uniformSize array)).cmp ⟨left, 0⟩
      (KitSortedArray.Pointer.advance ⟨array.drop 1, 0⟩ (uniformSize array * i + 0))) scalar.rank
      (rankAt scalars i) := by
    intro i inside
    have element := laid.tokens_uniform uniform inside
    simp only [elementClass, KitSortedArray.Pointer.advance, Nat.zero_add, Nat.add_zero, element, Address.tokens_zero]
    exact laid.agrees env stored same inside
  rw [laid.len]
  rcases findKey_located (nonDecreasing_rankAt (laid.ordered ordered)) agrees with ⟨pos, matched, found, located⟩
  exact ⟨pos, matched, found, located.matched_iff.trans (exists_rankAt_iff scalar)⟩

theorem Laid.findKey_index (laid : Laid scalars array) (ordered : (typeOf array).isOrd = true)
    (plain : (typeOf array).isUnif = false) (stored : Stored scalar left)
    (same : ∀ other ∈ scalars, other.kind = scalar.kind) :
    ∃ pos matched, KitSortedArray.findKey (indexClass env (indexedArray array)) ⟨indexOf (indexedArray array), 0⟩
      (lenOf (indexedArray array)) ⟨left, 0⟩ = some (pos, matched) ∧ (matched = true ↔ scalar ∈ scalars) := by
  have agrees : ∀ i, i < scalars.length → Agrees ((indexClass env (indexedArray array)).cmp ⟨left, 0⟩
      (KitSortedArray.Pointer.advance ⟨indexOf (indexedArray array), 0⟩ (4 * i + 0))) scalar.rank
      (rankAt scalars i) := by
    intro i inside
    have element := laid.tokens_index plain inside
    simp only [indexClass, KitSortedArray.Pointer.advance, Nat.zero_add, Nat.add_zero, element, Address.tokens_zero]
    exact laid.agrees env stored same inside
  rw [lenOf_indexedArray laid.kind, laid.len]
  rcases findKey_located (nonDecreasing_rankAt (laid.ordered ordered)) agrees with ⟨pos, matched, found, located⟩
  exact ⟨pos, matched, found, located.matched_iff.trans (exists_rankAt_iff scalar)⟩

/-! ## Inclusion -/

/-- A result of `IN` that says whether something is so. -/
def Found.Decides (found : Found) (claim : Prop) : Prop :=
  (claim ∧ ∃ pointer, found = .value pointer) ∨ (¬ claim ∧ found = .null)

theorem decides_matched {matched : Bool} {claim : Prop} (iff : matched = true ↔ claim) (pointer : Pointer) :
    Found.Decides (if matched = true then .value pointer else .null) claim := by
  by_cases hit : matched = true
  · rw [if_pos hit]
    exact Or.inl ⟨iff.mp hit, pointer, rfl⟩
  · rw [if_neg hit]
    exact Or.inr ⟨fun claimed => hit (iff.mpr claimed), rfl⟩

/-- The loop finds a scalar among the elements from an index on. -/
theorem Operand.inArrayLoop (operand : Operand scalars array) (stored : Stored scalar left)
    (same : ∀ other ∈ scalars, other.kind = scalar.kind) (nested : Pointer → Pointer → Found) (count i : Nat)
    (rest : i + count = scalars.length) :
    (inArrayLoop env nested left array count i).Decides (scalar ∈ scalars.drop i) := by
  induction count generalizing i with
  | zero =>
      rw [List.drop_of_length_le (by omega)]
      exact Or.inr ⟨List.not_mem_nil, rfl⟩
  | succ count ih =>
      have inside : i < scalars.length := by omega
      rcases operand.element (List.getElem?_eq_getElem inside) with ⟨element, found, storedElement⟩
      have type : getType left = getType element := by
        rw [stored.getType_eq, storedElement.getType_eq]
        exact (same _ (List.getElem_mem inside)).symm
      simp only [Jitson.inArrayLoop, found, type, if_true, stored.eq_eq env.ops storedElement,
        List.drop_eq_getElem_cons inside, List.mem_cons]
      by_cases equal : scalar = scalars[i]
      · rw [if_pos (by simp [equal])]
        exact Or.inl ⟨Or.inl equal, _, rfl⟩
      · rw [if_neg (by simp [equal])]
        simpa only [equal, false_or] using ih (i + 1) (by omega)

/-- `sxe_jitson_in_array` decides membership of a scalar in any array of such
scalars. -/
theorem Operand.inArray (operand : Operand scalars array) (stored : Stored scalar left)
    (same : ∀ other ∈ scalars, other.kind = scalar.kind) (nested : Pointer → Pointer → Found) :
    (inArray env nested left array).Decides (scalar ∈ scalars) := by
  rw [Jitson.inArray]
  by_cases empty : lenOf array = 0
  · rw [if_pos empty]
    rw [operand.len_eq] at empty
    rw [List.eq_nil_of_length_eq_zero empty]
    exact Or.inr ⟨List.not_mem_nil, rfl⟩
  · rw [if_neg empty]
    split
    · rename_i searched
      have laid := operand.laid_of_ordered searched.1
      by_cases uniform : (typeOf array).isUnif = true
      · rcases laid.findKey_uniform env searched.1 uniform stored same with ⟨pos, matched, found, iff⟩
        simp only [uniform, if_true, found]
        exact decides_matched iff _
      · have plain := Bool.not_eq_true _ ▸ uniform
        rcases laid.findKey_index env searched.1 plain stored same with ⟨pos, matched, found, iff⟩
        simp only [uniform, Bool.false_eq_true, if_false, found]
        exact decides_matched iff _
    · rw [operand.len_eq]
      simpa using operand.inArrayLoop env stored same nested scalars.length 0 (by omega)

theorem Operand.jitsonIn (operand : Operand scalars array) (stored : Stored scalar left)
    (same : ∀ other ∈ scalars, other.kind = scalar.kind) (sum : List UInt8 → Nat) :
    (jitsonIn env sum left array).Decides (scalar ∈ scalars) := by
  simp only [Jitson.jitsonIn, inDepth, dereference_array operand.kind_eq, operand.kind_eq, if_true]
  exact operand.inArray env (.here stored.dereference) same _

end

end Jitson
end LibKit
