import LibKit.Jitson.Intersect
import LibKit.Jitson.Comparing
import LibKit.KitSortedArray.Search

namespace LibKit
namespace Jitson

open KitSortedArray (Address)
open Stack (elementClass)

/-!
# Values in other surroundings

What is behind the tokens of a value does not matter to the functions that
compare it, nor does the bound on their recursion if it is large enough.
-/

section

variable {sum : List UInt8 → Nat} {ops : FloatOps} {tree : Json} {tokens : List Token}

/-! ## Fields and elements -/

structure SameFields (pointer other : Pointer) : Prop where
  type : typeOf other = typeOf pointer
  len : lenOf other = lenOf pointer
  body : bodyOf other = bodyOf pointer

theorem Represents.fields (represents : Represents sum tree tokens) (rest rest' : List Token) :
    SameFields (tokens ++ rest) (tokens ++ rest') := by
  rcases represents.nonempty with ⟨token, others, rfl⟩
  cases token with
  | head type len body => exact ⟨rfl, rfl, rfl⟩
  | more => exact ⟨rfl, rfl, rfl⟩

theorem PointsTo.dereference_twice {pointer : Pointer} (holds : PointsTo sum tree pointer) :
    dereference (dereference pointer) = dereference pointer := by
  apply dereference_direct
  have kind : (typeOf (dereference pointer)).kind = tree.kind := holds.getType
  rw [kind]
  cases tree <;> exact fun impossible => by cases impossible

theorem Represents.elements_moved {elements : List Json} (represents : Represents sum (.array elements) tokens)
    (direct : (typeOf tokens).kind ≠ .reference) (rest rest' : List Token) (i : Nat) :
    (arrayGetElement (tokens ++ rest) i = none ∧ arrayGetElement (tokens ++ rest') i = none) ∨
      ∃ element segment behind behind', element ∈ elements ∧ Represents sum element segment ∧
        arrayGetElement (tokens ++ rest) i = some (segment ++ behind) ∧
          weight (segment ++ behind) < weight (tokens ++ rest) ∧
        arrayGetElement (tokens ++ rest') i = some (segment ++ behind') ∧
          weight (segment ++ behind') < weight (tokens ++ rest') := by
  cases found : elements[i]? with
  | some element =>
      rcases represents.segments with ⟨segments, each, finds⟩
      rcases getElem?_forall₂ each found with ⟨segment, isSegment, holds⟩
      rcases finds rest i segment isSegment with ⟨behind, isPlace, lighter⟩
      rcases finds rest' i segment isSegment with ⟨behind', isPlace', lighter'⟩
      exact Or.inr ⟨element, segment, behind, behind', List.mem_of_getElem? found, holds, isPlace, lighter,
        isPlace', lighter'⟩
  | none =>
      have kind : (typeOf tokens).kind = .array := by
        have type := (represents.denotes []).getType
        rw [getType, dereference_direct (by rw [represents.typeOf_append]; exact direct),
          represents.typeOf_append] at type
        exact type
      have outside : ∀ more, arrayGetElement (tokens ++ more) i = none := by
        intro more
        apply arrayGetElement_out
        rw [dereference_direct (by rw [represents.typeOf_append]; exact direct), represents.lenOf_array kind]
        exact List.getElem?_eq_none_iff.mp found
      exact Or.inl ⟨outside rest, outside rest'⟩

theorem PointsTo.dereferenced {pointer : Pointer} (holds : PointsTo sum tree pointer) :
    PointsTo sum tree (dereference pointer) := by
  rcases holds with ⟨tokens, rest, rfl, represents⟩
  rcases represents.dereferenced rest with ⟨segment, behind, here, represents', -⟩
  exact ⟨segment, behind, here, represents'⟩

theorem PointsTo.element_of {elements : List Json} {pointer element : Pointer} {i : Nat}
    (holds : PointsTo sum (.array elements) pointer)
    (direct : (typeOf pointer).kind ≠ .reference) (found : arrayGetElement pointer i = some element) :
    ∃ value ∈ elements, PointsTo sum value element := by
  rcases holds with ⟨tokens, rest, rfl, represents⟩
  rw [represents.typeOf_append] at direct
  rcases represents.elements_moved direct rest rest i with
    ⟨out, -⟩ | ⟨value, segment, behind, -, inside, holds, isPlace, -⟩
  · cases found.symm.trans out
  · cases found.symm.trans isPlace
    exact ⟨value, inside, segment, behind, rfl, holds⟩

theorem Represents.dereferenced_both (represents : Represents sum tree tokens) (rest rest' : List Token) :
    ∃ segment behind behind', Represents sum tree segment ∧ (typeOf segment).kind ≠ .reference ∧
      dereference (tokens ++ rest) = segment ++ behind ∧ weight (segment ++ behind) ≤ weight (tokens ++ rest) ∧
      dereference (tokens ++ rest') = segment ++ behind' ∧ weight (segment ++ behind') ≤ weight (tokens ++ rest') ∧
      SameFields (segment ++ behind) (segment ++ behind') := by
  rcases represents.direct with ⟨segment, holds, direct, finds⟩
  rcases finds rest with ⟨behind, isLeft, light⟩
  rcases finds rest' with ⟨behind', isLeft', light'⟩
  exact ⟨segment, behind, behind', holds, direct, isLeft, light, isLeft', light', holds.fields behind behind'⟩

/-! ## Scalars -/

theorem SameFields.numberCmp_left {left left' : Pointer} (same : SameFields left left') (right : Pointer) :
    numberCmp ops left' right = numberCmp ops left right := by
  unfold numberCmp integerOf numberOf
  rw [same.type, same.body]

theorem SameFields.bytesOf {pointer other : Pointer} (same : SameFields pointer other) :
    bytesOf other = bytesOf pointer := by
  unfold Jitson.bytesOf
  rw [same.body]

theorem SameFields.boolOf {pointer other : Pointer} (same : SameFields pointer other) :
    boolOf other = boolOf pointer := by
  unfold Jitson.boolOf
  rw [same.body]

/-! ## Arrays -/

/-- The places of an element in two arrays, if there is one. -/
def Places (related : Pointer → Pointer → Prop) (array array' : Pointer) (i : Nat) : Prop :=
  (arrayGetElement array i = none ∧ arrayGetElement array' i = none) ∨
    ∃ place place', arrayGetElement array i = some place ∧ arrayGetElement array' i = some place' ∧ related place place'

/-- A relation between pointers to a value in two surroundings, which holds of
scalars with the same fields, and of arrays if it holds of their elements. -/
theorem Represents.moved {related : Nat → Nat → Pointer → Pointer → Prop}
    (scalar : ∀ depth depth' pointer pointer', SameFields (dereference pointer) (dereference pointer') →
      (typeOf (dereference pointer)).kind ∉ [.array, .range] → related (depth + 1) (depth' + 1) pointer pointer')
    (array : ∀ depth depth' pointer pointer', SameFields (dereference pointer) (dereference pointer') →
      (typeOf (dereference pointer)).kind = .array →
      (∀ i, Places (related depth depth') (dereference pointer) (dereference pointer') i) →
        related (depth + 1) (depth' + 1) pointer pointer')
    (represents : Represents sum tree tokens) (rest rest' : List Token) {depth depth' : Nat}
    (enough : weight (tokens ++ rest) < depth)
    (enough' : weight (tokens ++ rest') < depth') : related depth depth' (tokens ++ rest) (tokens ++ rest') := by
  induction depth generalizing tree tokens rest rest' depth' with
  | zero => exact absurd enough (Nat.not_lt_zero _)
  | succ depth ih =>
      rcases depth' with _ | depth'
      · exact absurd enough' (Nat.not_lt_zero _)
      rcases represents.dereferenced_both rest rest' with
        ⟨segment, behind, behind', holds, direct, here, light, here', light', same⟩
      have type : (typeOf (segment ++ behind)).kind = tree.kind := here ▸ (represents.denotes rest).getType
      by_cases isArray : tree.kind = .array
      · cases tree with
        | array elements =>
            apply array depth depth' _ _ (by rw [here, here']; exact same) (by rw [here]; exact type)
            intro i
            rw [here, here']
            rcases holds.elements_moved direct behind behind' i with
              out | ⟨element, place, more, more', inside, holds', found, lighter, found', lighter'⟩
            · exact Or.inl out
            · exact Or.inr ⟨_, _, found, found', ih holds' more more' (by omega) (by omega)⟩
        | _ => cases isArray
      · apply scalar depth depth' _ _ (by rw [here, here']; exact same)
        rw [here, type]
        cases tree with
        | array elements => exact absurd rfl isArray
        | _ => simp [Json.kind]

/-! ## Loops -/

theorem arrayCmpLoop_congr {compare compare' : Pointer → Pointer → Int} {left left' right : Pointer}
    (same : ∀ i, Places (fun first first' => ∀ second, compare first second = compare' first' second) left left' i)
    (count i : Nat) :
    arrayCmpLoop compare left right count i = arrayCmpLoop compare' left' right count i := by
  induction count generalizing i with
  | zero => rfl
  | succ count ih =>
      rw [arrayCmpLoop, arrayCmpLoop, ih]
      rcases same i with ⟨out, out'⟩ | ⟨first, first', found, found', alike⟩
      · rw [out, out']
      · rw [found, found']
        cases arrayGetElement right i with
        | none => rfl
        | some second => simp only [alike]

theorem arrayEqLoop_congr {equal equal' : Pointer → Pointer → Option Bool} {left left' right : Pointer}
    (same : ∀ i, Places (fun first first' => ∀ second, equal first second = equal' first' second) left left' i)
      (count i : Nat) :
    arrayEqLoop equal left right count i = arrayEqLoop equal' left' right count i := by
  induction count generalizing i with
  | zero => rfl
  | succ count ih =>
      rw [arrayEqLoop, arrayEqLoop, ih]
      rcases same i with ⟨out, out'⟩ | ⟨first, first', found, found', alike⟩
      · rw [out, out']
      · rw [found, found']
        cases arrayGetElement right i with
        | none => rfl
        | some second => simp only [alike]

/-! ## Comparisons -/

theorem Represents.cmpDepth_moved (represents : Represents sum tree tokens) (rest rest' : List Token)
    {depth depth' : Nat}
    (enough : weight (tokens ++ rest) < depth) (enough' : weight (tokens ++ rest') < depth') (right : Pointer) :
    cmpDepth ops depth (tokens ++ rest) right = cmpDepth ops depth' (tokens ++ rest') right := by
  revert right
  refine @Represents.moved sum tree tokens
    (fun depth depth' left left' => ∀ right, cmpDepth ops depth left right = cmpDepth ops depth' left' right)
    ?_ ?_ represents rest rest' depth depth' enough enough'
  · intro depth depth' left left' same notArray right
    rw [cmpDepth, cmpDepth]
    rw [same.type, same.numberCmp_left, stringCmp, stringCmp, same.bytesOf]
    cases kind : (typeOf (dereference left)).kind with
    | array => simp [kind] at notArray
    | _ => rfl
  · intro depth depth' left left' same isArray places right
    rw [cmpDepth, cmpDepth]
    simp only [same.type, same.len, isArray]
    apply if_congr Iff.rfl rfl
    exact arrayCmpLoop_congr places _ _

theorem Represents.eqDepth_moved (represents : Represents sum tree tokens) (rest rest' : List Token)
    {depth depth' : Nat}
    (enough : weight (tokens ++ rest) < depth) (enough' : weight (tokens ++ rest') < depth') (right : Pointer) :
    eqDepth ops depth (tokens ++ rest) right = eqDepth ops depth' (tokens ++ rest') right := by
  revert right
  refine @Represents.moved sum tree tokens
    (fun depth depth' left left' => ∀ right, eqDepth ops depth left right = eqDepth ops depth' left' right)
    ?_ ?_ represents rest rest' depth depth' enough enough'
  · intro depth depth' left left' same notArray right
    rw [eqDepth, eqDepth]
    rw [same.type, same.numberCmp_left, stringEq, stringEq, same.bytesOf, same.boolOf, same.len]
    cases kind : (typeOf (dereference left)).kind with
    | array => simp [kind] at notArray
    | range => simp [kind] at notArray
    | _ => rfl
  · intro depth depth' left left' same isArray places right
    rw [eqDepth, eqDepth]
    simp only [same.type, same.len, isArray]
    apply if_congr Iff.rfl rfl
    apply if_congr Iff.rfl rfl
    exact arrayEqLoop_congr places _ _

/-! ## References -/

theorem PointsTo.cmp_dereference {left : Pointer} (holds : PointsTo sum tree left) (right : Pointer) :
    cmp ops (dereference left) right = cmp ops left right := by
  have twice := holds.dereference_twice
  rcases holds with ⟨tokens, rest, rfl, represents⟩
  rcases represents.dereferenced rest with ⟨segment, behind, here, represents', -, light⟩
  calc cmpDepth ops (weight (dereference (tokens ++ rest)) + 1) (dereference (tokens ++ rest)) right
    _ = cmpDepth ops (weight (tokens ++ rest) + 1) (dereference (tokens ++ rest)) right := by
        rw [here]
        exact represents'.cmpDepth_moved behind behind (Nat.lt_succ_self _) (Nat.lt_succ_of_le light) right
    _ = cmpDepth ops (weight (tokens ++ rest) + 1) (tokens ++ rest) right := by rw [cmpDepth, cmpDepth, twice]

theorem PointsTo.eq_dereference {left : Pointer} (holds : PointsTo sum tree left) (right : Pointer) :
    eq ops (dereference left) right = eq ops left right := by
  have twice := holds.dereference_twice
  rcases holds with ⟨tokens, rest, rfl, represents⟩
  rcases represents.dereferenced rest with ⟨segment, behind, here, represents', -, light⟩
  calc eqDepth ops (weight (dereference (tokens ++ rest)) + 1) (dereference (tokens ++ rest)) right
    _ = eqDepth ops (weight (tokens ++ rest) + 1) (dereference (tokens ++ rest)) right := by
        rw [here]
        exact represents'.eqDepth_moved behind behind (Nat.lt_succ_self _) (Nat.lt_succ_of_le light) right
    _ = eqDepth ops (weight (tokens ++ rest) + 1) (tokens ++ rest) right := by rw [eqDepth, eqDepth, twice]

theorem PointsTo.inDepth_dereference {env : Env} {left : Pointer} (holds : PointsTo sum tree left) (depth : Nat)
    (right : Pointer) :
    inDepth env sum depth (dereference left) right = inDepth env sum depth left right := by
  cases depth with
  | zero => rfl
  | succ depth => rw [inDepth, inDepth, holds.dereference_twice]

theorem PointsTo.inArray_dereference {env : Env} {left : Pointer} (holds : PointsTo sum tree left) (depth : Nat)
    (right : Pointer) :
    inArray env (inDepth env sum depth) (dereference left) right = inArray env (inDepth env sum depth) left right := by
  have type : Jitson.getType (dereference left) = Jitson.getType left := by
    rw [Jitson.getType, Jitson.getType, holds.dereference_twice]
  have loop : ∀ count i, inArrayLoop env (inDepth env sum depth) (dereference left) right count i =
      inArrayLoop env (inDepth env sum depth) left right count i := by
    intro count
    induction count with
    | zero => exact fun _ => rfl
    | succ count ih =>
        intro i
        rw [inArrayLoop, inArrayLoop]
        cases arrayGetElement right i with
        | none => rfl
        | some element => simp only [type, holds.eq_dereference, holds.inDepth_dereference, ih]
  unfold inArray
  simp only [type, loop]
  have uniform : ∀ element, (elementClass env (uniformSize right)).cmp ⟨dereference left, 0⟩ element =
      (elementClass env (uniformSize right)).cmp ⟨left, 0⟩ element := by
    intro element
    simp only [elementClass, Address.tokens_zero, holds.cmp_dereference]
  have indexed : ∀ element, (indexClass env (indexedArray right)).cmp ⟨dereference left, 0⟩ element =
      (indexClass env (indexedArray right)).cmp ⟨left, 0⟩ element := by
    intro element
    simp only [indexClass, Address.tokens_zero, holds.cmp_dereference]
  rw [KitSortedArray.findKey_congr uniform, KitSortedArray.findKey_congr indexed]

end

end Jitson
end LibKit
