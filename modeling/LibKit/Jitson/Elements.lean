import LibKit.Jitson.Sameness

namespace LibKit
namespace Jitson

/-!
# Where the elements of a value are

A function that follows pointers into a value is bounded by the number of tokens
that can be reached from it.  The elements of an array, and what a reference
refers to, are values of which fewer can be reached.
-/

section

variable {sum : List UInt8 → Nat} {tree : Json} {tokens : List Token}

theorem weight_append (first second : List Token) : weight (first ++ second) = weight first + weight second := by
  induction first with
  | nil => rw [List.nil_append, weight, Nat.zero_add]
  | cons token first ih => rw [List.cons_append, weight, weight, ih, Nat.add_assoc]

theorem weight_drop (tokens : List Token) (count : Nat) : weight (tokens.drop count) ≤ weight tokens := by
  have split := weight_append (tokens.take count) (tokens.drop count)
  rw [List.take_append_drop] at split
  omega

theorem weight_drop_lt (token : Token) (tokens : List Token) (count : Nat) :
    weight ((token :: tokens).drop (1 + count)) < weight (token :: tokens) := by
  have positive := token.weight_pos
  have less := weight_drop tokens count
  rw [Nat.add_comm, List.drop_succ_cons, weight]
  omega

theorem weight_target (type : TypeWord) (len : Nat) (target rest : List Token) :
    weight target < weight (.head type len (.jitref target) :: rest) := by
  rw [weight, Token.weight]
  omega

theorem weight_concat (type : TypeWord) (len : Nat) (first second rest : List Token) :
    weight first < weight (.head type len (.concat first second) :: rest) ∧
      weight second < weight (.head type len (.concat first second) :: rest) := by
  rw [weight, Token.weight]
  omega

theorem Represents.direct (represents : Represents sum tree tokens) :
    ∃ segment, Represents sum tree segment ∧ (typeOf segment).kind ≠ .reference ∧ ∀ rest, ∃ behind,
      dereference (tokens ++ rest) = segment ++ behind ∧ weight (segment ++ behind) ≤ weight (tokens ++ rest) := by
  by_cases isReference : (typeOf tokens).kind = .reference
  · cases represents with
    | @reference type len _ target targetRest isReference direct represents =>
        refine ⟨target, represents, direct, ?_⟩
        intro rest
        exact ⟨targetRest, dereference_reference isReference _ _ _, Nat.le_of_lt (weight_target _ _ _ _)⟩
    | null other => exact absurd (isReference.symm.trans other) (by decide)
    | bool other => exact absurd (isReference.symm.trans other) (by decide)
    | uint other => exact absurd (isReference.symm.trans other) (by decide)
    | number other => exact absurd (isReference.symm.trans other) (by decide)
    | string other => exact absurd (isReference.symm.trans other) (by decide)
    | referred other => exact absurd (isReference.symm.trans other) (by decide)
    | array other => exact absurd (isReference.symm.trans other) (by decide)
    | concat other => exact absurd (isReference.symm.trans other) (by decide)
    | object other => exact absurd (isReference.symm.trans other) (by decide)
  · refine ⟨tokens, represents, isReference, ?_⟩
    intro rest
    exact ⟨rest, dereference_direct (by rw [represents.typeOf_append]; exact isReference), Nat.le_refl _⟩

theorem Represents.dereferenced (represents : Represents sum tree tokens) (rest : List Token) :
    ∃ segment behind, dereference (tokens ++ rest) = segment ++ behind ∧ Represents sum tree segment ∧
      (typeOf (segment ++ behind)).kind = tree.kind ∧ weight (segment ++ behind) ≤ weight (tokens ++ rest) := by
  rcases represents.direct with ⟨segment, holds, -, finds⟩
  rcases finds rest with ⟨behind, same, light⟩
  refine ⟨segment, behind, same, holds, ?_, light⟩
  rw [← same]
  exact (represents.denotes rest).getType

theorem Represents.lenOf_array {elements : List Json} {tokens : List Token}
    (represents : Represents sum (.array elements) tokens)
    (isArray : (typeOf tokens).kind = .array) (rest : List Token) : lenOf (tokens ++ rest) = elements.length := by
  cases represents with
  | array kind notRef count each holds short => rfl
  | concat kind isRef leftArray rightArray left right => rfl
  | reference kind direct represents =>
      rw [typeOf_head, kind] at isArray
      cases isArray

/-- The elements of an array, each with fewer tokens behind it than the array. -/
theorem Represents.segments {elements : List Json} (represents : Represents sum (.array elements) tokens) :
    ∃ segments, List.Forall₂ (Represents sum) elements segments ∧ ∀ rest i segment, segments[i]? = some segment →
      ∃ behind, arrayGetElement (tokens ++ rest) i = some (segment ++ behind) ∧
        weight (segment ++ behind) < weight (tokens ++ rest) := by
  generalize isArray : Json.array elements = tree at represents
  induction represents generalizing elements with
  | @array type others segments body kind notRef count each holds short ih =>
      cases isArray
      refine ⟨segments, List.forall₂_iff_zip.mpr ⟨count.symm, fun inside => each _ inside⟩, ?_⟩
      intro rest i segment here
      have inside : i < others.length := count ▸ (List.getElem?_eq_some_iff.mp here).1
      have found := arrayGetElement_segment (by rw [kind]; decide) notRef count each holds rest inside
      refine ⟨(segments.drop (i + 1)).flatten ++ rest, ?_, ?_⟩
      · rw [List.cons_append, found, drop_segment here]
      · rw [← drop_segment here]
        exact weight_drop_lt _ _ _
  | @concat type first second left right leftRest rightRest kind isRef leftArray rightArray
      holdsLeft holdsRight ihLeft ihRight =>
      cases isArray
      rcases ihLeft rfl with ⟨lefts, leftEach, leftFound⟩
      rcases ihRight rfl with ⟨rights, rightEach, rightFound⟩
      refine ⟨lefts ++ rights, List.rel_append leftEach rightEach, ?_⟩
      intro rest i segment here
      have heavy := weight_concat type (first ++ second).length (left ++ leftRest) (right ++ rightRest) (.more :: rest)
      have inside : i < (first ++ second).length := by
        rw [List.length_append, leftEach.length_eq, rightEach.length_eq, ← List.length_append]
        exact (List.getElem?_eq_some_iff.mp here).1
      have len := holdsLeft.lenOf_array leftArray leftRest
      rw [leftEach.length_eq] at len
      by_cases isLeft : i < lefts.length
      · rw [List.getElem?_append_left isLeft] at here
        rcases leftFound leftRest i segment here with ⟨behind, found, lighter⟩
        refine ⟨behind, arrayGetElement_concat kind isRef inside ?_, Nat.lt_trans lighter heavy.1⟩
        rw [len, if_pos isLeft, found]
      · rw [List.getElem?_append_right (Nat.not_lt.mp isLeft)] at here
        rcases rightFound rightRest _ segment here with ⟨behind, found, lighter⟩
        refine ⟨behind, arrayGetElement_concat kind isRef inside ?_, Nat.lt_trans lighter heavy.2⟩
        rw [len, if_neg isLeft, found]
  | @reference type len _ target targetRest kind direct represents ih =>
      rcases ih isArray with ⟨segments, each, finds⟩
      refine ⟨segments, each, ?_⟩
      intro rest i segment here
      rcases finds targetRest i segment here with ⟨behind, found, lighter⟩
      refine ⟨behind, arrayGetElement_reference kind ?_ i found, Nat.lt_trans lighter (weight_target _ _ _ _)⟩
      rw [represents.typeOf_append]
      exact direct
  | _ => cases isArray

end

end Jitson
end LibKit
