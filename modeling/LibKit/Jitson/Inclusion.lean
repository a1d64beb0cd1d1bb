import LibKit.Jitson.Equality
import LibKit.Jitson.Operands

namespace LibKit
namespace Jitson

open KitSortedArray (Address ArrayClass NonDecreasing findKey_located)
open Stack (boolValue elementClass)

/-!
# Two ways to look for a value

`sxe_jitson_in_array` searches an ordered array of one type by halves, and any
other array from its start.  Where the values can be compared and have no NULs,
both find a value that is there.
-/

section

variable {sum : List UInt8 → Nat} {ops : FloatOps}

/-! ## Elements -/

theorem arrayGetElement_stored {array place : Pointer} {i : Nat} (direct : (typeOf array).kind ≠ .reference)
    (notRef : (typeOf array).isRef = false) (found : arrayGetElement array i = some place) :
    place = if (typeOf array).isUnif then array.drop (1 + uniformSize array / 16 * i)
      else (indexedArray array).drop ((indexOf (indexedArray array)).getD i 0) := by
  rw [arrayGetElement] at found
  cases bound : weight array with
  | zero =>
      rw [bound] at found
      cases found
  | succ depth =>
      rw [bound, getElementDepth] at found
      simp only [dereference_direct direct, notRef, Bool.false_eq_true, if_false] at found
      split at found
      · cases found
      · split at found
        · rename_i isUnif
          rw [if_pos isUnif]
          exact (Option.some.inj found).symm
        · rename_i notUnif
          rw [if_neg notUnif]
          exact (Option.some.inj found).symm

theorem Represents.uniformSize_tokens {elements : List Json} {tokens : List Token}
    (represents : Represents sum (.array elements) tokens) (isArray : (typeOf tokens).kind = .array)
    (notRef : (typeOf tokens).isRef = false) (isUnif : (typeOf tokens).isUnif = true) (some : elements ≠ [])
    (rest : List Token) : ∃ length, uniformSize (tokens ++ rest) = 16 * length := by
  cases represents with
  | @array type _ segments body kind notRef count each holds short =>
      cases holds with
      | plain notUnif => exact absurd (isUnif.symm.trans notUnif) (by decide)
      | @uniform _ length isUnif notIndexed same =>
          have nonempty : 0 < segments.length := count ▸ List.length_pos_iff.mpr some
          refine ⟨length, ?_⟩
          rw [← (same _ (List.getElem_mem nonempty)).2, count]
          rfl
      | indexed notUnif => exact absurd (isUnif.symm.trans notUnif) (by decide)
  | concat kind isRef => exact absurd (isRef.symm.trans notRef) (by decide)
  | reference kind direct represents =>
      rw [typeOf_head, kind] at isArray
      cases isArray

theorem Represents.element {elements : List Json} {tokens : List Token}
    (represents : Represents sum (.array elements) tokens)
    (rest : List Token) {i : Nat} {element : Json} (found : elements[i]? = some element) :
    ∃ place, arrayGetElement (tokens ++ rest) i = some place ∧ PointsTo sum element place := by
  rcases represents.segments with ⟨segments, each, finds⟩
  rcases getElem?_forall₂ each found with ⟨segment, isSegment, holds⟩
  rcases finds rest i segment isSegment with ⟨behind, isPlace, -⟩
  exact ⟨segment ++ behind, isPlace, segment, behind, rfl, holds⟩

/-! ## Searching -/

/-- A value that can be looked up among some elements: all have one type and no
comparison fails. -/
structure Findable (ops : FloatOps) (x : Json) (elements : List Json) : Prop where
  sortable : x.Sortable
  whole : x.cut = x
  elementSortable : ∀ element ∈ elements, element.Sortable
  elementWhole : ∀ element ∈ elements, element.cut = element
  kind : ∀ element ∈ elements, element.kind = x.kind
  compared : ∀ element ∈ elements, x.cmp ops element ≠ cmpError

def rankOf (elements : List Json) (i : Nat) : List Nat := (elements[i]?.map Json.rank).getD []

theorem rankOf_eq {elements : List Json} {i : Nat} {element : Json} (found : elements[i]? = some element) :
    rankOf elements i = element.rank := by
  rw [rankOf, found]
  rfl

/-- The ranks of ordered elements do not decrease. -/
theorem nonDecreasing_rankOf {elements : List Json} (sortable : ∀ element ∈ elements, element.Sortable)
    (sorted : elements.Pairwise fun first second => first.cmp ops second ≤ 0) :
      NonDecreasing (rankOf elements) elements.length := by
  intro i j less inside
  have least := List.pairwise_iff_getElem.mp sorted i j (Nat.lt_trans less inside) inside less
  have ok : elements[i].cmp ops elements[j] ≠ cmpError := fun fails => by
    rw [fails] at least
    exact absurd least (by decide)
  have agrees := (sortable _ (List.getElem_mem _)).agrees (sortable _ (List.getElem_mem _)) ok
  rw [rankOf_eq (List.getElem?_eq_getElem (Nat.lt_trans less inside)), rankOf_eq (List.getElem?_eq_getElem inside)]
  rcases Int.lt_or_eq_of_le least with below | same
  · exact le_of_lt (agrees.lt_iff.mp below)
  · exact le_of_eq (agrees.eq_iff.mp same)

variable {x : Json} {elements : List Json} {tokens rest : List Token} {left : Pointer}

theorem Findable.same_iff (findable : Findable ops x elements) {element : Json} (inside : element ∈ elements) :
    x.cmp ops element = 0 ↔ x = element := by
  rw [findable.sortable.cmp_eq_zero_iff (findable.elementSortable element inside), findable.whole,
    findable.elementWhole element inside]

theorem Findable.mem_iff (findable : Findable ops x elements) :
    (∃ j, j < elements.length ∧ rankOf elements j = x.rank) ↔ x ∈ elements := by
  have agrees : ∀ element ∈ elements, (x.cmp ops element = 0 ↔ x.rank = element.rank) := fun element inside =>
    (findable.sortable.agrees (findable.elementSortable element inside) (findable.compared element inside)).eq_iff
  constructor
  · rintro ⟨j, inside, same⟩
    rw [rankOf_eq (List.getElem?_eq_getElem inside)] at same
    have isElement := List.getElem_mem inside
    rw [(findable.same_iff isElement).mp ((agrees _ isElement).mpr same.symm)]
    exact isElement
  · intro member
    rcases List.getElem?_of_mem member with ⟨j, found⟩
    exact ⟨j, (List.getElem?_eq_some_iff.mp found).1, rankOf_eq found⟩

theorem Findable.findKey {Elem : Type} [KitSortedArray.Pointer Elem] (findable : Findable ops x elements)
    (sorted : elements.Pairwise fun first second => first.cmp ops second ≤ 0)
    {cls : ArrayClass (Address Token) Elem Unit} {array : Elem}
    (compares : ∀ i element, elements[i]? = some element →
      cls.cmp ⟨left, 0⟩ (KitSortedArray.Pointer.advance array (cls.size * i + cls.keyoffset)) = x.cmp ops element) :
    ∃ pos matched, KitSortedArray.findKey cls array elements.length ⟨left, 0⟩ = some (pos, matched) ∧
      (matched = true ↔ x ∈ elements) := by
  have agrees : ∀ i, i < elements.length → KitSortedArray.Agrees
      (cls.cmp ⟨left, 0⟩ (KitSortedArray.Pointer.advance array (cls.size * i + cls.keyoffset))) x.rank
      (rankOf elements i) := by
    intro i inside
    have found := List.getElem?_eq_getElem inside
    have isElement := List.getElem_mem inside
    rw [compares i _ found, rankOf_eq found]
    exact findable.sortable.agrees (findable.elementSortable _ isElement) (findable.compared _ isElement)
  rcases findKey_located (nonDecreasing_rankOf findable.elementSortable sorted) agrees with
    ⟨pos, matched, found, located⟩
  exact ⟨pos, matched, found, located.matched_iff.trans findable.mem_iff⟩

/-! ## Inclusion -/

/-- `sxe_jitson_in_array` returns `sxe_jitson_true` or `sxe_jitson_null`. -/
structure Found.Answers (found : Found) (claim : Prop) : Prop where
  isTrue : claim → found = .value [boolValue true]
  isNull : ¬ claim → found = .null

theorem answers_matched {matched : Bool} {claim : Prop} (iff : matched = true ↔ claim) :
    Found.Answers (if matched = true then .value [boolValue true] else .null) claim :=
  ⟨fun claimed => if_pos (iff.mpr claimed), fun denied => if_neg (mt iff.mp denied)⟩

/-- The loop over the elements from an index on. -/
theorem Findable.inArrayLoop (env : Env) (findable : Findable env.ops x elements)
    (represents : Represents sum (.array elements) tokens)
    (holds : PointsTo sum x left) (nested : Pointer → Pointer → Found) (count i : Nat)
    (all : i + count = elements.length) :
    (inArrayLoop env nested left (tokens ++ rest) count i).Answers (x ∈ elements.drop i) := by
  induction count generalizing i with
  | zero =>
      rw [List.drop_eq_nil_of_le (by omega)]
      exact ⟨fun member => absurd member List.not_mem_nil, fun _ => rfl⟩
  | succ count ih =>
      have inside : i < elements.length := by omega
      have isElement := List.getElem_mem inside
      have others := ih (i + 1) (by omega)
      rcases represents.element rest (List.getElem?_eq_getElem inside) with ⟨place, found, holds'⟩
      have type : getType left = getType place := by
        rw [holds.getType, holds'.getType, findable.kind _ isElement]
      have between := @PointsTo.eq_between env.ops sum _ _ _ _ findable.sortable
        (findable.elementSortable _ isElement) holds holds'
      rw [findable.whole, findable.elementWhole _ isElement] at between
      simp only [Jitson.inArrayLoop, found, type, if_true]
      rw [List.drop_eq_getElem_cons inside, List.mem_cons]
      by_cases equal : eq env.ops left place = some true
      · rw [if_pos equal]
        exact ⟨fun _ => rfl, fun denied => absurd (Or.inl (between.sound equal)) denied⟩
      · have differ : x ≠ elements[i] := fun same => equal (between.complete same)
        rw [if_neg equal]
        exact ⟨fun claimed => others.isTrue (claimed.resolve_left differ),
          fun denied => others.isNull fun later => denied (Or.inr later)⟩

/-- Both ways to look for a value find it if it is there. -/
theorem Findable.inArray (env : Env) (findable : Findable env.ops x elements)
    (represents : Represents sum (.array elements) tokens)
    (isArray : (typeOf tokens).kind = .array)
    (sorted : (typeOf tokens).isOrd = true → elements.Pairwise fun first second => first.cmp env.ops second ≤ 0)
    (holds : PointsTo sum x left) (nested : Pointer → Pointer → Found) :
    (inArray env nested left (tokens ++ rest)).Answers (x ∈ elements) := by
  have type : typeOf (tokens ++ rest) = typeOf tokens := represents.typeOf_append rest
  have len : lenOf (tokens ++ rest) = elements.length := represents.lenOf_array isArray rest
  have direct : (typeOf (tokens ++ rest)).kind ≠ .reference := by
    rw [type, isArray]
    decide
  unfold Jitson.inArray
  simp only [len, type]
  by_cases empty : elements.length = 0
  · rw [if_pos empty, List.eq_nil_of_length_eq_zero empty]
    exact ⟨fun member => absurd member List.not_mem_nil, fun _ => rfl⟩
  rw [if_neg empty]
  split
  · rename_i searched
    have notRef : (typeOf tokens).isRef = false := by
      cases represents with
      | array kind notRef => exact notRef
      | concat kind isRef =>
          -- behind the head of a concatenation there is no value
          have second : getType left = .invalid := searched.2.2
          rw [holds.getType] at second
          cases findable.sortable <;> cases second
      | reference kind => exact absurd (kind.symm.trans isArray) (by decide)
    have places : ∀ i element, elements[i]? = some element → ∃ place, PointsTo sum element place ∧
        place = if (typeOf tokens).isUnif then (tokens ++ rest).drop (1 + uniformSize (tokens ++ rest) / 16 * i)
          else (indexedArray (tokens ++ rest)).drop ((indexOf (indexedArray (tokens ++ rest))).getD i 0) := by
      intro i element found
      rcases represents.element rest found with ⟨place, isPlace, holds'⟩
      refine ⟨place, holds', ?_⟩
      rw [← type]
      exact arrayGetElement_stored direct (type ▸ notRef) isPlace
    cases isUnif : (typeOf tokens).isUnif with
    | true =>
        rcases represents.uniformSize_tokens isArray notRef isUnif (fun none => empty (by rw [none]; rfl)) rest with
          ⟨length, size⟩
        have compares : ∀ i element, elements[i]? = some element →
            (elementClass env (uniformSize (tokens ++ rest))).cmp ⟨left, 0⟩ (KitSortedArray.Pointer.advance
              ⟨(tokens ++ rest).drop 1, 0⟩ (uniformSize (tokens ++ rest) * i + 0)) = x.cmp env.ops element := by
          intro i element found
          rcases places i element found with ⟨place, holds', isPlace⟩
          rw [isUnif, if_pos rfl, size, Nat.mul_div_cancel_left _ (by decide)] at isPlace
          have here : (⟨(tokens ++ rest).drop 1, 0 + (uniformSize
            (tokens ++ rest) * i + 0)⟩ : Address Token).tokens 16 = place := by
            rw [Address.tokens, size, Nat.zero_add, Nat.add_zero, Nat.mul_assoc,
              Nat.mul_div_cancel_left _ (by decide), List.drop_drop,
              isPlace]
          rw [← holds.cmp_eq holds', ← here]
          simp only [elementClass, KitSortedArray.Pointer.advance, Address.tokens_zero]
        rcases findable.findKey (sorted searched.1) compares with ⟨pos, matched, found, iff⟩
        simp only [if_true, found]
        exact answers_matched iff
    | false =>
        have compares : ∀ i element, elements[i]? = some element →
            (indexClass env (indexedArray (tokens ++ rest))).cmp ⟨left, 0⟩ (KitSortedArray.Pointer.advance
              ⟨indexOf (indexedArray (tokens ++ rest)), 0⟩ (4 * i + 0)) = x.cmp env.ops element := by
          intro i element found
          rcases places i element found with ⟨place, holds', isPlace⟩
          rw [isUnif, if_neg Bool.false_ne_true] at isPlace
          have entry : ((⟨indexOf (indexedArray (tokens ++ rest)), 0 + (4 * i + 0)⟩ : Address Nat).tokens 4).headD 0 =
              (indexOf (indexedArray (tokens ++ rest))).getD i 0 := by
            rw [Address.tokens, Nat.zero_add, Nat.add_zero, Nat.mul_div_cancel_left _ (by decide),
              List.headD_eq_head?_getD,
              List.head?_drop, List.getD_eq_getElem?_getD]
          rw [← holds.cmp_eq holds', isPlace, ← entry]
          simp only [indexClass, KitSortedArray.Pointer.advance, Address.tokens_zero]
        rcases findable.findKey (sorted searched.1) compares with ⟨pos, matched, found, iff⟩
        simp only [Bool.false_eq_true, if_false, lenOf_indexedArray (type ▸ isArray), len, found]
        exact answers_matched iff
  · have loop := @Findable.inArrayLoop sum x elements tokens rest left env findable represents holds nested elements.length 0
      (Nat.zero_add _)
    rw [List.drop_zero] at loop
    exact loop

/-- `sxe_jitson_in_array` finds a value that can be compared if an element is
equal to it, whatever the flags of the array and its form. -/
theorem in_array_iff (env : Env) (sum : List UInt8 → Nat) {x : Json} {elements : List Json} {tokens : List Token}
    {left : Pointer}
    (findable : Findable env.ops x elements) (represents : Represents sum (.array elements) tokens)
    (isArray : (typeOf tokens).kind = .array)
    (ordered : (typeOf tokens).isOrd = true → elements.Pairwise fun first second => first.cmp env.ops second ≤ 0)
    (holds : PointsTo sum x left) (nested : Pointer → Pointer → Found) (rest : List Token) :
    (inArray env nested left (tokens ++ rest)).Answers
        (∃ i place, arrayGetElement (tokens ++ rest) i = some place ∧ eq env.ops left place = some true) ∧
      ∀ others more, Represents sum (.array elements) others → typeOf others = { kind := .array } →
        inArray env nested left (tokens ++ rest) = inArray env nested left (others ++ more) := by
  have answers := @Findable.inArray sum x elements tokens rest left env findable represents isArray ordered holds nested
  have member : (∃ i place, arrayGetElement (tokens ++ rest) i = some place ∧ eq env.ops left place = some true) ↔
    x ∈ elements := by
    have between : ∀ element ∈ elements, ∀ place, PointsTo sum element place →
      (eq env.ops left place = some true ↔ x = element) := by
      intro element inside place holds'
      have between := @PointsTo.eq_between env.ops sum _ _ _ _ findable.sortable
        (findable.elementSortable _ inside) holds holds'
      rw [findable.whole, findable.elementWhole _ inside] at between
      exact ⟨between.sound, between.complete⟩
    constructor
    · rintro ⟨i, place, found, equal⟩
      have inside : i < elements.length := by
        by_contra outside
        rw [arrayGetElement_out] at found
        · cases found
        · have len := represents.lenOf_array isArray rest
          rw [dereference_direct (by rw [represents.typeOf_append, isArray]; decide), len]
          exact Nat.not_lt.mp outside
      rcases represents.element rest (List.getElem?_eq_getElem inside) with ⟨place', found', holds'⟩
      cases found.symm.trans found'
      rw [(between _ (List.getElem_mem inside) place holds').mp equal]
      exact List.getElem_mem inside
    · intro member
      rcases List.getElem?_of_mem member with ⟨i, isElement⟩
      rcases represents.element rest isElement with ⟨place, found, holds'⟩
      exact ⟨i, place, found, (between x member place holds').mpr rfl⟩
  refine ⟨⟨fun claimed => answers.isTrue (member.mp claimed), fun denied => answers.isNull (mt member.mpr denied)⟩, ?_⟩
  intro others more represents' cleared
  have unordered : (typeOf others).isOrd = true → elements.Pairwise fun first second =>
    first.cmp env.ops second ≤ 0 := by
    rw [cleared]
    exact fun impossible => by cases impossible
  have answers' := @Findable.inArray sum x elements others more left env findable represents'
    (by rw [cleared]) unordered holds nested
  by_cases inside : x ∈ elements
  · rw [answers.isTrue inside, answers'.isTrue inside]
  · rw [answers.isNull inside, answers'.isNull inside]

/-- The number 2 in the ordered array `[1, 2]`. -/
theorem in_array_iff_two :
    (inArray numberEnv (fun _ _ => .error) [Stack.makeUint 2]
      ([.head { kind := .array, isHomo := true, isUnif := true, isOrd := true } 2 (.uniform 16), Stack.makeUint 1,
        Stack.makeUint 2] ++
        [])).Answers (∃ i place, arrayGetElement ([.head
        { kind := .array, isHomo := true, isUnif := true, isOrd := true } 2 (.uniform 16),
          Stack.makeUint 1, Stack.makeUint 2] ++ []) i = some place ∧
            eq numberEnv.ops [Stack.makeUint 2] place = some true) ∧
      ∀ others more, Represents List.length (.array [.uint 1, .uint 2]) others → typeOf others = { kind := .array } →
        inArray numberEnv (fun _ _ => .error) [Stack.makeUint 2]
          ([.head { kind := .array, isHomo := true, isUnif := true, isOrd := true }
          2 (.uniform 16), Stack.makeUint 1, Stack.makeUint 2] ++ []) =
          inArray numberEnv (fun _ _ => .error) [Stack.makeUint 2] (others ++ more) := by
  have one : Represents List.length (.uint 1) [Stack.makeUint 1] := .uint rfl rfl
  have two : Represents List.length (.uint 2) [Stack.makeUint 2] := .uint rfl rfl
  have findable : Findable numberEnv.ops (.uint 2) [.uint 1, .uint 2] := by
    refine ⟨.uint 2, rfl, ?_, ?_, ?_, ?_⟩
    · simp [Json.Sortable.uint]
    · simp [Json.cut]
    · simp [Json.kind]
    · simp only [List.forall_mem_cons]
      decide
  refine in_array_iff numberEnv List.length findable (@Represents.array List.length _ [.uint 1, .uint 2]
    [[Stack.makeUint 1], [Stack.makeUint 2]] (.uniform 16) rfl rfl rfl ?_ (@ArrayBody.uniform _ _ _ 1 rfl rfl ?_)
    (by decide)) rfl ?_
    ⟨_, [], rfl, two⟩ (fun _ _ => .error) []
  · simp [one, two]
  · simp [uniformSize, Stack.makeUint]
  · intro _
    simp only [List.pairwise_cons]
    simp [Json.cmp_uint, Comparison.ordered]

end

end Jitson
end LibKit
