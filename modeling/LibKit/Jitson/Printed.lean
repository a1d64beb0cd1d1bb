import LibKit.Jitson.Printing

namespace LibKit
namespace Jitson

open Grouping

/-!
# The text of a value

All values that represent a tree are written as the same text, in which the
members of objects are in the order of their buckets.
-/

section

variable {format : UInt64 → List UInt8} {sum : List UInt8 → Nat}

theorem mapM_some {α β γ : Type} {f : β → Option γ} {h : α → β} {g : α → γ} {list : List α}
    (each : ∀ element ∈ list, f (h element) = some (g element)) : (list.map h).mapM f = some (list.map g) := by
  induction list with
  | nil => rfl
  | cons element list ih =>
      rw [List.map_cons, List.mapM_cons, each element List.mem_cons_self,
        ih fun other inside => each other (List.mem_cons_of_mem _ inside)]
      rfl

/-! ## Members -/

/-- Following the links of a bucket leads to its members, the last of them
first. -/
theorem chain_eq {len : Nat} {object : Pointer} {entered : List (Nat × Member)}
    (threaded : Threaded sum len object entered)
    (bucket : Nat) {fuel : Nat} (enough : entered.length ≤ fuel) :
    chain object fuel (latest sum len bucket entered) =
      ((entered.filter fun entry => sum entry.2.name % len = bucket).reverse).map Prod.fst := by
  induction entered using List.reverseRecOn generalizing fuel with
  | nil =>
      rcases fuel with _ | fuel
      · rfl
      · exact if_pos rfl
  | append_singleton before entry ih =>
      rcases entry with ⟨offset, member⟩
      rw [List.length_append, List.length_singleton] at enough
      rw [latest_concat, List.filter_append, List.reverse_append]
      by_cases here : sum member.name % len = bucket
      · rw [if_pos here, List.filter_cons_of_pos (by simp [here]), List.filter_nil]
        rcases threaded before offset member [] rfl with ⟨positive, rest, found⟩
        rcases fuel with _ | fuel
        · omega
        · have others := @ih threaded.left fuel (by omega)
          rw [here] at found
          rw [chain, if_neg (Nat.ne_of_gt positive), found, (member.fields _ rest).2.2, others]
          rfl
      · rw [if_neg here, List.filter_cons_of_neg (by simp [here]), List.filter_nil]
        exact ih threaded.left (by omega)

theorem indexedObject_shape {type : TypeWord} {entries : List Member}
    {body : Body (List Token)} {links : List (Nat × Member)}
    (kind : type.kind = .object) (clean : ∀ entry ∈ entries, 0 ∉ entry.name) (walkable : Walkable entries)
    (holds : ObjectBody sum entries type body links) (rest : List Token) :
    ∃ type' buckets total, type'.kind = .object ∧ Buckets sum entries.length buckets (placed 1 entries) ∧
      indexedObject sum (.head type entries.length body :: (laid links ++ rest)) =
        .head type' entries.length (.index (buckets ++ [total])) ::
          (laid (linked sum entries.length [] (placed 1 entries)) ++ rest) := by
  cases holds with
  | plain notIndexed =>
      rcases @indexObject_eq sum entries type ((laid (fresh entries)).length + 1) rest clean walkable with
        ⟨buckets, indexing, holds⟩
      refine ⟨{ type with isOwn := true }, buckets, ((laid (fresh entries)).length + 1) % 2 ^ 32, kind, holds, ?_⟩
      rw [indexedObject, typeOf_head, TypeWord.indexed, notIndexed, if_neg Bool.false_ne_true, indexing]
  | @indexed buckets isIndexed holds =>
      refine ⟨type, buckets, (laid (fresh entries)).length + 1, kind, holds, ?_⟩
      rw [indexedObject, typeOf_head, TypeWord.indexed, isIndexed, if_pos rfl]

theorem memberOffsets_eq {type : TypeWord} {entries : List Member} {buckets : List Nat} {total : Nat}
    {rest : List Token}
    (holds : Buckets sum entries.length buckets (placed 1 entries))
    (threaded : Threaded sum entries.length (.head type entries.length (.index (buckets ++ [total])) :: rest)
    (placed 1 entries)) :
    memberOffsets (.head type entries.length (.index (buckets ++ [total])) :: rest) =
      (grouped (fun entry => sum entry.2.name % entries.length) entries.length (placed 1 entries)).map Prod.fst := by
  rw [memberOffsets, grouped, List.map_flatMap, lenOf_head]
  apply List.flatMap_congr
  intro bucket inside
  rw [List.mem_range] at inside
  have first : (indexOf (.head type entries.length (.index (buckets ++ [total])) :: rest)).getD bucket 0 =
      latest sum entries.length bucket (placed 1 entries) := by
    rw [← holds.each bucket inside]
    change (buckets ++ [total]).getD bucket 0 = _
    rw [List.getD_append _ _ _ _ (holds.length ▸ inside)]
  rw [first, chain_eq threaded bucket (Nat.le_of_eq (placed_length 1 entries))]

/-! ## Values -/

/-- A value is written as the text of a tree, and so are its elements. -/
structure Printable (format : UInt64 → List UInt8) (sum : List UInt8 → Nat) (tree : Json) (pointer : Pointer) :
    Prop where
  text : ∀ depth, weight pointer ≤ depth → buildDepth format sum depth pointer = some (printed format sum tree)
  elements : ∀ elements, tree = .array elements → ∀ i element, elements[i]? = some element →
    ∃ place, arrayGetElement pointer i = some place ∧ weight place < weight pointer ∧
      ∀ depth, weight place ≤ depth → buildDepth format sum depth place = some (printed format sum element)

/-- A value that is no array. -/
theorem Printable.scalar {tree : Json} {pointer : Pointer} (other : ∀ elements, tree ≠ .array elements)
    (some : 0 < weight pointer)
    (text : ∀ depth, buildDepth format sum (depth + 1) pointer = .some (printed format sum tree)) :
    Printable format sum tree pointer := by
  refine ⟨?_, fun elements isArray => absurd isArray (other elements)⟩
  intro depth enough
  rcases depth with _ | depth
  · omega
  · exact text depth

theorem Printable.array {type : TypeWord} {elements : List Json} {body : Body (List Token)} {rest : List Token}
    (kind : type.kind = .array)
    (each : ∀ i element, elements[i]? = some element →
      ∃ place, arrayGetElement (.head type elements.length body :: rest) i = some place ∧
        weight place < weight (.head type elements.length body :: rest) ∧
        ∀ depth, weight place ≤ depth → buildDepth format sum depth place = some (printed format sum element)) :
    Printable format sum (.array elements) (.head type elements.length body :: rest) := by
  refine ⟨?_, ?_⟩
  · intro depth enough
    have positive := Token.weight_pos (.head type elements.length body)
    rcases depth with _ | depth
    · rw [weight] at enough
      omega
    have direct := dereference_head (show type.kind ≠ .reference by rw [kind]; decide) elements.length body rest
    have texts : ((List.range elements.length).mapM fun i =>
      (arrayGetElement (.head type elements.length body :: rest) i).bind
        (buildDepth format sum depth)) = some (printedAll format sum elements) := by
      have found : ∀ i ∈ List.range elements.length, ((arrayGetElement (.head type elements.length body :: rest) i).bind
          (buildDepth format sum depth)) = some (printed format sum (elements.getD i .null)) := by
        intro i inside
        rw [List.mem_range] at inside
        rcases each i elements[i] (List.getElem?_eq_getElem inside) with ⟨place, isPlace, lighter, text⟩
        rw [isPlace, Option.bind_some, text depth (by omega), List.getD_eq_getElem _ _ inside]
      have texts := @mapM_some _ _ _ (fun i => (arrayGetElement (.head type elements.length body :: rest) i).bind
        (buildDepth format sum depth)) id _ _ found
      rw [List.map_id] at texts
      rw [texts, printedAll_eq]
      congr 1
      apply List.ext_getElem
      · rw [List.length_map, List.length_map, List.length_range]
      · intro i inside inside'
        rw [List.length_map] at inside'
        rw [List.getElem_map, List.getElem_map, List.getElem_range, List.getD_eq_getElem _ _ inside']
    simp only [buildDepth, direct, typeOf_head, kind, lenOf_head, texts, printed]
    rfl
  · intro others same
    cases same
    exact each

theorem buildDepth_key (member : Member) (clean : 0 ∉ member.name) (link : Nat) (rest : List Token) (depth : Nat)
    (enough : weight (member.tokens link ++ rest) ≤ depth) :
    buildDepth format sum depth (member.tokens link ++ rest) = some (quotedJson member.name) := by
  have string := stringBuildJson_eq (member.stringLen_eq clean link rest) (member.fields link rest).2.1
  have isString : (typeOf (member.tokens link ++ rest)).kind = .string := by
    rcases member with ⟨name, keeping, value⟩
    cases keeping with
    | copied => rfl
    | referenced owned => rfl
  have direct := dereference_direct (show (typeOf (member.tokens link ++ rest)).kind ≠
    .reference by rw [isString]; decide)
  rcases depth with _ | depth
  · rcases member with ⟨name, keeping, value⟩
    cases keeping with
    | copied =>
        simp only [Member.tokens, Member.key, List.cons_append, weight, Token.weight] at enough
        omega
    | referenced owned =>
        simp only [Member.tokens, Member.key, List.cons_append, weight, Token.weight] at enough
        omega
  · simp only [buildDepth, direct, isString, string]

theorem buildDepth_member {object : Pointer} {entered : List (Nat × Member)} {len : Nat}
    (threaded : Threaded sum len object entered)
    {entry : Nat × Member} (inside : entry ∈ entered) (clean : 0 ∉ entry.2.name) {tree : Json}
    (printable : ∀ rest, Printable format sum tree (entry.2.value ++ rest)) {depth : Nat}
    (enough : weight (object.drop entry.1) ≤ depth) :
    ((buildDepth format sum depth (object.drop entry.1)).bind fun name =>
      (buildDepth format sum depth ((object.drop entry.1).drop (size (object.drop entry.1)))).map fun text =>
        name ++ 58 :: text) =
        some (quotedJson entry.2.name ++ 58 :: printed format sum tree) := by
  rcases entry with ⟨offset, member⟩
  rcases List.append_of_mem inside with ⟨before, behind, split⟩
  rcases threaded before offset member behind split with ⟨-, rest, here⟩
  dsimp only at clean printable enough ⊢
  rw [here] at enough ⊢
  have value : (member.tokens (latest sum len (sum member.name % len) before) ++ rest).drop member.keyWidth =
    member.value ++ rest := by
    rw [Member.tokens, List.append_assoc, ← member.key_length (latest sum len (sum member.name % len) before),
      List.drop_left]
  have lighter := weight_drop (member.tokens (latest sum len (sum member.name % len) before) ++ rest) member.keyWidth
  rw [member.size_key clean, value, (printable rest).text depth (by rw [← value]; omega)]
  rw [buildDepth_key member clean _ rest depth enough]
  rfl

theorem Printable.object {type : TypeWord} {members : List (List UInt8 × Json)} {entries : List Member}
    {body : Body (List Token)}
    {links : List (Nat × Member)} {rest : List Token} (kind : type.kind = .object)
    (names : entries.map Member.name = members.map Prod.fst) (clean : ∀ entry ∈ entries, 0 ∉ entry.name)
    (walkable : Walkable entries) (holds : ObjectBody sum entries type body links)
    (each : ∀ pair ∈ members.zip entries, ∀ rest, Printable format sum pair.1.2 (pair.2.value ++ rest)) :
    Printable format sum (.object members) (.head type members.length body :: (laid links ++ rest)) := by
  have count : entries.length = members.length := by
    rw [← List.length_map (f := Member.name), names, List.length_map]
  refine ⟨?_, fun elements isArray => by cases isArray⟩
  intro depth enough
  rw [← count] at enough ⊢
  have positive := Token.weight_pos (.head type entries.length body)
  rw [weight] at enough
  rcases depth with _ | depth
  · omega
  have direct := dereference_head (show type.kind ≠
    .reference by rw [kind]; decide) entries.length body (laid links ++ rest)
  simp only [buildDepth, direct, typeOf_head, kind, lenOf_head]
  by_cases empty : entries.length = 0
  · rw [if_pos empty, List.length_eq_zero_iff.mp (count.symm.trans empty)]
    rfl
  rcases indexedObject_shape kind clean walkable holds rest with ⟨type', buckets, total, kind', holds', shape⟩
  rw [if_neg empty, shape]
  have threaded : Threaded sum entries.length (.head type' entries.length (.index (buckets ++ [total])) ::
      (laid (linked sum entries.length [] (placed 1 entries)) ++ rest)) (placed 1 entries) := by
    intro before offset member behind split
    exact @linked_threaded sum entries.length entries [_] rest [] Nat.one_pos before offset member behind split
  have weights : weight (laid (linked sum entries.length [] (placed 1 entries)) ++ rest) =
    weight (laid links ++ rest) := by
    have same : (linked sum entries.length [] (placed 1 entries)).map Prod.snd = links.map Prod.snd := by
      rw [linked_members, placed_members, holds.members]
    rw [weight_append, weight_append, weight_laid same]
  rcases zip_placed names with ⟨left, right, paired⟩
  have texts : printedMembers format sum members =
      (members.zip (placed 1 entries)).map fun pair => (pair.1.1, printed format sum pair.1.2) := by
    rw [printedMembers_eq]
    conv_lhs => rw [← left, List.map_map]
    rfl
  have sameKeys : grouped (fun pair => sum pair.2.2.name % entries.length) entries.length
    (members.zip (placed 1 entries)) =
      grouped (fun pair => sum pair.1.1 % entries.length) entries.length (members.zip (placed 1 entries)) := by
    apply grouped_congr
    intro pair inside
    rw [(paired pair inside).1]
  have ordered : bucketed sum (printedMembers format sum members) =
      (grouped (fun pair => sum pair.1.1 % entries.length) entries.length (members.zip (placed 1 entries))).map
        fun pair => (pair.1.1, printed format sum pair.1.2) := by
    rw [bucketed, texts, List.length_map, List.length_zip, placed_length, ← count, Nat.min_self, grouped_map]
  have offsets : (grouped (fun entry => sum entry.2.name % entries.length) entries.length
    (placed 1 entries)).map Prod.fst =
      (grouped (fun pair => sum pair.1.1 % entries.length) entries.length (members.zip (placed 1 entries))).map
        (Prod.fst ∘ Prod.snd) := by
    conv_lhs => rw [← right, grouped_map, List.map_map, sameKeys]
  rw [memberOffsets_eq holds' threaded, offsets]
  rw [@mapM_some _ _ _ _ (Prod.fst ∘ Prod.snd) (fun pair : (List UInt8 × Json) × Nat × Member =>
    quotedJson pair.1.1 ++ 58 :: printed format sum pair.1.2) _ ?_]
  · rw [Option.map_some, printed, ordered, List.map_map]
    rfl
  · intro pair inside
    have isPair := mem_of_grouped inside
    have isPlaced : pair.2 ∈ placed 1 entries := by
      rw [← right]
      exact List.mem_map_of_mem isPair
    rcases paired pair isPair with ⟨same, zipped⟩
    rcases List.append_of_mem isPlaced with ⟨before, behind, split⟩
    have positive' := (threaded before pair.2.1 pair.2.2 behind split).1
    have lighter := weight_drop_lt (.head type' entries.length (.index (buckets ++ [total])))
      (laid (linked sum entries.length [] (placed 1 entries)) ++ rest) (pair.2.1 - 1)
    have head : (Token.head type' entries.length (.index (buckets ++ [total]))).weight = 1 := rfl
    rw [Nat.add_sub_cancel' positive', weight, head] at lighter
    rw [← same]
    have light : weight ((Token.head type' entries.length (.index (buckets ++ [total])) ::
        (laid (linked sum entries.length [] (placed 1 entries)) ++ rest)).drop pair.2.1) ≤ depth := by
      omega
    exact buildDepth_member threaded isPlaced (clean _ (mem_of_placed isPlaced)) (each _ zipped) light

theorem Represents.printable {tree : Json} {tokens : List Token} (represents : Represents sum tree tokens) :
    ∀ rest, Printable format sum tree (tokens ++ rest) := by
  have scalar : ∀ {tree : Json} {type : TypeWord} {len : Nat} {body : Body (List Token)} {rest : List Token},
      (∀ elements, tree ≠ .array elements) →
      (∀ depth, buildDepth format sum (depth + 1) (.head type len body :: rest) = some (printed format sum tree)) →
      Printable format sum tree (.head type len body :: rest) := by
    intro tree type len body rest other text
    refine .scalar other ?_ text
    have positive := Token.weight_pos (.head type len body)
    rw [weight]
    omega
  have direct : ∀ {type : TypeWord} {kind : Kind} (len : Nat) (body : Body (List Token)) (rest : List Token),
    type.kind = kind →
      kind ≠ .reference → dereference (.head type len body :: rest) = .head type len body :: rest :=
    fun len body rest kind other => dereference_head (by rw [kind]; exact other) len body rest
  induction represents with
  | null kind =>
      intro rest
      refine scalar (fun _ isArray => by cases isArray) fun depth => ?_
      simp only [buildDepth, direct _ _ _ kind (by decide), typeOf_head, kind, printed]
  | @bool type len value kind =>
      intro rest
      refine scalar (fun _ isArray => by cases isArray) fun depth => ?_
      simp only [buildDepth, direct _ _ _ kind (by decide), typeOf_head, kind, printed]
      rfl
  | uint kind isUint =>
      intro rest
      refine scalar (fun _ isArray => by cases isArray) fun depth => ?_
      simp only [buildDepth, direct _ _ _ kind (by decide), typeOf_head, kind, printed, numberBuildJson, isUint,
        if_true]
      rfl
  | number kind notUint =>
      intro rest
      refine scalar (fun _ isArray => by cases isArray) fun depth => ?_
      simp only [buildDepth, direct _ _ _ kind (by decide), typeOf_head, kind, printed, numberBuildJson, notUint,
        Bool.false_eq_true, if_false]
      rfl
  | @string type bytes kind notKey notRef short =>
      intro rest
      refine scalar (fun _ isArray => by cases isArray) fun depth => ?_
      simp only [buildDepth, direct _ _ _ kind (by decide), typeOf_head, kind, printed]
      rw [@stringBuildJson_eq _ bytes _ rfl]
      simp only [stringLen, typeOf_head, notKey, notRef, Bool.false_eq_true, if_false, and_false, lenOf_head]
  | @referred type len bytes kind notKey isRef clean cached =>
      intro rest
      refine scalar (fun _ isArray => by cases isArray) fun depth => ?_
      simp only [buildDepth, direct _ _ _ kind (by decide), typeOf_head, kind, printed]
      rw [@stringBuildJson_eq _ bytes _ rfl]
      rw [stringLen, typeOf_head, notKey, isRef, if_neg Bool.false_ne_true, lenOf_head]
      rcases cached with rfl | rfl
      · rw [if_pos ⟨rfl, rfl⟩]
        exact congrArg List.length (CString.text_eq_self clean)
      · split
        · exact congrArg List.length (CString.text_eq_self clean)
        · rfl
  | @array type elements segments body kind notRef count each holds short ih =>
      intro rest
      refine .array kind ?_
      intro i element isElement
      rcases List.getElem?_eq_some_iff.mp isElement with ⟨inside, rfl⟩
      have isSegment : segments[i]? = some segments[i] := List.getElem?_eq_getElem (count ▸ inside)
      have paired : (elements[i], segments[i]) ∈ elements.zip segments := by
        have both : i < (elements.zip segments).length := by
          rw [List.length_zip, count, Nat.min_self]
          exact inside
        rw [← List.getElem_zip (h := both)]
        exact List.getElem_mem both
      have place := @drop_segment (.head type elements.length body) segments rest i _ isSegment
      refine ⟨_, arrayGetElement_segment (by rw [kind]; decide) notRef count each holds rest inside,
        weight_drop_lt _ _ _, ?_⟩
      rw [place]
      exact (ih _ paired _).text
  | @concat type first second left right leftRest rightRest kind isRef leftArray rightArray
      holdsLeft holdsRight ihLeft ihRight =>
      intro rest
      have lenLeft := holdsLeft.lenOf_array leftArray leftRest
      refine .array kind ?_
      intro i element isElement
      by_cases isLeft : i < first.length
      · rw [List.getElem?_append_left isLeft] at isElement
        rcases (ihLeft leftRest).elements _ rfl i element isElement with ⟨place, found, lighter, text⟩
        refine ⟨place, arrayGetElement_concat kind isRef ?_ (by rw [lenLeft, if_pos isLeft]; exact found), ?_, text⟩
        · rw [List.length_append]
          omega
        · rw [weight, Token.weight]
          omega
      · rw [List.getElem?_append_right (Nat.not_lt.mp isLeft)] at isElement
        rcases (ihRight rightRest).elements _ rfl _ element isElement with ⟨place, found, lighter, text⟩
        have inside := (List.getElem?_eq_some_iff.mp isElement).1
        refine ⟨place, arrayGetElement_concat kind isRef ?_ (by rw [lenLeft, if_neg isLeft]; exact found), ?_, text⟩
        · rw [List.length_append]
          omega
        · rw [weight, Token.weight]
          omega
  | @object type members entries body links kind names clean each holds short ih =>
      intro rest
      exact Printable.object kind names clean (walkable_represents names each) holds ih
  | @reference type len tree target targetRest kind notReference represents ih =>
      intro rest
      have targeted : dereference (target ++ targetRest) = target ++ targetRest :=
        dereference_direct (by rw [represents.typeOf_append]; exact notReference)
      have same : ∀ depth, buildDepth format sum depth (.head type len (.jitref (target ++ targetRest)) :: rest) =
          buildDepth format sum depth (target ++ targetRest) := by
        intro depth
        cases depth with
        | zero => rfl
        | succ depth => simp only [buildDepth, dereference_reference kind, targeted]
      rw [List.cons_append, List.nil_append]
      refine ⟨?_, ?_⟩
      · intro depth enough
        rw [same]
        rw [weight, Token.weight] at enough
        exact (ih targetRest).text depth (by omega)
      · intro elements isArray i element isElement
        rcases (ih targetRest).elements elements isArray i element isElement with ⟨place, found, lighter, text⟩
        refine ⟨place, arrayGetElement_reference kind
          (by rw [represents.typeOf_append]; exact notReference) i found, ?_, text⟩
        rw [weight, Token.weight]
        omega

end

end Jitson
end LibKit
