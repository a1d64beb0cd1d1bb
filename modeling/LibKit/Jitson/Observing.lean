import LibKit.Jitson.Shapes

namespace LibKit
namespace Jitson

/-!
# What the accessors tell of a value

A value denotes a tree if the accessors give back the tree: the types, the
scalars, the elements in their order and for each name the value of the last
member with that name.
-/

def lastValue (members : List (List UInt8 × Json)) (name : List UInt8) : Option Json :=
  (members.reverse.find? fun member => member.1 = name).map Prod.snd

inductive Denotes (sum : List UInt8 → Nat) : Json → Pointer → Prop where
  | null {pointer : Pointer} (type : getType pointer = .null) : Denotes sum .null pointer
  | bool {pointer : Pointer} {value : Bool} (type : getType pointer =
      .bool) (same : boolOf (dereference pointer) = value) :
      Denotes sum (.bool value) pointer
  | uint {pointer : Pointer} {value : Nat} (type : getType pointer = .number)
      (isUint : (typeOf (dereference pointer)).isUint = true) (same : integerOf (dereference pointer) = value) :
      Denotes sum (.uint value) pointer
  | number {pointer : Pointer} {bits : UInt64} (type : getType pointer = .number)
      (notUint : (typeOf (dereference pointer)).isUint = false) (same : numberOf (dereference pointer) = bits) :
      Denotes sum (.number bits) pointer
  | string {pointer : Pointer} {bytes : List UInt8} (type : getType pointer = .string)
      (len : stringLen (dereference pointer) = bytes.length) (same : bytesOf (dereference pointer) = bytes) :
      Denotes sum (.string bytes) pointer
  | array {pointer : Pointer} {elements : List Json} {place : Nat → Pointer} (type : getType pointer = .array)
      (len : lenOf (dereference pointer) = elements.length)
      (found : ∀ i, arrayGetElement pointer i = if i < elements.length then some (place i) else none)
      (each : ∀ i element, elements[i]? = some element → Denotes sum element (place i)) :
      Denotes sum (.array elements) pointer
  | object {pointer : Pointer} {members : List (List UInt8 × Json)} {place : List UInt8 → Pointer}
      (type : getType pointer = .object) (len : lenOf (dereference pointer) = members.length)
      (found : ∀ name, objectGetMember sum pointer name = (lastValue members name).map fun _ => place name)
      (each : ∀ name value, lastValue members name = some value → Denotes sum value (place name)) :
      Denotes sum (.object members) pointer

/-! ## References -/

theorem Represents.nonempty {sum : List UInt8 → Nat} {tree : Json} {tokens : List Token}
    (represents : Represents sum tree tokens) : ∃ token others, tokens = token :: others := by
  cases represents with
  | null kind => exact ⟨_, _, rfl⟩
  | bool kind => exact ⟨_, _, rfl⟩
  | uint kind isUint => exact ⟨_, _, rfl⟩
  | number kind notUint => exact ⟨_, _, rfl⟩
  | string kind notKey notRef short => exact ⟨_, _, rfl⟩
  | referred kind notKey isRef clean cached => exact ⟨_, _, rfl⟩
  | array kind notRef count each holds short => exact ⟨_, _, rfl⟩
  | concat kind isRef leftArray rightArray left right => exact ⟨_, _, rfl⟩
  | object kind names clean each holds short => exact ⟨_, _, rfl⟩
  | reference kind direct represents => exact ⟨_, _, rfl⟩

theorem dereference_head {type : TypeWord} (kind : type.kind ≠ .reference) (len : Nat) (body : Body (List Token))
    (rest : List Token) : dereference (.head type len body :: rest) = .head type len body :: rest := by
  simp [dereference, isReference, kind]

theorem dereference_reference {type : TypeWord} (kind : type.kind = .reference) (len : Nat) (target rest : List Token) :
    dereference (.head type len (.jitref target) :: rest) = target := by
  simp [dereference, isReference, kind]

theorem dereference_direct {pointer : Pointer} (direct : (typeOf pointer).kind ≠ .reference) :
    dereference pointer = pointer := by
  simp [dereference, isReference, direct]

theorem getElementDepth_mono {depth depth' : Nat} {pointer element : Pointer} {idx : Nat} (deeper : depth ≤ depth')
    (found : getElementDepth depth pointer idx = some element) : getElementDepth depth' pointer idx = some element := by
  induction depth generalizing depth' pointer idx with
  | zero => cases found
  | succ depth ih =>
      rcases depth' with _ | depth'
      · exact absurd deeper (Nat.not_succ_le_zero _)
      · have less := Nat.le_of_succ_le_succ deeper
        simp only [getElementDepth] at found ⊢
        split at found
        · cases found
        · rename_i inside
          rw [if_neg inside]
          split at found
          · rename_i isRef
            rw [if_pos isRef]
            cases body : bodyOf (dereference pointer) with
            | concat first second =>
                rw [body] at found
                dsimp only at found ⊢
                split at found
                · rename_i left
                  rw [if_pos left]
                  exact ih less found
                · rename_i right
                  rw [if_neg right]
                  exact ih less found
            | _ =>
                rw [body] at found
                cases found
          · rename_i notRef
            rw [if_neg notRef]
            exact found

theorem Token.weight_pos (token : Token) : 0 < token.weight := by
  rcases token with ⟨type, len, body⟩ | _
  · cases body with
    | jitref target =>
        rw [Token.weight]
        omega
    | concat first second =>
        rw [Token.weight]
        omega
    | _ => exact Nat.one_pos
  · exact Nat.one_pos

theorem arrayGetElement_out {pointer : Pointer} {idx : Nat} (outside : lenOf (dereference pointer) ≤ idx) :
    arrayGetElement pointer idx = none := by
  rw [arrayGetElement]
  cases weight pointer with
  | zero => rfl
  | succ depth => exact if_pos outside

theorem arrayGetElement_reference {type : TypeWord} (kind : type.kind = .reference) {len : Nat}
    {target rest : List Token}
    (direct : (typeOf target).kind ≠ .reference) (idx : Nat) {element : Pointer}
    (found : arrayGetElement target idx = some element) :
    arrayGetElement (.head type len (.jitref target) :: rest) idx = some element := by
  have same : ∀ depth, getElementDepth depth (.head type len
    (.jitref target) :: rest) idx = getElementDepth depth target idx := by
    intro depth
    cases depth with
    | zero => rfl
    | succ depth =>
        simp only [getElementDepth, dereference_reference kind, dereference_direct direct]
  rw [arrayGetElement, same]
  refine getElementDepth_mono ?_ found
  rw [weight, Token.weight]
  omega

/-! ## Elements -/

section

variable {sum : List UInt8 → Nat}

theorem offsets_getD {start i : Nat} {segments : List (List Token)} (inside : i < segments.length) :
    (offsets start (segments.map List.length)).getD i 0 = start + (segments.take i).flatten.length := by
  induction segments generalizing start i with
  | nil => exact absurd inside (Nat.not_lt_zero _)
  | cons segment segments ih =>
      cases i with
      | zero => rfl
      | succ i =>
          rw [List.map_cons, offsets, List.getD_cons_succ, ih (Nat.lt_of_succ_lt_succ inside), List.take_succ_cons,
            List.flatten_cons, List.length_append, Nat.add_assoc]

theorem walkOffsets_segments {pointer start : List Token} {segments : List (List Token)} {rest : List Token}
    (holds : pointer = start ++ (segments.flatten ++ rest)) (sized : SizedAll segments rest) :
    walkOffsets pointer segments.length start.length = offsets start.length (segments.map List.length) := by
  induction segments generalizing start with
  | nil => rfl
  | cons segment segments ih =>
      have here : pointer.drop start.length = segment ++ (segments.flatten ++ rest) := by
        rw [holds, List.drop_left, List.flatten_cons, List.append_assoc]
      have next : pointer = (start ++ segment) ++ (segments.flatten ++ rest) := by
        rw [holds, List.flatten_cons, List.append_assoc, List.append_assoc]
      have further := ih next sized.2
      rw [List.length_append] at further
      rw [List.length_cons, walkOffsets, here, sized.1, List.map_cons, offsets, further]

theorem drop_segment {head : Token} {segments : List (List Token)} {rest : List Token} {i : Nat} {segment : List Token}
    (here : segments[i]? = some segment) :
    (head :: (segments.flatten ++ rest)).drop (1 + (segments.take i).flatten.length) =
      segment ++ ((segments.drop (i + 1)).flatten ++ rest) := by
  have split : segments = segments.take i ++ segment :: segments.drop (i + 1) := by
    rcases List.getElem?_eq_some_iff.mp here with ⟨inside, rfl⟩
    rw [← List.drop_eq_getElem_cons inside, List.take_append_drop]
  have flat : segments.flatten = (segments.take i).flatten ++ (segment ++ (segments.drop (i + 1)).flatten) := by
    conv_lhs => rw [split]
    rw [List.flatten_append, List.flatten_cons]
  rw [Nat.add_comm, List.drop_succ_cons, flat, List.append_assoc, List.drop_left, List.append_assoc]

theorem sizedAll_represents {elements : List Json} {segments : List (List Token)}
    (count : segments.length = elements.length)
    (each : ∀ pair ∈ elements.zip segments, Represents sum pair.1 pair.2) (rest : List Token) :
    SizedAll segments rest := by
  induction segments generalizing elements with
  | nil => exact trivial
  | cons segment segments ih =>
      rcases elements with _ | ⟨element, elements⟩
      · cases count
      · rw [List.zip_cons_cons, List.forall_mem_cons] at each
        exact ⟨each.1.size _, ih (Nat.succ.inj count) each.2⟩

theorem drop_indexArray (type : TypeWord) (len : Nat) (body : Body (List Token)) (rest : List Token) (offset : Nat) :
    (indexArray (.head type len body :: rest)).drop (1 + offset) = (Token.head type len body :: rest).drop
    (1 + offset) := by
  rw [indexArray, Nat.add_comm, List.drop_succ_cons, List.drop_succ_cons]

theorem arrayGetElement_segment {type : TypeWord} {elements : List Json}
    {segments : List (List Token)} {body : Body (List Token)}
    (notReference : type.kind ≠ .reference) (notRef : type.isRef = false) (count : segments.length = elements.length)
    (each : ∀ pair ∈ elements.zip segments, Represents sum pair.1 pair.2) (holds : ArrayBody segments type body)
    (rest : List Token) {i : Nat} (inside : i < elements.length) :
    arrayGetElement (.head type elements.length body :: (segments.flatten ++ rest)) i =
      some ((Token.head type elements.length body :: (segments.flatten ++ rest)).drop
        (1 + (segments.take i).flatten.length)) := by
  have direct := dereference_head notReference elements.length body
    (segments.flatten ++ rest)
  rw [arrayGetElement, weight]
  obtain ⟨depth, deep⟩ := Nat.exists_eq_add_of_lt (Token.weight_pos (.head type elements.length body))
  rw [deep, Nat.zero_add, Nat.succ_add, getElementDepth]
  simp only [direct, lenOf_head, typeOf_head, notRef, Bool.false_eq_true, if_false]
  rw [if_neg (Nat.not_le.mpr inside)]
  have inside' : i < segments.length := count ▸ inside
  cases holds with
  | plain notUnif notIndexed =>
      have walked : walkOffsets (.head type elements.length (.integer (segments.flatten.length + 1)) ::
        (segments.flatten ++ rest))
          elements.length 1 = offsets 1 (segments.map List.length) := by
        rw [← count]
        exact @walkOffsets_segments _ [_] segments rest rfl (sizedAll_represents count each rest)
      rw [if_neg (by rw [notUnif]; decide), indexedArray, typeOf_head, TypeWord.indexed, notIndexed,
        if_neg Bool.false_ne_true]
      have index : (indexOf (indexArray (.head type elements.length (.integer (segments.flatten.length + 1)) ::
          (segments.flatten ++ rest)))).getD i 0 = 1 + (segments.take i).flatten.length := by
        change (walkOffsets _ elements.length 1 ++ _).getD i 0 = _
        rw [walked, List.getD_append _ _ _ _ (by rw [offsets_length, List.length_map]; exact inside'),
          offsets_getD inside']
      rw [index, drop_indexArray]
  | @uniform _ length isUnif notIndexed same =>
      rw [if_pos isUnif]
      have first := same _ (List.getElem_mem inside')
      have stride : uniformSize (.head type elements.length body :: (segments.flatten ++ rest)) / 16 = length := by
        rw [← count]
        change uniformSize [.head type segments.length body] / 16 = length
        rw [first.2]
        exact Nat.mul_div_cancel_left _ (by decide)
      have before : (segments.take i).flatten.length = length * i := by
        rw [flatten_uniform fun segment member => (same segment (List.mem_of_mem_take member)).1, List.length_take,
          Nat.min_eq_left (Nat.le_of_lt inside'), Nat.mul_comm]
      rw [stride, before]
  | indexed notUnif isIndexed =>
      rw [if_neg (by rw [notUnif]; decide), indexedArray, typeOf_head, TypeWord.indexed, isIndexed, if_pos rfl]
      have index : (indexOf (.head type elements.length (.index (offsets 1 (segments.map List.length) ++
          [segments.flatten.length + 1])) :: (segments.flatten ++ rest))).getD i 0 = 1 +
          (segments.take i).flatten.length := by
        change (offsets 1 (segments.map List.length) ++ _).getD i 0 = _
        rw [List.getD_append _ _ _ _ (by rw [offsets_length, List.length_map]; exact inside'), offsets_getD inside']
      rw [index]

theorem arrayGetElement_concat {type : TypeWord} {len i : Nat} {first second rest : List Token} {element : Pointer}
    (kind : type.kind = .array) (isRef : type.isRef = true) (inside : i < len)
    (found : (if i < lenOf first then arrayGetElement first i else arrayGetElement second (i - lenOf first)) =
      some element) :
    arrayGetElement (.head type len (.concat first second) :: rest) i = some element := by
  have direct := dereference_head (show type.kind ≠ .reference by rw [kind]; decide) len (.concat first second) rest
  rw [arrayGetElement, weight, Token.weight]
  obtain ⟨depth, deep⟩ : ∃ depth, 1 + weight first + weight second + weight rest = depth + 1 ∧
      weight first ≤ depth ∧ weight second ≤ depth := ⟨weight first + weight second + weight rest, by omega⟩
  rw [deep.1, getElementDepth]
  simp only [direct, lenOf_head, typeOf_head, isRef, if_true, bodyOf_head]
  rw [if_neg (Nat.not_le.mpr inside)]
  split at found
  · rename_i left
    rw [if_pos left]
    exact getElementDepth_mono deep.2.1 found
  · rename_i right
    rw [if_neg right]
    exact getElementDepth_mono deep.2.2 found

/-! ## Members -/

theorem objectGetMember_entries {type : TypeWord} {entries : List Member}
    {body : Body (List Token)} {links : List (Nat × Member)}
    (kind : type.kind = .object) (clean : ∀ entry ∈ entries, 0 ∉ entry.name) (walkable : Walkable entries)
    (holds : ObjectBody sum entries type body links) (rest : List Token) :
    ∃ object : List Token, (∀ name, objectGetMember sum (.head type entries.length body :: (laid links ++ rest)) name =
        ((placed 1 entries).reverse.find? fun entry => entry.2.name = name).map fun entry =>
          object.drop (entry.1 + entry.2.keyWidth)) ∧
      ∀ entry ∈ placed 1 entries, entry.2.value <+: object.drop (entry.1 + entry.2.keyWidth) := by
  cases holds with
  | plain notIndexed =>
      have isObject : IsObject (.head type entries.length (.integer ((laid (fresh entries)).length + 1)) ::
        (laid (fresh entries) ++ rest)) entries := ⟨type, _, rest, kind, notIndexed, rfl⟩
      have looksUp := isObject.looksUp sum clean walkable
      exact ⟨_, looksUp.finds, looksUp.value⟩
  | @indexed buckets isIndexed holds =>
      have threaded : Threaded sum entries.length (.head type entries.length
          (.index (buckets ++ [(laid (fresh entries)).length + 1])) ::
            (laid (linked sum entries.length [] (placed 1 entries)) ++ rest)) (placed 1 entries) := by
        intro before offset member behind split
        exact @linked_threaded sum entries.length entries [_] rest [] Nat.one_pos before offset member behind split
      refine ⟨_, objectGetMember_indexed kind isIndexed holds threaded clean, ?_⟩
      exact threaded.value

/-- The members of an object and their places are the halves of one list, in
which a pair has the same name twice. -/
theorem zip_placed {members : List (List UInt8 × Json)} {entries : List Member}
    (names : entries.map Member.name = members.map Prod.fst) :
    (members.zip (placed 1 entries)).map Prod.fst = members ∧
      (members.zip (placed 1 entries)).map Prod.snd = placed 1 entries ∧
      ∀ pair ∈ members.zip (placed 1 entries), pair.2.2.name = pair.1.1 ∧ (pair.1, pair.2.2) ∈ members.zip entries := by
  have count : members.length = (placed 1 entries).length := by
    rw [placed_length, ← List.length_map (f := Member.name), names, List.length_map]
  have left : (members.zip (placed 1 entries)).map Prod.fst = members := List.map_fst_zip (Nat.le_of_eq count)
  have right : (members.zip (placed 1 entries)).map Prod.snd = placed 1 entries :=
    List.map_snd_zip (Nat.le_of_eq count.symm)
  have same : (members.zip (placed 1 entries)).map (fun pair => pair.2.2.name) =
      (members.zip (placed 1 entries)).map fun pair => pair.1.1 := by
    have placedNames : (placed 1 entries).map (Member.name ∘ Prod.snd) = members.map Prod.fst := by
      rw [← List.map_map, placed_members, names]
    have first := congrArg (List.map Prod.fst) left
    have second := congrArg (List.map (Member.name ∘ Prod.snd)) right
    rw [List.map_map] at first second
    rw [placedNames] at second
    exact second.trans first.symm
  have zipped : members.zip entries = (members.zip (placed 1 entries)).map fun pair => (pair.1, pair.2.2) := by
    conv_lhs => rw [← placed_members 1 entries, List.zip_map_right]
    rfl
  refine ⟨left, right, ?_⟩
  intro pair inside
  refine ⟨List.map_inj_left.mp same pair inside, ?_⟩
  rw [zipped]
  exact List.mem_map_of_mem (f := fun pair => (pair.1, pair.2.2)) inside

theorem lastValue_placed {members : List (List UInt8 × Json)} {entries : List Member}
    (names : entries.map Member.name = members.map Prod.fst) (name : List UInt8) :
    (lastValue members name = none ∧ (placed 1 entries).reverse.find? (fun entry => entry.2.name = name) = none) ∨
      ∃ member entry, (member, entry.2) ∈ members.zip entries ∧ lastValue members name = some member.2 ∧
        (placed 1 entries).reverse.find? (fun entry => entry.2.name = name) = some entry := by
  rcases zip_placed names with ⟨left, right, paired⟩
  have agree : (members.zip (placed 1 entries)).reverse.find? (fun pair => pair.2.2.name = name) =
      (members.zip (placed 1 entries)).reverse.find? fun pair => pair.1.1 = name := by
    apply List.find?_congr
    intro pair inside
    rw [(paired pair (List.mem_reverse.mp inside)).1]
  have first : members.reverse.find? (fun member => member.1 = name) =
      ((members.zip (placed 1 entries)).reverse.find? fun pair => pair.1.1 = name).map Prod.fst := by
    conv_lhs => rw [← left, ← List.map_reverse, List.find?_map]
    rfl
  have second : (placed 1 entries).reverse.find? (fun entry => entry.2.name = name) =
      ((members.zip (placed 1 entries)).reverse.find? fun pair => pair.1.1 = name).map Prod.snd := by
    conv_lhs => rw [← right, ← List.map_reverse, List.find?_map]
    exact congrArg (Option.map Prod.snd) agree
  rw [lastValue, first, second]
  cases found : (members.zip (placed 1 entries)).reverse.find? fun pair => pair.1.1 = name with
  | none => exact Or.inl ⟨rfl, rfl⟩
  | some pair =>
      have inside := List.mem_reverse.mp (List.mem_of_find?_eq_some found)
      exact Or.inr ⟨pair.1, pair.2, (paired pair inside).2, rfl, rfl⟩

/-! ## Values -/

theorem walkable_represents {members : List (List UInt8 × Json)} {entries : List Member}
    (names : entries.map Member.name = members.map Prod.fst)
    (each : ∀ pair ∈ members.zip entries, Represents sum pair.1.2 pair.2.value) : Walkable entries := by
  intro entry inside rest
  have count : entries.length ≤ members.length := by
    rw [← List.length_map (f := Member.name), names, List.length_map]
  have paired : (members.zip entries).map Prod.snd = entries := List.map_snd_zip count
  rw [← paired] at inside
  rcases List.mem_map.mp (List.mem_of_mem_dropLast inside) with ⟨pair, isPair, rfl⟩
  exact (each pair isPair).size rest

theorem Represents.typeOf_append {tree : Json} {tokens : List Token} (represents : Represents sum tree tokens)
    (rest : List Token) : typeOf (tokens ++ rest) = typeOf tokens := by
  rcases represents.nonempty with ⟨token, others, rfl⟩
  cases token with
  | head type len body => rfl
  | more => rfl

theorem Denotes.refer {tree : Json} {target : Pointer} (denotes : Denotes sum tree target) {type : TypeWord} {len : Nat}
    {rest : List Token} (kind : type.kind = .reference) (direct : (typeOf target).kind ≠ .reference) :
    Denotes sum tree (.head type len (.jitref target) :: rest) := by
  have same : dereference (.head type len (.jitref target) :: rest) = dereference target := by
    rw [dereference_reference kind, dereference_direct direct]
  have typed : getType (.head type len (.jitref target) :: rest) = getType target := by
    rw [getType, same, getType]
  cases denotes with
  | null type => exact .null (typed.trans type)
  | bool type value => exact .bool (typed.trans type) (by rw [same, value])
  | uint type isUint value => exact .uint (typed.trans type) (by rw [same, isUint]) (by rw [same, value])
  | number type notUint value => exact .number (typed.trans type) (by rw [same, notUint]) (by rw [same, value])
  | string type len bytes => exact .string (typed.trans type) (by rw [same, len]) (by rw [same, bytes])
  | @array _ elements place type len found each =>
      refine @Denotes.array _ _ _ place (typed.trans type) (by rw [same, len]) ?_ each
      intro i
      split
      · rename_i inside
        apply arrayGetElement_reference kind direct
        rw [found, if_pos inside]
      · rename_i outside
        apply arrayGetElement_out
        rw [same, len]
        exact Nat.not_lt.mp outside
  | @object _ members place type len found each =>
      refine @Denotes.object _ _ _ place (typed.trans type) (by rw [same, len]) ?_ each
      intro name
      rw [← found, objectGetMember, objectGetMember, same]

theorem Represents.denotes {tree : Json} {tokens : List Token} (represents : Represents sum tree tokens) :
    ∀ rest, Denotes sum tree (tokens ++ rest) := by
  have typed : ∀ {type : TypeWord} (len : Nat) (body : Body (List Token)) (rest : List Token), type.kind ≠ .reference →
      getType (.head type len body :: rest) = type.kind := by
    intro type len body rest direct
    rw [getType, dereference_head direct]
    rfl
  induction represents with
  | @null type len body kind =>
      intro rest
      have direct : type.kind ≠ .reference := by rw [kind]; decide
      exact .null ((typed _ _ _ direct).trans kind)
  | @bool type len value kind =>
      intro rest
      have direct : type.kind ≠ .reference := by rw [kind]; decide
      exact .bool ((typed _ _ _ direct).trans kind) (by rw [List.cons_append, dereference_head direct]; rfl)
  | @uint type len value kind isUint =>
      intro rest
      have direct : type.kind ≠ .reference := by rw [kind]; decide
      refine .uint ((typed _ _ _ direct).trans kind) ?_ ?_
      · rw [List.cons_append, dereference_head direct]
        exact isUint
      · rw [List.cons_append, dereference_head direct]
        rfl
  | @number type len bits kind notUint =>
      intro rest
      have direct : type.kind ≠ .reference := by rw [kind]; decide
      refine .number ((typed _ _ _ direct).trans kind) ?_ ?_
      · rw [List.cons_append, dereference_head direct]
        exact notUint
      · rw [List.cons_append, dereference_head direct]
        rfl
  | @string type bytes kind notKey notRef short =>
      intro rest
      have direct : type.kind ≠ .reference := by rw [kind]; decide
      refine .string ((typed _ _ _ direct).trans kind) ?_ ?_
      · rw [List.cons_append, dereference_head direct, stringLen]
        simp [notKey, notRef]
      · rw [List.cons_append, dereference_head direct]
        rfl
  | @referred type len bytes kind notKey isRef clean cached =>
      intro rest
      have direct : type.kind ≠ .reference := by rw [kind]; decide
      have text : CString.text (bytesOf (.head type len (.reference bytes) :: rest)) = bytes :=
        CString.text_eq_self clean
      refine .string ((typed _ _ _ direct).trans kind) ?_ ?_
      · rw [List.cons_append, List.nil_append, dereference_head direct, stringLen, text, typeOf_head, notKey,
          isRef, lenOf_head]
        rcases cached with zero | same
        · rw [zero]
          rfl
        · by_cases zero : len = 0
          · rw [zero]
            rfl
          · simp [same]
      · rw [List.cons_append, dereference_head direct]
        rfl
  | @array type elements segments body kind notRef count each holds short ih =>
      intro rest
      have direct : type.kind ≠ .reference := by rw [kind]; decide
      have len : lenOf (dereference (.head type elements.length body :: segments.flatten ++ rest)) =
        elements.length := by
        rw [List.cons_append, dereference_head direct]
        rfl
      refine @Denotes.array _ _ _ (fun i => (Token.head type elements.length body :: (segments.flatten ++ rest)).drop
        (1 + (segments.take i).flatten.length)) ((typed _ _ _ direct).trans kind) len ?_ ?_
      · intro i
        split
        · rename_i inside
          exact arrayGetElement_segment (by rw [kind]; decide) notRef count each holds rest inside
        · rename_i outside
          exact arrayGetElement_out (Nat.le_trans (Nat.le_of_eq len) (Nat.not_lt.mp outside))
      · intro i element isElement
        have inside : i < segments.length := by
          rw [count]
          exact (List.getElem?_eq_some_iff.mp isElement).1
        have here := List.getElem?_eq_getElem inside
        have paired : (element, segments[i]) ∈ elements.zip segments := by
          apply List.mem_of_getElem? (i := i)
          rw [List.getElem?_zip_eq_some]
          exact ⟨isElement, here⟩
        rw [drop_segment here]
        exact ih _ paired _
  | @concat type first second left right leftRest rightRest kind isRef leftArray rightArray
      holdsLeft holdsRight ihLeft ihRight =>
      intro rest
      have direct : type.kind ≠ .reference := by rw [kind]; decide
      have whole : lenOf (dereference ([.head type (first ++ second).length
        (.concat (left ++ leftRest) (right ++ rightRest)), .more] ++
          rest)) = (first ++ second).length := by
        rw [List.cons_append, dereference_head direct]
        rfl
      cases ihLeft leftRest with
      | @array _ _ placeLeft typeLeft lenLeft foundLeft eachLeft =>
          cases ihRight rightRest with
          | @array _ _ placeRight typeRight lenRight foundRight eachRight =>
              rw [dereference_direct (by rw [holdsLeft.typeOf_append, leftArray]; decide)] at lenLeft
              refine @Denotes.array _ _ _ (fun i => if i < first.length then placeLeft i
                else placeRight (i - first.length))
                ((typed _ _ _ direct).trans kind) whole ?_ ?_
              · intro i
                split
                · rename_i inside
                  apply arrayGetElement_concat kind isRef inside
                  rw [lenLeft, foundLeft, foundRight]
                  rw [List.length_append] at inside
                  split
                  · rfl
                  · rw [if_pos (by omega)]
                · rename_i outside
                  exact arrayGetElement_out (Nat.le_trans (Nat.le_of_eq whole) (Nat.not_lt.mp outside))
              · intro i element isElement
                split
                · rename_i isLeft
                  rw [List.getElem?_append_left isLeft] at isElement
                  exact eachLeft i element isElement
                · rename_i isRight
                  rw [List.getElem?_append_right (Nat.not_lt.mp isRight)] at isElement
                  exact eachRight _ element isElement
  | @object type members entries body links kind names clean each holds short ih =>
      intro rest
      have direct : type.kind ≠ .reference := by rw [kind]; decide
      have count : entries.length = members.length := by
        rw [← List.length_map (f := Member.name), names, List.length_map]
      rcases objectGetMember_entries kind clean (walkable_represents names each) holds rest with ⟨object, found, values⟩
      rw [count] at found
      have len : lenOf (dereference (.head type members.length body :: laid links ++ rest)) = members.length := by
        rw [List.cons_append, dereference_head direct]
        rfl
      refine @Denotes.object _ _ _ (fun name => (((placed 1 entries).reverse.find? fun entry => entry.2.name = name).map
        fun entry => object.drop (entry.1 + entry.2.keyWidth)).getD []) ((typed _ _ _ direct).trans kind) len ?_ ?_
      · intro name
        rw [List.cons_append, found]
        rcases lastValue_placed names name with ⟨none, missing⟩ | ⟨member, entry, -, isLast, isFound⟩
        · rw [none, missing]
          rfl
        · rw [isLast, isFound]
          rfl
      · intro name value isLast
        rcases lastValue_placed names name with ⟨none, -⟩ | ⟨member, entry, paired, isLast', isFound⟩
        · rw [none] at isLast
          cases isLast
        · rw [isLast', Option.some.injEq] at isLast
          subst isLast
          rcases values entry (List.mem_reverse.mp (List.mem_of_find?_eq_some isFound)) with ⟨rest', here⟩
          rw [isFound]
          change Denotes sum member.2 (object.drop (entry.1 + entry.2.keyWidth))
          rw [← here]
          exact ih _ paired rest'
  | @reference type len tree target targetRest kind direct represents ih =>
      intro rest
      apply (ih targetRest).refer kind
      rw [represents.typeOf_append]
      exact direct

end

end Jitson
end LibKit
