import LibKit.Jitson.Truth

namespace LibKit
namespace Jitson

open Stack (clone clonable canClone markAlloced)

/-!
# Duplicates

Cloning a value accesses the elements of its arrays, so that these are indexed
afterwards, in the value as in its clone.  The indexes and the flags that are set
are not part of what the value represents.
-/

/-! ## Members -/

/-- Members with equal names whose values are of equal size. -/
def Member.Alike (first second : Member) : Prop :=
  second.name = first.name ∧ second.keeping = first.keeping ∧ second.value.length = first.value.length

def Member.AlikeAt (first second : Nat × Member) : Prop := second.1 = first.1 ∧ Member.Alike first.2 second.2

section

variable {sum : List UInt8 → Nat} {first second : Member} {entries entries' : List Member}
    {links links' : List (Nat × Member)}

theorem Member.Alike.key (alike : Member.Alike first second) (len : Nat) : second.key len = first.key len := by
  rw [Member.key, Member.key, alike.1, alike.2.1]

theorem Member.Alike.len (alike : Member.Alike first second) : second.len = first.len := by
  rw [Member.len, Member.len, alike.1, alike.2.1]

theorem Member.Alike.width (alike : Member.Alike first second) : second.width = first.width := by
  rw [Member.width, Member.width, Member.keyWidth, Member.keyWidth, alike.key, alike.2.2]

/-- What alike members have in common. -/
theorem alike_map {α : Type} {field : Member → α}
    (same : ∀ first second, Member.Alike first second → field second = field first)
    (alike : List.Forall₂ Member.Alike entries entries') : entries'.map field = entries.map field := by
  induction alike with
  | nil => rfl
  | cons here _ ih => rw [List.map_cons, List.map_cons, same _ _ here, ih]

theorem alike_offsets (alike : List.Forall₂ Member.AlikeAt links links') :
    links'.map Prod.fst = links.map Prod.fst := by
  induction alike with
  | nil => rfl
  | cons here _ ih => rw [List.map_cons, List.map_cons, here.1, ih]

theorem alike_members (alike : List.Forall₂ Member.AlikeAt links links') :
    List.Forall₂ Member.Alike (links.map Prod.snd) (links'.map Prod.snd) :=
  List.forall₂_map_left_iff.mpr (List.forall₂_map_right_iff.mpr (alike.imp fun _ _ same => same.2))

theorem alike_placed (alike : List.Forall₂ Member.Alike entries entries') (start : Nat) :
    List.Forall₂ Member.AlikeAt (placed start entries) (placed start entries') := by
  induction alike generalizing start with
  | nil => exact .nil
  | cons same _ ih =>
      rw [placed, placed, same.width]
      exact .cons ⟨rfl, same⟩ (ih _)

theorem alike_latest (alike : List.Forall₂ Member.AlikeAt links links') (len bucket : Nat) :
    latest sum len bucket links' = latest sum len bucket links := by
  rw [latest, latest]
  generalize 0 = start
  induction alike generalizing start with
  | nil => rfl
  | cons same _ ih =>
      rw [List.foldl_cons, List.foldl_cons, same.1, same.2.1]
      exact ih _

theorem alike_linked (alike : List.Forall₂ Member.AlikeAt links links') {entered entered' : List (Nat × Member)}
    (before : List.Forall₂ Member.AlikeAt entered entered') (len : Nat) :
    List.Forall₂ Member.AlikeAt (linked sum len entered links) (linked sum len entered' links') := by
  induction alike generalizing entered entered' with
  | nil => exact .nil
  | @cons a b _ _ same _ ih =>
      rw [linked, linked, same.2.1]
      refine .cons ⟨alike_latest before len _, same.2⟩ (ih ?_)
      exact List.rel_append before (.cons same .nil)

theorem links_ext (offsets : links'.map Prod.fst = links.map Prod.fst)
    (members : links'.map Prod.snd = links.map Prod.snd) :
    links' = links := by
  have zipped := congrArg₂ List.zip offsets members
  rwa [← List.unzip_fst, ← List.unzip_snd, ← List.unzip_fst, ← List.unzip_snd, List.zip_unzip, List.zip_unzip] at zipped

end

/-! ## Clones -/

section

variable {sum : List UInt8 → Nat} {tree : Json} {tokens : List Token}

theorem clone_more (count : Nat) (rest : List Token) :
    clone (List.replicate count .more ++ rest) = List.replicate count .more ++ clone rest := by
  induction count with
  | zero => rfl
  | succ count ih =>
      rw [List.replicate_succ, List.cons_append, List.cons_append, ← ih]
      rfl

theorem clone_head {type : TypeWord} {len : Nat}
    (keeps : type.isArray = false ∨ len = 0 ∨ type.isRef = true ∨ type.isUnif = true ∨ type.indexed = true)
    (body : Body (List Token)) (rest : List Token) :
    clone (.head type len body :: rest) = .head type len body :: clone rest := by
  rw [clone, typeOf_head, lenOf_head, if_neg]
  · rfl
  · rintro ⟨isArray, some, notRef, notUnif, notIndexed⟩
    rcases keeps with notArray | none | isRef | isUnif | isIndexed
    · rw [notArray] at isArray
      cases isArray
    · exact some none
    · exact notRef isRef
    · exact notUnif isUnif
    · exact notIndexed isIndexed

theorem clone_key (member : Member) (len : Nat) (rest : List Token) :
    clone (member.key len ++ rest) = member.key len ++ clone rest := by
  rcases member with ⟨name, keeping, value⟩
  cases keeping with
  | copied =>
      rw [Member.key, List.cons_append, clone_head (Or.inl (by decide)), clone_more]
      rfl
  | referenced owned => exact clone_head (Or.inl rfl) _ _

/-- A clone of the tokens represents the tree, whatever is behind them. -/
def Cloned (sum : List UInt8 → Nat) (tree : Json) (tokens : List Token) : Prop :=
  ∀ rest, ∃ tokens', clone (tokens ++ rest) = tokens' ++ clone rest ∧ tokens'.length = tokens.length ∧
    Represents sum tree tokens'

theorem clone_segments {elements : List Json} {segments : List (List Token)} (count : segments.length = elements.length)
    (each : ∀ pair ∈ elements.zip segments, Cloned sum pair.1 pair.2) (rest : List Token) :
    ∃ segments', clone (segments.flatten ++ rest) = segments'.flatten ++ clone rest ∧
      segments'.map List.length = segments.map List.length ∧
        ∀ pair ∈ elements.zip segments', Represents sum pair.1 pair.2 := by
  induction segments generalizing elements with
  | nil => exact ⟨[], rfl, rfl, fun pair inside => by rw [List.zip_nil_right] at inside; cases inside⟩
  | cons segment segments ih =>
      rcases elements with _ | ⟨element, elements⟩
      · cases count
      · rw [List.zip_cons_cons, List.forall_mem_cons] at each
        rcases ih (Nat.succ.inj count) each.2 with ⟨segments', cloned', lengths, holds'⟩
        rcases each.1 (segments.flatten ++ rest) with ⟨segment', cloned, length, holds⟩
        refine ⟨segment' :: segments', ?_, ?_, ?_⟩
        · rw [List.flatten_cons, List.append_assoc, cloned, cloned', List.flatten_cons, List.append_assoc]
        · rw [List.map_cons, List.map_cons, length, lengths]
        · rw [List.zip_cons_cons, List.forall_mem_cons]
          exact ⟨holds, holds'⟩

theorem clone_laid {members : List (List UInt8 × Json)} {links : List (Nat × Member)}
    (count : links.length = members.length)
    (each : ∀ pair ∈ members.zip links, Cloned sum pair.1.2 pair.2.2.value) (rest : List Token) :
    ∃ links', clone (laid links ++ rest) = laid links' ++ clone rest ∧ List.Forall₂ Member.AlikeAt links links' ∧
      ∀ pair ∈ members.zip links', Represents sum pair.1.2 pair.2.2.value := by
  induction links generalizing members with
  | nil => exact ⟨[], rfl, .nil, fun pair inside => by rw [List.zip_nil_right] at inside; cases inside⟩
  | cons link links ih =>
      rcases members with _ | ⟨member, members⟩
      · cases count
      · rw [List.zip_cons_cons, List.forall_mem_cons] at each
        rcases ih (Nat.succ.inj count) each.2 with ⟨links', cloned', alike, holds'⟩
        rcases each.1 (laid links ++ rest) with ⟨value, cloned, length, holds⟩
        rcases link with ⟨len, entry⟩
        refine ⟨(len, { entry with value := value }) :: links', ?_, .cons ⟨rfl, rfl, rfl, length⟩ alike, ?_⟩
        · rw [laid_cons, laid_cons, Member.tokens, List.append_assoc, List.append_assoc, clone_key, cloned, cloned',
            Member.tokens, List.append_assoc, List.append_assoc]
          rfl
        · rw [List.zip_cons_cons, List.forall_mem_cons]
          exact ⟨holds, holds'⟩

/-- What the head of an array says depends only on the sizes of its elements. -/
theorem ArrayBody.of_lengths {segments segments' : List (List Token)} {type : TypeWord} {body : Body (List Token)}
    (holds : ArrayBody segments type body) (lengths : segments'.map List.length = segments.map List.length) :
    ArrayBody segments' type body := by
  have flat : segments'.flatten.length = segments.flatten.length := by
    rw [List.length_flatten, List.length_flatten, lengths]
  have count : segments'.length = segments.length := by
    rw [← List.length_map (f := List.length), lengths, List.length_map]
  cases holds with
  | plain notUnif notIndexed =>
      rw [← flat]
      exact .plain notUnif notIndexed
  | @uniform _ length isUnif notIndexed same =>
      refine @ArrayBody.uniform _ _ _ length isUnif notIndexed ?_
      intro segment' inside
      have sized : segment'.length ∈ segments.map List.length := lengths ▸ List.mem_map_of_mem inside
      rcases List.mem_map.mp sized with ⟨segment, member, equal⟩
      rw [← equal, count]
      exact same segment member
  | indexed notUnif isIndexed =>
      rw [← flat, ← lengths]
      exact .indexed notUnif isIndexed

/-- The head of an array may get an index. -/
theorem clone_array {elements : List Json} {segments : List (List Token)} {type : TypeWord} {body : Body (List Token)}
    (kind : type.kind = .array) (notRef : type.isRef = false) (count : segments.length = elements.length)
    (each : ∀ pair ∈ elements.zip segments, Represents sum pair.1 pair.2) (holds : ArrayBody segments type body)
    (short : segments.flatten.length + 1 < 2 ^ 32) (rest : List Token) :
    ∃ type' body', clone (.head type elements.length body :: (segments.flatten ++ rest)) =
        .head type' elements.length body' :: clone (segments.flatten ++ rest) ∧
      type'.kind = .array ∧ type'.isRef = false ∧ ArrayBody segments type' body' := by
  cases holds with
  | plain notUnif notIndexed =>
      by_cases none : elements.length = 0
      · exact ⟨type, _, clone_head (Or.inr (Or.inl none)) _ _, kind, notRef, .plain notUnif notIndexed⟩
      · refine ⟨{ type with isOwn := true }, _, ?_, kind, notRef, .indexed notUnif rfl⟩
        have isArray : type.isArray = true := by
          rw [TypeWord.isArray, kind]
          rfl
        have grows : type.isArray = true ∧ elements.length ≠ 0 ∧ ¬ type.isRef = true ∧ ¬ type.isUnif = true ∧
          ¬ type.indexed = true := by
          rw [notRef, notUnif, TypeWord.indexed, notIndexed]
          exact ⟨isArray, none, Bool.false_ne_true, Bool.false_ne_true, Bool.false_ne_true⟩
        have walked : walkOffsets (.head type elements.length (.integer (segments.flatten.length + 1)) ::
          (segments.flatten ++ rest))
            elements.length 1 = offsets 1 (segments.map List.length) := by
          rw [← count]
          exact @walkOffsets_segments _ [_] segments rest rfl (sizedAll_represents count each rest)
        rw [clone, typeOf_head, lenOf_head, if_pos grows, indexArray, walked]
        change [Token.head _ _ (.index (_ ++ [(segments.flatten.length + 1) % 2 ^ 32]))] ++ _ = _
        rw [Nat.mod_eq_of_lt short]
        rfl
  | uniform isUnif notIndexed same =>
      exact ⟨type, body, clone_head (Or.inr (Or.inr (Or.inr (Or.inl isUnif)))) _ _, kind, notRef,
        .uniform isUnif notIndexed same⟩
  | indexed notUnif isIndexed =>
      exact ⟨type, _, clone_head (Or.inr (Or.inr (Or.inr (Or.inr isIndexed)))) _ _, kind, notRef,
        .indexed notUnif isIndexed⟩

theorem alike_laid_length {entries entries' : List Member} (alike : List.Forall₂ Member.Alike entries entries') :
    (laid (fresh entries')).length = (laid (fresh entries)).length := by
  have widths : ∀ entries, (laid (fresh entries)).length = (entries.map Member.width).sum := by
    intro entries
    rw [laid_length, fresh, List.map_map]
    rfl
  rw [widths, widths, alike_map (fun _ _ same => same.width) alike]

/-- What an object is depends only on the names and on the sizes of its values. -/
theorem ObjectBody.of_alike {entries : List Member} {type : TypeWord} {body : Body (List Token)}
    {links links' : List (Nat × Member)}
    (holds : ObjectBody sum entries type body links) (alike : List.Forall₂ Member.AlikeAt links links') :
    ObjectBody sum (links'.map Prod.snd) type body links' := by
  have entered := alike_members alike
  rw [holds.members] at entered
  have offsets := alike_offsets alike
  have laidLength := alike_laid_length entered
  have count : (links'.map Prod.snd).length = entries.length := entered.length_eq.symm
  generalize isEntries : links'.map Prod.snd = entries' at entered laidLength count
  cases holds with
  | plain notIndexed =>
      have same : links' = fresh entries' := by
        apply links_ext
        · have lens : entries'.map Member.len = entries.map Member.len := alike_map (fun _ _ same => same.len) entered
          rw [offsets, fresh, fresh, List.map_map, List.map_map]
          exact lens.symm
        · rw [isEntries, fresh_members]
      rw [same, ← laidLength]
      exact .plain notIndexed
  | @indexed buckets isIndexed holds =>
      have places := alike_placed entered 1
      have same : links' = linked sum entries'.length [] (placed 1 entries') := by
        apply links_ext
        · rw [offsets, count, alike_offsets (alike_linked places .nil entries.length)]
        · rw [isEntries, linked_members, placed_members]
      rw [same, ← laidLength]
      refine .indexed isIndexed ⟨by rw [count, holds.length], ?_⟩
      intro bucket inside
      rw [count] at inside ⊢
      rw [alike_latest places, holds.each bucket inside]

theorem Represents.cloned (represents : Represents sum tree tokens) : Cloned sum tree tokens := by
  have single : ∀ {tree : Json} {type : TypeWord} {len : Nat} {body : Body (List Token)}, type.isArray = false →
      Represents sum tree [.head type len body] → Cloned sum tree [.head type len body] := by
    intro tree type len body notArray represents rest
    exact ⟨[.head type len body], clone_head (Or.inl notArray) body rest, rfl, represents⟩
  induction represents with
  | null kind => exact single (by rw [TypeWord.isArray, kind]; rfl) (.null kind)
  | bool kind => exact single (by rw [TypeWord.isArray, kind]; rfl) (.bool kind)
  | uint kind isUint => exact single (by rw [TypeWord.isArray, kind]; rfl) (.uint kind isUint)
  | number kind notUint => exact single (by rw [TypeWord.isArray, kind]; rfl) (.number kind notUint)
  | @string type bytes kind notKey notRef short =>
      intro rest
      refine ⟨_, ?_, rfl, .string kind notKey notRef short⟩
      rw [List.cons_append, clone_head (Or.inl (by rw [TypeWord.isArray, kind]; rfl)), clone_more]
      rfl
  | referred kind notKey isRef clean cached =>
      exact single (by rw [TypeWord.isArray, kind]; rfl) (.referred kind notKey isRef clean cached)
  | @array type elements segments body kind notRef count each holds short ih =>
      intro rest
      rcases clone_array kind notRef count each holds short rest with ⟨type', body', headed, kind', notRef', holds'⟩
      rcases clone_segments count ih rest with ⟨segments', cloned, lengths, each'⟩
      have count' : segments'.length = elements.length := by
        rw [← count, ← List.length_map (f := List.length), lengths, List.length_map]
      have flat : segments'.flatten.length = segments.flatten.length := by
        rw [List.length_flatten, List.length_flatten, lengths]
      refine ⟨.head type' elements.length body' :: segments'.flatten, ?_, ?_, ?_⟩
      · rw [List.cons_append, headed, cloned]
        rfl
      · rw [List.length_cons, List.length_cons, flat]
      · exact .array kind' notRef' count' each' (holds'.of_lengths lengths) (by rw [flat]; exact short)
  | @concat type first second left right leftRest rightRest kind isRef leftArray rightArray holdsLeft holdsRight _ _ =>
      intro rest
      refine ⟨_, ?_, rfl, .concat kind isRef leftArray rightArray holdsLeft holdsRight⟩
      rw [List.cons_append, clone_head (Or.inr (Or.inr (Or.inl isRef)))]
      rfl
  | @object type members entries body links kind names clean each holds short ih =>
      intro rest
      have count : links.length = members.length := by
        have lengths := congrArg List.length names
        rwa [← holds.members, List.length_map, List.length_map, List.length_map] at lengths
      have each' : ∀ pair ∈ members.zip links, Cloned sum pair.1.2 pair.2.2.value := by
        intro pair inside
        refine ih (pair.1, pair.2.2) ?_
        rw [← holds.members, List.zip_map_right]
        exact List.mem_map_of_mem (f := Prod.map id Prod.snd) inside
      rcases clone_laid count each' rest with ⟨links', cloned, alike, holds'⟩
      have entered := alike_members alike
      rw [holds.members] at entered
      refine ⟨.head type members.length body :: laid links', ?_, ?_, ?_⟩
      · rw [List.cons_append, clone_head (Or.inl (by rw [TypeWord.isArray, kind]; rfl)), cloned]
        rfl
      · have same : (laid links').length = (laid links).length := by
          rw [holds.length, (holds.of_alike alike).length, alike_laid_length entered]
        rw [List.length_cons, List.length_cons, same]
      · refine .object kind ?_ ?_ ?_ (holds.of_alike alike) ?_
        · rw [alike_map (fun _ _ same => same.1) entered, names]
        · intro entry inside
          have named : entry.name ∈ entries.map Member.name := by
            rw [← alike_map (fun _ _ same => same.1) entered]
            exact List.mem_map_of_mem inside
          rcases List.mem_map.mp named with ⟨other, member, same⟩
          rw [← same]
          exact clean other member
        · intro pair inside
          rw [List.zip_map_right] at inside
          rcases List.mem_map.mp inside with ⟨pair, member, rfl⟩
          exact holds' pair member
        · rw [alike_laid_length entered]
          exact short
  | reference kind direct represents =>
      exact single (by rw [TypeWord.isArray, kind]; rfl) (.reference kind direct represents)

/-! ## Duplicates -/

theorem ArrayBody.alloced {segments : List (List Token)} {type : TypeWord} {body : Body (List Token)}
    (holds : ArrayBody segments type body) : ArrayBody segments { type with alloced := true } body := by
  cases holds with
  | plain notUnif notIndexed => exact .plain notUnif notIndexed
  | uniform isUnif notIndexed same => exact .uniform isUnif notIndexed same
  | indexed notUnif isIndexed => exact .indexed notUnif isIndexed

theorem ObjectBody.alloced {entries : List Member} {type : TypeWord}
    {body : Body (List Token)} {links : List (Nat × Member)}
    (holds : ObjectBody sum entries type body links) :
    ObjectBody sum entries { type with alloced := true } body links := by
  cases holds with
  | plain notIndexed => exact .plain notIndexed
  | indexed isIndexed holds => exact .indexed isIndexed holds

theorem Represents.markAlloced (represents : Represents sum tree tokens) :
    Represents sum tree (markAlloced tokens) := by
  cases represents with
  | null kind => exact .null kind
  | bool kind => exact .bool kind
  | uint kind isUint => exact .uint kind isUint
  | number kind notUint => exact .number kind notUint
  | string kind notKey notRef short => exact .string kind notKey notRef short
  | referred kind notKey isRef clean cached => exact .referred kind notKey isRef clean cached
  | array kind notRef count each holds short => exact .array kind notRef count each holds.alloced short
  | concat kind isRef leftArray rightArray holdsLeft holdsRight =>
    exact .concat kind isRef leftArray rightArray holdsLeft holdsRight
  | object kind names clean each holds short => exact .object kind names clean each holds.alloced short
  | reference kind direct represents => exact .reference kind direct represents

/-- What duplicating a value should do: it is defined, a duplicate represents the
same tree, and so does the value afterwards. -/
structure Duplicates (env : Env) (format : UInt64 → List UInt8) (sum : List UInt8 → Nat) (tree : Json)
    (value : Pointer) : Prop where
  defined : jitsonDup env value ≠ .error .undefined
  copy : ∀ copy, jitsonDup env value = .ok copy → Denotes sum tree copy ∧
    toJson format sum copy = toJson format sum value
  value : ∀ copy, jitsonDup env value = .ok copy → Denotes sum tree (clone (dereference value)) ∧
    toJson format sum (clone (dereference value)) = toJson format sum value

variable {value : Pointer} {format : UInt64 → List UInt8}

theorem PointsTo.denotes (holds : PointsTo sum tree value) : Denotes sum tree value := by
  rcases holds with ⟨tokens, rest, rfl, represents⟩
  exact represents.denotes rest

/-- A value is as it was after it is cloned. -/
theorem PointsTo.clone (holds : PointsTo sum tree value) : PointsTo sum tree (Stack.clone (dereference value)) := by
  rcases holds.dereferenced with ⟨tokens, rest, here, represents⟩
  rcases represents.cloned rest with ⟨tokens', cloned, -, represents'⟩
  exact ⟨tokens', Stack.clone rest, here ▸ cloned, represents'⟩

theorem PointsTo.jitsonDup (holds : PointsTo sum tree value) {env : Env} {copy : Pointer}
    (copied : Jitson.jitsonDup env value = .ok copy) : PointsTo sum tree copy := by
  rcases holds.dereferenced with ⟨tokens, rest, here, represents⟩
  rcases represents.cloned rest with ⟨tokens', cloned, length, represents'⟩
  have taken : (Stack.clone (dereference value)).take (size (dereference value)) = tokens' := by
    rw [here, represents.size, cloned, ← length, List.take_left]
  unfold Jitson.jitsonDup at copied
  dsimp only at copied
  split at copied
  · cases copied
  · split at copied
    · cases copied
    · split at copied
      · cases copied
        rw [taken]
        exact ⟨_, [], (List.append_nil _).symm, represents'.markAlloced⟩
      · cases copied

/-- Duplicating a value is defined, and its duplicates are equal to it while it
is as before, if and only if all indexes that are copied are found and no array
is cloned that was given an index before. -/
theorem duplicates_iff (holds : PointsTo sum tree value) (address : Nat → Nat) :
    (∀ env, env.address = address → Duplicates env format sum tree value) ↔
      clonable address (dereference value) = true := by
  constructor
  · intro duplicates
    exact (jitsonDup_defined_iff value address).mp fun env isAddress => (duplicates env isAddress).defined
  · intro finds env isAddress
    refine ⟨(jitsonDup_defined_iff value address).mpr finds env isAddress, ?_, ?_⟩
    · intro copy copied
      have same := holds.jitsonDup copied
      exact ⟨same.denotes, by rw [same.toJson_eq, holds.toJson_eq]⟩
    · intro _ _
      exact ⟨holds.clone.denotes, by rw [holds.clone.toJson_eq, holds.toJson_eq]⟩

end

/-- The array `[0]`. -/
def justZero : Pointer := [.head { kind := .array } 1 (.integer 2), Stack.makeUint 0]

/-- The concatenation of `[0]` with itself. -/
def zeros (isOwn : Bool) : Pointer := [.head { kind := .array, isRef := true, isOwn := isOwn } 2
    (.concat justZero justZero), .more]

theorem represents_justZero : Represents (fun _ => 0) (.array [.uint 0]) justZero := by
  refine @Represents.array _ { kind := .array } [.uint 0] [[Stack.makeUint 0]] (.integer 2) rfl rfl rfl ?_
    (@ArrayBody.plain [[Stack.makeUint 0]] { kind := .array } rfl rfl) (by decide)
  intro pair inside
  rw [List.mem_singleton.mp inside]
  exact .uint rfl rfl

theorem pointsTo_zeros (isOwn : Bool) : PointsTo (fun _ => 0) (.array [.uint 0, .uint 0]) (zeros isOwn) := by
  refine ⟨zeros isOwn, [], (List.append_nil _).symm, ?_⟩
  exact @Represents.concat _ { kind := .array, isRef := true, isOwn := isOwn } [.uint 0]
    [.uint 0] justZero justZero [] []
    rfl rfl rfl rfl represents_justZero represents_justZero

/-- A concatenation that refers twice to an array of scalars is duplicated. -/
theorem duplicates_iff_zeros :
    Duplicates { numberEnv with address := fun _ => 0 } (fun _ => []) (fun _ => 0) (.array [.uint 0, .uint 0])
      (zeros false) :=
  (duplicates_iff (pointsTo_zeros false) fun _ => 0).mpr (by decide) _ rfl

/-- A concatenation that owns its arrays is not. -/
theorem duplicates_not_owned : PointsTo (fun _ => 0) (.array [.uint 0, .uint 0]) (zeros true) ∧
    ¬ Duplicates numberEnv (fun _ => []) (fun _ => 0) (.array [.uint 0, .uint 0]) (zeros true) := by
  refine ⟨pointsTo_zeros true, ?_⟩
  intro duplicates
  refine duplicates.defined ?_
  unfold jitsonDup
  dsimp only
  rw [if_neg (not_not.mpr (roomy_numberEnv.alloc _)), if_pos (by decide)]

end Jitson
end LibKit
