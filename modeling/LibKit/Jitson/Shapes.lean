import LibKit.Jitson.Members

namespace LibKit
namespace Jitson

/-!
# Values and the trees that they represent

The same tree is represented by values of many shapes: strings are copied or kept
at a pointer, arrays are plain, uniform, indexed or concatenations, objects are
indexed or not, and references stand for other values.
-/

/-! ## Shapes -/

/-- What the head of an array says of its elements: where they are, by an index
or a size, or only how many tokens there are. -/
inductive ArrayBody (segments : List (List Token)) : TypeWord → Body (List Token) → Prop where
  | plain {type : TypeWord} (notUnif : type.isUnif = false) (notIndexed : type.isOwn = false) :
      ArrayBody segments type (.integer (segments.flatten.length + 1))
  | uniform {type : TypeWord} {body : Body (List Token)} {length : Nat} (isUnif : type.isUnif = true)
      (notIndexed : type.isOwn = false)
      (same : ∀ segment ∈ segments, segment.length = length ∧
        uniformSize [.head type segments.length body] = 16 * length) :
      ArrayBody segments type body
  | indexed {type : TypeWord} (notUnif : type.isUnif = false) (isIndexed : type.isOwn = true) :
      ArrayBody segments type
        (.index (offsets 1 (segments.map List.length) ++ [segments.flatten.length + 1]))

/-- What the head of an object says of its members, and the fields `len` of
their names. -/
inductive ObjectBody (sum : List UInt8 → Nat) (entries : List Member) :
    TypeWord → Body (List Token) → List (Nat × Member) → Prop where
  | plain {type : TypeWord} (notIndexed : type.isOwn = false) :
      ObjectBody sum entries type (.integer ((laid (fresh entries)).length + 1)) (fresh entries)
  | indexed {type : TypeWord} {buckets : List Nat} (isIndexed : type.isOwn = true)
      (holds : Buckets sum entries.length buckets (placed 1 entries)) :
      ObjectBody sum entries type (.index (buckets ++ [(laid (fresh entries)).length + 1]))
        (linked sum entries.length [] (placed 1 entries))

/-- The tokens of a value that represents a tree. -/
inductive Represents (sum : List UInt8 → Nat) : Json → List Token → Prop where
  | null {type : TypeWord} {len : Nat} {body : Body (List Token)} (kind : type.kind = .null) :
      Represents sum .null [.head type len body]
  | bool {type : TypeWord} {len : Nat} {value : Bool} (kind : type.kind = .bool) :
      Represents sum (.bool value) [.head type len (.boolean value)]
  | uint {type : TypeWord} {len value : Nat} (kind : type.kind = .number) (isUint : type.isUint = true) :
      Represents sum (.uint value) [.head type len (.integer value)]
  | number {type : TypeWord} {len : Nat} {bits : UInt64} (kind : type.kind = .number) (notUint : type.isUint = false) :
      Represents sum (.number bits) [.head type len (.number bits)]
  | string {type : TypeWord} {bytes : List UInt8} (kind : type.kind = .string) (notKey : type.isKey = false)
      (notRef : type.isRef = false) (short : bytes.length < 2 ^ 32) :
      Represents sum (.string bytes)
        (.head type bytes.length (.string bytes) :: List.replicate ((bytes.length + 8) / 16) .more)
  | referred {type : TypeWord} {len : Nat} {bytes : List UInt8} (kind : type.kind =
      .string) (notKey : type.isKey = false)
      (isRef : type.isRef = true) (clean : 0 ∉ bytes) (cached : len = 0 ∨ len = bytes.length) :
      Represents sum (.string bytes) [.head type len (.reference bytes)]
  | array {type : TypeWord} {elements : List Json} {segments : List (List Token)} {body : Body (List Token)}
      (kind : type.kind = .array) (notRef : type.isRef = false) (count : segments.length = elements.length)
      (each : ∀ pair ∈ elements.zip segments, Represents sum pair.1 pair.2) (holds : ArrayBody segments type body)
      (short : segments.flatten.length + 1 < 2 ^ 32) :
      Represents sum (.array elements) (.head type elements.length body :: segments.flatten)
  | concat {type : TypeWord} {first second : List Json} {left right leftRest rightRest : List Token}
      (kind : type.kind = .array) (isRef : type.isRef = true) (leftArray : (typeOf left).kind = .array)
      (rightArray : (typeOf right).kind = .array) (represents : Represents sum (.array first) left)
      (represents' : Represents sum (.array second) right) :
      Represents sum (.array (first ++ second))
        [.head type (first ++ second).length (.concat (left ++ leftRest) (right ++ rightRest)), .more]
  | object {type : TypeWord} {members : List (List UInt8 × Json)} {entries : List Member} {body : Body (List Token)}
      {links : List (Nat × Member)} (kind : type.kind = .object) (names : entries.map Member.name =
        members.map Prod.fst)
      (clean : ∀ entry ∈ entries, 0 ∉ entry.name)
      (each : ∀ pair ∈ members.zip entries, Represents sum pair.1.2 pair.2.value)
      (holds : ObjectBody sum entries type body links)
      (short : (laid (fresh entries)).length + 1 < 2 ^ 32) :
      Represents sum (.object members) (.head type members.length body :: laid links)
  | reference {type : TypeWord} {len : Nat} {tree : Json} {target rest : List Token} (kind : type.kind = .reference)
      (direct : (typeOf target).kind ≠ .reference) (represents : Represents sum tree target) :
      Represents sum tree [.head type len (.jitref (target ++ rest))]

/-! ## Sizes -/

section

variable {sum : List UInt8 → Nat}

theorem laid_length (links : List (Nat × Member)) :
    (laid links).length = (links.map fun entry => entry.2.width).sum := by
  induction links with
  | nil => rfl
  | cons entry links ih => rw [laid_cons, List.length_append, Member.tokens_length, ih, List.map_cons, List.sum_cons]

theorem linked_members {len : Nat} (entered entries : List (Nat × Member)) :
    (linked sum len entered entries).map Prod.snd = entries.map Prod.snd := by
  induction entries generalizing entered with
  | nil => rfl
  | cons entry entries ih => rw [linked, List.map_cons, List.map_cons, ih]

theorem fresh_members (entries : List Member) : (fresh entries).map Prod.snd = entries := by
  rw [fresh, List.map_map]
  exact List.map_id _

theorem ObjectBody.members {entries : List Member} {type : TypeWord}
    {body : Body (List Token)} {links : List (Nat × Member)}
    (holds : ObjectBody sum entries type body links) : links.map Prod.snd = entries := by
  cases holds with
  | plain notIndexed => exact fresh_members entries
  | indexed isIndexed holds => rw [linked_members, placed_members]

/-- The links do not change how many tokens there are. -/
theorem ObjectBody.length {entries : List Member} {type : TypeWord}
    {body : Body (List Token)} {links : List (Nat × Member)}
    (holds : ObjectBody sum entries type body links) : (laid links).length = (laid (fresh entries)).length := by
  have widths : ∀ links : List (Nat × Member), links.map Prod.snd = entries →
      (laid links).length = (entries.map Member.width).sum := by
    intro links same
    rw [laid_length, ← same, List.map_map]
    rfl
  rw [widths _ holds.members, widths _ (fresh_members entries)]

theorem flatten_uniform {segments : List (List Token)} {length : Nat}
    (same : ∀ segment ∈ segments, segment.length = length) :
    segments.flatten.length = segments.length * length := by
  induction segments with
  | nil => simp
  | cons segment segments ih =>
      rw [List.flatten_cons, List.length_append, ih fun other inside => same other (List.mem_cons_of_mem _ inside),
        same segment List.mem_cons_self, List.length_cons, Nat.succ_mul, Nat.add_comm]

theorem offsets_length (start : Nat) (lengths : List Nat) : (offsets start lengths).length = lengths.length := by
  induction lengths generalizing start with
  | nil => rfl
  | cons length lengths ih => rw [offsets, List.length_cons, List.length_cons, ih]

theorem Represents.size {tree : Json} {tokens : List Token} (represents : Represents sum tree tokens)
    (rest : List Token) :
    size (tokens ++ rest) = tokens.length := by
  cases represents with
  | null kind => simp [Jitson.size, kind]
  | bool kind => simp [Jitson.size, kind]
  | uint kind isUint => simp [Jitson.size, kind]
  | number kind notUint => simp [Jitson.size, kind]
  | string kind notKey notRef short =>
      simp only [Jitson.size, List.cons_append, typeOf_head, kind, stringSize, notRef, stringLen, notKey, lenOf_head]
      simp
      omega
  | referred kind notKey isRef clean cached => simp [Jitson.size, kind, stringSize, isRef]
  | @array type elements segments body kind notRef count each holds short =>
      rw [List.cons_append, List.length_cons]
      cases holds with
      | plain notUnif notIndexed =>
          simp only [Jitson.size, typeOf_head, kind, arraySize, notRef, notUnif, Bool.false_eq_true, if_false,
            sizeIndexed,
            TypeWord.indexed, notIndexed]
          exact Nat.mod_eq_of_lt short
      | @uniform _ length isUnif notIndexed same =>
          simp only [Jitson.size, typeOf_head, kind, arraySize, notRef, isUnif, Bool.false_eq_true, if_false,
            if_true, lenOf_head]
          have counted := flatten_uniform fun segment inside => (same segment inside).1
          rcases segments with _ | ⟨segment, segments⟩
          · rw [← count]
            simp
          · have bytes := (same segment List.mem_cons_self).2
            have rounded : (16 * length + 16 - 1) / 16 = length := by omega
            change (1 + elements.length * ((uniformSize [.head type
              (segment :: segments).length body] + 16 - 1) / 16)) % 2 ^ 32 = _
            rw [bytes, rounded, ← count, ← counted, Nat.add_comm, Nat.mod_eq_of_lt short]
      | indexed notUnif isIndexed =>
          simp only [Jitson.size, typeOf_head, kind, arraySize, notRef, notUnif, Bool.false_eq_true, if_false,
            sizeIndexed,
            TypeWord.indexed, isIndexed, if_true, lenOf_head]
          change (offsets 1 (segments.map List.length) ++ [segments.flatten.length + 1]).getD elements.length 0 = _
          have long : (offsets 1 (segments.map List.length)).length = elements.length := by
            rw [offsets_length, List.length_map, count]
          rw [← long, List.getD_append_right _ _ _ _ (Nat.le_refl _), Nat.sub_self]
          rfl
  | concat kind isRef leftArray rightArray left right => simp [Jitson.size, kind, arraySize, isRef]
  | @object type members entries body links kind names clean each holds short =>
      rw [List.cons_append, List.length_cons, holds.length]
      cases holds with
      | plain notIndexed =>
          simp only [Jitson.size, typeOf_head, kind, sizeIndexed, TypeWord.indexed, notIndexed,
            Bool.false_eq_true, if_false]
          exact Nat.mod_eq_of_lt short
      | @indexed buckets isIndexed holds =>
          simp only [Jitson.size, typeOf_head, kind, sizeIndexed, TypeWord.indexed, isIndexed, if_true, lenOf_head]
          change (buckets ++ [(laid (fresh entries)).length + 1]).getD members.length 0 = _
          have long : buckets.length = members.length := by
            rw [holds.length, ← List.length_map (f := Member.name), names, List.length_map]
          rw [← long, List.getD_append_right _ _ _ _ (Nat.le_refl _), Nat.sub_self]
          rfl
  | reference kind direct represents => simp [Jitson.size, kind]

end

end Jitson
end LibKit
