import LibKit.Jitson.Frames
import LibKit.Jitson.Layout

namespace LibKit
namespace Jitson

/-!
# Members of objects

The first lookup of a member enters all members of the object in the buckets of
an index.  The links of a bucket go through the lengths of the member names, so
the names of an indexed object are found by their NUL.
-/

/-! ## Layout -/

/-- How the name of a member is kept: with the member, or at a pointer. -/
inductive Keeping where
  | copied
  | referenced (owned : Bool)

structure Member where
  name : List UInt8
  keeping : Keeping
  value : List Token

namespace Member

/-- The tokens of a member name with the field `len`. -/
def key (member : Member) (len : Nat) : List Token :=
  match member.keeping with
  | .copied => .head { kind := .string, isKey := true } len (.string member.name) ::
      List.replicate ((member.name.length + 8) / 16) .more
  | .referenced owned =>
    [.head { kind := .string, isKey := true, isRef := true, isOwn := owned } len (.reference member.name)]

/-- The field `len` before the object is indexed. -/
def len (member : Member) : Nat :=
  match member.keeping with
  | .copied => member.name.length
  | .referenced _ => 0

def tokens (member : Member) (len : Nat) : List Token := member.key len ++ member.value

def keyWidth (member : Member) : Nat := (member.key 0).length

def width (member : Member) : Nat := member.keyWidth + member.value.length

variable (member : Member)

theorem key_length (len : Nat) : (member.key len).length = member.keyWidth := by
  rcases member with ⟨name, keeping, value⟩
  cases keeping with
  | copied => rfl
  | referenced owned => rfl

theorem tokens_length (len : Nat) : (member.tokens len).length = member.width := by
  rw [tokens, List.length_append, key_length, width]

/-- What is read at a member name. -/
theorem fields (len : Nat) (behind : List Token) :
    (typeOf (member.tokens len ++ behind)).isKey = true ∧ bytesOf (member.tokens len ++ behind) = member.name ∧
      lenOf (member.tokens len ++ behind) = len := by
  rcases member with ⟨name, keeping, value⟩
  cases keeping with
  | copied => exact ⟨rfl, rfl, rfl⟩
  | referenced owned => exact ⟨rfl, rfl, rfl⟩

theorem stringLen_eq (clean : 0 ∉ member.name) (len : Nat) (behind : List Token) :
    stringLen (member.tokens len ++ behind) = member.name.length := by
  rcases member.fields len behind with ⟨isKey, bytes, -⟩
  rw [stringLen, if_pos isKey, bytes, CString.text_eq_self clean]

theorem size_key (clean : 0 ∉ member.name) (len : Nat) (behind : List Token) :
    size (member.tokens len ++ behind) = member.keyWidth := by
  have counted := member.stringLen_eq clean len behind
  rcases member with ⟨name, keeping, value⟩
  cases keeping with
  | copied =>
      have sized : size (tokens ⟨name, .copied, value⟩ len ++ behind) =
          1 + (stringLen (tokens ⟨name, .copied, value⟩ len ++ behind) + 16 - 8) / 16 := rfl
      rw [sized, counted]
      simp only [keyWidth, key, List.length_cons, List.length_replicate]
      omega
  | referenced owned => rfl

theorem hashed (clean : 0 ∉ member.name) (behind : List Token) :
    (bytesOf (member.tokens member.len ++ behind)).take
        (if (typeOf (member.tokens member.len ++ behind)).isRef then
          (CString.text (bytesOf (member.tokens member.len ++ behind))).length
        else lenOf (member.tokens member.len ++ behind)) = member.name := by
  rcases member with ⟨name, keeping, value⟩
  cases keeping with
  | copied => exact List.take_length
  | referenced owned =>
      have text := CString.text_eq_self clean
      refine (congrArg (fun text => name.take text.length) text).trans ?_
      exact List.take_length

theorem setLen_tokens (len link : Nat) (start behind : List Token) :
    (start ++ (member.tokens len ++ behind)).modify start.length (setLen link) =
      start ++ (member.tokens link ++ behind) := by
  rcases member with ⟨name, keeping, value⟩
  cases keeping with
  | copied => exact Frame.modify_middle start _ _ _
  | referenced owned => exact Frame.modify_middle start _ _ _

end Member

/-- The members of an object, with the fields `len` of their names. -/
def laid (members : List (Nat × Member)) : List Token := (members.map fun entry => entry.2.tokens entry.1).flatten

theorem laid_cons (len : Nat) (member : Member) (members : List (Nat × Member)) :
    laid ((len, member) :: members) = member.tokens len ++ laid members := rfl

/-- The members with the fields that they have before the object is indexed. -/
def fresh (members : List Member) : List (Nat × Member) := members.map fun member => (member.len, member)

theorem fresh_cons (member : Member) (members : List Member) :
    laid (fresh (member :: members)) = member.tokens member.len ++ laid (fresh members) := rfl

/-- The members with their offsets in the object. -/
def placed : Nat → List Member → List (Nat × Member)
  | _, [] => []
  | start, member :: members => (start, member) :: placed (start + member.width) members

/-! ## The index -/

section

variable (sum : List UInt8 → Nat) (len : Nat)

/-- The member entered last in a bucket, or zero. -/
def latest (bucket : Nat) (entered : List (Nat × Member)) : Nat :=
  entered.foldl (fun last entry => if sum entry.2.name % len = bucket then entry.1 else last) 0

theorem latest_concat (bucket : Nat) (entered : List (Nat × Member)) (offset : Nat) (member : Member) :
    latest sum len bucket (entered ++ [(offset, member)]) =
      if sum member.name % len = bucket then offset else latest sum len bucket entered := by
  rw [latest, List.foldl_append]
  rfl

/-- The members with their links, after some were entered before. -/
def linked : List (Nat × Member) → List (Nat × Member) → List (Nat × Member)
  | _, [] => []
  | entered, (offset, member) :: members =>
      (latest sum len (sum member.name % len) entered, member) :: linked (entered ++ [(offset, member)]) members

/-- The buckets of the members that were entered. -/
structure Buckets (buckets : List Nat) (entered : List (Nat × Member)) : Prop where
  length : buckets.length = len
  each : ∀ bucket < len, buckets.getD bucket 0 = latest sum len bucket entered

end

/-- The sizes of the values are right, but for that of the last. -/
def Walkable (members : List Member) : Prop :=
  ∀ member ∈ members.dropLast, ∀ behind, size (member.value ++ behind) = member.value.length

section

variable {sum : List UInt8 → Nat} {len : Nat}

theorem Buckets.enter {buckets : List Nat} {entered : List (Nat × Member)} (holds : Buckets sum len buckets entered)
    (offset : Nat) (member : Member) (some : 0 < len) :
    Buckets sum len (buckets.set (sum member.name % len) offset) (entered ++ [(offset, member)]) := by
  refine ⟨by rw [List.length_set, holds.length], ?_⟩
  intro bucket inside
  rw [latest_concat]
  have here : sum member.name % len < buckets.length := by
    rw [holds.length]
    exact Nat.mod_lt _ some
  by_cases same : sum member.name % len = bucket
  · rw [if_pos same, same, List.getD_eq_getElem?_getD, List.getElem?_set_self (same ▸ here)]
    rfl
  · rw [if_neg same, List.getD_eq_getElem?_getD, List.getElem?_set_ne same, ← List.getD_eq_getElem?_getD]
    exact holds.each bucket inside

/-- Entering the first of the members that are left. -/
theorem indexMembers_step (member : Member) (count : Nat) (start behind : List Token) (buckets : List Nat)
    (clean : 0 ∉ member.name) :
    indexMembers sum len (count + 1) (start ++ (member.tokens member.len ++ behind)) buckets start.length =
      indexMembers sum len count
        (start ++ (member.tokens (buckets.getD (sum member.name % len) 0) ++ behind))
        (buckets.set (sum member.name % len) start.length)
        (start.length + member.keyWidth + size (member.value ++ behind)) := by
  have here : ∀ link, (start ++ (member.tokens link ++ behind)).drop start.length = member.tokens link ++ behind :=
    fun _ => List.drop_left
  have value : ∀ link, (start ++ (member.tokens link ++ behind)).drop (start.length + member.keyWidth) =
      member.value ++ behind := by
    intro link
    rw [List.drop_length_add_append, Member.tokens, List.append_assoc, ← member.key_length link, List.drop_left]
  simp only [indexMembers]
  rw [here, member.hashed clean, member.setLen_tokens, here, member.size_key clean, value]

/-- Entering the members writes their links, and fills the buckets. -/
theorem indexMembers_eq {members : List Member} {start rest : List Token} {buckets : List Nat}
    {entered : List (Nat × Member)} (some : 0 < len) (clean : ∀ member ∈ members, 0 ∉ member.name)
    (walkable : Walkable members) (holds : Buckets sum len buckets entered) :
    ∃ buckets', indexMembers sum len members.length (start ++ (laid (fresh members) ++ rest)) buckets start.length =
        (start ++ (laid (linked sum len entered (placed start.length members)) ++ rest), buckets') ∧
      Buckets sum len buckets' (entered ++ placed start.length members) := by
  induction members generalizing start buckets entered with
  | nil => exact ⟨buckets, rfl, by rw [placed, List.append_nil]; exact holds⟩
  | cons member members ih =>
      have link := holds.each (sum member.name % len) (Nat.mod_lt _ some)
      have entering := holds.enter start.length member some
      rw [fresh_cons, List.append_assoc, List.length_cons,
        indexMembers_step member _ start _ buckets (clean member List.mem_cons_self), link, placed, linked, laid_cons,
        List.append_assoc]
      cases members with
      | nil => exact ⟨_, rfl, entering⟩
      | cons next others =>
          rw [Walkable, List.dropLast_cons_cons, List.forall_mem_cons] at walkable
          have further := @ih (start ++ member.tokens (latest sum len (sum member.name % len) entered)) _ _
            (fun other inside => clean other (List.mem_cons_of_mem _ inside)) walkable.2 entering
          rcases further with ⟨buckets', indexed, holds'⟩
          rw [List.length_append, member.tokens_length] at indexed holds'
          refine ⟨buckets', ?_, ?_⟩
          · rw [walkable.1, Nat.add_assoc]
            rw [List.append_assoc, List.append_assoc] at indexed
            exact indexed
          · rw [List.append_assoc] at holds'
            exact holds'

/-! ## Finding a member -/

/-- Each member stands at its offset, and its link leads to the member entered
before it in its bucket. -/
def Threaded (sum : List UInt8 → Nat) (len : Nat) (object : Pointer) (entered : List (Nat × Member)) : Prop :=
  ∀ before offset member behind, entered = before ++ (offset, member) :: behind →
    0 < offset ∧ ∃ rest, object.drop offset = member.tokens (latest sum len (sum member.name % len) before) ++ rest

theorem Threaded.left {object : Pointer} {first second : List (Nat × Member)}
    (threaded : Threaded sum len object (first ++ second)) : Threaded sum len object first := by
  intro before offset member behind split
  apply threaded before offset member (behind ++ second)
  rw [split, List.append_assoc, List.cons_append]

/-- Behind its name is the value of a member. -/
theorem Threaded.value {object : Pointer} {entered : List (Nat × Member)} (threaded : Threaded sum len object entered) :
    ∀ entry ∈ entered, entry.2.value <+: object.drop (entry.1 + entry.2.keyWidth) := by
  rintro ⟨offset, member⟩ inside
  rcases List.append_of_mem inside with ⟨before, behind, split⟩
  rcases threaded before offset member behind split with ⟨-, rest, here⟩
  refine ⟨rest, ?_⟩
  rw [← List.drop_drop, here, Member.tokens, List.append_assoc, ← member.key_length _, List.drop_left]

theorem linked_threaded {members : List Member} {start rest : List Token} {entered : List (Nat × Member)}
    (some : 0 < start.length) {before : List (Nat × Member)} {offset : Nat} {member : Member}
      {behind : List (Nat × Member)}
    (split : placed start.length members = before ++ (offset, member) :: behind) :
    0 < offset ∧ ∃ rest', (start ++ (laid (linked sum len entered (placed start.length members)) ++ rest)).drop offset =
      member.tokens (latest sum len (sum member.name % len) (entered ++ before)) ++ rest' := by
  induction members generalizing start entered before with
  | nil => cases before <;> cases split
  | cons first members ih =>
      rw [placed, linked, laid_cons]
      cases before with
      | nil =>
          rw [placed, List.nil_append, List.cons.injEq, Prod.mk.injEq] at split
          rcases split with ⟨⟨rfl, rfl⟩, -⟩
          refine ⟨some, laid (linked sum len (entered ++ [(start.length, first)])
            (placed (start.length + first.width) members)) ++ rest, ?_⟩
          rw [List.drop_left, List.append_assoc, List.append_nil]
      | cons entry before =>
          rw [placed, List.cons_append, List.cons.injEq] at split
          rcases split with ⟨rfl, split⟩
          have width := first.tokens_length (latest sum len (sum first.name % len) entered)
          have further := @ih (start ++ first.tokens (latest sum len (sum first.name % len) entered))
            (entered ++ [(start.length, first)]) (by rw [List.length_append]; omega) before
            (by rw [List.length_append, width]; exact split)
          rw [List.length_append, width, List.append_assoc, List.append_assoc entered] at further
          rw [List.append_assoc]
          exact further

/-- Following the links of the bucket of a name finds the last member with that
name. -/
theorem findMember_eq {object : Pointer} {entered : List (Nat × Member)} (threaded : Threaded sum len object entered)
    (clean : ∀ entry ∈ entered, 0 ∉ entry.2.name) (name : List UInt8) {fuel : Nat} (enough : entered.length < fuel) :
    findMember object name fuel (latest sum len (sum name % len) entered) =
      (entered.reverse.find? fun entry => entry.2.name = name).map fun entry => object.drop
      (entry.1 + entry.2.keyWidth) := by
  induction entered using List.reverseRecOn generalizing fuel with
  | nil =>
      rcases fuel with _ | fuel
      · rfl
      · exact if_pos rfl
  | append_singleton before entry ih =>
      rcases entry with ⟨offset, member⟩
      have others := @ih threaded.left fun entry inside => clean entry (List.mem_append_left _ inside)
      have isClean : 0 ∉ member.name := clean (offset, member) (List.mem_append_right _ List.mem_cons_self)
      rw [List.length_append, List.length_singleton] at enough
      rw [latest_concat, List.reverse_append, List.reverse_singleton, List.singleton_append, List.find?_cons]
      by_cases bucket : sum member.name % len = sum name % len
      · rw [if_pos bucket]
        rcases threaded before offset member [] rfl with ⟨positive, rest, here⟩
        rw [bucket] at here
        rcases fuel with _ | fuel
        · exact absurd enough (Nat.not_lt_zero _)
        · rw [findMember, if_neg (Nat.ne_of_gt positive)]
          dsimp only
          rw [here, member.stringLen_eq isClean, (member.fields _ rest).2.1, (member.fields _ rest).2.2,
            member.size_key isClean, others (by omega)]
          by_cases same : member.name = name
          · rw [if_pos ⟨congrArg List.length same, by rw [← same, List.take_length]⟩, ← here, List.drop_drop]
            simp [same]
          · have differs : ¬ (member.name.length = name.length ∧ member.name.take name.length = name) := by
              rintro ⟨long, taken⟩
              rw [← long, List.take_length] at taken
              exact same taken
            rw [if_neg differs]
            simp [same]
      · have differs : member.name ≠ name := fun same => bucket (congrArg (fun name => sum name % len) same)
        rw [if_neg bucket, others (by omega)]
        simp [differs]

end

/-! ## Objects -/

/-- An object with these members that is not indexed. -/
def IsObject (pointer : Pointer) (members : List Member) : Prop :=
  ∃ type total rest, type.kind = .object ∧ type.isOwn = false ∧
    pointer = .head type members.length (.integer total) :: (laid (fresh members) ++ rest)

/-- What is expected of the lookups in an object, the first of which indexes
it. -/
structure LooksUp (sum : List UInt8 → Nat) (pointer : Pointer) (members : List Member) : Prop where
  finds : ∀ name, objectGetMember sum pointer name =
    ((placed 1 members).reverse.find? fun entry => entry.2.name = name).map fun entry =>
      (indexedObject sum pointer).drop (entry.1 + entry.2.keyWidth)
  value : ∀ entry ∈ placed 1 members, entry.2.value <+: (indexedObject sum pointer).drop (entry.1 + entry.2.keyWidth)
  again : ∀ name, objectGetMember sum (indexedObject sum pointer) name = objectGetMember sum pointer name
  size : size (indexedObject sum pointer) = size pointer
  len : lenOf (indexedObject sum pointer) = lenOf pointer

section

variable {sum : List UInt8 → Nat} {pointer : Pointer} {members : List Member}

theorem buckets_empty (sum : List UInt8 → Nat) (len : Nat) : Buckets sum len (List.replicate len 0) [] := by
  refine ⟨List.length_replicate, ?_⟩
  intro bucket inside
  rw [List.getD_eq_getElem?_getD, List.getElem?_replicate, if_pos inside]
  rfl

/-- Indexing an object changes its head and the links of its names. -/
theorem indexObject_eq (type : TypeWord) (total : Nat) (rest : List Token) (clean : ∀ member ∈ members, 0 ∉ member.name)
    (walkable : Walkable members) :
    ∃ buckets, indexObject sum (.head type members.length (.integer total) :: (laid (fresh members) ++ rest)) =
        .head { type with isOwn := true } members.length (.index (buckets ++ [total % 2 ^ 32])) ::
          (laid (linked sum members.length [] (placed 1 members)) ++ rest) ∧
      Buckets sum members.length buckets (placed 1 members) := by
  by_cases some : 0 < members.length
  · rcases @indexMembers_eq sum members.length members [.head type members.length (.integer total)] rest _ [] some clean
      walkable (buckets_empty sum members.length) with ⟨buckets, indexed, holds⟩
    refine ⟨buckets, ?_, holds⟩
    have entered : indexMembers sum members.length members.length
        (.head type members.length (.integer total) :: (laid (fresh members) ++ rest))
        (List.replicate members.length 0) 1 =
        (.head type members.length (.integer total) :: (laid (linked sum members.length [] (placed 1 members)) ++ rest),
          buckets) := indexed
    simp only [indexObject, lenOf_head, entered]
    rfl
  · have empty : members = [] := List.length_eq_zero_iff.mp (Nat.eq_zero_of_not_pos some)
    subst empty
    exact ⟨[], rfl, buckets_empty sum 0⟩

theorem placed_length (start : Nat) (members : List Member) : (placed start members).length = members.length := by
  induction members generalizing start with
  | nil => rfl
  | cons member members ih => rw [placed, List.length_cons, List.length_cons, ih]

theorem placed_members (start : Nat) (members : List Member) : (placed start members).map Prod.snd = members := by
  induction members generalizing start with
  | nil => rfl
  | cons member members ih => rw [placed, List.map_cons, ih]

theorem mem_of_placed {start : Nat} {entry : Nat × Member} (inside : entry ∈ placed start members) :
    entry.2 ∈ members := by
  rw [← placed_members start members]
  exact List.mem_map_of_mem inside

theorem objectGetMember_indexed {type : TypeWord} {buckets : List Nat} {total : Nat} {object : List Token}
    (kind : type.kind = .object) (owns : type.isOwn = true)
    (holds : Buckets sum members.length buckets (placed 1 members))
    (threaded : Threaded sum members.length (.head type members.length (.index (buckets ++ [total])) :: object)
    (placed 1 members))
    (clean : ∀ member ∈ members, 0 ∉ member.name) (name : List UInt8) :
    objectGetMember sum (.head type members.length (.index (buckets ++ [total])) :: object) name =
      ((placed 1 members).reverse.find? fun entry => entry.2.name = name).map fun entry =>
        (.head type members.length (.index (buckets ++ [total])) :: object : List Token).drop (entry.1 +
          entry.2.keyWidth) := by
  have direct : dereference (.head type members.length (.index (buckets ++ [total])) :: object) =
      .head type members.length (.index (buckets ++ [total])) :: object := by
    simp [dereference, isReference, kind]
  have indexed : indexedObject sum (.head type members.length (.index (buckets ++ [total])) :: object) =
      .head type members.length (.index (buckets ++ [total])) :: object := by
    rw [indexedObject, typeOf_head, TypeWord.indexed, owns, if_pos rfl]
  simp only [objectGetMember, direct, indexed, lenOf_head]
  by_cases empty : members.length = 0
  · have none : members = [] := List.length_eq_zero_iff.mp empty
    subst none
    rfl
  · have inside := Nat.mod_lt (sum name) (Nat.pos_of_ne_zero empty)
    have bucket : (indexOf (.head type members.length (.index (buckets ++ [total])) :: object)).getD
        (sum name % members.length) 0 = latest sum members.length (sum name % members.length) (placed 1 members) := by
      rw [← holds.each _ inside]
      change (buckets ++ [total]).getD _ 0 = _
      rw [List.getD_append _ _ _ _ (holds.length ▸ inside)]
    rw [if_neg empty, bucket]
    apply findMember_eq threaded
    · exact fun entry inside => clean entry.2 (mem_of_placed inside)
    · rw [placed_length]
      exact Nat.lt_succ_self _

/-- Lookups in an object find the last member with a name, whatever the hash
function. -/
theorem IsObject.looksUp (isObject : IsObject pointer members) (sum : List UInt8 → Nat)
    (clean : ∀ member ∈ members, 0 ∉ member.name) (walkable : Walkable members) : LooksUp sum pointer members := by
  rcases isObject with ⟨type, total, rest, kind, notIndexed, rfl⟩
  rcases @indexObject_eq sum members type total rest clean walkable with ⟨buckets, indexing, holds⟩
  have indexed : indexedObject sum (.head type members.length (.integer total) :: (laid (fresh members) ++ rest)) =
      .head { type with isOwn := true } members.length (.index (buckets ++ [total % 2 ^ 32])) ::
        (laid (linked sum members.length [] (placed 1 members)) ++ rest) := by
    rw [indexedObject, typeOf_head, TypeWord.indexed, notIndexed, if_neg Bool.false_ne_true, indexing]
  have threaded : Threaded sum members.length (.head { type with isOwn := true } members.length
      (.index (buckets ++ [total % 2 ^ 32])) :: (laid (linked sum members.length [] (placed 1 members)) ++ rest))
      (placed 1 members) := by
    intro before offset member behind split
    exact @linked_threaded sum members.length members [_] rest [] Nat.one_pos before offset member behind split
  have again : ∀ name, objectGetMember sum (indexedObject sum
      (.head type members.length (.integer total) :: (laid (fresh members) ++ rest))) name =
      objectGetMember sum (.head type members.length (.integer total) :: (laid (fresh members) ++ rest)) name := by
    intro name
    simp only [objectGetMember, dereference, isReference, indexed, typeOf_head, kind, reduceCtorEq, decide_false,
      Bool.false_eq_true, if_false, lenOf_head]
    rfl
  refine ⟨?_, ?_, again, ?_, ?_⟩
  · intro name
    rw [← again, indexed]
    exact @objectGetMember_indexed sum members { type with isOwn := true } buckets _ _ kind rfl holds threaded clean name
  · rw [indexed]
    exact threaded.value
  · rw [indexed]
    simp only [size, typeOf_head, kind, sizeIndexed, TypeWord.indexed, notIndexed, lenOf_head]
    change (buckets ++ [total % 2 ^ 32]).getD members.length 0 = total % 2 ^ 32
    rw [← holds.length, List.getD_append_right _ _ _ _ (Nat.le_refl _), Nat.sub_self]
    rfl
  · rw [indexed]
    rfl

end

end Jitson
end LibKit
