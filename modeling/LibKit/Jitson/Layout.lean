import LibKit.Jitson.Lockstep

namespace LibKit
namespace Jitson

open Stack (wrapped closedBody)

/-!
# The layout of parsed values

Values that follow each other are stepped over by their sizes.  The sizes of
strings, of member names and of arrays are computed from different fields, and
each of them may disagree with the tokens that the parser has used.
-/

/-! ## Stepping -/

/-- The offsets of segments of given lengths that follow each other. -/
def offsets : Nat → List Nat → List Nat
  | _, [] => []
  | start, length :: lengths => start :: offsets (start + length) lengths

/-- The sizes of segments that follow each other are their lengths. -/
def SizedAll : List (List Token) → List Token → Prop
  | [], _ => True
  | segment :: segments, rest =>
      size (segment ++ (segments.flatten ++ rest)) = segment.length ∧ SizedAll segments rest

/-- Stepping goes from segment to segment and ends behind the last. -/
theorem walkOffsets_iff {pointer start : List Token} {segments : List (List Token)} {rest : List Token}
    (holds : pointer = start ++ (segments.flatten ++ rest)) :
    walkOffsets pointer (segments.length + 1) start.length =
        offsets start.length (segments.map List.length) ++ [start.length + segments.flatten.length] ↔
      SizedAll segments rest := by
  induction segments generalizing start with
  | nil => simp [walkOffsets, offsets, SizedAll]
  | cons segment segments ih =>
      have here : pointer.drop start.length = segment ++ (segments.flatten ++ rest) := by
        rw [holds, List.drop_left, List.flatten_cons, List.append_assoc]
      have next : pointer = (start ++ segment) ++ (segments.flatten ++ rest) := by
        rw [holds, List.flatten_cons, List.append_assoc, List.append_assoc]
      have further := ih next
      rw [List.length_append] at further
      rw [List.length_cons, walkOffsets, here, List.map_cons, offsets, List.cons_append, List.cons.injEq, SizedAll,
        List.flatten_cons, List.length_append, ← Nat.add_assoc]
      refine ⟨?_, ?_⟩
      · rintro ⟨-, same⟩
        have sized : size (segment ++ (segments.flatten ++ rest)) = segment.length := by
          have heads := congrArg List.head? same
          have first : (offsets (start.length + segment.length) (segments.map List.length) ++
              [start.length + segment.length + segments.flatten.length]).head? =
                some (start.length + segment.length) := by
            cases segments <;> simp [offsets]
          rw [first, walkOffsets, List.head?_cons, Option.some.injEq] at heads
          omega
        rw [sized] at same
        exact ⟨sized, further.mp same⟩
      · rintro ⟨sized, others⟩
        rw [sized]
        exact ⟨rfl, further.mpr others⟩

/-! ## Sizes -/

def StringSized (bytes : List UInt8) : Prop := bytes.length < 2 ^ 32

/-- The tokens of a member name are as many as its bytes up to the first NUL
need, which alone are counted by `sxe_jitson_string_size`. -/
def KeySized (name : List UInt8) : Prop := ((CString.text (wrapped name)).length + 8) / 16 = (name.length + 8) / 16

/-- Blocks of the same length, which is small enough for its field. -/
def Uniformly (blocks : List Block) : Prop :=
  ∃ length, (∀ block ∈ blocks, block.tokens.length = length) ∧ 16 * length < 2 ^ 32

theorem size_string_iff (bytes : List UInt8) (rest : List Token) :
    size (stringTokens false bytes ++ rest) = (stringTokens false bytes).length ↔ StringSized bytes := by
  have sized : size (stringTokens false bytes ++ rest) = 1 + (bytes.length % 2 ^ 32 + 16 - 8) / 16 := by
    simp [size, stringSize, stringLen, stringTokens]
  rw [stringTokens_length, sized, StringSized]
  omega

theorem size_key_iff (name : List UInt8) (rest : List Token) :
    size (stringTokens true name ++ rest) = (stringTokens true name).length ↔ KeySized name := by
  rw [stringTokens_length, KeySized]
  change 1 + ((CString.text (wrapped name)).length + 16 - 8) / 16 = 1 + (name.length + 8) / 16 ↔ _
  omega

section

variable {ops : FloatOps} {optimize : Bool}

theorem size_object (members : List (List UInt8 × Block)) (rest : List Token)
    (short : (objectBlock members).tokens.length < 2 ^ 32) :
    size ((objectBlock members).tokens ++ rest) = (objectBlock members).tokens.length :=
  Nat.mod_eq_of_lt short

theorem flatten_length {blocks : List Block} {length : Nat} (same : ∀ block ∈ blocks, block.tokens.length = length) :
    (flatten blocks).length = blocks.length * length := by
  induction blocks with
  | nil => simp [flatten]
  | cons block blocks ih =>
      have others := ih fun other member => same other (List.mem_cons_of_mem _ member)
      rw [flatten_cons, List.length_append, others, same block List.mem_cons_self, List.length_cons, Nat.succ_mul,
        Nat.add_comm]

theorem size_arrayHead {type : TypeWord} {len : Nat} {body : Body (List Token)} (rest : List Token)
    (kind : type.kind = .array) (notRef : type.isRef = false) (notIndexed : type.isOwn = false) :
    size (.head type len body :: rest) =
      if type.isUnif then (1 + len * ((uniformSize (.head type len body :: rest) + 16 - 1) / 16)) % 2 ^ 32
      else integerOf (.head type len body :: rest) % 2 ^ 32 := by
  simp only [size, typeOf_head, kind, arraySize, notRef, Bool.false_eq_true, if_false, lenOf_head, sizeIndexed,
    TypeWord.indexed, notIndexed]

theorem size_array {blocks : List Block} (rest : List Token)
    (uniform : (parsedType ops optimize blocks).isUnif = true → Uniformly blocks)
    (short : (arrayBlock ops optimize blocks).tokens.length < 2 ^ 32) :
    size ((arrayBlock ops optimize blocks).tokens ++ rest) = (arrayBlock ops optimize blocks).tokens.length := by
  have total : (arrayBlock ops optimize blocks).tokens.length = (flatten blocks).length + 1 := rfl
  rw [total] at short ⊢
  refine (size_arrayHead _ rfl rfl rfl).trans ?_
  dsimp only
  split
  · rename_i isUnif
    rcases uniform isUnif with ⟨length, same, small⟩
    have tokens := flatten_length same
    by_cases empty : blocks.length = 0
    · rw [empty] at tokens ⊢
      rw [tokens]
      simp
    · have division : 16 * (flatten blocks).length / blocks.length % 2 ^ 32 = 16 * length := by
        rw [tokens, Nat.mul_left_comm, Nat.mul_div_cancel_left _ (Nat.pos_of_ne_zero empty), Nat.mod_eq_of_lt small]
      have body : closedBody (parsedType ops optimize blocks) blocks.length (flatten blocks).length =
          .uniform (16 * length) := by
        rw [closedBody, if_pos ⟨empty, rfl, isUnif⟩, division]
      have rounded : (16 * length + 16 - 1) / 16 = length := by omega
      rw [body]
      simp only [uniformSize, bodyOf_head, rounded]
      rw [← tokens, Nat.add_comm, Nat.mod_eq_of_lt short]
  · rename_i notUnif
    have body : closedBody (parsedType ops optimize blocks) blocks.length (flatten blocks).length =
        .integer ((flatten blocks).length + 1) := by
      rw [closedBody, if_neg fun all => notUnif all.2.2]
    rw [body]
    exact Nat.mod_eq_of_lt short

/-- The condition under which the size of a value is right, whatever the sizes
of the values in it. -/
def TopSized (ops : FloatOps) (optimize : Bool) : Json → Prop
  | .string bytes => StringSized bytes
  | .array elements =>
      (parsedType ops optimize (encodeAll ops optimize elements)).isUnif = true →
        Uniformly (encodeAll ops optimize elements)
  | _ => True

theorem size_encode {tree : Json} (sized : TopSized ops optimize tree) (rest : List Token)
    (short : (encode ops optimize tree).tokens.length < 2 ^ 32) :
    size ((encode ops optimize tree).tokens ++ rest) = (encode ops optimize tree).tokens.length := by
  cases tree with
  | null => rfl
  | bool value => rfl
  | uint value => rfl
  | number bits => rfl
  | string bytes => exact (size_string_iff bytes rest).mpr sized
  | array elements => exact size_array rest sized short
  | object members => exact size_object _ rest short

/-! ## Members -/

/-- The tokens of the names and the values of an object, one after another. -/
def memberSegments (members : List (List UInt8 × Block)) : List (List Token) :=
  (members.map fun member => [stringTokens true member.1, member.2.tokens]).flatten

theorem memberSegments_cons (name : List UInt8) (block : Block) (members : List (List UInt8 × Block)) :
    memberSegments ((name, block) :: members) =
      stringTokens true name :: block.tokens :: memberSegments members := rfl

theorem memberSegments_flatten (members : List (List UInt8 × Block)) :
    (memberSegments members).flatten = memberTokens members := by
  induction members with
  | nil => rfl
  | cons member members ih =>
      rw [memberSegments_cons, List.flatten_cons, List.flatten_cons, ih, memberTokens_cons, List.append_assoc]

theorem memberSegments_length (members : List (List UInt8 × Block)) :
    (memberSegments members).length = 2 * members.length := by
  induction members with
  | nil => rfl
  | cons member members ih =>
      rw [memberSegments_cons, List.length_cons, List.length_cons, ih, List.length_cons]
      omega

/-- Stepping over members is right if the sizes of their names are, given that
the sizes of their values are. -/
theorem sizedAll_members {members : List (List UInt8 × Json)} (rest : List Token)
    (values : ∀ member ∈ members, ∀ rest, size ((encode ops optimize member.2).tokens ++ rest) =
      (encode ops optimize member.2).tokens.length) :
    SizedAll (memberSegments (encodeMembers ops optimize members)) rest ↔ ∀ member ∈ members, KeySized member.1 := by
  induction members with
  | nil => simp [encodeMembers, memberSegments, SizedAll]
  | cons member members ih =>
      have others := ih fun other inside => values other (List.mem_cons_of_mem _ inside)
      have value := values member List.mem_cons_self
      rw [encodeMembers, memberSegments_cons, SizedAll, SizedAll, List.forall_mem_cons, others, size_key_iff]
      exact ⟨fun all => ⟨all.1, all.2.2⟩, fun all => ⟨all.1, value _, all.2⟩⟩

end

/-! ## Nested values -/

/-- A value nested in another at any depth, and the place where the parser has
put it. -/
inductive Nested (ops : FloatOps) (optimize : Bool) (tree : Json) (pointer : Pointer) : Json → Pointer → Prop where
  | here : Nested ops optimize tree pointer tree pointer
  | element {before : List Json} {element : Json} {behind : List Json} {place : Pointer}
      (array : Nested ops optimize tree pointer (.array (before ++ element :: behind)) place) :
      Nested ops optimize tree pointer element (place.drop (1 + (flatten (encodeAll ops optimize before)).length))
  | member {before : List (List UInt8 × Json)} {name : List UInt8} {value : Json} {behind : List (List UInt8 × Json)}
      {place : Pointer} (object : Nested ops optimize tree pointer
        (.object (before ++ (name, value) :: behind)) place) :
      Nested ops optimize tree pointer value
        (place.drop (1 + (memberTokens (encodeMembers ops optimize before)).length + (stringTokens true name).length))

/-- Sizes agree with what the parser has used for a value and for all values
nested in it, and stepping over an object finds its names and values. -/
def LayoutAgrees (ops : FloatOps) (optimize : Bool) (tree : Json) (pointer : Pointer) : Prop :=
  ∀ value place, Nested ops optimize tree pointer value place →
    size place = (encode ops optimize value).tokens.length ∧
    ∀ members, value = .object members → lenOf place = members.length ∧
      walkOffsets place (2 * members.length + 1) 1 =
        offsets 1 ((memberSegments (encodeMembers ops optimize members)).map List.length) ++
          [(encode ops optimize value).tokens.length]

/-- The lengths of all strings fit, and no member name has a NUL in front of
the tokens that it needs. -/
inductive Sized : Json → Prop where
  | null : Sized .null
  | bool (value : Bool) : Sized (.bool value)
  | uint (value : Nat) : Sized (.uint value)
  | number (bits : UInt64) : Sized (.number bits)
  | string {bytes : List UInt8} (fits : StringSized bytes) : Sized (.string bytes)
  | array {elements : List Json} (each : ∀ element ∈ elements, Sized element) : Sized (.array elements)
  | object {members : List (List UInt8 × Json)} (names : ∀ member ∈ members, KeySized member.1)
      (values : ∀ member ∈ members, Sized member.2) : Sized (.object members)

section

variable {ops : FloatOps} {optimize : Bool} {tree : Json} {pointer : Pointer}

theorem Nested.trans {middle value : Json} {between place : Pointer}
    (first : Nested ops optimize tree pointer middle between)
    (second : Nested ops optimize middle between value place) : Nested ops optimize tree pointer value place := by
  induction second with
  | here => exact first
  | element array ih => exact ih.element
  | member object ih => exact ih.member

theorem encodeAll_append (first second : List Json) :
    encodeAll ops optimize (first ++ second) = encodeAll ops optimize first ++ encodeAll ops optimize second := by
  simp only [encodeAll_eq, List.map_append]

theorem encodeMembers_append (first second : List (List UInt8 × Json)) :
    encodeMembers ops optimize (first ++ second) =
      encodeMembers ops optimize first ++ encodeMembers ops optimize second := by
  simp only [encodeMembers_eq, List.map_append]

/-- The tokens of an element, behind those of the elements before it. -/
theorem drop_element (before : List Json) (element : Json) (behind : List Json) (rest : List Token) :
    ((encode ops optimize (.array (before ++ element :: behind))).tokens ++ rest).drop
        (1 + (flatten (encodeAll ops optimize before)).length) =
      (encode ops optimize element).tokens ++ (flatten (encodeAll ops optimize behind) ++ rest) := by
  simp only [encode, arrayBlock, List.cons_append]
  rw [Nat.add_comm, List.drop_succ_cons, encodeAll_append, flatten_append, List.append_assoc, List.drop_left,
    encodeAll, flatten_cons, List.append_assoc]

theorem drop_member (before : List (List UInt8 × Json)) (name : List UInt8) (value : Json)
    (behind : List (List UInt8 × Json)) (rest : List Token) :
    ((encode ops optimize (.object (before ++ (name, value) :: behind))).tokens ++ rest).drop
        (1 + (memberTokens (encodeMembers ops optimize before)).length + (stringTokens true name).length) =
      (encode ops optimize value).tokens ++ (memberTokens (encodeMembers ops optimize behind) ++ rest) := by
  simp only [encode, objectBlock, List.cons_append]
  rw [Nat.add_assoc, Nat.add_comm, List.drop_succ_cons, encodeMembers_append, memberTokens_append, List.append_assoc,
    List.drop_length_add_append, encodeMembers, memberTokens_cons, List.append_assoc, List.append_assoc, List.drop_left]

theorem Nested.layout {value : Json} {place : Pointer} (nested : Nested ops optimize tree pointer value place)
    {rest : List Token} (holds : pointer = (encode ops optimize tree).tokens ++ rest) :
    (∃ rest, place = (encode ops optimize value).tokens ++ rest) ∧
      (encode ops optimize value).tokens.length ≤ (encode ops optimize tree).tokens.length := by
  induction nested with
  | here => exact ⟨⟨rest, holds⟩, Nat.le_refl _⟩
  | @element before element behind place array ih =>
      rcases ih with ⟨⟨rest, rfl⟩, shorter⟩
      refine ⟨⟨_, drop_element before element behind rest⟩, Nat.le_trans ?_ shorter⟩
      rw [encode_array_length, encodeAll_append, flatten_append, encodeAll, flatten_cons, List.length_append,
        List.length_append]
      omega
  | @member before name value behind place object ih =>
      rcases ih with ⟨⟨rest, rfl⟩, shorter⟩
      refine ⟨⟨_, drop_member before name value behind rest⟩, Nat.le_trans ?_ shorter⟩
      rw [encode_object_length, encodeMembers_append, memberTokens_append, encodeMembers, memberTokens_cons,
        List.length_append, List.length_append, List.length_append]
      dsimp only
      omega

theorem Sized.topSized (sized : Sized tree) : TopSized ops false tree := by
  cases sized with
  | string fits => exact fits
  | array each => exact fun isUnif => nomatch isUnif
  | _ => trivial

theorem Nested.sized {value : Json} {place : Pointer} (nested : Nested ops optimize tree pointer value place)
    (sized : Sized tree) : Sized value := by
  induction nested with
  | here => exact sized
  | element array ih =>
      cases ih with
      | array each => exact each _ (List.mem_append_right _ List.mem_cons_self)
  | member object ih =>
      cases ih with
      | object names values => exact values _ (List.mem_append_right _ List.mem_cons_self)

theorem walk_object_iff {members : List (List UInt8 × Json)} {rest : List Token}
    (values : ∀ member ∈ members, ∀ rest, size ((encode ops optimize member.2).tokens ++ rest) =
      (encode ops optimize member.2).tokens.length) :
    walkOffsets ((encode ops optimize (.object members)).tokens ++ rest) (2 * members.length + 1) 1 =
        offsets 1 ((memberSegments (encodeMembers ops optimize members)).map List.length) ++
          [(encode ops optimize (.object members)).tokens.length] ↔
      ∀ member ∈ members, KeySized member.1 := by
  have holds : (encode ops optimize (.object members)).tokens ++ rest =
      [.head { kind := .object } members.length
        (.integer ((memberTokens (encodeMembers ops optimize members)).length + 1))] ++
        ((memberSegments (encodeMembers ops optimize members)).flatten ++ rest) := by
    rw [memberSegments_flatten]
    simp only [encode, objectBlock, encodeMembers_eq, List.length_map, List.cons_append, List.nil_append]
  have walked := walkOffsets_iff holds
  have count : (memberSegments (encodeMembers ops optimize members)).length = 2 * members.length := by
    rw [memberSegments_length, encodeMembers_eq, List.length_map]
  rw [count, memberSegments_flatten, List.length_singleton, Nat.add_comm 1 (memberTokens _).length] at walked
  rw [encode_object_length, walked]
  exact sizedAll_members rest values

end

section

variable {ops : FloatOps}

theorem layoutAgrees_of_sized {tree : Json} (sized : Sized tree) (rest : List Token)
    (short : (encode ops false tree).tokens.length < 2 ^ 32) :
    LayoutAgrees ops false tree ((encode ops false tree).tokens ++ rest) := by
  intro value place nested
  have valueSized := nested.sized sized
  rcases nested.layout rfl with ⟨⟨rest', rfl⟩, shorter⟩
  have valueShort := Nat.lt_of_le_of_lt shorter short
  refine ⟨size_encode valueSized.topSized rest' valueShort, ?_⟩
  rintro members rfl
  cases valueSized with
  | object names values =>
      refine ⟨?_, (walk_object_iff ?_).mpr names⟩
      · simp only [encode, objectBlock, encodeMembers_eq, List.length_map, List.cons_append, lenOf_head]
      · intro member inside rest
        refine size_encode (values member inside).topSized rest ?_
        have within := length_le_memberTokens
          (List.mem_map_of_mem (f := fun member => (member.1, encode ops false member.2)) inside)
        rw [encode_object_length, encodeMembers_eq] at valueShort
        dsimp only at within
        omega

theorem LayoutAgrees.nested {tree value : Json} {pointer place : Pointer}
    (agrees : LayoutAgrees ops false tree pointer) (nested : Nested ops false tree pointer value place) :
    LayoutAgrees ops false value place :=
  fun inner innerPlace inside => agrees inner innerPlace (nested.trans inside)

/-- The strings and names of a tree are sized if its layout agrees. -/
theorem sized_of_layoutAgrees {tree : Json} {rest : List Token}
    (short : (encode ops false tree).tokens.length < 2 ^ 32)
    (agrees : LayoutAgrees ops false tree ((encode ops false tree).tokens ++ rest)) : Sized tree := by
  induction tree using Json.induction generalizing rest with
  | null => exact .null
  | bool value => exact .bool value
  | uint value => exact .uint value
  | number bits => exact .number bits
  | string bytes => exact .string ((size_string_iff bytes rest).mp (agrees _ _ .here).1)
  | array elements ih =>
      refine .array ?_
      intro element inside
      rcases List.append_of_mem inside with ⟨before, behind, rfl⟩
      have nested := @Nested.element ops false (.array (before ++ element :: behind))
        ((encode ops false (.array (before ++ element :: behind))).tokens ++ rest) before element behind _ .here
      have shorter := (nested.layout rfl).2
      rw [drop_element] at nested
      exact ih element inside (Nat.lt_of_le_of_lt shorter short) (agrees.nested nested)
  | object members ih =>
      have values : ∀ member ∈ members, Sized member.2 ∧ (encode ops false member.2).tokens.length < 2 ^ 32 := by
        intro member inside
        rcases List.append_of_mem inside with ⟨before, behind, rfl⟩
        have nested := @Nested.member ops false (.object (before ++ member :: behind))
          ((encode ops false (.object (before ++ member :: behind))).tokens ++ rest)
          before member.1 member.2 behind _ .here
        have shorter := Nat.lt_of_le_of_lt (nested.layout rfl).2 short
        rw [drop_member] at nested
        exact ⟨ih member inside shorter (agrees.nested nested), shorter⟩
      have walked := ((agrees _ _ .here).2 members rfl).2
      refine .object ((walk_object_iff ?_).mp walked) fun member inside => (values member inside).1
      intro member inside rest
      exact size_encode (values member inside).1.topSized rest (values member inside).2

end

/-! ## Parsed values -/

theorem load_count {env : Env} {stack : Stack} {source : Source} {result : Source × Stack}
    (loaded : stack.load env source = .ok result) : stack.count < 2 ^ 32 := by
  rw [Stack.load, Stack.loadJson] at loaded
  dsimp only at loaded
  split at loaded
  · cases loaded
  · rcases bind_ok loaded with ⟨expanded, done, -⟩
    have bound := (Stack.expand_cases done).1
    omega

/-- A text that is accepted with `SXE_JITSON_FLAG_STRICT` is read, and leaves
the tokens of its tree on the stack. -/
theorem load_strict {env : Env} {stack after : Stack} {source behind : Source} (strict : source.toFlags = {})
    (loaded : stack.load env source = .ok (behind, after)) :
    ∃ tree, read env.ops source = some (tree, behind) ∧
      after.jitsons = stack.jitsons ++ (encode env.ops false tree).tokens ∧
      stack.jitsons.length + (encode env.ops false tree).tokens.length < 2 ^ 32 := by
  have fits : Fits ⟨False, True⟩ env stack source := by
    refine ⟨⟨?_, ?_⟩, load_count loaded, False.elim, False.elim, False.elim⟩
    · intro name value known
      simp [strict, Stack.constGet, known]
    · intro
      rw [strict]
      exact ⟨rfl, rfl⟩
  have meets := load_meets fits
  rw [loaded] at meets
  cases reading : read env.ops source with
  | none =>
      rw [reading] at meets
      rcases meets trivial with ⟨failure, failed⟩
      cases failed
  | some wanted =>
      rw [reading] at meets
      rcases meets with ⟨result, same, holds⟩ | ⟨-, failure, failed⟩
      · cases same
        rcases wanted with ⟨tree, rest⟩
        rcases holds with ⟨same, short, maximum, -, stacked⟩
        dsimp only at same short stacked
        have flag : source.optimize = false := by
          rw [show source.optimize = source.toFlags.optimize from rfl, strict]
        rw [flag] at short stacked
        rw [List.length_append] at short
        exact ⟨tree, by rw [same], by rw [stacked], short⟩
      · cases failed

/-- A text that is accepted with `SXE_JITSON_FLAG_STRICT` leaves the tokens of
its tree on the stack, and they are laid out as their sizes say if and only if
the lengths of its strings fit and no NUL hides a part of a member name. -/
theorem parsed_layout_iff {env : Env} {stack after : Stack} {source behind : Source} (strict : source.toFlags = {})
    (loaded : stack.load env source = .ok (behind, after)) :
    ∃ tree, read env.ops source = some (tree, behind) ∧
      after.jitsons = stack.jitsons ++ (encode env.ops false tree).tokens ∧
      (LayoutAgrees env.ops false tree (after.pointer stack.count) ↔ Sized tree) := by
  rcases load_strict strict loaded with ⟨tree, reading, stacked, short⟩
  have place : after.pointer stack.count = (encode env.ops false tree).tokens ++ [] := by
    rw [Stack.pointer, stacked, Stack.count, List.drop_left, List.append_nil]
  refine ⟨tree, reading, stacked, ?_⟩
  rw [place]
  exact ⟨sized_of_layoutAgrees (by omega), fun sized => layoutAgrees_of_sized sized [] (by omega)⟩

/-- An environment without doubles and constants, where memory is never
short. -/
def plainEnv : Env where
  ops := ⟨fun _ _ => false, fun _ _ => false, fun _ => 0, fun _ => 0, fun _ => (0, 0)⟩
  alloc _ := true
  optimize := false

/-- `sxe_jitson_stack_new(1)` -/
def freshStack : Stack := ⟨1, [], true, 0, 0, 0⟩

/-- The layout of `{"a":[1]}`. -/
theorem parsed_layout_object : ∃ tree behind after,
    freshStack.load plainEnv (.fromString [123, 34, 97, 34, 58, 91, 49, 93, 125] [] {}) = .ok (behind, after) ∧
      LayoutAgrees plainEnv.ops false tree (after.pointer 0) := by
  have loaded := @parsed_layout_iff plainEnv freshStack _ (.fromString [123, 34, 97, 34, 58, 91, 49, 93, 125] [] {}) _
    rfl rfl
  rcases loaded with ⟨tree, reading, -, agrees⟩
  refine ⟨tree, _, _, rfl, agrees.mpr ?_⟩
  cases reading
  refine .object ?_ ?_
  · intro member inside
    rw [List.mem_singleton.mp inside]
    rfl
  · intro member inside
    rw [List.mem_singleton.mp inside]
    refine .array ?_
    intro element inside
    rw [List.mem_singleton.mp inside]
    exact .uint 1

/-- The eight bytes of the name in the text `{"\\u0000aaaaaaa":1}` take two
tokens, of which its size counts one: stepping over the object reads bytes of
the name as a token. -/
theorem parsed_layout_hidden : ∃ tree behind after,
    freshStack.load plainEnv
        (.fromString [123, 34, 92, 117, 48, 48, 48, 48, 97, 97, 97, 97, 97, 97, 97, 34, 58, 49, 125] [] {}) =
      .ok (behind, after) ∧
      read plainEnv.ops
        (.fromString [123, 34, 92, 117, 48, 48, 48, 48, 97, 97, 97, 97, 97, 97, 97, 34, 58, 49, 125] [] {}) =
      some (tree, behind) ∧
      walkOffsets (after.pointer 0) 3 1 = [1, 2, 2] ∧ ¬ LayoutAgrees plainEnv.ops false tree (after.pointer 0) := by
  refine ⟨_, _, _, rfl, rfl, rfl, ?_⟩
  intro agrees
  have walked := ((agrees _ _ .here).2 _ rfl).2
  exact absurd walked (by decide)

end Jitson
end LibKit
