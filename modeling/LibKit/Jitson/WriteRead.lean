import LibKit.Jitson.RoundTrip

namespace LibKit
namespace Jitson

/-!
# Writing a value and parsing it

What `sxe_jitson_to_json` writes for a value is parsed to an equal value, if no
object in it repeats a name.  A repeated name has its first value afterwards.
-/

/-! ## Values without repeated names -/

/-- Trees without doubles, in which no object repeats a name. -/
inductive Serial : Json → Prop where
  | null : Serial .null
  | bool (value : Bool) : Serial (.bool value)
  | uint {value : Nat} (small : value < 2 ^ 64) : Serial (.uint value)
  | string (bytes : List UInt8) : Serial (.string bytes)
  | array {elements : List Json} (each : ∀ element ∈ elements, Serial element) : Serial (.array elements)
  | object {members : List (List UInt8 × Json)} (distinct : (members.map Prod.fst).Nodup)
      (names : ∀ member ∈ members, 0 ∉ member.1) (values : ∀ member ∈ members, Serial member.2) :
      Serial (.object members)

section

variable {sum : List UInt8 → Nat} {tree : Json}

theorem Serial.fitting (serial : Serial tree) : Fitting tree := by
  induction serial with
  | null => exact .null
  | bool value => exact .bool value
  | uint small => exact .uint small
  | string bytes => exact .string bytes
  | array each ih => exact .array ih
  | object distinct names values ih => exact .object names ih

theorem Serial.numbers (serial : Serial tree) (holds : UInt64 → Prop) : EachNumber holds tree := by
  induction serial with
  | null => exact .null
  | bool value => exact .bool value
  | uint small => exact .uint _
  | string bytes => exact .string bytes
  | array each ih => exact .array ih
  | object distinct names values ih => exact .object ih

theorem firstValue_distinct {members : List (List UInt8 × Json)} (distinct : (members.map Prod.fst).Nodup)
    (name : List UInt8) :
    firstValue members name = lastValue members name := by
  have both := firstValue_isSome members name
  cases first : firstValue members name with
  | none =>
      rw [first] at both
      cases last : lastValue members name with
      | none => rfl
      | some value =>
          rw [last] at both
          cases both
  | some value =>
      rw [first] at both
      cases last : lastValue members name with
      | none =>
          rw [last] at both
          cases both
      | some value' =>
          have same := List.inj_on_of_nodup_map distinct (mem_of_firstValue first) (mem_of_lastValue last) rfl
          rw [(Prod.mk.inj same).2]

/-- The order of members does not matter where their names differ. -/
theorem Denotes.again {back : UInt64 → Json} {sum' : List UInt8 → Nat} (serial : Serial tree) {pointer : Pointer}
    (denotes : Denotes sum (again back sum' tree) pointer) : Denotes sum tree pointer := by
  induction serial generalizing pointer with
  | null => exact denotes
  | bool value => exact denotes
  | uint small => exact denotes
  | string bytes => exact denotes
  | @array elements each ih =>
      rw [Jitson.again, againAll_eq] at denotes
      cases denotes with
      | @array _ _ place type len found values =>
          rw [List.length_map] at len found
          refine .array type len found ?_
          intro i element isElement
          refine ih element (List.mem_of_getElem? isElement) (values i _ ?_)
          rw [List.getElem?_map, isElement]
          rfl
  | @object members distinct names values ih =>
      rw [again_object] at denotes
      cases denotes with
      | @object _ _ place type len found each =>
          have lookup : ∀ name, lastValue ((bucketed sum' members).map fun member =>
            (member.1, Jitson.again back sum' member.2)) name =
              (lastValue members name).map (Jitson.again back sum') := by
            intro name
            rw [lastValue_map, lastValue_bucketed, firstValue_distinct distinct]
          rw [List.length_map, (bucketed_perm members).length_eq] at len
          refine @Denotes.object _ _ _ place type len ?_ ?_
          · intro name
            rw [found, lookup, Option.map_map]
            rfl
          · intro name value isLast
            refine ih (name, value) (mem_of_lastValue isLast) (each name _ ?_)
            rw [lookup, isLast]
            rfl

variable {env : Env} {numeral : List UInt8 → Prop} {double : List UInt8 → UInt64} {format : UInt64 → List UInt8}
    {stack : Stack}

end

/-! ## What is parsed -/

inductive NulFree : Json → Prop where
  | null : NulFree .null
  | bool (value : Bool) : NulFree (.bool value)
  | uint (value : Nat) : NulFree (.uint value)
  | number (bits : UInt64) : NulFree (.number bits)
  | string (bytes : List UInt8) : NulFree (.string bytes)
  | array {elements : List Json} (each : ∀ element ∈ elements, NulFree element) : NulFree (.array elements)
  | object {members : List (List UInt8 × Json)} (names : ∀ member ∈ members, 0 ∉ member.1)
      (values : ∀ member ∈ members, NulFree member.2) : NulFree (.object members)

section

variable {ops : FloatOps}

theorem strtoul_lt (memory : List UInt8) (anyBase : Bool) : (Source.strtoul memory anyBase).1 < 2 ^ 64 := by
  have saturated : ∀ value : Nat, min value (2 ^ 64 - 1) < 2 ^ 64 := fun value =>
    Nat.lt_of_le_of_lt (Nat.min_le_right _ _) (by decide)
  rw [Source.strtoul]
  split
  · split
    · exact saturated _
    · exact saturated _
  · exact saturated _

theorem readNumber_regular {source behind : Source} {tree : Json} (read : readNumber ops source = some (tree, behind)) :
    Regular ops false tree ∧ Fitting tree := by
  rcases Option.map_eq_some_iff.mp read with ⟨⟨isUint, after⟩, -, same⟩
  cases isUint with
  | true =>
      cases same
      exact ⟨.uint _, .uint (strtoul_lt _ _)⟩
  | false =>
      cases same
      exact ⟨.number _, .number _⟩

theorem readIdentifier_regular {source behind : Source} {tree : Json}
    (read : readIdentifier source = some (tree, behind)) :
    Regular ops false tree ∧ Fitting tree := by
  rcases Option.map_eq_some_iff.mp read with ⟨value, isSymbol, same⟩
  cases same
  rw [symbol] at isSymbol
  split_ifs at isSymbol
  · cases isSymbol
    exact ⟨.bool true, .bool true⟩
  · cases isSymbol
    exact ⟨.bool false, .bool false⟩
  · cases isSymbol
    exact ⟨.null, .null⟩

/-- What is read from a source that is shorter than a string can be is regular and
fitting, but for NULs in names. -/
theorem reading_regular (fuel : Nat) :
    (∀ source tree behind, readValue ops fuel source = some (tree, behind) → source.next.length < 2 ^ 32 →
      NulFree tree →
      Regular ops false tree ∧ Fitting tree) ∧
    (∀ source c members behind, readMembers ops fuel source c = some (members, behind) → source.next.length < 2 ^ 32 →
      (∀ member ∈ members, 0 ∉ member.1 ∧ NulFree member.2) →
      ∀ member ∈ members, member.1.length < 2 ^ 32 ∧ Regular ops false member.2 ∧ Fitting member.2) ∧
    (∀ source elements behind, readElements ops fuel source = some (elements, behind) → source.next.length < 2 ^ 32 →
      (∀ element ∈ elements, NulFree element) → ∀ element ∈ elements, Regular ops false element ∧ Fitting element) := by
  induction fuel with
  | zero =>
      refine ⟨?_, ?_, ?_⟩
      · intro source tree behind read
        cases read
      · intro source c members behind read
        cases read
      · intro source elements behind read
        cases read
  | succ fuel ih =>
      rcases ih with ⟨values, memberLists, elementLists⟩
      refine ⟨?_, ?_, ?_⟩
      · intro source tree behind read short free
        have skipped := (Behind.skipSpace source).length_le
        have inside : ((source.skipSpace.consume 1).skipSpace).next.length ≤ source.next.length :=
          (((Behind.skipSpace source).trans (Behind.consume _ 1)).trans (Behind.skipSpace _)).length_le
        simp only [readValue] at read
        split at read
        · cases read
        · split at read
          · rcases Option.bind_eq_some_iff.mp read with ⟨⟨bytes, after⟩, string, same⟩
            cases same
            have room := (readString_behind string).2
            have few : bytes.length < 2 ^ 32 := by omega
            exact ⟨.string few, .string _⟩
          · split at read
            · cases read
              exact ⟨.object (List.forall_mem_nil _) (List.forall_mem_nil _),
                .object (List.forall_mem_nil _) (List.forall_mem_nil _)⟩
            · rcases Option.bind_eq_some_iff.mp read with ⟨⟨members, after⟩, isMembers, same⟩
              cases same
              cases free with
              | object names clean =>
                  have each := memberLists _ _ _ _ isMembers (by omega) fun member isMember =>
                    ⟨names member isMember, clean member isMember⟩
                  exact ⟨.object (fun member isMember => ⟨names member isMember, (each member isMember).1⟩)
                    fun member isMember => (each member isMember).2.1,
                      .object names fun member isMember => (each member isMember).2.2⟩
          · split at read
            · cases read
              exact ⟨.array (List.forall_mem_nil _) fun isUnif => (by cases isUnif), .array (List.forall_mem_nil _)⟩
            · rcases Option.bind_eq_some_iff.mp read with ⟨⟨elements, after⟩, isElements, same⟩
              cases same
              cases free with
              | array clean =>
                  have each := elementLists _ _ _ isElements (by omega) clean
                  exact ⟨.array (fun element isElement => (each element isElement).1) fun isUnif => (by cases isUnif),
                    .array fun element isElement => (each element isElement).2⟩
          · exact readNumber_regular read
          · exact readIdentifier_regular read
          · cases read
      · intro source c members behind read short free
        simp only [readMembers] at read
        split at read
        · cases read
        · rcases Option.bind_eq_some_iff.mp read with ⟨⟨name, afterName⟩, string, rest⟩
          have nameRoom := (readString_behind string).2
          dsimp only at rest
          split at rest
          · cases rest
          · rcases Option.bind_eq_some_iff.mp rest with ⟨⟨value, afterValue⟩, isValue, rest⟩
            have toValue : (afterName.skipSpace.consume 1).next.length ≤ afterName.next.length :=
              (Behind.getNonspace afterName).length_le
            have toRest : afterValue.next.length ≤ (afterName.skipSpace.consume 1).next.length :=
              ((@reading_behind ops false fuel).1 _ _ _ isValue).1.length_le
            have toNext : (afterValue.skipSpace.consume 1).skipSpace.next.length ≤ afterValue.next.length :=
              ((Behind.getNonspace afterValue).trans (Behind.skipSpace _)).length_le
            have few : name.length < 2 ^ 32 := by omega
            have shortValue : (afterName.skipSpace.consume 1).next.length < 2 ^ 32 := by omega
            have shortNext : (afterValue.skipSpace.consume 1).skipSpace.next.length < 2 ^ 32 := by omega
            dsimp only at rest
            split at rest
            · rcases Option.bind_eq_some_iff.mp rest with ⟨⟨others, after⟩, isOthers, same⟩
              cases same
              rw [List.forall_mem_cons] at free ⊢
              exact ⟨⟨few, values _ _ _ isValue shortValue free.1.2⟩, memberLists _ _ _ _ isOthers shortNext free.2⟩
            · split at rest
              · cases rest
                rw [List.forall_mem_singleton] at free ⊢
                exact ⟨few, values _ _ _ isValue shortValue free.2⟩
              · cases rest
      · intro source elements behind read short free
        simp only [readElements] at read
        rcases Option.bind_eq_some_iff.mp read with ⟨⟨element, afterElement⟩, isElement, rest⟩
        have toRest := ((@reading_behind ops false fuel).1 _ _ _ isElement).1.length_le
        have toNext : (afterElement.skipSpace.consume 1).next.length ≤ afterElement.next.length :=
          (Behind.getNonspace afterElement).length_le
        have shortNext : (afterElement.skipSpace.consume 1).next.length < 2 ^ 32 := by omega
        dsimp only at rest
        split at rest
        · rcases Option.bind_eq_some_iff.mp rest with ⟨⟨others, after⟩, isOthers, same⟩
          cases same
          rw [List.forall_mem_cons] at free ⊢
          exact ⟨values _ _ _ isElement short free.1, elementLists _ _ _ isOthers shortNext free.2⟩
        · split at rest
          · cases rest
            rw [List.forall_mem_singleton] at free ⊢
            exact values _ _ _ isElement short free
          · cases rest

end

/-! ## Repeated names -/

/-- Lookups of a name in two objects give the same. -/
def SameMember (ops : FloatOps) (sum : List UInt8 → Nat) (left right : Pointer) (name : List UInt8) : Prop :=
  (objectGetMember sum left name).isSome = (objectGetMember sum right name).isSome ∧
    ∀ first second, objectGetMember sum left name = some first → objectGetMember sum right name = some second →
      SameValue ops sum first second

section

variable {sum : List UInt8 → Nat} {env : Env} {numeral : List UInt8 → Prop} {double : List UInt8 → UInt64}
  {format : UInt64 → List UInt8} {stack : Stack}

/-- Lookups in an object that was written and parsed give the same as before if
and only if the first value of each name reads as its last. -/
theorem sameMember_iff {ops : FloatOps} {back : UInt64 → Json}
    {members : List (List UInt8 × Json)} {left right : Pointer}
    (first : Denotes sum (again back sum (.object members)) left) (second : Denotes sum (.object members) right) :
    (∀ name, SameMember ops sum left right name) ↔
      ∀ name value value', firstValue members name = some value → lastValue members name = some value' →
        Mirrors ops back value value' := by
  rw [again_object] at first
  have lookup : ∀ name, lastValue ((bucketed sum members).map fun member => (member.1, again back sum member.2)) name =
      (firstValue members name).map (again back sum) := by
    intro name
    rw [lastValue_map, lastValue_bucketed]
  cases first with
  | @object _ _ place type len found each =>
      cases second with
      | @object _ _ place' type' len' found' each' =>
          constructor
          · intro same name value value' isFirst isLast
            rw [@mirrors_iff back sum]
            have isLeft : lastValue ((bucketed sum members).map fun member =>
              (member.1, again back sum member.2)) name =
                some (again back sum value) := by
              rw [lookup, isFirst]
              rfl
            refine ((each name _ isLeft).sameValue_iff (each' name value' isLast)).mp ((same name).2 _ _ ?_ ?_)
            · rw [found, isLeft]
              rfl
            · rw [found', isLast]
              rfl
          · intro mirrors name
            refine ⟨?_, ?_⟩
            · rw [found, found', lookup, Option.isSome_map, Option.isSome_map, Option.isSome_map, firstValue_isSome]
            · intro one other isOne isOther
              rw [found, lookup] at isOne
              rw [found'] at isOther
              rcases Option.map_eq_some_iff.mp isOne with ⟨value, isValue, rfl⟩
              rcases Option.map_eq_some_iff.mp isValue with ⟨original, isFirst, rfl⟩
              rcases Option.map_eq_some_iff.mp isOther with ⟨value', isLast, rfl⟩
              refine ((each name _ ?_).sameValue_iff (each' name value' isLast)).mpr
                ((@mirrors_iff back sum).mp (mirrors name original value' isFirst isLast))
              rw [lookup, isFirst]
              rfl

/-- An object that is parsed from any text, written and parsed again, where what
is written fits into the stack and no double is infinite. -/
theorem repeated_name_iff {text behind : List UInt8} {left : Source} {after : Stack}
    {members : List (List UInt8 × Json)}
    (loaded : stack.load env (.fromString text behind {}) = .ok (left, after))
    (reading : read env.ops (.fromString text behind {}) = some (.object members, left)) (short : text.length < 2 ^ 32)
    (names : NulFree (.object members)) (numbers : ReadsNumbers numeral double env.ops.strtod)
    (writable : EachNumber (Writable format) (.object members)) (roomy : env.Roomy) (positive : 0 < stack.maximum)
    (room : stack.count + (printed format sum (.object members)).length ≤ 2 ^ 32 - 4096) (behind' : List UInt8) :
    ∃ text' left' after', toJson format sum (after.pointer stack.count) = some text' ∧
      stack.load env (.fromString text' behind' {}) = .ok (left', after') ∧
      ((∀ name, SameMember env.ops sum (after'.pointer stack.count) (after.pointer stack.count) name) ↔
        ∀ name value value', firstValue members name = some value → lastValue members name = some value' →
          Mirrors env.ops (rereadDouble format double) value value') := by
  rcases load_strict rfl loaded with ⟨tree, reading', stacked, few⟩
  rw [reading] at reading'
  cases reading'
  rcases (@reading_regular env.ops _).1 _ _ _ reading short names with ⟨regular, fitting⟩
  have represents := @Regular.represents env.ops false sum _ regular (by omega)
  rcases load_printed numbers fitting writable sum behind' roomy positive room with
    ⟨left', after', tokens', loaded', -, stacked', represents'⟩
  refine ⟨printed format sum (.object members), left', after', ?_, loaded', ?_⟩
  · rw [pointer_loaded stacked]
    exact (represents.printable []).text _ (Nat.le_refl _)
  · rw [pointer_loaded stacked, pointer_loaded stacked']
    exact sameMember_iff ((represents' sum).denotes []) (represents.denotes [])

end

/-- The text `{"\ud83d":18446744073709551616,"\ud83d":18446744073709551616}`, in
which the name is half of a surrogate pair and the integer is too large. -/
def halves : List UInt8 :=
  [123, 34, 92, 117, 100, 56, 51, 100, 34, 58, 49, 56, 52, 52, 54, 55, 52, 52, 48, 55, 51, 55, 48, 57, 53, 53, 49,
    54, 49, 54, 44,
    34, 92, 117, 100, 56, 51, 100, 34, 58, 49, 56, 52, 52, 54, 55, 52, 52, 48, 55, 51, 55, 48, 57, 53, 53, 49, 54,
      49, 54, 125]

theorem repeated_name_same : ∃ left after text' left' after',
    emptyStack.load numberEnv (.fromString halves [] {}) = .ok (left, after) ∧
      toJson (fun _ => []) (fun name => name.length) (after.pointer emptyStack.count) = some text' ∧
      emptyStack.load numberEnv (.fromString text' [] {}) = .ok (left', after') ∧
      ∀ name, SameMember numberEnv.ops (fun name => name.length) (after'.pointer emptyStack.count)
        (after.pointer emptyStack.count) name := by
  have same : ∀ member ∈ List.replicate 2 (([237, 160, 189], .uint (2 ^ 64 - 1)) : List UInt8 × Json),
      member = ([237, 160, 189], .uint (2 ^ 64 - 1)) := fun member inside => List.eq_of_mem_replicate inside
  have names : NulFree (.object (List.replicate 2 ([237, 160, 189], .uint (2 ^ 64 - 1)))) := by
    refine .object ?_ ?_
    · intro member inside
      rw [same member inside]
      decide
    · intro member inside
      rw [same member inside]
      exact .uint _
  have writable : EachNumber (Writable fun _ => [])
    (.object (List.replicate 2 ([237, 160, 189], .uint (2 ^ 64 - 1)))) := by
    refine .object ?_
    intro member inside
    rw [same member inside]
    exact .uint _
  have loaded : ∃ left after, emptyStack.load numberEnv (.fromString halves [] {}) = .ok (left, after) ∧
      read numberEnv.ops (.fromString halves [] {}) =
        some (.object (List.replicate 2 ([237, 160, 189], .uint (2 ^ 64 - 1))), left) := ⟨_, _, rfl, rfl⟩
  rcases loaded with ⟨left, after, loaded, reading⟩
  have round := @repeated_name_iff (fun name => name.length) numberEnv _ _ (fun _ => []) emptyStack halves
    [] left after _ loaded
    reading (by decide) names readsNumbers_longest writable roomy_numberEnv Nat.one_pos (by decide) []
  rcases round with ⟨text', left', after', isText', loaded', alike⟩
  refine ⟨left, after, text', left', after', loaded, isText', loaded', alike.mpr ?_⟩
  intro name value value' isFirst isLast
  have first : value = .uint (2 ^ 64 - 1) := congrArg Prod.snd (same _ (mem_of_firstValue isFirst))
  have last : value' = .uint (2 ^ 64 - 1) := congrArg Prod.snd (same _ (mem_of_lastValue isLast))
  rw [first, last]
  exact .uint (.number rfl rfl rfl)

/-- The text `{"a":1,"a":2}` is written as `{"a":2,"a":1}`, in which the last
value of the name is the first. -/
theorem repeated_name_first : ∃ left after text' left' after',
    emptyStack.load numberEnv (.fromString [123, 34, 97, 34, 58, 49, 44, 34, 97, 34, 58, 50, 125] [] {}) =
      .ok (left, after) ∧
      toJson (fun _ => []) (fun name => name.length) (after.pointer emptyStack.count) = some text' ∧
      emptyStack.load numberEnv (.fromString text' [] {}) = .ok (left', after') ∧
      ¬ SameMember numberEnv.ops (fun name => name.length) (after'.pointer emptyStack.count)
        (after.pointer emptyStack.count) [97] := by
  refine ⟨_, _, _, _, _, rfl, rfl, rfl, ?_⟩
  rintro ⟨-, same⟩
  cases same _ _ rfl rfl with
  | number isLeft isRight same => exact absurd same (by decide)
  | _ isLeft => cases isLeft

end Jitson
end LibKit
