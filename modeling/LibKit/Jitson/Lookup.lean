import LibKit.Jitson.Building

namespace LibKit
namespace Jitson

open Stack (wrapped)

/-!
# Looking up members

Lookups in objects that were parsed, and in objects that were built.
-/

def parsedMember (ops : FloatOps) (optimize : Bool) (member : List UInt8 × Json) : Member :=
  ⟨member.1, .copied, (encode ops optimize member.2).tokens⟩

/-- An object that was parsed, also as a part of another value, or that was
built by calls, with its members. -/
inductive Made (env : Env) : Pointer → List Member → Prop where
  | parsed {stack after : Stack} {source behind : Source} {tree : Json} {members : List (List UInt8 × Json)}
      {place : Pointer}
      (plain : Plain ⟨False, False⟩ env source.toFlags) (loaded : stack.load env source = .ok (behind, after))
      (reading : read env.ops source = some (tree, behind))
      (nested : Nested env.ops source.optimize tree (after.pointer stack.count) (.object members) place) :
      Made env place (members.map (parsedMember env.ops source.optimize))
  | built {stack after : Stack} {idx : Nat} {members : List Member} (building : Builds env idx members stack)
      (closing : stack.closeCollection env = .ok after) : Made env (after.pointer idx) members

/-! ## Parsed objects -/

section

variable {env : Env} {ops : FloatOps} {optimize : Bool}

theorem load_read {stack after : Stack} {source behind : Source} {tree : Json}
    (plain : Plain ⟨False, False⟩ env source.toFlags) (loaded : stack.load env source = .ok (behind, after))
    (reading : read env.ops source = some (tree, behind)) :
    after.jitsons = stack.jitsons ++ (encode env.ops source.optimize tree).tokens ∧
      stack.jitsons.length + (encode env.ops source.optimize tree).tokens.length < 2 ^ 32 := by
  have meets := load_meets ⟨plain, load_count loaded, False.elim, False.elim, False.elim⟩
  rw [loaded, reading] at meets
  rcases meets with ⟨result, same, -, short, maximum, -, stacked⟩ | ⟨-, failure, failed⟩
  · cases same
    dsimp only at short stacked
    rw [List.length_append] at short
    exact ⟨by rw [stacked], short⟩
  · cases failed

theorem parsedMember_tokens (member : List UInt8 × Json) (short : member.1.length < 2 ^ 32) :
    (parsedMember ops optimize member).tokens (parsedMember ops optimize member).len =
      stringTokens true member.1 ++ (encode ops optimize member.2).tokens := by
  have whole : wrapped member.1 = member.1 := by
    rw [wrapped, Nat.mod_eq_of_lt short, Nat.sub_self, List.drop_zero]
  rw [stringTokens, Nat.mod_eq_of_lt short, whole]
  rfl

/-- The members of a parsed object are laid out one after another. -/
theorem memberTokens_laid {members : List (List UInt8 × Json)} (short : ∀ member ∈ members, member.1.length < 2 ^ 32) :
    memberTokens (encodeMembers ops optimize members) = laid (fresh (members.map (parsedMember ops optimize))) := by
  induction members with
  | nil => rfl
  | cons member members ih =>
      have others := ih fun other inside => short other (List.mem_cons_of_mem _ inside)
      rw [encodeMembers, memberTokens_cons, others, List.map_cons, fresh_cons,
        parsedMember_tokens member (short member List.mem_cons_self)]

theorem isObject_encode {members : List (List UInt8 × Json)} (short : ∀ member ∈ members, member.1.length < 2 ^ 32)
    (rest : List Token) :
    IsObject ((encode ops optimize (.object members)).tokens ++ rest) (members.map (parsedMember ops optimize)) := by
  refine ⟨{ kind := .object }, (memberTokens (encodeMembers ops optimize members)).length + 1, rest, rfl, rfl, ?_⟩
  rw [← memberTokens_laid short]
  simp only [encode, objectBlock, encodeMembers_eq, List.length_map, List.cons_append]

/-- The values of a parsed object can be stepped over where their sizes are
right. -/
theorem walkable_parsed {members : List (List UInt8 × Json)}
    (sized : ∀ member ∈ members.dropLast, TopSized ops optimize member.2)
    (short : (encode ops optimize (.object members)).tokens.length < 2 ^ 32) :
    Walkable (members.map (parsedMember ops optimize)) := by
  intro member inside behind
  rw [← List.map_dropLast] at inside
  rcases List.mem_map.mp inside with ⟨original, isOriginal, rfl⟩
  refine size_encode (sized original isOriginal) behind ?_
  have within := length_le_memberTokens (List.mem_map_of_mem (f := fun member =>
    (member.1, encode ops optimize member.2))
    (List.mem_of_mem_dropLast isOriginal))
  rw [encode_object_length, encodeMembers_eq] at short
  dsimp only at within
  omega

end

/-- Lookups find the last member with a name, and do not depend on whether the
object is indexed, where the lengths of the names fit their fields and the
sizes of the values, but for the last, are those of their tokens. -/
theorem object_lookup {env : Env} {place : Pointer} {members : List Member} (made : Made env place members)
    (clean : ∀ member ∈ members, 0 ∉ member.name)
    (short : ∀ member ∈ members, member.keeping = .copied → member.name.length < 2 ^ 32) (walkable : Walkable members)
    (sum : List UInt8 → Nat) : LooksUp sum place members := by
  cases made with
  | @parsed stack after source behind tree members place plain loaded reading nested =>
      have stacked := (load_read plain loaded reading).1
      have here : after.pointer stack.count = (encode env.ops source.optimize tree).tokens ++ [] := by
        rw [Stack.pointer, stacked, Stack.count, List.drop_left, List.append_nil]
      rcases (nested.layout here).1 with ⟨rest, rfl⟩
      refine (isObject_encode ?_ rest).looksUp sum clean walkable
      intro member inside
      exact short _ (List.mem_map_of_mem inside) rfl
  | built building closing => exact (building.isObject closing).looksUp sum clean walkable

theorem plain_plainEnv (flags : Flags) : Plain ⟨False, False⟩ plainEnv flags := by
  refine ⟨?_, False.elim⟩
  intro name value known
  have none : (if flags.allowConsts then plainEnv.constants name else none) = none := by
    split
    · rfl
    · rfl
  simp only [Stack.constGet, none, known, Option.map_some]

/-- The text `{"a":1,"b":2,"a":3}`, where the last `a` is found. -/
theorem object_lookup_repeated : ∃ after behind,
    freshStack.load plainEnv (.fromString
      [123, 34, 97, 34, 58, 49, 44, 34, 98, 34, 58, 50, 44, 34, 97, 34, 58, 51, 125] [] {}) = .ok (behind, after) ∧
      LooksUp (fun name => name.length) (after.pointer 0)
        (([([97], .uint 1), ([98], .uint 2), ([97], .uint 3)] : List (List UInt8 × Json)).map
          (parsedMember plainEnv.ops false)) := by
  have made := @Made.parsed plainEnv freshStack _
    (.fromString [123, 34, 97, 34, 58, 49, 44, 34, 98, 34, 58, 50, 44, 34, 97, 34, 58, 51, 125] [] {}) _
    (.object [([97], .uint 1), ([98], .uint 2), ([97], .uint 3)]) _ _ (plain_plainEnv {}) rfl rfl .here
  refine ⟨_, _, rfl, object_lookup made ?_ ?_ ?_ _⟩
  · decide
  · intro member inside _
    simp only [List.map_cons, List.map_nil, List.mem_cons, List.not_mem_nil, or_false] at inside
    rcases inside with rfl | rfl | rfl
    · decide
    · decide
    · decide
  · apply walkable_parsed
    · intro member inside
      rcases List.mem_cons.mp inside with rfl | later
      · exact trivial
      · rw [List.mem_singleton.mp later]
        exact trivial
    · decide

/-- The text `{"a":[[1,2,3],4],"b":5}` parsed with `SXE_JITSON_FLAG_OPTIMIZE`.
The outer array counts as uniform, so its size is taken for seven tokens instead
of six, and the name `b` is not entered. -/
theorem object_lookup_skips : ∃ after behind,
    freshStack.load plainEnv (.fromString
      [123, 34, 97, 34, 58, 91, 91, 49, 44, 50, 44, 51, 93, 44, 52, 93, 44, 34, 98, 34, 58, 53, 125] []
      { optimize := true }) =
        .ok (behind, after) ∧
      objectGetMember (fun name => name.length) (after.pointer 0) [98] = none ∧
      ¬ LooksUp (fun name => name.length) (after.pointer 0)
        (([([97], .array [.array [.uint 1, .uint 2, .uint 3], .uint 4]),
          ([98], .uint 5)] : List (List UInt8 × Json)).map
          (parsedMember plainEnv.ops true)) := by
  refine ⟨_, _, rfl, rfl, ?_⟩
  intro looksUp
  have found := looksUp.finds [98]
  cases found

end Jitson
end LibKit
