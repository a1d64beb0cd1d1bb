import LibKit.Jitson.Equality
import LibKit.Jitson.Surroundings

namespace LibKit
namespace Jitson

open Stack (makeUint makeReference markAlloced clone clonable canClone)

/-!
# Truth values

`sxe_jitson_test` of the types of JSON and of ranges.  The test of an identifier,
which looks up its value with a hook, is left out.
-/

/-! ## Tests -/

/-- The comparison of a double with `0.0`, which is equal to both zeros. -/
def isNonzero (bits : UInt64) : Bool := bits &&& 0x7FFFFFFFFFFFFFFF ≠ 0

/-- The member `number` of a token, in which an integer may have been stored. -/
def doubleOf (pointer : Pointer) : UInt64 :=
  match bodyOf pointer with
  | .number bits => bits
  | .integer value => UInt64.ofNat value
  | _ => 0

/-- The test of a type, where `none` is `SXE_JITSON_TEST_ERROR`. -/
def testAs (kind : Kind) (pointer : Pointer) : Option Bool :=
  match kind with
  | .null => some false
  | .bool => some (boolOf pointer)
  | .number => some (isNonzero (doubleOf pointer))
  | .string => some (if (typeOf pointer).isRef then (bytesOf pointer).headD 0 ≠ 0 else lenOf pointer ≠ 0)
  | .array | .object => some (lenOf pointer ≠ 0)
  | .range => some true
  | .ident | .invalid | .reference => none

/-- `sxe_jitson_test`; that of a reference is the test of what it refers to. -/
def jitsonTest (pointer : Pointer) : Option Bool :=
  match (typeOf pointer).kind with
  | .reference => testAs (getType (dereference pointer)) (dereference pointer)
  | kind => testAs kind pointer

def Json.truth : Json → Bool
  | .null => false
  | .bool value => value
  | .uint value => value ≠ 0
  | .number bits => isNonzero bits
  | .string bytes => bytes.length ≠ 0
  | .array elements => elements.length ≠ 0
  | .object members => members.length ≠ 0

/-- `sxe_jitson_dup` -/
def jitsonDup (env : Env) (value : Pointer) : Except Fault Pointer :=
  let jitson := dereference value
  if ¬ env.alloc (size jitson) then .error .memory
  else if ¬ clonable env.address jitson then .error .undefined
  else if canClone env jitson then .ok (markAlloced ((clone jitson).take (size jitson)))
  else .error .memory

section

variable {sum : List UInt8 → Nat} {tree : Json} {tokens : List Token}

theorem jitsonTest_direct {pointer : Pointer} (direct : (typeOf pointer).kind ≠ .reference) :
    jitsonTest pointer = testAs (typeOf pointer).kind pointer := by
  unfold jitsonTest
  cases isKind : (typeOf pointer).kind with
  | reference => exact absurd isKind direct
  | _ => rfl

theorem jitsonTest_reference {type : TypeWord} (kind : type.kind = .reference) (len : Nat) {target : Pointer}
    (direct : (typeOf target).kind ≠ .reference) (rest : List Token) :
    jitsonTest (.head type len (.jitref target) :: rest) = jitsonTest target := by
  have here : dereference (.head type len (.jitref target) :: rest) = target :=
    dereference_reference kind len target rest
  have isType : getType target = (typeOf target).kind := by rw [getType, dereference_direct direct]
  rw [jitsonTest_direct direct]
  unfold jitsonTest
  rw [typeOf_head, kind, here, isType]

/-- What a tree is tested as: the bits of an integer are taken for a double. -/
def Json.tested : Json → Bool
  | .uint value => isNonzero (UInt64.ofNat value)
  | tree => tree.truth

/-- The first byte of a string is its NUL if the string is empty. -/
theorem headD_nonzero {bytes : List UInt8} (clean : 0 ∉ bytes) : bytes.headD 0 ≠ 0 ↔ bytes.length ≠ 0 := by
  cases bytes with
  | nil => exact ⟨fun differs => absurd rfl differs, fun some => absurd rfl some⟩
  | cons byte bytes =>
      refine ⟨fun _ => Nat.succ_ne_zero _, fun _ zero => clean ?_⟩
      rw [← show byte = 0 from zero]
      exact List.mem_cons_self

/-- All values of a tree are tested as the tree is, however they are stored. -/
theorem Represents.jitsonTest (represents : Represents sum tree tokens) (rest : List Token) :
    jitsonTest (tokens ++ rest) = some tree.tested := by
  have direct : ∀ {type : TypeWord} {kind : Kind} (len : Nat) (body : Body (List Token)) (rest : List Token),
    type.kind = kind →
      kind ≠ .reference → Jitson.jitsonTest (.head type len body :: rest) =
        testAs kind (.head type len body :: rest) := by
    rintro type kind len body rest rfl other
    exact jitsonTest_direct other
  induction represents generalizing rest with
  | null kind => exact direct _ _ _ kind (by decide)
  | bool kind => exact direct _ _ _ kind (by decide)
  | uint kind isUint => exact direct _ _ _ kind (by decide)
  | number kind notUint => exact direct _ _ _ kind (by decide)
  | @string type bytes kind notKey notRef short =>
      refine (direct _ _ _ kind (by decide)).trans ?_
      rw [testAs, typeOf_head, notRef, if_neg Bool.false_ne_true]
      rfl
  | @referred type len bytes kind notKey isRef clean cached =>
      refine (direct _ _ _ kind (by decide)).trans ?_
      rw [testAs, typeOf_head, isRef, if_pos rfl]
      exact congrArg some (decide_eq_decide.mpr (headD_nonzero clean))
  | array kind notRef count each holds short ih => exact direct _ _ _ kind (by decide)
  | concat kind isRef leftArray rightArray left right ihLeft ihRight => exact direct _ _ _ kind (by decide)
  | object kind names clean each holds short ih => exact direct _ _ _ kind (by decide)
  | @reference type len tree target behind kind notReference represents ih =>
      refine (jitsonTest_reference kind len ?_ rest).trans (ih behind)
      rw [represents.typeOf_append]
      exact notReference

/-! ## Copies -/

theorem PointsTo.jitsonTest {value : Pointer} (holds : PointsTo sum tree value) :
    Jitson.jitsonTest value = some tree.tested := by
  rcases holds with ⟨tokens, rest, rfl, represents⟩
  exact represents.jitsonTest rest

theorem PointsTo.target {value : Pointer} (holds : PointsTo sum tree value) :
    (typeOf (dereference value)).kind ≠ .reference ∧ 0 < size (dereference value) := by
  have kind : (typeOf (dereference value)).kind = tree.kind := holds.getType
  refine ⟨?_, ?_⟩
  · rw [kind]
    cases tree <;> exact Kind.noConfusion
  · rcases holds.dereferenced with ⟨tokens, rest, same, represents⟩
    rcases represents.nonempty with ⟨token, others, rfl⟩
    rw [same, represents.size]
    exact Nat.succ_pos _

/-- Duplicating a value is defined if it can be cloned, its arrays being where they
are. -/
theorem jitsonDup_defined_iff (value : Pointer) (address : Nat → Nat) :
    (∀ env, env.address = address → jitsonDup env value ≠ .error .undefined) ↔ clonable address
    (dereference value) = true := by
  constructor
  · intro defined
    by_contra lost
    refine defined { numberEnv with address := address } rfl ?_
    unfold jitsonDup
    dsimp only
    rw [if_neg (not_not.mpr (roomy_numberEnv.alloc _)), if_pos lost]
  · rintro finds env rfl
    unfold jitsonDup
    dsimp only
    rw [if_neg (not_not.mpr finds)]
    split
    · exact fun wrong => by cases wrong
    · split
      · exact fun wrong => by cases wrong
      · exact fun wrong => by cases wrong

/-! ## Texts -/

theorem Regular.jitsonTest {ops : FloatOps} (regular : Regular ops false tree) (optimize : Bool) (rest : List Token) :
    Jitson.jitsonTest ((encode ops optimize tree).tokens ++ rest) = some tree.tested := by
  cases regular with
  | null => rfl
  | bool value => rfl
  | uint value => rfl
  | number bits => rfl
  | @string bytes fits =>
      rw [encode, stringTokens_short fits]
      rfl
  | @array elements each uniform =>
      have count : (encodeAll ops optimize elements).length = elements.length := by rw [encodeAll_eq, List.length_map]
      rw [Json.tested, Json.truth, ← count]
      · rfl
      · exact fun _ => Json.noConfusion
  | @object members names values =>
      have count : (encodeMembers ops optimize members).length = members.length :=
        by rw [encodeMembers_eq, List.length_map]
      rw [Json.tested, Json.truth, ← count]
      · rfl
      · exact fun _ => Json.noConfusion

variable {format : UInt64 → List UInt8} {value : Pointer}

end

end Jitson
end LibKit
