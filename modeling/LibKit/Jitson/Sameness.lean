import LibKit.Jitson.Observing

namespace LibKit
namespace Jitson

/-!
# Values that cannot be told apart

Two values are alike if the accessors give the same for both.  Numbers are
compared as `sxe_jitson_eq` does, and objects by the lookups of all names.
-/

inductive SameValue (ops : FloatOps) (sum : List UInt8 → Nat) : Pointer → Pointer → Prop where
  | null {left right : Pointer} (isLeft : getType left = .null) (isRight : getType right = .null) :
    SameValue ops sum left right
  | bool {left right : Pointer} (isLeft : getType left = .bool) (isRight : getType right = .bool)
      (same : boolOf (dereference left) = boolOf (dereference right)) : SameValue ops sum left right
  | number {left right : Pointer} (isLeft : getType left = .number) (isRight : getType right = .number)
      (same : numberCmp ops (dereference left) (dereference right) = 0) : SameValue ops sum left right
  | string {left right : Pointer} (isLeft : getType left = .string) (isRight : getType right = .string)
      (len : stringLen (dereference left) = stringLen (dereference right))
      (same : bytesOf (dereference left) = bytesOf (dereference right)) : SameValue ops sum left right
  | array {left right : Pointer} (isLeft : getType left = .array) (isRight : getType right = .array)
      (len : lenOf (dereference left) = lenOf (dereference right))
      (found : ∀ i, (arrayGetElement left i).isSome = (arrayGetElement right i).isSome)
      (each : ∀ i first second, arrayGetElement left i = some first → arrayGetElement right i = some second →
        SameValue ops sum first second) : SameValue ops sum left right
  | object {left right : Pointer} (isLeft : getType left = .object) (isRight : getType right = .object)
      (len : lenOf (dereference left) = lenOf (dereference right))
      (found : ∀ name, (objectGetMember sum left name).isSome = (objectGetMember sum right name).isSome)
      (each : ∀ name first second, objectGetMember sum left name = some first →
        objectGetMember sum right name = some second →
        SameValue ops sum first second) : SameValue ops sum left right

def numberToken : Json → Token
  | .uint value => Stack.makeUint value
  | .number bits => Stack.makeNumber bits
  | _ => Stack.nullValue

inductive Matches (ops : FloatOps) : Json → Json → Prop where
  | null : Matches ops .null .null
  | bool (value : Bool) : Matches ops (.bool value) (.bool value)
  | number {left right : Json} (isLeft : (typeOf [numberToken left]).kind = .number)
      (isRight : (typeOf [numberToken right]).kind = .number)
      (same : numberCmp ops [numberToken left] [numberToken right] = 0) : Matches ops left right
  | string (bytes : List UInt8) : Matches ops (.string bytes) (.string bytes)
  | array {left right : List Json} (len : left.length = right.length)
      (each : ∀ (i : Nat) (first second : Json), left[i]? = some first → right[i]? = some second →
        Matches ops first second) :
      Matches ops (.array left) (.array right)
  | object {left right : List (List UInt8 × Json)} (len : left.length = right.length)
      (found : ∀ name, (lastValue left name).isSome = (lastValue right name).isSome)
      (each : ∀ name first second, lastValue left name = some first → lastValue right name = some second →
        Matches ops first second) : Matches ops (.object left) (.object right)

section

variable {ops : FloatOps} {sum : List UInt8 → Nat} {tree other : Json} {left right : Pointer}

def Json.kind : Json → Kind
  | .null => .null
  | .bool _ => .bool
  | .uint _ | .number _ => .number
  | .string _ => .string
  | .array _ => .array
  | .object _ => .object

theorem Denotes.getType (denotes : Denotes sum tree left) : getType left = tree.kind := by
  cases denotes with
  | null type => exact type
  | bool type same => exact type
  | uint type isUint same => exact type
  | number type notUint same => exact type
  | string type len same => exact type
  | array type len found each => exact type
  | object type len found each => exact type

theorem numberToken_kind (tree : Json) : (typeOf [numberToken tree]).kind = .number ↔ tree.kind = .number := by
  cases tree <;> simp [numberToken, Json.kind, Stack.nullValue, Stack.makeUint, Stack.makeNumber]

theorem Denotes.numberCmp (first : Denotes sum tree left) (second : Denotes sum other right)
    (isLeft : tree.kind = .number)
    (isRight : other.kind = .number) :
    numberCmp ops (dereference left) (dereference right) = numberCmp ops [numberToken tree] [numberToken other] := by
  have uint : ∀ value, (typeOf [Stack.makeUint value]).isUint = true ∧ integerOf [Stack.makeUint value] = value :=
    fun _ => ⟨rfl, rfl⟩
  have number : ∀ bits, (typeOf [Stack.makeNumber bits]).isUint = false ∧ numberOf [Stack.makeNumber bits] = bits :=
    fun _ => ⟨rfl, rfl⟩
  cases first with
  | uint type isUint same =>
      cases second with
      | uint type' isUint' same' => simp [Jitson.numberCmp, numberToken, isUint, isUint', same, same', uint]
      | number type' notUint' same' => simp [Jitson.numberCmp, numberToken, isUint, notUint', same, same', uint, number]
      | _ => cases isRight
  | number type notUint same =>
      cases second with
      | uint type' isUint' same' => simp [Jitson.numberCmp, numberToken, notUint, isUint', same, same', uint, number]
      | number type' notUint' same' => simp [Jitson.numberCmp, numberToken, notUint, notUint', same, same', number]
      | _ => cases isRight
  | _ => cases isLeft

theorem SameValue.getType (same : SameValue ops sum left right) : getType left = getType right := by
  cases same with
  | null isLeft isRight => exact isLeft.trans isRight.symm
  | bool isLeft isRight same => exact isLeft.trans isRight.symm
  | number isLeft isRight same => exact isLeft.trans isRight.symm
  | string isLeft isRight len same => exact isLeft.trans isRight.symm
  | array isLeft isRight len found each => exact isLeft.trans isRight.symm
  | object isLeft isRight len found each => exact isLeft.trans isRight.symm

theorem Matches.kind (matching : Matches ops tree other) : tree.kind = other.kind := by
  cases matching with
  | number isLeft isRight same =>
    exact ((numberToken_kind tree).mp isLeft).trans ((numberToken_kind other).mp isRight).symm
  | _ => rfl

theorem Denotes.sameNumber_iff (first : Denotes sum tree left) (second : Denotes sum other right)
    (isLeft : tree.kind = .number)
    (isRight : other.kind = .number) : SameValue ops sum left right ↔ Matches ops tree other := by
  have compared := @Denotes.numberCmp ops sum tree other left right first second isLeft isRight
  constructor
  · intro alike
    cases alike with
    | number type type' same =>
        exact .number ((numberToken_kind tree).mpr isLeft) ((numberToken_kind other).mpr isRight)
          (compared.symm.trans same)
    | _ type =>
        rw [first.getType, isLeft] at type
        cases type
  · intro matching
    cases matching with
    | number type type' same =>
      exact .number (first.getType.trans isLeft) (second.getType.trans isRight) (compared.trans same)
    | _ => cases isLeft

theorem mem_of_lastValue {members : List (List UInt8 × Json)} {name : List UInt8} {value : Json}
    (isLast : lastValue members name = some value) : (name, value) ∈ members := by
  rcases Option.map_eq_some_iff.mp isLast with ⟨member, found, rfl⟩
  have same : member.1 = name := by simpa using List.find?_some found
  rw [← same]
  exact List.mem_reverse.mp (List.mem_of_find?_eq_some found)

/-- Whether values are alike can be told from the trees that they denote. -/
theorem Denotes.sameValue_iff (first : Denotes sum tree left) (second : Denotes sum other right) :
    SameValue ops sum left right ↔ Matches ops tree other := by
  induction tree using Json.induction generalizing other left right with
  | null =>
      constructor
      · intro alike
        have kind : other.kind = .null := by rw [← second.getType, ← alike.getType, first.getType, Json.kind]
        cases other with
        | null => exact .null
        | _ => cases kind
      · intro matching
        exact .null first.getType (second.getType.trans matching.kind.symm)
  | bool value =>
      constructor
      · intro alike
        have kind : other.kind = .bool := by rw [← second.getType, ← alike.getType, first.getType, Json.kind]
        cases alike with
        | bool isLeft isRight same =>
            cases first with
            | bool type value =>
                cases second with
                | bool type' value' =>
                    rw [← value, same, value']
                    exact .bool _
                | _ => cases kind
        | _ isLeft =>
            rw [first.getType] at isLeft
            cases isLeft
      · intro matching
        cases matching with
        | bool =>
            cases first with
            | bool type value =>
                cases second with
                | bool type' value' => exact .bool type type' (value.trans value'.symm)
        | number isLeft => cases isLeft
  | uint value =>
      constructor
      · intro alike
        have kind : other.kind = .number := by rw [← second.getType, ← alike.getType, first.getType, Json.kind]
        exact (first.sameNumber_iff second rfl kind).mp alike
      · intro matching
        exact (first.sameNumber_iff second rfl matching.kind.symm).mpr matching
  | number bits =>
      constructor
      · intro alike
        have kind : other.kind = .number := by rw [← second.getType, ← alike.getType, first.getType, Json.kind]
        exact (first.sameNumber_iff second rfl kind).mp alike
      · intro matching
        exact (first.sameNumber_iff second rfl matching.kind.symm).mpr matching
  | string bytes =>
      constructor
      · intro alike
        have kind : other.kind = .string := by rw [← second.getType, ← alike.getType, first.getType, Json.kind]
        cases alike with
        | string isLeft isRight len same =>
            cases first with
            | string type len bytes =>
                cases second with
                | string type' len' bytes' =>
                    rw [← bytes, same, bytes']
                    exact .string _
                | _ => cases kind
        | _ isLeft =>
            rw [first.getType] at isLeft
            cases isLeft
      · intro matching
        cases matching with
        | string =>
            cases first with
            | string type len bytes =>
                cases second with
                | string type' len' bytes' => exact .string type type' (len.trans len'.symm) (bytes.trans bytes'.symm)
        | number isLeft => cases isLeft
  | array elements ih =>
      constructor
      · intro alike
        have kind : other.kind = .array := by rw [← second.getType, ← alike.getType, first.getType, Json.kind]
        cases alike with
        | array isLeft isRight len found each =>
            cases first with
            | @array _ _ place type long isFound denotes =>
                cases second with
                | @array _ others place' type' long' isFound' denotes' =>
                    refine .array (long.symm.trans (len.trans long')) ?_
                    intro i element element' here here'
                    have inside := (List.getElem?_eq_some_iff.mp here).1
                    have inside' := (List.getElem?_eq_some_iff.mp here').1
                    have alike := each i (place i) (place' i) (by rw [isFound, if_pos inside])
                      (by rw [isFound', if_pos inside'])
                    exact (ih element (List.mem_of_getElem? here) (denotes i element here)
                      (denotes' i element' here')).mp alike
                | _ => cases kind
        | _ isLeft =>
            rw [first.getType] at isLeft
            cases isLeft
      · intro matching
        cases matching with
        | @array _ others len each =>
            cases first with
            | @array _ _ place type long isFound denotes =>
                cases second with
                | @array _ _ place' type' long' isFound' denotes' =>
                    refine .array type type' (long.trans (len.trans long'.symm)) ?_ ?_
                    · intro i
                      rw [isFound, isFound', len]
                      split <;> rfl
                    · intro i element element' here here'
                      rw [isFound] at here
                      rw [isFound'] at here'
                      split at here
                      · rename_i inside
                        have inside' : i < others.length := len ▸ inside
                        rw [if_pos inside', Option.some.injEq] at here'
                        rw [Option.some.injEq] at here
                        subst here here'
                        have isElement : elements[i]? = some elements[i] := List.getElem?_eq_getElem inside
                        have isElement' : others[i]? = some others[i] := List.getElem?_eq_getElem inside'
                        exact (ih _ (List.getElem_mem inside) (denotes i _ isElement) (denotes' i _ isElement')).mpr
                          (each i _ _ isElement isElement')
                      · cases here
        | number isLeft => cases isLeft
  | object members ih =>
      constructor
      · intro alike
        have kind : other.kind = .object := by rw [← second.getType, ← alike.getType, first.getType, Json.kind]
        cases alike with
        | object isLeft isRight len found each =>
            cases first with
            | @object _ _ place type long isFound denotes =>
                cases second with
                | @object _ others place' type' long' isFound' denotes' =>
                    refine .object (long.symm.trans (len.trans long')) ?_ ?_
                    · intro name
                      have both := found name
                      rw [isFound, isFound', Option.isSome_map, Option.isSome_map] at both
                      exact both
                    · intro name value value' here here'
                      have alike := each name (place name) (place' name) (by rw [isFound, here]; rfl)
                        (by rw [isFound', here']; rfl)
                      exact (ih (name, value) (mem_of_lastValue here) (denotes name value here)
                        (denotes' name value' here')).mp alike
                | _ => cases kind
        | _ isLeft =>
            rw [first.getType] at isLeft
            cases isLeft
      · intro matching
        cases matching with
        | object len found each =>
            cases first with
            | @object _ _ place type long isFound denotes =>
                cases second with
                | @object _ others place' type' long' isFound' denotes' =>
                    refine .object type type' (long.trans (len.trans long'.symm)) ?_ ?_
                    · intro name
                      rw [isFound, isFound', Option.isSome_map, Option.isSome_map]
                      exact found name
                    · intro name first second here here'
                      rw [isFound] at here
                      rw [isFound'] at here'
                      rcases Option.map_eq_some_iff.mp here with ⟨value, isLast, rfl⟩
                      rcases Option.map_eq_some_iff.mp here' with ⟨value', isLast', rfl⟩
                      exact (ih (name, value) (mem_of_lastValue isLast) (denotes name value isLast)
                        (denotes' name value' isLast')).mpr
                        (each name value value' isLast isLast')
        | number isLeft => cases isLeft

end

end Jitson
end LibKit
