import LibKit.Jitson.Elements
import LibKit.Support.Comparison
import LibKit.KitSortedArray.Search

namespace LibKit
namespace Jitson

open Comparison

/-!
# Comparing trees

`sxe_jitson_cmp` depends on the trees of its operands only, however they are
stored.  On unsigned integers, strings and nested arrays of them it is an order
of the values that can be compared.
-/

mutual

/-- `sxe_jitson_cmp` on trees. -/
def Json.cmp (ops : FloatOps) : Json → Json → Int
  | .string left, .string right => bytesCmp left right
  | .array left, .array right => Json.cmpAll ops left right
  | left, right =>
      if left.kind = .number ∧ right.kind = .number then numberCmp ops [numberToken left] [numberToken right]
        else cmpError

def Json.cmpAll (ops : FloatOps) : List Json → List Json → Int
  | [], [] => 0
  | [], _ :: _ => -1
  | _ :: _, [] => 1
  | left :: lefts, right :: rights =>
      if Json.cmp ops left right ≠ 0 then Json.cmp ops left right else Json.cmpAll ops lefts rights

end

section

variable {ops : FloatOps} {sum : List UInt8 → Nat}

theorem Json.cmpAll_eq (lefts rights : List Json) :
    Json.cmpAll ops lefts rights = lexicographic (Json.cmp ops) lefts rights := by
  induction lefts generalizing rights with
  | nil =>
      cases rights with
      | nil => rfl
      | cons right rights => rfl
  | cons left lefts ih =>
      cases rights with
      | nil => rfl
      | cons right rights => rw [Json.cmpAll, lexicographic, ih]

theorem Json.cmp_of_kind_ne {left right : Json} (differ : left.kind ≠ right.kind) : left.cmp ops right = cmpError := by
  have number : ¬ (left.kind = .number ∧ right.kind = .number) := fun both => differ (both.1.trans both.2.symm)
  unfold Json.cmp
  split
  · exact absurd rfl differ
  · exact absurd rfl differ
  · exact if_neg number

/-! ## Values -/

/-- The loop over the elements of two arrays compares them as lists. -/
theorem arrayCmpLoop_eq {α β : Type} {compare : Pointer → Pointer → Int} {f : α → β → Int} {left right : Pointer}
    {firsts : List α}
    {seconds : List β} (len : lenOf right = seconds.length)
    (each : ∀ i first second, firsts[i]? = some first → seconds[i]? = some second →
      ∃ place place', arrayGetElement left i = some place ∧ arrayGetElement right i = some place' ∧
        compare place place' = f first second) (count i : Nat) (rest : i + count = firsts.length) :
    arrayCmpLoop compare left right count i = lexicographic f (firsts.drop i) (seconds.drop i) := by
  induction count generalizing i with
  | zero =>
      rw [List.drop_eq_nil_of_le (show firsts.length ≤ i by omega), arrayCmpLoop, len]
      split
      · rename_i inside
        rw [List.drop_eq_getElem_cons inside]
        rfl
      · rename_i outside
        rw [List.drop_eq_nil_of_le (Nat.not_lt.mp outside)]
        rfl
  | succ count ih =>
      have inside : i < firsts.length := by omega
      rw [arrayCmpLoop, len, List.drop_eq_getElem_cons inside]
      split
      · rename_i outside
        rw [List.drop_eq_nil_of_le outside]
        rfl
      · rename_i inside'
        rw [ge_iff_le, Nat.not_le] at inside'
        rcases each i _ _ (List.getElem?_eq_getElem inside) (List.getElem?_eq_getElem inside') with
          ⟨place, place', found, found', same⟩
        rw [List.drop_eq_getElem_cons inside', lexicographic, found, found', ih (i + 1) (by omega)]
        dsimp only
        rw [same]

theorem Json.cmp_of_number {left right : Json} (isLeft : left.kind = .number) (isRight : right.kind = .number) :
    left.cmp ops right = numberCmp ops [numberToken left] [numberToken right] := by
  unfold Json.cmp
  split
  · cases isLeft
  · cases isLeft
  · exact if_pos ⟨isLeft, isRight⟩

theorem Json.cmp_of_other {left : Json} (notNumber : left.kind ≠ .number) (notString : left.kind ≠ .string)
    (notArray : left.kind ≠ .array) (right : Json) : left.cmp ops right = cmpError := by
  unfold Json.cmp
  split
  · exact absurd rfl notString
  · exact absurd rfl notArray
  · exact if_neg fun both => notNumber both.1

theorem Denotes.cmpDepth_eq {x y : Json} {left right : Pointer} (first : Denotes sum x left)
    (second : Denotes sum y right)
    (scalar : x.kind ≠ .array) (depth : Nat) : cmpDepth ops (depth + 1) left right = x.cmp ops y := by
  have isLeft : (typeOf (dereference left)).kind = x.kind := first.getType
  have isRight : (typeOf (dereference right)).kind = y.kind := second.getType
  rw [cmpDepth]
  simp only [isLeft, isRight]
  by_cases same : x.kind = y.kind
  · rw [if_neg (not_not.mpr same)]
    cases kind : x.kind with
    | number =>
      exact (first.numberCmp second kind (same.symm.trans kind)).trans
        (Json.cmp_of_number kind (same.symm.trans kind)).symm
    | string =>
        cases first with
        | @string _ bytes type len bytesLeft =>
            cases second with
            | @string _ others type' len' bytesRight =>
                rw [Json.cmp, ← bytesLeft, ← bytesRight]
                rfl
            | _ => cases same
        | _ => cases kind
    | array => exact absurd kind scalar
    | _ => exact (Json.cmp_of_other (by rw [kind]; decide) (by rw [kind]; decide) (by rw [kind]; decide) y).symm
  · rw [if_pos same, Json.cmp_of_kind_ne same]

theorem getElem?_forall₂ {α β : Type} {related : α → β → Prop} {firsts : List α} {seconds : List β}
    (all : List.Forall₂ related firsts seconds)
    {i : Nat} {first : α} (found : firsts[i]? = some first) :
    ∃ second, seconds[i]? = some second ∧ related first second := by
  rcases List.getElem?_eq_some_iff.mp found with ⟨inside, rfl⟩
  have inside' : i < seconds.length := all.length_eq ▸ inside
  exact ⟨_, List.getElem?_eq_getElem inside', all.get inside inside'⟩

theorem Represents.cmpDepth_eq (x : Json) : ∀ {y : Json} {left right : List Token}, Represents sum x left →
    Represents sum y right →
    ∀ (rest rest' : List Token) (depth : Nat), weight (left ++ rest) < depth →
      cmpDepth ops depth (left ++ rest) (right ++ rest') = x.cmp ops y := by
  have scalar : ∀ {x y : Json} {left right : List Token}, x.kind ≠ .array → Represents sum x left →
    Represents sum y right →
      ∀ (rest rest' : List Token) (depth : Nat), weight (left ++ rest) < depth →
        cmpDepth ops depth (left ++ rest) (right ++ rest') = x.cmp ops y := by
    intro x y left right scalar first second rest rest' depth enough
    rcases depth with _ | depth
    · exact absurd enough (Nat.not_lt_zero _)
    · exact (first.denotes rest).cmpDepth_eq (second.denotes rest') scalar depth
  induction x using Json.induction with
  | array firsts ih =>
      intro y left right first second rest rest' depth enough
      rcases depth with _ | depth
      · exact absurd enough (Nat.not_lt_zero _)
      rcases first.dereferenced rest with ⟨segment, behind, isLeft, here, kind, light⟩
      rcases second.dereferenced rest' with ⟨segment', behind', isRight, here', kind', -⟩
      rw [cmpDepth]
      simp only [isLeft, isRight, kind, kind']
      by_cases same : (Json.array firsts).kind = y.kind
      · rw [if_neg (not_not.mpr same)]
        cases y with
        | array seconds =>
            rcases here.segments with ⟨segments, each, finds⟩
            rcases here'.segments with ⟨segments', each', finds'⟩
            have len := here.lenOf_array (by rw [← here.typeOf_append behind]; exact kind) behind
            have len' := here'.lenOf_array (by rw [← here'.typeOf_append behind']; exact kind') behind'
            change arrayCmpLoop _ _ _ _ _ = _
            rw [Json.cmp, Json.cmpAll_eq, len, arrayCmpLoop_eq len' ?_ firsts.length 0 (Nat.zero_add _)]
            · rfl
            · intro i x y isX isY
              rcases getElem?_forall₂ each isX with ⟨segment, isSegment, represents⟩
              rcases getElem?_forall₂ each' isY with ⟨segment', isSegment', represents'⟩
              rcases finds behind i _ isSegment with ⟨more, found, lighter⟩
              rcases finds' behind' i _ isSegment' with ⟨more', found', -⟩
              exact ⟨_, _, found, found', ih x (List.mem_of_getElem? isX) represents represents' more more' depth
                (by omega)⟩
        | _ => cases same
      · rw [if_pos same, Json.cmp_of_kind_ne same]
  | _ => exact scalar (by simp [Json.kind])

theorem Represents.cmp_eq {x y : Json} {left right : List Token} (first : Represents sum x left)
    (second : Represents sum y right)
    (rest rest' : List Token) : cmp ops (left ++ rest) (right ++ rest') = x.cmp ops y :=
  first.cmpDepth_eq x second rest rest' _ (Nat.lt_succ_self _)

/-! ## Order -/

/-- Trees of unsigned integers, strings and arrays. -/
inductive Json.Sortable : Json → Prop where
  | uint (value : Nat) : Sortable (.uint value)
  | string (bytes : List UInt8) : Sortable (.string bytes)
  | array {elements : List Json} (each : ∀ element ∈ elements, Sortable element) : Sortable (.array elements)

/-- `strcmp` compares the bytes before the first NUL as lists. -/
theorem bytesCmp_eq (left right : List UInt8) :
    bytesCmp left right =
      lexicographic (fun first second : UInt8 => ordered first.toNat second.toNat) (CString.text left)
        (CString.text right) := by
  have zero : ∀ byte : UInt8, ¬ byte < 0 := fun byte less => Nat.not_lt_zero _ (UInt8.lt_iff_toNat_lt.mp less)
  induction left generalizing right with
  | nil =>
      cases right with
      | nil => rfl
      | cons other others =>
          rw [CString.text_cons]
          by_cases ends : other = 0
          · rw [if_pos ends, ends]
            rfl
          · have less : (0 : UInt8) < other := UInt8.pos_iff_ne_zero.mpr ends
            rw [if_neg ends]
            simp [bytesCmp, CString.strcmp, Ne.symm ends, less, lexicographic]
  | cons byte bytes ih =>
      rw [CString.text_cons]
      cases right with
      | nil =>
          by_cases ends : byte = 0
          · rw [if_pos ends, ends]
            rfl
          · rw [if_neg ends]
            simp [bytesCmp, CString.strcmp, ends, zero, lexicographic]
      | cons other others =>
          rw [CString.text_cons]
          by_cases same : byte = other
          · subst same
            by_cases ends : byte = 0
            · simp [bytesCmp, CString.strcmp, ends, lexicographic]
            · rw [if_neg ends, if_neg ends, lexicographic, ordered_self, if_neg (not_not.mpr rfl), ← ih]
              simp [bytesCmp, CString.strcmp, ends]
          · have differ : byte.toNat ≠ other.toNat := fun equal => same (UInt8.toNat_inj.mp equal)
            have first : bytesCmp (byte :: bytes) (other :: others) = if byte < other then -1 else 1 := by
              simp only [bytesCmp, CString.strcmp, List.cons_append, if_neg same]
              split <;> rfl
            have decided : ordered byte.toNat other.toNat = if byte < other then -1 else 1 := by
              rw [ordered, if_neg differ]
              exact if_congr UInt8.lt_iff_toNat_lt.symm rfl rfl
            rw [first]
            by_cases ends : byte = 0
            · have less : byte < other := ends ▸ UInt8.pos_iff_ne_zero.mpr fun ends' => same (ends.trans ends'.symm)
              rw [if_pos less, if_pos ends, if_neg fun ends' => same (ends.trans ends'.symm)]
              rfl
            · by_cases ends' : other = 0
              · rw [if_neg (ends' ▸ zero byte), if_neg ends, if_pos ends']
                rfl
              · rw [if_neg ends, if_neg ends', lexicographic, if_pos (mt ordered_eq_zero_iff.mp differ), decided]

theorem cmpError_large : (1 : Int) < cmpError := by decide

theorem Json.cmp_uint (left right : Nat) : Json.cmp ops (.uint left) (.uint right) = ordered left right := rfl

theorem Json.cmp_array (left right : List Json) : Json.cmp ops (.array left) (.array right) = lexicographic
    (Json.cmp ops) left right := by
  rw [Json.cmp, Json.cmpAll_eq]

theorem Json.Sortable.cmp_self {x : Json} (sortable : x.Sortable) : x.cmp ops x = 0 := by
  induction sortable with
  | uint value => exact ordered_self value
  | string bytes =>
      rw [Json.cmp, bytesCmp_eq]
      exact lexicographic_self fun byte _ => ordered_self byte.toNat
  | array each ih =>
      rw [Json.cmp_array]
      exact lexicographic_self ih

/-- Values are compared the other way round with the other sign, and cannot be
compared the other way round if they cannot be compared. -/
theorem Json.Sortable.cmp_swapped {x : Json} (sortable : x.Sortable) :
    ∀ {y : Json}, y.Sortable → y.cmp ops x = swapped cmpError (x.cmp ops y) := by
  have differ : ∀ {x y : Json}, x.kind ≠ y.kind → y.cmp ops x = swapped cmpError (x.cmp ops y) := by
    intro x y differ
    rw [Json.cmp_of_kind_ne differ, Json.cmp_of_kind_ne differ.symm]
    exact (if_pos rfl).symm
  induction sortable with
  | uint value =>
      intro y sortable
      cases sortable with
      | uint other => exact ordered_swapped cmpError_large value other
      | string bytes => exact differ (by simp [Json.kind])
      | array each => exact differ (by simp [Json.kind])
  | string bytes =>
      intro y sortable
      cases sortable with
      | uint other => exact differ (by simp [Json.kind])
      | string others =>
          rw [Json.cmp, Json.cmp, bytesCmp_eq, bytesCmp_eq]
          exact lexicographic_swapped cmpError_large fun left _ right _ =>
            ordered_swapped cmpError_large left.toNat right.toNat
      | array each => exact differ (by simp [Json.kind])
  | array each ih =>
      intro y sortable
      cases sortable with
      | uint other => exact differ (by simp [Json.kind])
      | string others => exact differ (by simp [Json.kind])
      | array each' =>
          rw [Json.cmp_array, Json.cmp_array]
          exact lexicographic_swapped cmpError_large fun left isLeft right isRight =>
            ih left isLeft (each' right isRight)

theorem Json.kind_of_cmp_le {x y : Json} (least : x.cmp ops y ≤ 0) : x.kind = y.kind := by
  by_contra differ
  rw [Json.cmp_of_kind_ne differ] at least
  exact absurd least (by decide)

theorem Json.Sortable.cmp_chains {x : Json} (sortable : x.Sortable) :
    ∀ {y z : Json}, y.Sortable → z.Sortable → Chains (x.cmp ops y) (y.cmp ops z) (x.cmp ops z) := by
  induction sortable with
  | uint value =>
      intro y z isY isZ before behind
      have first := Json.kind_of_cmp_le before
      have second := Json.kind_of_cmp_le behind
      cases isY with
      | uint other =>
          cases isZ with
          | uint another => exact ordered_chains value other another before behind
          | string bytes => cases second
          | array each => cases second
      | string bytes => cases first
      | array each => cases first
  | string bytes =>
      intro y z isY isZ before behind
      have first := Json.kind_of_cmp_le before
      have second := Json.kind_of_cmp_le behind
      cases isY with
      | uint other => cases first
      | string others =>
          cases isZ with
          | uint another => cases second
          | string more =>
              rw [Json.cmp, bytesCmp_eq] at before behind ⊢
              rw [Json.cmp, Json.cmp, bytesCmp_eq, bytesCmp_eq]
              exact lexicographic_chains (fun first _ second _ third _ =>
                ordered_chains first.toNat second.toNat third.toNat)
                before behind
          | array each => cases second
      | array each => cases first
  | array each ih =>
      intro y z isY isZ before behind
      have first := Json.kind_of_cmp_le before
      have second := Json.kind_of_cmp_le behind
      cases isY with
      | uint other => cases first
      | string others => cases first
      | array each' =>
          cases isZ with
          | uint another => cases second
          | string more => cases second
          | array each'' =>
              rw [Json.cmp_array] at before behind ⊢
              rw [Json.cmp_array, Json.cmp_array]
              refine lexicographic_chains ?_ before behind
              intro first isFirst second isSecond third isThird
              exact ih first isFirst (each' second isSecond) (each'' third isThird)

theorem Json.Sortable.cmp_eq_error_iff {x y : Json} (isX : x.Sortable) (isY : y.Sortable) :
    x.cmp ops y = cmpError ↔ y.cmp ops x = cmpError := by
  have fails : swapped cmpError cmpError = cmpError := if_pos rfl
  constructor
  · intro error
    rw [isX.cmp_swapped isY, error, fails]
  · intro error
    rw [isY.cmp_swapped isX, error, fails]

/-! ## Ranks -/

mutual

/-- Trees as lists of numbers that are in the same order. -/
def Json.rank : Json → List Nat
  | .uint value => [1, value]
  | .string bytes => 2 :: codes (fun byte => [byte.toNat]) (CString.text bytes)
  | .array elements => 3 :: Json.rankAll elements
  | _ => [4]

def Json.rankAll : List Json → List Nat
  | [] => [0]
  | element :: elements => Json.rank element ++ Json.rankAll elements

end

theorem Json.rankAll_eq (elements : List Json) : Json.rankAll elements = codes Json.rank elements := by
  induction elements with
  | nil => rfl
  | cons element elements ih => rw [Json.rankAll, codes, ih]

theorem Json.rank_head (x : Json) : ∃ head rest, x.rank = head :: rest ∧ 0 < head := by
  cases x with
  | uint value => exact ⟨1, _, rfl, by decide⟩
  | string bytes => exact ⟨2, _, rfl, by decide⟩
  | array elements => exact ⟨3, _, rfl, by decide⟩
  | _ => exact ⟨4, [], rfl, by decide⟩

theorem Json.Sortable.cmp_decides {x : Json} (sortable : x.Sortable) :
    ∀ {y : Json}, y.Sortable → x.cmp ops y ≠ cmpError → Decides (x.cmp ops y) x.rank y.rank := by
  have text : ∀ bytes, ∀ byte ∈ CString.text bytes, ∃ head rest, [byte.toNat] = head :: rest ∧ 0 < head := by
    intro bytes byte inside
    refine ⟨byte.toNat, [], rfl, Nat.pos_of_ne_zero fun zero => ?_⟩
    have isZero : byte = 0 := UInt8.toNat_inj.mp zero
    exact CString.zero_not_mem_text bytes (isZero ▸ inside)
  induction sortable with
  | uint value =>
      intro y sortable ok
      cases sortable with
      | uint other => exact (ordered_decides value other).cons 1
      | string bytes => exact absurd (Json.cmp_of_kind_ne (by simp [Json.kind])) ok
      | array each => exact absurd (Json.cmp_of_kind_ne (by simp [Json.kind])) ok
  | string bytes =>
      intro y sortable ok
      cases sortable with
      | uint other => exact absurd (Json.cmp_of_kind_ne (by simp [Json.kind])) ok
      | string others =>
          rw [Json.cmp, bytesCmp_eq] at ok ⊢
          exact (lexicographic_decides (by decide) (text bytes) (text others)
            (fun left _ right _ _ => ordered_decides left.toNat right.toNat) ok).cons 2
      | array each => exact absurd (Json.cmp_of_kind_ne (by simp [Json.kind])) ok
  | array each ih =>
      intro y sortable ok
      cases sortable with
      | uint other => exact absurd (Json.cmp_of_kind_ne (by simp [Json.kind])) ok
      | string others => exact absurd (Json.cmp_of_kind_ne (by simp [Json.kind])) ok
      | array each' =>
          rw [Json.cmp_array] at ok ⊢
          rw [Json.rank, Json.rank, Json.rankAll_eq, Json.rankAll_eq]
          refine (lexicographic_decides (by decide) (fun x _ => x.rank_head) (fun x _ => x.rank_head) ?_ ok).cons 3
          intro left isLeft right isRight compared
          exact ih left isLeft (each' right isRight) compared

/-- A comparison that orders lists of numbers agrees with their order. -/
theorem agrees_of_decides {cmp : Int} {first second : List Nat} (decides : Decides cmp first second)
    (ok : cmp ≠ cmpError) :
    KitSortedArray.Agrees cmp first second := by
  have below : cmp < 0 → first < second := by
    intro negative
    have less := decides.below negative [] []
    rwa [List.append_nil, List.append_nil] at less
  have above : 0 < cmp → second < first := by
    intro positive
    have greater := decides.above positive [] []
    rwa [List.append_nil, List.append_nil] at greater
  refine ⟨⟨decides.same, fun same => ?_⟩, ⟨below, fun less => ?_⟩, ok⟩
  · rcases lt_trichotomy cmp 0 with negative | zero | positive
    · exact absurd (same ▸ below negative) (lt_irrefl _)
    · exact zero
    · exact absurd (same ▸ above positive) (lt_irrefl _)
  · rcases lt_trichotomy cmp 0 with negative | zero | positive
    · exact negative
    · exact absurd (decides.same zero ▸ less) (lt_irrefl _)
    · exact absurd (above positive) (lt_asymm less)

theorem Json.Sortable.agrees {x y : Json} (isX : x.Sortable) (isY : y.Sortable) (ok : x.cmp ops y ≠ cmpError) :
    KitSortedArray.Agrees (x.cmp ops y) x.rank y.rank :=
  agrees_of_decides (isX.cmp_decides isY ok) ok

/-! ## Pointers -/

def PointsTo (sum : List UInt8 → Nat) (tree : Json) (pointer : Pointer) : Prop :=
  ∃ tokens rest, pointer = tokens ++ rest ∧ Represents sum tree tokens

theorem PointsTo.getType {x : Json} {pointer : Pointer} (holds : PointsTo sum x pointer) :
    getType pointer = x.kind := by
  rcases holds with ⟨tokens, rest, rfl, represents⟩
  exact (represents.denotes rest).getType

theorem PointsTo.cmp_eq {x y : Json} {left right : Pointer} (first : PointsTo sum x left)
    (second : PointsTo sum y right) :
    cmp ops left right = x.cmp ops y := by
  rcases first with ⟨tokens, rest, rfl, represents⟩
  rcases second with ⟨tokens', rest', rfl, represents'⟩
  exact represents.cmp_eq represents' rest rest'

/-- Unsigned integers, strings and nested arrays of them are in order, however
they are stored. -/
theorem cmp_is_order (ops : FloatOps) (sum : List UInt8 → Nat) {x y z : Json} (isX : x.Sortable) (isY : y.Sortable)
    (isZ : z.Sortable)
    {first second third : Pointer} (holdsX : PointsTo sum x first) (holdsY : PointsTo sum y second)
    (holdsZ : PointsTo sum z third) :
    cmp ops first first = 0 ∧ (cmp ops first second ≠ cmpError → cmp ops first second = -cmp ops second first) ∧
      (cmp ops first second ≤ 0 → cmp ops second third ≤ 0 → cmp ops first third ≤ 0) ∧
      (cmp ops first second = cmpError ↔ cmp ops second first = cmpError) := by
  have compared := @isX.cmp_eq_error_iff ops _ _ isY
  rw [holdsX.cmp_eq holdsX, holdsX.cmp_eq holdsY, holdsY.cmp_eq holdsX, holdsY.cmp_eq holdsZ, holdsX.cmp_eq holdsZ]
  refine ⟨isX.cmp_self, ?_, ?_, compared⟩
  · intro ok
    rw [isY.cmp_swapped isX, swapped, if_neg (mt compared.mpr ok)]
  · intro before behind
    exact (isX.cmp_chains isY isZ before behind).1

/-- The strings `"a"`, which is copied, `"b"`, which is not, and a reference to
the latter. -/
theorem cmp_is_order_strings :
    let a : Pointer := [.head { kind := .string } 1 (.string [97])]
    let b : Pointer := [.head { kind := .string, isRef := true } 0 (.reference [98])]
    let b' : Pointer := [.head { kind := .reference } 0 (.jitref b)]
    cmp plainEnv.ops a a = 0 ∧ (cmp plainEnv.ops a b ≠ cmpError → cmp plainEnv.ops a b = -cmp plainEnv.ops b a) ∧
      (cmp plainEnv.ops a b ≤ 0 → cmp plainEnv.ops b b' ≤ 0 → cmp plainEnv.ops a b' ≤ 0) ∧
      (cmp plainEnv.ops a b = cmpError ↔ cmp plainEnv.ops b a = cmpError) := by
  intro a b b'
  have first : Represents (fun _ => 0) (.string [97]) a := .string rfl rfl rfl (by decide)
  have second : Represents (fun _ => 0) (.string [98]) b := .referred rfl rfl rfl (by decide) (Or.inl rfl)
  have third : Represents (fun _ => 0) (.string [98]) b' :=
    @Represents.reference (fun _ => 0) _ 0 _ b [] rfl (by decide) second
  exact cmp_is_order plainEnv.ops (fun _ => 0) (.string [97]) (.string [98]) (.string [98]) ⟨a, [], rfl, first⟩
    ⟨b, [], rfl, second⟩ ⟨b', [], rfl, third⟩

end

end Jitson
end LibKit
