import LibKit.Jitson.Access
import LibKit.KitSortedArray.Search

namespace LibKit
namespace Jitson

open KitSortedArray (Agrees)

/-!
# Values that can be compared

Unsigned numbers and strings without NUL bytes, and the ways in which they are
stored: a string may be copied or referred to, and any value may be replaced by
a reference.  Comparisons depend on the value only, not on how it is stored.
-/

inductive Scalar where
  | uint (value : Nat)
  | string (bytes : List UInt8)
deriving DecidableEq

def Scalar.kind : Scalar → Kind
  | .uint _ => .number
  | .string _ => .string

/-- A scalar at a pointer, without a jitson reference.  The length of a string
that is referred to may not have been computed yet. -/
inductive StoredHere : Scalar → Pointer → Prop where
  | uint {type : TypeWord} {len value : Nat} {rest : List Token} :
      type.kind = .number → type.isUint = true →
      StoredHere (.uint value) (.head type len (.integer value) :: rest)
  | copy {type : TypeWord} {bytes : List UInt8} {rest : List Token} :
      type.kind = .string → type.isRef = false → type.isKey = false → 0 ∉ bytes →
      StoredHere (.string bytes) (.head type bytes.length (.string bytes) :: rest)
  | stringRef {type : TypeWord} {len : Nat} {text : List UInt8} {rest : List Token} :
      type.kind = .string → type.isRef = true → type.isKey = false → 0 ∉ text → len = 0 ∨ len = text.length →
      StoredHere (.string text) (.head type len (.reference text) :: rest)

inductive Stored : Scalar → Pointer → Prop where
  | here {scalar : Scalar} {pointer : Pointer} : StoredHere scalar pointer → Stored scalar pointer
  | reference {scalar : Scalar} {target : Pointer} {type : TypeWord} {len : Nat} {rest : List Token} :
      type.kind = .reference → StoredHere scalar target →
      Stored scalar (.head type len (.jitref target) :: rest)

section

variable {scalar first second : Scalar} {pointer left right : Pointer}

theorem StoredHere.kind_eq (stored : StoredHere scalar pointer) : (typeOf pointer).kind = scalar.kind := by
  cases stored with
  | uint number => exact number
  | copy string => exact string
  | stringRef string => exact string

theorem StoredHere.not_reference (stored : StoredHere scalar pointer) : isReference pointer = false := by
  have kind := stored.kind_eq
  cases scalar <;> simp [isReference, kind, Scalar.kind]

theorem StoredHere.dereference_eq (stored : StoredHere scalar pointer) : dereference pointer = pointer := by
  rw [dereference, stored.not_reference]
  rfl

theorem Stored.dereference (stored : Stored scalar pointer) : StoredHere scalar (dereference pointer) := by
  cases stored with
  | here here =>
      rw [here.dereference_eq]
      exact here
  | reference kind target => simpa [Jitson.dereference, isReference, typeOf, kind, bodyOf] using target

theorem Stored.getType_eq (stored : Stored scalar pointer) : getType pointer = scalar.kind :=
  stored.dereference.kind_eq

/-- A reference to the value stored at a pointer, with whatever follows. -/
theorem Stored.makeReference (stored : Stored scalar pointer) {type : TypeWord} {len : Nat} {rest : List Token}
    (reference : type.kind = .reference) :
    Stored scalar (.head type len (.jitref (Jitson.dereference pointer)) :: rest) :=
  .reference reference stored.dereference

theorem Stored.ne_nil (stored : Stored scalar pointer) : pointer ≠ [] := by
  cases stored with
  | here here => cases here <;> simp
  | reference => simp

end

/-! ## Order -/

/-- Scalars as lists of numbers, in the order of which they are compared. -/
def Scalar.rank : Scalar → List Nat
  | .uint value => [0, value]
  | .string bytes => 1 :: bytes.map UInt8.toNat

theorem Scalar.rank_injective : Function.Injective Scalar.rank := by
  intro first second same
  cases first with
  | uint value =>
      cases second with
      | uint other => simpa [rank] using same
      | string other => simp [rank] at same
  | string bytes =>
      cases second with
      | uint other => simp [rank] at same
      | string other =>
          have mapped : bytes.map UInt8.toNat = other.map UInt8.toNat := by simpa [rank] using same
          rw [List.map_injective_iff.mpr (fun _ _ => UInt8.toNat_inj.mp) mapped]

theorem uintCmp_agrees (left right : Nat) : Agrees (uintCmp left right) left right := by
  unfold uintCmp
  refine ⟨?_, ?_, ?_⟩
  · split
    · simp; omega
    · split <;> simp_all
  · split
    · simp_all
    · split <;> simp_all
  · split
    · decide
    · split <;> decide

/-- A comparison under a common head. -/
theorem agrees_cons {cmp : Int} {first second : List Nat} (head : Nat) (agrees : Agrees cmp first second) :
    Agrees cmp (head :: first) (head :: second) := by
  refine ⟨?_, ?_, agrees.ok⟩
  · rw [agrees.eq_iff, List.cons.injEq]
    simp
  · rw [agrees.lt_iff, List.cons_lt_cons_self]

theorem agrees_single {cmp : Int} {first second : Nat} (agrees : Agrees cmp first second) :
    Agrees cmp [first] [second] := by
  refine ⟨?_, ?_, agrees.ok⟩
  · rw [agrees.eq_iff, List.cons.injEq]
    simp
  · rw [agrees.lt_iff, List.cons_lt_cons_iff]
    simp

theorem agrees_of_lt {first second : List Nat} (less : first < second) : Agrees (-1) first second := by
  refine ⟨?_, ?_, by decide⟩
  · simp [ne_of_lt less]
  · simp [less]

theorem agrees_of_gt {first second : List Nat} (greater : second < first) : Agrees 1 first second := by
  refine ⟨?_, ?_, by decide⟩
  · simp [ne_of_gt greater]
  · simp [le_of_lt greater]

/-- `strcmp` compares strings without NUL by their bytes. -/
theorem bytesCmp_agrees {left right : List UInt8} (leftClean : 0 ∉ left) (rightClean : 0 ∉ right) :
    Agrees (bytesCmp left right) (left.map UInt8.toNat) (right.map UInt8.toNat) := by
  induction left generalizing right with
  | nil =>
      cases right with
      | nil => exact ⟨by simp [bytesCmp, CString.strcmp], by simp [bytesCmp, CString.strcmp], by decide⟩
      | cons byte bytes =>
          have positive : (0 : UInt8) ≠ byte := (not_or.mp (fun h => rightClean (List.mem_cons.mpr h))).1
          have less : (0 : UInt8) < byte := UInt8.pos_iff_ne_zero.mpr positive.symm
          have result : bytesCmp [] (byte :: bytes) = -1 := by
            simp [bytesCmp, CString.strcmp, positive, less]
          rw [result]
          exact agrees_of_lt (by simp)
  | cons byte bytes ih =>
      have parts := not_or.mp (fun h => leftClean (List.mem_cons.mpr h))
      cases right with
      | nil =>
          have result : bytesCmp (byte :: bytes) [] = 1 := by
            simp [bytesCmp, CString.strcmp, Ne.symm parts.1]
          rw [result]
          exact agrees_of_gt (by simp)
      | cons other others =>
          have otherParts := not_or.mp (fun h => rightClean (List.mem_cons.mpr h))
          by_cases same : byte = other
          · subst same
            have result : bytesCmp (byte :: bytes) (byte :: others) = bytesCmp bytes others := by
              simp [bytesCmp, CString.strcmp, Ne.symm parts.1]
            rw [result]
            exact agrees_cons _ (ih parts.2 otherParts.2)
          · by_cases less : byte < other
            · have result : bytesCmp (byte :: bytes) (other :: others) = -1 := by
                simp [bytesCmp, CString.strcmp, same, less]
              rw [result]
              refine agrees_of_lt (List.cons_lt_cons_iff.mpr (Or.inl ?_))
              exact UInt8.lt_iff_toNat_lt.mp less
            · have result : bytesCmp (byte :: bytes) (other :: others) = 1 := by
                simp [bytesCmp, CString.strcmp, same, less]
              rw [result]
              refine agrees_of_gt (List.cons_lt_cons_iff.mpr (Or.inl ?_))
              have notLess : ¬ byte.toNat < other.toNat := fun h => less (UInt8.lt_iff_toNat_lt.mpr h)
              have different : byte.toNat ≠ other.toNat := fun h => same (UInt8.toNat_inj.mp h)
              omega

/-! ## Comparing stored scalars -/

/-- `sxe_jitson_cmp` on values. -/
def Scalar.cmp : Scalar → Scalar → Int
  | .uint left, .uint right => uintCmp left right
  | .string left, .string right => bytesCmp left right
  | _, _ => cmpError

section

variable {first second : Scalar} {left right : Pointer} (ops : FloatOps)

theorem StoredHere.bytesOf_eq {bytes : List UInt8} (stored : StoredHere (.string bytes) left) :
    bytesOf left = bytes := by
  cases stored <;> rfl

theorem StoredHere.clean {bytes : List UInt8} (stored : StoredHere (.string bytes) left) : 0 ∉ bytes := by
  cases stored <;> assumption

theorem StoredHere.uint_eq {value : Nat} (stored : StoredHere (.uint value) left) :
    integerOf left = value ∧ (typeOf left).isUint = true := by
  cases stored with
  | uint number isUint => exact ⟨rfl, isUint⟩

theorem Stored.cmp_eq (storedLeft : Stored first left) (storedRight : Stored second right) :
    cmp ops left right = first.cmp second := by
  have hereLeft := storedLeft.dereference
  have hereRight := storedRight.dereference
  simp only [cmp, cmpDepth, hereLeft.kind_eq, hereRight.kind_eq]
  cases first with
  | uint value =>
      cases second with
      | uint other =>
          simp [Scalar.kind, numberCmp, hereLeft.uint_eq, hereRight.uint_eq, Scalar.cmp]
      | string other => simp [Scalar.kind, Scalar.cmp]
  | string bytes =>
      cases second with
      | uint other => simp [Scalar.kind, Scalar.cmp]
      | string other => simp [Scalar.kind, stringCmp, hereLeft.bytesOf_eq, hereRight.bytesOf_eq, Scalar.cmp]

/-- Scalars of one kind are compared by rank. -/
theorem Stored.cmp_agrees (storedLeft : Stored first left) (storedRight : Stored second right)
    (same : first.kind = second.kind) : Agrees (cmp ops left right) first.rank second.rank := by
  rw [storedLeft.cmp_eq ops storedRight]
  cases first with
  | uint value =>
      cases second with
      | uint other => exact agrees_cons 0 (agrees_single (uintCmp_agrees value other))
      | string other => cases same
  | string bytes =>
      cases second with
      | uint other => cases same
      | string other =>
          exact agrees_cons 1 (bytesCmp_agrees storedLeft.dereference.clean storedRight.dereference.clean)

theorem StoredHere.lenOf_eq {bytes : List UInt8} (stored : StoredHere (.string bytes) left) :
    lenOf left = 0 ∨ lenOf left = bytes.length := by
  cases stored with
  | copy => exact Or.inr rfl
  | stringRef _ _ _ _ len => exact len

theorem StoredHere.stringEq_eq {bytes others : List UInt8} (storedLeft : StoredHere (.string bytes) left)
    (storedRight : StoredHere (.string others) right) : stringEq left right = some (decide (bytes = others)) := by
  have agrees := bytesCmp_agrees storedLeft.clean storedRight.clean
  have decides : bytesCmp bytes others = 0 ↔ bytes = others :=
    agrees.eq_iff.trans (List.map_injective_iff.mpr fun _ _ => UInt8.toNat_inj.mp).eq_iff
  rw [stringEq]
  split
  · rename_i lengths
    have different : bytes ≠ others := by
      intro same
      have left := storedLeft.lenOf_eq
      have right := storedRight.lenOf_eq
      rw [same] at left
      omega
    simp [different]
  · simp [storedLeft.bytesOf_eq, storedRight.bytesOf_eq, decides]

theorem Stored.eq_eq (storedLeft : Stored first left) (storedRight : Stored second right) :
    eq ops left right = some (decide (first = second)) := by
  have hereLeft := storedLeft.dereference
  have hereRight := storedRight.dereference
  simp only [eq, eqDepth, hereLeft.kind_eq, hereRight.kind_eq]
  cases first with
  | uint value =>
      cases second with
      | uint other =>
          have agrees := uintCmp_agrees value other
          simp [Scalar.kind, numberCmp, hereLeft.uint_eq, hereRight.uint_eq, agrees.ok, agrees.eq_iff, cmpError]
      | string other => simp [Scalar.kind]
  | string bytes =>
      cases second with
      | uint other => simp [Scalar.kind]
      | string other => simp [Scalar.kind, hereLeft.stringEq_eq hereRight]

end

end Jitson
end LibKit
