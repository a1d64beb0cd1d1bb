import Mathlib.Data.List.Basic
import Mathlib.Data.UInt

namespace LibKit
namespace Keystream

/-!
# Texts under a stream of key bytes

A stream cipher combines the byte at every place of a text with the byte of its
key stream at that place.  The same is done to read the text again, and the
parts of a text can be treated one after the other.
-/

variable (key : Nat → UInt8)

/-- The text with the key stream from a place on. -/
def mask : Nat → List UInt8 → List UInt8
  | _, [] => []
  | place, byte :: text => (key place ^^^ byte) :: mask (place + 1) text

@[simp] theorem mask_length (place : Nat) (text : List UInt8) : (mask key place text).length = text.length := by
  induction text generalizing place with
  | nil => rfl
  | cons byte text ih => rw [mask, List.length_cons, ih, List.length_cons]

theorem mask_append (place : Nat) (first second : List UInt8) :
    mask key place (first ++ second) = mask key place first ++ mask key (place + first.length) second := by
  induction first generalizing place with
  | nil => rfl
  | cons byte first ih =>
      rw [List.cons_append, mask, ih, mask, List.cons_append, List.length_cons, Nat.add_assoc, Nat.add_comm 1]

/-- What is masked twice is as before. -/
theorem mask_mask (place : Nat) (text : List UInt8) : mask key place (mask key place text) = text := by
  induction text generalizing place with
  | nil => rfl
  | cons byte text ih => rw [mask, mask, ih, ← UInt8.xor_assoc, UInt8.xor_self, UInt8.zero_xor]

theorem mask_eq_map (place : Nat) (text : List UInt8) :
    mask key place text = (List.range text.length).map fun index => key (place + index) ^^^ text.getD index 0 := by
  induction text generalizing place with
  | nil => rfl
  | cons byte text ih =>
      rw [mask, ih, List.length_cons, List.range_succ_eq_map, List.map_cons, List.map_map]
      congr 1
      apply List.map_congr_left
      intro index _
      rw [Function.comp_apply, Nat.succ_eq_add_one, List.getD_cons_succ, Nat.add_right_comm place 1 index,
        Nat.add_assoc]

theorem mask_congr {key other : Nat → UInt8} {place start : Nat} {text : List UInt8}
    (same : ∀ index < text.length, key (place + index) = other (start + index)) :
    mask key place text = mask other start text := by
  induction text generalizing place start with
  | nil => rfl
  | cons byte text ih =>
      have here := same 0 (Nat.succ_pos _)
      rw [mask, mask, ← Nat.add_zero place, ← Nat.add_zero start, here, Nat.add_zero, Nat.add_zero]
      congr 1
      apply ih
      intro index inside
      have next := same (index + 1) (Nat.succ_lt_succ inside)
      rwa [Nat.add_comm index, ← Nat.add_assoc, ← Nat.add_assoc] at next

end Keystream
end LibKit
