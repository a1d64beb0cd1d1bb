import Mathlib

namespace LibKit
namespace Bytes

/-!
# Byte memories

A memory is a total function from addresses to bytes.  Blocks are written and
compared as lists, and unsigned words are stored with their least significant
byte first.
-/

/-- `memcpy` of a block to an address. -/
def write (memory : Nat → UInt8) (start : Nat) (block : List UInt8) : Nat → UInt8 :=
  fun place =>
    if start ≤ place ∧ place < start + block.length then block.getD (place - start) 0 else memory place

def Holds (memory : Nat → UInt8) (start : Nat) (block : List UInt8) : Prop :=
  ∀ index, index < block.length → memory (start + index) = block.getD index 0

/-- A word of the given number of bytes, least significant first. -/
def encodeWord : Nat → Nat → List UInt8
  | 0, _ => []
  | width + 1, word => UInt8.ofNat (word % 256) :: encodeWord width (word / 256)

def readWord (memory : Nat → UInt8) : Nat → Nat → Nat
  | _, 0 => 0
  | start, width + 1 => (memory start).toNat + 256 * readWord memory (start + 1) width

def read (memory : Nat → UInt8) (start length : Nat) : List UInt8 :=
  (List.range length).map (fun index => memory (start + index))

/-- A property of bytes that is checked for each of them. -/
theorem forall_bytes {property : UInt8 → Prop} (checked : ∀ code < 256, property (UInt8.ofNat code)) (byte : UInt8) :
    property byte := by
  have here := checked byte.toNat byte.toNat_lt
  rwa [UInt8.ofNat_toNat] at here

@[simp] theorem encodeWord_length (width word : Nat) : (encodeWord width word).length = width := by
  induction width generalizing word with
  | zero => rfl
  | succ width ih => simp [encodeWord, ih]

theorem holds_nil (memory : Nat → UInt8) (start : Nat) : Holds memory start [] := by
  intro index bound
  cases bound

theorem holds_append {memory : Nat → UInt8} {start : Nat} {first second : List UInt8} :
    Holds memory start (first ++ second) ↔
      Holds memory start first ∧ Holds memory (start + first.length) second := by
  constructor
  · intro holds
    constructor
    · intro index bound
      rw [holds index (by rw [List.length_append]; omega), List.getD_append _ _ _ _ bound]
    · intro index bound
      have found := holds (first.length + index) (by rw [List.length_append]; omega)
      rw [List.getD_append_right _ _ _ _ (by omega)] at found
      simpa [Nat.add_assoc] using found
  · rintro ⟨before, after⟩ index bound
    by_cases early : index < first.length
    · rw [before index early, List.getD_append _ _ _ _ early]
    · have found := after (index - first.length) (by rw [List.length_append] at bound; omega)
      rw [List.getD_append_right _ _ _ _ (by omega), ← found]
      congr 1
      omega

theorem holds_cons {memory : Nat → UInt8} {start : Nat} {byte : UInt8} {block : List UInt8} :
    Holds memory start (byte :: block) ↔ memory start = byte ∧ Holds memory (start + 1) block := by
  have split : byte :: block = [byte] ++ block := rfl
  rw [split, holds_append]
  constructor
  · rintro ⟨first, rest⟩
    exact ⟨by simpa using first 0 (by simp), rest⟩
  · rintro ⟨first, rest⟩
    refine ⟨?_, rest⟩
    intro index bound
    have zero : index = 0 := by simpa using bound
    subst zero
    simpa using first

theorem holds_write (memory : Nat → UInt8) (start : Nat) (block : List UInt8) :
    Holds (write memory start block) start block := by
  intro index bound
  simp [write, bound]

theorem holds_write_of_disjoint {memory : Nat → UInt8} {start place : Nat} {block written : List UInt8}
    (holds : Holds memory start block)
    (apart : start + block.length ≤ place ∨ place + written.length ≤ start) :
    Holds (write memory place written) start block := by
  intro index bound
  rw [← holds index bound, write, if_neg]
  omega

theorem holds_write_behind {memory : Nat → UInt8} {start place : Nat} {block written : List UInt8}
    (holds : Holds memory start block) (behind : place = start + block.length) :
    Holds (write memory place written) start (block ++ written) := by
  subst behind
  exact holds_append.mpr ⟨holds_write_of_disjoint holds (Or.inl (Nat.le_refl _)), holds_write memory _ written⟩

theorem holds_write_within {memory : Nat → UInt8} {start place : Nat} {first old last written : List UInt8}
    (holds : Holds memory start (first ++ old ++ last)) (here : place = start + first.length)
    (same : written.length = old.length) :
    Holds (write memory place written) start (first ++ written ++ last) := by
  subst here
  rcases holds_append.mp holds with ⟨front, back⟩
  refine holds_append.mpr ⟨holds_write_behind (holds_append.mp front).1 rfl, ?_⟩
  rw [List.length_append] at back
  rw [List.length_append, same]
  exact holds_write_of_disjoint back (Or.inr (by omega))

theorem read_of_holds {memory : Nat → UInt8} {start : Nat} {block : List UInt8}
    (holds : Holds memory start block) : read memory start block.length = block := by
  apply List.ext_getElem
  · simp [read]
  · intro index bound _
    have inside : index < block.length := by simpa [read] using bound
    simp [read, holds index inside, List.getD_eq_getElem?_getD, inside]

theorem holds_of_read {memory : Nat → UInt8} {start : Nat} {block : List UInt8}
    (found : read memory start block.length = block) : Holds memory start block := by
  intro index bound
  have here := congrArg (fun list => list.getD index 0) found
  simpa [read, bound, List.getD_eq_getElem?_getD] using here

theorem write_outside {memory : Nat → UInt8} {start place : Nat} {block : List UInt8}
    (outside : place < start ∨ start + block.length ≤ place) : write memory start block place = memory place := by
  rw [write, if_neg]
  omega

theorem write_read {memory source : Nat → UInt8} {start place length index : Nat} (inside : index < length) :
    write memory start (read source place length) (start + index) = source (place + index) := by
  have within : start ≤ start + index ∧ start + index < start + (read source place length).length := by
    rw [read, List.length_map, List.length_range]
    omega
  rw [write, if_pos within, Nat.add_sub_cancel_left, read, List.getD_eq_getElem?_getD, List.getElem?_map,
    List.getElem?_range inside]
  rfl

theorem readWord_congr {first second : Nat → UInt8} {start other width : Nat}
    (same : ∀ index, index < width → first (start + index) = second (other + index)) :
    readWord first start width = readWord second other width := by
  induction width generalizing start other with
  | zero => rfl
  | succ width ih =>
      have here := same 0 (Nat.succ_pos width)
      have rest := @ih (start + 1) (other + 1) fun index inside => by
        have next := same (index + 1) (Nat.succ_lt_succ inside)
        rwa [Nat.add_right_comm start, Nat.add_right_comm other, Nat.add_assoc start, Nat.add_assoc other]
      rw [Nat.add_zero, Nat.add_zero] at here
      rw [readWord, readWord, here, rest]

theorem readWord_of_holds {memory : Nat → UInt8} {start width word : Nat}
    (holds : Holds memory start (encodeWord width word)) (fits : word < 256 ^ width) :
    readWord memory start width = word := by
  induction width generalizing start word with
  | zero =>
      simp only [Nat.pow_zero] at fits
      simp only [readWord]
      omega
  | succ width ih =>
      rw [encodeWord, holds_cons] at holds
      have rest : word / 256 < 256 ^ width := by
        rw [Nat.pow_succ] at fits
        exact Nat.div_lt_of_lt_mul (by rw [Nat.mul_comm]; exact fits)
      rw [readWord, holds.1, ih holds.2 rest]
      have byte : (UInt8.ofNat (word % 256)).toNat = word % 256 := by
        rw [UInt8.toNat_ofNat']
        exact Nat.mod_eq_of_lt (Nat.mod_lt _ (by decide))
      rw [byte]
      omega

theorem readWord_write {memory : Nat → UInt8} {start width word : Nat} (fits : word < 256 ^ width) :
    readWord (write memory start (encodeWord width word)) start width = word :=
  readWord_of_holds (holds_write memory start (encodeWord width word)) fits

@[simp] theorem read_length (memory : Nat → UInt8) (start length : Nat) :
  (read memory start length).length = length := by
  rw [read, List.length_map, List.length_range]

theorem holds_read (memory : Nat → UInt8) (start length : Nat) : Holds memory start (read memory start length) := by
  apply holds_of_read
  rw [read_length]

theorem read_add (memory : Nat → UInt8) (start first second : Nat) :
    read memory start (first + second) = read memory start first ++ read memory (start + first) second := by
  simp only [read, List.range_add, List.map_append, List.map_map, Function.comp_def, Nat.add_assoc]

theorem prefix_read {memory : Nat → UInt8} {start length : Nat} {block : List UInt8} (holds : Holds memory start block)
    (within : block.length ≤ length) : block <+: read memory start length := by
  rcases Nat.exists_eq_add_of_le within with ⟨rest, rfl⟩
  rw [read_add, read_of_holds holds]
  exact List.prefix_append _ _

theorem exists_encodeWord (block : List UInt8) :
    ∃ word, word < 256 ^ block.length ∧ encodeWord block.length word = block := by
  induction block with
  | nil => exact ⟨0, by simp, rfl⟩
  | cons byte block ih =>
      rcases ih with ⟨word, small, encoded⟩
      have bound := UInt8.toNat_lt byte
      refine ⟨byte.toNat + 256 * word, ?_, ?_⟩
      · rw [List.length_cons, Nat.pow_succ]
        omega
      · have first : (byte.toNat + 256 * word) % 256 = byte.toNat := by omega
        have rest : (byte.toNat + 256 * word) / 256 = word := by omega
        simp [encodeWord, first, rest, encoded]

end Bytes
end LibKit
