import Mathlib

namespace LibKit
namespace CString

/-!
C strings over byte lists.

A buffer is the list of bytes that can be read from a pointer up to the end
of its object.  The functions below follow the C library and return `none`
where the library would read past the object, so that a caller who forgets
the terminating NUL is visible in every result built on them.
-/

def text (buffer : List UInt8) : List UInt8 :=
  buffer.takeWhile (fun byte => byte ≠ 0)

/-- `strlen`, undefined when the buffer holds no NUL. -/
def strlen (buffer : List UInt8) : Option Nat :=
  if 0 ∈ buffer then some (text buffer).length else none

/-- `strcmp` with its result cut down to a sign. -/
def strcmp : List UInt8 → List UInt8 → Option Int
  | [], _ => none
  | _ :: _, [] => none
  | left :: lefts, right :: rights =>
      if left = right then if left = 0 then some 0 else strcmp lefts rights
      else if left < right then some (-1) else some 1

/-- Whether `memcmp` finds the first `len` bytes equal. -/
def memeq (left right : List UInt8) (len : Nat) : Option Bool :=
  if len ≤ left.length ∧ len ≤ right.length then some (left.take len == right.take len) else none

@[simp] theorem text_nil : text [] = [] := rfl

theorem text_cons (byte : UInt8) (bytes : List UInt8) :
    text (byte :: bytes) = if byte = 0 then [] else byte :: text bytes := by
  by_cases zero : byte = 0
  · simp [text, zero]
  · simp [text, zero]

theorem zero_not_mem_text (buffer : List UInt8) : 0 ∉ text buffer := by
  intro member
  have checked := List.mem_takeWhile_imp member
  simp at checked

theorem text_eq_self {bytes : List UInt8} (clean : 0 ∉ bytes) : text bytes = bytes := by
  apply List.takeWhile_eq_self_iff.mpr
  intro byte member
  simp only [ne_eq, decide_not, Bool.not_eq_eq_eq_not, Bool.not_true, decide_eq_false_iff_not]
  intro zero
  exact clean (zero ▸ member)

/-- A NUL ends the text whatever follows it. -/
theorem text_append_zero {bytes : List UInt8} (clean : 0 ∉ bytes) (rest : List UInt8) :
    text (bytes ++ 0 :: rest) = bytes := by
  induction bytes with
  | nil => simp [text]
  | cons byte bytes ih =>
      have parts := not_or.mp (fun h => clean (List.mem_cons.mpr h))
      rw [List.cons_append, text_cons, if_neg (Ne.symm parts.1), ih parts.2]

theorem strlen_of_prefix {bytes buffer : List UInt8} (clean : 0 ∉ bytes) (terminated : bytes ++ [0] <+: buffer) :
    strlen buffer = some bytes.length := by
  rcases terminated with ⟨rest, rfl⟩
  rw [List.append_assoc, List.singleton_append, strlen, text_append_zero clean]
  exact if_pos (List.mem_append_right _ List.mem_cons_self)

theorem text_append_clean {bytes : List UInt8} (clean : 0 ∉ bytes) (rest : List UInt8) :
    text (bytes ++ rest) = bytes ++ text rest := by
  induction bytes with
  | nil => rfl
  | cons byte bytes ih =>
      have parts := not_or.mp (fun h => clean (List.mem_cons.mpr h))
      rw [List.cons_append, text_cons, if_neg (Ne.symm parts.1), ih parts.2, List.cons_append]

theorem text_length_lt {buffer : List UInt8} (terminated : 0 ∈ buffer) :
    (text buffer).length < buffer.length := by
  induction buffer with
  | nil => cases terminated
  | cons byte bytes ih =>
      rw [text_cons]
      by_cases zero : byte = 0
      · simp [zero]
      · have later : 0 ∈ bytes := by
          rcases List.mem_cons.mp terminated with same | later
          · exact absurd same.symm zero
          · exact later
        simpa [zero] using ih later

theorem text_end {buffer : List UInt8} (terminated : 0 ∈ buffer) : buffer[(text buffer).length]? = some 0 := by
  induction buffer with
  | nil => cases terminated
  | cons byte bytes ih =>
      rw [text_cons]
      by_cases zero : byte = 0
      · simp [zero]
      · have later := (List.mem_cons.mp terminated).resolve_left (Ne.symm zero)
        simpa [zero] using ih later

theorem take_text_length (buffer : List UInt8) : buffer.take (text buffer).length = text buffer := by
  induction buffer with
  | nil => rfl
  | cons byte bytes ih =>
      rw [text_cons]
      by_cases zero : byte = 0
      · simp [zero]
      · simp [zero, ih]

theorem text_split {buffer : List UInt8} (terminated : 0 ∈ buffer) : ∃ rest, buffer = text buffer ++ 0 :: rest := by
  have isEnd := text_end terminated
  have inside := text_length_lt terminated
  refine ⟨buffer.drop ((text buffer).length + 1), ?_⟩
  rw [List.getElem?_eq_getElem inside] at isEnd
  have split := List.take_append_drop (text buffer).length buffer
  rw [take_text_length, List.drop_eq_getElem_cons inside, Option.some.inj isEnd] at split
  exact split.symm

/-- On terminated buffers `strcmp` decides equality of the texts. -/
theorem strcmp_zero {left right : List UInt8} (leftEnds : 0 ∈ left) (rightEnds : 0 ∈ right) :
    ∃ sign, strcmp left right = some sign ∧ (sign = 0 ↔ text left = text right) := by
  induction left generalizing right with
  | nil => cases leftEnds
  | cons byte bytes ih =>
      cases right with
      | nil => cases rightEnds
      | cons other others =>
          rw [strcmp, text_cons, text_cons]
          by_cases same : byte = other
          · subst same
            by_cases zero : byte = 0
            · exact ⟨0, by simp [zero], by simp [zero]⟩
            · have leftLater := (List.mem_cons.mp leftEnds).resolve_left (Ne.symm zero)
              have rightLater := (List.mem_cons.mp rightEnds).resolve_left (Ne.symm zero)
              rcases ih leftLater rightLater with ⟨sign, found, decides⟩
              exact ⟨sign, by simp [zero, found], by simp [zero, decides]⟩
          · rw [if_neg same]
            refine ⟨if byte < other then -1 else 1, by split <;> rfl, ?_⟩
            constructor
            · intro impossible
              split at impossible <;> simp at impossible
            · intro equal
              by_cases zero : byte = 0
              · have otherZero : ¬ other = 0 := fun h => same (zero.trans h.symm)
                simp [zero, otherZero] at equal
              · by_cases otherZero : other = 0
                · simp [zero, otherZero] at equal
                · simp [zero, otherZero, same] at equal

end CString
end LibKit
