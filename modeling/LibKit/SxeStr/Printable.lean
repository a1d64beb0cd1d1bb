import LibKit.SxeHex.Conversion
import LibKit.SxeStr.Encoding
import LibKit.Support.Runs

namespace LibKit
namespace SxeStr

open CString (text)

/-!
# `sxe-str-to-printable.c`

Strings are made printable in ten slots in turn.  The characters of the string
are bounded, not those of its printable form, which may be four times as many.
The three dots are written at the end of the slot, wherever the form ends, unless
the last byte written is a NUL; if all characters that are looked at are
printable, that byte may be one of the slot that no call has written.
-/

structure Printables where
  next : Nat
  slots : Nat → List UInt8

/-- `SXE_STR_PRINTABLE_LENGTH_MAXIMUM` -/
def lengthMaximum : UInt32 := 1020

/-- The slots of `SXE_STR_PRINTABLE_SIMULTANEOUSLY` calls, at first. -/
def blankPrintables : Printables := ⟨0, fun _ => List.replicate 1024 0⟩

/-- `"..."` -/
def dots : List UInt8 := [46, 46, 46]

/-- `\x` and `%02x` of a character. -/
def hexEscape (c : UInt8) : List UInt8 := [92, 120, SxeHex.character (c >>> 4), SxeHex.character (c &&& 0xF)]

/-- The loop over the printable characters at the front; `from` is an
`unsigned`. -/
def skipFrom (str : List UInt8) : Nat → UInt32 → Except Stop UInt32
  | 0, _ => .error .undefined
  | turns + 1, index =>
      match str[index.toNat]? with
      | none => .error .undefined
      | some c => if isprint c then skipFrom str turns (index + 1) else .ok index

/-- The loop over the other characters: the position in the slot behind the last
byte, and the slot. -/
def printFrom (str : List UInt8) : Nat → UInt32 → UInt32 → List UInt8 → Except Stop (UInt32 × List UInt8)
  | 0, _, _, _ => .error .undefined
  | turns + 1, index, place, slot =>
      if index < lengthMaximum then
        match str[index.toNat]? with
        | none => .error .undefined
        | some c =>
            if c = 0 then do
              let slot ← put slot place [0]
              .ok (place + 1, slot)
            else if isprint c ∨ c = 32 then do
              let slot ← put slot place [c]
              printFrom str turns (index + 1) (place + 1) slot
            else do
              let slot ← put slot place (hexEscape c ++ [0])
              printFrom str turns (index + 1) (place + 4) slot
      else .ok (place, slot)

/-- `sxe_str_to_printable`: the slot that is returned, if it is not the string. -/
def toPrintable (str : Option (List UInt8)) (state : Printables) : Except Stop (Option Nat × Printables) :=
  match str with
  | none => .ok (none, state)
  | some str => do
      let index ← skipFrom str (2 ^ 32) 0
      match str[index.toNat]? with
      | none => .error .undefined
      | some c =>
          if c = 0 then .ok (none, state)
          else do
            let slot ← put (state.slots state.next) 0
              (str.take (if lengthMaximum < index then lengthMaximum else index).toNat)
            let (place, slot) ← printFrom str 1021 index index slot
            match slot[(place - 1).toNat]? with
            | none => .error .undefined
            | some last => do
                let slot ← if last = 0 then .ok slot else put slot lengthMaximum (dots ++ [0])
                .ok (some state.next, ⟨(state.next + 1) % 10, Function.update state.slots state.next slot⟩)

def printStep (state : Printables) (str : Option (List UInt8)) : Option (Option Nat × Printables) :=
  match toPrintable str state with
  | .ok done => some done
  | .error _ => none

def Terminated (_ : History (Option (List UInt8)) (Option Nat)) (_ : Printables) (str : Option (List UInt8)) : Prop :=
  ∀ string, str = some string → 0 ∈ string

/-! ## Printable forms -/

def printChar (c : UInt8) : List UInt8 := if isprint c then [c] else hexEscape c

def printed (string : List UInt8) : List UInt8 := string.flatMap printChar

/-- The number of printable characters at the front. -/
def plain (string : List UInt8) : Nat := (string.takeWhile isprint).length

/-- What is said of a call after some others: it returns the string if it is
printable; else it leaves all slots but one alone, among them those that the last
nine calls returned, and writes to that one the printable form of the string or,
if that does not fit, of some of it at the front, with three dots. -/
structure Prints (history : History (Option (List UInt8)) (Option Nat)) (state : Printables) (string : List UInt8)
    (returned : Option Nat) (after : Printables) : Prop where
  same : returned = none → ∀ c ∈ string, isprint c = true
  others : ∀ other, returned ≠ some other → after.slots other = state.slots other
  recent : ∀ entry ∈ history.take 9, ∀ other, entry.2 = some other → after.slots other = state.slots other
  ends : ∀ slot, returned = some slot → (after.slots slot).length = 1024 ∧ 0 ∈ after.slots slot
  clean : ∀ slot, returned = some slot → ∀ c ∈ text (after.slots slot), isprint c = true
  form : ∀ slot, returned = some slot → text (after.slots slot) = printed string ∨
    (1023 < (printed string).length ∧ ∃ front, front <+: string ∧ text (after.slots slot) = printed front ++ dots)

/-- The code makes a string printable as it should, given what is in the slot. -/
def Fits (slot string : List UInt8) : Prop :=
  plain string < 2 ^ 32 ∧
  (plain string = string.length ∨
    (plain string < 1020 ∧ string.length < 1020 ∧ (printed string).length ≤ 1023) ∨
    (plain string < 1020 ∧ 1020 ≤ string.length ∧ (printed (string.take 1020)).length = 1023 ∧
      ((1020 < string.length ∧ plain string ≤ 1016) ∨ (string.length = 1020 ∧ dots <:+ printed string))) ∨
    plain string = 1020 ∨
    (1020 < plain string ∧ plain string ≤ 1024 ∧
      (slot.getD (plain string - 1) 0 ≠ 0 ∨ dots <:+ string.take 1020 ++ text (slot.drop 1020))))

/-! ## Characters -/

theorem printChar_plain {c : UInt8} (isPlain : isprint c ∨ c = 32) : printChar c = [c] := by
  refine if_pos ?_
  rcases isPlain with isPrint | rfl
  · exact isPrint
  · rfl

theorem printChar_escape {c : UInt8} (escaped : ¬ (isprint c ∨ c = 32)) : printChar c = hexEscape c :=
  if_neg fun isPrint => escaped (Or.inl isPrint)

/-- The digit of four bits is printable. -/
theorem character_printable {value : UInt8} (small : value.toNat < 16) : isprint (SxeHex.character value) = true := by
  have all : ∀ n < 16, isprint (SxeHex.character (UInt8.ofNat n)) = true := by decide
  have here := all value.toNat small
  rwa [UInt8.ofNat_toNat] at here

theorem printChar_clean (c : UInt8) : ∀ d ∈ printChar c, isprint d = true := by
  rw [printChar]
  by_cases isPrint : isprint c = true
  · rw [if_pos isPrint]
    intro d inside
    rw [List.mem_singleton.mp inside]
    exact isPrint
  · have nibbles := (SxeHex.nibbles_of_byte c).2
    rw [if_neg isPrint, hexEscape, List.forall_mem_cons, List.forall_mem_cons, List.forall_mem_cons,
      List.forall_mem_singleton]
    exact ⟨rfl, rfl, character_printable nibbles.1, character_printable nibbles.2⟩

theorem isprint_ne_zero {c : UInt8} (isPrint : isprint c = true) : c ≠ 0 := by
  rintro rfl
  exact absurd isPrint (by decide)

theorem hexEscape_length (c : UInt8) : (hexEscape c).length = 4 := rfl

theorem printed_append (first second : List UInt8) : printed (first ++ second) = printed first ++ printed second :=
  List.flatMap_append

theorem printed_singleton (c : UInt8) : printed [c] = printChar c := List.flatMap_singleton _ _

theorem printed_clean (string : List UInt8) : ∀ c ∈ printed string, isprint c = true := by
  intro c inside
  rcases List.mem_flatMap.mp inside with ⟨d, -, isChar⟩
  exact printChar_clean d c isChar

theorem printed_no_zero (string : List UInt8) : 0 ∉ printed string :=
    fun inside => isprint_ne_zero (printed_clean string 0 inside) rfl

theorem printed_eq_self {string : List UInt8} (all : ∀ c ∈ string, isprint c = true) : printed string = string := by
  induction string with
  | nil => rfl
  | cons c string ih =>
      rw [List.forall_mem_cons] at all
      change printChar c ++ printed string = _
      rw [printChar_plain (Or.inl all.1), ih all.2]
      rfl

theorem printed_length (string : List UInt8) :
    (printed string).length = string.length + 3 * string.countP fun c => !isprint c := by
  induction string with
  | nil => rfl
  | cons c string ih =>
      change (printChar c ++ printed string).length = _
      rw [List.length_append, ih, List.length_cons, List.countP_cons]
      by_cases isPrint : isprint c = true
      · rw [printChar_plain (Or.inl isPrint), isPrint]
        simp only [List.length_singleton, Bool.not_true, Bool.false_eq_true, if_false]
        omega
      · rw [printChar, if_neg isPrint, hexEscape_length, Bool.eq_false_iff.mpr isPrint]
        simp only [Bool.not_false, if_true]
        omega

theorem printed_mono {first second : List UInt8} (front : first <+: second) :
    (printed first).length ≤ (printed second).length := by
  rcases front with ⟨rest, rfl⟩
  rw [printed_append, List.length_append]
  exact Nat.le_add_right _ _

/-! ## Printable fronts -/

section

variable {string : List UInt8}

theorem plain_le : plain string ≤ string.length := (List.takeWhile_prefix isprint).length_le

theorem take_plain : string.take (plain string) = string.takeWhile isprint :=
  (List.prefix_iff_eq_take.mp (List.takeWhile_prefix isprint)).symm

theorem plain_all : ∀ c ∈ string.takeWhile isprint, isprint c = true := fun _ inside => List.mem_takeWhile_imp inside

theorem printed_take {count : Nat} (few : count ≤ plain string) : printed (string.take count) = string.take count := by
  apply printed_eq_self
  intro c inside
  apply @plain_all string c
  rw [← take_plain]
  exact (List.take_sublist_take_left few).subset inside

theorem plain_stops (early : plain string < string.length) :
    ∃ c, string[plain string]? = some c ∧ isprint c = false := by
  induction string with
  | nil => exact absurd early (Nat.not_lt_zero _)
  | cons c string ih =>
      by_cases isPrint : isprint c = true
      · have next : plain (c :: string) = plain string + 1 := by
          rw [plain, List.takeWhile_cons_of_pos isPrint]
          rfl
        rw [next] at early ⊢
        exact ih (Nat.lt_of_succ_lt_succ early)
      · have first : plain (c :: string) = 0 := by
          rw [plain, List.takeWhile_cons_of_neg isPrint]
          rfl
        rw [first]
        exact ⟨c, rfl, Bool.eq_false_iff.mpr isPrint⟩

theorem printed_long {count : Nat} (early : plain string < count) (inside : count ≤ string.length) :
    count + 3 ≤ (printed (string.take count)).length := by
  rcases plain_stops (Nat.lt_of_lt_of_le early inside) with ⟨c, found, notPrint⟩
  have some : 0 < (string.take count).countP fun c => !isprint c := by
    rw [List.countP_pos_iff]
    have inTake : (string.take count)[plain string]? = some c := by
      rw [List.getElem?_take_of_lt early]
      exact found
    exact ⟨c, List.mem_of_getElem? inTake, by rw [notPrint]; rfl⟩
  rw [printed_length, List.length_take, Nat.min_eq_left inside]
  omega

end

theorem printed_longer {string : List UInt8} (more : plain string < string.length) :
    plain string + 4 ≤ (printed string).length :=
  Nat.le_trans (printed_long (Nat.lt_succ_self _) more) (printed_mono (List.take_prefix _ string))

/-! ## Loops -/

section

variable {str : List UInt8}

theorem char_at (ends : 0 ∈ str) {k : Nat} {c : UInt8} (found : (text str)[k]? = some c) :
    str[k]? = some c ∧ c ≠ 0 := by
  rcases CString.text_split ends with ⟨rest, split⟩
  constructor
  · rw [split, List.getElem?_append_left (List.getElem?_eq_some_iff.mp found).1]
    exact found
  · rintro rfl
    exact CString.zero_not_mem_text str (List.mem_of_getElem? found)

theorem char_plain (ends : 0 ∈ str) {k : Nat} (early : k ≤ plain (text str)) :
    ∃ c, str[k]? = some c ∧ (isprint c = true ↔ k < plain (text str)) := by
  rcases Nat.lt_or_eq_of_le early with less | same
  · have inside : k < (text str).length := Nat.lt_of_lt_of_le less plain_le
    refine ⟨_, (char_at ends (List.getElem?_eq_getElem inside)).1, iff_of_true ?_ less⟩
    apply @plain_all (text str)
    rw [← take_plain]
    refine List.mem_of_getElem? (i := k) ?_
    rw [List.getElem?_take_of_lt less, List.getElem?_eq_getElem inside]
  · rcases Nat.lt_or_eq_of_le (@plain_le (text str)) with inside | whole
    · rcases plain_stops inside with ⟨c, found, notPrint⟩
      rw [same]
      exact ⟨c, (char_at ends found).1, iff_of_false (Bool.eq_false_iff.mp notPrint) (Nat.lt_irrefl _)⟩
    · rw [same, whole]
      exact ⟨0, CString.text_end ends, iff_of_false (by decide) (Nat.lt_irrefl _)⟩

theorem skipFrom_eq (ends : 0 ∈ str) (few : plain (text str) < 2 ^ 32) {turns : Nat} {index : UInt32}
    (early : index.toNat ≤ plain (text str)) (enough : plain (text str) - index.toNat < turns) :
    ∃ stop, skipFrom str turns index = .ok stop ∧ stop.toNat = plain (text str) := by
  induction turns generalizing index with
  | zero => exact absurd enough (Nat.not_lt_zero _)
  | succ turns ih =>
      rcases char_plain ends early with ⟨c, found, isPrint⟩
      rw [skipFrom, found]
      simp only
      by_cases printable : isprint c = true
      · have less := isPrint.mp printable
        have next : (index + 1).toNat = index.toNat + 1 := by
          rw [UInt32.toNat_add]
          exact Nat.mod_eq_of_lt (by change index.toNat + 1 < 2 ^ 32; omega)
        rw [if_pos printable]
        exact ih (by rw [next]; exact less) (by rw [next]; omega)
      · rw [if_neg printable]
        exact ⟨index, rfl, Nat.le_antisymm early (Nat.not_lt.mp fun less => printable (isPrint.mpr less))⟩

theorem skipFrom_long (ends : 0 ∈ str) {turns k : Nat} {index : UInt32} (isIndex : index.toNat = k % 2 ^ 32)
    (many : k + turns ≤ plain (text str)) (few : k + turns ≤ 2 ^ 32) :
    skipFrom str turns index = .error .undefined := by
  induction turns generalizing k index with
  | zero => rfl
  | succ turns ih =>
      rw [Nat.mod_eq_of_lt (by omega)] at isIndex
      rcases char_plain ends (k := k) (by omega) with ⟨c, found, isPrint⟩
      rw [skipFrom, isIndex, found]
      simp only
      rw [if_pos (isPrint.mpr (by omega))]
      apply ih (k := k + 1)
      · rw [UInt32.toNat_add, isIndex]
        rfl
      · omega
      · omega

/-- The loop over the other characters has written those that it looked at, with
a NUL if the string has ended. -/
structure Written (string : List UInt8) (place : UInt32) (slot : List UInt8) : Prop where
  sized : slot.length = 1024
  ended : string.length < 1020 → place.toNat = (printed string).length + 1 ∧
    slot.take ((printed string).length + 1) = printed string ++ [0]
  stopped : 1020 ≤ string.length → place.toNat = (printed (string.take 1020)).length ∧
    slot.take (printed (string.take 1020)).length = printed (string.take 1020)

/-- What the loop does once some characters are printed. -/
theorem printFrom_eq (ends : 0 ∈ str) {turns : Nat} {done rest slot : List UInt8} {index place : UInt32}
    (split : text str = done ++ rest) (isIndex : index.toNat = done.length) (early : done.length ≤ 1020)
    (isPlace : place.toNat = (printed done).length) (sized : slot.length = 1024)
    (written : slot.take (printed done).length = printed done) (enough : 1020 < turns + done.length) :
    ((printed ((text str).take 1020)).length ≤ 1023 →
      ∃ place' slot', printFrom str turns index place slot = .ok (place', slot') ∧ Written (text str) place' slot') ∧
    (1024 < (printed ((text str).take 1020)).length ∨ ((text str).length < 1020 ∧ 1023 < (printed (text str)).length) →
      printFrom str turns index place slot = .error .undefined) := by
  induction turns generalizing done rest slot index place with
  | zero => omega
  | succ turns ih =>
      have isMaximum : lengthMaximum.toNat = 1020 := rfl
      have room : (printed done).length ≤ 1024 := by
        have length := congrArg List.length written
        rw [List.length_take, sized] at length
        omega
      rw [printFrom]
      rcases Nat.lt_or_eq_of_le early with less | full
      · rw [if_pos (by rw [UInt32.lt_iff_toNat_lt, isIndex]; exact less), isIndex]
        cases rest with
        | nil =>
            rw [List.append_nil] at split
            have isEnd := CString.text_end ends
            rw [split] at isEnd
            have whole : (text str).take 1020 = text str := List.take_of_length_le (by rw [split]; exact early)
            rw [isEnd, whole, split]
            simp only [if_true]
            constructor
            · intro fits
              rcases @put_ok slot place [0] (by rw [isPlace, sized, List.length_singleton]; omega) with
                ⟨after, put, ofLength, taken⟩
              rw [put]
              refine ⟨_, _, rfl, ofLength.trans sized, fun _ => ⟨?_, ?_⟩, fun long => absurd less (Nat.not_lt.mpr long)⟩
              · rw [UInt32.toNat_add, isPlace]
                exact Nat.mod_eq_of_lt (by change (printed done).length + 1 < 2 ^ 32; omega)
              · have upto := taken 1 (Nat.le_refl 1)
                rw [isPlace, written] at upto
                exact upto
            · intro long
              rw [put, if_neg (by rw [isPlace, sized, List.length_singleton]; omega)]
              rfl
        | cons c rest =>
            have found : (text str)[done.length]? = some c := by
              rw [split, List.getElem?_append_right (Nat.le_refl _), Nat.sub_self]
              rfl
            rcases char_at ends found with ⟨isChar, nonzero⟩
            have split' : text str = (done ++ [c]) ++ rest := by
              rw [split, List.append_assoc]
              rfl
            have upto : (printed (done ++ [c])).length ≤ (printed ((text str).take 1020)).length := by
              apply printed_mono
              rw [List.prefix_take_iff, List.length_append]
              exact ⟨⟨rest, split'.symm⟩, less⟩
            have more : (printed (done ++ [c])).length = (printed done).length + (printChar c).length := by
              rw [printed_append, printed_singleton, List.length_append]
            have nextIndex : (index + 1).toNat = (done ++ [c]).length := by
              rw [UInt32.toNat_add, isIndex, List.length_append]
              exact Nat.mod_eq_of_lt (by change done.length + 1 < 2 ^ 32; omega)
            have goesOn : ∀ behind, place.toNat + (printChar c ++ behind).length ≤ slot.length →
                ∃ after, put slot place (printChar c ++ behind) = .ok after ∧ after.length = 1024 ∧
                  after.take (printed (done ++ [c])).length = printed (done ++ [c]) := by
              intro behind fits
              rcases put_ok fits with ⟨after, put, ofLength, taken⟩
              have upto := taken (printChar c).length (by rw [List.length_append]; exact Nat.le_add_right _ _)
              rw [isPlace, written, List.take_append_of_le_length (Nat.le_refl _), List.take_length,
                ← printed_singleton,
                ← printed_append] at upto
              exact ⟨after, put, ofLength.trans sized, by rw [more, ← printed_singleton]; exact upto⟩
            rw [isChar]
            simp only [if_neg nonzero]
            by_cases isPlain : isprint c ∨ c = 32
            · have single : (printChar c).length = 1 := by rw [printChar_plain isPlain, List.length_singleton]
              rw [if_pos isPlain]
              by_cases fits : place.toNat + 1 ≤ slot.length
              · rcases goesOn [] (by rw [List.append_nil, single]; exact fits) with ⟨after, put, sized', written'⟩
                rw [List.append_nil, printChar_plain isPlain] at put
                rw [put, ok_bind]
                apply ih split' nextIndex
                · rw [List.length_append]
                  exact less
                · rw [more, single, UInt32.toNat_add, isPlace]
                  exact Nat.mod_eq_of_lt (by change (printed done).length + 1 < 2 ^ 32; omega)
                · exact sized'
                · exact written'
                · rw [List.length_append, List.length_singleton]
                  omega
              · have full : ¬ place.toNat + [c].length ≤ slot.length := fits
                rw [put, if_neg full]
                exact ⟨fun short => by omega, fun _ => rfl⟩
            · have four : (printChar c).length = 4 := by rw [printChar_escape isPlain, hexEscape_length]
              rw [if_neg isPlain]
              by_cases fits : place.toNat + (printChar c ++ [0]).length ≤ slot.length
              · rcases goesOn [0] fits with ⟨after, put, sized', written'⟩
                rw [printChar_escape isPlain] at put
                rw [put, ok_bind]
                apply ih split' nextIndex
                · rw [List.length_append]
                  exact less
                · rw [more, four, UInt32.toNat_add, isPlace]
                  exact Nat.mod_eq_of_lt (by change (printed done).length + 4 < 2 ^ 32; omega)
                · exact sized'
                · exact written'
                · rw [List.length_append, List.length_singleton]
                  omega
              · rw [put, ← printChar_escape isPlain, if_neg fits]
                rw [List.length_append, List.length_singleton] at fits
                exact ⟨fun short => by omega, fun _ => rfl⟩
      · have isUpto : (text str).take 1020 = done := by
          rw [split, ← full]
          exact List.take_left
        have long : 1020 ≤ (text str).length := by
          rw [split, List.length_append]
          omega
        rw [if_neg (by rw [UInt32.lt_iff_toNat_lt, isIndex, isMaximum]; omega), isUpto]
        refine ⟨fun _ => ⟨_, _, rfl, sized, fun short => absurd long (Nat.not_le.mpr short), fun _ => ?_⟩,
          fun either => ?_⟩
        · rw [isUpto]
          exact ⟨isPlace, written⟩
        · omega

end

/-! ## Slots -/

structure Form (string slot : List UInt8) : Prop where
  sized : slot.length = 1024
  ends : 0 ∈ slot
  clean : ∀ c ∈ text slot, isprint c = true
  form : text slot = printed string ∨
    (1023 < (printed string).length ∧ ∃ front, front <+: string ∧ text slot = printed front ++ dots)

/-- The three dots are written at the end of a slot. -/
def dotted (slot : List UInt8) : List UInt8 := slot.take 1020 ++ (dots ++ [0])

section

variable {string slot : List UInt8}

theorem dotted_length (sized : slot.length = 1024) : (dotted slot).length = 1024 := by
  rw [dotted, List.length_append, List.length_take, sized, List.length_append]
  change min 1020 1024 + (3 + 1) = 1024
  omega

theorem dots_clean : ∀ c ∈ dots, isprint c = true := by decide +kernel

theorem no_zero {body : List UInt8} (clean : ∀ c ∈ body, isprint c = true) : 0 ∉ body :=
  fun inside => isprint_ne_zero (clean 0 inside) rfl

/-- The form of a slot that holds some bytes in front of a NUL. -/
theorem form_iff {body rest : List UInt8} (sized : slot.length = 1024) (holds : slot = body ++ 0 :: rest)
    (clean : ∀ c ∈ body, isprint c = true) : Form string slot ↔ body = printed string ∨
      (1023 < (printed string).length ∧ ∃ front, front <+: string ∧ body = printed front ++ dots) := by
  have isText : text slot = body := by
    rw [holds]
    exact CString.text_append_zero (no_zero clean) rest
  constructor
  · intro form
    rw [← isText]
    exact form.form
  · intro form
    refine ⟨sized, ?_, ?_, ?_⟩
    · rw [holds]
      exact List.mem_append_right _ List.mem_cons_self
    · rw [isText]
      exact clean
    · rw [isText]
      exact form

theorem form_whole (sized : slot.length = 1024)
    (written : slot.take ((printed string).length + 1) = printed string ++ [0]) : Form string slot := by
  have holds : slot = printed string ++ 0 :: slot.drop ((printed string).length + 1) := by
    conv_lhs => rw [← List.take_append_drop ((printed string).length + 1) slot, written]
    rw [List.append_assoc]
    rfl
  exact (form_iff sized holds (printed_clean string)).mpr (Or.inl rfl)

theorem form_cut (sized : slot.length = 1024) (long : 1020 ≤ plain string) (more : plain string < string.length)
    (written : slot.take 1020 = string.take 1020) : Form string (dotted slot) := by
  have isPrinted := printed_take long
  have holds : dotted slot = (string.take 1020 ++ dots) ++ 0 :: [] := by
    rw [dotted, written, List.append_assoc]
  have clean : ∀ c ∈ string.take 1020 ++ dots, isprint c = true := by
    intro c inside
    rcases List.mem_append.mp inside with early | late
    · rw [← isPrinted] at early
      exact printed_clean _ c early
    · exact dots_clean c late
  rw [form_iff (dotted_length sized) holds clean]
  right
  have least := printed_longer more
  exact ⟨by omega, _, List.take_prefix 1020 string, by rw [isPrinted]⟩

/-- If the dots are not written, they must have been there. -/
theorem form_left (long : 1020 < plain string) (more : plain string < string.length)
    (isSlot : slot.length = 1024) (isZero : 0 ∈ slot.drop 1020) :
    Form string (string.take 1020 ++ slot.drop 1020) ↔ dots <:+ string.take 1020 ++ text (slot.drop 1020) := by
  have isPrinted := printed_take (Nat.le_of_lt long)
  have taken : (string.take 1020).length = 1020 := by
    rw [List.length_take]
    omega
  have dropped : (slot.drop 1020).length = 4 := by rw [List.length_drop, isSlot]
  have sized : (string.take 1020 ++ slot.drop 1020).length = 1024 := by rw [List.length_append, taken, dropped]
  have cleanFront : ∀ c ∈ string.take 1020, isprint c = true := by
    intro c inside
    rw [← isPrinted] at inside
    exact printed_clean _ c inside
  have isText : text (string.take 1020 ++ slot.drop 1020) = string.take 1020 ++ text (slot.drop 1020) :=
    CString.text_append_clean (no_zero cleanFront) _
  have short : (text (slot.drop 1020)).length ≤ 3 := by
    have less := CString.text_length_lt isZero
    omega
  have tooLong : 1023 < (printed string).length := by
    have least := printed_longer more
    omega
  constructor
  · intro form
    rcases form.form with whole | ⟨-, front, -, holds⟩
    · have length := congrArg List.length (isText.symm.trans whole)
      rw [List.length_append, taken] at length
      omega
    · rw [← isText, holds]
      exact List.suffix_append _ _
  · rintro ⟨body, holds⟩
    have lengths := congrArg List.length holds
    rw [List.length_append, List.length_append, taken] at lengths
    have few : body.length ≤ (string.take 1020).length := by
      rw [taken]
      change body.length + 3 = _ at lengths
      omega
    have front : body <+: string.take 1020 := List.prefix_of_prefix_length_le ⟨dots, holds⟩ (List.prefix_append _ _) few
    have isBody : printed body = body := printed_eq_self fun c inside => cleanFront c (front.subset inside)
    refine ⟨sized, List.mem_append_right _ isZero, ?_, Or.inr ⟨tooLong, body, front.trans (List.take_prefix _ _), ?_⟩⟩
    · rw [isText, ← holds]
      intro c inside
      rcases List.mem_append.mp inside with early | late
      · exact cleanFront c (front.subset early)
      · exact dots_clean c late
    · rw [isText, ← holds, isBody]

/-- A string with one character that is not printable among those that are
looked at. -/
theorem form_dotted (sized : slot.length = 1024) (early : plain string < 1020) (long : 1020 ≤ string.length)
    (exact : (printed (string.take 1020)).length = 1023)
    (written : slot.take 1023 = printed (string.take 1020)) : Form string (dotted slot) ↔
      (1020 < string.length ∧ plain string ≤ 1016) ∨ (string.length = 1020 ∧ dots <:+ printed string) := by
  have taken : slot.take 1020 = (printed (string.take 1020)).take 1020 := by
    rw [← written, List.take_take]
    rfl
  have holds : dotted slot = ((printed (string.take 1020)).take 1020 ++ dots) ++ 0 :: [] := by
    rw [dotted, taken, List.append_assoc]
  have clean : ∀ c ∈ (printed (string.take 1020)).take 1020 ++ dots, isprint c = true := by
    intro c inside
    rcases List.mem_append.mp inside with first | last
    · exact printed_clean _ c (List.mem_of_mem_take first)
    · exact dots_clean c last
  have bodyLength : ((printed (string.take 1020)).take 1020 ++ dots).length = 1023 := by
    rw [List.length_append, List.length_take, exact]
    rfl
  rw [form_iff (dotted_length sized) holds clean]
  rcases Nat.lt_or_eq_of_le long with longer | same
  · have tooLong : 1023 < (printed string).length := by
      have split := congrArg (fun list => (printed list).length) (List.take_append_drop 1020 string)
      simp only [printed_append, List.length_append, exact] at split
      have rest := printed_length (string.drop 1020)
      rw [List.length_drop] at rest
      omega
    constructor
    · rintro (whole | ⟨-, front, isFront, isBody⟩)
      · rw [whole] at bodyLength
        omega
      · left
        refine ⟨longer, Nat.not_lt.mp fun late => ?_⟩
        have length := congrArg List.length isBody
        rw [bodyLength, List.length_append] at length
        change 1023 = (printed front).length + 3 at length
        have few := isFront.length_le
        rw [List.prefix_iff_eq_take.mp isFront] at length
        rcases Nat.lt_or_ge (plain string) front.length with beyond | upto
        · have least := printed_long beyond few
          omega
        · rw [printed_take upto, List.length_take] at length
          omega
    · rintro (⟨-, few⟩ | ⟨same, -⟩)
      · refine Or.inr ⟨tooLong, string.take 1017, List.take_prefix _ _, ?_⟩
        have least := @printed_long string 1017 (by omega) (by omega)
        have split : printed (string.take 1020) = printed (string.take 1017) ++
          printed ((string.take 1020).drop 1017) := by
          rw [← printed_append]
          conv_lhs => rw [← List.take_append_drop 1017 (string.take 1020), List.take_take]
          rfl
        have rest := printed_length ((string.take 1020).drop 1017)
        rw [List.length_drop, List.length_take] at rest
        have lengths := congrArg List.length split
        rw [List.length_append, exact] at lengths
        have isLength : (printed (string.take 1017)).length = 1020 := by omega
        rw [split, List.take_append_of_le_length (Nat.le_of_eq isLength.symm),
          List.take_of_length_le (Nat.le_of_eq isLength)]
      · omega
  · have isAll : string.take 1020 = string := List.take_of_length_le (Nat.le_of_eq same.symm)
    rw [isAll] at exact ⊢
    constructor
    · rintro (whole | ⟨long, -⟩)
      · exact Or.inr ⟨same.symm, by rw [← whole]; exact List.suffix_append _ _⟩
      · omega
    · rintro (⟨longer, -⟩ | ⟨-, suffix⟩)
      · omega
      · left
        have isDots := List.suffix_iff_eq_drop.mp suffix
        rw [exact] at isDots
        conv_rhs => rw [← List.take_append_drop 1020 (printed string)]
        exact congrArg _ isDots

end

/-! ## Calls -/

section

variable {str : List UInt8} {state : Printables} {history : History (Option (List UInt8)) (Option Nat)}

/-- A slot holds the form of a string, and is none of those returned lately. -/
theorem prints_iff (recent : ∀ entry ∈ history.take 9, entry.2 ≠ some state.next) {next : Nat}
    {string slot : List UInt8} :
    Prints history state string (some state.next) ⟨next, Function.update state.slots state.next slot⟩ ↔
      Form string slot := by
  have here : Function.update state.slots state.next slot state.next = slot := Function.update_self _ _ _
  have there : ∀ other, some state.next ≠ some other →
    Function.update state.slots state.next slot other = state.slots other :=
    fun other differs => Function.update_of_ne (fun same => differs (congrArg some same.symm)) _ _
  constructor
  · intro prints
    have ends := prints.ends _ rfl
    have clean := prints.clean _ rfl
    have form := prints.form _ rfl
    simp only [here] at ends clean form
    exact ⟨ends.1, ends.2, clean, form⟩
  · intro form
    refine ⟨fun none => (by cases none), there, fun entry inside other isSlot => ?_, ?_, ?_, ?_⟩
    · apply there
      rw [← isSlot]
      exact (recent entry inside).symm
    · intro slot' same
      cases same
      simp only [here]
      exact ⟨form.sized, form.ends⟩
    · intro slot' same
      cases same
      simp only [here]
      exact form.clean
    · intro slot' same
      cases same
      simp only [here]
      exact form.form

/-- The characters that are copied to the slot. -/
def copied (slot string : List UInt8) : List UInt8 :=
  string.take (min (plain string) 1020) ++ slot.drop (min (plain string) 1020)

/-- What a call does for a string that is not printable. -/
theorem toPrintable_eq (ends : 0 ∈ str) (few : plain (text str) < 2 ^ 32) (more : plain (text str) < (text str).length)
    (sized : (state.slots state.next).length = 1024) : ∃ index : UInt32, index.toNat = plain (text str) ∧
      toPrintable (some str) state = (do
        let (place, slot) ← printFrom str 1021 index index (copied (state.slots state.next) (text str))
        match slot[(place - 1).toNat]? with
        | none => .error .undefined
        | some last => do
            let slot ← if last = 0 then .ok slot else put slot lengthMaximum (dots ++ [0])
            .ok (some state.next, ⟨(state.next + 1) % 10, Function.update state.slots state.next slot⟩)) := by
  rcases @skipFrom_eq str ends few (2 ^ 32) 0 (Nat.zero_le _) (Nat.lt_of_le_of_lt (Nat.sub_le _ _) few) with
    ⟨index, skipped, isIndex⟩
  rcases plain_stops more with ⟨c, found, -⟩
  rcases char_at ends found with ⟨isChar, nonzero⟩
  have least : (if lengthMaximum < index then lengthMaximum else index).toNat = min (plain (text str)) 1020 := by
    have isMaximum : lengthMaximum.toNat = 1020 := rfl
    split
    · rename_i above
      rw [UInt32.lt_iff_toNat_lt, isIndex, isMaximum] at above
      rw [isMaximum]
      omega
    · rename_i below
      rw [UInt32.lt_iff_toNat_lt, isIndex, isMaximum] at below
      rw [isIndex]
      omega
  have taken : str.take (min (plain (text str)) 1020) = (text str).take (min (plain (text str)) 1020) := by
    have inside : min (plain (text str)) 1020 ≤ (text str).length := Nat.le_trans (Nat.min_le_left _ _) plain_le
    generalize min (plain (text str)) 1020 = count at inside
    rcases CString.text_split ends with ⟨rest, split⟩
    conv_lhs => rw [split]
    exact List.take_append_of_le_length inside
  have length : ((text str).take (min (plain (text str)) 1020)).length = min (plain (text str)) 1020 := by
    rw [List.length_take]
    omega
  have copies : put (state.slots state.next) 0 ((text str).take (min (plain (text str)) 1020)) =
      .ok (copied (state.slots state.next) (text str)) := by
    rw [put, if_pos]
    · change Except.ok ([] ++ _) = _
      rw [List.nil_append, copied, length]
      change Except.ok (_ ++ List.drop (0 + _) _) = _
      rw [Nat.zero_add]
    · rw [length, sized]
      change 0 + min _ 1020 ≤ 1024
      omega
  refine ⟨index, isIndex, ?_⟩
  rw [toPrintable, skipped, ok_bind, isIndex, isChar]
  simp only [if_neg nonzero, least, taken, copies, ok_bind]

theorem put_dots {slot : List UInt8} (sized : slot.length = 1024) :
    put slot lengthMaximum (dots ++ [0]) = .ok (dotted slot) := by
  rw [put, if_pos]
  · change Except.ok (slot.take 1020 ++ ((dots ++ [0]) ++ slot.drop (1020 + 4))) = _
    rw [List.drop_of_length_le (by rw [sized]), List.append_nil]
    rfl
  · rw [sized]
    exact Nat.le_refl 1024

theorem copied_spec {slot string : List UInt8} (sized : slot.length = 1024) (early : plain string ≤ 1020) :
    (copied slot string).length = 1024 ∧ (copied slot string).take (plain string) = string.take (plain string) := by
  have few := @plain_le string
  have length : (string.take (plain string)).length = plain string := by
    rw [List.length_take]
    omega
  rw [copied, Nat.min_eq_left early]
  constructor
  · rw [List.length_append, length, List.length_drop, sized]
    omega
  · rw [List.take_append_of_le_length (Nat.le_of_eq length.symm), List.take_of_length_le (Nat.le_of_eq length)]

/-- A string whose first character that is not printable is looked at. -/
theorem toPrintable_short (ends : 0 ∈ str) (early : plain (text str) < 1020)
    (more : plain (text str) < (text str).length) (sized : (state.slots state.next).length = 1024)
    (recent : ∀ entry ∈ history.take 9, entry.2 ≠ some state.next) :
    (∃ slot after, toPrintable (some str) state = .ok (slot, after) ∧ Prints history state (text str) slot after) ↔
      ((text str).length < 1020 ∧ (printed (text str)).length ≤ 1023) ∨
      (1020 ≤ (text str).length ∧ (printed ((text str).take 1020)).length = 1023 ∧
        ((1020 < (text str).length ∧ plain (text str) ≤ 1016) ∨
          ((text str).length = 1020 ∧ dots <:+ printed (text str)))) := by
  rcases toPrintable_eq ends (Nat.lt_trans early (by decide)) more sized with ⟨index, isIndex, called⟩
  have front := copied_spec sized (Nat.le_of_lt early)
  have isDone : ((text str).take (plain (text str))).length = plain (text str) := by
    rw [List.length_take]
    omega
  have isPrinted := printed_take (Nat.le_refl (plain (text str)))
  have looped := @printFrom_eq str ends 1021 _ _ (copied (state.slots state.next) (text str)) index index
    (List.take_append_drop (plain (text str)) (text str)).symm (isIndex.trans isDone.symm) (by omega)
    (by rw [isPrinted, isDone, isIndex]) front.1 (by rw [isPrinted, isDone]; exact front.2) (by omega)
  rw [called]
  by_cases short : (printed ((text str).take 1020)).length ≤ 1023
  · rcases looped.1 short with ⟨place, slot, printed', written⟩
    rw [printed', ok_bind]
    rcases Nat.lt_or_ge (text str).length 1020 with ended | stopped
    · have whole : (text str).take 1020 = text str := List.take_of_length_le (Nat.le_of_lt ended)
      rw [whole] at short
      rcases written.ended ended with ⟨isPlace, taken⟩
      have last : slot[(place - 1).toNat]? = some 0 := by
        have before : (place - 1).toNat = (printed (text str)).length := by
          rw [UInt32.toNat_sub_of_le place 1 (by rw [UInt32.le_iff_toNat_le, isPlace]; exact Nat.le_add_left 1 _),
            isPlace]
          rfl
        have here : (slot.take ((printed (text str)).length + 1))[(printed (text str)).length]? = some 0 := by
          rw [taken, List.getElem?_append_right (Nat.le_refl _), Nat.sub_self]
          rfl
        rwa [List.getElem?_take_of_lt (Nat.lt_succ_self _), ← before] at here
      simp only [last, if_true, ok_bind]
      exact iff_of_true ⟨_, _, rfl, (prints_iff recent).mpr (form_whole written.sized taken)⟩ (Or.inl ⟨ended, short⟩)
    · have least := printed_long early stopped
      have exact : (printed ((text str).take 1020)).length = 1023 := by omega
      rcases written.stopped stopped with ⟨isPlace, taken⟩
      rw [exact] at isPlace taken
      have last : ∃ c, slot[(place - 1).toNat]? = some c ∧ c ≠ 0 := by
        have before : (place - 1).toNat = 1022 := by
          rw [UInt32.toNat_sub_of_le place 1 (by rw [UInt32.le_iff_toNat_le, isPlace]; decide), isPlace]
          rfl
        have inside : 1022 < (printed ((text str).take 1020)).length := by
          rw [exact]
          decide
        have here : (slot.take 1023)[1022]? = some (printed ((text str).take 1020))[1022] := by
          rw [taken]
          exact List.getElem?_eq_getElem inside
        rw [List.getElem?_take_of_lt (by decide)] at here
        exact ⟨_, by rw [before]; exact here, isprint_ne_zero (printed_clean _ _ (List.getElem_mem inside))⟩
      rcases last with ⟨c, isLast, nonzero⟩
      simp only [isLast, if_neg nonzero, put_dots written.sized, ok_bind]
      have isForm := form_dotted written.sized early stopped exact taken
      constructor
      · rintro ⟨slot', after, same, prints⟩
        cases same
        exact Or.inr ⟨stopped, exact, isForm.mp ((prints_iff recent).mp prints)⟩
      · rintro (⟨ended, -⟩ | ⟨-, -, either⟩)
        · omega
        · exact ⟨_, _, rfl, (prints_iff recent).mpr (isForm.mpr either)⟩
  · have isLength := printed_length ((text str).take 1020)
    rw [List.length_take] at isLength
    have fails : printFrom str 1021 index index (copied (state.slots state.next) (text str)) = .error .undefined := by
      apply looped.2
      rcases Nat.lt_or_ge (text str).length 1020 with ended | stopped
      · have whole : (text str).take 1020 = text str := List.take_of_length_le (Nat.le_of_lt ended)
        rw [whole] at short
        exact Or.inr ⟨ended, Nat.not_le.mp short⟩
      · left
        omega
    rw [fails]
    refine iff_of_false ?_ ?_
    · rintro ⟨_, _, wrong, -⟩
      cases wrong
    · rintro (⟨ended, few⟩ | ⟨-, exact, -⟩)
      · rw [List.take_of_length_le (Nat.le_of_lt ended)] at short
        exact short few
      · exact short (Nat.le_of_eq exact)

/-- A string that is printable as far as it is looked at. -/
theorem toPrintable_long (ends : 0 ∈ str) (few : plain (text str) < 2 ^ 32) (late : 1020 ≤ plain (text str))
    (more : plain (text str) < (text str).length) (sized : (state.slots state.next).length = 1024)
    (recent : ∀ entry ∈ history.take 9, entry.2 ≠ some state.next) :
    (∃ slot after, toPrintable (some str) state = .ok (slot, after) ∧ Prints history state (text str) slot after) ↔
      plain (text str) = 1020 ∨ (1020 < plain (text str) ∧ plain (text str) ≤ 1024 ∧
        ((state.slots state.next).getD (plain (text str) - 1) 0 ≠ 0 ∨
          dots <:+ (text str).take 1020 ++ text ((state.slots state.next).drop 1020))) := by
  rcases toPrintable_eq ends few more sized with ⟨index, isIndex, called⟩
  have isCopied : copied (state.slots state.next) (text str) =
    (text str).take 1020 ++ (state.slots state.next).drop 1020 := by
    rw [copied, Nat.min_eq_right late]
  have taken : ((text str).take 1020).length = 1020 := by
    rw [List.length_take]
    omega
  have length : ((text str).take 1020 ++ (state.slots state.next).drop 1020).length = 1024 := by
    rw [List.length_append, taken, List.length_drop, sized]
  have front : ((text str).take 1020 ++ (state.slots state.next).drop 1020).take 1020 = (text str).take 1020 := by
    rw [List.take_append_of_le_length (Nat.le_of_eq taken.symm), List.take_of_length_le (Nat.le_of_eq taken)]
  have looped : printFrom str 1021 index index (copied (state.slots state.next) (text str)) =
      .ok (index, (text str).take 1020 ++ (state.slots state.next).drop 1020) := by
    have isMaximum : lengthMaximum.toNat = 1020 := rfl
    rw [isCopied, printFrom, if_neg]
    rw [UInt32.lt_iff_toNat_lt, isIndex, isMaximum]
    omega
  have before : (index - 1).toNat = plain (text str) - 1 := by
    have one : (1 : UInt32).toNat = 1 := rfl
    rw [UInt32.toNat_sub_of_le index 1 (by rw [UInt32.le_iff_toNat_le, isIndex, one]; omega), isIndex, one]
  rw [called, looped, ok_bind]
  simp only [before]
  rcases Nat.lt_or_eq_of_le late with later | same
  · have isPlace : 1020 + (plain (text str) - 1 - 1020) = plain (text str) - 1 := by omega
    have isByte : ((text str).take 1020 ++ (state.slots state.next).drop 1020)[plain (text str) - 1]? =
        (state.slots state.next)[plain (text str) - 1]? := by
      rw [List.getElem?_append_right (by omega), taken, List.getElem?_drop, isPlace]
    rw [isByte]
    rcases Nat.lt_or_ge 1024 (plain (text str)) with beyond | inside
    · rw [List.getElem?_eq_none (by omega)]
      refine iff_of_false ?_ (by omega)
      rintro ⟨_, _, wrong, -⟩
      cases wrong
    · have isLast : (state.slots state.next)[plain (text str) - 1]? = some
        ((state.slots state.next).getD (plain (text str) - 1) 0) := by
        rw [List.getD_eq_getElem?_getD, List.getElem?_eq_getElem (by omega)]
        rfl
      rw [isLast]
      by_cases isZero : (state.slots state.next).getD (plain (text str) - 1) 0 = 0
      · have ended : 0 ∈ (state.slots state.next).drop 1020 := by
          rw [isZero] at isLast
          refine List.mem_of_getElem? (i := plain (text str) - 1 - 1020) ?_
          rw [List.getElem?_drop, isPlace]
          exact isLast
        have isForm := form_left later more sized ended
        simp only [if_pos isZero, ok_bind]
        constructor
        · rintro ⟨slot', after, same, prints⟩
          cases same
          exact Or.inr ⟨later, inside, Or.inr (isForm.mp ((prints_iff recent).mp prints))⟩
        · rintro (same | ⟨-, -, nonzero | suffix⟩)
          · omega
          · exact absurd isZero nonzero
          · exact ⟨_, _, rfl, (prints_iff recent).mpr (isForm.mpr suffix)⟩
      · simp only [if_neg isZero, put_dots length, ok_bind]
        exact iff_of_true ⟨_, _, rfl, (prints_iff recent).mpr (form_cut length late more front)⟩
          (Or.inr ⟨later, inside, Or.inl isZero⟩)
  · have isLast : ∃ c, ((text str).take 1020 ++ (state.slots state.next).drop 1020)[plain (text str) - 1]? =
      some c ∧ c ≠ 0 := by
      have inside : plain (text str) - 1 < ((text str).take 1020).length := by omega
      refine ⟨_, (List.getElem?_append_left inside).trans (List.getElem?_eq_getElem inside), ?_⟩
      have member := List.getElem_mem inside
      have isPrinted := printed_take (Nat.le_of_eq same)
      apply isprint_ne_zero
      apply printed_clean ((text str).take 1020)
      rw [isPrinted]
      exact member
    rcases isLast with ⟨c, isLast, nonzero⟩
    simp only [isLast, if_neg nonzero, put_dots length, ok_bind]
    exact iff_of_true ⟨_, _, rfl, (prints_iff recent).mpr (form_cut length late more front)⟩ (Or.inl same.symm)

/-- A call makes a string printable as it should if and only if the string is one
for which the code does. -/
theorem toPrintable_iff (ends : 0 ∈ str) (sized : (state.slots state.next).length = 1024)
    (recent : ∀ entry ∈ history.take 9, entry.2 ≠ some state.next) :
    (∃ slot after, toPrintable (some str) state = .ok (slot, after) ∧ Prints history state (text str) slot after) ↔
      Fits (state.slots state.next) (text str) := by
  rcases Nat.lt_or_ge (plain (text str)) (2 ^ 32) with few | many
  · rcases Nat.lt_or_eq_of_le (@plain_le (text str)) with more | whole
    · rcases Nat.lt_or_ge (plain (text str)) 1020 with early | late
      · rw [toPrintable_short ends early more sized recent, Fits]
        constructor
        · rintro (⟨short, fits⟩ | ⟨long, exact, either⟩)
          · exact ⟨few, Or.inr (Or.inl ⟨early, short, fits⟩)⟩
          · exact ⟨few, Or.inr (Or.inr (Or.inl ⟨early, long, exact, either⟩))⟩
        · rintro ⟨-, whole | ⟨-, short, fits⟩ | ⟨-, long, exact, either⟩ | same | ⟨later, -⟩⟩
          · omega
          · exact Or.inl ⟨short, fits⟩
          · exact Or.inr ⟨long, exact, either⟩
          · omega
          · omega
      · rw [toPrintable_long ends few late more sized recent, Fits]
        constructor
        · rintro (same | ⟨later, inside, either⟩)
          · exact ⟨few, Or.inr (Or.inr (Or.inr (Or.inl same)))⟩
          · exact ⟨few, Or.inr (Or.inr (Or.inr (Or.inr ⟨later, inside, either⟩)))⟩
        · rintro ⟨-, whole | ⟨early, -⟩ | ⟨early, -⟩ | same | all⟩
          · omega
          · omega
          · omega
          · exact Or.inl same
          · exact Or.inr all
    · rcases @skipFrom_eq str ends few (2 ^ 32) 0 (Nat.zero_le _) (Nat.lt_of_le_of_lt (Nat.sub_le _ _) few) with
        ⟨index, skipped, isIndex⟩
      have isEnd := CString.text_end ends
      rw [← whole] at isEnd
      have called : toPrintable (some str) state = .ok (none, state) := by
        rw [toPrintable, skipped, ok_bind, isIndex, isEnd]
        exact if_pos rfl
      refine iff_of_true ⟨none, state, called, ?_⟩ ⟨few, Or.inl whole⟩
      refine ⟨fun _ c inside => ?_, fun _ _ => rfl, fun _ _ _ _ => rfl, fun _ wrong => (by cases wrong),
        fun _ wrong => (by cases wrong), fun _ wrong => (by cases wrong)⟩
      apply @plain_all (text str) c
      rwa [← take_plain, whole, List.take_length]
  · refine iff_of_false ?_ fun fits => Nat.not_lt.mpr many fits.1
    rintro ⟨slot, after, done, -⟩
    rw [toPrintable, skipFrom_long (k := 0) ends rfl (by omega) (by decide)] at done
    cases done

end

/-! ## Runs -/

theorem put_length {slot bytes after : List UInt8} {place : UInt32} (done : put slot place bytes = .ok after) :
    after.length = slot.length := by
  rw [put] at done
  split at done
  · rename_i room
    cases done
    rw [List.length_append, List.length_append, List.length_take, List.length_drop]
    omega
  · cases done

theorem printFrom_length {str : List UInt8} {turns : Nat} {index place place' : UInt32} {slot after : List UInt8}
    (done : printFrom str turns index place slot = .ok (place', after)) : after.length = slot.length := by
  induction turns generalizing index place slot with
  | zero => cases done
  | succ turns ih =>
      rw [printFrom] at done
      split at done
      · split at done
        · cases done
        · split at done
          · rcases bind_ok done with ⟨written, put, same⟩
            cases same
            exact put_length put
          · split at done
            · rcases bind_ok done with ⟨written, put, rest⟩
              exact (ih rest).trans (put_length put)
            · rcases bind_ok done with ⟨written, put, rest⟩
              exact (ih rest).trans (put_length put)
      · cases done
        rfl

/-- The slots that were returned are those in front of the next, in turn. -/
structure Turns (history : History (Option (List UInt8)) (Option Nat)) (state : Printables) : Prop where
  sized : ∀ slot, (state.slots slot).length = 1024
  turns : ∀ k slot, (history.filterMap Prod.snd)[k]? = some slot → (slot + k + 1) % 10 = state.next

/-- A call that returns a slot returns the next. -/
theorem toPrintable_next {str : Option (List UInt8)} {state after : Printables} {returned : Option Nat}
    (done : toPrintable str state = .ok (returned, after)) : (returned = none ∧ after = state) ∨
      ∃ slot, returned = some state.next ∧ slot.length = (state.slots state.next).length ∧
        after = ⟨(state.next + 1) % 10, Function.update state.slots state.next slot⟩ := by
  cases str with
  | none =>
      cases done
      exact Or.inl ⟨rfl, rfl⟩
  | some str =>
      rw [toPrintable] at done
      rcases bind_ok done with ⟨index, -, rest⟩
      split at rest
      · cases rest
      · split at rest
        · cases rest
          exact Or.inl ⟨rfl, rfl⟩
        · right
          rcases bind_ok rest with ⟨copied, put, rest⟩
          rcases bind_ok rest with ⟨⟨place, written⟩, printed, rest⟩
          have length := (printFrom_length printed).trans (put_length put)
          simp only at rest
          split at rest
          · cases rest
          · split at rest
            · cases rest
              exact ⟨written, rfl, length, rfl⟩
            · rcases bind_ok rest with ⟨ended, put', same⟩
              cases same
              exact ⟨ended, rfl, (put_length put').trans length, rfl⟩

theorem Turns.recent {history : History (Option (List UInt8)) (Option Nat)} {state : Printables}
    (turns : Turns history state) :
    ∀ entry ∈ history.take 9, entry.2 ≠ some state.next := by
  intro entry inside isNext
  have member : state.next ∈ (history.take 9).filterMap Prod.snd := List.mem_filterMap.mpr ⟨entry, inside, isNext⟩
  rcases List.getElem?_of_mem member with ⟨k, found⟩
  have early := (List.getElem?_eq_some_iff.mp found).1
  have few := (List.length_filterMap_le Prod.snd (history.take 9)).trans (List.length_take_le 9 history)
  rcases (List.take_prefix 9 history).filterMap Prod.snd with ⟨rest, split⟩
  have isTurn := turns.turns k state.next (by rw [← split, List.getElem?_append_left early]; exact found)
  omega

theorem Turns.step {history : History (Option (List UInt8)) (Option Nat)} {state next : Printables}
    {str : Option (List UInt8)}
    {answer : Option Nat} (turns : Turns history state) (stepped : printStep state str = some (answer, next)) :
    Turns ((str, answer) :: history) next := by
  rw [printStep] at stepped
  split at stepped
  · rename_i returned done
    cases stepped
    rcases toPrintable_next done with ⟨rfl, rfl⟩ | ⟨slot, rfl, length, rfl⟩
    · exact ⟨turns.sized, turns.turns⟩
    · refine ⟨fun other => ?_, fun k other found => ?_⟩
      · by_cases same : other = state.next
        · rw [same]
          simp only [Function.update_self]
          exact length.trans (turns.sized _)
        · simp only [Function.update_of_ne same]
          exact turns.sized other
      · change (state.next :: history.filterMap Prod.snd)[k]? = some other at found
        cases k with
        | zero =>
            cases found
            rfl
        | succ k =>
            have before := turns.turns k other found
            change (other + (k + 1) + 1) % 10 = (state.next + 1) % 10
            omega
  · cases stepped

/-- In every run, a call makes its string printable as it should, and leaves the
slots of the last nine calls alone, if and only if the string is one for which
the code does. -/
theorem str_to_printable_run {history : History (Option (List UInt8)) (Option Nat)} {state : Printables}
    (run : Run printStep Terminated blankPrintables history state) {str : List UInt8} (ends : 0 ∈ str) :
    (∃ slot after, toPrintable (some str) state = .ok (slot, after) ∧ Prints history state (text str) slot after) ↔
      Fits (state.slots state.next) (text str) := by
  have turns : Turns history state := by
    apply run.invariant Turns
    · exact ⟨fun _ => List.length_replicate, fun _ _ found => (by cases found)⟩
    · exact fun _ _ _ _ _ before _ stepped => before.step stepped
  exact toPrintable_iff ends (turns.sized _) turns.recent

/-- A string that is not printable, in a first call. -/
theorem str_to_printable_first : ∃ slot after, toPrintable (some [97, 1, 0]) blankPrintables = .ok (slot, after) ∧
    Prints [] blankPrintables [97, 1] slot after := by
  apply (@str_to_printable_run _ _ Run.start [97, 1, 0] (by decide)).mpr
  exact ⟨by decide, Or.inr (Or.inl (by decide))⟩

/-- Three hundred characters that are not printable are written behind the slot;
after 1021 printable ones, no dots are. -/
theorem str_to_printable_leaves : toPrintable (some (List.replicate 300 1 ++ [0])) blankPrintables = .error .undefined ∧
    ¬ ∃ slot after, toPrintable (some (List.replicate 1021 97 ++ [1, 0])) blankPrintables = .ok (slot, after) ∧
      Prints [] blankPrintables (List.replicate 1021 97 ++ [1]) slot after := by
  constructor
  · have isText : text (List.replicate 300 1 ++ [0]) = List.replicate 300 1 := by decide +kernel
    have isPlain : plain (text (List.replicate 300 1 ++ [0])) = 0 := by decide +kernel
    have ends : 0 ∈ (List.replicate 300 1 ++ [0] : List UInt8) := by decide +kernel
    have more : plain (text (List.replicate 300 1 ++ [0])) < (text (List.replicate 300 1 ++ [0])).length :=
      by decide +kernel
    rcases @toPrintable_eq _ blankPrintables ends (by rw [isPlain]; decide) more List.length_replicate with
      ⟨index, isIndex, called⟩
    rw [isPlain] at isIndex
    have overruns : 1024 < (printed ((text (List.replicate 300 1 ++ [0])).take 1020)).length := by decide +kernel
    have fails := (@printFrom_eq _ ends 1021 [] _ (copied (blankPrintables.slots blankPrintables.next)
      (text (List.replicate 300 1 ++ [0])))
      index index (List.nil_append _).symm isIndex (Nat.zero_le _) isIndex (by decide +kernel) rfl (by decide)).2
        (Or.inl overruns)
    rw [called, fails]
    rfl
  · have isText : text (List.replicate 1021 97 ++ [1, 0]) = List.replicate 1021 97 ++ [1] := by decide +kernel
    have isPlain : plain (List.replicate 1021 97 ++ [1]) = 1021 := by decide +kernel
    rw [← isText, @toPrintable_iff _ _ [] (by decide +kernel) List.length_replicate
      (fun _ none => absurd none List.not_mem_nil), isText]
    rintro ⟨-, either⟩
    rw [isPlain] at either
    rcases either with whole | ⟨early, -⟩ | ⟨early, -⟩ | same | ⟨-, -, nonzero | suffix⟩
    · exact absurd whole (by decide +kernel)
    · exact absurd early (by decide)
    · exact absurd early (by decide)
    · exact absurd same (by decide)
    · exact nonzero (by decide +kernel)
    · exact absurd suffix (by decide +kernel)

end SxeStr
end LibKit
