import LibKit.SxeStr.Model

namespace LibKit
namespace SxeStr

open CString (text)

/-!
# Searches stay within their bounds

A loop finds the first, or the last, of the positions that pass its test.  The
bounds of the loops are right, but for buffers of no byte: one from which one is
subtracted is then as large as can be, and one that is a last position is the
first, whose byte is read.
-/

/-! ## What is found -/

/-- A search finds the closest of some positions and reads bytes of the first
`n` only. -/
structure Finds (search : Search) (n : UInt32) (closer : Int → Int → Prop) (position : Int → Prop) : Prop where
  found : ∀ pos, search.found = some pos → position pos ∧ ∀ other, closer other pos → ¬ position other
  missing : search.found = none → ∀ pos, ¬ position pos
  within : ∀ pos ∈ search.reads, 0 ≤ pos ∧ pos < n.toNat

/-- A position of the first `n`. -/
def Inside (n : UInt32) (pos : Int) : Prop := 0 ≤ pos ∧ pos < n.toNat

/-- A position of the first `n` in front of any NUL. -/
def Ahead (buf : Buffer) (n : UInt32) (pos : Int) : Prop :=
  Inside n pos ∧ ∀ other, 0 ≤ other → other ≤ pos → buf other ≠ 0

/-- A string is at a position, all of it within the first `n`. -/
def Matches (n : UInt32) (same : UInt8 → UInt8 → Prop) (buf : Buffer) (string : List UInt8) (pos : Int) : Prop :=
  pos + string.length ≤ n.toNat ∧ ∀ (i : Nat) c, string[i]? = some c → same (buf (pos + i)) c

/-- The searches for a character, one of a set, and a string, forwards and
backwards. -/
structure Searches (buf : Buffer) (n : UInt32) (c : UInt8) (reject needle : List UInt8) : Prop where
  strnchr : Finds (strnchr buf c n) n (· < ·) (fun pos => Ahead buf n pos ∧ buf pos = c)
  strncspn : Finds (strncspn buf reject n) n (· < ·) (fun pos => Ahead buf n pos ∧ buf pos ∈ text reject)
  strncasestr : Finds (strncasestr buf needle n) n (· < ·) (fun pos => Ahead buf n pos ∧
    Matches n (fun first second => tolower first = tolower second) buf (text needle) pos)
  rstrnchr : Finds (rstrnchr buf c n) n (· > ·) (fun pos => Inside n pos ∧ buf pos = c)
  rstrnstr : Finds (rstrnstr buf needle n) n (· > ·) (fun pos => 0 ≤ pos ∧ Matches n (· = ·) buf (text needle) pos)

/-! ## Loops -/

section

variable {buf : Buffer} {test : Test} {n : UInt32}

/-- What is found behind some reads. -/
theorem Finds.after {search : Search} {closer : Int → Int → Prop} {position : Int → Prop} {reads : List Int}
    (finds : Finds search n closer position) (within : ∀ pos ∈ reads, 0 ≤ pos ∧ pos < n.toNat) :
    Finds (search.after reads) n closer position := by
  refine ⟨finds.found, finds.missing, fun pos inside => ?_⟩
  rcases List.mem_append.mp inside with early | late
  · exact within pos early
  · exact finds.within pos late

theorem Finds.congr {search : Search} {closer : Int → Int → Prop} {position other : Int → Prop}
    (finds : Finds search n closer position) (same : ∀ pos, position pos ↔ other pos) :
    Finds search n closer other := by
  have equal : position = other := funext fun pos => propext (same pos)
  exact equal ▸ finds

/-- A loop upwards, from a position in front of which nothing passes the test. -/
theorem scanUp_finds {bound pos : Int} (few : bound ≤ n.toNat) (late : 0 ≤ pos)
    (reads : ∀ pos, 0 ≤ pos → pos < bound → ∀ read ∈ (test pos).2, 0 ≤ read ∧ read < n.toNat)
    (nonzero : ∀ other, 0 ≤ other → other < pos → buf other ≠ 0)
    (failed : ∀ other, 0 ≤ other → other < pos → (test other).1 = false) :
    Finds (scanUp buf test bound pos) n (· < ·)
      (fun pos => (0 ≤ pos ∧ pos < bound ∧ ∀ other, 0 ≤ other → other ≤ pos → buf other ≠ 0) ∧
        (test pos).1 = true) := by
  induction pos using scanUp.induct buf test bound with
  | case1 pos early isZero =>
      rw [scanUp, if_pos early, if_pos isZero]
      refine ⟨fun _ none => (by cases none), fun _ other isPosition => ?_, fun read inside => ?_⟩
      · rcases Int.lt_or_le other pos with before | behind
        · exact Bool.false_ne_true ((failed other isPosition.1.1 before).symm.trans isPosition.2)
        · exact isPosition.1.2.2 pos late behind isZero
      · rw [List.mem_singleton.mp inside]
        exact ⟨late, Int.lt_of_lt_of_le early few⟩
  | case2 pos early isNonzero passed =>
      rw [scanUp, if_pos early, if_neg isNonzero, if_pos passed]
      refine ⟨fun found same => ?_, fun none => (by cases none), fun read inside => ?_⟩
      · cases same
        refine ⟨⟨⟨late, early, fun other high low => ?_⟩, passed⟩, fun other before isPosition => ?_⟩
        · rcases Int.lt_or_eq_of_le low with before | rfl
          · exact nonzero other high before
          · exact isNonzero
        · exact Bool.false_ne_true ((failed other isPosition.1.1 before).symm.trans isPosition.2)
      · rcases List.mem_cons.mp inside with rfl | later
        · exact ⟨late, Int.lt_of_lt_of_le early few⟩
        · exact reads pos late early read later
  | case3 pos early isNonzero failedHere ih =>
      rw [scanUp, if_pos early, if_neg isNonzero, if_neg failedHere]
      apply Finds.after
      · apply ih (Int.le_trans late (Int.le_of_lt (Int.lt_succ pos)))
        · intro other high low
          rcases Int.lt_or_eq_of_le (Int.lt_add_one_iff.mp low) with before | rfl
          · exact nonzero other high before
          · exact isNonzero
        · intro other high low
          rcases Int.lt_or_eq_of_le (Int.lt_add_one_iff.mp low) with before | rfl
          · exact failed other high before
          · exact Bool.eq_false_iff.mpr failedHere
      · intro read inside
        rcases List.mem_cons.mp inside with rfl | later
        · exact ⟨late, Int.lt_of_lt_of_le early few⟩
        · exact reads pos late early read later
  | case4 pos ended =>
      rw [scanUp, if_neg ended]
      refine ⟨fun _ none => (by cases none), fun _ other isPosition => ?_,
        fun _ inside => absurd inside List.not_mem_nil⟩
      have before : other < pos := Int.lt_of_lt_of_le isPosition.1.2.1 (Int.not_lt.mp ended)
      exact Bool.false_ne_true ((failed other isPosition.1.1 before).symm.trans isPosition.2)

theorem scanDown_finds {last pos : Int} (low : pos ≤ last)
    (reads : ∀ pos, 0 ≤ pos → pos ≤ last → ∀ read ∈ (test pos).2, 0 ≤ read ∧ read < n.toNat)
    (failed : ∀ other, pos < other → other ≤ last → (test other).1 = false) :
    Finds (scanDown test pos) n (· > ·) (fun pos => (0 ≤ pos ∧ pos ≤ last) ∧ (test pos).1 = true) := by
  induction pos using scanDown.induct test with
  | case1 pos late passed =>
      rw [scanDown, if_pos late, if_pos passed]
      refine ⟨fun found same => ?_, fun none => (by cases none), fun read inside => reads pos late low read inside⟩
      cases same
      refine ⟨⟨⟨late, low⟩, passed⟩, fun other behind isPosition => ?_⟩
      exact Bool.false_ne_true ((failed other behind isPosition.1.2).symm.trans isPosition.2)
  | case2 pos late failedHere ih =>
      rw [scanDown, if_pos late, if_neg failedHere]
      apply Finds.after
      · apply ih (Int.le_trans (Int.sub_le_self pos (by decide)) low)
        intro other behind early
        rcases Int.lt_or_eq_of_le (Int.sub_one_lt_iff.mp behind) with further | rfl
        · exact failed other further early
        · exact Bool.eq_false_iff.mpr failedHere
      · exact reads pos late low
  | case3 pos ended =>
      rw [scanDown, if_neg ended]
      refine ⟨fun _ none => (by cases none), fun _ other isPosition => ?_,
        fun _ inside => absurd inside List.not_mem_nil⟩
      have behind : pos < other := Int.lt_of_lt_of_le (Int.not_le.mp ended) isPosition.1.1
      exact Bool.false_ne_true ((failed other behind isPosition.1.2).symm.trans isPosition.2)

end

/-! ## Tests -/

section

variable {buf : Buffer} {n : UInt32} {pos : Int}

theorem isOneOf_iff {set : List UInt8} : (isOneOf buf pos set).1 = true ↔ buf pos ∈ set := by
  induction set with
  | nil => exact iff_of_false Bool.false_ne_true List.not_mem_nil
  | cons c set ih =>
      rw [isOneOf, List.mem_cons]
      by_cases same : buf pos = c
      · rw [if_pos same]
        exact iff_of_true rfl (Or.inl same)
      · rw [if_neg same, ih]
        exact ⟨Or.inr, fun either => either.resolve_left same⟩

theorem isOneOf_reads {set : List UInt8} : ∀ read ∈ (isOneOf buf pos set).2, read = pos := by
  induction set with
  | nil => exact fun _ inside => absurd inside List.not_mem_nil
  | cons c set ih =>
      intro read inside
      rw [isOneOf] at inside
      split at inside
      · exact List.mem_singleton.mp inside
      · rcases List.mem_cons.mp inside with same | later
        · exact same
        · exact ih read later

theorem mem_span {length : Nat} {read : Int} : read ∈ span pos length ↔ pos ≤ read ∧ read < pos + length := by
  rw [span, List.mem_map]
  constructor
  · rintro ⟨i, inside, rfl⟩
    have small := List.mem_range.mp inside
    omega
  · rintro ⟨late, early⟩
    exact ⟨(read - pos).toNat, List.mem_range.mpr (by omega), by omega⟩

theorem isText_iff {string : List UInt8} : (isText buf string pos).1 = true ↔ ∀ (i : Nat) c, string[i]? = some c →
    buf (pos + i) = c := by
  have length : ((span pos string.length).map buf).length = string.length := by
    rw [List.length_map, span, List.length_map, List.length_range]
  rw [isText, decide_eq_true_eq, List.ext_getElem?_iff]
  constructor
  · intro same i c isChar
    have here := same i
    rw [isChar, span, List.getElem?_map, List.getElem?_map,
      List.getElem?_range (List.getElem?_eq_some_iff.mp isChar).1] at here
    exact Option.some.inj here
  · intro same i
    rcases Nat.lt_or_ge i string.length with inside | outside
    · rw [span, List.getElem?_map, List.getElem?_map, List.getElem?_range inside, List.getElem?_eq_getElem inside]
      exact congrArg some (same i _ (List.getElem?_eq_getElem inside))
    · rw [List.getElem?_eq_none outside, List.getElem?_eq_none (length.le.trans outside)]

theorem isTextNocase_iff {string : List UInt8} : (isTextNocase buf pos string).1 = true ↔
    ∀ (i : Nat) c, string[i]? = some c → tolower (buf (pos + i)) = tolower c := by
  induction string generalizing pos with
  | nil => exact iff_of_true rfl fun _ _ none => (by cases none)
  | cons c string ih =>
      rw [isTextNocase]
      by_cases same : tolower (buf pos) = tolower c
      · rw [if_pos same, ih]
        constructor
        · intro all i other isChar
          cases i with
          | zero =>
              cases isChar
              rw [Int.natCast_zero, Int.add_zero]
              exact same
          | succ i =>
              have here := all i other isChar
              rwa [Int.add_assoc, Int.add_comm 1] at here
        · intro all i other isChar
          have here := all (i + 1) other isChar
          rwa [Int.natCast_succ, Int.add_comm (i : Int) 1, ← Int.add_assoc] at here
      · rw [if_neg same]
        refine iff_of_false Bool.false_ne_true fun all => same ?_
        have here := all 0 c rfl
        rwa [Int.natCast_zero, Int.add_zero] at here

theorem isTextNocase_reads {string : List UInt8} :
    ∀ read ∈ (isTextNocase buf pos string).2, pos ≤ read ∧ read < pos + string.length := by
  induction string generalizing pos with
  | nil => exact fun _ inside => absurd inside List.not_mem_nil
  | cons c string ih =>
      intro read inside
      rw [isTextNocase] at inside
      rw [List.length_cons, Int.natCast_succ]
      split at inside
      · rcases List.mem_cons.mp inside with rfl | later
        · omega
        · have bounds := ih read later
          omega
      · rw [List.mem_singleton.mp inside]
        omega

/-! ## Searches -/

theorem last_position (some : 0 < n) : ((n - 1).toNat : Int) = n.toNat - 1 := by
  have positive : 1 ≤ n.toNat := UInt32.lt_iff_toNat_lt.mp some
  rw [UInt32.toNat_sub_of_le n 1 (UInt32.le_iff_toNat_le.mpr positive)]
  exact Int.ofNat_sub positive

theorem strn_finds {test : Test} {bound : Int} {position : Int → Prop} (few : bound ≤ n.toNat)
    (reads : ∀ pos, 0 ≤ pos → pos < bound → ∀ read ∈ (test pos).2, 0 ≤ read ∧ read < n.toNat)
    (isPosition : ∀ pos, Inside n pos → (pos < bound ∧ (test pos).1 = true ↔ position pos)) :
    Finds (scanUp buf test bound 0) n (· < ·) (fun pos => Ahead buf n pos ∧ position pos) := by
  apply (scanUp_finds few (Int.le_refl 0) reads (fun _ high low => absurd low (Int.not_lt.mpr high))
    (fun _ high low => absurd low (Int.not_lt.mpr high))).congr
  intro pos
  constructor
  · rintro ⟨⟨late, early, nonzero⟩, passed⟩
    have inside : Inside n pos := ⟨late, Int.lt_of_lt_of_le early few⟩
    exact ⟨⟨inside, nonzero⟩, (isPosition pos inside).mp ⟨early, passed⟩⟩
  · rintro ⟨⟨inside, nonzero⟩, here⟩
    rcases (isPosition pos inside).mpr here with ⟨early, passed⟩
    exact ⟨⟨inside.1, early, nonzero⟩, passed⟩

theorem Finds.reads_inside {search : Search} {closer : Int → Int → Prop} {position : Int → Prop}
    (finds : Finds search n closer position) {read : Int} (inside : read ∈ search.reads) : 0 < n := by
  have bounds := finds.within read inside
  rw [UInt32.lt_iff_toNat_lt]
  change 0 < n.toNat
  omega

theorem scanUp_reads {test : Test} {bound : Int} (entered : 0 < bound) : 0 ∈ (scanUp buf test bound 0).reads := by
  rw [scanUp, if_pos entered]
  split
  · exact List.mem_singleton_self 0
  · split
    · exact List.mem_cons_self
    · exact List.mem_append_left _ List.mem_cons_self

variable (buf n) (c : UInt8) (reject needle : List UInt8)

theorem strnchr_finds : Finds (strnchr buf c n) n (· < ·) (fun pos => Ahead buf n pos ∧ buf pos = c) ↔ 0 < n := by
  constructor
  · intro finds
    exact finds.reads_inside (scanUp_reads (by omega))
  · intro some
    have last := last_position some
    apply strn_finds (by omega)
    · intro pos late early read inside
      rw [List.mem_singleton.mp inside]
      omega
    · intro pos inside
      rw [isChar, decide_eq_true_eq]
      have early : pos < ((n - 1).toNat : Int) + 1 := by
        have below := inside.2
        omega
      exact ⟨And.right, fun same => ⟨early, same⟩⟩

theorem strncspn_finds : Finds (strncspn buf reject n) n (· < ·) (fun pos => Ahead buf n pos ∧
    buf pos ∈ text reject) := by
  apply strn_finds (Int.le_refl _)
  · intro pos late early read inside
    rw [isOneOf_reads read inside]
    exact ⟨late, early⟩
  · intro pos inside
    rw [isOneOf_iff]
    exact ⟨And.right, fun member => ⟨inside.2, member⟩⟩

variable {buf n needle} in
theorem nocase_empty (some : 0 < n) (empty : text needle = []) :
    Finds (scanUp buf (fun pos => isTextNocase buf pos (text needle)) (n.toNat - (text needle).length + 1) 0) n (· < ·)
      (fun pos => Ahead buf n pos ∧
        Matches n (fun first second => tolower first = tolower second) buf (text needle) pos) := by
  have positive : 0 < n.toNat := UInt32.lt_iff_toNat_lt.mp some
  rw [empty, scanUp, List.length_nil, if_pos (by omega)]
  have within : ∀ read ∈ [(0 : Int)], 0 ≤ read ∧ read < n.toNat := by
    intro read inside
    rw [List.mem_singleton.mp inside]
    omega
  by_cases isZero : buf 0 = 0
  · rw [if_pos isZero]
    exact ⟨fun _ none => (by cases none), fun _ pos found => found.1.2 0 (Int.le_refl 0) found.1.1.1 isZero, within⟩
  · rw [if_neg isZero]
    refine ⟨fun pos found => ?_, fun none => (by cases none), within⟩
    cases found
    refine ⟨⟨⟨⟨Int.le_refl 0, by omega⟩, fun other late early => ?_⟩, ?_, fun i c none => (by cases none)⟩,
      fun other early found => ?_⟩
    · rwa [Int.le_antisymm early late]
    · rw [List.length_nil]
      omega
    · exact Int.not_lt.mpr found.1.1.1 early

theorem strncasestr_finds : Finds (strncasestr buf needle n) n (· < ·) (fun pos => Ahead buf n pos ∧
    Matches n (fun first second => tolower first = tolower second) buf (text needle) pos) ↔ 0 < n ∨
      text needle ≠ [] := by
  rw [strncasestr]
  split
  · rename_i short
    refine iff_of_true ⟨fun _ none => (by cases none), fun _ pos found => ?_,
      fun _ inside => absurd inside List.not_mem_nil⟩ ?_
    · have inside := found.2.1
      have late := found.1.1.1
      omega
    · right
      intro empty
      rw [empty] at short
      exact Nat.not_lt_zero _ short
  · rename_i long
    constructor
    · intro finds
      rcases List.eq_nil_or_concat (text needle) with empty | ⟨_, _, several⟩
      · left
        apply finds.reads_inside (scanUp_reads _)
        rw [empty, List.length_nil]
        omega
      · right
        rw [several, List.concat_eq_append]
        exact List.concat_ne_nil _ _
    · intro either
      by_cases empty : text needle = []
      · exact nocase_empty (either.resolve_right (not_not_intro empty)) empty
      · have several := List.length_pos_iff.mpr empty
        apply strn_finds (by omega)
        · intro pos late early read inside
          have bounds := isTextNocase_reads read inside
          omega
        · intro pos inside
          rw [isTextNocase_iff]
          exact ⟨fun both => ⟨by omega, both.2⟩, fun both => ⟨by have := both.1; omega, both.2⟩⟩

theorem rstrnchr_finds : Finds (rstrnchr buf c n) n (· > ·) (fun pos => Inside n pos ∧ buf pos = c) ↔ 0 < n := by
  constructor
  · intro finds
    have inside : ((n - 1).toNat : Int) ∈ (rstrnchr buf c n).reads := by
      rw [rstrnchr, scanDown, if_pos (Int.natCast_nonneg _)]
      split
      · exact List.mem_singleton_self _
      · exact List.mem_append_left _ (List.mem_singleton_self _)
    exact finds.reads_inside inside
  · intro some
    have last := last_position some
    apply (scanDown_finds (Int.le_refl _) ?_ fun _ behind early => absurd behind (Int.not_lt.mpr early)).congr
    · intro pos
      rw [isChar, decide_eq_true_eq, last, Int.le_sub_one_iff]
      exact Iff.rfl
    · intro pos late early read inside
      rw [List.mem_singleton.mp inside]
      omega

theorem rstrnstr_finds :
    Finds (rstrnstr buf needle n) n (· > ·) (fun pos => 0 ≤ pos ∧ Matches n (· = ·) buf (text needle) pos) := by
  apply (scanDown_finds (Int.le_refl _) ?_ fun _ behind early => absurd behind (Int.not_lt.mpr early)).congr
  · intro pos
    rw [isText_iff, and_assoc]
    exact and_congr_right fun _ => and_congr_left fun _ => by omega
  · intro pos late early read inside
    have bounds := mem_span.mp inside
    omega

end

/-! ## All of them -/

/-- The searches for sets and strings backwards stay within their bounds; those
for characters do if there is a byte, and those without regard to case if there
is one or the string is not empty. -/
theorem searches_within (buf : Buffer) (n : UInt32) (c : UInt8) (reject needle : List UInt8) :
    Searches buf n c reject needle ↔ 0 < n := by
  constructor
  · intro searches
    exact (strnchr_finds buf n c).mp searches.strnchr
  · intro some
    exact ⟨(strnchr_finds buf n c).mpr some, strncspn_finds buf n reject,
      (strncasestr_finds buf n needle).mpr (Or.inl some),
      (rstrnchr_finds buf n c).mpr some, rstrnstr_finds buf n needle⟩

/-- In no byte of a buffer, the first character is found in the first one, and
the last character in the last one of four gigabytes. -/
theorem strnchr_reads_behind : strnchr (fun _ => 98) 98 0 = ⟨some 0, [0, 0]⟩ ∧
    rstrnchr (fun _ => 98) 98 0 = ⟨some 4294967295, [4294967295]⟩ ∧ ¬ Searches (fun _ => 98) 0 98 [] [] := by
  refine ⟨?_, ?_, fun searches => absurd ((strnchr_finds _ _ _).mp searches.strnchr) (by decide)⟩
  · rw [strnchr, scanUp]
    rfl
  · rw [rstrnchr, scanDown]
    rfl

end SxeStr
end LibKit
