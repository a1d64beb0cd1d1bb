import LibKit.SxeCdb.Records
import LibKit.SxeCdb.Kvdata

namespace LibKit
namespace SxeCdb

/-!
# The sheets lead to the records

Each logged record is entered in exactly one cell, in one of the two rows of
its key and in the sheet that the index gives for its hash.  Splitting a sheet
keeps this, so a lookup finds a record of a key exactly when one is logged.
-/

/-- A cell of a row of a sheet can be found by a lookup of the key. -/
structure Leads (sum : List UInt8 → Fin 8 → UInt16) (sheetsIndex : Nat → Nat) (sheet row : Nat) (cell : Cell)
    (key : List UInt8) : Prop where
  hashLo : cell.hashLo = (prepare sum key).hash1
  hashHi : cell.hashHi = (prepare sum key).hash0
  sheet : sheetsIndex (prepare sum key).sheetIndex = sheet
  row : row = (prepare sum key).row1 ∨ row = (prepare sum key).row2

/-- The sheets lead to the logged records and to nothing else. -/
structure Indexed (sum : List UInt8 → Fin 8 → UInt16) (cdb : Instance) (entries : Nat → Option Entry) : Prop where
  indexes : ∀ si, si < sheetsMax → cdb.sheetsIndex si < cdb.sheetsSize
  cells : ∀ s r c, (cdb.sheets s r c).hkvPos ≠ 0 → c < keysPerRow ∧
    ∃ entry, entries (cdb.sheets s r c).hkvPos = some entry ∧
      Leads sum cdb.sheetsIndex s r (cdb.sheets s r c) entry.key
  entered : ∀ pos entry, entries pos = some entry → ∃ s r c, (cdb.sheets s r c).hkvPos = pos
  unique : ∀ s r c s' r' c', (cdb.sheets s r c).hkvPos ≠ 0 →
    (cdb.sheets s r c).hkvPos = (cdb.sheets s' r' c').hkvPos → s = s' ∧ r = r' ∧ c = c'

theorem sheetIndex_lt (prepared : Prepared) : prepared.sheetIndex < sheetsMax :=
  Nat.mod_lt _ (by decide)

theorem Leads.row_lt {sum : List UInt8 → Fin 8 → UInt16} {sheetsIndex : Nat → Nat} {sheet row : Nat}
    {cell : Cell} {key : List UInt8} (leads : Leads sum sheetsIndex sheet row cell key) :
    row < rowsPerSheet := by
  rcases leads.row with first | second
  · rw [first]
    exact Nat.mod_lt _ (by decide)
  · rw [second]
    exact Nat.mod_lt _ (by decide)

/-! ## Splitting -/

/-- The toggling loop hands the indexes of one sheet to two and changes no other. -/
theorem splitIndex_cases (thisSheet thatSheet count start : Nat) (toggle : Bool) (sheetsIndex : Nat → Nat)
    (si : Nat) :
    splitIndex thisSheet thatSheet count start toggle sheetsIndex si = sheetsIndex si ∨
      (sheetsIndex si = thisSheet ∧
        splitIndex thisSheet thatSheet count start toggle sheetsIndex si = thatSheet) := by
  induction count generalizing start toggle sheetsIndex with
  | zero => exact Or.inl rfl
  | succ count ih =>
      simp only [splitIndex]
      split
      · rename_i full
        have later := ih (start + 1) (!toggle)
          (Function.update sheetsIndex start (if toggle then thatSheet else thisSheet))
        by_cases here : si = start
        · subst here
          rw [Function.update_self] at later
          rcases later with same | ⟨_, that⟩
          · cases toggle with
            | false => exact Or.inl (same.trans full.symm)
            | true => exact Or.inr ⟨full, same⟩
          · exact Or.inr ⟨full, that⟩
        · rwa [Function.update_of_ne here] at later
      · exact ih (start + 1) toggle sheetsIndex

theorem splitSheetIndex_cases (cdb : Instance) (sheet si : Nat) :
    splitSheetIndex cdb sheet si = cdb.sheetsIndex si ∨
      (cdb.sheetsIndex si = sheet ∧ splitSheetIndex cdb sheet si = cdb.sheetsSize) :=
  splitIndex_cases sheet cdb.sheetsSize sheetsMax 0 false cdb.sheetsIndex si

theorem splitCell_congr {thisSheet thatSheet : Nat} {index : Nat → Nat} {sheets other : Nat → Nat → Nat → Cell}
    {r c : Nat} (same : ∀ s, other s r c = sheets s r c) (s : Nat) :
    splitCell thisSheet thatSheet index other (r, c) s r c =
      splitCell thisSheet thatSheet index sheets (r, c) s r c := by
  simp only [splitCell, same thisSheet]
  split
  · simp only [setCell, same]
  · exact same s

theorem splitCell_elsewhere {thisSheet thatSheet : Nat} {index : Nat → Nat} {sheets : Nat → Nat → Nat → Cell}
    {place : Nat × Nat} {r c : Nat} (other : (r, c) ≠ place) (s : Nat) :
    splitCell thisSheet thatSheet index sheets place s r c = sheets s r c := by
  have apart : ¬ (r = place.1 ∧ c = place.2) := by
    rintro ⟨row, cell⟩
    exact other (Prod.ext row cell)
  simp only [splitCell]
  split
  · simp only [setCell]
    rw [if_neg (by tauto), if_neg (by tauto)]
  · rfl

theorem splitCell_foldl (thisSheet thatSheet : Nat) (index : Nat → Nat) (places : List (Nat × Nat))
    (nodup : places.Nodup) (sheets : Nat → Nat → Nat → Cell) (s r c : Nat) :
    places.foldl (splitCell thisSheet thatSheet index) sheets s r c =
      if (r, c) ∈ places then splitCell thisSheet thatSheet index sheets (r, c) s r c else sheets s r c := by
  induction places generalizing sheets with
  | nil => simp
  | cons place places ih =>
      rcases List.nodup_cons.mp nodup with ⟨fresh, rest⟩
      rw [List.foldl_cons, ih rest]
      by_cases here : (r, c) = place
      · subst here
        rw [if_neg fresh, if_pos List.mem_cons_self]
      · have same := fun sheet => @splitCell_elsewhere thisSheet thatSheet index sheets place r c here sheet
        have member : (r, c) ∈ place :: places ↔ (r, c) ∈ places := by
          rw [List.mem_cons]
          exact or_iff_right here
        simp only [member]
        split
        · exact splitCell_congr same s
        · exact same s

theorem splitPlaces_nodup : splitPlaces.Nodup :=
  List.nodup_range.product List.nodup_range

theorem mem_splitPlaces {r c : Nat} : (r, c) ∈ splitPlaces ↔ r < rowsPerSheet ∧ c < keysPerRow := by
  simp [splitPlaces]

theorem splitMapped_cell (cdb : Instance) {sheet : Nat} (old : sheet ≠ cdb.sheetsSize) (s : Nat) {r c : Nat}
    (row : r < rowsPerSheet) (cell : c < keysPerRow) :
    (splitMapped cdb sheet).sheets s r c =
      if (cdb.sheets sheet r c).hkvPos ≠ 0 ∧
          splitSheetIndex cdb sheet ((cdb.sheets sheet r c).hashHi.toNat % sheetsMax) = cdb.sheetsSize then
        if s = cdb.sheetsSize then cdb.sheets sheet r c
        else if s = sheet then { cdb.sheets sheet r c with hkvPos := 0 } else cdb.sheets s r c
      else cdb.sheets s r c := by
  rw [splitMapped_eq]
  simp only
  rw [splitCell_foldl _ _ _ _ splitPlaces_nodup, if_pos (mem_splitPlaces.mpr ⟨row, cell⟩)]
  simp only [splitCell]
  split
  · simp only [setCell, and_self, and_true]
    by_cases this : s = sheet
    · simp only [this, if_true, if_neg old]
    · simp only [this, if_false]
  · rfl

theorem splitMapped_outside (cdb : Instance) (sheet s : Nat) {r c : Nat}
    (outside : ¬ (r < rowsPerSheet ∧ c < keysPerRow)) :
    (splitMapped cdb sheet).sheets s r c = cdb.sheets s r c := by
  rw [splitMapped_eq]
  simp only
  rw [splitCell_foldl _ _ _ _ splitPlaces_nodup, if_neg (fun member => outside (mem_splitPlaces.mp member))]

/-- The indexes lead to sheets, and each used cell is in the sheet that its hash leads to. -/
structure Housed (cdb : Instance) : Prop where
  indexes : ∀ si, si < sheetsMax → cdb.sheetsIndex si < cdb.sheetsSize
  bounds : ∀ {s r c}, (cdb.sheets s r c).hkvPos ≠ 0 → r < rowsPerSheet ∧ c < keysPerRow
  sheet : ∀ {s r c}, (cdb.sheets s r c).hkvPos ≠ 0 →
    cdb.sheetsIndex ((cdb.sheets s r c).hashHi.toNat % sheetsMax) = s

/-- No cell of the sheet to come is in use. -/
theorem Housed.new_sheet {cdb : Instance} (housed : Housed cdb) (r c : Nat) :
    (cdb.sheets cdb.sheetsSize r c).hkvPos = 0 := by
  by_contra used
  have bound := housed.indexes _ (Nat.mod_lt (cdb.sheets cdb.sheetsSize r c).hashHi.toNat (by decide : 0 < sheetsMax))
  rw [housed.sheet used] at bound
  exact Nat.lt_irrefl _ bound

/-- A used cell after a split is one of before: at its place, when its index
does not lead to the new sheet, or moved there from the sheet that was split. -/
theorem splitMapped_used {cdb : Instance} (housed : Housed cdb) {sheet : Nat} (old : sheet ≠ cdb.sheetsSize)
    {s r c : Nat} (used : ((splitMapped cdb sheet).sheets s r c).hkvPos ≠ 0) :
    (splitMapped cdb sheet).sheets s r c = cdb.sheets s r c ∧ s ≠ cdb.sheetsSize ∧
        (s = sheet → splitSheetIndex cdb sheet ((cdb.sheets s r c).hashHi.toNat % sheetsMax) ≠ cdb.sheetsSize) ∨
      (splitMapped cdb sheet).sheets s r c = cdb.sheets sheet r c ∧ s = cdb.sheetsSize ∧
        splitSheetIndex cdb sheet ((cdb.sheets sheet r c).hashHi.toNat % sheetsMax) = cdb.sheetsSize := by
  have inside : r < rowsPerSheet ∧ c < keysPerRow := by
    by_contra outside
    rw [splitMapped_outside cdb sheet s outside] at used
    exact outside (housed.bounds used)
  rw [splitMapped_cell cdb old s inside.1 inside.2] at used ⊢
  split
  · rename_i moves
    rw [if_pos moves] at used
    split
    · rename_i that
      exact Or.inr ⟨rfl, that, moves.2⟩
    · rename_i notThat
      rw [if_neg notThat] at used
      split
      · rename_i this
        rw [if_pos this] at used
        exact absurd rfl used
      · rename_i notThis
        exact Or.inl ⟨rfl, notThat, fun this => absurd this notThis⟩
  · rename_i stays
    rw [if_neg stays] at used
    refine Or.inl ⟨rfl, ?_, ?_⟩
    · intro that
      rw [that] at used
      exact used (housed.new_sheet r c)
    · intro this leads
      subst this
      exact stays ⟨used, leads⟩

/-- A split keeps the used cells in the sheets that their hashes lead to. -/
theorem Housed.splitMapped {cdb : Instance} (housed : Housed cdb) {sheet : Nat} (bound : sheet < cdb.sheetsSize) :
    Housed (splitMapped cdb sheet) := by
  have old : sheet ≠ cdb.sheetsSize := Nat.ne_of_lt bound
  have newIndex : (SxeCdb.splitMapped cdb sheet).sheetsIndex = splitSheetIndex cdb sheet := by
    rw [splitMapped_eq]
  have newSize : (SxeCdb.splitMapped cdb sheet).sheetsSize = cdb.sheetsSize + 1 := by
    rw [splitMapped_eq]
  have index := splitSheetIndex_cases cdb sheet
  refine ⟨?_, ?_, ?_⟩
  · intro si inside
    rw [newIndex, newSize]
    have before := housed.indexes si inside
    rcases index si with same | ⟨_, that⟩
    · exact Nat.lt_succ_of_lt (same.symm ▸ before)
    · exact Nat.lt_succ_of_le (Nat.le_of_eq that)
  · intro s r c used
    rcases splitMapped_used housed old used with ⟨same, _, _⟩ | ⟨same, _, _⟩
    · rw [same] at used
      exact housed.bounds used
    · rw [same] at used
      exact housed.bounds used
  · intro s r c used
    rw [newIndex]
    rcases splitMapped_used housed old used with ⟨same, _, stays⟩ | ⟨same, that, moves⟩
    · rw [same] at used ⊢
      rcases index ((cdb.sheets s r c).hashHi.toNat % sheetsMax) with kept | ⟨wasThis, nowThat⟩
      · exact kept.trans (housed.sheet used)
      · exact absurd nowThat (stays ((housed.sheet used).symm.trans wasThis))
    · rw [same]
      exact moves.trans that.symm

section

variable {sum : List UInt8 → Fin 8 → UInt16} {cdb : Instance} {entries : Nat → Option Entry}

theorem Leads.index {index : Nat → Nat} {sheet row : Nat} {cell : Cell} {key : List UInt8}
    (leads : Leads sum index sheet row cell key) :
    cell.hashHi.toNat % sheetsMax = (prepare sum key).sheetIndex := by
  rw [leads.hashHi]
  rfl

theorem Indexed.housed (indexed : Indexed sum cdb entries) : Housed cdb := by
  refine ⟨indexed.indexes, ?_, ?_⟩
  · intro s r c used
    rcases indexed.cells _ _ _ used with ⟨bound, entry, _, leads⟩
    exact ⟨leads.row_lt, bound⟩
  · intro s r c used
    rcases (indexed.cells s r c used).2 with ⟨entry, _, leads⟩
    rw [leads.index, leads.sheet]

/-- Splitting a sheet hides, duplicates and mixes up nothing. -/
theorem splitMapped_indexed (indexed : Indexed sum cdb entries) {sheet : Nat} (bound : sheet < cdb.sheetsSize) :
    Indexed sum (splitMapped cdb sheet) entries := by
  have old : sheet ≠ cdb.sheetsSize := Nat.ne_of_lt bound
  have newIndex : (splitMapped cdb sheet).sheetsIndex = splitSheetIndex cdb sheet := by
    rw [splitMapped_eq]
  have index := splitSheetIndex_cases cdb sheet
  have housed := indexed.housed
  refine ⟨(housed.splitMapped bound).indexes, ?_, ?_, ?_⟩
  · intro s r c used
    rw [newIndex]
    rcases splitMapped_used housed old used with ⟨same, _, stays⟩ | ⟨same, that, moves⟩
    · rw [same] at used ⊢
      rcases indexed.cells s r c used with ⟨inside, entry, logged, leads⟩
      refine ⟨inside, entry, logged, leads.hashLo, leads.hashHi, ?_, leads.row⟩
      rcases index (prepare sum entry.key).sheetIndex with kept | ⟨wasThis, nowThat⟩
      · exact kept.trans leads.sheet
      · exact absurd (leads.index ▸ nowThat) (stays (leads.sheet.symm.trans wasThis))
    · rw [same] at used ⊢
      rcases indexed.cells sheet r c used with ⟨inside, entry, logged, leads⟩
      exact ⟨inside, entry, logged, leads.hashLo, leads.hashHi, that ▸ leads.index ▸ moves, leads.row⟩
  · intro pos entry logged
    rcases indexed.entered pos entry logged with ⟨s, r, c, here⟩
    by_cases empty : pos = 0
    · subst empty
      refine ⟨cdb.sheetsSize + 1, rowsPerSheet, 0, ?_⟩
      rw [splitMapped_outside cdb sheet _ (by omega)]
      by_contra used
      exact absurd (housed.bounds used).1 (Nat.lt_irrefl _)
    · have used : (cdb.sheets s r c).hkvPos ≠ 0 := here ▸ empty
      have inside := housed.bounds used
      by_cases moves : (cdb.sheets sheet r c).hkvPos ≠ 0 ∧
          splitSheetIndex cdb sheet ((cdb.sheets sheet r c).hashHi.toNat % sheetsMax) = cdb.sheetsSize
      · by_cases this : s = sheet
        · refine ⟨cdb.sheetsSize, r, c, ?_⟩
          rw [splitMapped_cell cdb old _ inside.1 inside.2, if_pos moves, if_pos rfl, ← this]
          exact here
        · have notThat : s ≠ cdb.sheetsSize := by
            intro that
            rw [that] at used
            exact used (housed.new_sheet r c)
          refine ⟨s, r, c, ?_⟩
          rw [splitMapped_cell cdb old _ inside.1 inside.2, if_pos moves, if_neg notThat, if_neg this]
          exact here
      · refine ⟨s, r, c, ?_⟩
        rw [splitMapped_cell cdb old _ inside.1 inside.2, if_neg moves]
        exact here
  · intro s r c s' r' c' used same
    have used' : ((splitMapped cdb sheet).sheets s' r' c').hkvPos ≠ 0 := same ▸ used
    rcases splitMapped_used housed old used with ⟨first, _, stays⟩ | ⟨first, that, moves⟩
    · rcases splitMapped_used housed old used' with ⟨second, _, _⟩ | ⟨second, _, moves'⟩
      · rw [first] at used same
        rw [second] at same
        exact indexed.unique _ _ _ _ _ _ used same
      · rw [first] at used same
        rw [second] at same
        rcases indexed.unique _ _ _ _ _ _ used same with ⟨this, row, cell⟩
        subst this row cell
        exact absurd moves' (stays rfl)
    · rcases splitMapped_used housed old used' with ⟨second, _, stays'⟩ | ⟨second, that', _⟩
      · rw [first] at used same
        rw [second] at same
        rcases indexed.unique _ _ _ _ _ _ used same with ⟨this, row, cell⟩
        subst this row cell
        exact absurd moves (stays' rfl)
      · rw [first] at used same
        rw [second] at same
        rcases indexed.unique _ _ _ _ _ _ used same with ⟨_, row, cell⟩
        exact ⟨that.trans that'.symm, row, cell⟩

/-! ## Looking up -/

theorem mem_lookup {sheet : Nat} {prepared : Prepared} {cell : Cell} :
    cell ∈ (List.range keysPerRow).flatMap (fun c =>
        [cdb.sheets sheet prepared.row1 c, cdb.sheets sheet prepared.row2 c]) ↔
      ∃ c, c < keysPerRow ∧ ∃ row, (row = prepared.row1 ∨ row = prepared.row2) ∧ cell = cdb.sheets sheet row c := by
  simp only [List.mem_flatMap, List.mem_range, List.mem_cons, List.not_mem_nil, or_false]
  constructor
  · rintro ⟨c, bound, first | second⟩
    · exact ⟨c, bound, _, Or.inl rfl, first⟩
    · exact ⟨c, bound, _, Or.inr rfl, second⟩
  · rintro ⟨c, bound, row, rfl | rfl, here⟩
    · exact ⟨c, bound, Or.inl here⟩
    · exact ⟨c, bound, Or.inr here⟩

theorem getHkvRaw_some {log : Log} {used pos : Nat} {key : List UInt8}
    (stored : Stored cdb.kvdata used log) (indexed : Indexed sum cdb log.entries)
    (found : getHkvRaw cdb (prepare sum key) = some pos) :
    ∃ entry, log.entries pos = some entry ∧ entry.key = key := by
  rcases Option.map_eq_some_iff.mp found with ⟨cell, first, here⟩
  rcases mem_lookup.mp (List.mem_of_find?_eq_some first) with ⟨c, _, row, _, place⟩
  have equal := List.find?_some first
  simp only [matchesCell, decide_eq_true_eq] at equal
  rcases equal with ⟨_, _, used, length, bytes⟩
  rw [place] at used
  rcases (indexed.cells _ _ _ used).2 with ⟨entry, logged, _⟩
  rw [← place, here] at logged
  refine ⟨entry, logged, ?_⟩
  rcases stored.unpack logged with ⟨header, _, whole⟩
  have sameLength : (prepare sum key).key.length = entry.key.length := by
    rw [length, here, whole]
  have read := stored.key logged
  rw [← sameLength, ← here] at read
  exact read.symm.trans bytes

theorem getHkvRaw_none {log : Log} {used : Nat} {key : List UInt8}
    (stored : Stored cdb.kvdata used log) (indexed : Indexed sum cdb log.entries)
    (missing : getHkvRaw cdb (prepare sum key) = none) {pos : Nat} {entry : Entry}
    (logged : log.entries pos = some entry) : entry.key ≠ key := by
  intro same
  subst same
  rcases indexed.entered pos entry logged with ⟨s, r, c, here⟩
  have positive := stored.positive logged
  have nonzero : (cdb.sheets s r c).hkvPos ≠ 0 := by omega
  rcases indexed.cells s r c nonzero with ⟨bound, again, loggedAgain, leads⟩
  have equal : again = entry := by
    rw [here, logged] at loggedAgain
    exact (Option.some.inj loggedAgain).symm
  subst equal
  have nothing := List.find?_eq_none.mp (Option.map_eq_none_iff.mp missing)
  apply nothing (cdb.sheets s r c)
  · rw [mem_lookup]
    exact ⟨c, bound, r, leads.row, by rw [leads.sheet]⟩
  · rcases stored.unpack logged with ⟨header, _, whole⟩
    have read := stored.key logged
    simp only [matchesCell, decide_eq_true_eq]
    refine ⟨leads.hashLo.symm, leads.hashHi.symm, nonzero, ?_, ?_⟩
    · rw [here, whole]
      rfl
    · rw [here]
      exact read

theorem getHkvRaw_isSome_iff {log : Log} {used : Nat} {key : List UInt8}
    (stored : Stored cdb.kvdata used log) (indexed : Indexed sum cdb log.entries) :
    (getHkvRaw cdb (prepare sum key)).isSome ↔ ∃ pos entry, log.entries pos = some entry ∧ entry.key = key := by
  constructor
  · intro some
    rcases Option.isSome_iff_exists.mp some with ⟨pos, found⟩
    rcases getHkvRaw_some stored indexed found with ⟨entry, logged, same⟩
    exact ⟨pos, entry, logged, same⟩
  · rintro ⟨pos, entry, logged, same⟩
    by_contra missing
    exact getHkvRaw_none stored indexed (by simpa using missing) logged same

/-! ## Entering a record -/

theorem scanRow_spec (row : Nat → Cell) (count : Nat) (bound : count ≤ keysPerRow) :
    ((scanRow row count).1 = count ∧ (scanRow row count).2 = keysPerRow) ∨
      ((scanRow row count).1 < count ∧ (scanRow row count).2 < count ∧
        (row (scanRow row count).2).hkvPos = 0) := by
  induction count with
  | zero => exact Or.inl ⟨rfl, rfl⟩
  | succ count ih =>
      simp only [scanRow]
      rcases ih (Nat.le_of_succ_le bound) with ⟨all, noCell⟩ | ⟨less, inside, free⟩
      · split
        · exact Or.inl ⟨by simp only [all], noCell⟩
        · rename_i empty
          refine Or.inr ⟨by simp only [all]; omega, ?_, ?_⟩
          · exact Nat.lt_succ_self count
          · simpa only [noCell, if_true] using not_not.mp empty
      · have found : (scanRow row count).2 ≠ keysPerRow := by omega
        split
        · exact Or.inr ⟨by dsimp only; omega, by dsimp only; omega, free⟩
        · refine Or.inr ⟨by dsimp only; omega, ?_, ?_⟩
          · exact Nat.lt_succ_of_lt inside
          · simpa only [found, if_false] using free

/-- The place that a search found is free and can be found by a lookup. -/
structure Free (cdb : Instance) (prepared : Prepared) (place : Place) : Prop where
  sheet : cdb.sheetsIndex prepared.sheetIndex = place.sheet
  row : place.row = prepared.row1 ∨ place.row = prepared.row2
  cell : place.cell < keysPerRow
  empty : (cdb.sheets place.sheet place.row place.cell).hkvPos = 0

theorem freeCell_free {prepared : Prepared} {place : Place} (found : freeCell cdb prepared = some place) :
    Free cdb prepared place := by
  have first := scanRow_spec (cdb.sheets (cdb.sheetsIndex prepared.sheetIndex) prepared.row1) keysPerRow
    (Nat.le_refl _)
  have second := scanRow_spec (cdb.sheets (cdb.sheetsIndex prepared.sheetIndex) prepared.row2) keysPerRow
    (Nat.le_refl _)
  simp only [freeCell] at found
  split at found
  · cases found
  · rename_i notFull
    split at found
    · cases found
      refine ⟨rfl, Or.inl rfl, ?_, ?_⟩ <;> dsimp only <;> omega
    · cases found
      refine ⟨rfl, Or.inr rfl, ?_, ?_⟩ <;> dsimp only <;> omega

theorem Retries.indexed {key : List UInt8} {result : Option (Option Place × Instance)}
    (retries : Retries (prepare sum key) cdb result) (indexed : Indexed sum cdb entries) {place : Option Place}
      {after : Instance}
    (isResult : result = some (place, after)) :
    Indexed sum after entries ∧ ∀ found, place = some found → Free after (prepare sum key) found := by
  induction retries with
  | found isFree =>
      cases isResult
      refine ⟨indexed, ?_⟩
      intro other same
      cases same
      exact freeCell_free isFree
  | most full maximum =>
      cases isResult
      exact ⟨indexed, by intro place impossible; cases impossible⟩
  | fails => cases isResult
  | split full room mapped later ih =>
      refine ih ?_ isResult
      rw [(splitSheet_some mapped).2]
      exact splitMapped_indexed indexed (indexed.indexes _ (sheetIndex_lt _))

def Log.enter (log : Log) (pos : Nat) (entry : Entry) (links : Links) : Log where
  entries := Function.update log.entries pos (some entry)
  links := Function.update log.links pos links

/-- A record written at the end of the used bytes extends the log. -/
theorem write_stored {log : Log} {kvdata : Nat → UInt8} {used header : Nat} (stored : Stored kvdata used log)
    (positive : 1 ≤ used) {entry : Entry} {links : Links} (small : links.Small)
    (found : entry.header = some header) :
    Stored (Bytes.write kvdata used (record header entry.key (entry.val links)))
      (used + entry.length) (log.enter used entry links) := by
  have before : ∀ {pos second}, pos ≠ used → (log.enter used entry links).entries pos = some second →
      log.entries pos = some second := by
    intro pos second other logged
    simpa [Log.enter, Function.update_of_ne other] using logged
  have now : ∀ {second}, (log.enter used entry links).entries used = some second → second = entry := by
    intro second logged
    simpa [Log.enter, eq_comm] using logged
  refine ⟨?_, ?_, ?_, ?_, ?_, ?_⟩
  · intro pos second logged
    by_cases here : pos = used
    · subst here
      exact ⟨header, now logged ▸ found⟩
    · exact stored.admitted (before here logged)
  · intro pos second otherHeader logged otherFound
    by_cases here : pos = used
    · subst here
      have same := now logged
      subst same
      have sameHeader : otherHeader = header := Option.some.inj (otherFound.symm.trans found)
      subst sameHeader
      simp only [Log.enter, Function.update_self]
      exact Bytes.holds_write _ _ _
    · have old := before here logged
      simp only [Log.enter, Function.update_of_ne here]
      apply Bytes.holds_write_of_disjoint (stored.holds old otherFound)
      rw [Stored.record_length_eq otherFound]
      exact Or.inl (stored.within old)
  · intro pos second logged
    by_cases here : pos = used
    · exact here ▸ positive
    · exact stored.positive (before here logged)
  · intro pos second logged
    by_cases here : pos = used
    · subst here
      exact Nat.le_of_eq (by rw [now logged])
    · exact Nat.le_trans (stored.within (before here logged)) (Nat.le_add_right _ _)
  · intro pos second other third logged otherLogged less
    by_cases here : pos = used
    · subst here
      have within := stored.within (before (Nat.ne_of_gt less) otherLogged)
      omega
    · by_cases there : other = used
      · subst there
        exact stored.within (before here logged)
      · exact stored.apart (before here logged) (before there otherLogged) less
  · intro pos
    by_cases here : pos = used
    · subst here
      simpa [Log.enter] using small
    · simpa [Log.enter, Function.update_of_ne here] using stored.small pos

/-- Entering a new record in a free cell. -/
theorem setCell_indexed (indexed : Indexed sum cdb entries) {key : List UInt8} {place : Place}
    (free : Free cdb (prepare sum key) place) {pos : Nat} (positive : 1 ≤ pos) (fresh : entries pos = none)
    {entry : Entry} (same : entry.key = key) {after : Instance} (size : after.sheetsSize = cdb.sheetsSize)
    (index : after.sheetsIndex = cdb.sheetsIndex)
    (sheets : after.sheets = setCell cdb.sheets place.sheet place.row place.cell
      ⟨(prepare sum key).hash1, (prepare sum key).hash0, pos⟩) :
    Indexed sum after (Function.update entries pos (some entry)) := by
  have unused : ∀ s r c, (cdb.sheets s r c).hkvPos ≠ pos := by
    intro s r c here
    rcases (indexed.cells s r c (by omega)).2 with ⟨old, logged, _⟩
    rw [here, fresh] at logged
    cases logged
  have cases' : ∀ s r c, (s = place.sheet ∧ r = place.row ∧ c = place.cell ∧
        after.sheets s r c = ⟨(prepare sum key).hash1, (prepare sum key).hash0, pos⟩) ∨
      (¬ (s = place.sheet ∧ r = place.row ∧ c = place.cell) ∧ after.sheets s r c = cdb.sheets s r c) := by
    intro s r c
    rw [sheets]
    unfold setCell
    by_cases here : s = place.sheet ∧ r = place.row ∧ c = place.cell
    · exact Or.inl ⟨here.1, here.2.1, here.2.2, if_pos here⟩
    · exact Or.inr ⟨here, if_neg here⟩
  refine ⟨?_, ?_, ?_, ?_⟩
  · rw [index, size]
    exact indexed.indexes
  · intro s r c used
    rw [index]
    rcases cases' s r c with ⟨rfl, rfl, rfl, new⟩ | ⟨_, old⟩
    · rw [new]
      refine ⟨free.cell, entry, by simp, ?_⟩
      rw [same]
      exact ⟨rfl, rfl, free.sheet, free.row⟩
    · rw [old] at used ⊢
      rcases indexed.cells s r c used with ⟨bound, second, logged, leads⟩
      exact ⟨bound, second, by rw [Function.update_of_ne (unused s r c)]; exact logged, leads⟩
  · intro other second logged
    by_cases here : other = pos
    · refine ⟨place.sheet, place.row, place.cell, ?_⟩
      rcases cases' place.sheet place.row place.cell with ⟨_, _, _, new⟩ | ⟨not, _⟩
      · rw [new, here]
      · exact absurd ⟨rfl, rfl, rfl⟩ not
    · rw [Function.update_of_ne here] at logged
      rcases indexed.entered other second logged with ⟨s, r, c, found⟩
      rcases cases' s r c with ⟨rfl, rfl, rfl, _⟩ | ⟨_, old⟩
      · have zero : other = 0 := found.symm.trans free.empty
        refine ⟨place.sheet, rowsPerSheet, 0, ?_⟩
        rcases cases' place.sheet rowsPerSheet 0 with ⟨_, row, _, _⟩ | ⟨_, old⟩
        · have bound : place.row < rowsPerSheet := by
            rcases free.row with first | first <;> rw [first] <;> exact Nat.mod_lt _ (by decide)
          omega
        · rw [old, zero]
          by_contra used
          exact absurd (indexed.housed.bounds used).1 (Nat.lt_irrefl _)
      · exact ⟨s, r, c, by rw [old]; exact found⟩
  · intro s r c s' r' c' used equal
    rcases cases' s r c with ⟨rfl, rfl, rfl, new⟩ | ⟨_, old⟩
    · rcases cases' s' r' c' with ⟨rfl, rfl, rfl, _⟩ | ⟨_, old'⟩
      · exact ⟨rfl, rfl, rfl⟩
      · rw [new, old'] at equal
        exact absurd equal.symm (unused s' r' c')
    · rcases cases' s' r' c' with ⟨rfl, rfl, rfl, new'⟩ | ⟨_, old'⟩
      · rw [old, new'] at equal
        exact absurd equal (unused s r c)
      · rw [old] at used equal
        rw [old'] at equal
        exact indexed.unique _ _ _ _ _ _ used equal

structure SameCounts (before after : Instance) : Prop where
  counts : after.counts = before.counts
  countsPages : after.countsPages = before.countsPages
  countsSize : after.countsSize = before.countsSize
  countsNextFree : after.countsNextFree = before.countsNextFree
  countsFree : after.countsFree = before.countsFree
  countsHi : after.countsHi = before.countsHi
  countsLo : after.countsLo = before.countsLo

theorem putVal_counts {prepared : Prepared} {val : List UInt8} {uid : Option Uid} {after : Instance}
    (put : putVal cdb prepared val = some (uid, after)) : SameCounts cdb after := by
  unfold putVal at put
  split at put
  · cases put
    exact ⟨rfl, rfl, rfl, rfl, rfl, rfl, rfl⟩
  · split at put
    · cases put
      exact ⟨rfl, rfl, rfl, rfl, rfl, rfl, rfl⟩
    · rcases Option.map_eq_some_iff.mp put with ⟨⟨place, found⟩, searched, made⟩
      rcases (retries_of_found searched).frame rfl with ⟨size, index, sheets, same⟩
      cases place with
      | none =>
          cases made
          rw [same]
          exact ⟨rfl, rfl, rfl, rfl, rfl, rfl, rfl⟩
      | some place =>
          dsimp only at made
          unfold growKvdata at made
          dsimp only at made
          split at made
          · cases made
            rw [same]
            exact ⟨rfl, rfl, rfl, rfl, rfl, rfl, rfl⟩
          · rename_i grown grew
            cases made
            split at grew
            · split at grew
              · cases grew
              · cases grew
                rw [same]
                exact ⟨rfl, rfl, rfl, rfl, rfl, rfl, rfl⟩
            · cases grew
              rw [same]
              exact ⟨rfl, rfl, rfl, rfl, rfl, rfl, rfl⟩

/-- What a put leaves behind: the log as it was, or with one entry more. -/
theorem putVal_logged {log : Log} {key val : List UInt8} {uid : Option Uid} {after : Instance} (sized : Sized cdb)
    (ok : PutOk cdb (prepare sum key) val.length) (stored : Stored cdb.kvdata cdb.kvdataUsed log)
    (indexed : Indexed sum cdb log.entries) (put : putVal cdb (prepare sum key) val = some (uid, after)) :
    (uid = none ∧ after.kvdata = cdb.kvdata ∧ after.kvdataUsed = cdb.kvdataUsed ∧ Indexed sum after log.entries) ∨
      (uid ≠ none ∧ cdb.kvdataUsed < 2 ^ 32 ∧
        ∀ (entry : Entry) (links : Links), entry.key = key → links.Small → entry.val links = val →
          Stored after.kvdata after.kvdataUsed (log.enter cdb.kvdataUsed entry links) ∧
          Indexed sum after (log.enter cdb.kvdataUsed entry links).entries) := by
  rcases putVal_some sized put with ⟨isNone, same⟩ | ⟨header, place, found, limited, chosen, retries, made⟩
  · rw [same]
    exact Or.inl ⟨isNone, rfl, rfl, indexed⟩
  rcases retries.kvdata with ⟨sameData, -, sameUsed, -⟩
  have searched := retries.indexed indexed rfl
  cases place with
  | none =>
      cases made
      exact Or.inl ⟨rfl, sameData, sameUsed, searched.1⟩
  | some place =>
      cases made
      have bound := sized.bound
      have used := sized.used
      rcases ok with refused | nothing | ⟨other, again, small, room⟩
      · exact absurd refused limited
      · rw [chosen] at nothing
        cases nothing
      · rw [chosen] at again
        cases again
        refine Or.inr ⟨by simp, by omega, ?_⟩
        intro entry links keyEq linksSmall valEq
        have bounds := roundToPages_bounds (recordBytes header (prepare sum key).key.length val.length)
        have keyIs : (prepare sum key).key = key := rfl
        have entryFound : entry.header = some header := by
          rw [Entry.header, ← Entry.val_length entry links, valEq, keyEq]
          exact chosen
        have entryLength : entry.length = recordBytes header (prepare sum key).key.length val.length := by
          rw [Entry.length, entryFound, ← Entry.val_length entry links, valEq, keyEq]
          rfl
        have total : (cdb.kvdataUsed + recordBytes header (prepare sum key).key.length val.length % 2 ^ 32) % 2 ^ 32 =
            cdb.kvdataUsed + entry.length := by
          rw [entryLength, Nat.mod_eq_of_lt small]
          omega
        constructor
        · have written := write_stored stored sized.positive linksSmall entryFound
          simp only [writeRecord, sameData, sameUsed, total]
          rw [record, keyEq, valEq] at written
          exact written
        · exact setCell_indexed searched.1 (searched.2 place rfl) sized.positive stored.not_logged_at_end keyEq rfl rfl
            (by simp only [writeRecord, sameUsed])

/-! ## A fresh instance -/

theorem initIndex_lt (sheetIndexMax si : Nat) :
    initIndex sheetIndexMax si < if sheetIndexMax = 0 then 1 else sheetIndexMax := by
  cases si with
  | zero =>
      rw [initIndex]
      split <;> omega
  | succ si =>
      rw [initIndex]
      split <;> split <;> omega

theorem fresh_indexed (sum : List UInt8 → Fin 8 → UInt16) (keysAtStart maximum : Nat) :
    Indexed sum (fresh keysAtStart maximum) (fun _ => none) := by
  refine ⟨?_, ?_, ?_, ?_⟩
  · intro si _
    exact initIndex_lt _ si
  · intro s r c used
    exact absurd rfl used
  · intro pos entry logged
    cases logged
  · intro s r c s' r' c' used
    exact absurd rfl used

theorem empty_stored (kvdata : Nat → UInt8) (used : Nat) :
    Stored kvdata used ⟨fun _ => none, fun _ => ⟨0, 0, 0⟩⟩ := by
  refine ⟨?_, ?_, ?_, ?_, ?_, ?_⟩
  · intro pos entry logged
    cases logged
  · intro pos entry header logged
    cases logged
  · intro pos entry logged
    cases logged
  · intro pos entry logged
    cases logged
  · intro pos entry other second logged
    cases logged
  · intro pos
    have zero : (0 : Nat) < 2 ^ 32 := by decide
    exact ⟨zero, zero, zero⟩

end

end SxeCdb
end LibKit
