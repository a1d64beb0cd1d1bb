import LibKit.Support.Halving
import LibKit.SxeCdb.Uids

namespace LibKit
namespace SxeCdb

open Halving

/-!
# What splits are good for

A split hands every second index of a full sheet to a new one.  Where all the
records in the way are of the index of the key that is put, they follow it from
split to split, until it is the only index of its sheet.  From then on a split
makes a sheet that no index leads to.  No split makes more than 4095 sheets.
-/

/-! ## Indexes -/

/-- The number of indexes that lead to a sheet, which is the number of toggles
of its split. -/
def toggles (cdb : Instance) (sheet : Nat) : Nat := Nat.count (fun si => cdb.sheetsIndex si = sheet) sheetsMax

/-- The number of smaller indexes that lead to the sheet of an index. -/
def rank (cdb : Instance) (si : Nat) : Nat := Nat.count (fun other => cdb.sheetsIndex other = cdb.sheetsIndex si) si

/-- The toggling loop leaves the indexes before its start. -/
theorem splitIndex_before (thisSheet thatSheet count start : Nat) (toggle : Bool) (sheetsIndex : Nat → Nat) {si : Nat}
    (before : si < start) : splitIndex thisSheet thatSheet count start toggle sheetsIndex si = sheetsIndex si := by
  induction count generalizing start toggle sheetsIndex with
  | zero => rfl
  | succ count ih =>
      simp only [splitIndex]
      split
      · rw [ih (start + 1) (!toggle) _ (by omega), Function.update_of_ne (by omega)]
      · exact ih (start + 1) toggle sheetsIndex (by omega)

/-- The toggling loop gives away the indexes of odd rank. -/
theorem splitIndex_apply (thisSheet thatSheet count start : Nat) (toggle : Bool) (sheetsIndex : Nat → Nat) {i : Nat}
    (inside : i < count) :
    splitIndex thisSheet thatSheet count start toggle sheetsIndex (start + i) =
      if sheetsIndex (start + i) = thisSheet then
        if (Nat.count (fun k => sheetsIndex (start + k) = thisSheet) i + toggle.toNat) % 2 = 0 then thisSheet
          else thatSheet
      else sheetsIndex (start + i) := by
  induction count generalizing start toggle sheetsIndex i with
  | zero => exact absurd inside (Nat.not_lt_zero i)
  | succ count ih =>
      simp only [splitIndex]
      cases i with
      | zero =>
          have here := fun toggle index => splitIndex_before thisSheet thatSheet count (start + 1) toggle index
            (Nat.lt_succ_self start)
          simp only [Nat.add_zero, Nat.count_zero, Nat.zero_add]
          split
          · rw [here, Function.update_self]
            cases toggle <;> rfl
          · exact here toggle sheetsIndex
      | succ i =>
          have shift : start + (i + 1) = start + 1 + i := by omega
          have behind : Nat.count (fun k => sheetsIndex (start + (k + 1)) = thisSheet) i =
              Nat.count (fun k => sheetsIndex (start + 1 + k) = thisSheet) i :=
            count_congr fun k _ => by rw [show start + (k + 1) = start + 1 + k by omega]
          simp only [Nat.count_succ', Nat.add_zero, behind, shift]
          split
          · have others : ∀ k, Function.update sheetsIndex start (if toggle then thatSheet
              else thisSheet) (start + 1 + k) =
                sheetsIndex (start + 1 + k) := fun k => Function.update_of_ne (by omega) _ _
            have parity : ∀ n : Nat, (n + (!toggle).toNat) % 2 = 0 ↔ (n + 1 + toggle.toNat) % 2 = 0 := by
              intro n
              cases toggle <;> simp
              omega
            rw [ih (start + 1) (!toggle) _ (by omega)]
            simp only [others, parity]
          · exact ih (start + 1) toggle _ (by omega)

theorem splitSheetIndex_apply (cdb : Instance) (sheet : Nat) {si : Nat} (inside : si < sheetsMax) :
    splitSheetIndex cdb sheet si =
      if cdb.sheetsIndex si = sheet then
        if Nat.count (fun other => cdb.sheetsIndex other = sheet) si % 2 = 0 then sheet else cdb.sheetsSize
      else cdb.sheetsIndex si := by
  have apply := splitIndex_apply sheet cdb.sheetsSize sheetsMax 0 false cdb.sheetsIndex inside
  simpa [splitSheetIndex] using apply

section

variable {cdb : Instance}

theorem splitMapped_index (cdb : Instance) (sheet : Nat) :
    (splitMapped cdb sheet).sheetsIndex = splitSheetIndex cdb sheet := by
  rw [splitMapped_eq]

/-- The numbers of the indexes that lead to the two sheets after a split. -/
theorem count_splitMapped (housed : Housed cdb) {sheet : Nat} (bound : sheet < cdb.sheetsSize) {n : Nat}
    (inside : n ≤ sheetsMax) :
    Nat.count (fun si => splitSheetIndex cdb sheet si = sheet) n =
        (Nat.count (fun si => cdb.sheetsIndex si = sheet) n + 1) / 2 ∧
      Nat.count (fun si => splitSheetIndex cdb sheet si = cdb.sheetsSize) n =
        Nat.count (fun si => cdb.sheetsIndex si = sheet) n / 2 := by
  rw [← count_even, ← count_odd]
  have old : sheet ≠ cdb.sheetsSize := Nat.ne_of_lt bound
  constructor
  · refine count_congr fun si less => ?_
    rw [splitSheetIndex_apply cdb sheet (by omega)]
    split
    · rename_i leads
      split
      · rename_i even
        simp [leads, even]
      · rename_i odd
        simp [leads, odd, old.symm]
    · rename_i other
      simp [other]
  · refine count_congr fun si less => ?_
    have before := housed.indexes si (by omega)
    rw [splitSheetIndex_apply cdb sheet (by omega)]
    split
    · rename_i leads
      split
      · rename_i even
        simp [leads, even, old]
      · rename_i odd
        simp only [leads, true_and, true_iff]
        omega
    · rename_i other
      simp [other, Nat.ne_of_lt before]

theorem rank_lt_toggles {si : Nat} (inside : si < sheetsMax) : rank cdb si < toggles cdb (cdb.sheetsIndex si) :=
  Nat.count_strict_mono rfl inside

theorem rank_injective {si other : Nat} (same : cdb.sheetsIndex si = cdb.sheetsIndex other)
    (ranks : rank cdb si = rank cdb other) :
    si = other := by
  rw [rank, rank, same] at ranks
  exact @Nat.count_injective (fun k => cdb.sheetsIndex k = cdb.sheetsIndex other) _ si other same rfl ranks

/-- A split of the sheet of an index halves its rank and the number of indexes
of its sheet. -/
theorem splitMapped_half (housed : Housed cdb) {si : Nat} (inside : si < sheetsMax) :
    rank (splitMapped cdb (cdb.sheetsIndex si)) si = rank cdb si / 2 ∧
      toggles (splitMapped cdb (cdb.sheetsIndex si)) ((splitMapped cdb (cdb.sheetsIndex si)).sheetsIndex si) =
        half (rank cdb si) (toggles cdb (cdb.sheetsIndex si)) := by
  have bound := housed.indexes si inside
  have here := splitSheetIndex_apply cdb (cdb.sheetsIndex si) inside
  have below := count_splitMapped housed bound (Nat.le_of_lt inside)
  have all := count_splitMapped housed bound (Nat.le_refl sheetsMax)
  rw [if_pos rfl, ← rank] at here
  rw [← rank] at below
  rw [← toggles] at all
  rw [rank, toggles, splitMapped_index, here, half]
  split
  · rename_i even
    rw [below.1, all.1]
    exact ⟨by omega, rfl⟩
  · rw [below.2, all.2]
    exact ⟨rfl, rfl⟩

/-! ## Cells in the way -/

def Full (cdb : Instance) (prepared : Prepared) : Prop :=
  ∀ row, row = prepared.row1 ∨ row = prepared.row2 → ∀ c, c < keysPerRow →
    (cdb.sheets (cdb.sheetsIndex prepared.sheetIndex) row c).hkvPos ≠ 0

/-- Both rows of a key are full with records of its index. -/
def Crowded (cdb : Instance) (prepared : Prepared) : Prop :=
  ∀ row, row = prepared.row1 ∨ row = prepared.row2 → ∀ c, c < keysPerRow →
    (cdb.sheets (cdb.sheetsIndex prepared.sheetIndex) row c).hkvPos ≠ 0 ∧
      (cdb.sheets (cdb.sheetsIndex prepared.sheetIndex) row c).hashHi.toNat % sheetsMax = prepared.sheetIndex

theorem Crowded.full {prepared : Prepared} (crowded : Crowded cdb prepared) : Full cdb prepared :=
  fun row isRow c bound => (crowded row isRow c bound).1

theorem scanRow_used (row : Nat → Cell) (count : Nat) :
    (scanRow row count).1 ≤ count ∧ ((scanRow row count).1 = count ↔ ∀ c, c < count → (row c).hkvPos ≠ 0) := by
  induction count with
  | zero => exact ⟨Nat.le_refl 0, fun _ c wrong => absurd wrong (Nat.not_lt_zero c), fun _ => rfl⟩
  | succ count ih =>
      simp only [scanRow]
      split
      · rename_i used
        refine ⟨Nat.succ_le_succ ih.1, ?_⟩
        rw [Nat.add_right_cancel_iff, ih.2, Nat.forall_lt_succ_right]
        exact (and_iff_left used).symm
      · rename_i unused
        refine ⟨Nat.le_succ_of_le ih.1, ?_⟩
        refine iff_of_false (fun wrong => ?_) (fun all => unused (all count (Nat.lt_succ_self count)))
        have bound := ih.1
        omega

/-- No cell is found exactly if both rows are full. -/
theorem freeCell_eq_none_iff (prepared : Prepared) : freeCell cdb prepared = none ↔ Full cdb prepared := by
  have first := (scanRow_used (cdb.sheets (cdb.sheetsIndex prepared.sheetIndex) prepared.row1) keysPerRow).2
  have second := (scanRow_used (cdb.sheets (cdb.sheetsIndex prepared.sheetIndex) prepared.row2) keysPerRow).2
  have both : Full cdb prepared ↔
      (scanRow (cdb.sheets (cdb.sheetsIndex prepared.sheetIndex) prepared.row1) keysPerRow).1 = keysPerRow ∧
        (scanRow (cdb.sheets (cdb.sheetsIndex prepared.sheetIndex) prepared.row2) keysPerRow).1 = keysPerRow := by
    rw [first, second, Full]
    constructor
    · exact fun full => ⟨full _ (Or.inl rfl), full _ (Or.inr rfl)⟩
    · rintro ⟨full1, full2⟩ row (rfl | rfl)
      · exact full1
      · exact full2
  rw [both]
  simp only [freeCell]
  split
  · rename_i full
    exact iff_of_true rfl full
  · rename_i notFull
    refine iff_of_false ?_ notFull
    split <;> exact Option.some_ne_none _

theorem splitMapped_keeps_back (housed : Housed cdb) {sheet : Nat} (bound : sheet < cdb.sheetsSize) :
    Keeps (splitMapped cdb sheet) cdb := by
  intro s r c used
  rcases splitMapped_used housed (Nat.ne_of_lt bound) used with ⟨same, -, -⟩ | ⟨same, -, -⟩
  · rw [same] at used ⊢
    rw [housed.sheet used]
  · rw [same] at used ⊢
    rw [housed.sheet used]

theorem Keeps.crowded {next : Instance} (keeps : Keeps cdb next) {prepared : Prepared}
    (crowded : Crowded cdb prepared) :
    Crowded next prepared := by
  intro row isRow c bound
  rcases crowded row isRow c bound with ⟨used, index⟩
  have kept := keeps _ row c used
  rw [index] at kept
  rw [kept]
  exact ⟨used, index⟩

/-! ## Useful splits -/

/-- The splits of the loop that looks for a free cell: the instances before them
and the sheets. -/
def splitsOf (prepared : Prepared) : Nat → Instance → List (Instance × Nat)
  | fuel, cdb =>
      match freeCell cdb prepared with
      | some _ => []
      | none =>
          if cdb.sheetsSize ≥ sheetsMax then []
          else
            match fuel with
            | 0 => []
            | fuel + 1 =>
                match splitSheet cdb (cdb.sheetsIndex prepared.sheetIndex) with
                | none => []
                | some next => (cdb, cdb.sheetsIndex prepared.sheetIndex) :: splitsOf prepared fuel next

def Useful (splits : List (Instance × Nat)) : Prop := ∀ split ∈ splits, 1 < toggles split.1 split.2

/-- Records of the index of the key are in the way in both rows, and there is
memory for more splits than it takes to leave the index alone on its sheet. -/
def Stuck (cdb : Instance) (prepared : Prepared) : Prop :=
  Crowded cdb prepared ∧ ∃ splits,
    Alone splits (rank cdb prepared.sheetIndex) (toggles cdb (cdb.sheetsIndex prepared.sheetIndex)) ∧
      CanMap (cdb.sheetsSize + splits + 1)

/-- A split is without use now, or a later one is. -/
theorem stuck_iff (housed : Housed cdb) {prepared : Prepared} (full : Full cdb prepared)
    (more : CanMap (cdb.sheetsSize + 1)) :
    Stuck cdb prepared ↔ toggles cdb (cdb.sheetsIndex prepared.sheetIndex) ≤ 1 ∨
      Stuck (splitMapped cdb (cdb.sheetsIndex prepared.sheetIndex)) prepared := by
  have inside := sheetIndex_lt prepared
  have bound := housed.indexes _ inside
  have ranks := @rank_lt_toggles cdb _ inside
  rcases splitMapped_half housed inside with ⟨rankIs, togglesIs⟩
  rw [Stuck, Stuck, rankIs, togglesIs, splitMapped_size]
  constructor
  · rintro ⟨crowded, splits, alone, fits⟩
    cases splits with
    | zero => exact Or.inl ((alone_zero ranks).mp alone)
    | succ splits =>
        refine Or.inr ⟨(splitMapped_keeps housed bound).crowded crowded, splits, (alone_succ _ _ _).mp alone, ?_⟩
        rwa [Nat.add_right_comm cdb.sheetsSize 1]
  · rintro (last | ⟨crowded, splits, alone, fits⟩)
    · refine ⟨fun row isRow c inRow => ?_, 0, (alone_zero ranks).mpr last, more⟩
      have used := full row isRow c inRow
      have slot : (cdb.sheets (cdb.sheetsIndex prepared.sheetIndex) row c).hashHi.toNat % sheetsMax < sheetsMax :=
        Nat.mod_lt _ (by decide)
      have others := @rank_lt_toggles cdb _ slot
      rw [housed.sheet used] at others
      exact ⟨used, rank_injective (housed.sheet used) (by omega)⟩
    · refine ⟨(splitMapped_keeps_back housed bound).crowded crowded, splits + 1, (alone_succ _ _ _).mpr alone, ?_⟩
      rwa [Nat.add_right_comm cdb.sheetsSize 1] at fits

theorem Stuck.more {prepared : Prepared} (stuck : Stuck cdb prepared) : CanMap (cdb.sheetsSize + 1) := by
  rcases stuck with ⟨-, splits, -, fits⟩
  rw [canMap_iff] at fits ⊢
  omega

theorem not_stuck_of_most {prepared : Prepared} (most : cdb.sheetsSize ≥ sheetsMax) : ¬ Stuck cdb prepared := by
  intro stuck
  have more := canMap_iff.mp stuck.more
  rw [sheetsMax] at most
  omega

/-- The splits for a key are useful exactly if the key is not stuck. -/
theorem useful_iff (housed : Housed cdb) (prepared : Prepared) (fuel : Nat)
    (enough : sheetsMax ≤ cdb.sheetsSize + fuel) :
    Useful (splitsOf prepared fuel cdb) ↔ ¬ Stuck cdb prepared := by
  have nothing : Useful [] := fun split member => absurd member List.not_mem_nil
  induction fuel generalizing cdb with
  | zero =>
      refine iff_of_true ?_ (not_stuck_of_most enough)
      unfold splitsOf
      split
      · exact nothing
      · rw [if_pos (show cdb.sheetsSize ≥ sheetsMax from enough)]
        exact nothing
  | succ fuel ih =>
      unfold splitsOf
      split
      · rename_i place found
        refine iff_of_true nothing fun stuck => ?_
        have none := (freeCell_eq_none_iff prepared).mpr stuck.1.full
        rw [found] at none
        cases none
      · rename_i none
        have full := (freeCell_eq_none_iff prepared).mp none
        by_cases maximum : cdb.sheetsSize ≥ sheetsMax
        · rw [if_pos maximum]
          exact iff_of_true nothing (not_stuck_of_most maximum)
        · rw [if_neg maximum]
          have bound := housed.indexes _ (sheetIndex_lt prepared)
          by_cases more : CanMap (cdb.sheetsSize + 1)
          · rw [splitSheet, if_pos (Nat.add_comm 1 cdb.sheetsSize ▸ more)]
            dsimp only
            have later := ih (housed.splitMapped bound) (by rw [splitMapped_size]; omega)
            rw [stuck_iff housed full more, not_or, not_le]
            exact List.forall_mem_cons.trans (and_congr_right fun _ => later)
          · rw [splitSheet, if_neg (Nat.add_comm 1 cdb.sheetsSize ▸ more)]
            exact iff_of_true nothing fun stuck => more stuck.more

/-! ## Sheets in use -/

def Covered (cdb : Instance) : Prop := ∀ sheet, sheet < cdb.sheetsSize → ∃ si, si < sheetsMax ∧
    cdb.sheetsIndex si = sheet

theorem Covered.splitMapped (housed : Housed cdb) (covered : Covered cdb) {sheet : Nat} (bound : sheet < cdb.sheetsSize)
    (useful : 1 < toggles cdb sheet) : Covered (splitMapped cdb sheet) := by
  intro other inside
  have counts := count_splitMapped housed bound (Nat.le_refl sheetsMax)
  rw [← toggles] at counts
  rw [splitMapped_size] at inside
  rw [splitMapped_index]
  by_cases this : other = sheet
  · subst this
    exact Nat.count_ne_iff_exists.mp (by omega)
  · by_cases that : other = cdb.sheetsSize
    · subst that
      exact Nat.count_ne_iff_exists.mp (by omega)
    · rcases covered other (by omega) with ⟨si, isIndex, leads⟩
      refine ⟨si, isIndex, ?_⟩
      rw [splitSheetIndex_apply cdb sheet isIndex, if_neg (by rw [leads]; exact this), leads]

theorem findPlace_covered (housed : Housed cdb) (covered : Covered cdb) {prepared : Prepared} {fuel : Nat}
    {place : Option Place} {after : Instance} (searched : findPlace prepared fuel cdb = some (place, after))
    (useful : Useful (splitsOf prepared fuel cdb)) : Covered after := by
  induction fuel generalizing cdb with
  | zero =>
      unfold findPlace at searched
      split at searched
      · cases searched
        exact covered
      · split at searched <;> cases searched <;> exact covered
  | succ fuel ih =>
      unfold splitsOf at useful
      unfold findPlace at searched
      cases found : freeCell cdb prepared with
      | some isPlace =>
          rw [found] at searched
          cases searched
          exact covered
      | none =>
          rw [found] at useful searched
          dsimp only at useful searched
          by_cases most : cdb.sheetsSize ≥ sheetsMax
          · rw [if_pos most] at searched
            cases searched
            exact covered
          · rw [if_neg most] at useful searched
            rcases Option.bind_eq_some_iff.mp searched with ⟨next, mapped, later⟩
            rw [mapped] at useful
            cases (splitSheet_some mapped).2
            have bound := housed.indexes _ (sheetIndex_lt prepared)
            rcases List.forall_mem_cons.mp useful with ⟨now, others⟩
            exact ih (housed.splitMapped bound) (covered.splitMapped housed bound now) later others

/-! ## Lookups -/

/-- The answers of all lookups are the same: by key, and by the uids that lead to
no record or to one of their index. -/
structure SameLookups (before after : Instance) : Prop where
  getHkv : ∀ prepared, getHkvRaw after prepared = getHkvRaw before prepared
  getUid : ∀ prepared, getUid after prepared = getUid before prepared
  getUidHkv : ∀ tls uid, ((cellOf before uid).hkvPos = 0 ∨
    (cellOf before uid).hashHi.toNat % sheetsMax = uid.sheetsIndexIndex) →
    getUidHkv after tls uid = getUidHkv before tls uid

/-- The used cells are the same, but their indexes may lead to other sheets, of
which each has cells of one sheet of before. -/
structure Rehoused (before after : Instance) : Prop where
  housed : Housed after
  keeps : Keeps before after
  back : Keeps after before
  finer : ∀ si other, si < sheetsMax → other < sheetsMax → after.sheetsIndex si = after.sheetsIndex other →
    before.sheetsIndex si = before.sheetsIndex other
  kvdata : after.kvdata = before.kvdata

theorem Housed.rehoused (housed : Housed cdb) : Rehoused cdb cdb :=
  ⟨housed, housed.keeps, housed.keeps, fun _ _ _ _ same => same, rfl⟩

theorem Rehoused.trans {middle after : Instance} (left : Rehoused cdb middle) (right : Rehoused middle after) :
    Rehoused cdb after :=
  ⟨right.housed, left.keeps.trans right.keeps, right.back.trans left.back,
    fun si other inside inside' same => left.finer si other inside inside' (right.finer si other inside inside' same),
    right.kvdata.trans left.kvdata⟩

theorem splitMapped_rehoused (housed : Housed cdb) {sheet : Nat} (bound : sheet < cdb.sheetsSize) :
    Rehoused cdb (splitMapped cdb sheet) := by
  refine ⟨housed.splitMapped bound, splitMapped_keeps housed bound, splitMapped_keeps_back housed bound, ?_,
    by rw [splitMapped_eq]⟩
  intro si other inside inside' same
  rw [splitMapped_index] at same
  have before := housed.indexes si inside
  have before' := housed.indexes other inside'
  rcases splitSheetIndex_cases cdb sheet si with kept | ⟨this, that⟩
  · rcases splitSheetIndex_cases cdb sheet other with kept' | ⟨this', that'⟩
    · rwa [kept, kept'] at same
    · rw [kept, that'] at same
      omega
  · rcases splitSheetIndex_cases cdb sheet other with kept' | ⟨this', that'⟩
    · rw [that, kept'] at same
      omega
    · rw [this, this']

theorem Retries.rehoused {prepared : Prepared} {after : Instance} {place : Option Place}
    {result : Option (Option Place × Instance)} (retries : Retries prepared cdb result) (housed : Housed cdb)
    (isResult : result = some (place, after)) : Rehoused cdb after := by
  induction retries with
  | found isFree =>
      cases isResult
      exact housed.rehoused
  | most full maximum =>
      cases isResult
      exact housed.rehoused
  | fails => cases isResult
  | split full room mapped later ih =>
      have bound := housed.indexes _ (sheetIndex_lt prepared)
      cases (splitSheet_some mapped).2
      exact (splitMapped_rehoused housed bound).trans (ih (housed.splitMapped bound) isResult)

/-- A uid leads to the cell of its index that it led to. -/
theorem Keeps.cellOf_eq {next : Instance} (keeps : Keeps cdb next) {uid : Uid} (used : (cellOf cdb uid).hkvPos ≠ 0)
    (index : (cellOf cdb uid).hashHi.toNat % sheetsMax = uid.sheetsIndexIndex) : cellOf next uid = cellOf cdb uid := by
  have kept := keeps _ uid.row uid.cell used
  rw [← cellOf, index] at kept
  exact kept

theorem Rehoused.unused {after : Instance} (rehoused : Rehoused cdb after) {uid : Uid}
    (inside : uid.sheetsIndexIndex < sheetsMax)
    (unused : (cellOf cdb uid).hkvPos = 0) : (cellOf after uid).hkvPos = 0 := by
  by_contra used
  have slot : (cellOf after uid).hashHi.toNat % sheetsMax < sheetsMax := Nat.mod_lt _ (by decide)
  have kept := rehoused.back _ uid.row uid.cell used
  rw [← cellOf, rehoused.finer _ _ slot inside (rehoused.housed.sheet used), ← cellOf] at kept
  rw [kept] at unused
  exact used unused

theorem matchesCell_index {kvdata : Nat → UInt8} {prepared : Prepared} {cell : Cell}
    (found : matchesCell kvdata prepared cell = true) :
    cell.hkvPos ≠ 0 ∧ cell.hashHi.toNat % sheetsMax = prepared.sheetIndex := by
  simp only [matchesCell, decide_eq_true_eq] at found
  exact ⟨found.2.2.1, by rw [← found.2.1]; rfl⟩

theorem Rehoused.matchesCell_eq {after : Instance} (rehoused : Rehoused cdb after) (prepared : Prepared) {uid : Uid}
    (index : uid.sheetsIndexIndex = prepared.sheetIndex) :
    matchesCell after.kvdata prepared (cellOf after uid) = matchesCell cdb.kvdata prepared (cellOf cdb uid) := by
  rw [rehoused.kvdata, Bool.eq_iff_iff]
  constructor
  · intro found
    rcases matchesCell_index found with ⟨used, slot⟩
    rwa [rehoused.back.cellOf_eq used (slot.trans index.symm)]
  · intro found
    rcases matchesCell_index found with ⟨used, slot⟩
    rwa [rehoused.keeps.cellOf_eq used (slot.trans index.symm)]

theorem mem_uids {prepared : Prepared} {uid : Uid} (member : uid ∈ (List.range keysPerRow).flatMap fun cell =>
      [(⟨prepared.sheetIndex, prepared.row1, cell⟩ : Uid), ⟨prepared.sheetIndex, prepared.row2, cell⟩]) :
    uid.sheetsIndexIndex = prepared.sheetIndex := by
  rcases List.mem_flatMap.mp member with ⟨cell, -, inside⟩
  simp only [List.mem_cons, List.not_mem_nil, or_false] at inside
  rcases inside with rfl | rfl
  · rfl
  · rfl

/-- Splits change the answer of no lookup. -/
theorem Rehoused.sameLookups {after : Instance} (housed : Housed cdb) (rehoused : Rehoused cdb after) :
    SameLookups cdb after := by
  have uids : ∀ prepared, getUid after prepared = getUid cdb prepared := fun prepared =>
    List.find?_congr fun uid member => rehoused.matchesCell_eq prepared (mem_uids member)
  refine ⟨fun prepared => ?_, uids, fun tls uid proper => ?_⟩
  · rw [getHkvRaw_eq, getHkvRaw_eq, uids]
    cases found : getUid cdb prepared with
    | none => rfl
    | some uid =>
        have matched := List.find?_some found
        rcases matchesCell_index matched with ⟨used, slot⟩
        have index := mem_uids (List.mem_of_find?_eq_some found)
        rw [Option.map_some, Option.map_some, rehoused.keeps.cellOf_eq used (slot.trans index.symm)]
  · by_cases inside : uid.sheetsIndexIndex < sheetsMax
    · have leads := housed.indexes _ inside
      have leads' := rehoused.housed.indexes _ inside
      have sameBounds : (uid.cell < keysPerRow ∧ uid.row < rowsPerSheet ∧ uid.sheetsIndexIndex < sheetsMax ∧
            after.sheetsIndex uid.sheetsIndexIndex < after.sheetsSize) ↔
          (uid.cell < keysPerRow ∧ uid.row < rowsPerSheet ∧ uid.sheetsIndexIndex < sheetsMax ∧
            cdb.sheetsIndex uid.sheetsIndexIndex < cdb.sheetsSize) := by
        simp only [leads, leads']
      rw [SxeCdb.getUidHkv, SxeCdb.getUidHkv]
      simp only [sameBounds]
      by_cases used : (cellOf cdb uid).hkvPos ≠ 0
      · have same := rehoused.keeps.cellOf_eq used (proper.resolve_left used)
        simp only [same, copyHkvToTls, Tls.part, rehoused.kvdata]
      · have unused := rehoused.unused inside (not_not.mp used)
        rw [if_neg used, if_neg (not_not.mpr unused)]
    · rw [SxeCdb.getUidHkv, SxeCdb.getUidHkv, if_neg (fun all => inside all.2.2.1),
        if_neg (fun all => inside all.2.2.1)]

/-! ## Room for a record -/

/-- Indexes of one sheet still lead to one after its split if their ranks have the
same parity. -/
theorem splitMapped_together (housed : Housed cdb) {si other : Nat} (inside : si < sheetsMax)
    (inside' : other < sheetsMax)
    (same : cdb.sheetsIndex other = cdb.sheetsIndex si) :
    splitSheetIndex cdb (cdb.sheetsIndex si) other = splitSheetIndex cdb (cdb.sheetsIndex si) si ↔
      rank cdb other % 2 = rank cdb si % 2 := by
  have old := Nat.ne_of_lt (housed.indexes si inside)
  have otherRank : rank cdb other = Nat.count (fun k => cdb.sheetsIndex k = cdb.sheetsIndex si) other :=
    by rw [rank, same]
  rw [splitSheetIndex_apply _ _ inside, splitSheetIndex_apply _ _ inside', if_pos same, if_pos rfl, ← rank, ← otherRank]
  split
  · split
    · omega
    · exact iff_of_false old (by omega)
  · split
    · exact iff_of_false old.symm (by omega)
    · omega

/-- After a split of the sheet of an index, a used cell of it is where the index
leads to if it has gone the same way, and else there is an unused one. -/
theorem splitMapped_front (housed : Housed cdb) {si : Nat} (inside : si < sheetsMax) {row c : Nat}
    (used : (cdb.sheets (cdb.sheetsIndex si) row c).hkvPos ≠ 0) :
    if rank cdb ((cdb.sheets (cdb.sheetsIndex si) row c).hashHi.toNat % sheetsMax) % 2 = rank cdb si % 2 then
      (splitMapped cdb (cdb.sheetsIndex si)).sheets (splitSheetIndex cdb (cdb.sheetsIndex si) si) row c =
        cdb.sheets (cdb.sheetsIndex si) row c
    else ((splitMapped cdb (cdb.sheetsIndex si)).sheets
      (splitSheetIndex cdb (cdb.sheetsIndex si) si) row c).hkvPos = 0 := by
  have bound := housed.indexes si inside
  have slot : (cdb.sheets (cdb.sheetsIndex si) row c).hashHi.toNat % sheetsMax < sheetsMax := Nat.mod_lt _ (by decide)
  have together := splitMapped_together housed inside slot (housed.sheet used)
  have rehoused := splitMapped_rehoused housed bound
  split
  · rename_i parity
    have kept := rehoused.keeps _ row c used
    rwa [splitMapped_index, together.mpr parity] at kept
  · rename_i parity
    by_contra stays
    have index := rehoused.housed.sheet stays
    have slot' : ((splitMapped cdb (cdb.sheetsIndex si)).sheets
      (splitSheetIndex cdb (cdb.sheetsIndex si) si) row c).hashHi.toNat
        % sheetsMax < sheetsMax := Nat.mod_lt _ (by decide)
    have back := rehoused.back _ row c stays
    rw [rehoused.finer _ si slot' inside (by rw [index, splitMapped_index])] at back
    rw [← back, splitMapped_index] at index
    exact parity (together.mp index)

/-- After so many splits of the sheet of a key, some cell of its rows is unused,
or was left behind with an index that went another way. -/
def Frees (cdb : Instance) (prepared : Prepared) (splits : Nat) : Prop :=
  ∃ row, (row = prepared.row1 ∨ row = prepared.row2) ∧ ∃ c, c < keysPerRow ∧
    ((cdb.sheets (cdb.sheetsIndex prepared.sheetIndex) row c).hkvPos = 0 ∨
      rank cdb ((cdb.sheets (cdb.sheetsIndex prepared.sheetIndex) row c).hashHi.toNat % sheetsMax) % 2 ^ splits ≠
        rank cdb prepared.sheetIndex % 2 ^ splits)

/-- A cell becomes free before there are more than 4095 sheets. -/
def Room (cdb : Instance) (prepared : Prepared) : Prop := ∃ splits, Frees cdb prepared splits ∧
    CanMap (cdb.sheetsSize + splits)

theorem frees_zero (prepared : Prepared) : Frees cdb prepared 0 ↔ ¬ Full cdb prepared := by
  simp only [Frees, Full, pow_zero, Nat.mod_one, ne_eq, not_true_eq_false, or_false]
  push Not
  rfl

theorem Room.of_free {prepared : Prepared} (free : freeCell cdb prepared ≠ none) (mapped : CanMap cdb.sheetsSize) :
    Room cdb prepared :=
  ⟨0, (frees_zero prepared).mpr (mt (freeCell_eq_none_iff prepared).mpr free), mapped⟩

theorem frees_succ (housed : Housed cdb) {prepared : Prepared} (full : Full cdb prepared) (splits : Nat) :
    Frees cdb prepared (splits + 1) ↔ Frees (splitMapped cdb
      (cdb.sheetsIndex prepared.sheetIndex)) prepared splits := by
  have inside := sheetIndex_lt prepared
  refine exists_congr fun row => and_congr_right fun isRow => exists_congr fun c => and_congr_right fun bound => ?_
  have used := full row isRow c bound
  have slot : (cdb.sheets (cdb.sheetsIndex prepared.sheetIndex) row c).hashHi.toNat % sheetsMax < sheetsMax :=
    Nat.mod_lt _ (by decide)
  have halves := (splitMapped_half housed inside).1
  have others := (splitMapped_half housed slot).1
  have front := splitMapped_front housed inside used
  rw [housed.sheet used] at others
  rw [splitMapped_index, halves, Ne, together_succ]
  split at front
  · rename_i parity
    rw [front, others]
    simp only [parity, true_and]
  · rename_i parity
    simp only [parity, false_and, not_false_eq_true, or_true, front, true_or]

theorem room_iff (housed : Housed cdb) {prepared : Prepared} (full : Full cdb prepared) :
    Room cdb prepared ↔ Room (splitMapped cdb (cdb.sheetsIndex prepared.sheetIndex)) prepared := by
  rw [Room, Room, splitMapped_size]
  constructor
  · rintro ⟨splits, frees, fits⟩
    cases splits with
    | zero => exact absurd full ((frees_zero prepared).mp frees)
    | succ splits =>
        refine ⟨splits, (frees_succ housed full splits).mp frees, ?_⟩
        rwa [Nat.add_right_comm]
  · rintro ⟨splits, frees, fits⟩
    refine ⟨splits + 1, (frees_succ housed full splits).mpr frees, ?_⟩
    rwa [Nat.add_right_comm] at fits

/-- The loop that looks for a free cell returns exactly if there is room. -/
theorem Retries.returns_iff {prepared : Prepared} {result : Option (Option Place × Instance)}
    (retries : Retries prepared cdb result) (housed : Housed cdb) (mapped : CanMap cdb.sheetsSize) :
    result ≠ none ↔ Room cdb prepared := by
  induction retries with
  | found isFree =>
      exact iff_of_true (Option.some_ne_none _) (Room.of_free (by rw [isFree]; exact Option.some_ne_none _) mapped)
  | most full maximum =>
      rw [canMap_iff] at mapped
      rw [sheetsMax] at maximum
      omega
  | @fails cdb full room unmapped =>
      refine iff_of_false (not_not_intro rfl) ?_
      rintro ⟨splits, frees, fits⟩
      cases splits with
      | zero => exact (frees_zero prepared).mp frees ((freeCell_eq_none_iff prepared).mp full)
      | succ splits =>
          have more : CanMap (1 + cdb.sheetsSize) := by
            rw [canMap_iff] at fits ⊢
            omega
          rw [splitSheet, if_pos more] at unmapped
          cases unmapped
  | split full room splits later ih =>
      have bound := housed.indexes _ (sheetIndex_lt prepared)
      have more := (splitSheet_some splits).1
      cases (splitSheet_some splits).2
      rw [room_iff housed ((freeCell_eq_none_iff prepared).mp full)]
      exact ih (housed.splitMapped bound) (by rw [splitMapped_size]; exact more)

theorem findPlace_once (housed : Housed cdb) (more : CanMap (cdb.sheetsSize + 1)) {prepared : Prepared}
    (full : Full cdb prepared)
    {c : Nat} (inRow : c < keysPerRow)
    (apart : rank cdb ((cdb.sheets (cdb.sheetsIndex prepared.sheetIndex) prepared.row1 c).hashHi.toNat % sheetsMax) % 2 ≠
      rank cdb prepared.sheetIndex % 2) :
    ∃ place, findPlace prepared (sheetsMax - cdb.sheetsSize) cdb =
      some (some place, splitMapped cdb (cdb.sheetsIndex prepared.sheetIndex)) := by
  have few := canMap_iff.mp more
  have front := splitMapped_front housed (sheetIndex_lt prepared) (full _ (Or.inl rfl) c inRow)
  rw [if_neg apart, ← splitMapped_index] at front
  have free : freeCell (splitMapped cdb (cdb.sheetsIndex prepared.sheetIndex)) prepared ≠ none := fun none =>
    (freeCell_eq_none_iff prepared).mp none _ (Or.inl rfl) c inRow front
  rcases Option.ne_none_iff_exists'.mp free with ⟨place, found⟩
  refine ⟨place, ?_⟩
  rw [show sheetsMax - cdb.sheetsSize = sheetsMax - cdb.sheetsSize - 1 + 1 by rw [sheetsMax]; omega, findPlace]
  simp only [(freeCell_eq_none_iff prepared).mpr full]
  rw [if_neg (by rw [sheetsMax]; omega), splitSheet, if_pos (Nat.add_comm 1 cdb.sheetsSize ▸ more), Option.bind_some,
    findPlace_of_freeCell found]

end

end SxeCdb
end LibKit
