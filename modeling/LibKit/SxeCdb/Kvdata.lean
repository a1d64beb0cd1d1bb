import LibKit.SxeCdb.Model
import LibKit.Support.Runs

namespace LibKit
namespace SxeCdb

/-!
# How far `kvdata` may grow

A put adds up its header, key and value in 32 bits, tests the rounded size for
a wrap in 64 bits, where there is none, and stores the new size back into 32
bits.  The results here say which puts keep the size of `kvdata` truthful, in
every state reached by such puts.
-/

/-! ## Calls on an instance -/

/-- A caller prepares a key and then puts a value or counts the key. -/
inductive Call where
  | put (key val : List UInt8)
  | inc (key : List UInt8) (countsList : Nat) (dummy : Fin 12 → UInt8)

/-- What a call returns: the identifier of a put, or a count. -/
inductive Answer where
  | uid (uid : Option Uid)
  | count (count : Nat)
deriving DecidableEq

/-- One call, `none` when an assertion fails. -/
def step (sum : List UInt8 → Fin 8 → UInt16) (cdb : Instance) : Call → Option (Answer × Instance)
  | .put key val => (putVal cdb (prepare sum key) val).map (fun result => (.uid result.1, result.2))
  | .inc key countsList dummy =>
      (inc cdb (prepare sum key) countsList dummy).map (fun result => (.count result.1, result.2))

/-! ## The condition -/

def recordBytes (header keyLen valLen : Nat) : Nat := header + keyLen + valLen

/-- The record is smaller than 4 GiB and either fits into the free bytes or
the size it makes `kvdata` grow to is below 4 GiB. -/
def Fits (cdb : Instance) (header keyLen valLen : Nat) : Prop :=
  recordBytes header keyLen valLen < 2 ^ 32 ∧
    (recordBytes header keyLen valLen ≤ cdb.kvdataSize - cdb.kvdataUsed ∨
      cdb.kvdataSize + roundToPages (recordBytes header keyLen valLen) < 2 ^ 32)

/-- A put is refused before it looks for a cell, because of the maximum or its
lengths, or its record fits. -/
def PutOk (cdb : Instance) (prepared : Prepared) (valLen : Nat) : Prop :=
  (cdb.kvdataMaximum > 0 ∧ cdb.kvdataSize > cdb.kvdataMaximum) ∨
    headerLen prepared.key.length valLen = none ∨
    ∃ header, headerLen prepared.key.length valLen = some header ∧
      Fits cdb header prepared.key.length valLen

/-- The put that a call makes, if any, is one of those. -/
def CallPutOk (sum : List UInt8 → Fin 8 → UInt16) (cdb : Instance) : Call → Prop
  | .put key val => PutOk cdb (prepare sum key) val.length
  | .inc key _ _ => getHkvRaw cdb (prepare sum key) = none → PutOk cdb (prepare sum key) hkvListBytes

/-- What the sizes of `kvdata` satisfy in a reachable instance. -/
structure Sized (cdb : Instance) : Prop where
  pages : cdb.kvdataSize % pageBytes = 0
  bound : cdb.kvdataSize < 2 ^ 32
  positive : 1 ≤ cdb.kvdataUsed
  used : cdb.kvdataUsed ≤ cdb.kvdataSize

/-- The required behaviour of one put: refused with nothing changed, or the
used bytes grow by the bytes of the record and stay within a size of at most
`2 ^ 32 - 1`, so that a put in need of 4 GiB is refused. -/
def GrowsExactly (cdb : Instance) (prepared : Prepared) (val : List UInt8) : Prop :=
  match putVal cdb prepared val with
  | none => False
  | some (none, after) => after.kvdataSize = cdb.kvdataSize ∧ after.kvdataUsed = cdb.kvdataUsed ∧
      after.kvdata = cdb.kvdata
  | some (some _, after) => ∃ header, headerLen prepared.key.length val.length = some header ∧
      after.kvdataUsed = cdb.kvdataUsed + recordBytes header prepared.key.length val.length ∧
      after.kvdataUsed ≤ after.kvdataSize ∧ after.kvdataSize ≤ 2 ^ 32 - 1

/-! ## Looking for a free cell -/

/-- The loop that looks for a free cell, turn by turn to its end. -/
inductive Retries (prepared : Prepared) : Instance → Option (Option Place × Instance) → Prop where
  | found {cdb : Instance} {place : Place} (isFree : freeCell cdb prepared = some place) :
      Retries prepared cdb (some (some place, cdb))
  | most {cdb : Instance} (full : freeCell cdb prepared = none) (maximum : cdb.sheetsSize ≥ sheetsMax) :
      Retries prepared cdb (some (none, cdb))
  | fails {cdb : Instance} (full : freeCell cdb prepared = none) (room : cdb.sheetsSize < sheetsMax)
      (unmapped : splitSheet cdb (cdb.sheetsIndex prepared.sheetIndex) = none) : Retries prepared cdb none
  | split {cdb next : Instance} {result : Option (Option Place × Instance)} (full : freeCell cdb prepared = none)
      (room : cdb.sheetsSize < sheetsMax) (mapped : splitSheet cdb (cdb.sheetsIndex prepared.sheetIndex) = some next)
      (later : Retries prepared next result) : Retries prepared cdb result

theorem splitSheet_some {cdb next : Instance} {sheet : Nat} (mapped : splitSheet cdb sheet = some next) :
    CanMap (cdb.sheetsSize + 1) ∧ next = splitMapped cdb sheet := by
  unfold splitSheet at mapped
  split at mapped
  · rename_i size
    cases mapped
    exact ⟨Nat.add_comm 1 cdb.sheetsSize ▸ size, rfl⟩
  · cases mapped

theorem splitMapped_size (cdb : Instance) (sheet : Nat) : (splitMapped cdb sheet).sheetsSize = cdb.sheetsSize + 1 := by
  rw [splitMapped_eq]

/-- The loop ends, after no more splits than there may be. -/
theorem findPlace_retries {cdb : Instance} (prepared : Prepared) (fuel : Nat)
    (enough : sheetsMax ≤ cdb.sheetsSize + fuel) :
    Retries prepared cdb (findPlace prepared fuel cdb) := by
  induction fuel generalizing cdb with
  | zero =>
      unfold findPlace
      split
      · rename_i place found
        exact .found found
      · rename_i full
        rw [if_pos (by omega)]
        exact .most full (by omega)
  | succ fuel ih =>
      unfold findPlace
      split
      · rename_i place found
        exact .found found
      · rename_i full
        by_cases most : cdb.sheetsSize ≥ sheetsMax
        · rw [if_pos most]
          exact .most full most
        · rw [if_neg most]
          cases mapped : splitSheet cdb (cdb.sheetsIndex prepared.sheetIndex) with
          | none => exact .fails full (Nat.lt_of_not_le most) mapped
          | some next =>
              have size := splitMapped_size cdb (cdb.sheetsIndex prepared.sheetIndex)
              rw [← (splitSheet_some mapped).2] at size
              exact .split full (Nat.lt_of_not_le most) mapped (ih (by omega))

theorem retries_of_found {cdb : Instance} {prepared : Prepared} {result : Option (Option Place × Instance)}
    (searched : findPlace prepared (sheetsMax - cdb.sheetsSize) cdb = result) : Retries prepared cdb result := by
  rw [← searched]
  exact findPlace_retries prepared _ (by omega)

theorem Retries.frame {prepared : Prepared} {cdb after : Instance} {place : Option Place}
    {result : Option (Option Place × Instance)} (retries : Retries prepared cdb result)
    (isResult : result = some (place, after)) :
    ∃ size index sheets, after = { cdb with sheetsSize := size, sheetsIndex := index, sheets := sheets } := by
  induction retries with
  | found isFree =>
      cases isResult
      exact ⟨_, _, _, rfl⟩
  | most full maximum =>
      cases isResult
      exact ⟨_, _, _, rfl⟩
  | fails => cases isResult
  | split full room mapped later ih =>
      rcases ih isResult with ⟨size, index, sheets, same⟩
      refine ⟨size, index, sheets, ?_⟩
      rw [(splitSheet_some mapped).2, splitMapped_eq] at same
      exact same

theorem Retries.kvdata {prepared : Prepared} {cdb after : Instance} {place : Option Place}
    (retries : Retries prepared cdb (some (place, after))) :
    after.kvdata = cdb.kvdata ∧ after.kvdataSize = cdb.kvdataSize ∧ after.kvdataUsed = cdb.kvdataUsed ∧
      after.kvdataMaximum = cdb.kvdataMaximum := by
  rcases retries.frame rfl with ⟨size, index, sheets, same⟩
  rw [same]
  exact ⟨rfl, rfl, rfl, rfl⟩

theorem findPlace_of_freeCell {cdb : Instance} {prepared : Prepared} {place : Place}
    (found : freeCell cdb prepared = some place) (fuel : Nat) :
    findPlace prepared fuel cdb = some (some place, cdb) := by
  unfold findPlace
  rw [found]

/-! ## What changes the sizes -/

theorem headerLen_bounds {keyLen valLen header : Nat} (found : headerLen keyLen valLen = some header) :
    1 ≤ header ∧ header ≤ 8 ∧ 1 ≤ keyLen ∧ keyLen < 2 ^ 24 ∧ valLen < 2 ^ 32 := by
  unfold headerLen at found
  split at found
  · cases found
  · split at found
    · cases found
      omega
    · split at found
      · cases found
        omega
      · split at found
        · cases found
          omega
        · split at found
          · cases found
            omega
          · cases found

theorem roundToPages_mod (bytes : Nat) : roundToPages bytes % pageBytes = 0 := by
  simp only [roundToPages, pageBytes]
  omega

theorem roundToPages_bounds (bytes : Nat) :
    bytes + 4096 ≤ roundToPages bytes ∧ roundToPages bytes < bytes + 2 * 4096 := by
  simp only [roundToPages, pageBytes]
  omega

theorem growKvdata_eq {cdb : Instance} (sized : Sized cdb) {want : Nat} (small : want < 2 ^ 32) :
    growKvdata cdb want =
      some { cdb with kvdataSize :=
        if want ≤ cdb.kvdataSize - cdb.kvdataUsed then cdb.kvdataSize
        else (cdb.kvdataSize + roundToPages want) % 2 ^ 32 } := by
  have free : (2 ^ 32 + cdb.kvdataSize - cdb.kvdataUsed) % 2 ^ 32 = cdb.kvdataSize - cdb.kvdataUsed := by
    have bound := sized.bound
    have used := sized.used
    have positive := sized.positive
    omega
  have rounded := roundToPages_bounds want
  have bound := sized.bound
  simp only [growKvdata, free]
  by_cases fits : want ≤ cdb.kvdataSize - cdb.kvdataUsed
  · rw [if_neg (by omega)]
    simp only [if_pos fits]
  · rw [if_pos (by omega), if_neg (by omega)]
    simp only [if_neg fits]

/-- What a put makes of the result of its search. -/
def putFound (cdb : Instance) (prepared : Prepared) (val : List UInt8) (header want : Nat) :
    Option Place × Instance → Option Uid × Instance
  | (none, after) => (none, after)
  | (some place, after) => (some ⟨prepared.sheetIndex, place.row, place.cell⟩,
      writeRecord { after with kvdataSize :=
          if want ≤ cdb.kvdataSize - cdb.kvdataUsed then cdb.kvdataSize
          else (cdb.kvdataSize + roundToPages want) % 2 ^ 32 }
        prepared val header want place)

/-- What a put does when its lengths are admitted and the maximum allows it. -/
theorem putVal_eq {cdb : Instance} {prepared : Prepared} {val : List UInt8} {header : Nat}
    (sized : Sized cdb) (unlimited : ¬ (cdb.kvdataMaximum > 0 ∧ cdb.kvdataSize > cdb.kvdataMaximum))
    (found : headerLen prepared.key.length val.length = some header) {want : Nat}
    (wanted : want = recordBytes header prepared.key.length val.length % 2 ^ 32) :
    putVal cdb prepared val =
      (findPlace prepared (sheetsMax - cdb.sheetsSize) cdb).map (putFound cdb prepared val header want) := by
  simp only [putVal, if_neg unlimited, found]
  cases searched : findPlace prepared (sheetsMax - cdb.sheetsSize) cdb with
  | none => rfl
  | some result =>
      rcases result with ⟨place, after⟩
      rcases (retries_of_found searched).kvdata with ⟨_, sameSize, sameUsed, _⟩
      cases place with
      | none => rfl
      | some place =>
          have sizedAfter : Sized after :=
            ⟨sameSize ▸ sized.pages, sameSize ▸ sized.bound, sameUsed ▸ sized.positive,
              by rw [sameSize, sameUsed]; exact sized.used⟩
          have small : want < 2 ^ 32 := wanted ▸ Nat.mod_lt _ (by decide)
          have grown := growKvdata_eq sizedAfter small
          simp only [recordBytes] at wanted
          simp only [Option.map_some, ← wanted, grown, sameSize, sameUsed, putFound]

theorem putVal_some {cdb after : Instance} {prepared : Prepared} {val : List UInt8} {uid : Option Uid}
    (sized : Sized cdb)
    (put : putVal cdb prepared val = some (uid, after)) :
    (uid = none ∧ after = cdb) ∨ ∃ header place found, ¬ (cdb.kvdataMaximum > 0 ∧ cdb.kvdataSize > cdb.kvdataMaximum) ∧
      headerLen prepared.key.length val.length = some header ∧ Retries prepared cdb (some (place, found)) ∧
      (uid, after) = putFound cdb prepared val header (recordBytes header prepared.key.length val.length % 2 ^ 32)
        (place, found) := by
  by_cases limited : cdb.kvdataMaximum > 0 ∧ cdb.kvdataSize > cdb.kvdataMaximum
  · rw [putVal, if_pos limited] at put
    cases put
    exact Or.inl ⟨rfl, rfl⟩
  · cases chosen : headerLen prepared.key.length val.length with
    | none =>
        simp only [putVal, if_neg limited, chosen] at put
        cases put
        exact Or.inl ⟨rfl, rfl⟩
    | some header =>
        rw [putVal_eq sized limited chosen rfl] at put
        rcases Option.map_eq_some_iff.mp put with ⟨⟨place, found⟩, searched, same⟩
        exact Or.inr ⟨header, place, found, limited, rfl, retries_of_found searched, same.symm⟩

/-- The arithmetic of a put whose record does not fit: either the bytes or the
size have lost a multiple of `2 ^ 32`. -/
theorem not_fits_wraps {cdb : Instance} (sized : Sized cdb) {header keyLen valLen want : Nat}
    (wanted : want = recordBytes header keyLen valLen % 2 ^ 32)
    (misfit : ¬ Fits cdb header keyLen valLen)
    (exact : (cdb.kvdataUsed + want) % 2 ^ 32 = cdb.kvdataUsed + recordBytes header keyLen valLen)
    (within : cdb.kvdataUsed + recordBytes header keyLen valLen ≤
      if want ≤ cdb.kvdataSize - cdb.kvdataUsed then cdb.kvdataSize
      else (cdb.kvdataSize + roundToPages want) % 2 ^ 32) : False := by
  have small : recordBytes header keyLen valLen < 2 ^ 32 := by
    have reduced := Nat.mod_lt (cdb.kvdataUsed + want) (Nat.two_pow_pos 32)
    omega
  have whole : want = recordBytes header keyLen valLen := wanted.trans (Nat.mod_eq_of_lt small)
  rw [← whole] at within exact
  have pages := sized.pages
  have positive := sized.positive
  have used := sized.used
  have bound := sized.bound
  have rounded := roundToPages_mod want
  have bounds := roundToPages_bounds want
  simp only [Fits, ← whole, not_and, not_or, Nat.not_le, Nat.not_lt] at misfit
  rcases misfit (whole ▸ small) with ⟨large, wraps⟩
  rw [if_neg (by omega)] at within
  simp only [pageBytes] at pages rounded
  omega

theorem canMap_iff {sheets : Nat} : CanMap sheets ↔ sheets < 4096 := by
  rw [CanMap, sheetBytes]
  omega

theorem Retries.mapped {prepared : Prepared} {cdb after : Instance} {place : Option Place}
    {result : Option (Option Place × Instance)} (retries : Retries prepared cdb result)
    (isResult : result = some (place, after)) (mapped : CanMap cdb.sheetsSize) :
    CanMap after.sheetsSize ∧ place ≠ none := by
  induction retries with
  | found isFree =>
      cases isResult
      exact ⟨mapped, Option.some_ne_none _⟩
  | most full maximum =>
      rw [canMap_iff] at mapped
      rw [sheetsMax] at maximum
      omega
  | fails => cases isResult
  | split full room splits later ih =>
      rcases splitSheet_some splits with ⟨more, same⟩
      apply ih isResult
      rw [same, splitMapped_size]
      exact more

/-- One put does what is required of it exactly when there is memory for the
sheets of its search and its record fits. -/
theorem put_growsExactly_iff {cdb : Instance} {prepared : Prepared} {val : List UInt8} {header : Nat}
    (sized : Sized cdb) (mapped : CanMap cdb.sheetsSize)
    (unlimited : ¬ (cdb.kvdataMaximum > 0 ∧ cdb.kvdataSize > cdb.kvdataMaximum))
    (found : headerLen prepared.key.length val.length = some header) :
    GrowsExactly cdb prepared val ↔
      findPlace prepared (sheetsMax - cdb.sheetsSize) cdb ≠ none ∧ Fits cdb header prepared.key.length val.length := by
  simp only [GrowsExactly, putVal_eq sized unlimited found rfl]
  cases searched : findPlace prepared (sheetsMax - cdb.sheetsSize) cdb with
  | none => simp
  | some result =>
      rcases result with ⟨place, after⟩
      have retries := retries_of_found searched
      rcases retries.kvdata with ⟨sameData, sameSize, sameUsed, _⟩
      cases place with
      | none => exact absurd rfl (retries.mapped rfl mapped).2
      | some place =>
          simp only [Option.map_some, putFound, writeRecord, sameUsed, ne_eq, reduceCtorEq, not_false_eq_true, true_and]
          constructor
          · rintro ⟨other, again, exact, within, _⟩
            rw [found] at again
            cases again
            by_contra misfit
            rw [exact] at within
            exact not_fits_wraps sized rfl misfit exact within
          · rintro ⟨small, room⟩
            have whole := Nat.mod_eq_of_lt small
            have bound := sized.bound
            have used := sized.used
            have bounds := roundToPages_bounds (recordBytes header prepared.key.length val.length)
            refine ⟨header, found, ?_⟩
            rw [whole]
            by_cases fits : recordBytes header prepared.key.length val.length ≤ cdb.kvdataSize - cdb.kvdataUsed
            · rw [if_pos fits, Nat.mod_eq_of_lt (by omega)]
              omega
            · have grows := room.resolve_left fits
              rw [if_neg fits, Nat.mod_eq_of_lt (by omega), Nat.mod_eq_of_lt grows]
              omega

/-- The sizes after a put that fits or is refused. -/
theorem putVal_sized {cdb after : Instance} {prepared : Prepared} {val : List UInt8} {uid : Option Uid}
    (sized : Sized cdb)
    (ok : PutOk cdb prepared val.length) (put : putVal cdb prepared val = some (uid, after)) :
    Sized after ∧ after.kvdataMaximum = cdb.kvdataMaximum := by
  rcases putVal_some sized put with ⟨-, same⟩ | ⟨header, place, found, limited, chosen, retries, same⟩
  · rw [same]
    exact ⟨sized, rfl⟩
  rcases retries.kvdata with ⟨_, sameSize, sameUsed, sameMaximum⟩
  cases place with
  | none =>
      cases same
      refine ⟨⟨?_, ?_, ?_, ?_⟩, sameMaximum⟩
      · exact sameSize ▸ sized.pages
      · exact sameSize ▸ sized.bound
      · exact sameUsed ▸ sized.positive
      · exact (sameUsed.symm ▸ sameSize.symm ▸ sized.used : after.kvdataUsed ≤ after.kvdataSize)
  | some place =>
      cases same
      rcases ok with refused | nothing | ⟨other, again, small, room⟩
      · exact absurd refused limited
      · rw [chosen] at nothing
        cases nothing
      · rw [chosen] at again
        cases again
        have whole := Nat.mod_eq_of_lt small
        have bound := sized.bound
        have used := sized.used
        have pages := sized.pages
        have positive := sized.positive
        have rounded := roundToPages_mod (recordBytes header prepared.key.length val.length)
        have bounds := roundToPages_bounds (recordBytes header prepared.key.length val.length)
        simp only [pageBytes] at pages rounded
        simp only [writeRecord, sameUsed, whole]
        by_cases fits : recordBytes header prepared.key.length val.length ≤ cdb.kvdataSize - cdb.kvdataUsed
        · simp only [if_pos fits]
          refine ⟨⟨sized.pages, bound, ?_, ?_⟩, sameMaximum⟩ <;> dsimp only <;> omega
        · have grows := room.resolve_left fits
          simp only [if_neg fits]
          refine ⟨⟨?_, ?_, ?_, ?_⟩, sameMaximum⟩ <;> simp only [pageBytes] <;> omega

/-! ## Counting leaves the sizes alone -/

/-- Two instances with the same sheets and sizes of `kvdata`. -/
structure SameStore (before after : Instance) : Prop where
  kvdataSize : after.kvdataSize = before.kvdataSize
  kvdataUsed : after.kvdataUsed = before.kvdataUsed
  kvdataMaximum : after.kvdataMaximum = before.kvdataMaximum
  sheets : after.sheets = before.sheets
  sheetsSize : after.sheetsSize = before.sheetsSize
  sheetsIndex : after.sheetsIndex = before.sheetsIndex

namespace SameStore

theorem refl (cdb : Instance) : SameStore cdb cdb := ⟨rfl, rfl, rfl, rfl, rfl, rfl⟩

theorem trans {first second third : Instance} (left : SameStore first second)
    (right : SameStore second third) : SameStore first third :=
  ⟨right.kvdataSize.trans left.kvdataSize, right.kvdataUsed.trans left.kvdataUsed,
    right.kvdataMaximum.trans left.kvdataMaximum, right.sheets.trans left.sheets,
    right.sheetsSize.trans left.sheetsSize, right.sheetsIndex.trans left.sheetsIndex⟩

theorem pushFree_foldl (cs : List Nat) (cdb : Instance) : SameStore cdb (cs.foldl pushFree cdb) := by
  induction cs generalizing cdb with
  | nil => exact refl cdb
  | cons c cs ih =>
      have pushed : SameStore cdb (pushFree cdb c) := ⟨rfl, rfl, rfl, rfl, rfl, rfl⟩
      exact pushed.trans (ih (pushFree cdb c))

theorem freeCountPush {cdb after : Instance} {fromC toC : Nat}
    (pushed : SxeCdb.freeCountPush cdb fromC toC = some after) : SameStore cdb after := by
  unfold SxeCdb.freeCountPush at pushed
  split at pushed
  · cases pushed
  · cases pushed
    exact pushFree_foldl _ cdb

theorem growCounts {cdb after : Instance} (grown : SxeCdb.growCounts cdb = some after) :
    SameStore cdb after := by
  unfold SxeCdb.growCounts at grown
  dsimp only at grown
  split at grown
  · cases grown
  · rcases Option.map_eq_some_iff.mp grown with ⟨pushed, found, same⟩
    subst same
    have kept := freeCountPush found
    exact ⟨kept.kvdataSize, kept.kvdataUsed, kept.kvdataMaximum, kept.sheets, kept.sheetsSize, kept.sheetsIndex⟩

theorem freeCountPop {cdb after : Instance} {c : Nat} (popped : SxeCdb.freeCountPop cdb = some (c, after)) :
    SameStore cdb after := by
  unfold SxeCdb.freeCountPop at popped
  rcases Option.map_eq_some_iff.mp popped with ⟨ready, found, same⟩
  cases same
  split at found
  · exact trans (growCounts found) ⟨rfl, rfl, rfl, rfl, rfl, rfl⟩
  · cases found
    exact ⟨rfl, rfl, rfl, rfl, rfl, rfl⟩

theorem incNew {cdb after : Instance} {countsList thisPos count : Nat}
    (done : SxeCdb.incNew cdb countsList thisPos = some (count, after)) : SameStore cdb after := by
  unfold SxeCdb.incNew at done
  dsimp only at done
  split at done
  · rcases Option.map_eq_some_iff.mp done with ⟨⟨c, popped⟩, found, same⟩
    cases same
    exact trans (freeCountPop found) ⟨rfl, rfl, rfl, rfl, rfl, rfl⟩
  · split at done
    · rcases Option.map_eq_some_iff.mp done with ⟨⟨c, popped⟩, found, same⟩
      cases same
      exact trans (freeCountPop found) ⟨rfl, rfl, rfl, rfl, rfl, rfl⟩
    · cases done
      exact ⟨rfl, rfl, rfl, rfl, rfl, rfl⟩

theorem unlinkHkv (cdb : Instance) (thisPos thisC nextPos lastPos : Nat) :
    SameStore cdb (SxeCdb.unlinkHkv cdb thisPos thisC nextPos lastPos) := by
  unfold SxeCdb.unlinkHkv
  dsimp only
  split <;> split <;> split <;> exact ⟨rfl, rfl, rfl, rfl, rfl, rfl⟩

theorem unlinkCount {cdb after : Instance} {countsList thisC nextC lastC : Nat}
    (done : SxeCdb.unlinkCount cdb countsList thisC nextC lastC = some after) : SameStore cdb after := by
  unfold SxeCdb.unlinkCount at done
  split at done
  · rcases Option.bind_eq_some_iff.mp done with ⟨pushed, found, same⟩
    split at same
    · cases same
    · cases same
      refine trans (freeCountPush found) ?_
      split
      · exact ⟨rfl, rfl, rfl, rfl, rfl, rfl⟩
      · split <;> exact ⟨rfl, rfl, rfl, rfl, rfl, rfl⟩
  · cases done
    exact refl cdb

theorem linkHkv {cdb after : Instance} {countsList thisPos thisVal thisC nextC countNew : Nat}
    (done : SxeCdb.linkHkv cdb countsList thisPos thisVal thisC nextC countNew = some after) :
    SameStore cdb after := by
  unfold SxeCdb.linkHkv at done
  split at done
  · rcases Option.map_eq_some_iff.mp done with ⟨⟨c, popped⟩, found, same⟩
    cases same
    exact trans (freeCountPop found) ⟨rfl, rfl, rfl, rfl, rfl, rfl⟩
  · split at done
    · cases done
      exact ⟨rfl, rfl, rfl, rfl, rfl, rfl⟩
    · rcases Option.map_eq_some_iff.mp done with ⟨⟨c, popped⟩, found, same⟩
      cases same
      exact trans (freeCountPop found) ⟨rfl, rfl, rfl, rfl, rfl, rfl⟩

theorem incOld {cdb after : Instance} {countsList thisPos count : Nat}
    (done : SxeCdb.incOld cdb countsList thisPos = some (count, after)) : SameStore cdb after := by
  unfold SxeCdb.incOld at done
  dsimp only at done
  split at done
  · cases done
    exact refl cdb
  · split at done
    · cases done
      exact refl cdb
    · split at done
      · cases done
        exact ⟨rfl, rfl, rfl, rfl, rfl, rfl⟩
      · rcases Option.bind_eq_some_iff.mp done with ⟨unlinked, freed, rest⟩
        rcases Option.map_eq_some_iff.mp rest with ⟨linked, found, same⟩
        cases same
        exact trans (trans (unlinkHkv cdb _ _ _ _) (unlinkCount freed)) (linkHkv found)

end SameStore

theorem Sized.sameStore {before after : Instance} (sized : Sized before) (same : SameStore before after) :
    Sized after :=
  ⟨same.kvdataSize ▸ sized.pages, same.kvdataSize ▸ sized.bound, same.kvdataUsed ▸ sized.positive,
    by rw [same.kvdataSize, same.kvdataUsed]; exact sized.used⟩

/-! ## Reachable instances -/

theorem fresh_sized (keysAtStart maximum : Nat) : Sized (fresh keysAtStart maximum) := by
  refine ⟨?_, ?_, ?_, ?_⟩ <;> simp [fresh, pageBytes]

/-- The put that counting a new key makes. -/
theorem inc_missing {cdb after : Instance} {prepared : Prepared} {countsList count : Nat} {dummy : Fin 12 → UInt8}
    (missing : getHkvRaw cdb prepared = none) (counted : inc cdb prepared countsList dummy = some (count, after)) :
    ∃ uid middle, putVal cdb prepared (List.ofFn dummy) = some (uid, middle) ∧
      ((uid = none ∧ count = 0 ∧ after = middle) ∨
        uid ≠ none ∧ ∃ pos, getHkvRaw middle prepared = some pos ∧
          incNew middle countsList pos = some (count, after)) := by
  rw [inc, missing] at counted
  rcases Option.bind_eq_some_iff.mp counted with ⟨⟨uid, middle⟩, put, created⟩
  refine ⟨uid, middle, put, ?_⟩
  cases uid with
  | none =>
      cases created
      exact Or.inl ⟨rfl, rfl, rfl⟩
  | some uid =>
      rcases Option.bind_eq_some_iff.mp created with ⟨pos, found, counts⟩
      exact Or.inr ⟨Option.some_ne_none uid, pos, found, counts⟩

/-- The store behind a call is that of its put, if it makes one. -/
theorem step_store {sum : List UInt8 → Fin 8 → UInt16} {cdb next : Instance} {call : Call} {answer : Answer}
    (stepped : step sum cdb call = some (answer, next)) :
    (∃ key countsList dummy pos, call = .inc key countsList dummy ∧ getHkvRaw cdb (prepare sum key) = some pos ∧
        SameStore cdb next) ∨
      ∃ key val uid after, (call = .put key val ∨ ∃ countsList dummy, call = .inc key countsList dummy ∧
          val = List.ofFn dummy ∧ getHkvRaw cdb (prepare sum key) = none) ∧
        putVal cdb (prepare sum key) val = some (uid, after) ∧ SameStore after next := by
  cases call with
  | put key val =>
      rcases Option.map_eq_some_iff.mp stepped with ⟨⟨uid, after⟩, put, same⟩
      cases same
      exact Or.inr ⟨key, val, uid, _, Or.inl rfl, put, SameStore.refl _⟩
  | inc key countsList dummy =>
      rcases Option.map_eq_some_iff.mp stepped with ⟨⟨count, after⟩, counted, same⟩
      cases same
      cases found : getHkvRaw cdb (prepare sum key) with
      | some pos =>
          rw [inc, found] at counted
          exact Or.inl ⟨key, countsList, dummy, pos, rfl, found, SameStore.incOld counted⟩
      | none =>
          rcases inc_missing found counted with ⟨uid, middle, put, rest⟩
          refine Or.inr ⟨key, _, uid, middle, Or.inr ⟨countsList, dummy, rfl, rfl, found⟩, put, ?_⟩
          rcases rest with ⟨-, -, same⟩ | ⟨-, pos, -, created⟩
          · rw [same]
            exact SameStore.refl middle
          · exact SameStore.incNew created

theorem step_sized {sum : List UInt8 → Fin 8 → UInt16} {cdb next : Instance} {call : Call}
    {answer : Answer} (sized : Sized cdb) (ok : CallPutOk sum cdb call)
    (stepped : step sum cdb call = some (answer, next)) :
    Sized next ∧ next.kvdataMaximum = cdb.kvdataMaximum := by
  rcases step_store stepped with ⟨-, -, -, -, -, -, same⟩ | ⟨key, val, uid, after, isCall, put, same⟩
  · exact ⟨sized.sameStore same, same.kvdataMaximum⟩
  · have fits : PutOk cdb (prepare sum key) val.length := by
      rcases isCall with rfl | ⟨countsList, dummy, rfl, rfl, missing⟩
      · exact ok
      · rw [List.length_ofFn]
        exact ok missing
    have kept := putVal_sized sized fits put
    exact ⟨kept.1.sameStore same, same.kvdataMaximum.trans kept.2⟩

def collidingHash (_key : List UInt8) (_word : Fin 8) : UInt16 := 0

end SxeCdb
end LibKit
