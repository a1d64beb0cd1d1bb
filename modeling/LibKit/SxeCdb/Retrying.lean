import LibKit.SxeCdb.Splitting

namespace LibKit
namespace SxeCdb

/-!
# Puts that split

A put may split sheets before it enters its record or fails.  A call is unstuck
if its key is, and in a run of unstuck calls every sheet stays in use.
-/

section

variable {cdb : Instance}

/-! ## Puts -/

theorem Retries.free {prepared : Prepared} {place : Place} {found : Instance}
    {result : Option (Option Place × Instance)}
    (retries : Retries prepared cdb result) (isFound : result = some (some place, found)) :
    Free found prepared place := by
  induction retries with
  | found isFree =>
      cases isFound
      exact freeCell_free isFree
  | most => cases isFound
  | fails => cases isFound
  | split _ _ _ _ ih => exact ih isFound

/-- A record is entered in the sheet that its hash leads to. -/
theorem Housed.setCell {after : Instance} (housed : Housed cdb) {prepared : Prepared} {place : Place}
    (free : Free cdb prepared place) {pos : Nat} (size : after.sheetsSize = cdb.sheetsSize)
    (index : after.sheetsIndex = cdb.sheetsIndex)
    (sheets : after.sheets = SxeCdb.setCell cdb.sheets place.sheet place.row place.cell ⟨prepared.hash1,
      prepared.hash0, pos⟩) :
    Housed after := by
  have rows : place.row < rowsPerSheet := by
    rcases free.row with isRow | isRow <;> rw [isRow] <;> exact Nat.mod_lt _ (by decide)
  refine ⟨?_, ?_, ?_⟩
  · rw [index, size]
    exact housed.indexes
  · intro s r c used
    rw [sheets, SxeCdb.setCell] at used
    split at used
    · rename_i here
      rw [here.2.1, here.2.2]
      exact ⟨rows, free.cell⟩
    · exact housed.bounds used
  · intro s r c used
    rw [index]
    rw [sheets, SxeCdb.setCell] at used ⊢
    split at used
    · rename_i here
      rw [if_pos here, here.1]
      exact free.sheet
    · rename_i other
      rw [if_neg other]
      exact housed.sheet used

/-- A put gets as far as looking for a free cell. -/
def Admitted (cdb : Instance) (prepared : Prepared) (valLen : Nat) : Prop :=
  ¬ (cdb.kvdataMaximum > 0 ∧ cdb.kvdataSize > cdb.kvdataMaximum) ∧ headerLen prepared.key.length valLen ≠ none

instance (prepared : Prepared) (valLen : Nat) : Decidable (Admitted cdb prepared valLen) :=
  inferInstanceAs (Decidable (_ ∧ _))

def putSplits (cdb : Instance) (prepared : Prepared) (valLen : Nat) : List (Instance × Nat) :=
  if Admitted cdb prepared valLen then splitsOf prepared (sheetsMax - cdb.sheetsSize) cdb else []

/-- A put leaves the instance as it is, looks for a cell in vain, or enters its
record. -/
theorem putVal_cases {after : Instance} {prepared : Prepared} {val : List UInt8} {uid : Option Uid}
    (put : putVal cdb prepared val = some (uid, after)) :
    (¬ Admitted cdb prepared val.length ∧ uid = none ∧ after = cdb) ∨
      Admitted cdb prepared val.length ∧ ∃ place found,
        findPlace prepared (sheetsMax - cdb.sheetsSize) cdb = some (place, found) ∧
          ((uid = none ∧ after = found) ∨ ∃ isPlace pos, place = some isPlace ∧ uid ≠ none ∧
            after.sheetsSize = found.sheetsSize ∧ after.sheetsIndex = found.sheetsIndex ∧
            after.sheets = setCell found.sheets isPlace.sheet isPlace.row isPlace.cell
              ⟨prepared.hash1, prepared.hash0, pos⟩) := by
  by_cases limited : cdb.kvdataMaximum > 0 ∧ cdb.kvdataSize > cdb.kvdataMaximum
  · rw [putVal, if_pos limited] at put
    cases put
    exact Or.inl ⟨fun admitted => admitted.1 limited, rfl, rfl⟩
  cases chosen : headerLen prepared.key.length val.length with
  | none =>
      simp only [putVal, if_neg limited, chosen] at put
      cases put
      exact Or.inl ⟨fun admitted => admitted.2 chosen, rfl, rfl⟩
  | some header =>
      simp only [putVal, if_neg limited, chosen] at put
      rcases Option.map_eq_some_iff.mp put with ⟨⟨place, found⟩, searched, made⟩
      refine Or.inr ⟨⟨limited, by rw [chosen]; exact Option.some_ne_none header⟩, place, found, searched, ?_⟩
      cases place with
      | none =>
          cases made
          exact Or.inl ⟨rfl, rfl⟩
      | some place =>
          dsimp only at made
          cases grew : growKvdata found ((header + prepared.key.length + val.length) % 2 ^ 32) with
          | none =>
              rw [grew] at made
              cases made
              exact Or.inl ⟨rfl, rfl⟩
          | some grown =>
              rw [grew] at made
              cases made
              refine Or.inr ⟨place, grown.kvdataUsed, rfl, Option.some_ne_none _, ?_⟩
              unfold growKvdata at grew
              dsimp only at grew
              split at grew
              · split at grew
                · cases grew
                · cases grew
                  exact ⟨rfl, rfl, rfl⟩
              · cases grew
                exact ⟨rfl, rfl, rfl⟩

theorem putVal_housed {after : Instance} {prepared : Prepared} {val : List UInt8} {uid : Option Uid}
    (housed : Housed cdb)
    (put : putVal cdb prepared val = some (uid, after)) : Housed after := by
  rcases putVal_cases put with ⟨-, -, rfl⟩ | ⟨-, place, found, searched, more⟩
  · exact housed
  · have retries := retries_of_found searched
    have rehoused := (retries.rehoused housed rfl).housed
    rcases more with ⟨-, rfl⟩ | ⟨isPlace, pos, rfl, -, size, index, sheets⟩
    · exact rehoused
    · exact rehoused.setCell (retries.free rfl) size index sheets

theorem putVal_mapped {after : Instance} {prepared : Prepared} {val : List UInt8} {uid : Option Uid}
    (mapped : CanMap cdb.sheetsSize) (put : putVal cdb prepared val = some (uid, after)) : CanMap after.sheetsSize := by
  rcases putVal_cases put with ⟨-, -, rfl⟩ | ⟨-, place, found, searched, more⟩
  · exact mapped
  · have later := ((retries_of_found searched).mapped rfl mapped).1
    rcases more with ⟨-, rfl⟩ | ⟨isPlace, pos, -, -, size, -, -⟩
    · exact later
    · rw [size]
      exact later

theorem putVal_covered {after : Instance} {prepared : Prepared} {val : List UInt8} {uid : Option Uid}
    (housed : Housed cdb)
    (covered : Covered cdb) (put : putVal cdb prepared val = some (uid, after))
    (useful : Useful (putSplits cdb prepared val.length)) : Covered after := by
  rcases putVal_cases put with ⟨-, -, rfl⟩ | ⟨admitted, place, found, searched, more⟩
  · exact covered
  · rw [putSplits, if_pos admitted] at useful
    have later := findPlace_covered housed covered searched useful
    rcases more with ⟨-, rfl⟩ | ⟨isPlace, pos, -, -, size, index, -⟩
    · exact later
    · rw [Covered, size, index]
      exact later

theorem putVal_none_sameLookups {after : Instance} {prepared : Prepared} {val : List UInt8} (housed : Housed cdb)
    (failed : putVal cdb prepared val = some (none, after)) : SameLookups cdb after := by
  rcases putVal_cases failed with ⟨-, -, rfl⟩ | ⟨-, place, found, searched, ⟨-, rfl⟩ | ⟨isPlace, pos, -, done, -⟩⟩
  · exact housed.rehoused.sameLookups housed
  · exact ((retries_of_found searched).rehoused housed rfl).sameLookups housed
  · exact absurd rfl done

end

/-! ## Runs -/

/-- The put that a call makes, if any, and the length of its value. -/
def putOfCall (sum : List UInt8 → Fin 8 → UInt16) (cdb : Instance) : Call → Option (List UInt8 × Nat)
  | .put key val => some (key, val.length)
  | .inc key _ _ => if getHkvRaw cdb (prepare sum key) = none then some (key, hkvListBytes) else none

def callSplits (sum : List UInt8 → Fin 8 → UInt16) (cdb : Instance) (call : Call) : List (Instance × Nat) :=
  match putOfCall sum cdb call with
  | some (key, valLen) => putSplits cdb (prepare sum key) valLen
  | none => []

/-- The key that a call puts is not stuck, unless the put is refused. -/
def Unstuck (sum : List UInt8 → Fin 8 → UInt16) (cdb : Instance) (call : Call) : Prop :=
  ∀ key valLen, putOfCall sum cdb call = some (key, valLen) → Admitted cdb (prepare sum key) valLen →
    ¬ Stuck cdb (prepare sum key)

/-- The splits of a call are useful exactly if its key is not stuck. -/
theorem callSplits_useful_iff {sum : List UInt8 → Fin 8 → UInt16} {cdb : Instance} (housed : Housed cdb) (call : Call) :
    Useful (callSplits sum cdb call) ↔ Unstuck sum cdb call := by
  rw [callSplits, Unstuck]
  cases putOfCall sum cdb call with
  | none => exact iff_of_true (fun split member => absurd member List.not_mem_nil) nofun
  | some put =>
      rcases put with ⟨key, valLen⟩
      have all : (∀ key' valLen', some (key, valLen) = some (key', valLen') → Admitted cdb (prepare sum key') valLen' →
          ¬ Stuck cdb (prepare sum key')) ↔ (Admitted cdb (prepare sum key) valLen →
            ¬ Stuck cdb (prepare sum key)) := by
        refine ⟨fun given => given key valLen rfl, fun given key' valLen' same => ?_⟩
        cases same
        exact given
      rw [all]
      dsimp only
      rw [putSplits]
      by_cases admitted : Admitted cdb (prepare sum key) valLen
      · rw [if_pos admitted, useful_iff housed _ _ (by omega)]
        exact ⟨fun given _ => given, fun given => given admitted⟩
      · rw [if_neg admitted]
        exact iff_of_true (fun split member => absurd member List.not_mem_nil) fun given => absurd given admitted

theorem step_cases {sum : List UInt8 → Fin 8 → UInt16} {cdb next : Instance} {call : Call} {answer : Answer}
    (stepped : step sum cdb call = some (answer, next)) :
    (putOfCall sum cdb call = none ∧ SameStore cdb next) ∨
      ∃ key val uid after, putOfCall sum cdb call = some (key, val.length) ∧
        putVal cdb (prepare sum key) val = some (uid, after) ∧ SameStore after next := by
  rcases step_store stepped with ⟨key, l, dummy, pos, rfl, found, same⟩ | ⟨key, val, uid, after, isCall, put, same⟩
  · refine Or.inl ⟨?_, same⟩
    rw [putOfCall, found]
    rfl
  · refine Or.inr ⟨key, val, uid, after, ?_, put, same⟩
    rcases isCall with rfl | ⟨l, dummy, rfl, rfl, missing⟩
    · rfl
    · rw [putOfCall, if_pos missing, List.length_ofFn]
      rfl

theorem SameStore.housed {before after : Instance} (same : SameStore before after) (housed : Housed before) :
    Housed after := by
  refine ⟨?_, ?_, ?_⟩
  · rw [same.sheetsIndex, same.sheetsSize]
    exact housed.indexes
  · rw [same.sheets]
    exact housed.bounds
  · rw [same.sheets, same.sheetsIndex]
    exact housed.sheet

theorem step_housed {sum : List UInt8 → Fin 8 → UInt16} {cdb next : Instance} {call : Call} {answer : Answer}
    (housed : Housed cdb) (stepped : step sum cdb call = some (answer, next)) : Housed next := by
  rcases step_cases stepped with ⟨-, same⟩ | ⟨key, val, uid, after, -, put, same⟩
  · exact same.housed housed
  · exact same.housed (putVal_housed housed put)

theorem step_mapped {sum : List UInt8 → Fin 8 → UInt16} {cdb next : Instance} {call : Call} {answer : Answer}
    (mapped : CanMap cdb.sheetsSize) (stepped : step sum cdb call = some (answer, next)) : CanMap next.sheetsSize := by
  rcases step_cases stepped with ⟨-, same⟩ | ⟨key, val, uid, after, -, put, same⟩
  · rw [same.sheetsSize]
    exact mapped
  · rw [same.sheetsSize]
    exact putVal_mapped mapped put

theorem step_covered {sum : List UInt8 → Fin 8 → UInt16} {cdb next : Instance} {call : Call} {answer : Answer}
    (housed : Housed cdb) (covered : Covered cdb) (useful : Useful (callSplits sum cdb call))
    (stepped : step sum cdb call = some (answer, next)) : Covered next := by
  rcases step_cases stepped with ⟨-, same⟩ | ⟨key, val, uid, after, isPut, put, same⟩
  · rw [Covered, same.sheetsIndex, same.sheetsSize]
    exact covered
  · rw [callSplits, isPut] at useful
    rw [Covered, same.sheetsIndex, same.sheetsSize]
    exact putVal_covered housed covered put useful

theorem initIndex_eq {sheetIndexMax : Nat} (si : Nat) (bound : si < sheetIndexMax) :
    initIndex sheetIndexMax si = si := by
  induction si with
  | zero => rfl
  | succ si ih =>
      rw [initIndex, ih (by omega)]
      exact if_neg (by omega)

theorem fresh_housed (keysAtStart maximum : Nat) : Housed (fresh keysAtStart maximum) :=
  (fresh_indexed (fun _ _ => 0) keysAtStart maximum).housed

theorem fresh_covered {keysAtStart maximum : Nat} (mapped : CanMap (fresh keysAtStart maximum).sheetsSize) :
    Covered (fresh keysAtStart maximum) := by
  rw [canMap_iff] at mapped
  intro sheet inside
  have size : (fresh keysAtStart maximum).sheetsSize =
      if keysAtStart / keysPerSheet * 2 = 0 then 1 else keysAtStart / keysPerSheet * 2 := rfl
  have few : sheet < sheetsMax := Nat.lt_trans (Nat.lt_trans inside mapped) (by decide)
  rw [size] at inside
  split at inside
  · exact ⟨0, by decide, (Nat.lt_one_iff.mp inside).symm⟩
  · exact ⟨sheet, few, initIndex_eq sheet inside⟩

/-- The indexes lead to all sheets and to nothing else, looking for a free cell
ends, with a result if there is room, a put that fails changes no lookup, and the
splits of a call are useful unless its key is stuck. -/
structure SplitsWell (sum : List UInt8 → Fin 8 → UInt16) (cdb : Instance) : Prop where
  below : ∀ si, si < sheetsMax → cdb.sheetsIndex si < cdb.sheetsSize
  covered : Covered cdb
  ends : ∀ prepared, Retries prepared cdb (findPlace prepared (sheetsMax - cdb.sheetsSize) cdb)
  returns : ∀ prepared, findPlace prepared (sheetsMax - cdb.sheetsSize) cdb ≠ none ↔ Room cdb prepared
  unchanged : ∀ prepared val after, putVal cdb prepared val = some (none, after) → SameLookups cdb after
  useful : ∀ call, Useful (callSplits sum cdb call) ↔ Unstuck sum cdb call

/-- In every state reached by calls whose keys are not stuck, all sheets are in
use and looking for a free cell ends; a put that fails changes no lookup; and the
next call makes useful splits exactly if its key is not stuck. -/
theorem cdb_splits_well (sum : List UInt8 → Fin 8 → UInt16) (keysAtStart maximum : Nat) (start : Instance)
    (created : newInit keysAtStart maximum = some start) (history : History Call Answer) (cdb : Instance)
    (run : Run (step sum) (fun _ cdb call => Unstuck sum cdb call) start history cdb) : SplitsWell sum cdb := by
  rcases newInit_eq created with ⟨canMap, rfl⟩
  have holds := run.invariant (fun _ cdb => Housed cdb ∧ CanMap cdb.sheetsSize ∧ Covered cdb)
    ⟨fresh_housed keysAtStart maximum, canMap, fresh_covered canMap⟩ fun _ cdb call _ _ all unstuck stepped =>
      ⟨step_housed all.1 stepped, step_mapped all.2.1 stepped,
        step_covered all.1 all.2.2 ((callSplits_useful_iff all.1 call).mpr unstuck) stepped⟩
  rcases holds with ⟨housed, mapped, covered⟩
  have ends := fun prepared => @findPlace_retries cdb prepared (sheetsMax - cdb.sheetsSize) (by omega)
  exact ⟨housed.indexes, covered, ends, fun prepared => (ends prepared).returns_iff housed mapped,
    fun prepared val after failed => putVal_none_sameLookups housed failed, callSplits_useful_iff housed⟩

/-- The calls that put one key until both of its rows are full. -/
def fullHistory : Nat → History Call Answer
  | 0 => []
  | n + 1 =>
      (.put [97] [], .uid (some ⟨0, if n % 2 = 0 then 0 else 1, n / 2⟩)) :: fullHistory n

theorem fullHistory_run {sum : List UInt8 → Fin 8 → UInt16}
    (same : prepare sum [97] = prepare collidingHash [97]) (n : Nat)
    (bound : n ≤ 32) :
    Run (step sum) (fun _ cdb call => Unstuck sum cdb call) (fresh 0 0) (fullHistory n)
      (stateAfter (fullHistory n)) := by
  induction n with
  | zero => exact Run.start
  | succ n ih =>
      have answered : ∀ n < 32, (step collidingHash (stateAfter (fullHistory n)) (.put [97] [])).map Prod.fst =
          some (.uid (some ⟨0, if n % 2 = 0 then 0 else 1, n / 2⟩)) := by decide +kernel
      have free : ∀ n < 32, freeCell (stateAfter (fullHistory n)) (prepare collidingHash [97]) ≠ none :=
        by decide +kernel
      refine Run.step (ih (Nat.le_of_succ_le bound)) ?_ ?_
      · rintro key valLen isPut - ⟨crowded, -⟩
        cases isPut
        rw [same] at crowded
        exact free n bound ((freeCell_eq_none_iff _).mpr crowded.full)
      · rw [step, same]
        exact step_stateAfter (answered n bound)

theorem fullHistory_rows : ∀ row ∈ [1, 0], ∀ c < 16, ((stateAfter (fullHistory 32)).sheets 0 row c).hkvPos ≠ 0 ∧
    ((stateAfter (fullHistory 32)).sheets 0 row c).hashHi.toNat % sheetsMax = 0 := by
  decide +kernel

theorem fullHistory_housed : Housed (stateAfter (fullHistory 32)) :=
  (fullHistory_run rfl 32 (Nat.le_refl 32)).invariant (fun _ cdb => Housed cdb)
  (fresh_housed 0 0) fun _ _ _ _ _ housed _ stepped =>
    step_housed housed stepped

/-- The next put of the key makes thirteen splits that leave its index alone, and
then splits of which no index leads to the new sheet. -/
theorem stuck_key_strands_sheets :
    newInit 0 0 = some (fresh 0 0) ∧
      Run (step collidingHash) (fun _ cdb call => Unstuck collidingHash cdb call) (fresh 0 0) (fullHistory 32)
        (stateAfter (fullHistory 32)) ∧
      ¬ Useful (callSplits collidingHash (stateAfter (fullHistory 32)) (.put [97] [])) := by
  refine ⟨rfl, fullHistory_run rfl 32 (Nat.le_refl 32), ?_⟩
  have sheet : (stateAfter (fullHistory 32)).sheetsIndex (prepare collidingHash [97]).sheetIndex = 0 :=
    by decide +kernel
  rw [callSplits_useful_iff fullHistory_housed]
  intro unstuck
  refine unstuck [97] 0 rfl (by decide +kernel) ⟨?_, 13, ⟨?_, ?_⟩, by decide +kernel⟩
  · intro row isRow c bound
    rw [sheet]
    refine fullHistory_rows row ?_ c bound
    rcases isRow with rfl | rfl <;> decide +kernel
  · exact Nat.lt_of_le_of_lt (Nat.count_le _) (sheetIndex_lt _)
  · exact Nat.le_trans (Nat.count_le _) (Nat.le_add_left sheetsMax _)

/-- The key `b` has another index than the key `a`, and the same rows. -/
def splitHash (key : List UInt8) (word : Fin 8) : UInt16 := if key = [98] ∧ word.val = 0 then 1 else 0

/-- The rows of both keys are full, and a split frees those of the key `b`. -/
theorem splitHash_stepped : ∃ answer cdb,
    step splitHash (stateAfter (fullHistory 32)) (.put [98] []) = some (answer, cdb) ∧ cdb.sheetsSize = 2 := by
  have size : (stateAfter (fullHistory 32)).sheetsSize = 1 := by decide +kernel
  have full : freeCell (stateAfter (fullHistory 32)) (prepare splitHash [98]) = none := by decide +kernel
  have unlimited : (stateAfter (fullHistory 32)).kvdataMaximum = 0 := by decide +kernel
  have sized : Sized (stateAfter (fullHistory 32)) := by
    refine ⟨?_, ?_, ?_, ?_⟩ <;> decide +kernel
  rcases findPlace_once fullHistory_housed (by rw [size]; decide) ((freeCell_eq_none_iff _).mp full)
    (by decide : 0 < keysPerRow) (by decide +kernel) with ⟨place, searched⟩
  generalize stateAfter (fullHistory 32) = cdb at *
  have put := @putVal_eq cdb (prepare splitHash [98]) [] 1 sized (by rw [unlimited]; omega) rfl _ rfl
  rw [searched, Option.map_some] at put
  refine ⟨_, _, by rw [step, put, Option.map_some], ?_⟩
  exact (splitMapped_size _ _).trans (congrArg (· + 1) size)

/-- The last call of the run splits a sheet. -/
theorem cdb_splits_well_split : ∃ cdb, cdb.sheetsSize = 2 ∧ SplitsWell splitHash cdb := by
  rcases splitHash_stepped with ⟨answer, cdb, stepped, size⟩
  have unstuck : Unstuck splitHash (stateAfter (fullHistory 32)) (.put [98] []) := by
    rintro key valLen same - ⟨crowded, -⟩
    cases same
    have index := (crowded _ (Or.inl rfl) 0 (by decide)).2
    revert index
    decide +kernel
  exact ⟨cdb, size, cdb_splits_well splitHash 0 0 (fresh 0 0) rfl _ cdb
    (Run.step (fullHistory_run (by simp [prepare, splitHash, collidingHash]) 32 (Nat.le_refl 32)) unstuck stepped)⟩

end SxeCdb
end LibKit
