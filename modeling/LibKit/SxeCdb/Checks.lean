import LibKit.SxeCdb.Headers

namespace LibKit
namespace SxeCdb

/-!
# What is checked before bytes are trusted

The links of a counter are stored as the value of its record.  Before
`sxe_cdb_instance_inc` follows the links of a record, and before a walk goes on
from a position that a caller gives, the record is tested.  The results here
say exactly which records and positions get past these tests.
-/

/-! ## Counting a key that was put -/

/-- The first word of a value, read as the node of a counter. -/
def firstWord (val : List UInt8) : Nat := Bytes.readWord (fun index => val.getD index 0) 0 4

theorem countToUse_of_holds {kvdata : Nat → UInt8} {place : Nat} {val : List UInt8}
    (holds : Bytes.Holds kvdata place val)
    (length : val.length = hkvListBytes) : countToUse kvdata place = firstWord val := by
  apply Bytes.readWord_congr
  intro index inside
  rw [Nat.zero_add]
  exact holds index (by rw [length]; exact Nat.lt_trans inside (by decide))

section

variable {cdb : Instance} {countsList thisPos : Nat}

theorem freeCountPush_pages {pushed : Instance} {fromC toC : Nat} (push : freeCountPush cdb fromC toC = some pushed) :
    pushed.countsPages = cdb.countsPages := by
  have folded (cs : List Nat) (cdb : Instance) : (cs.foldl pushFree cdb).countsPages = cdb.countsPages := by
    induction cs generalizing cdb with
    | nil => rfl
    | cons c cs ih => exact ih (pushFree cdb c)
  unfold freeCountPush at push
  split at push
  · cases push
  · rw [← Option.some.inj push, folded]

/-- Taking a free node changes the number of pages or of free nodes. -/
theorem freeCountPop_changes {popped : Instance} {c : Nat} (pop : freeCountPop cdb = some (c, popped)) :
    popped.countsPages ≠ cdb.countsPages ∨ cdb.countsFree ≠ 0 ∧ c = cdb.countsNextFree ∧
      popped.countsFree = cdb.countsFree - 1 ∧ popped.counts = cdb.counts := by
  rcases Option.map_eq_some_iff.mp pop with ⟨ready, found, same⟩
  clear pop
  cases same
  split at found
  · refine Or.inl ?_
    unfold growCounts at found
    dsimp only at found
    split at found
    · cases found
    · rcases Option.map_eq_some_iff.mp found with ⟨pushed, push, same⟩
      have pages := freeCountPush_pages push
      rw [← same]
      dsimp only at pages ⊢
      omega
  · rename_i some
    cases found
    exact Or.inr ⟨some, rfl, rfl, rfl⟩

theorem modifyCount_count (before : Instance) (c other : Nat) (change : Count → Count)
    (same : ∀ count, (change count).count = count.count) :
    ((modifyCount before c change).counts other).count = (before.counts other).count := by
  simp only [modifyCount, Function.update_apply]
  split
  · rename_i here
    rw [same, here]
  · rfl

/-- Removing a key from its chain frees at most the node of the chain. -/
theorem unlink_changes {unlinked : Instance} {thisC nextPos lastPos nextC lastC : Nat}
    (done : unlinkCount (unlinkHkv cdb thisPos thisC nextPos lastPos) countsList thisC nextC lastC = some unlinked) :
    (∀ c, (unlinked.counts c).count = (cdb.counts c).count) ∧ unlinked.countsPages = cdb.countsPages ∧
      (unlinked.countsFree = cdb.countsFree ∧ (∀ c, c ≠ thisC → (unlinked.counts c).hkv1 = (cdb.counts c).hkv1) ∨
        unlinked.countsFree = cdb.countsFree + 1 ∧ unlinked.countsNextFree = thisC ∧ nextC ≠ 0) := by
  have kept : (∀ c, ((unlinkHkv cdb thisPos thisC nextPos lastPos).counts c).count = (cdb.counts c).count) ∧
      (unlinkHkv cdb thisPos thisC nextPos lastPos).countsPages = cdb.countsPages ∧
      (unlinkHkv cdb thisPos thisC nextPos lastPos).countsFree = cdb.countsFree ∧
      ∀ c, c ≠ thisC → ((unlinkHkv cdb thisPos thisC nextPos lastPos).counts c).hkv1 = (cdb.counts c).hkv1 := by
    unfold unlinkHkv
    dsimp only
    split <;> split <;> split <;>
      refine ⟨fun c => by first | rfl | exact modifyCount_count _ _ _ _ (by intro; rfl), rfl, rfl,
        fun c differ => ?_⟩ <;>
      first | rfl | exact congrArg Count.hkv1 (Function.update_of_ne differ _ _)
  generalize unlinkHkv cdb thisPos thisC nextPos lastPos = middle at done kept
  rcases kept with ⟨sameCounts, samePages, sameFree, sameHkv⟩
  unfold unlinkCount at done
  split at done
  · rcases Option.bind_eq_some_iff.mp done with ⟨pushed, push, rest⟩
    have isPushed : pushed = pushFree middle thisC := by
      unfold freeCountPush at push
      split at push
      · cases push
      · rw [Nat.add_sub_cancel_left] at push
        exact (Option.some.inj push).symm
    have counts : ∀ c, (pushed.counts c).count = (cdb.counts c).count := by
      intro c
      rw [isPushed, ← sameCounts]
      exact modifyCount_count middle thisC c (fun count => { count with next := middle.countsNextFree }) fun _ => rfl
    have pages : pushed.countsPages = cdb.countsPages := by rw [isPushed, ← samePages]; rfl
    have free : pushed.countsFree = cdb.countsFree + 1 := by rw [isPushed, ← sameFree]; rfl
    have nextFree : pushed.countsNextFree = thisC := by rw [isPushed]; rfl
    split at rest
    · cases rest
    · rename_i next
      have before := fun c =>
        (modifyCount_count pushed nextC c (fun count => { count with last := lastC }) fun _ => rfl).trans (counts c)
      rw [← Option.some.inj rest]
      split
      · refine ⟨fun c => ?_, pages, Or.inr ⟨free, nextFree, next⟩⟩
        rw [modifyCount_count _ _ _ _ (by intro; rfl), before]
      · split <;> exact ⟨before, pages, Or.inr ⟨free, nextFree, next⟩⟩
  · cases done
    exact ⟨sameCounts, samePages, Or.inl ⟨sameFree, sameHkv⟩⟩

theorem hkvUnpack_congr {first second : Nat → UInt8} {pos : Nat}
    (same : ∀ index, index < 8 → first (pos + index) = second (pos + index)) :
    hkvUnpack first pos = hkvUnpack second pos := by
  have word (start width : Nat) (inside : start + width ≤ 8) :
      Bytes.readWord first (pos + start) width = Bytes.readWord second (pos + start) width := by
    apply Bytes.readWord_congr
    intro index below
    rw [Nat.add_assoc]
    exact same (start + index) (by omega)
  have start := same 0 (by decide)
  rw [Nat.add_zero] at start
  simp only [hkvUnpack, start, word 1 3 (by decide), word 4 4 (by decide), word 1 2 (by decide), word 3 2 (by decide)]

theorem countToUse_joined {pos c next last : Nat} (field : c < 2 ^ 32) {kvdata : Nat → UInt8}
    (joined : (setLastHkvPos (setLinks cdb (hkvUnpack kvdata pos).val c next last)
      (hkvUnpack (setLinks cdb (hkvUnpack kvdata pos).val c next last).kvdata pos).val pos).kvdata = kvdata) :
    countToUse kvdata (hkvUnpack kvdata pos).val = c := by
  have outside (memory : Nat → UInt8) (place word : Nat) {index : Nat} (before : index < place) :
      Bytes.write memory place (Bytes.encodeWord 4 word) index = memory index := Bytes.write_outside (Or.inl before)
  have behind (memory : Nat → UInt8) : pos ≤ (hkvUnpack memory pos).val := by
    rw [hkvUnpack_val, hkvUnpack_key, Nat.add_assoc]
    exact Nat.le_add_right _ _
  generalize linked : setLinks cdb (hkvUnpack kvdata pos).val c next last = middle at joined
  have same : hkvUnpack middle.kvdata pos = hkvUnpack kvdata pos := by
    apply hkvUnpack_congr
    intro index bound
    have start := behind middle.kvdata
    rw [← joined]
    exact (outside _ _ _ (by omega)).symm
  rw [same] at joined
  have bytes : countToUse kvdata (hkvUnpack kvdata pos).val = countToUse middle.kvdata (hkvUnpack kvdata pos).val := by
    apply Bytes.readWord_congr
    intro index bound
    exact (congrFun joined _).symm.trans (outside _ _ _ (by omega))
  rw [bytes, ← linked]
  refine (Bytes.readWord_congr fun index bound => ?_).trans
    (@Bytes.readWord_write cdb.kvdata (hkvUnpack kvdata pos).val 4 c field)
  exact (outside _ _ _ (by omega)).trans (outside _ _ _ (by omega))

/-- Counting a record that gets past both tests is not refused: if its count is
that of no call, zero, then something has changed. -/
theorem incOld_trusts (length : (hkvUnpack cdb.kvdata thisPos).valLen = hkvListBytes)
    (node : countToUse cdb.kvdata (hkvUnpack cdb.kvdata thisPos).val < cdb.countsSize)
    (field : (cdb.counts (countToUse cdb.kvdata (hkvUnpack cdb.kvdata thisPos).val)).next < 2 ^ 32) :
    incOld cdb countsList thisPos ≠ some (0, cdb) := by
  intro counted
  unfold incOld at counted
  dsimp only at counted
  rw [if_neg (not_not_intro length), if_neg (Nat.not_le_of_lt node)] at counted
  generalize isVal : (hkvUnpack cdb.kvdata thisPos).val = val at *
  generalize isC : countToUse cdb.kvdata val = thisC at *
  split at counted
  · rcases Prod.mk.inj (Option.some.inj counted) with ⟨zero, same⟩
    have count := congrArg (fun after => (after.counts thisC).count) same
    simp only [modifyCount, Function.update_self] at count
    omega
  · rcases Option.bind_eq_some_iff.mp counted with ⟨unlinked, freed, rest⟩
    rcases Option.map_eq_some_iff.mp rest with ⟨linked, link, same⟩
    rcases Prod.mk.inj same with ⟨zero, isSame⟩
    have nonzero : (cdb.counts thisC).count ≠ 0 := by omega
    rcases unlink_changes freed with ⟨counts, pages, freeing⟩
    rw [isSame, zero] at link
    generalize (cdb.counts thisC).next = nextC at *
    unfold linkHkv at link
    split at link
    · rename_i last
      rcases Option.map_eq_some_iff.mp link with ⟨⟨c, popped⟩, pop, after⟩
      have free : popped.countsFree = cdb.countsFree := (congrArg Instance.countsFree after :)
      have samePages : popped.countsPages = cdb.countsPages := (congrArg Instance.countsPages after :)
      rcases freeCountPop_changes pop with differ | ⟨some, -, less, -⟩
      · exact differ (samePages.trans pages.symm)
      · rcases freeing with ⟨sameFree, -⟩ | ⟨-, -, next⟩
        · omega
        · exact next last
    · split at link
      · rename_i joins
        have after := Option.some.inj link
        have free : unlinked.countsFree = cdb.countsFree := (congrArg Instance.countsFree after :)
        have apart : nextC ≠ thisC := by
          rintro rfl
          rw [counts] at joins
          exact nonzero joins
        rcases freeing with ⟨-, heads⟩ | ⟨more, -⟩
        · have head : (cdb.counts nextC).hkv1 = thisPos := by
            have own := congrArg (fun after => (after.counts nextC).hkv1) after
            simp only [modifyCount, Function.update_self] at own
            exact own.symm
          rw [heads nextC apart, head, ← isVal] at after
          have use := countToUse_joined field (congrArg Instance.kvdata after :)
          rw [isVal, isC] at use
          exact apart use.symm
        · omega
      · rcases Option.map_eq_some_iff.mp link with ⟨⟨c, popped⟩, pop, after⟩
        have free : popped.countsFree = cdb.countsFree := (congrArg Instance.countsFree after :)
        have samePages : popped.countsPages = cdb.countsPages := (congrArg Instance.countsPages after :)
        rcases freeCountPop_changes pop with differ | ⟨some, isFirst, less, samePopped⟩
        · exact differ (samePages.trans pages.symm)
        · rcases freeing with ⟨sameFree, -⟩ | ⟨more, first, -⟩
          · omega
          · rw [first] at isFirst
            subst isFirst
            have count := congrArg (fun after => (after.counts c).count) after
            dsimp only at count
            rw [modifyCount_count _ _ _ _ (by intro; rfl), modifyCount_count _ _ _ _ (by intro; rfl)] at count
            simp only [modifyCount, Function.update_self] at count
            exact nonzero count.symm

theorem incOld_distrusts
    (refused : ¬ ((hkvUnpack cdb.kvdata thisPos).valLen = hkvListBytes ∧
      countToUse cdb.kvdata (hkvUnpack cdb.kvdata thisPos).val < cdb.countsSize)) :
    incOld cdb countsList thisPos = some (0, cdb) := by
  unfold incOld
  dsimp only
  by_cases length : (hkvUnpack cdb.kvdata thisPos).valLen = hkvListBytes
  · rw [if_neg (not_not_intro length), if_pos (Nat.le_of_not_lt fun node => refused ⟨length, node⟩)]
  · rw [if_pos length]

end

/-- Counting a key whose lookup leads to a record as a put writes it is refused
without a change exactly when the value is not twelve bytes long or its first
word is not the number of a counter node, whose field `next` has 32 bits. -/
theorem inc_refused_iff {cdb : Instance} {prepared : Prepared} {val : List UInt8} {header pos : Nat}
    (found : getHkvRaw cdb prepared = some pos) (chosen : headerLen prepared.key.length val.length = some header)
    (holds : Bytes.Holds cdb.kvdata pos (record header prepared.key val))
      (field : (cdb.counts (firstWord val)).next < 2 ^ 32)
    (countsList : Nat) (dummy : Fin 12 → UInt8) :
    inc cdb prepared countsList dummy = some (0, cdb) ↔
      ¬ (val.length = hkvListBytes ∧ firstWord val < cdb.countsSize) := by
  have whole := hkvUnpack_record chosen holds
  have node : val.length = hkvListBytes →
      countToUse cdb.kvdata (hkvUnpack cdb.kvdata pos).val = firstWord val := by
    intro length
    rw [whole]
    exact countToUse_of_holds (record_val chosen holds) length
  have length : (hkvUnpack cdb.kvdata pos).valLen = val.length := by rw [whole]
  rw [inc, found]
  constructor
  · rintro refused ⟨isLength, isNode⟩
    rw [← node isLength] at isNode field
    exact incOld_trusts (length.trans isLength) isNode field refused
  · intro refused
    apply incOld_distrusts
    rintro ⟨isLength, isNode⟩
    rw [length] at isLength
    rw [node isLength] at isNode
    exact refused ⟨isLength, isNode⟩

/-- The key `a` was put with the value `1`. -/
theorem inc_refused_short :
    inc (stateAfter [(.put [97] [1], .uid (some ⟨0, 0, 0⟩))]) (prepare collidingHash [97]) 0 (fun _ => 0) =
      some (0, stateAfter [(.put [97] [1], .uid (some ⟨0, 0, 0⟩))]) := by
  refine (@inc_refused_iff _ _ [1] 1 1 (by decide +kernel) (by decide) ?_ (by decide +kernel) 0 fun _ => 0).mpr
    (by decide)
  exact Bytes.holds_of_read (by decide +kernel)

/-- Twelve bytes put for the key `a` are taken for the links of a counter. -/
theorem inc_trusts_value :
    newInit 0 0 = some (fresh 0 0) ∧
      Run (step collidingHash) (fun _ _ _ => True) (fresh 0 0) (disguisedHistory.drop 1)
        (stateAfter (disguisedHistory.drop 1)) ∧
      (Call.put [97] [1, 0, 0, 0, 1, 0, 0, 0, 0, 0, 0, 0], Answer.uid (some ⟨0, 0, 1⟩)) ∈ disguisedHistory.drop 1 ∧
      inc (stateAfter (disguisedHistory.drop 1)) (prepare collidingHash [97]) 0 (fun _ => 0) ≠
        some (0, stateAfter (disguisedHistory.drop 1)) := by
  refine ⟨rfl, ?_, List.mem_cons_self, ?_⟩
  · refine Run.step (Run.step (Run.step Run.start trivial (@step_stateAfter [] _ _ ?_)) trivial
      (step_stateAfter ?_)) trivial
      (step_stateAfter ?_)
    · decide +kernel
    · decide +kernel
    · decide +kernel
  · intro refused
    have counted : (inc (stateAfter (disguisedHistory.drop 1)) (prepare collidingHash [97]) 0 fun _ =>
      0).map Prod.fst = some 2 := by
      decide +kernel
    rw [refused] at counted
    exact absurd counted (by decide)

/-! ## Positions of a walk -/

/-- `sxe_cdb_instance_walk_pos_is_bad`; the sums are made in 32 bits.  There is
no result of reading beyond the end of `kvdata`. -/
def walkPosIsBad (cdb : Instance) (cntPos hkvPos : Nat) : Option Bool :=
  if cntPos ≠ 0 ∧ hkvPos ≠ 0 then
    if cntPos > cdb.countsSize then some true
    else if (hkvPos + 1) % 2 ^ 32 > cdb.kvdataUsed then some true
    else if hkvPos ≥ cdb.kvdataSize then none
    else if (hkvPos + hLen cdb.kvdata hkvPos) % 2 ^ 32 > cdb.kvdataUsed then some true
    else if hkvPos + hLen cdb.kvdata hkvPos > cdb.kvdataSize then none
    else if (hkvPos + hkvLen cdb.kvdata hkvPos) % 2 ^ 32 > cdb.kvdataUsed then some true
    else
      let part := hkvUnpack cdb.kvdata hkvPos
      if part.valLen = hkvListBytes then
        if part.val + 4 > cdb.kvdataSize then none
        else some (decide (countToUse cdb.kvdata part.val ≠ cntPos))
      else some false
  else some false

end SxeCdb
end LibKit
