import LibKit.SxeCdb.Headers
import LibKit.SxeCdb.Retrying

namespace LibKit
namespace SxeCdb

/-!
# Puts that need too much

A put that does what is required of it finds room for a cell before there are
4096 sheets, and its record leaves `kvdata` below 4 GiB.  Nothing else goes
wrong with the sizes of an instance.
-/

/-- In every instance without a maximum that is reached by calls whose puts fit or
are refused, the next put behaves as required exactly when there is room for its
cell and its record fits. -/
theorem kvdata_never_wraps_iff (sum : List UInt8 → Fin 8 → UInt16) (keysAtStart : Nat)
    (start : Instance) (created : newInit keysAtStart 0 = some start)
    (history : History Call Answer) (cdb : Instance)
    (run : Run (step sum) (fun _ cdb call => CallPutOk sum cdb call) start history cdb)
    (key val : List UInt8) (keyBound : 1 ≤ key.length ∧ key.length < 2 ^ 24)
    (valBound : val.length < 2 ^ 32) :
    GrowsExactly cdb (prepare sum key) val ↔
      Room cdb (prepare sum key) ∧
        ∃ header, headerLen key.length val.length = some header ∧ Fits cdb header key.length val.length := by
  rcases newInit_eq created with ⟨canMap, rfl⟩
  have reached : Sized cdb ∧ cdb.kvdataMaximum = 0 ∧ Housed cdb ∧ CanMap cdb.sheetsSize := by
    apply run.invariant (fun _ cdb => Sized cdb ∧ cdb.kvdataMaximum = 0 ∧ Housed cdb ∧ CanMap cdb.sheetsSize)
      ⟨fresh_sized keysAtStart 0, rfl, fresh_housed keysAtStart 0, canMap⟩
    intro _ state call answer next ⟨sized, maximum, housed, mapped⟩ ok stepped
    have kept := step_sized sized ok stepped
    exact ⟨kept.1, kept.2.trans maximum, step_housed housed stepped, step_mapped mapped stepped⟩
  rcases reached with ⟨sized, maximum, housed, mapped⟩
  have unlimited : ¬ (cdb.kvdataMaximum > 0 ∧ cdb.kvdataSize > cdb.kvdataMaximum) := by
    rw [maximum]
    omega
  rcases exists_headerLen keyBound.1 keyBound.2 valBound with ⟨header, found⟩
  rw [put_growsExactly_iff sized mapped unlimited found, (retries_of_found rfl).returns_iff housed mapped]
  refine and_congr_right fun _ => ⟨fun fits => ⟨header, found, fits⟩, ?_⟩
  rintro ⟨other, again, fits⟩
  rw [found] at again
  cases again
  exact fits

/-- There are counters and records when the value of the key `a` is put. -/
theorem kvdata_never_wraps_iff_put :
    GrowsExactly (stateAfter (disguisedHistory.drop 2)) (prepare collidingHash [97]) [1, 0, 0, 0, 1, 0, 0, 0, 0,
      0, 0, 0] := by
  have run : Run (step collidingHash) (fun _ cdb call => CallPutOk collidingHash cdb call) (fresh 0 0)
      (disguisedHistory.drop 2) (stateAfter (disguisedHistory.drop 2)) := by
    refine Run.step (Run.step Run.start ?_ (@step_stateAfter [] _ _ ?_)) ?_ (step_stateAfter ?_)
    · exact Or.inr (Or.inr ⟨1, rfl, by decide, Or.inl (by decide)⟩)
    · decide +kernel
    · exact fun _ => Or.inr (Or.inr ⟨1, rfl, by decide, Or.inl (by decide +kernel)⟩)
    · decide +kernel
  have free : freeCell (stateAfter (disguisedHistory.drop 2)) (prepare collidingHash [97]) ≠ none := by decide +kernel
  have mapped : CanMap (stateAfter (disguisedHistory.drop 2)).sheetsSize := by decide +kernel
  have fits : recordBytes 1 1 12 ≤
      (stateAfter (disguisedHistory.drop 2)).kvdataSize - (stateAfter (disguisedHistory.drop 2)).kvdataUsed :=
        by decide +kernel
  generalize stateAfter (disguisedHistory.drop 2) = cdb at *
  exact (kvdata_never_wraps_iff collidingHash 0 (fresh 0 0) rfl _ cdb run [97] [1, 0, 0, 0, 1, 0, 0, 0, 0, 0, 0, 0]
    (by decide) (by decide)).mpr ⟨Room.of_free free mapped, 1, rfl, by decide, Or.inl fits⟩

/-- A value of `2 ^ 32 - 1` bytes for a key of one byte wants `2 ^ 32 + 8`
bytes, which the sum in 32 bits takes for 8: the put goes through. -/
theorem kvdata_wraps :
    newInit 0 0 = some (fresh 0 0) ∧
      ¬ GrowsExactly (fresh 0 0) (prepare collidingHash [97]) (List.replicate (2 ^ 32 - 1) 0) := by
  refine ⟨rfl, ?_⟩
  have found : headerLen (prepare collidingHash [97]).key.length
      (List.replicate (2 ^ 32 - 1) (0 : UInt8)).length = some 8 := by
    rw [List.length_replicate]
    decide
  rw [put_growsExactly_iff (fresh_sized 0 0) (by decide) (by decide) found]
  rintro ⟨-, fits⟩
  have small := fits.1
  rw [List.length_replicate] at small
  revert small
  decide

end SxeCdb
end LibKit
