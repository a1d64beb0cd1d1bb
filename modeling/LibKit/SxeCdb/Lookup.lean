import LibKit.SxeCdb.Store

namespace LibKit
namespace SxeCdb

/-!
# A lookup finds what was stored

In every run of allowed calls a lookup of a key finds a record exactly when a
call stored one, and the record is that of a value put for the key or the
counter of the key.  A value of twelve bytes whose first word is below the
number of counter nodes is not told apart from a counter, so counting its key
writes through it into other records.
-/

/-! ## What the history says -/

def Counted (history : History Call Answer) (key : List UInt8) (l : Nat) : Prop :=
  ∃ dummy count, (Call.inc key l dummy, Answer.count count) ∈ history ∧ count ≠ 0

def WasPut (history : History Call Answer) (key val : List UInt8) : Prop :=
  ∃ uid, (Call.put key val, Answer.uid (some uid)) ∈ history

def Succeeded (history : History Call Answer) (key : List UInt8) : Prop :=
  (∃ val, WasPut history key val) ∨ ∃ l, Counted history key l

def Made (history : History Call Answer) (entry : Entry) : Prop :=
  match entry.content with
  | .plain val => WasPut history entry.key val
  | .counter l => Counted history entry.key l

/-- The entries are those of the calls that succeeded. -/
structure Recorded (history : History Call Answer) (entries : Nat → Option Entry) : Prop where
  sound : ∀ {pos entry}, entries pos = some entry → Made history entry
  complete : ∀ {key}, Succeeded history key → ∃ pos entry, entries pos = some entry ∧ entry.key = key

theorem Made.mono {history : History Call Answer} {entry : Entry} (made : Made history entry)
    (event : Call × Answer) : Made (event :: history) entry := by
  unfold Made at made ⊢
  split
  · rename_i val content
    simp only [content] at made
    rcases made with ⟨uid, member⟩
    exact ⟨uid, List.mem_cons_of_mem _ member⟩
  · rename_i l content
    simp only [content] at made
    rcases made with ⟨dummy, count, member, nonzero⟩
    exact ⟨dummy, count, List.mem_cons_of_mem _ member, nonzero⟩

/-- A call that stored something is the latest one or an earlier one. -/
theorem succeeded_cons {history : History Call Answer} {call : Call} {answer : Answer} {key : List UInt8}
    (succeeded : Succeeded ((call, answer) :: history) key) :
    (∃ val uid, call = .put key val ∧ answer = .uid (some uid)) ∨
      (∃ l dummy count, call = .inc key l dummy ∧ answer = .count count ∧ count ≠ 0) ∨
      Succeeded history key := by
  rcases succeeded with ⟨val, uid, member⟩ | ⟨l, dummy, count, member, nonzero⟩
  · rcases List.mem_cons.mp member with now | before
    · cases now
      exact Or.inl ⟨val, uid, rfl, rfl⟩
    · exact Or.inr (Or.inr (Or.inl ⟨val, uid, before⟩))
  · rcases List.mem_cons.mp member with now | before
    · cases now
      exact Or.inr (Or.inl ⟨l, dummy, count, rfl, rfl, nonzero⟩)
    · exact Or.inr (Or.inr (Or.inr ⟨l, dummy, count, before, nonzero⟩))

theorem empty_recorded : Recorded [] (fun _ => none) := by
  refine ⟨?_, ?_⟩
  · intro pos entry logged
    cases logged
  · intro key succeeded
    rcases succeeded with ⟨_, _, member⟩ | ⟨_, _, _, member, _⟩
    · cases member
    · cases member

section

variable {sum : List UInt8 → Fin 8 → UInt16} {cdb : Instance} {history : History Call Answer}
  {entries entries' : Nat → Option Entry} {tally tally' : Nat → Nat} {call : Call} {answer : Answer}

theorem Recorded.enter (recorded : Recorded history entries) {pos : Nat} {entry : Entry}
    (fresh : entries pos = none) (made : Made ((call, answer) :: history) entry)
    (only : ∀ key, Succeeded ((call, answer) :: history) key → key = entry.key ∨ Succeeded history key) :
    Recorded ((call, answer) :: history) (Function.update entries pos (some entry)) := by
  refine ⟨?_, ?_⟩
  · intro other second logged
    by_cases here : other = pos
    · subst here
      rw [Function.update_self] at logged
      cases logged
      exact made
    · rw [Function.update_of_ne here] at logged
      exact (recorded.sound logged).mono _
  · intro key succeeded
    rcases only key succeeded with now | before
    · exact ⟨pos, entry, Function.update_self _ _ _, now.symm⟩
    · rcases recorded.complete before with ⟨other, second, logged, same⟩
      have differ : other ≠ pos := by
        intro equal
        rw [equal, fresh] at logged
        cases logged
      exact ⟨other, second, by rw [Function.update_of_ne differ]; exact logged, same⟩

theorem Recorded.same (recorded : Recorded history entries)
    (only : ∀ key, Succeeded ((call, answer) :: history) key →
      (∃ pos entry, entries pos = some entry ∧ entry.key = key) ∨ Succeeded history key) :
    Recorded ((call, answer) :: history) entries := by
  refine ⟨fun logged => (recorded.sound logged).mono _, ?_⟩
  intro key succeeded
  rcases only key succeeded with logged | before
  · exact logged
  · exact recorded.complete before

theorem Effect.recorded (effect : Effect sum cdb entries tally call answer entries' tally')
    (recorded : Recorded history entries) : Recorded ((call, answer) :: history) entries' := by
  cases effect with
  | putRefused key val =>
      apply recorded.same
      intro other succeeded
      rcases succeeded_cons succeeded with ⟨_, _, _, impossible⟩ | ⟨_, _, _, impossible, _⟩ | before
      · cases impossible
      · cases impossible
      · exact Or.inr before
  | incRefused key l dummy _ =>
      apply recorded.same
      intro other succeeded
      rcases succeeded_cons succeeded with ⟨_, _, impossible, _⟩ | ⟨_, _, _, _, zero, nonzero⟩ | before
      · cases impossible
      · cases zero
        exact absurd rfl nonzero
      · exact Or.inr before
  | put key val uid pos fresh =>
      apply recorded.enter fresh
      · exact ⟨uid, List.mem_cons_self⟩
      · intro other succeeded
        rcases succeeded_cons succeeded with ⟨_, _, same, _⟩ | ⟨_, _, _, impossible, _⟩ | before
        · cases same
          exact Or.inl rfl
        · cases impossible
        · exact Or.inr before
  | first key l dummy pos fresh _ =>
      apply recorded.enter fresh
      · exact ⟨dummy, 1, List.mem_cons_self, Nat.one_ne_zero⟩
      · intro other succeeded
        rcases succeeded_cons succeeded with ⟨_, _, impossible, _⟩ | ⟨_, _, _, same, _⟩ | before
        · cases impossible
        · cases same
          exact Or.inl rfl
        · exact Or.inr before
  | again key l dummy pos logged _ =>
      apply recorded.same
      intro other succeeded
      rcases succeeded_cons succeeded with ⟨_, _, impossible, _⟩ | ⟨_, _, _, same, _⟩ | before
      · cases impossible
      · cases same
        exact Or.inl ⟨pos, _, logged, rfl⟩
      · exact Or.inr before

end

/-! ## Lookups -/

/-- The record at a position has the key, and the value of a put of the key or
the links of a counter of the key. -/
def HoldsRecord (history : History Call Answer) (cdb : Instance) (key : List UInt8) (pos : Nat) : Prop :=
  let part := hkvUnpack cdb.kvdata pos
  part.keyLen = key.length ∧ Bytes.read cdb.kvdata part.key key.length = key ∧
    ((∃ val, WasPut history key val ∧ part.valLen = val.length ∧
        Bytes.read cdb.kvdata part.val val.length = val) ∨
      ∃ l c, Counted history key l ∧ part.valLen = hkvListBytes ∧ OnList cdb l c pos)

/-- Lookups find the records of the calls that succeeded and no others, and no
record is entered twice. -/
structure LookupOk (sum : List UInt8 → Fin 8 → UInt16) (history : History Call Answer) (cdb : Instance) : Prop where
  found : ∀ key, (getHkvRaw cdb (prepare sum key)).isSome ↔ Succeeded history key
  holds : ∀ key pos, getHkvRaw cdb (prepare sum key) = some pos → HoldsRecord history cdb key pos
  once : ∀ s r c s' r' c', (cdb.sheets s r c).hkvPos ≠ 0 →
    (cdb.sheets s r c).hkvPos = (cdb.sheets s' r' c').hkvPos → s = s' ∧ r = r' ∧ c = c'

theorem Kept.lookupOk {sum : List UInt8 → Fin 8 → UInt16} {cdb : Instance} {log : Log}
    {chains : Nat → List Bucket} {free : List Nat} {tally : Nat → Nat} {history : History Call Answer}
    (kept : Kept sum cdb log chains free tally) (recorded : Recorded history log.entries) :
    LookupOk sum history cdb := by
  refine ⟨?_, ?_, kept.indexed.unique⟩
  · intro key
    rw [getHkvRaw_isSome_iff kept.stored kept.indexed]
    constructor
    · rintro ⟨pos, entry, logged, rfl⟩
      have made := recorded.sound logged
      unfold Made at made
      split at made
      · exact Or.inl ⟨_, made⟩
      · exact Or.inr ⟨_, made⟩
    · exact recorded.complete
  · intro key pos found
    rcases getHkvRaw_some kept.stored kept.indexed found with ⟨entry, logged, rfl⟩
    rcases kept.stored.unpack logged with ⟨header, _, whole⟩
    have made := recorded.sound logged
    have val := kept.stored.val logged
    refine ⟨by rw [whole], kept.stored.key logged, ?_⟩
    have length : (hkvUnpack cdb.kvdata pos).valLen = entry.valLen := by rw [whole]
    unfold Made at made
    split at made
    · rename_i put content
      simp only [Entry.val, content] at val
      simp only [Entry.valLen, content] at length
      exact Or.inl ⟨put, made, length, Bytes.read_of_holds val⟩
    · rename_i l content
      simp only [Entry.valLen, content] at length
      rcases kept.onList_of_logged logged content with ⟨c, listed, _⟩
      exact Or.inr ⟨l, c, made, length, listed⟩

/-- In every instance reached by allowed calls, lookups are right. -/
theorem cdb_never_loses_key (sum : List UInt8 → Fin 8 → UInt16) (keysAtStart maximum : Nat) (start : Instance)
    (created : newInit keysAtStart maximum = some start) (history : History Call Answer) (cdb : Instance)
    (run : Run (step sum) (fun _ cdb call => CallOk sum cdb call) start history cdb) :
    LookupOk sum history cdb := by
  have reached : ∃ log chains free tally, Kept sum cdb log chains free tally ∧ Recorded history log.entries := by
    rw [(newInit_eq created).2] at run
    apply run.invariant (fun history cdb => ∃ log chains free tally,
      Kept sum cdb log chains free tally ∧ Recorded history log.entries)
    · exact ⟨_, _, _, _, fresh_kept sum keysAtStart maximum, empty_recorded⟩
    · rintro history state call answer next ⟨log, chains, free, tally, kept, recorded⟩ ok stepped
      rcases step_effect kept ok stepped with ⟨log', chains', free', tally', effect, kept'⟩
      exact ⟨log', chains', free', tally', kept', effect.recorded recorded⟩
  rcases reached with ⟨log, chains, free, tally, kept, recorded⟩
  exact kept.lookupOk recorded

/-! ## Runs on fixed calls -/

/-- The instance after the calls of a history on a fresh one, under a hash that
makes all keys collide. -/
def stateAfter : History Call Answer → Instance
  | [] => fresh 0 0
  | (call, _) :: history => ((step collidingHash (stateAfter history) call).map Prod.snd).getD (stateAfter history)

theorem step_stateAfter {history : History Call Answer} {call : Call} {answer : Answer}
    (answered : (step collidingHash (stateAfter history) call).map Prod.fst = some answer) :
    step collidingHash (stateAfter history) call = some (answer, stateAfter ((call, answer) :: history)) := by
  rcases Option.map_eq_some_iff.mp answered with ⟨⟨given, next⟩, stepped, same⟩
  change given = answer at same
  rw [same] at stepped
  rw [stateAfter, stepped]
  rfl

/-- A value, a counter, and a value that looks like the links of a counter and
whose key is counted; the latest call first. -/
def disguisedHistory : History Call Answer :=
  [(.inc [97] 0 (fun _ => 0), .count 2),
    (.put [97] [1, 0, 0, 0, 1, 0, 0, 0, 0, 0, 0, 0], .uid (some ⟨0, 0, 1⟩)),
    (.inc [98] 0 (fun _ => 0), .count 1),
    (.put [99] (List.replicate 15 1), .uid (some ⟨0, 0, 0⟩))]

/-- The first two of these calls keep the lookups right. -/
theorem cdb_never_loses_key_put :
    LookupOk collidingHash (disguisedHistory.drop 2) (stateAfter (disguisedHistory.drop 2)) := by
  apply cdb_never_loses_key collidingHash 0 0 (fresh 0 0) rfl
  refine Run.step (Run.step Run.start ⟨?_, trivial⟩ (@step_stateAfter [] _ _ ?_)) ⟨?_, ?_⟩ (step_stateAfter ?_)
  · exact Or.inr (Or.inr ⟨1, rfl, by decide, Or.inl (by decide)⟩)
  · decide +kernel
  · exact fun _ => Or.inr (Or.inr ⟨1, rfl, by decide, Or.inl (by decide +kernel)⟩)
  · intro pos found
    have missing : getHkvRaw (stateAfter (disguisedHistory.drop 3)) (prepare collidingHash [98]) = none := by
      decide +kernel
    cases missing.symm.trans found
  · decide +kernel

/-- Counting the key whose value looks like links writes into the value that
was put first. -/
theorem disguised_counter_corrupts :
    newInit 0 0 = some (fresh 0 0) ∧
      Run (step collidingHash) (fun _ cdb call => CallPutOk collidingHash cdb call) (fresh 0 0) disguisedHistory
        (stateAfter disguisedHistory) ∧
      ¬ LookupOk collidingHash disguisedHistory (stateAfter disguisedHistory) := by
  refine ⟨rfl, ?_, ?_⟩
  · apply Run.step
    · apply Run.step
      · apply Run.step
        · apply Run.step Run.start
          · exact Or.inr (Or.inr ⟨1, rfl, by decide, Or.inl (by decide)⟩)
          · exact @step_stateAfter [] _ _ (by decide +kernel)
        · intro _
          exact Or.inr (Or.inr ⟨1, rfl, by decide, Or.inl (by decide +kernel)⟩)
        · exact step_stateAfter (by decide +kernel)
      · exact Or.inr (Or.inr ⟨1, rfl, by decide, Or.inl (by decide +kernel)⟩)
      · exact step_stateAfter (by decide +kernel)
    · intro missing
      have found : getHkvRaw (stateAfter (disguisedHistory.drop 1)) (prepare collidingHash [97]) ≠ none := by
        decide +kernel
      exact absurd missing found
    · exact step_stateAfter (by decide +kernel)
  · intro ok
    have found : getHkvRaw (stateAfter disguisedHistory) (prepare collidingHash [99]) = some 1 := by
      decide +kernel
    have changed : Bytes.read (stateAfter disguisedHistory).kvdata
        (hkvUnpack (stateAfter disguisedHistory).kvdata 1).val 15 ≠ List.replicate 15 1 := by
      decide +kernel
    rcases (ok.holds [99] 1 found).2.2 with ⟨val, ⟨uid, member⟩, _, read⟩ | ⟨l, c, ⟨dummy, count, member, _⟩, _⟩
    · have isVal : val = List.replicate 15 1 ∧ uid = ⟨0, 0, 0⟩ := by
        simpa [disguisedHistory] using member
      rw [isVal.1] at read
      exact changed read
    · simp [disguisedHistory] at member

end SxeCdb
end LibKit
