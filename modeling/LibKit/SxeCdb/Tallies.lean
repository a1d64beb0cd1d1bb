import LibKit.SxeCdb.Lookup

namespace LibKit
namespace SxeCdb

/-!
# The counters are sorted multisets

When each key is counted on one list, and values are put for other keys only,
the chains of every list stand for the keys by their number of counts in every
instance reached.  The field for a count has 48 bits: a key may be counted
`2 ^ 48 - 1` times, and the next call for a lone key sets the field to zero and
answers zero.
-/

/-! ## What the history says -/

def incs : History Call Answer → List UInt8 → Nat
  | [], _ => 0
  | (.inc other _ _, .count count) :: history, key =>
      (if other = key ∧ count ≠ 0 then 1 else 0) + incs history key
  | _ :: history, key => incs history key

/-- What the last `inc` of a key returned. -/
def lastInc : History Call Answer → List UInt8 → Option Nat
  | [], _ => none
  | (.inc other _ _, .count count) :: history, key => if other = key then some count else lastInc history key
  | _ :: history, key => lastInc history key

/-- Each key is counted on one list or has values put, not both. -/
def SameList (history : History Call Answer) : Call → Prop
  | .put key _ => ∀ l dummy answer, (Call.inc key l dummy, answer) ∉ history
  | .inc key l _ => (∀ val answer, (Call.put key val, answer) ∉ history) ∧
      ∀ l' dummy answer, (Call.inc key l' dummy, answer) ∈ history → l' = l

/-- The next count of the key fits into its field. -/
def Countable (history : History Call Answer) : Call → Prop
  | .put _ _ => True
  | .inc key _ _ => incs history key + 1 < 2 ^ 48

/-- The condition on a call, in the state before it. -/
def TallyOk (sum : List UInt8 → Fin 8 → UInt16) (history : History Call Answer) (cdb : Instance) (call : Call) :
    Prop :=
  SameList history call ∧ Countable history call ∧ CallPutOk sum cdb call

/-! ## The required state -/

/-- The lists of an instance and its free nodes. -/
structure Lists (sum : List UInt8 → Fin 8 → UInt16) (history : History Call Answer) (cdb : Instance)
    (chains : Nat → List Bucket) (free : List Nat) : Prop where
  chained : ∀ l, Chained cdb.counts (linksOf cdb.kvdata) (cdb.countsLo l) (cdb.countsHi l) (chains l)
  increasing : ∀ l, (chains l).Pairwise (fun first second => first.count < second.count)
  nonempty : ∀ l, ∀ bucket ∈ chains l, bucket.keys ≠ []
  counted : ∀ key l, Counted history key l → ∃ pos, getHkvRaw cdb (prepare sum key) = some pos ∧
    ∃ bucket ∈ chains l, pos ∈ bucket.keys ∧ (linksOf cdb.kvdata pos).countToUse = bucket.node ∧
      bucket.count = incs history key ∧ lastInc history key = some (incs history key) ∧
      ∀ l', ∀ other ∈ chains l', pos ∈ other.keys → l' = l ∧ other = bucket
  only : ∀ l, ∀ bucket ∈ chains l, ∀ pos ∈ bucket.keys,
    ∃ key, Counted history key l ∧ getHkvRaw cdb (prepare sum key) = some pos
  threaded : Threaded (fun c => (cdb.counts c).next) cdb.countsNextFree free ∧ free.length = cdb.countsFree
  apart : ∀ c ∈ free, ∀ l, c ∉ nodesOf (chains l)

/-- The counters of an instance are sorted multisets. -/
def CountersSorted (sum : List UInt8 → Fin 8 → UInt16) (history : History Call Answer) (cdb : Instance) : Prop :=
  ∃ chains free, Lists sum history cdb chains free

/-! ## The invariant -/

/-- The history keeps counted keys and put keys apart. -/
structure Separate (history : History Call Answer) : Prop where
  apart : ∀ {key val l dummy answer answer'}, (Call.put key val, answer) ∈ history →
    (Call.inc key l dummy, answer') ∉ history
  list : ∀ {key l l' dummy dummy' answer answer'}, (Call.inc key l dummy, answer) ∈ history →
    (Call.inc key l' dummy', answer') ∈ history → l = l'

/-- The tallies are the numbers of counts, and each counted key has one record. -/
structure Tallied (history : History Call Answer) (entries : Nat → Option Entry) (tally : Nat → Nat) : Prop where
  tally : ∀ {pos key l}, entries pos = some ⟨key, .counter l⟩ →
    tally pos = incs history key ∧ lastInc history key = some (tally pos)
  unique : ∀ {pos pos' key l l'}, entries pos = some ⟨key, .counter l⟩ →
    entries pos' = some ⟨key, .counter l'⟩ → pos = pos'

theorem Separate.cons {history : History Call Answer} (separate : Separate history) {call : Call}
    (same : SameList history call) (answer : Answer) : Separate ((call, answer) :: history) := by
  refine ⟨?_, ?_⟩
  · intro key val l dummy first second isPut isInc
    rcases List.mem_cons.mp isPut with put | put
    · rcases List.mem_cons.mp isInc with inc | inc
      · cases put
        cases inc
      · cases put
        exact same l dummy second inc
    · rcases List.mem_cons.mp isInc with inc | inc
      · cases inc
        exact same.1 val first put
      · exact separate.apart put inc
  · intro key l l' dummy dummy' first second isInc isOther
    rcases List.mem_cons.mp isInc with inc | inc
    · rcases List.mem_cons.mp isOther with other | other
      · cases inc
        cases other
        rfl
      · cases inc
        exact (same.2 l' dummy' second other).symm
    · rcases List.mem_cons.mp isOther with other | other
      · cases other
        exact same.2 l dummy first inc
      · exact separate.list inc other

/-- A key that was never counted has no counts. -/
theorem incs_eq_zero {history : History Call Answer} {key : List UInt8}
    (never : ∀ l, ¬ Counted history key l) : incs history key = 0 := by
  induction history with
  | nil => rfl
  | cons event history ih =>
      have before : ∀ l, ¬ Counted history key l := by
        rintro l ⟨dummy, count, member, nonzero⟩
        exact never l ⟨dummy, count, List.mem_cons_of_mem _ member, nonzero⟩
      rcases event with ⟨call, answer⟩
      cases call with
      | put other val => exact ih before
      | inc other l dummy =>
          cases answer with
          | uid uid => exact ih before
          | count count =>
              have notNow : ¬ (other = key ∧ count ≠ 0) := by
                rintro ⟨rfl, nonzero⟩
                exact never l ⟨dummy, count, List.mem_cons_self, nonzero⟩
              rw [incs, if_neg notNow, ih before]

section

variable {sum : List UInt8 → Fin 8 → UInt16} {cdb : Instance} {history : History Call Answer} {log : Log}
  {chains : Nat → List Bucket} {free : List Nat} {tally tally' : Nat → Nat} {call : Call} {answer : Answer}
  {entries' : Nat → Option Entry}

theorem Kept.find_counter (kept : Kept sum cdb log chains free tally) (recorded : Recorded history log.entries)
    (separate : Separate history) {key : List UInt8} {l : Nat} (counted : Counted history key l) :
    ∃ pos, getHkvRaw cdb (prepare sum key) = some pos ∧ log.entries pos = some ⟨key, .counter l⟩ := by
  have isSome := (getHkvRaw_isSome_iff kept.stored kept.indexed).mpr (recorded.complete (Or.inr ⟨l, counted⟩))
  rcases Option.isSome_iff_exists.mp isSome with ⟨pos, found⟩
  rcases getHkvRaw_some kept.stored kept.indexed found with ⟨⟨second, content⟩, logged, same⟩
  change second = key at same
  subst same
  rcases counted with ⟨dummy, count, member, _⟩
  refine ⟨pos, found, ?_⟩
  cases content with
  | plain val =>
      rcases recorded.sound logged with ⟨uid, put⟩
      exact absurd member (separate.apart put)
  | counter l' =>
      rcases recorded.sound logged with ⟨dummy', count', member', _⟩
      rw [logged, separate.list member' member]

theorem Kept.callOk (kept : Kept sum cdb log chains free tally) (recorded : Recorded history log.entries)
    (tallied : Tallied history log.entries tally) (ok : TallyOk sum history cdb call) : CallOk sum cdb call := by
  refine ⟨ok.2.2, ?_⟩
  cases call with
  | put key val => trivial
  | inc key l dummy =>
      intro pos found
      rcases getHkvRaw_some kept.stored kept.indexed found with ⟨⟨second, content⟩, logged, same⟩
      change second = key at same
      subst same
      cases content with
      | plain val =>
          rcases recorded.sound logged with ⟨uid, put⟩
          exact absurd put (ok.1.1 val _)
      | counter l' =>
          rcases recorded.sound logged with ⟨dummy', count', member, _⟩
          have list := ok.1.2 l' dummy' _ member
          subst list
          rcases kept.onList_of_logged logged rfl with ⟨c, listed, countIs⟩
          refine Or.inr (Or.inr ⟨c, listed, ?_⟩)
          rw [countIs, (tallied.tally logged).1]
          exact ok.2.1

theorem incs_inc (key other : List UInt8) (l count : Nat) (dummy : Fin 12 → UInt8) :
    incs ((.inc other l dummy, .count count) :: history) key =
      (if other = key ∧ count ≠ 0 then 1 else 0) + incs history key := rfl

theorem lastInc_inc (key other : List UInt8) (l count : Nat) (dummy : Fin 12 → UInt8) :
    lastInc ((.inc other l dummy, .count count) :: history) key =
      if other = key then some count else lastInc history key := rfl

theorem Tallied.other (tallied : Tallied history log.entries tally) {pos : Nat} {key other : List UInt8}
    {l l' count : Nat} {dummy : Fin 12 → UInt8} (logged : log.entries pos = some ⟨key, .counter l⟩)
    (differ : other ≠ key) :
    tally pos = incs ((.inc other l' dummy, .count count) :: history) key ∧
      lastInc ((.inc other l' dummy, .count count) :: history) key = some (tally pos) := by
  rw [incs_inc, lastInc_inc, if_neg differ, if_neg (fun both => differ both.1), Nat.zero_add]
  exact tallied.tally logged

theorem Effect.tallied (effect : Effect sum cdb log.entries tally call answer entries' tally')
    (kept : Kept sum cdb log chains free tally) (recorded : Recorded history log.entries)
    (separate : Separate history) (tallied : Tallied history log.entries tally) :
    Tallied ((call, answer) :: history) entries' tally' := by
  cases effect with
  | putRefused key val => exact ⟨tallied.tally, tallied.unique⟩
  | incRefused key l dummy noCounter =>
      refine ⟨?_, tallied.unique⟩
      intro pos other l' logged
      apply tallied.other logged
      intro same
      subst same
      rcases kept.find_counter recorded separate (recorded.sound logged) with ⟨found, lookup, again⟩
      exact noCounter found l' lookup again
  | put key val uid pos fresh =>
      have old : ∀ {other key' l}, Function.update log.entries pos (some ⟨key, .plain val⟩) other =
          some ⟨key', .counter l⟩ → log.entries other = some ⟨key', .counter l⟩ := by
        intro other key' l logged
        by_cases here : other = pos
        · rw [here, Function.update_self] at logged
          cases logged
        · rwa [Function.update_of_ne here] at logged
      exact ⟨fun logged => tallied.tally (old logged),
        fun logged logged' => tallied.unique (old logged) (old logged')⟩
  | first key l dummy pos fresh absent =>
      have cases' : ∀ {other key' l'}, Function.update log.entries pos (some ⟨key, .counter l⟩) other =
          some ⟨key', .counter l'⟩ → other = pos ∧ key = key' ∨
            other ≠ pos ∧ key ≠ key' ∧ log.entries other = some ⟨key', .counter l'⟩ := by
        intro other key' l' logged
        by_cases here : other = pos
        · rw [here, Function.update_self] at logged
          cases logged
          exact Or.inl ⟨here, rfl⟩
        · rw [Function.update_of_ne here] at logged
          exact Or.inr ⟨here, fun same => absent other _ logged same.symm, logged⟩
      have never : incs history key = 0 := by
        apply incs_eq_zero
        intro l' counted
        rcases recorded.complete (Or.inr ⟨l', counted⟩) with ⟨other, entry, logged, same⟩
        exact absent other entry logged same
      refine ⟨?_, ?_⟩
      · intro other key' l' logged
        rcases cases' logged with ⟨rfl, rfl⟩ | ⟨here, differ, before⟩
        · rw [incs_inc, lastInc_inc, if_pos rfl, if_pos ⟨rfl, Nat.one_ne_zero⟩, never, Function.update_self]
          exact ⟨rfl, rfl⟩
        · rw [Function.update_of_ne here]
          exact tallied.other before differ
      · intro other other' key' l' l'' logged logged'
        rcases cases' logged with ⟨rfl, rfl⟩ | ⟨_, differ, before⟩
        · rcases cases' logged' with ⟨rfl, _⟩ | ⟨_, differ', _⟩
          · rfl
          · exact absurd rfl differ'
        · rcases cases' logged' with ⟨_, same⟩ | ⟨_, _, before'⟩
          · exact absurd same differ
          · exact tallied.unique before before'
  | again key l dummy pos isCounter found =>
      refine ⟨?_, tallied.unique⟩
      intro other key' l' logged
      by_cases same : key = key'
      · subst same
        have here := tallied.unique logged isCounter
        subst here
        rw [incs_inc, lastInc_inc, if_pos rfl, if_pos ⟨rfl, Nat.succ_ne_zero _⟩, Function.update_self,
          (tallied.tally isCounter).1, Nat.add_comm 1]
        exact ⟨rfl, rfl⟩
      · have differ : other ≠ pos := by
          intro here
          subst here
          rw [logged] at isCounter
          cases isCounter
          exact same rfl
        rw [Function.update_of_ne differ]
        exact tallied.other logged same

theorem Kept.countersSorted (kept : Kept sum cdb log chains free tally)
    (recorded : Recorded history log.entries) (separate : Separate history)
    (tallied : Tallied history log.entries tally) : CountersSorted sum history cdb := by
  have pool := kept.counters.shape.pool
  refine ⟨chains, free, kept.chained, fun l => (kept.counters.sorted l).sorted,
    fun l => (kept.counters.sorted l).nonempty, ?_, ?_, ⟨pool.threaded, pool.length⟩, ?_⟩
  · intro key l counted
    rcases kept.find_counter recorded separate counted with ⟨pos, found, logged⟩
    rcases (kept.counters.counters l pos).mpr ⟨_, logged, rfl⟩ with ⟨bucket, member, inKeys⟩
    have tallyIs := tallied.tally logged
    refine ⟨pos, found, bucket, member, inKeys, ?_, ?_, ?_, ?_⟩
    · exact ((kept.chained l).buckets bucket member).use pos inKeys
    · rw [(kept.counters.sorted l).tallied bucket member pos inKeys]
      exact tallyIs.1
    · rw [← tallyIs.1]
      exact tallyIs.2
    · intro l' other inOther otherKeys
      rcases kept.counters.shape.same_bucket inOther member otherKeys inKeys with ⟨list, same⟩
      exact ⟨list, same⟩
  · intro l bucket member pos inKeys
    rcases (kept.counters.counters l pos).mp ⟨bucket, member, inKeys⟩ with ⟨⟨key, content⟩, logged, counter⟩
    change content = .counter l at counter
    subst counter
    have counted : Counted history key l := recorded.sound logged
    rcases kept.find_counter recorded separate counted with ⟨found, lookup, again⟩
    refine ⟨key, counted, ?_⟩
    rw [lookup, tallied.unique again logged]
  · intro c inFree l inUse
    exact pool.apart c inFree ⟨l, inUse⟩

end

theorem exists_tallied {sum : List UInt8 → Fin 8 → UInt16} {keysAtStart maximum : Nat} {start : Instance}
    (created : newInit keysAtStart maximum = some start) {history : History Call Answer} {cdb : Instance}
    (run : Run (step sum) (TallyOk sum) start history cdb) :
    ∃ log chains free tally, Kept sum cdb log chains free tally ∧ Recorded history log.entries ∧ Separate history ∧
      Tallied history log.entries tally := by
  rw [(newInit_eq created).2] at run
  apply run.invariant (fun history cdb => ∃ log chains free tally, Kept sum cdb log chains free tally ∧
    Recorded history log.entries ∧ Separate history ∧ Tallied history log.entries tally)
  · refine ⟨_, _, _, _, fresh_kept sum keysAtStart maximum, empty_recorded, ⟨?_, ?_⟩, ?_, ?_⟩
    · intro _ _ _ _ _ _ member
      cases member
    · intro _ _ _ _ _ _ _ member
      cases member
    · intro _ _ _ logged
      cases logged
    · intro _ _ _ _ _ logged
      cases logged
  · rintro history state call answer next ⟨log, chains, free, tally, kept, recorded, separate, tallied⟩ ok stepped
    rcases step_effect kept (kept.callOk recorded tallied ok) stepped with
      ⟨log', chains', free', tally', effect, kept'⟩
    exact ⟨log', chains', free', tally', kept', effect.recorded recorded, separate.cons ok.1 answer,
      effect.tallied kept recorded separate tallied⟩

/-- In every instance reached by allowed calls, the counters are sorted multisets. -/
theorem counters_always_sorted (sum : List UInt8 → Fin 8 → UInt16) (keysAtStart maximum : Nat) (start : Instance)
    (created : newInit keysAtStart maximum = some start) (history : History Call Answer) (cdb : Instance)
    (run : Run (step sum) (TallyOk sum) start history cdb) : CountersSorted sum history cdb := by
  rcases exists_tallied created run with ⟨log, chains, free, tally, kept, recorded, separate, tallied⟩
  exact kept.countersSorted recorded separate tallied

/-- The key `a` is counted twice and the key `b` once. -/
def countedHistory : History Call Answer :=
  [(.inc [98] 0 (fun _ => 0), .count 1), (.inc [97] 0 (fun _ => 0), .count 2), (.inc [97] 0 (fun _ => 0), .count 1)]

theorem countedHistory_run :
    Run (step collidingHash) (TallyOk collidingHash) (fresh 0 0) countedHistory (stateAfter countedHistory) := by
  have separate (history : History Call Answer) (call : Call)
      (incs : ∀ event ∈ history, ∃ key dummy, event.1 = .inc key 0 dummy)
      (isInc : ∃ key dummy, call = .inc key 0 dummy) :
      SameList history call := by
    rcases isInc with ⟨key, dummy, rfl⟩
    refine ⟨fun val answer member => ?_, fun l dummy answer member => ?_⟩
    · rcases incs _ member with ⟨other, bytes, same⟩
      cases same
    · rcases incs _ member with ⟨other, bytes, same⟩
      cases same
      rfl
  refine Run.step (Run.step (Run.step Run.start ⟨separate _ _ ?_ ⟨_, _, rfl⟩, ?_, ?_⟩ (@step_stateAfter [] _ _ ?_))
    ⟨separate _ _ ?_ ⟨_, _, rfl⟩, ?_, ?_⟩ (step_stateAfter ?_)) ⟨separate _ _ ?_ ⟨_, _, rfl⟩, ?_,
      ?_⟩ (step_stateAfter ?_)
  · simp
  · exact (by decide : 0 + 1 < 2 ^ 48)
  · exact fun _ => Or.inr (Or.inr ⟨1, rfl, by decide, Or.inl (by decide)⟩)
  · decide +kernel
  · simp
  · exact (by decide : 1 + 1 < 2 ^ 48)
  · exact fun _ => Or.inr (Or.inr ⟨1, rfl, by decide, Or.inl (by decide +kernel)⟩)
  · decide +kernel
  · simp
  · exact (by decide : 0 + 1 < 2 ^ 48)
  · exact fun _ => Or.inr (Or.inr ⟨1, rfl, by decide, Or.inl (by decide +kernel)⟩)
  · decide +kernel

theorem counters_always_sorted_counted : CountersSorted collidingHash countedHistory (stateAfter countedHistory) :=
  counters_always_sorted collidingHash 0 0 (fresh 0 0) rfl countedHistory _ countedHistory_run

/-! ## A key counted too often -/

/-- An instance with one counter, for the key `a`, that has reached a count. -/
structure Lone (cdb : Instance) (count : Nat) : Prop where
  found : getHkvRaw cdb (prepare collidingHash [97]) = some 1
  valLen : (hkvUnpack cdb.kvdata 1).valLen = hkvListBytes
  use : (linksOf cdb.kvdata 1).countToUse = 1
  next : (linksOf cdb.kvdata 1).nextHkvPos = 0
  inside : 1 < cdb.countsSize
  node : cdb.counts 1 = ⟨count, 0, 0, 1⟩

/-- The calls and answers of a key counted again and again. -/
def loneHistory : Nat → History Call Answer
  | 0 => []
  | count + 1 => (.inc [97] 0 (fun _ => 0), .count ((count + 1) % 2 ^ 48)) :: loneHistory count

theorem incs_loneHistory {count : Nat} (bound : count < 2 ^ 48) : incs (loneHistory count) [97] = count := by
  induction count with
  | zero => rfl
  | succ count ih =>
      rw [loneHistory, Nat.mod_eq_of_lt bound, incs_inc, if_pos ⟨rfl, Nat.succ_ne_zero _⟩, ih (Nat.lt_of_succ_lt bound),
        Nat.add_comm]

/-- The call that brings the field to zero is not taken for a count. -/
theorem incs_loneHistory_wraps : incs (loneHistory (2 ^ 48 - 1 + 1)) [97] = 2 ^ 48 - 1 := by
  rw [loneHistory, incs_inc, if_neg (by decide), incs_loneHistory (by decide), Nat.zero_add]

theorem mem_loneHistory {count : Nat} {event : Call × Answer} (member : event ∈ loneHistory count) :
    event.1 = .inc [97] 0 (fun _ => 0) := by
  induction count with
  | zero => cases member
  | succ count ih =>
      rcases List.mem_cons.mp member with now | before
      · rw [now]
      · exact ih before

theorem loneHistory_sameList (count : Nat) : SameList (loneHistory count) (.inc [97] 0 (fun _ => 0)) := by
  refine ⟨?_, ?_⟩
  · intro val answer member
    cases mem_loneHistory member
  · intro l dummy answer member
    have same := mem_loneHistory member
    injection same

theorem Lone.step {cdb : Instance} {count : Nat} (lone : Lone cdb count) :
    SxeCdb.step collidingHash cdb (.inc [97] 0 (fun _ => 0)) = some (.count ((count + 1) % 2 ^ 48),
      modifyCount cdb 1 (fun node => { node with count := (node.count + 1) % 2 ^ 48 })) := by
  have use : countToUse cdb.kvdata (hkvUnpack cdb.kvdata 1).val = 1 := lone.use
  have next : nextHkvPos cdb.kvdata (hkvUnpack cdb.kvdata 1).val = 0 := lone.next
  have counted : inc cdb (prepare collidingHash [97]) 0 (fun _ => 0) = some ((count + 1) % 2 ^ 48,
      modifyCount cdb 1 (fun node => { node with count := (node.count + 1) % 2 ^ 48 })) := by
    rw [inc, lone.found]
    dsimp only
    rw [incOld]
    simp only [lone.valLen, use, next, lone.node, ne_eq, not_true_eq_false, if_false,
      if_neg (Nat.not_le_of_lt lone.inside), true_and, true_or, if_true]
  rw [SxeCdb.step, counted]
  rfl

/-- The instance after the key was counted, with another count in its node. -/
def loneState (count : Nat) : Instance := modifyCount (stateAfter (loneHistory 1)) 1 (fun node =>
    { node with count := count })

theorem Lone.recount {cdb : Instance} {count : Nat} (lone : Lone cdb count) (again : Nat) :
    Lone (modifyCount cdb 1 (fun node => { node with count := again })) again := by
  refine ⟨lone.found, lone.valLen, lone.use, lone.next, lone.inside, ?_⟩
  rw [modifyCount]
  simp only [Function.update_self, lone.node]

theorem loneState_lone (count : Nat) : Lone (loneState count) count := by
  have once : Lone (stateAfter (loneHistory 1)) 1 := by
    refine ⟨?_, ?_, ?_, ?_, ?_, ?_⟩
    · decide +kernel
    · decide +kernel
    · decide +kernel
    · decide +kernel
    · decide +kernel
    · decide +kernel
  exact once.recount count

theorem loneState_first : loneState 1 = stateAfter (loneHistory 1) := by
  have node : (stateAfter (loneHistory 1)).counts 1 = ⟨1, 0, 0, 1⟩ := by decide +kernel
  rw [loneState, modifyCount, node]
  dsimp only
  rw [← node, Function.update_eq_self]

theorem loneState_again (count again : Nat) :
    modifyCount (loneState count) 1 (fun node => { node with count := again }) = loneState again := by
  simp only [loneState, modifyCount, Function.update_idem, Function.update_self]

/-- Counting one key any number of times is a run, in which the field of the
count holds the number modulo `2 ^ 48`. -/
theorem lone_run (count : Nat) (bound : count < 2 ^ 48) :
    Run (step collidingHash) (fun history cdb call => SameList history call ∧ CallPutOk collidingHash cdb call)
      (fresh 0 0) (loneHistory (count + 1)) (loneState ((count + 1) % 2 ^ 48)) := by
  induction count with
  | zero =>
      rw [show (0 + 1) % 2 ^ 48 = 1 from rfl, loneState_first]
      refine Run.step Run.start ⟨loneHistory_sameList 0, ?_⟩ (@step_stateAfter [] _ _ (by decide +kernel))
      intro _
      exact Or.inr (Or.inr ⟨1, rfl, by decide, Or.inl (by decide)⟩)
  | succ count ih =>
      have before := ih (Nat.lt_of_succ_lt bound)
      rw [Nat.mod_eq_of_lt bound] at before
      have lone := loneState_lone (count + 1)
      have counted : modifyCount (loneState (count + 1)) 1 (fun node =>
        { node with count := (node.count + 1) % 2 ^ 48 }) =
          modifyCount (loneState (count + 1)) 1 (fun node => { node with count := (count + 1 + 1) % 2 ^ 48 }) := by
        simp only [modifyCount, lone.node]
      have stepped := lone.step
      rw [counted, loneState_again] at stepped
      refine Run.step before ⟨loneHistory_sameList _, ?_⟩ stepped
      intro missing
      rw [lone.found] at missing
      cases missing

/-- The field of a key counted `2 ^ 48` times reads as zero. -/
theorem counters_wrap :
    newInit 0 0 = some (fresh 0 0) ∧ ∃ history cdb,
      Run (step collidingHash) (fun history cdb call => SameList history call ∧ CallPutOk collidingHash cdb call)
        (fresh 0 0) history cdb ∧ ¬ CountersSorted collidingHash history cdb := by
  have run := lone_run (2 ^ 48 - 1) (by decide)
  have lone := loneState_lone ((2 ^ 48 - 1 + 1) % 2 ^ 48)
  refine ⟨rfl, _, _, run, ?_⟩
  rintro ⟨chains, free, lists⟩
  rcases lists.counted [97] 0 ⟨fun _ => 0, 2 ^ 48 - 1, List.mem_cons_of_mem _ List.mem_cons_self, by decide⟩ with
    ⟨pos, found, bucket, member, _, use, countIs, _⟩
  rw [lone.found] at found
  cases found
  rw [lone.use] at use
  have field := ((lists.chained 0).buckets bucket member).count
  rw [← use, lone.node, countIs, incs_loneHistory_wraps] at field
  exact absurd field (by decide)

end SxeCdb
end LibKit
