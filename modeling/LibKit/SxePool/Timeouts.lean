import LibKit.SxePool.Timed

namespace LibKit
namespace SxePool

open SxeList (Heap)

/-!
# Timeouts

In a pool with timeouts the elements of each queue are in the order of the times
when they entered their state.  An element that enters a state while the pools
are checked does so no earlier than the pass has read the clock, so it is not
too old for this pass.
-/

/-! ## Timed pools -/

namespace Pool

def stateOf (pool : Pool) (id : Nat) : Nat := (pool.heap.node (pool.nodeAt id)).id

/-- The time when an element entered its state. -/
def timeOf (pool : Pool) (id : Nat) : Nat := pool.last (pool.nodeAt id)

/-- The pool after an element has entered a state. -/
def enterTimed (pool : Pool) (time : Timestamp) (id oldState newState : Nat) : Pool :=
  (({ pool with heap := SxeList.unlink pool.heap (pool.queueAt oldState) (pool.nodeAt id) } : Pool).stamp id time).enqueue id
    newState

end Pool

/-- The queues of a timed pool are in the order of times, none of which is later
than the clock. -/
structure Timed (pool : Pool) (queues : Nat → List Nat) (clock : Nat) : Prop where
  holds : Holds pool queues
  few : pool.number < 2 ^ 32
  queued : ∀ id, id < pool.number → ∃ state, state < pool.states ∧ id ∈ queues state
  ordered : ∀ state, state < pool.states →
    (queues state).Pairwise fun first second => pool.timeOf first ≤ pool.timeOf second
  past : ∀ id, id < pool.number → pool.timeOf id ≤ clock

/-- Each element is what it was, or has entered its state since a time. -/
def Kept (clock : Nat) (pool after : Pool) : Prop :=
  after.toLayout = pool.toLayout ∧ ∀ id, id < pool.number →
    (after.stateOf id = pool.stateOf id ∧ after.timeOf id = pool.timeOf id) ∨ clock ≤ after.timeOf id

section

variable {pool after : Pool} {queues : Nat → List Nat} {clock : Nat} {id state newState : Nat} {time : Timestamp}

theorem Kept.refl (clock : Nat) (pool : Pool) : Kept clock pool pool := ⟨rfl, fun _ _ => Or.inl ⟨rfl, rfl⟩⟩

theorem Kept.trans {earlier later : Pool} {since : Nat} (first : Kept clock earlier pool)
    (second : Kept since pool later)
    (passed : clock ≤ since) : Kept clock earlier later := by
  rcases first with ⟨layout, kept⟩
  rcases second with ⟨layout', kept'⟩
  refine ⟨layout'.trans layout, ?_⟩
  intro id small
  rcases kept' id (congrArg Layout.number layout ▸ small) with ⟨state', time'⟩ | moved
  · rcases kept id small with ⟨state, time⟩ | moved
    · exact Or.inl ⟨state'.trans state, time'.trans time⟩
    · exact Or.inr (time'.symm ▸ moved)
  · exact Or.inr (Nat.le_trans passed moved)

theorem Timed.member (timed : Timed pool queues clock) (small : id < pool.number) :
    pool.stateOf id < pool.states ∧ id ∈ queues (pool.stateOf id) := by
  rcases timed.queued id small with ⟨state, valid, inside⟩
  have same : pool.stateOf id = state := timed.holds.node_state valid inside
  exact same ▸ ⟨valid, inside⟩

/-- The clock goes on. -/
theorem Timed.later (timed : Timed pool queues clock) {now : Nat} (passed : clock ≤ now) : Timed pool queues now :=
  ⟨timed.holds, timed.few, timed.queued, timed.ordered, fun id small => Nat.le_trans (timed.past id small) passed⟩

theorem Holds.stamp (holds : Holds pool queues) (id : Nat) (time : Timestamp) : Holds (pool.stamp id time) queues :=
  ⟨holds.placed, holds.lists, holds.offset, holds.state, holds.bound, holds.one⟩

theorem timeOf_enterTimed_self (pool : Pool) (time : Timestamp) (id oldState newState : Nat) :
    (pool.enterTimed time id oldState newState).timeOf id = time.toNat := if_pos rfl

theorem timeOf_enterTimed_of_ne (placed : Placed pool.toLayout) (small : id < pool.number) (time : Timestamp)
    (oldState newState : Nat) {other : Nat} (smallOther : other < pool.number) (different : other ≠ id) :
    (pool.enterTimed time id oldState newState).timeOf other = pool.timeOf other :=
  if_neg fun same => different (placed.node_inj _ _ smallOther small same)

theorem Timed.enter (timed : Timed pool queues clock) (small : id < pool.number) (validNew : newState < pool.states)
    (passed : clock ≤ time.toNat) :
    Timed (pool.enterTimed time id (pool.stateOf id) newState) (added (removed queues id (pool.stateOf id)) id newState)
        time.toNat ∧
      Kept clock pool (pool.enterTimed time id (pool.stateOf id) newState) := by
  rcases timed.member small with ⟨valid, inside⟩
  rcases timed.holds.dequeue valid inside with ⟨-, taken⟩
  have loose := timed.holds.loose valid inside
  have holds : Holds (pool.enterTimed time id (pool.stateOf id) newState)
      (added (removed queues id (pool.stateOf id)) id newState) := (taken.stamp id time).enqueue validNew small loose
  have self := timeOf_enterTimed_self pool time id (pool.stateOf id) newState
  have others := fun other smallOther => @timeOf_enterTimed_of_ne pool id timed.holds.placed small time
    (pool.stateOf id) newState
    other smallOther
  refine ⟨⟨holds, timed.few, ?_, ?_, ?_⟩, rfl, ?_⟩
  · intro other smallOther
    by_cases same : other = id
    · exact ⟨newState, validNew, mem_added.mpr (Or.inr ⟨rfl, same⟩)⟩
    · rcases timed.queued other smallOther with ⟨state, validState, member⟩
      exact ⟨state, validState, mem_added.mpr (Or.inl ((mem_removed_of_ne same).mpr member))⟩
  · intro state validState
    have rest : (removed queues id (pool.stateOf id) state).Pairwise fun first second =>
        (pool.enterTimed time id (pool.stateOf id) newState).timeOf first ≤
          (pool.enterTimed time id (pool.stateOf id) newState).timeOf second := by
      refine ((timed.ordered state validState).sublist (removed_sublist _ _ _ _)).imp_of_mem ?_
      intro first second inFirst inSecond older
      have notFirst : first ≠ id := fun same => loose state validState (same ▸ inFirst)
      have notSecond : second ≠ id := fun same => loose state validState (same ▸ inSecond)
      rwa [others first (taken.bound state validState first inFirst) notFirst,
        others second (taken.bound state validState second inSecond) notSecond]
    by_cases same : state = newState
    · subst same
      rw [added, Function.update_self]
      refine List.pairwise_append.mpr ⟨rest, List.pairwise_singleton _ _, ?_⟩
      intro first inFirst second isNew
      have notFirst : first ≠ id := fun same => loose state validState (same ▸ inFirst)
      have smallFirst := taken.bound state validState first inFirst
      rw [List.mem_singleton.mp isNew, self, others first smallFirst notFirst]
      exact Nat.le_trans (timed.past first smallFirst) passed
    · rw [added, Function.update_of_ne same]
      exact rest
  · intro other smallOther
    by_cases same : other = id
    · rw [same, self]
    · rw [others other smallOther same]
      exact Nat.le_trans (timed.past other smallOther) passed
  · intro other smallOther
    by_cases same : other = id
    · rw [same, self]
      exact Or.inr passed
    · rcases timed.member smallOther with ⟨validState, member⟩
      have stays : other ∈ added (removed queues id (pool.stateOf id)) id newState (pool.stateOf other) :=
        mem_added.mpr (Or.inl ((mem_removed_of_ne same).mpr member))
      exact Or.inl ⟨holds.node_state validState stays, others other smallOther same⟩

theorem Timed.setUnlockedTimed (timed : Timed pool queues clock) (small : id < pool.number) (time : Timestamp)
    (newState : Nat)
    (aborts : Bool) : pool.setUnlockedTimed time id (pool.stateOf id) newState aborts =
      some (true, pool.enterTimed time id (pool.stateOf id) newState) := by
  rcases timed.member small with ⟨valid, inside⟩
  rcases timed.holds.dequeue valid inside with ⟨taken, -⟩
  have same : (pool.heap.node (pool.nodeAt id)).id = pool.stateOf id := rfl
  rw [Pool.setUnlockedTimed, if_neg (not_not_intro same), taken]
  rfl

/-- `sxe_pool_set_indexed_element_state_unlocked` on an element in another
state. -/
theorem setUnlockedTimed_other {oldState : Nat} (different : pool.stateOf id ≠ oldState) (time : Timestamp)
    (newState : Nat)
    (aborts : Bool) : pool.setUnlockedTimed time id oldState newState aborts = if aborts then none
      else some (false, pool) :=
  if_pos different

theorem Timed.setAssertedTimed (timed : Timed pool queues clock) (small : id < pool.number) (time : Timestamp)
    (oldState newState : Nat) : pool.setAssertedTimed time id oldState newState =
      if pool.stateOf id = oldState then some (pool.enterTimed time id oldState newState) else none := by
  rw [Pool.setAssertedTimed]
  by_cases same : pool.stateOf id = oldState
  · rw [if_pos same, ← same, timed.setUnlockedTimed small]
  · rw [if_neg same, setUnlockedTimed_other same]
    rfl

theorem Timed.head (timed : Timed pool queues clock) (valid : state < pool.states)
    (first : (queues state).head? = some id) :
    id < pool.number ∧ pool.stateOf id = state ∧ pool.indexOf (pool.nodeAt id) = id := by
  have member := List.mem_of_mem_head? first
  have small := timed.holds.bound state valid id member
  exact ⟨small, timed.holds.node_state valid member, timed.holds.placed.index id small⟩

theorem Timed.perform (timed : Timed pool queues clock) {operation : Operation} (valid : Valid pool.toLayout operation)
    (passed : clock ≤ time.toNat) {answer : Nat × Nat}
    (performed : pool.performTimed time operation = some (answer, after)) :
    (∃ queues, Timed after queues time.toNat) ∧ Kept clock pool after := by
  have moves : ∀ {id newState : Nat}, id < pool.number → newState < pool.states →
      (∃ queues, Timed (pool.enterTimed time id (pool.stateOf id) newState) queues time.toNat) ∧
        Kept clock pool (pool.enterTimed time id (pool.stateOf id) newState) := by
    intro id newState small validNew
    rcases timed.enter small validNew passed with ⟨entered, kept⟩
    exact ⟨⟨_, entered⟩, kept⟩
  have stays : (∃ queues, Timed pool queues time.toNat) ∧ Kept clock pool pool :=
    ⟨⟨_, timed.later passed⟩, Kept.refl clock pool⟩
  cases operation with
  | set id oldState newState =>
      rcases valid with ⟨small, -, validNew⟩
      simp only [Pool.performTimed, Pool.setIndexedTimed, timed.setAssertedTimed small] at performed
      split at performed
      · rename_i same
        cases performed
        subst same
        exact moves small validNew
      · cases performed
  | tryTo id oldState newState =>
      rcases valid with ⟨small, -, validNew⟩
      simp only [Pool.performTimed, Pool.tryIndexedTimed] at performed
      by_cases same : pool.stateOf id = oldState
      · subst same
        rw [timed.setUnlockedTimed small] at performed
        cases performed
        exact moves small validNew
      · rw [setUnlockedTimed_other same] at performed
        simp only [Bool.false_eq_true, if_false, Option.bind_some, Pool.indexToState, small, if_true,
          Option.map_some, Option.some.injEq, Prod.mk.injEq] at performed
        rw [← performed.2]
        exact stays
  | setOldest oldState newState =>
      rcases valid with ⟨validOld, validNew⟩
      simp only [Pool.performTimed, Pool.setOldestTimed, timed.holds.peekHead validOld, Option.bind_some] at performed
      cases first : (queues oldState).head? with
      | none =>
          rw [first] at performed
          cases performed
          exact stays
      | some id =>
          rcases timed.head validOld first with ⟨small, same, index⟩
          rw [first] at performed
          simp only [Option.map_some, index, timed.setAssertedTimed small, same, if_true] at performed
          cases performed
          rw [← same]
          exact moves small validNew
  | touch id =>
      have small : id < pool.number := valid
      rw [Pool.performTimed, Pool.touchTimed] at performed
      have state : (pool.heap.node (pool.nodeAt id)).id = pool.stateOf id := rfl
      rw [state, timed.setAssertedTimed small, if_pos rfl] at performed
      cases performed
      exact moves small (timed.member small).1

theorem constructNodesTimed_holds {first : Nat} (bound : first ≤ pool.number) (some : 0 < pool.states)
    (holds : Holds pool (startQueues pool.number first))
    (times : ∀ id, first ≤ id → id < pool.number → pool.timeOf id = time.toNat) :
    (pool.constructNodesTimed time first).toLayout = pool.toLayout ∧
      Holds (pool.constructNodesTimed time first) (startQueues pool.number 0) ∧
      ∀ id, id < pool.number → (pool.constructNodesTimed time first).timeOf id = time.toNat := by
  induction first generalizing pool with
  | zero => exact ⟨rfl, holds, fun id => times id (Nat.zero_le id)⟩
  | succ first ih =>
      have loose : Loose (pool.stamp first time) (startQueues pool.number (first + 1)) first := by
        intro state _ member
        have inside := mem_startQueues.mp member
        omega
      have entered := (holds.stamp first time).enqueue some bound loose
      rw [added_startQueues bound] at entered
      rw [Pool.constructNodesTimed]
      refine @ih ((pool.stamp first time).enqueue first 0) (Nat.le_of_succ_le bound) some entered ?_
      intro id later small
      by_cases same : id = first
      · rw [same]
        exact if_pos rfl
      · refine Eq.trans (if_neg fun equal => same (holds.placed.node_inj _ _ small bound equal)) ?_
        exact times id (by omega) small

theorem constructTimed_timed (heap : Heap) (last : UInt64 → Nat) {base : UInt64} {number size states : Nat}
    (notNull : base ≠ 0)
    (few : number < 2 ^ 32) (some : 0 < states)
    (fits : base.toNat + (144 + number * size + states * 40 + number * 32) ≤ 2 ^ 64) (time : Timestamp) :
    ∃ queues, Timed (Pool.constructTimed heap last base number size states time) queues time.toNat := by
  have placed := placed_of_fits notNull few fits
  rw [Pool.constructTimed]
  generalize made : (⟨⟨base, number, states, UInt64.ofNat (144 + number * size),
    UInt64.ofNat (144 + number * size + states * 40)⟩, 0, heap, last⟩ : Pool) = pool
  have isNumber : pool.number = number := by rw [← made]
  have isStates : pool.states = states := by rw [← made]
  replace placed : Placed pool.toLayout := by
    rw [← made]
    exact placed
  rw [← isNumber, ← isStates]
  rcases @constructQueues_empty pool pool.states placed (Nat.le_refl _) (fun state late valid => by omega) with
    ⟨layout, -, empty⟩
  generalize pool.constructQueues pool.states = queued at layout empty
  rw [← layout] at placed empty
  have holds := holds_empty placed empty
  have number' : queued.number = number := (congrArg Layout.number layout).trans isNumber
  have states' : queued.states = states := (congrArg Layout.states layout).trans isStates
  rw [isNumber, ← number']
  rcases constructNodesTimed_holds (Nat.le_refl _) (states'.symm ▸ some) holds
    (fun id late small => absurd small (Nat.not_lt.mpr late)) with ⟨layout', holds', times⟩
  generalize queued.constructNodesTimed time queued.number = final at layout' holds' times
  have same : final.number = queued.number := congrArg Layout.number layout'
  have positive : 0 < final.states := by
    rw [congrArg Layout.states layout', states']
    exact some
  refine ⟨_, holds', by rw [same, number']; exact few, ?_, ?_, ?_⟩
  · intro id small
    exact ⟨0, positive, mem_startQueues.mpr ⟨rfl, Nat.zero_le id, same ▸ small⟩⟩
  · intro state valid
    refine List.Pairwise.imp_of_mem ?_ (List.pairwise_of_forall fun _ _ => trivial)
    intro first second inFirst inSecond _
    rw [times first (mem_startQueues.mp inFirst).2.2, times second (mem_startQueues.mp inSecond).2.2]
  · intro id small
    exact Nat.le_of_eq (times id (same ▸ small))

end

/-! ## Sequences of calls -/

def Timers.Keeps (timers : Timers) : Prop :=
  ∀ pool ∈ timers.pools, ∃ queues, Timed pool.toPool queues timers.clock.toNat

/-- The pools are those that there were, with elements that are what they were or
have entered their states since a time. -/
def Timers.Kept (timers : Timers) (clock : Nat) (after : Timers) : Prop :=
  ∀ (place : Nat) (later : TimedPool), after.pools[place]? = some later → ∃ pool :
    TimedPool, timers.pools[place]? = some pool ∧
    later.stateTimeouts = pool.stateTimeouts ∧ SxePool.Kept clock pool.toPool later.toPool

/-- A call is made no earlier than those before, with an index and states that are
inside their bounds. -/
def Timers.Valid (timers : Timers) (called : TimedCall) : Prop :=
  timers.clock ≤ called.time ∧
    ∀ pool, timers.pools[called.pool]? = some pool → SxePool.Valid pool.toLayout called.operation

def Timers.AllValid (timers : Timers) : List TimedCall → Prop
  | [] => True
  | called :: others => timers.Valid called ∧ ∀ after, timers.call called = some after → after.AllValid others

section

variable {timers after : Timers}

theorem Timers.Keeps.call (keeps : timers.Keeps) {called : TimedCall} (valid : timers.Valid called)
    (stepped : timers.call called = some after) :
    after.Keeps ∧ timers.clock ≤ after.clock ∧ timers.Kept timers.clock.toNat after := by
  rcases valid with ⟨passed, valid⟩
  rw [Timers.call] at stepped
  cases found : timers.pools[called.pool]? with
  | none =>
      rw [found] at stepped
      cases stepped
  | some pool =>
      rw [found] at stepped
      rcases Option.map_eq_some_iff.mp stepped with ⟨⟨answer, changed⟩, performed, rfl⟩
      rcases keeps pool (List.mem_of_getElem? found) with ⟨queues, timed⟩
      rcases timed.perform (valid pool found) (UInt64.le_iff_toNat_le.mp passed) performed with ⟨entered, kept⟩
      refine ⟨?_, passed, ?_⟩
      · intro other member
        rcases List.mem_or_eq_of_mem_set member with before | rfl
        · rcases keeps other before with ⟨queues, timed⟩
          exact ⟨queues, timed.later (UInt64.le_iff_toNat_le.mp passed)⟩
        · exact entered
      · intro place later isLater
        rcases Nat.decEq called.pool place with different | rfl
        · have same : timers.pools[place]? = some later := (List.getElem?_set_ne different).symm.trans isLater
          exact ⟨later, same, rfl, SxePool.Kept.refl _ _⟩
        · have inside : called.pool < timers.pools.length := (List.getElem?_eq_some_iff.mp found).1
          rw [List.getElem?_set_self inside] at isLater
          cases isLater
          exact ⟨pool, found, rfl, kept⟩

/-- Calls leave the pools timed. -/
theorem Timers.Keeps.calls {called : List TimedCall} (keeps : timers.Keeps) (valid : timers.AllValid called)
    (stepped : timers.calls called = some after) :
    after.Keeps ∧ timers.clock ≤ after.clock ∧ timers.Kept timers.clock.toNat after := by
  induction called generalizing timers with
  | nil =>
      cases stepped
      exact ⟨keeps, UInt64.le_refl _, fun place later found => ⟨later, found, rfl, SxePool.Kept.refl _ _⟩⟩
  | cons first others ih =>
      rcases Option.bind_eq_some_iff.mp stepped with ⟨middle, called, stepped'⟩
      rcases keeps.call valid.1 called with ⟨keeps', passed, kept⟩
      rcases ih keeps' (valid.2 middle called) stepped' with ⟨keeps'', passed', kept'⟩
      refine ⟨keeps'', UInt64.le_trans passed passed', ?_⟩
      intro place later found
      rcases kept' place later found with ⟨between, found', timeouts', same'⟩
      rcases kept place between found' with ⟨pool, found, timeouts, same⟩
      exact ⟨pool, found, timeouts'.trans timeouts, same.trans same' (UInt64.le_iff_toNat_le.mp passed)⟩

end

/-! ## The pass -/

/-- The time of an element in its state has reached the timeout of this state. -/
def TimedOut (timeNow : Timestamp) (pool : TimedPool) (id : Nat) : Prop :=
  pool.stateTimeouts (pool.stateOf id) ≠ 0 ∧
    pool.timeOf id + (pool.stateTimeouts (pool.stateOf id)).toNat ≤ timeNow.toNat

namespace Scan

variable (timeNow : Timestamp) (scan : Scan)

/-- If the callback is called next, it is for an element that has timed out. -/
def Right : Prop :=
  ∀ index time, scan.next timeNow = some (.callback index time) →
    ∀ pool, scan.pools[scan.walker]? = some pool → TimedOut timeNow pool index

/-- The oldest element of the state that is looked at has not entered it after the
pass has read the clock, unless it did so later by so much that the difference of
the times is below the timeout. -/
def Meets : Prop :=
  ∀ pool, scan.pools[scan.walker]? = some pool → scan.state < pool.states → pool.stateTimeouts scan.state ≠ 0 →
    ∀ index, pool.getOldestIndex true scan.state = some index → index ≠ noIndex →
      pool.timeOf index ≤ timeNow.toNat ∨
        2 ^ 64 + timeNow.toNat < pool.timeOf index + (pool.stateTimeouts scan.state).toNat

/-- The callback makes calls that are valid, and leaves the element in another
state. -/
def Legal (_ : History (List TimedCall) Next) (scan : Scan) (calls : List TimedCall) : Prop :=
  scan.toTimers.AllValid calls ∧
    ∀ index time after, scan.next timeNow = some (.callback index time) → scan.toTimers.calls calls = some after →
      ∀ pool, after.pools[scan.walker]? = some pool → pool.stateOf index ≠ scan.state

end Scan

/-- The difference of times, which may wrap. -/
theorem age_lt_iff {now timeout : Timestamp} {time : Nat} (small : time < 2 ^ 64) :
    now - UInt64.ofNat time < timeout ↔
      (time ≤ now.toNat ∧ now.toNat < time + timeout.toNat) ∨
        (now.toNat < time ∧ 2 ^ 64 + now.toNat < time + timeout.toNat) := by
  have bound := now.toNat_lt
  rw [UInt64.lt_iff_toNat_lt, UInt64.toNat_sub, UInt64.toNat_ofNat_of_lt' small]
  omega

theorem Timed.oldest {pool : Pool} {queues : Nat → List Nat} {clock state : Nat} (timed : Timed pool queues clock)
    (valid : state < pool.states) :
    (pool.getOldestIndex true state = some noIndex ∧ ∀ id, id < pool.number → pool.stateOf id ≠ state) ∨
      ∃ id, pool.getOldestIndex true state = some id ∧ id ≠ noIndex ∧ pool.getOldestTime state = some (pool.timeOf id) ∧
        id < pool.number ∧ pool.stateOf id = state ∧
        ∀ other, other < pool.number → pool.stateOf other = state → pool.timeOf id ≤ pool.timeOf other := by
  have members : ∀ id, id < pool.number → pool.stateOf id = state → id ∈ queues state := by
    rintro id small rfl
    exact (timed.member small).2
  have ordered := timed.ordered state valid
  rw [Pool.getOldestIndex, Pool.getOldestTime, timed.holds.peekHead valid, if_neg (not_not_intro rfl)]
  cases queue : queues state with
  | nil =>
      refine Or.inl ⟨rfl, ?_⟩
      intro id small same
      have member := members id small same
      rw [queue] at member
      cases member
  | cons id others =>
      rcases timed.head valid (show (queues state).head? = some id by rw [queue]; rfl) with ⟨small, same, index⟩
      have few := timed.few
      refine Or.inr ⟨id, congrArg some index, ?_, rfl, small, same, ?_⟩
      · rw [noIndex]
        omega
      · intro other smallOther sameState
        have member := members other smallOther sameState
        rw [queue] at member ordered
        rcases List.mem_cons.mp member with rfl | later
        · exact Nat.le_refl _
        · exact (List.pairwise_cons.mp ordered).1 other later

section

variable {pool : TimedPool} {queues : Nat → List Nat} {clock : Timestamp} {state indexLast timeLast : Nat}
    {timeNow : Timestamp}

/-- What the pass does at a state of a pool.  The assertion holds if the element
for which the callback was called is in another state. -/
theorem Timed.next_cases (timed : Timed pool.toPool queues clock.toNat)
    (moved : indexLast = noIndex ∨ pool.stateOf indexLast ≠ state) :
    (pool.next timeNow state indexLast timeLast = some .pool ∧ pool.states ≤ state) ∨
      (pool.next timeNow state indexLast timeLast = some .state ∧
        (∀ id, id < pool.number → pool.stateOf id = state → ¬ TimedOut timeNow pool id) ∧
        (pool.stateTimeouts state ≠ 0 → ∀ id, pool.getOldestIndex true state = some id → id ≠ noIndex →
          timeNow - UInt64.ofNat (pool.timeOf id) < pool.stateTimeouts state)) ∨
      ∃ id, pool.next timeNow state indexLast timeLast = some (.callback id (pool.timeOf id)) ∧ state < pool.states ∧
        pool.stateTimeouts state ≠ 0 ∧ pool.getOldestIndex true state = some id ∧ id ≠ noIndex ∧ id < pool.number ∧
        pool.stateOf id = state ∧ ¬ timeNow - UInt64.ofNat (pool.timeOf id) < pool.stateTimeouts state := by
  by_cases valid : state < pool.states
  · by_cases infinite : pool.stateTimeouts state = 0
    · refine Or.inr (Or.inl ⟨?_, ?_, fun finite => absurd infinite finite⟩)
      · rw [TimedPool.next, if_neg (not_not_intro valid), if_pos infinite]
      · rintro id - rfl ⟨finite, -⟩
        exact finite infinite
    · rcases timed.oldest valid with ⟨found, none⟩ | ⟨id, found, some, time, small, same, oldest⟩
      · refine Or.inr (Or.inl ⟨?_, fun id small same => absurd same (none id small), ?_⟩)
        · rw [TimedPool.next, if_neg (not_not_intro valid), if_neg infinite, found]
          rfl
        · intro _ id isFound some
          rw [found] at isFound
          exact absurd (Option.some.inj isFound).symm some
      · have other : indexLast ≠ id := by
          rintro rfl
          rcases moved with isNone | isMoved
          · exact some isNone
          · exact isMoved same
        have next : pool.next timeNow state indexLast timeLast =
            if timeNow - UInt64.ofNat (pool.timeOf id) < pool.stateTimeouts state then Option.some Next.state
            else Option.some (.callback id (pool.timeOf id)) := by
          rw [TimedPool.next, if_neg (not_not_intro valid), if_neg infinite, found]
          show (if id = noIndex then _ else _) = _
          rw [if_neg some, time]
          exact if_neg (not_not_intro (Or.inl other))
        by_cases young : timeNow - UInt64.ofNat (pool.timeOf id) < pool.stateTimeouts state
        · refine Or.inr (Or.inl ⟨next.trans (if_pos young), ?_, ?_⟩)
          · rintro second smallSecond rfl ⟨-, reached⟩
            have least := oldest second smallSecond rfl
            have past := timed.past id small
            have bound := clock.toNat_lt
            rcases (age_lt_iff (by omega)).mp young with ⟨-, young⟩ | ⟨later, -⟩
            · omega
            · omega
          · intro _ second isFound _
            rw [found] at isFound
            cases isFound
            exact young
        · exact Or.inr (Or.inr ⟨id, next.trans (if_neg young), valid, infinite, found, some, small, same, young⟩)
  · exact Or.inl ⟨if_pos valid, Nat.not_lt.mp valid⟩

end

def Scan.Behind (scan : Scan) (place state : Nat) : Prop :=
  place < scan.walker ∨ place = scan.walker ∧ state < scan.state

/-- No element of a state that is behind the pass has timed out. -/
structure Scanned (timeNow : Timestamp) (scan : Scan) : Prop where
  keeps : scan.toTimers.Keeps
  late : timeNow ≤ scan.clock
  done : ∀ place pool, scan.pools[place]? = some pool → ∀ id, id < pool.number →
    scan.Behind place (pool.stateOf id) → ¬ TimedOut timeNow pool id
  moved : scan.indexOldestLast = noIndex ∨
    ∀ pool, scan.pools[scan.walker]? = some pool → pool.stateOf scan.indexOldestLast ≠ scan.state

section

variable {timeNow : Timestamp} {scan after : Scan} {calls : List TimedCall} {answer : Next}

theorem scanned_start {timers : Timers} (keeps : timers.Keeps) (passed : timers.clock ≤ timeNow) :
    Scanned timeNow (Scan.start timers timeNow) := by
  refine ⟨?_, UInt64.le_refl _, ?_, Or.inl rfl⟩
  · intro pool member
    rcases keeps pool member with ⟨queues, timed⟩
    exact ⟨queues, timed.later (UInt64.le_iff_toNat_le.mp passed)⟩
  · rintro place pool - id - (before | ⟨-, before⟩)
    · exact absurd before (Nat.not_lt_zero _)
    · exact absurd before (Nat.not_lt_zero _)

/-- The cases of the next step are those of the pool that the walker is at. -/
theorem Scanned.next_cases (scanned : Scanned timeNow scan) {pool : TimedPool}
    (found : scan.pools[scan.walker]? = some pool) :
    (scan.next timeNow = some .pool ∧ pool.states ≤ scan.state) ∨
      (scan.next timeNow = some .state ∧
        (∀ id, id < pool.number → pool.stateOf id = scan.state → ¬ TimedOut timeNow pool id) ∧
        (pool.stateTimeouts scan.state ≠ 0 → ∀ id, pool.getOldestIndex true scan.state = some id → id ≠ noIndex →
          timeNow - UInt64.ofNat (pool.timeOf id) < pool.stateTimeouts scan.state)) ∨
      ∃ id, scan.next timeNow = some (.callback id (pool.timeOf id)) ∧ scan.state < pool.states ∧
        pool.stateTimeouts scan.state ≠ 0 ∧ pool.getOldestIndex true scan.state = some id ∧ id ≠ noIndex ∧
          id < pool.number ∧
        pool.stateOf id = scan.state ∧ ¬ timeNow - UInt64.ofNat (pool.timeOf id) < pool.stateTimeouts scan.state := by
  rcases scanned.keeps pool (List.mem_of_getElem? found) with ⟨queues, timed⟩
  have next : scan.next timeNow = pool.next timeNow scan.state scan.indexOldestLast scan.timeOldestLast := by
    rw [Scan.next, found]
    rfl
  rw [next]
  exact timed.next_cases (scanned.moved.imp_right fun moved => moved pool found)

theorem not_timedOut_of_late {pool : TimedPool} {id : Nat} (late : timeNow.toNat ≤ pool.timeOf id) :
    ¬ TimedOut timeNow pool id := by
  rintro ⟨finite, reached⟩
  have positive : (pool.stateTimeouts (pool.stateOf id)).toNat ≠ 0 := fun zero => finite (UInt64.toNat_inj.mp zero)
  omega

theorem Scanned.step {history : History (List TimedCall) Next} (scanned : Scanned timeNow scan)
    (legal : Scan.Legal timeNow history scan calls) (stepped : scan.step timeNow calls = some (answer, after)) :
    Scanned timeNow after := by
  cases found : scan.pools[scan.walker]? with
  | none =>
      rw [Scan.step, Scan.next, found] at stepped
      cases stepped
  | some pool =>
      rcases scanned.next_cases found with ⟨isNext, late⟩ | ⟨isNext, none, -⟩ | ⟨id, isNext, -⟩
      · rw [Scan.step, isNext] at stepped
        cases stepped
        refine ⟨scanned.keeps, scanned.late, ?_, Or.inl rfl⟩
        rintro place other isOther id small (before | ⟨-, before⟩)
        · rcases Nat.lt_or_eq_of_le (Nat.le_of_lt_succ before) with earlier | rfl
          · exact scanned.done place other isOther id small (Or.inl earlier)
          · cases found.symm.trans isOther
            rcases scanned.keeps pool (List.mem_of_getElem? found) with ⟨queues, timed⟩
            have inside := Nat.lt_of_lt_of_le (timed.member small).1 late
            exact scanned.done scan.walker pool found id small (Or.inr ⟨rfl, inside⟩)
        · exact absurd before (Nat.not_lt_zero _)
      · rw [Scan.step, isNext] at stepped
        cases stepped
        refine ⟨scanned.keeps, scanned.late, ?_, Or.inl rfl⟩
        rintro place other isOther id small (before | ⟨rfl, before⟩)
        · exact scanned.done place other isOther id small (Or.inl before)
        · rcases Nat.lt_or_eq_of_le (Nat.le_of_lt_succ before) with earlier | same
          · exact scanned.done scan.walker other isOther id small (Or.inr ⟨rfl, earlier⟩)
          · cases found.symm.trans isOther
            exact none id small same
      · rw [Scan.step, isNext] at stepped
        rcases Option.map_eq_some_iff.mp stepped with ⟨timers, called, ended⟩
        cases ended
        rcases scanned.keeps.calls legal.1 called with ⟨keeps, passed, kept⟩
        refine ⟨keeps, UInt64.le_trans scanned.late passed, ?_, Or.inr ?_⟩
        · intro place later isLater id small before
          rcases kept place later isLater with ⟨earlier, isEarlier, timeouts, layout, same⟩
          have small' : id < earlier.number := congrArg Layout.number layout ▸ small
          rcases same id small' with ⟨sameState, sameTime⟩ | entered
          · have notBefore := scanned.done place earlier isEarlier id small' (sameState ▸ before)
            rwa [TimedOut, timeouts, sameState, sameTime]
          · exact not_timedOut_of_late (Nat.le_trans (UInt64.le_iff_toNat_le.mp scanned.late) entered)
        · exact legal.2 id (pool.timeOf id) timers isNext called

/-- The callback is called for an element that has timed out if and only if the
oldest element is not newer than the pass. -/
theorem Scanned.right_iff (scanned : Scanned timeNow scan) : scan.Right timeNow ↔ scan.Meets timeNow := by
  cases found : scan.pools[scan.walker]? with
  | none =>
      have right : scan.Right timeNow := by
        intro index time _ pool isPool
        rw [found] at isPool
        cases isPool
      have meets : scan.Meets timeNow := by
        intro pool isPool
        rw [found] at isPool
        cases isPool
      exact iff_of_true right meets
  | some pool =>
      rcases scanned.keeps pool (List.mem_of_getElem? found) with ⟨queues, timed⟩
      have bound := scan.clock.toNat_lt
      rcases scanned.next_cases found with ⟨isNext, late⟩ | ⟨isNext, -, young⟩ |
        ⟨id, isNext, valid, finite, oldest, some, small, same, old⟩
      · refine iff_of_true ?_ ?_
        · intro index time called
          rw [isNext] at called
          cases called
        · intro other isOther inside
          cases found.symm.trans isOther
          exact absurd inside (Nat.not_lt.mpr late)
      · refine iff_of_true ?_ ?_
        · intro index time called
          rw [isNext] at called
          cases called
        · intro other isOther inside finite index isOldest some
          cases found.symm.trans isOther
          rcases timed.oldest inside with ⟨isNone, -⟩ | ⟨id, isSome, -, -, small, -, -⟩
          · rw [isNone] at isOldest
            exact absurd (Option.some.inj isOldest).symm some
          · rw [isSome] at isOldest
            cases isOldest
            have past := timed.past index small
            rcases (age_lt_iff (by omega)).mp (young finite index isSome some) with ⟨earlier, -⟩ | ⟨-, wraps⟩
            · exact Or.inl earlier
            · exact Or.inr wraps
      · have past := timed.past id small
        rw [age_lt_iff (by omega)] at old
        have timedOut : TimedOut timeNow pool id ↔ pool.timeOf id + (pool.stateTimeouts scan.state).toNat ≤
          timeNow.toNat := by
          rw [TimedOut, same]
          exact and_iff_right finite
        constructor
        · intro right other isOther _ _ index isOldest _
          cases found.symm.trans isOther
          cases oldest.symm.trans isOldest
          have reached := timedOut.mp (right id _ isNext pool found)
          exact Or.inl (by omega)
        · intro meets index time called other isOther
          cases found.symm.trans isOther
          cases isNext.symm.trans called
          refine timedOut.mpr ?_
          rcases meets pool found valid finite id oldest some with earlier | wraps
          · omega
          · omega

end

/-! ## Runs -/

/-- Pools are made in memory that is large enough, and calls are valid, as time
goes on. -/
def Timers.Allowed (_ : History TimersCall Unit) (timers : Timers) : TimersCall → Prop
  | .newWithTimeouts _ _ base number size states _ time =>
      timers.clock ≤ time ∧ base ≠ 0 ∧ number < 2 ^ 32 ∧ 0 < states ∧
        base.toNat + (144 + number * size + states * 40 + number * 32) ≤ 2 ^ 64
  | .call called => timers.Valid called

theorem Timers.Keeps.step {timers after : Timers} {history : History TimersCall Unit} {call : TimersCall}
    {answer : Unit}
    (keeps : timers.Keeps) (allowed : Timers.Allowed history timers call)
    (stepped : timers.step call = some (answer, after)) :
    after.Keeps := by
  cases call with
  | newWithTimeouts heap last base number size states timeouts time =>
      rcases allowed with ⟨passed, notNull, few, some, fits⟩
      cases stepped
      intro pool member
      rcases List.mem_append.mp member with before | isNew
      · rcases keeps pool before with ⟨queues, timed⟩
        exact ⟨queues, timed.later (UInt64.le_iff_toNat_le.mp passed)⟩
      · rw [List.mem_singleton.mp isNew]
        exact constructTimed_timed heap last notNull few some fits time
  | call called =>
      rcases Option.map_eq_some_iff.mp stepped with ⟨next, isNext, same⟩
      cases same
      exact (keeps.call allowed isNext).1

/-- In every pass over pools with timeouts the callback is next called for an
element that has timed out if and only if the oldest element that is looked at
has not entered its state after the pass has read the clock, and when the pass
returns no element has timed out. -/
theorem checkTimeouts_right {clock : Timestamp} {past : History TimersCall Unit} {timers : Timers}
    (reached : Run Timers.step Timers.Allowed ⟨[], clock⟩ past timers) {timeNow : Timestamp}
      (later : timers.clock ≤ timeNow)
    {history : History (List TimedCall) Next} {scan : Scan}
    (run : Run (Scan.step timeNow) (Scan.Legal timeNow) (Scan.start timers timeNow) history scan) :
    (scan.Right timeNow ↔ scan.Meets timeNow) ∧
      (scan.Returned → ∀ pool ∈ scan.pools, ∀ id, id < pool.number → ¬ TimedOut timeNow pool id) := by
  have keeps : timers.Keeps := by
    refine reached.invariant (fun _ timers => timers.Keeps) ?_ ?_
    · exact fun pool member => absurd member List.not_mem_nil
    · exact fun _ _ _ _ _ keeps allowed stepped => keeps.step allowed stepped
  have scanned : Scanned timeNow scan := by
    refine run.invariant (fun _ scan => Scanned timeNow scan) (scanned_start keeps later) ?_
    exact fun _ _ _ _ _ scanned legal stepped => scanned.step legal stepped
  refine ⟨scanned.right_iff, ?_⟩
  intro returned pool member id small
  rcases List.mem_iff_getElem?.mp member with ⟨place, found⟩
  have inside : place < scan.pools.length := (List.getElem?_eq_some_iff.mp found).1
  exact scanned.done place pool found id small (Or.inl (Nat.lt_of_lt_of_le inside returned))

/-- A pool at address 4096 with one element of eight bytes, that times out after
five units in each of two states. -/
def oneTimer : Timers := Timers.newWithTimeouts ⟨[], 0⟩ SxeList.blank (fun _ => 0) 4096 1 8 2 (fun _ => 5) 0

theorem oneTimer_reached : ∃ past, Run Timers.step Timers.Allowed ⟨[], 0⟩ past oneTimer := by
  refine ⟨[(.newWithTimeouts SxeList.blank (fun _ => 0) 4096 1 8 2 (fun _ => 5) 0, ())], Run.step Run.start ?_ rfl⟩
  exact ⟨UInt64.le_refl 0, by decide, by decide, by decide, by decide⟩

def Scan.after (timeNow : Timestamp) (scan : Scan) (calls : List TimedCall) : Scan :=
  ((scan.step timeNow calls).map Prod.snd).getD scan

section

variable {timeNow : Timestamp} {scan : Scan} {calls : List TimedCall} {answer : Next}

theorem Scan.step_after (answered : (scan.step timeNow calls).map Prod.fst = some answer) :
    scan.step timeNow calls = some (answer, scan.after timeNow calls) := by
  rcases Option.map_eq_some_iff.mp answered with ⟨⟨first, next⟩, stepped, rfl⟩
  rw [Scan.after, stepped]
  rfl

/-- A step in which the callback is not called. -/
theorem Scan.run_silent {start : Scan} {history : History (List TimedCall) Next}
    (run : Run (Scan.step timeNow) (Scan.Legal timeNow) start history scan) (next : scan.next timeNow = some answer)
    (other : answer = .pool ∨ answer = .state) (answered : (scan.step timeNow []).map Prod.fst = some answer) :
    Run (Scan.step timeNow) (Scan.Legal timeNow) start (([], answer) :: history) (scan.after timeNow []) := by
  refine Run.step run ⟨trivial, ?_⟩ (Scan.step_after answered)
  intro index time after called
  cases next.symm.trans called
  rcases other with wrong | wrong
  · cases wrong
  · cases wrong

end

/-- The pass at 10 calls the callback for the element of the pool, which moves it to
the other state. -/
theorem oneTimer_called {time : Timestamp} (late : 10 ≤ time)
    (moves : ((Scan.start oneTimer 10).calls [⟨0, .set 0 0 1, time⟩]).map (fun after => after.pools.map fun pool =>
      pool.stateOf 0) = some [1])
    (answered : ((Scan.start oneTimer 10).step 10 [⟨0, .set 0 0 1, time⟩]).map Prod.fst = some (.callback 0 0)) :
    Run (Scan.step 10) (Scan.Legal 10) (Scan.start oneTimer 10) [([⟨0, .set 0 0 1, time⟩], .callback 0 0)]
      ((Scan.start oneTimer 10).after 10 [⟨0, .set 0 0 1, time⟩]) := by
  have next : (Scan.start oneTimer 10).next 10 = some (.callback 0 0) := by decide +kernel
  refine Run.step Run.start ⟨⟨⟨late, ?_⟩, fun _ _ => trivial⟩, ?_⟩ (Scan.step_after answered)
  · intro pool found
    cases found
    exact ⟨by decide +kernel, by decide +kernel, by decide +kernel⟩
  · intro index oldest after called changed pool found
    cases next.symm.trans called
    rw [changed] at moves
    have states : after.pools.map (fun pool => pool.stateOf 0) = [1] := Option.some.inj moves
    have state : [1][0]? = some (pool.stateOf 0) := by
      rw [← states, List.getElem?_map]
      exact congrArg (Option.map fun pool : TimedPool => pool.stateOf 0) found
    exact fun zero => absurd ((Option.some.inj state).trans zero) (by decide)

/-- A pass in which the clock stands still. -/
theorem checkTimeouts_right_still : ∃ scan : Scan, scan.Returned ∧
    ∀ pool ∈ scan.pools, ∀ id, id < pool.number → ¬ TimedOut 10 pool id := by
  rcases oneTimer_reached with ⟨past, reached⟩
  have first := @oneTimer_called 10 (UInt64.le_refl 10) (by decide +kernel) (by decide +kernel)
  generalize moved : (Scan.start oneTimer 10).after 10 [⟨0, .set 0 0 1, 10⟩] = scan at first
  have second := Scan.run_silent first (by rw [← moved]; decide +kernel) (Or.inr rfl) (by rw [← moved]; decide +kernel)
  have third := Scan.run_silent second (by rw [← moved]; decide +kernel) (Or.inr rfl) (by rw [← moved]; decide +kernel)
  have last := Scan.run_silent third (by rw [← moved]; decide +kernel) (Or.inl rfl) (by rw [← moved]; decide +kernel)
  have returned : (((scan.after 10 []).after 10 []).after 10 []).Returned := by
    rw [← moved]
    show (_ : Nat) ≤ _
    decide +kernel
  exact ⟨_, returned, (checkTimeouts_right reached (by decide) last).2 returned⟩

/-- The callback moves an element one unit after the pass has read the clock, and
is called for it again although it has not been in its new state for five. -/
theorem checkTimeouts_wrong : ∃ history scan,
    Run (Scan.step 10) (Scan.Legal 10) (Scan.start oneTimer 10) history scan ∧ ¬ scan.Right 10 := by
  have first := @oneTimer_called 11 (by decide) (by decide +kernel) (by decide +kernel)
  generalize moved : (Scan.start oneTimer 10).after 10 [⟨0, .set 0 0 1, 11⟩] = scan at first
  have second := Scan.run_silent first (by rw [← moved]; decide +kernel) (Or.inr rfl) (by rw [← moved]; decide +kernel)
  refine ⟨_, _, second, ?_⟩
  intro right
  have called : (scan.after 10 []).next 10 = some (.callback 0 11) := by
    rw [← moved]
    decide +kernel
  have times : (scan.after 10 []).pools.map (fun pool => pool.timeOf 0) = [11] := by
    rw [← moved]
    decide +kernel
  have walker : (scan.after 10 []).walker = 0 := by
    rw [← moved]
    decide +kernel
  rcases List.map_eq_cons_iff.mp times with ⟨pool, others, pools, time, -⟩
  have found : (scan.after 10 []).pools[(scan.after 10 []).walker]? = some pool := by
    rw [pools, walker]
    rfl
  have reached := (right 0 11 called pool found).2
  have now : (10 : Timestamp).toNat = 10 := rfl
  omega

end SxePool
end LibKit
