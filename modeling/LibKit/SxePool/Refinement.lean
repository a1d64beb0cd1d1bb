import LibKit.SxePool.States

namespace LibKit
namespace SxePool

open SxeList (Heap Represents Describes)

/-!
# Runs on pools

Through any run of calls the queues of a pool hold its elements by state, from
the one that entered the state first to the one that entered it last.
-/

/-! ## Calls -/

inductive Operation where
  | set (id oldState newState : Nat)
  | tryTo (id oldState newState : Nat)
  | setOldest (oldState newState : Nat)
  | touch (id : Nat)

/-- One call, and whether it takes the lock.  The answer is the result and the
state that is returned through the pointer. -/
def perform (pool : Pool) : Bool × Operation → Option ((Nat × Nat) × Pool)
  | (taken, .set id oldState newState) =>
      (pool.setIndexed taken id oldState newState).map fun (result, pool) => ((result, newState), pool)
  | (taken, .tryTo id oldState newState) => pool.tryIndexed taken id oldState newState
  | (taken, .setOldest oldState newState) =>
      (pool.setOldest taken oldState newState).map fun (result, pool) => ((result, newState), pool)
  | (taken, .touch id) => (pool.touch taken id).map fun (result, pool) => ((result, 0), pool)

/-- Indexes and states are inside their bounds. -/
def Valid (layout : Layout) : Operation → Prop
  | .set id oldState newState | .tryTo id oldState newState =>
      id < layout.number ∧ oldState < layout.states ∧ newState < layout.states
  | .setOldest oldState newState => oldState < layout.states ∧ newState < layout.states
  | .touch id => id < layout.number

def Ages.step (ages : Ages) : Bool × Operation → Ages
  | (false, _) => ages
  | (true, .set id oldState newState) | (true, .tryTo id oldState newState) =>
      if oldState = ages.state id then ages.enter id newState else ages
  | (true, .setOldest oldState newState) =>
      match (ages.queues oldState).head? with
      | none => ages
      | some id => ages.enter id newState
  | (true, .touch id) => ages.enter id (ages.state id)

section

variable {pool : Pool} {ages : Ages}

theorem Tracks.setAsserted (tracks : Tracks pool ages) {id : Nat} (small : id < pool.number) (oldState newState : Nat) :
    pool.setAsserted id oldState newState =
      if oldState = ages.state id then some (pool.enter id oldState newState) else none := by
  rw [Pool.setAsserted]
  by_cases same : oldState = ages.state id
  · rw [if_pos same, same, tracks.setUnlocked small]
  · rw [if_neg same, tracks.setUnlocked_other small same]
    rfl

/-- The oldest element of a state is at the head of its queue. -/
theorem Tracks.peekHead (tracks : Tracks pool ages) {state : Nat} (valid : state < pool.states) :
    SxeList.peekHead pool.heap (pool.queueAt state) = some ((ages.queues state).head?.map pool.nodeAt) :=
  tracks.holds.peekHead valid

theorem Tracks.head (tracks : Tracks pool ages) {state id : Nat} (valid : state < pool.states)
    (first : (ages.queues state).head? = some id) :
    id < pool.number ∧ ages.state id = state ∧ pool.indexOf (pool.nodeAt id) = id := by
  have member := List.mem_of_mem_head? first
  have small := tracks.holds.bound state valid id member
  exact ⟨small, ((tracks.mem_iff id state small valid).mp member).symm, tracks.holds.placed.index id small⟩

theorem Tracks.touch (tracks : Tracks pool ages) {id : Nat} (small : id < pool.number) :
    pool.touch true id = some (lockTaken, pool.enter id (ages.state id) (ages.state id)) := by
  simp only [Pool.touch, tracks.node_state small, tracks.setAsserted small, not_true_eq_false, if_false, if_true,
    Option.map_some]

theorem Tracks.perform (tracks : Tracks pool ages) {call : Bool × Operation} (valid : Valid pool.toLayout call.2)
    {answer : Nat × Nat} {after : Pool} (performed : perform pool call = some (answer, after)) :
    Tracks after (ages.step call) ∧ after.toLayout = pool.toLayout := by
  rcases call with ⟨taken, operation⟩
  cases taken with
  | false =>
      cases operation <;> cases performed <;> exact ⟨tracks, rfl⟩
  | true =>
      cases operation with
      | set id oldState newState =>
          rcases valid with ⟨small, -, validNew⟩
          simp only [SxePool.perform, Pool.setIndexed, tracks.setAsserted small, not_true_eq_false,
            if_false] at performed
          rw [Ages.step]
          split at performed
          · rename_i same
            cases performed
            subst same
            rw [if_pos rfl]
            exact ⟨tracks.enter small validNew, rfl⟩
          · cases performed
      | tryTo id oldState newState =>
          rcases valid with ⟨small, -, validNew⟩
          simp only [SxePool.perform, Pool.tryIndexed, not_true_eq_false, if_false] at performed
          rw [Ages.step]
          by_cases same : oldState = ages.state id
          · subst same
            rw [tracks.setUnlocked small] at performed
            cases performed
            rw [if_pos rfl]
            exact ⟨tracks.enter small validNew, rfl⟩
          · rw [tracks.setUnlocked_other small same] at performed
            rw [if_neg same]
            simp only [Bool.false_eq_true, if_false, Option.bind_some, Pool.indexToState, small, if_true,
              Option.map_some, Option.some.injEq, Prod.mk.injEq] at performed
            rw [← performed.2]
            exact ⟨tracks, rfl⟩
      | setOldest oldState newState =>
          rcases valid with ⟨validOld, validNew⟩
          simp only [SxePool.perform, Pool.setOldest, tracks.peekHead validOld, not_true_eq_false, if_false,
            Option.bind_some] at performed
          rw [Ages.step]
          cases first : (ages.queues oldState).head? with
          | none =>
              rw [first] at performed
              cases performed
              exact ⟨tracks, rfl⟩
          | some id =>
              rcases tracks.head validOld first with ⟨small, same, index⟩
              rw [first] at performed
              simp only [Option.map_some, index, tracks.setAsserted small, same, if_true] at performed
              cases performed
              rw [← same]
              exact ⟨tracks.enter small validNew, rfl⟩
      | touch id =>
          have small : id < pool.number := valid
          rw [SxePool.perform, tracks.touch small] at performed
          cases performed
          exact ⟨tracks.enter small (tracks.valid id small), rfl⟩

/-! ## Queues and ages -/

theorem Tracks.queues_perm (tracks : Tracks pool ages) :
    ((List.range pool.states).flatMap ages.queues).Perm (List.range pool.number) := by
  refine (List.perm_ext_iff_of_nodup ?_ List.nodup_range).mpr ?_
  · refine List.nodup_flatMap.mpr ⟨?_, ?_⟩
    · exact fun state member => tracks.holds.nodup (List.mem_range.mp member)
    · refine List.nodup_range.imp_of_mem ?_
      intro first second inFirst inSecond different id memberFirst memberSecond
      exact different (tracks.holds.one first second (List.mem_range.mp inFirst) (List.mem_range.mp inSecond) id
        memberFirst memberSecond)
  · intro id
    rw [List.mem_flatMap, List.mem_range]
    constructor
    · rintro ⟨state, inside, member⟩
      exact tracks.holds.bound state (List.mem_range.mp inside) id member
    · intro small
      exact ⟨ages.state id, List.mem_range.mpr (tracks.valid id small), tracks.member small⟩

theorem Tracks.length_le (tracks : Tracks pool ages) {state : Nat} (valid : state < pool.states) :
    (ages.queues state).length ≤ pool.number := by
  have subset : ages.queues state ⊆ List.range pool.number :=
    fun id isMember => List.mem_range.mpr (tracks.holds.bound state valid id isMember)
  have bound := (List.subperm_of_subset (tracks.holds.nodup valid) subset).length_le
  rwa [List.length_range] at bound

theorem Tracks.lengths (tracks : Tracks pool ages) (few : pool.number < 2 ^ 32) :
    ((List.range pool.states).map fun state => pool.heap.length (pool.queueAt state)).sum = pool.number := by
  have total := tracks.queues_perm.length_eq
  rw [List.length_flatMap, List.length_range] at total
  have each : ∀ state ∈ List.range pool.states,
      pool.heap.length (pool.queueAt state) = (ages.queues state).length := by
    intro state member
    have valid := List.mem_range.mp member
    have inside := tracks.length_le valid
    rw [(tracks.holds.lists state valid).length, List.length_map]
    exact Nat.mod_eq_of_lt (by omega)
  rw [List.map_congr_left each]
  exact total

/-- What a pool says about its elements, given the ages of these. -/
structure Sound (pool : Pool) (ages : Ages) : Prop where
  queues : ∀ state, state < pool.states →
    Describes (pool.queueAt state) pool.heap ((ages.queues state).map pool.nodeAt) ∧
      ∀ id ∈ ages.queues state, id < pool.number
  one : ∀ id, id < pool.number → ages.state id < pool.states ∧
    ∀ state, state < pool.states → (id ∈ ages.queues state ↔ state = ages.state id)
  node : ∀ id, id < pool.number → (pool.heap.node (pool.nodeAt id)).id = ages.state id
  total : ((List.range pool.states).map fun state => pool.heap.length (pool.queueAt state)).sum = pool.number
  ordered : ages.clock < 2 ^ 64 → ∀ state, state < pool.states →
    (ages.queues state).Pairwise fun first second => pool.last (pool.nodeAt first) < pool.last (pool.nodeAt second)
  oldest : ∀ state, state < pool.states → ∃ index, pool.getOldestIndex true state = some index ∧
    (index = noIndex ↔ ∀ id, id < pool.number → ages.state id ≠ state) ∧
    (index ≠ noIndex → index < pool.number ∧ ages.state index = state ∧
      ∀ other, other < pool.number → ages.state other = state → ages.stamp index ≤ ages.stamp other)
  incorrect : ∀ id oldState newState, id < pool.number → oldState ≠ ages.state id →
    pool.tryIndexed true id oldState newState = some ((incorrectState, ages.state id), pool)

/-- The oldest element of a state has entered it before the others. -/
theorem Tracks.oldest (tracks : Tracks pool ages) (few : pool.number < 2 ^ 32) {state : Nat}
    (valid : state < pool.states) :
    ∃ index, pool.getOldestIndex true state = some index ∧
      (index = noIndex ↔ ∀ id, id < pool.number → ages.state id ≠ state) ∧
      (index ≠ noIndex → index < pool.number ∧ ages.state index = state ∧
        ∀ other, other < pool.number → ages.state other = state → ages.stamp index ≤ ages.stamp other) := by
  have ordered := tracks.ordered state valid
  have mem_iff := fun id small => tracks.mem_iff id state small valid
  simp only [Pool.getOldestIndex, not_true_eq_false, if_false, tracks.peekHead valid]
  cases queue : ages.queues state with
  | nil =>
      refine ⟨noIndex, rfl, ⟨fun _ id small same => ?_, fun _ => rfl⟩, fun different => absurd rfl different⟩
      have member := (mem_iff id small).mpr same.symm
      rw [queue] at member
      cases member
  | cons id others =>
      have first : (ages.queues state).head? = some id := by rw [queue]; rfl
      rcases tracks.head valid first with ⟨small, same, index⟩
      have notNone : id ≠ noIndex := by
        rw [noIndex]
        omega
      refine ⟨id, by simp [index], ⟨fun equal => absurd equal notNone, fun none => absurd same (none id small)⟩, ?_⟩
      intro _
      refine ⟨small, same, ?_⟩
      intro other smallOther sameState
      have member := (mem_iff other smallOther).mpr sameState.symm
      rw [queue] at member ordered
      rcases List.mem_cons.mp member with rfl | later
      · exact Nat.le_refl _
      · exact Nat.le_of_lt ((List.pairwise_cons.mp ordered).1 other later)

theorem Tracks.sound (tracks : Tracks pool ages) (few : pool.number < 2 ^ 32) : Sound pool ages := by
  refine ⟨?_, ?_, fun id small => tracks.node_state small, tracks.lengths few, ?_,
    fun state valid => tracks.oldest few valid, ?_⟩
  · exact fun state valid => ⟨(tracks.holds.lists state valid).describes, tracks.holds.bound state valid⟩
  · exact fun id small => ⟨tracks.valid id small, fun state valid => tracks.mem_iff id state small valid⟩
  · intro early state valid
    refine (tracks.ordered state valid).imp_of_mem ?_
    intro first second inFirst inSecond less
    have smallFirst := tracks.holds.bound state valid first inFirst
    have smallSecond := tracks.holds.bound state valid second inSecond
    have pastFirst := tracks.past first smallFirst
    have pastSecond := tracks.past second smallSecond
    rw [tracks.counts first smallFirst, tracks.counts second smallSecond, Nat.mod_eq_of_lt (by omega),
      Nat.mod_eq_of_lt (by omega)]
    exact less
  · intro id oldState newState small different
    simp only [Pool.tryIndexed, not_true_eq_false, if_false, tracks.setUnlocked_other small different,
      Bool.false_eq_true, Option.bind_some, Pool.indexToState, small, if_true, tracks.node_state small, Option.map_some]

/-! ## Runs -/

/-- The ages after some calls, the latest first. -/
def agesAfter (number : Nat) : History (Bool × Operation) (Nat × Nat) → Ages
  | [] => startAges number
  | (call, _) :: history => (agesAfter number history).step call

def Allowed (_ : History (Bool × Operation) (Nat × Nat)) (pool : Pool) (call : Bool × Operation) : Prop :=
  Valid pool.toLayout call.2

/-- Through any run a pool tracks the ages of its elements. -/
theorem Tracks.run {start : Pool} {number : Nat} (tracks : Tracks start (startAges number))
    {history : History (Bool × Operation) (Nat × Nat)} (run : Run SxePool.perform Allowed start history pool) :
    Tracks pool (agesAfter number history) ∧ pool.toLayout = start.toLayout := by
  refine run.invariant (fun history pool => Tracks pool (agesAfter number history) ∧ pool.toLayout = start.toLayout)
    ⟨tracks, rfl⟩ ?_
  rintro history pool call answer next ⟨holds, layout⟩ allowed performed
  rcases holds.perform allowed performed with ⟨holds', layout'⟩
  exact ⟨holds', layout'.trans layout⟩

end

/-- Through any run of calls on a new pool each element is in the queue of its
state, the queues are in the order in which elements entered them, and the
oldest elements are found. -/
theorem pool_run_sound (heap : Heap) (last : UInt64 → Nat) {base : UInt64} {number size states : Nat}
    (notNull : base ≠ 0)
    (few : number < 2 ^ 32) (some : 0 < states)
    (fits : base.toNat + (144 + number * size + states * 40 + number * 32) ≤ 2 ^ 64)
    {history : History (Bool × Operation) (Nat × Nat)} {pool : Pool}
    (run : Run perform Allowed (Pool.construct heap last base number size states) history pool) :
    pool.number = number ∧ pool.states = states ∧ Sound pool (agesAfter number history) := by
  rcases construct_tracks heap last notNull few some fits with ⟨start, isNumber, isStates⟩
  rcases start.run run with ⟨tracks, layout⟩
  have sameNumber : pool.number = number := (congrArg Layout.number layout).trans isNumber
  exact ⟨sameNumber, (congrArg Layout.states layout).trans isStates, tracks.sound (by rw [sameNumber]; exact few)⟩

/-- A pool at address 4096 with two elements of eight bytes and one state. -/
def smallPool : Pool := Pool.construct SxeList.blank (fun _ => 0) 4096 2 8 1

theorem smallPool_tracks : Tracks smallPool (startAges 2) ∧ smallPool.number = 2 ∧ smallPool.states = 1 :=
  construct_tracks SxeList.blank (fun _ => 0) (by decide) (by decide) (by decide) (by decide)

/-- The first element is touched, so that the second is the oldest. -/
theorem pool_run_sound_touch : ∃ pool,
    perform smallPool (true, .touch 0) = some ((lockTaken, 0), pool) ∧ Sound pool ((startAges 2).enter 0 0) := by
  rcases smallPool_tracks with ⟨tracks, number, -⟩
  have small : 0 < smallPool.number := by rw [number]; decide
  have touched : perform smallPool (true, .touch 0) = some ((lockTaken, 0), smallPool.enter 0 0 0) := by
    rw [perform, tracks.touch small]
    rfl
  have run : Run perform Allowed smallPool [((true, .touch 0), (lockTaken, 0))] (smallPool.enter 0 0 0) :=
    Run.step Run.start small touched
  exact ⟨_, touched,
    (pool_run_sound SxeList.blank (fun _ => 0) (by decide) (by decide) (by decide) (by decide) run).2.2⟩

/-- The first element can be touched any number of times. -/
theorem exists_run_touches (count : Nat) : ∃ history pool,
    Run perform Allowed smallPool history pool ∧ (agesAfter 2 history).queues 0 = [1, 0] ∧
      (agesAfter 2 history).state 0 = 0 ∧ (agesAfter 2 history).stamp 1 = 1 ∧
      (agesAfter 2 history).stamp 0 = 2 + count ∧ (agesAfter 2 history).clock = 2 + count := by
  rcases smallPool_tracks with ⟨start, isNumber, -⟩
  induction count with
  | zero => exact ⟨[], smallPool, Run.start, rfl, rfl, rfl, rfl, rfl⟩
  | succ count ih =>
      rcases ih with ⟨history, pool, run, queue, state, other, stamp, clock⟩
      rcases start.run run with ⟨tracks, layout⟩
      have small : 0 < pool.number := by
        rw [congrArg Layout.number layout, isNumber]
        decide
      have touched : perform pool (true, .touch 0) = some ((lockTaken, 0), pool.enter 0 0 0) := by
        rw [perform, tracks.touch small, state]
        rfl
      refine ⟨((true, .touch 0), (lockTaken, 0)) :: history, _, Run.step run small touched, ?_, ?_, ?_, ?_, ?_⟩
      · rw [agesAfter, Ages.step, Ages.enter_queues, state, added, Function.update_self, removed, Function.update_self,
          queue]
        rfl
      · rw [agesAfter, Ages.step, Ages.enter_state_self]
        exact state
      · rw [agesAfter, Ages.step, Ages.enter_stamp_of_ne _ _ (by decide)]
        exact other
      · rw [agesAfter, Ages.step, Ages.enter_stamp_self, clock]
        omega
      · rw [agesAfter, Ages.step, Ages.enter_clock, clock]
        omega

/-- After the first element was touched `2 ^ 64 - 2` times, the queue is not in
the order of the counts. -/
theorem counts_wrap : ∃ history pool,
    Run perform Allowed smallPool history pool ∧
      Describes (pool.queueAt 0) pool.heap [pool.nodeAt 1, pool.nodeAt 0] ∧
      pool.last (pool.nodeAt 1) = 1 ∧ pool.last (pool.nodeAt 0) = 0 := by
  rcases exists_run_touches (2 ^ 64 - 2) with ⟨history, pool, run, queue, -, other, stamp, -⟩
  rcases smallPool_tracks with ⟨start, isNumber, isStates⟩
  rcases start.run run with ⟨tracks, layout⟩
  have number : pool.number = 2 := (congrArg Layout.number layout).trans isNumber
  have states : pool.states = 1 := (congrArg Layout.states layout).trans isStates
  have describes := (tracks.holds.lists 0 (by omega)).describes
  rw [queue] at describes
  refine ⟨history, pool, run, describes, ?_, ?_⟩
  · have count := tracks.counts 1 (by omega)
    omega
  · have count := tracks.counts 0 (by omega)
    omega

end SxePool
end LibKit
