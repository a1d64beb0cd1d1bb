import LibKit.SxePool.Refinement

namespace LibKit
namespace SxePool

open SxeList (Heap)

/-!
# Pools with timeouts

The nodes of a pool with `SXE_POOL_OPTION_TIMED` hold the times when elements
entered their states.  `sxe_pool_check_timeouts` reads the clock, and then calls
the callbacks of all pools with timeouts for elements that are too old.

Functions that call `kit_timestamp_get` have what it returns as an argument.  A
callback is given by the calls that it makes.  Pools with timeouts have no lock.
-/

/-- `kit_timestamp_t` -/
abbrev Timestamp := UInt64

namespace Pool

def stamp (pool : Pool) (id : Nat) (time : Timestamp) : Pool :=
  { pool with last := fun address => if address = pool.nodeAt id then time.toNat else pool.last address }

/-! ## Construction -/

/-- The loop of `sxe_pool_construct` over the nodes. -/
def constructNodesTimed (pool : Pool) (time : Timestamp) : Nat → Pool
  | 0 => pool
  | number + 1 => constructNodesTimed ((pool.stamp number time).enqueue number 0) time number

/-- `sxe_pool_construct` with `SXE_POOL_OPTION_TIMED`, for which `next_count` is not
used. -/
def constructTimed (heap : Heap) (last : UInt64 → Nat) (base : UInt64) (number size states : Nat)
    (time : Timestamp) : Pool :=
  let pool : Pool := {
    base := base
    number := number
    states := states
    queue := UInt64.ofNat (144 + number * size)
    nodes := UInt64.ofNat (144 + number * size + states * 40)
    nextCount := 0
    heap := heap
    last := last }
  (pool.constructQueues states).constructNodesTimed time number

/-! ## Changing states -/

/-- `sxe_pool_set_indexed_element_state_unlocked` -/
def setUnlockedTimed (pool : Pool) (time : Timestamp) (id oldState newState : Nat) (aborts : Bool) :
    Option (Bool × Pool) :=
  if (pool.heap.node (pool.nodeAt id)).id ≠ oldState then if aborts then none else some (false, pool)
  else
    (SxeList.remove pool.heap (pool.queueAt oldState) (pool.nodeAt id)).map fun (_, heap) =>
      (true, (({ pool with heap := heap } : Pool).stamp id time).enqueue id newState)

/-- A call of `sxe_pool_set_indexed_element_state_unlocked` that is asserted to
succeed. -/
def setAssertedTimed (pool : Pool) (time : Timestamp) (id oldState newState : Nat) : Option Pool :=
  match pool.setUnlockedTimed time id oldState newState true with
  | some (true, pool) => some pool
  | _ => none

/-- `sxe_pool_set_indexed_element_state` -/
def setIndexedTimed (pool : Pool) (time : Timestamp) (id oldState newState : Nat) : Option (Nat × Pool) :=
  (pool.setAssertedTimed time id oldState newState).map fun pool => (lockTaken, pool)

/-- `sxe_pool_try_to_set_indexed_element_state` -/
def tryIndexedTimed (pool : Pool) (time : Timestamp) (id oldState newState : Nat) : Option ((Nat × Nat) × Pool) :=
  (pool.setUnlockedTimed time id oldState newState false).bind fun (success, pool) =>
    if success then some ((id, newState), pool)
    else (pool.indexToState id).map fun state => ((incorrectState, state), pool)

/-- `sxe_pool_set_oldest_element_state` -/
def setOldestTimed (pool : Pool) (time : Timestamp) (oldState newState : Nat) : Option (Nat × Pool) :=
  (SxeList.peekHead pool.heap (pool.queueAt oldState)).bind fun
    | none => some (noIndex, pool)
    | some node =>
        (pool.setAssertedTimed time (pool.indexOf node) oldState newState).map fun after => (pool.indexOf node, after)

/-- `sxe_pool_touch_indexed_element` -/
def touchTimed (pool : Pool) (time : Timestamp) (id : Nat) : Option (Nat × Pool) :=
  let state := (pool.heap.node (pool.nodeAt id)).id
  (pool.setAssertedTimed time id state state).map fun pool => (lockTaken, pool)

/-- `sxe_pool_get_oldest_element_time` -/
def getOldestTime (pool : Pool) (state : Nat) : Option Nat :=
  (SxeList.peekHead pool.heap (pool.queueAt state)).map fun
    | none => 0
    | some node => pool.last node

def performTimed (pool : Pool) (time : Timestamp) : Operation → Option ((Nat × Nat) × Pool)
  | .set id oldState newState =>
      (pool.setIndexedTimed time id oldState newState).map fun (result, pool) => ((result, newState), pool)
  | .tryTo id oldState newState => pool.tryIndexedTimed time id oldState newState
  | .setOldest oldState newState =>
      (pool.setOldestTimed time oldState newState).map fun (result, pool) => ((result, newState), pool)
  | .touch id => (pool.touchTimed time id).map fun (result, pool) => ((result, 0), pool)

end Pool

/-! ## Pools with timeouts -/

/-- `SXE_POOL_IMPL` with `state_timeouts`. -/
structure TimedPool extends Pool where
  stateTimeouts : Nat → Timestamp

/-- The pools in `sxe_pool_timeout_list`, and what the clock said when it was last
read. -/
structure Timers where
  pools : List TimedPool
  clock : Timestamp

/-- A call that is made to one of the pools, and the time when it is made. -/
structure TimedCall where
  pool : Nat
  operation : Operation
  time : Timestamp

namespace Timers

/-- `sxe_pool_new_with_timeouts`, given the memory that is allocated. -/
def newWithTimeouts (timers : Timers) (heap : Heap) (last : UInt64 → Nat) (base : UInt64) (number size states : Nat)
    (timeouts : Nat → Timestamp) (time : Timestamp) : Timers :=
  ⟨timers.pools ++ [⟨Pool.constructTimed heap last base number size states time, timeouts⟩], time⟩

def call (timers : Timers) (called : TimedCall) : Option Timers :=
  match timers.pools[called.pool]? with
  | none => none
  | some pool =>
      (pool.performTimed called.time called.operation).map fun (_, after) =>
        ⟨timers.pools.set called.pool { pool with toPool := after }, called.time⟩

def calls (timers : Timers) : List TimedCall → Option Timers
  | [] => some timers
  | called :: others => (timers.call called).bind fun after => after.calls others

end Timers

/-- What is done with pools outside of `sxe_pool_check_timeouts`. -/
inductive TimersCall where
  | newWithTimeouts (heap : Heap) (last : UInt64 → Nat) (base : UInt64) (number size states : Nat)
      (timeouts : Nat → Timestamp)
      (time : Timestamp)
  | call (called : TimedCall)

def Timers.step (timers : Timers) : TimersCall → Option (Unit × Timers)
  | .newWithTimeouts heap last base number size states timeouts time =>
      some ((), timers.newWithTimeouts heap last base number size states timeouts time)
  | .call called => (timers.call called).map fun after => ((), after)

/-! ## Timeouts -/

/-- The variables of `sxe_pool_check_timeouts` besides `time_now`. -/
structure Scan extends Timers where
  walker : Nat
  state : Nat
  indexOldestLast : Nat
  timeOldestLast : Nat

/-- What `sxe_pool_check_timeouts` does next: it goes on to the next pool or the
next state, or calls the callback for an element. -/
inductive Next where
  | pool
  | state
  | callback (index time : Nat)
deriving DecidableEq

/-- The body of the innermost loop, with the conditions of the loops around it. -/
def TimedPool.next (pool : TimedPool) (timeNow : Timestamp) (state indexOldestLast timeOldestLast : Nat) :
    Option Next :=
  if ¬ state < pool.states then some .pool
  else if pool.stateTimeouts state = 0 then some .state
  else do
    let indexOldest ← pool.getOldestIndex true state
    if indexOldest = noIndex then some .state
    else do
      let timeOldest ← pool.getOldestTime state
      if ¬ (indexOldestLast ≠ indexOldest ∨ timeOldest ≠ timeOldestLast) then none
      else if timeNow - UInt64.ofNat timeOldest < pool.stateTimeouts state then some .state
      else some (.callback indexOldest timeOldest)

namespace Scan

def start (timers : Timers) (timeNow : Timestamp) : Scan := ⟨⟨timers.pools, timeNow⟩, 0, 0, noIndex, 0⟩

def next (scan : Scan) (timeNow : Timestamp) : Option Next :=
  (scan.pools[scan.walker]?).bind fun pool => pool.next timeNow scan.state scan.indexOldestLast scan.timeOldestLast

/-- One step of the pass, given the calls that the callback makes if it is called. -/
def step (timeNow : Timestamp) (scan : Scan) (calls : List TimedCall) : Option (Next × Scan) :=
  match scan.next timeNow with
  | none => none
  | some .pool => some (.pool, ⟨scan.toTimers, scan.walker + 1, 0, noIndex, 0⟩)
  | some .state => some (.state, ⟨scan.toTimers, scan.walker, scan.state + 1, noIndex, 0⟩)
  | some (.callback index time) =>
      (scan.toTimers.calls calls).map fun after => (.callback index time, ⟨after, scan.walker, scan.state, index, time⟩)

def Returned (scan : Scan) : Prop := scan.pools.length ≤ scan.walker

end Scan

end SxePool
end LibKit
