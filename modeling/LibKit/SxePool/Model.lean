import LibKit.SxeList.Model

namespace LibKit
namespace SxePool

open SxeList (Heap Walker)

/-!
# Pools

A pool of `lib-sxe-pool` keeps its elements in queues, one for each state.  The
pool structure, the elements, the queues and the nodes follow each other in one
block of memory.  An element moves to the tail of the queue of its new state,
and its node gets the next count.

The model is of pools without `SXE_POOL_OPTION_TIMED`, whose nodes hold counts
and not times.  What `sxe_pool_lock` does is an argument of the functions that
call it.  A function has no result if an assertion with `SXEA1` fails.
-/

/-- `SXE_POOL_LOCK_TAKEN` -/
def lockTaken : Nat := 0

/-- `SXE_POOL_NO_INDEX` -/
def noIndex : Nat := 2 ^ 32 - 1

/-- `SXE_POOL_INCORRECT_STATE` -/
def incorrectState : Nat := 2 ^ 32 - 2

/-- `SXE_POOL_LOCK_NOT_TAKEN` -/
def lockNotTaken : Nat := 2 ^ 32 - 3

/-- The members of `SXE_POOL_IMPL` that say where the parts of a pool are. -/
structure Layout where
  base : UInt64
  number : Nat
  states : Nat
  queue : UInt64
  nodes : UInt64

/-- `SXE_POOL_IMPL` with the memory that belongs to the pool: the lists and
nodes, and `last.count` of the nodes at addresses. -/
structure Pool extends Layout where
  nextCount : Nat
  heap : Heap
  last : UInt64 → Nat

namespace Layout

/-- The address of the queue of a state, where a list has 40 bytes. -/
def queueAt (layout : Layout) (state : Nat) : UInt64 := layout.queue + layout.base + UInt64.ofNat (40 * state)

def nodeAt (layout : Layout) (id : Nat) : UInt64 := layout.nodes + layout.base + UInt64.ofNat (32 * id)

def indexOf (layout : Layout) (node : UInt64) : Nat := (node - (layout.nodes + layout.base)).toNat / 32 % 2 ^ 32

end Layout

namespace Pool

/-- `sxe_pool_index_to_state` -/
def indexToState (pool : Pool) (id : Nat) : Option Nat :=
  if id < pool.number then some (pool.heap.node (pool.nodeAt id)).id else none

/-- Give the node of an element the next count. -/
def count (pool : Pool) (id : Nat) : Pool :=
  let nextCount := (pool.nextCount + 1) % 2 ^ 64
  { pool with
    nextCount := nextCount
    last := fun address => if address = pool.nodeAt id then nextCount else pool.last address }

/-- Add the node of an element to the queue of a state. -/
def enqueue (pool : Pool) (id state : Nat) : Pool :=
  { pool with heap := SxeList.push pool.heap (pool.queueAt state) (pool.nodeAt id) }

/-! ## Construction -/

/-- The loop of `sxe_pool_construct` over the queues. -/
def constructQueues (pool : Pool) : Nat → Pool
  | 0 => pool
  | states + 1 =>
      constructQueues { pool with heap := SxeList.construct pool.heap (pool.queueAt states) states 0 } states

/-- The loop of `sxe_pool_construct` over the nodes. -/
def constructNodes (pool : Pool) : Nat → Pool
  | 0 => pool
  | number + 1 => constructNodes ((pool.count number).enqueue number 0) number

/-- `sxe_pool_construct`, where the pool structure has 144 bytes. -/
def construct (heap : Heap) (last : UInt64 → Nat) (base : UInt64) (number size states : Nat) : Pool :=
  let pool : Pool := {
    base := base
    number := number
    states := states
    queue := UInt64.ofNat (144 + number * size)
    nodes := UInt64.ofNat (144 + number * size + states * 40)
    nextCount := 0
    heap := heap
    last := last }
  (pool.constructQueues states).constructNodes number

/-! ## Changing states -/

/-- `sxe_pool_set_indexed_element_state_unlocked`; it aborts or fails if the
element is in another state. -/
def setUnlocked (pool : Pool) (id oldState newState : Nat) (aborts : Bool) : Option (Bool × Pool) :=
  if (pool.heap.node (pool.nodeAt id)).id ≠ oldState then if aborts then none else some (false, pool)
  else
    (SxeList.remove pool.heap (pool.queueAt oldState) (pool.nodeAt id)).map fun (_, heap) =>
      (true, (({ pool with heap := heap } : Pool).count id).enqueue id newState)

/-- A call of `sxe_pool_set_indexed_element_state_unlocked` that is asserted to
succeed. -/
def setAsserted (pool : Pool) (id oldState newState : Nat) : Option Pool :=
  match pool.setUnlocked id oldState newState true with
  | some (true, pool) => some pool
  | _ => none

/-- `sxe_pool_set_indexed_element_state` -/
def setIndexed (pool : Pool) (taken : Bool) (id oldState newState : Nat) : Option (Nat × Pool) :=
  if ¬ taken then some (lockNotTaken, pool)
  else (pool.setAsserted id oldState newState).map fun pool => (lockTaken, pool)

/-- `sxe_pool_try_to_set_indexed_element_state`: the result, and the state that
is returned through the pointer. -/
def tryIndexed (pool : Pool) (taken : Bool) (id oldState newState : Nat) : Option ((Nat × Nat) × Pool) :=
  if ¬ taken then some ((lockNotTaken, newState), pool)
  else
    (pool.setUnlocked id oldState newState false).bind fun (success, pool) =>
      if success then some ((id, newState), pool)
      else (pool.indexToState id).map fun state => ((incorrectState, state), pool)

/-- `sxe_pool_set_oldest_element_state` -/
def setOldest (pool : Pool) (taken : Bool) (oldState newState : Nat) : Option (Nat × Pool) :=
  if ¬ taken then some (lockNotTaken, pool)
  else
    (SxeList.peekHead pool.heap (pool.queueAt oldState)).bind fun
      | none => some (noIndex, pool)
      | some node =>
          (pool.setAsserted (pool.indexOf node) oldState newState).map fun after => (pool.indexOf node, after)

/-- `sxe_pool_touch_indexed_element` -/
def touch (pool : Pool) (taken : Bool) (id : Nat) : Option (Nat × Pool) :=
  if ¬ taken then some (lockNotTaken, pool)
  else
    let state := (pool.heap.node (pool.nodeAt id)).id
    (pool.setAsserted id state state).map fun pool => (lockTaken, pool)

/-- `sxe_pool_get_oldest_element_index` -/
def getOldestIndex (pool : Pool) (taken : Bool) (state : Nat) : Option Nat :=
  if ¬ taken then some noIndex
  else
    (SxeList.peekHead pool.heap (pool.queueAt state)).map fun
      | none => noIndex
      | some node => pool.indexOf node

/-! ## Walkers -/

end Pool

/-- `SXE_POOL_WALKER` without the pointer to the pool. -/
structure PoolWalker where
  listWalker : Walker
  state : Nat
  last : Nat

namespace Pool

/-- `sxe_pool_walker_construct` -/
def walkerConstruct (pool : Pool) (state : Nat) : PoolWalker :=
  ⟨SxeList.walkerConstruct (pool.queueAt state), state, 0⟩

/-- The loop of `sxe_pool_walker_step` that finds a node whose count is not
below that of the walker. -/
def rewalk (pool : Pool) (last : Nat) : Nat → Walker → Option UInt64 × Walker
  | 0, walker => (none, walker)
  | fuel + 1, walker =>
      match SxeList.walkerStep pool.heap walker with
      | (none, walker) => (none, walker)
      | (some node, walker) => if pool.last node ≥ last then (some node, walker) else rewalk pool last fuel walker

/-- The part of `sxe_pool_walker_step` that finds the next node.  A queue has at
most as many nodes as the pool, which bounds the loop. -/
def walkerNext (pool : Pool) (walker : PoolWalker) : Option UInt64 × Walker :=
  let moved : Bool :=
    match SxeList.walkerFind pool.heap walker.listWalker with
    | none => false
    | some node => decide ((pool.heap.node node).id ≠ walker.state)
  if moved then
    match SxeList.walkerBack pool.heap walker.listWalker with
    | (some back, listWalker) =>
        if (pool.heap.node back).id = walker.state then SxeList.walkerStep pool.heap listWalker
        else
          pool.rewalk walker.last (pool.number + 1) (SxeList.walkerConstruct (pool.queueAt walker.state))
    | (none, _) =>
        pool.rewalk walker.last (pool.number + 1) (SxeList.walkerConstruct (pool.queueAt walker.state))
  else SxeList.walkerStep pool.heap walker.listWalker

/-- `sxe_pool_walker_step` -/
def walkerStep (pool : Pool) (taken : Bool) (walker : PoolWalker) : Nat × PoolWalker :=
  if ¬ taken then (lockNotTaken, walker)
  else
    match pool.walkerNext walker with
    | (none, listWalker) => (noIndex, { walker with listWalker := listWalker })
    | (some node, listWalker) =>
        (pool.indexOf node, { walker with listWalker := listWalker, last := pool.last node })

end Pool

end SxePool
end LibKit
