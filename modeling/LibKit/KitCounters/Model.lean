import LibKit.Support.Results

namespace LibKit
namespace KitCounters

/-!
# `kit-counters.c`

Each thread counts in a block of its own, in the one of the threads that have
ended, or, if it has none, in a block that is shared.  A count is the sum over
the blocks of the slots in use, and those two.  Calls complete one after the
other, and memory is granted, since a call aborts if it is not; the contents of
a block that `kit_malloc` returns are given to the call.
-/

/-- How a call ends without returning: an assertion fails, or what it does is
not defined by the language. -/
inductive Stop where
  | assertion
  | undefined
deriving DecidableEq

/-- `struct kit_counters` -/
abbrev Block := Nat → UInt64

/-- A slot: the flags of its `counter_state`, and the block to which its entry of
`all_counters` leads. -/
structure Slot where
  isDynamic : Bool
  isStatic : Bool
  isUsed : Bool
  block : Nat
deriving DecidableEq

/-- What `thread_counters` leads to: a block of a slot, or
`dead_thread_counters`. -/
inductive Pointer where
  | own (block : Nat)
  | dead
deriving DecidableEq

/-- What is set up once: the number of counters, the combine handlers, whether
counters may be shared, and the counters of `kit_malloc` and `kit_free`. -/
structure Setup where
  numCounters : Nat
  combineHandlers : List (Nat × (Int → UInt64))
  allowShared : Bool
  memoryMalloc : Nat
  memoryFree : Nat

/-- The slots, the blocks allocated, which are below a number, those of the ended
and the sharing threads, and the pointers of the threads. -/
structure Counters where
  slots : List Slot
  blocks : Nat → Block
  size : Nat
  dead : Block
  shared : Block
  thread : Nat → Option Pointer

/-- `kit_counters_initialize`, called by the main thread. -/
def countersInitialize (threads main : Nat) : Except Stop Counters :=
  if threads = 0 then .error .assertion
  else .ok {
    slots := (List.range threads).map fun i => ⟨false, true, decide (i = 0), i⟩
    blocks := fun _ _ => 0
    size := threads
    dead := fun _ => 0
    shared := fun _ => 0
    thread := fun thread => if thread = main then some (.own 0) else none }

section

variable (setup : Setup)

/-! ## Counting -/

/-- `kit_counter_add` by a thread. -/
def counterAdd (thread counter : Nat) (value : UInt64) (state : Counters) : Except Stop Counters :=
  if setup.numCounters < counter then .ok state
  else
    match state.thread thread with
    | some (.own block) =>
        .ok { state with
          blocks := Function.update state.blocks block
            (Function.update (state.blocks block) counter (state.blocks block counter + value)) }
    | some .dead => .ok { state with dead := Function.update state.dead counter (state.dead counter + value) }
    | none =>
        if setup.allowShared then
          .ok { state with shared := Function.update state.shared counter (state.shared counter + value) }
        else .error .assertion

/-- `kit_counter_incr` -/
def counterIncr (thread counter : Nat) (state : Counters) :
    Except Stop Counters := counterAdd setup thread counter 1 state

/-- `kit_counter_decr` -/
def counterDecr (thread counter : Nat) (state : Counters) : Except Stop Counters :=
  counterAdd setup thread counter (-1) state

/-- Several calls of `kit_counter_incr` -/
def counterIncrs (thread counter : Nat) : Nat → Counters → Except Stop Counters
  | 0, state => .ok state
  | times + 1, state => do
      let state ← counterIncr setup thread counter state
      counterIncrs thread counter times state

/-- The sum of a counter over the slots in use. -/
def usedSum (slots : List Slot) (blocks : Nat → Block) (counter : Nat) : UInt64 :=
  (slots.map fun slot => if slot.isUsed then blocks slot.block counter else 0).sum

/-- `kit_counter_get_data` for `KIT_THREAD_TOTAL`, which compares the number of
the thread with that of the slots as an `int`. -/
def counterGetTotal (counter : Nat) (state : Counters) : UInt64 :=
  if counter ≤ setup.numCounters ∧ -1 < (UInt32.ofNat state.slots.length).toInt32.toInt then
    match setup.combineHandlers.find? (·.1 = counter) with
    | some handler => handler.2 (-1)
    | none => usedSum state.slots state.blocks counter + state.dead counter + state.shared counter
  else 0

/-- `kit_counter_get` -/
def counterGet (counter : Nat) (state : Counters) :
    UInt64 := if counter = 0 then 0 else counterGetTotal setup counter state

/-! ## Threads with a static slot -/

/-- `kit_counters_combine` of the counters of one slot, which are added to a
block. -/
def countersCombine (out : Block) (state : Counters) (index : Nat) (slot : Slot) : Block :=
  let sum : Block := fun counter =>
    if counter ≤ setup.numCounters ∧ slot.isUsed then out counter + state.blocks slot.block counter else out counter
  setup.combineHandlers.foldl (fun block handler =>
    Function.update block handler.1 (handler.2 (UInt32.ofNat index).toInt32.toInt)) sum

/-- `thread_counters = ...` -/
def Counters.setThread (state : Counters) (thread : Nat) (pointer : Pointer) : Counters :=
  { state with thread := Function.update state.thread thread (some pointer) }

def Counters.setSlot (state : Counters) (index : Nat) (slot : Slot) : Counters :=
  { state with slots := state.slots.set index slot }

/-- `memset` of a block. -/
def Counters.clear (state : Counters) (block : Nat) : Counters :=
  { state with blocks := Function.update state.blocks block (fun _ => 0) }

/-- `kit_counters_init_thread` -/
def countersInitThread (thread index : Nat) (state : Counters) : Except Stop Counters :=
  match state.slots[index]? with
  | none => .error .assertion
  | some slot =>
      if slot.isUsed then .error .assertion
      else .ok ((state.setThread thread (.own slot.block)).setSlot index { slot with isUsed := true })

/-- `kit_counters_fini_thread` -/
def countersFiniThread (thread index : Nat) (state : Counters) : Except Stop Counters :=
  match state.slots[index]? with
  | none => .error .assertion
  | some slot =>
      if slot.isUsed ∧ state.thread thread = some (.own slot.block) then
        let combined := { state with dead := countersCombine setup state.dead state index slot }
        .ok (((combined.clear slot.block).setThread thread .dead).setSlot index { slot with isUsed := false })
      else .error .assertion

/-! ## Threads with a dynamic slot -/

/-- Whether the state of a slot is `COUNTER_DYNAMIC`, and nothing else. -/
def Slot.isFree (slot : Slot) : Bool := slot.isDynamic && !slot.isStatic && !slot.isUsed

def Slot.isNone (slot : Slot) : Bool := !slot.isDynamic && !slot.isStatic && !slot.isUsed

/-- `kit_counters_init_dynamic_thread`, which returns the slot. -/
def countersInitDynamicThread (thread : Nat) (state : Counters) : Except Stop (Nat × Counters) :=
  match state.slots.findIdx? Slot.isFree with
  | none => .error .assertion
  | some index =>
      match state.slots[index]? with
      | none => .error .assertion
      | some slot =>
          .ok (index, ((state.setThread thread (.own slot.block)).setSlot index
            { slot with isUsed := true }).clear slot.block)

/-- `kit_counters_fini_dynamic_thread` -/
def countersFiniDynamicThread (thread index : Nat) (state : Counters) : Except Stop Counters :=
  match state.slots[index]? with
  | none => .error .assertion
  | some slot =>
      if slot.isUsed ∧ slot.isDynamic ∧ ¬ slot.isStatic then
        let combined := { state with dead := countersCombine setup state.dead state index slot }
        .ok ((combined.setThread thread .dead).setSlot index ⟨false, false, false, slot.block⟩)
      else .error .assertion

/-- Make up to a number of slots dynamic whose state is zero; the number that is
left. -/
def reuse : Nat → List Slot → List Slot × Nat
  | count, [] => ([], count)
  | 0, slots => (slots, 0)
  | count + 1, slot :: slots =>
      if slot.isNone then
        let (slots, left) := reuse count slots
        ({ slot with isDynamic := true } :: slots, left)
      else
        let (slots, left) := reuse (count + 1) slots
        (slot :: slots, left)

/-- Add dynamic slots with blocks of any content. -/
def Counters.grow (state : Counters) (more : Nat) (contents : Nat → Block) : Counters :=
  { state with
    slots := state.slots ++ (List.range more).map fun i => ⟨true, false, false, state.size + i⟩
    blocks := fun block => if state.size ≤ block ∧ block < state.size + more then contents block else state.blocks block
    size := state.size + more }

/-- `kit_counters_prepare_dynamic_threads`; if the number of slots is not one of
an `unsigned`, the new tables are too small for what is copied to them. -/
def countersPrepareDynamicThreads (thread count : Nat) (contents : Nat → Block) (state : Counters) :
    Except Stop Counters :=
  let (slots, left) := reuse count state.slots
  let state := { state with slots := slots }
  if left = 0 then .ok state
  else if 2 ^ 32 ≤ state.slots.length + left then .error .undefined
  else do
    let state ← counterIncrs setup thread setup.memoryMalloc (2 + left) state
    counterIncrs setup thread setup.memoryFree 2 (state.grow left contents)

/-! ## Calls -/

inductive Call where
  | prepareDynamicThreads (count : Nat) (contents : Nat → Block)
  | initThread (slot : Nat)
  | finiThread (slot : Nat)
  | initDynamicThread
  | finiDynamicThread (slot : Nat)
  | incr (counter : Nat)
  | decr (counter : Nat)
  | add (counter : Nat) (value : UInt64)

def Call.counts (call : Call) (state : Counters) : List (Nat × UInt64) :=
  match call with
  | prepareDynamicThreads count _ =>
      let left := (reuse count state.slots).2
      if left = 0 then []
      else List.replicate (2 + left) (setup.memoryMalloc, 1) ++ List.replicate 2 (setup.memoryFree, 1)
  | incr counter => [(counter, 1)]
  | decr counter => [(counter, -1)]
  | add counter value => [(counter, value)]
  | initThread _ => []
  | finiThread _ => []
  | initDynamicThread => []
  | finiDynamicThread _ => []

def Call.run (thread : Nat) (call : Call) (state : Counters) : Except Stop Counters :=
  match call with
  | prepareDynamicThreads count contents => countersPrepareDynamicThreads setup thread count contents state
  | initThread slot => countersInitThread thread slot state
  | finiThread slot => countersFiniThread setup thread slot state
  | initDynamicThread => do
      let (_, state) ← countersInitDynamicThread thread state
      .ok state
  | finiDynamicThread slot => countersFiniDynamicThread setup thread slot state
  | incr counter => counterIncr setup thread counter state
  | decr counter => counterDecr setup thread counter state
  | add counter value => counterAdd setup thread counter value state

/-- A call by a thread that returns, answered by what it adds to counters. -/
def step (state : Counters) (call : Nat × Call) : Option (List (Nat × UInt64) × Counters) :=
  match call.2.run setup call.1 state with
  | .ok after => some (call.2.counts setup state, after)
  | .error _ => none

end

end KitCounters
end LibKit
