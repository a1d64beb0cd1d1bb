import Mathlib

namespace LibKit
namespace SxeThread

/-!
# `sxe-thread-memory.c`

Memory that threads allocate for themselves is tracked in a list, so that the
main thread can free it.  An address is a number, and zero is `NULL`; a tracker
that was freed is no longer at its address.  What a tracker says about the
memory itself is left out, as is another thread that changes the list during a
call.
-/

/-- `struct sxe_thread_memory` -/
structure Tracker where
  tid : Int
  next : Nat
deriving DecidableEq

/-- The trackers that are allocated, all below an address, the head of their
list, and those that were freed, each with the time of its freeing. -/
structure Memory where
  trackers : Nat
  nodes : Nat → Option Tracker
  size : Nat
  freed : List (Nat × Nat)

/-- What a call must not do: use or link a tracker that was freed, or go round
in a list. -/
inductive Fault where
  | freed
  | endless
deriving DecidableEq

namespace Memory

def empty : Memory := ⟨0, fun _ => none, 1, []⟩

def read (memory : Memory) (address : Nat) : Except Fault Tracker :=
  match memory.nodes address with
  | none => .error .freed
  | some tracker => .ok tracker

/-- Whether a pointer may be stored: it is `NULL`, or leads to a tracker. -/
def linkable (memory : Memory) (address : Nat) : Bool := address = 0 ∨ (memory.nodes address).isSome

def setNode (memory : Memory) (address : Nat) (node : Option Tracker) : Memory :=
  { memory with nodes := Function.update memory.nodes address node }

/-- `tracker->next = next` -/
def link (memory : Memory) (address next : Nat) : Except Fault Memory :=
  if memory.linkable next then do
    let tracker ← memory.read address
    .ok (memory.setNode address (some { tracker with next := next }))
  else .error .freed

/-- `kit_free(tracker)` -/
def free (memory : Memory) (address time : Nat) : Memory :=
  { memory.setNode address none with freed := memory.freed ++ [(address, time)] }

end Memory

/-- `sxe_thread_malloc`, where memory may be short for the tracker or for what
it tracks; the tracker is then lost. -/
def threadMalloc (memory : Memory) (tid : Int) (trackerGranted memoryGranted : Bool) : Option Nat × Memory :=
  if trackerGranted then
    let tracker := memory.size
    if memoryGranted then
      (some tracker, { memory with
        nodes := Function.update memory.nodes tracker (some ⟨tid, memory.trackers⟩), trackers := tracker, size :=
          tracker + 1 })
    else (none, { memory with size := tracker + 1 })
  else (none, memory)

/-! ## Freeing -/

/-- `SXE_THREAD_MEMORY_UNUSED` and `SXE_THREAD_MEMORY_ALL` -/
inductive What where
  | unused
  | all
deriving DecidableEq

/-- A call: what to free, the identity of the calling thread, which is negative
if it has not allocated, and whether the task file of a thread is gone at a
time. -/
structure Call where
  what : What
  tid : Int
  gone : Nat → Int → Bool

/-- Whether the memory of a thread is freed, at a time. -/
def Call.reap (call : Call) (time : Nat) (tid : Int) : Bool :=
  if call.tid = tid then call.what = .all else call.gone time tid

/-- The variables of `sxe_thread_memory_free`; time passes with each tracker. -/
structure Sweep where
  memory : Memory
  time : Nat
  keepers : Nat
  last : Nat
  unfreed : Nat

/-- The body of the loop over the trackers, and the tracker after it. -/
def visit (call : Call) (tracker : Nat) (sweep : Sweep) : Except Fault (Nat × Sweep) := do
  let node ← sweep.memory.read tracker
  if ¬ call.reap sweep.time node.tid then do
    let memory ← sweep.memory.link tracker sweep.keepers
    .ok (node.next, { memory := memory, time := sweep.time + 1, keepers := tracker
                      last := if sweep.last ≠ 0 then sweep.last else tracker, unfreed := sweep.unfreed + 1 })
  else .ok (node.next, { sweep with memory := sweep.memory.free tracker sweep.time, time := sweep.time + 1 })

/-- The loop over the trackers; it is endless if it takes more turns than there
are addresses. -/
def sweepFrom (call : Call) : Nat → Nat → Sweep → Except Fault Sweep
  | 0, _, _ => .error .endless
  | fuel + 1, tracker, sweep =>
      if tracker = 0 then .ok sweep
      else do
        let (next, sweep) ← visit call tracker sweep
        sweepFrom call fuel next sweep

/-- Replace the list of trackers by the keepers, followed by the list. -/
def publish (sweep : Sweep) : Except Fault Sweep :=
  if sweep.keepers ≠ 0 then do
    let memory ← sweep.memory.link sweep.last sweep.memory.trackers
    if memory.linkable sweep.keepers then .ok { sweep with memory := { memory with trackers := sweep.keepers } }
    else .error .freed
  else .ok sweep

/-- Acquire the list of trackers, and count from nothing. -/
def Sweep.acquire (sweep : Sweep) : Sweep :=
  { sweep with memory := { sweep.memory with trackers := 0 }, unfreed := 0 }

/-- One turn of `sxe_thread_memory_free`: acquire the list, go through it, and
put back what is kept. -/
def turn (call : Call) (sweep : Sweep) : Except Fault Sweep := do
  let sweep ← sweepFrom call (sweep.memory.size + 1) sweep.memory.trackers sweep.acquire
  publish sweep

/-- The turns of `sxe_thread_memory_free`, which keep the list of keepers and its
end from turn to turn. -/
def turns (call : Call) : Nat → Sweep → Except Fault Sweep
  | 0, sweep => .ok sweep
  | tries + 1, sweep => do
      let sweep ← turn call sweep
      if call.what ≠ .all ∨ sweep.unfreed = 0 then .ok sweep else turns call tries sweep

/-- `sxe_thread_memory_free`: the number of trackers that were not freed, and
the memory after the call. -/
def threadMemoryFree (call : Call) (memory : Memory) : Except Fault (Nat × Memory) := do
  let sweep ← turns call 1001 ⟨memory, 0, 0, 0, 0⟩
  .ok (sweep.unfreed, sweep.memory)

end SxeThread
end LibKit
