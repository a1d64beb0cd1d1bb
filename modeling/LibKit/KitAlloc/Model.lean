import LibKit.KitCounters.Conservation
import LibKit.Support.Bytes
import LibKit.Support.CString

namespace LibKit
namespace KitAlloc

open KitCounters (Counters Stop counterIncr counterAdd counterDecr counterGet)

/-!
# `kit-alloc.c`

Memory is asked of `jemalloc`, with guards around it if overflows are checked: a
fore guard at the start of a block, with its size and its address, one more in
front of the address returned if that is aligned by more than a guard, and the
address again at the end.  What `jemalloc` answers, and the bytes of the memory
after it was asked, are given to the calls.  What it was asked is recorded.
-/

inductive Kind where
  | bytes
  | calloc
  | fail
  | free
  | malloc
  | realloc
deriving DecidableEq

/-- What is set up before memory is allocated: the flags
`KIT_MEMORY_CHECK_OVERFLOWS` and `KIT_MEMORY_ABORT_ON_ENOMEM`, and the counters
that are registered, which are different ones. -/
structure Setup where
  checks : Bool
  aborts : Bool
  counters : KitCounters.Setup
  ids : Kind → Nat
  distinct : Function.Injective ids
  registered : ∀ kind, 0 < ids kind ∧ ids kind ≤ counters.numCounters
  plain : ∀ kind, kind ≠ .bytes → KitCounters.Plain counters (ids kind)

/-- The place of a counter among those of the memory interface, in the order in
which they are registered. -/
def Kind.place : Kind → Nat
  | .bytes => 1
  | .calloc => 2
  | .fail => 3
  | .free => 4
  | .malloc => 5
  | .realloc => 6

def Setup.simple (checks aborts : Bool) : Setup where
  checks := checks
  aborts := aborts
  counters := ⟨6, [], false, 5, 4⟩
  ids := Kind.place
  distinct := by
    intro first second same
    cases first <;> cases second <;> first | rfl | cases same
  registered := by
    intro kind
    cases kind <;> decide
  plain := by
    intro kind _ handler inside
    cases inside

/-- What `jemalloc` is asked. -/
inductive Request where
  | mallocx (size : UInt64) (lgAlign : Nat) (zero : Bool)
  | rallocx (ptr size : UInt64)
  | dallocx (ptr : UInt64)
deriving DecidableEq

/-- What `jemalloc` grants: an address, and the bytes of the memory thereafter. -/
structure Grant where
  address : UInt64
  bytes : Nat → UInt8

/-- The bytes of the memory, what `jemalloc` was asked, the latest first, whether
`errno` is `ENOMEM`, and the counts, which are those of the counters once they
are used. -/
structure Memory where
  bytes : Nat → UInt8
  asked : List Request
  enomem : Bool
  counts : Kind → UInt64
  counters : Option Counters

def Memory.start : Memory := ⟨fun _ => 0, [], false, fun _ => 0, none⟩

def word (bytes : Nat → UInt8) (address : UInt64) : UInt64 := UInt64.ofNat (Bytes.readWord bytes address.toNat 8)

def setWord (bytes : Nat → UInt8) (address value : UInt64) : Nat → UInt8 :=
  Bytes.write bytes address.toNat (Bytes.encodeWord 8 value.toNat)

section

variable (setup : Setup) (thread : Nat)

/-! ## Counts -/

/-- `kit_counter_incr` of a counter, or `++` of the count before counters are
used. -/
def count (kind : Kind) (memory : Memory) : Except Stop Memory :=
  match memory.counters with
  | none => .ok { memory with counts := Function.update memory.counts kind (memory.counts kind + 1) }
  | some counters => do
      let counters ← counterIncr setup.counters thread (setup.ids kind) counters
      .ok { memory with counters := some counters }

/-- `count_malloc_increment` -/
def countMallocIncrement (failed : Bool) (memory : Memory) : Except Stop Memory := do
  let memory ← count setup thread .malloc memory
  if failed then count setup thread .fail memory else .ok memory

/-- `kit_memory_allocations` -/
def kitMemoryAllocations (memory : Memory) : UInt64 :=
  match memory.counters with
  | none => memory.counts .calloc + memory.counts .malloc - memory.counts .free
  | some counters =>
      counterGet setup.counters (setup.ids .calloc) counters + counterGet setup.counters (setup.ids .malloc) counters -
        counterGet setup.counters (setup.ids .free) counters

/-! ## Guards -/

/-- `kit_memory_size` -/
def kitMemorySize (size alignment : UInt64) : UInt64 :=
  if setup.checks then
    let alignment := if 8 ≤ alignment then alignment else 8
    let offset := if alignment ≤ 16 then 16 else alignment
    offset + size + 8
  else size

/-- `guard_initialize` -/
def guardInitialize (result size alignment : UInt64) (bytes : Nat → UInt8) : UInt64 × (Nat → UInt8) :=
  if result ≠ 0 ∧ setup.checks then
    let bytes := setWord bytes result size
    let bytes := setWord bytes (result + 8) result
    let bytes := setWord bytes (result + size - 8) result
    if 16 < alignment then
      (result + alignment, Bytes.write bytes (result + alignment - 16).toNat (Bytes.read bytes result.toNat 16))
    else (result + 16, bytes)
  else (result, bytes)

/-- What `size_out` of `kit_memory_check` is: `NULL`, a place for the size, or
`KIT_MEMORY_FREE`. -/
inductive SizeOut where
  | null
  | size
  | free
deriving DecidableEq

/-- The guard at the start of a block, from that in front of a pointer. -/
def foreGuard (ptr : UInt64) (bytes : Nat → UInt8) : Except Stop UInt64 :=
  let guard := ptr - 16
  let stamp := word bytes (guard + 8)
  if stamp = guard then .ok guard
  else if stamp &&& 31 ≠ 0 then .error .assertion
  else if ¬ stamp < guard then .error .assertion
  else .ok stamp

/-- `kit_memory_check`: the guard, the size that is stored, and the memory. -/
def kitMemoryCheck (ptr : UInt64) (out : SizeOut) (memory : Memory) : Except Stop (UInt64 × UInt64 × Memory) :=
  if ¬ setup.checks then .ok (ptr, 0, memory)
  else do
    let guard ← foreGuard ptr memory.bytes
    if word memory.bytes (guard + 8) ≠ guard then .error .assertion
    else if word memory.bytes (guard + word memory.bytes guard - 8) ≠ guard then .error .assertion
    else
      match out with
      | .null => .ok (guard, 0, memory)
      | .size => .ok (guard, word memory.bytes guard - (ptr - guard) - 8, memory)
      | .free => .ok (guard, 0, { memory with bytes := setWord memory.bytes (guard + 8) (0 - 1) })

/-! ## Allocations -/

/-- `jemalloc` is asked. -/
def Memory.ask (memory : Memory) (request : Request) : Memory := { memory with asked := request :: memory.asked }

/-- `memory_alloc` -/
def memoryAlloc (size alignment : UInt64) (lgAlign : Nat) (zero : Bool) (answer : Option Grant) (memory : Memory) :
    Except Stop (UInt64 × Memory) :=
  let size := kitMemorySize setup size alignment
  let memory := memory.ask (.mallocx size lgAlign zero)
  match answer with
  | some grant =>
      let (result, bytes) := guardInitialize setup grant.address size alignment grant.bytes
      .ok (result, { memory with bytes := bytes })
  | none => if setup.aborts then .error .assertion else .ok (0, memory)

/-- `kit_malloc_diag` -/
def kitMalloc (size : UInt64) (answer : Option Grant) (memory : Memory) : Except Stop (UInt64 × Memory) := do
  let (result, memory) ← memoryAlloc setup size 0 0 false answer memory
  let memory ← countMallocIncrement setup thread (decide (result = 0)) memory
  .ok (result, memory)

/-- `kit_memalign_diag`; `sxe_uint64_log2` of zero is not defined. -/
def kitMemalign (alignment size : UInt64) (answer : Option Grant) (memory : Memory) : Except Stop (UInt64 × Memory) :=
  if alignment = 0 then .error .undefined
  else if UInt64.ofNat (2 ^ Nat.log2 alignment.toNat) ≠ alignment then .error .assertion
  else do
    let (result, memory) ← memoryAlloc setup size alignment (Nat.log2 alignment.toNat) false answer memory
    let memory ← countMallocIncrement setup thread (decide (result = 0)) memory
    .ok (result, memory)

/-- `kit_calloc_diag` -/
def kitCalloc (num size : UInt64) (answer : Option Grant) (memory : Memory) : Except Stop (UInt64 × Memory) := do
  let totalSize := num * size
  let (result, memory) ←
    if num ≠ 0 ∧ size ≠ 0 ∧ (totalSize < num ∨ totalSize < size) then
      if setup.aborts then .error .assertion else .ok (0, { memory with enomem := true })
    else memoryAlloc setup totalSize 0 0 true answer memory
  if setup.aborts ∧ result = 0 then .error .assertion
  else do
    let memory ← count setup thread .calloc memory
    let memory ← if result = 0 then count setup thread .fail memory else .ok memory
    .ok (result, memory)

/-- `kit_free_diag`; the bytes are those after the block was given back. -/
def kitFree (ptr : UInt64) (bytes : Nat → UInt8) (memory : Memory) : Except Stop Memory :=
  if ptr = 0 then .ok memory
  else if ptr &&& 7 ≠ 0 then .error .assertion
  else do
    let memory ← count setup thread .free memory
    let (ptr, _, memory) ← kitMemoryCheck setup ptr .free memory
    .ok { memory.ask (.dallocx ptr) with bytes := bytes }

/-- What `kit_realloc_diag` does before it counts: the pointer and the size that
it goes on with, and the result. -/
def reallocate (ptr size : UInt64) (answer : Option Grant) (bytes : Nat → UInt8) (memory : Memory) :
    Except Stop (UInt64 × UInt64 × UInt64 × Memory) :=
  if ptr = 0 then do
    let (result, memory) ← memoryAlloc setup size 0 0 false answer memory
    .ok (0, size, result, memory)
  else if size ≠ 0 then do
    let (base, _, memory) ← kitMemoryCheck setup ptr .null memory
    let alignment := ptr - base
    let size := kitMemorySize setup size alignment
    let memory := memory.ask (.rallocx base size)
    match answer with
    | some grant =>
        let (result, bytes) := guardInitialize setup grant.address size alignment grant.bytes
        .ok (base, size, result, { memory with bytes := bytes })
    | none => .ok (base, size, 0, memory)
  else do
    let (base, _, memory) ← kitMemoryCheck setup ptr .free memory
    .ok (base, 0, 0, { memory.ask (.dallocx base) with bytes := bytes })

/-- `kit_realloc_diag` -/
def kitRealloc (ptr size : UInt64) (answer : Option Grant) (bytes : Nat → UInt8) (memory : Memory) :
    Except Stop (UInt64 × Memory) := do
  let (base, size, result, memory) ← reallocate setup ptr size answer bytes memory
  let memory ←
    if result = 0 ∧ (size ≠ 0 ∨ base = 0) then
      if setup.aborts then .error .assertion else count setup thread .fail memory
    else .ok memory
  let memory ←
    if base = 0 ∧ result ≠ 0 then countMallocIncrement setup thread false memory
    else if base ≠ 0 ∧ size = 0 ∧ result = 0 then count setup thread .free memory
    else count setup thread .realloc memory
  .ok (result, memory)

/-- `kit_reduce_diag`; before counters are used, it decrements the one that is
none. -/
def kitReduce (ptr size : UInt64) (answer : Option Grant) (bytes : Nat → UInt8) (memory : Memory) :
    Except Stop (UInt64 × Memory) :=
  if ptr = 0 then if size = 0 then .ok (0, memory) else .error .assertion
  else do
    let (result, memory) ← kitRealloc setup thread ptr size answer bytes memory
    if result = 0 ∧ size ≠ 0 then
      match memory.counters with
      | none => .ok (ptr, memory)
      | some counters => do
          let counters ← counterDecr setup.counters thread (setup.ids .realloc) counters
          .ok (ptr, { memory with counters := some counters })
    else .ok (result, memory)

/-- `kit_strdup_diag` and `kit_strndup_diag`, of the characters that are
copied. -/
def kitStrdup (txt : List UInt8) (answer : Option Grant) (memory : Memory) : Except Stop (UInt64 × Memory) := do
  let (result, memory) ← memoryAlloc setup (UInt64.ofNat txt.length + 1) 0 0 false answer memory
  let memory := if result ≠ 0 then { memory with bytes := Bytes.write memory.bytes result.toNat (txt ++ [0]) }
    else memory
  let memory ← countMallocIncrement setup thread (decide (result = 0)) memory
  .ok (result, memory)

/-! ## Counters -/

/-- `sizeof(struct kit_counters)` -/
def countersSize : UInt64 := 8 * 600

/-- The blocks of the counters of the other threads. -/
def callocBlocks : List (Option Grant) → Memory → Except Stop Memory
  | [], memory => .ok memory
  | answer :: answers, memory => do
      let (result, memory) ← kitCalloc setup thread 1 countersSize answer memory
      if result = 0 then .error .assertion else callocBlocks answers memory

/-- The counts are added to the counters, by `kit_memory_initialize_counters`. -/
def addCounts (counts : Kind → UInt64) : List Kind → Counters → Except Stop Counters
  | [], counters => .ok counters
  | kind :: kinds, counters => do
      let counters ← counterAdd setup.counters thread (setup.ids kind) (counts kind) counters
      addCounts counts kinds counters

/-- `kit_counters_initialize`, by the main thread, which is the first of
several. -/
def kitCountersInitialize (first second : Option Grant) (others : List (Option Grant)) (memory : Memory) :
    Except Stop Memory :=
  if memory.counters.isSome then .error .assertion
  else do
    let threads := others.length + 1
    let (states, memory) ← kitMalloc setup thread (UInt64.ofNat threads) first memory
    if states = 0 then .error .assertion
    else do
      let (blocks, memory) ← kitMalloc setup thread (UInt64.ofNat threads * 8) second memory
      if blocks = 0 then .error .assertion
      else do
        let memory ← callocBlocks setup thread others memory
        let counters ← KitCounters.countersInitialize threads thread
        let counters ← addCounts setup thread memory.counts [.bytes, .calloc, .fail, .free, .malloc, .realloc] counters
        .ok { memory with counters := some counters }

/-! ## Calls -/

/-- The calls of a program, which also writes to its memory. -/
inductive Call where
  | malloc (size : UInt64) (answer : Option Grant)
  | memalign (alignment size : UInt64) (answer : Option Grant)
  | calloc (num size : UInt64) (answer : Option Grant)
  | strdup (txt : List UInt8) (answer : Option Grant)
  | realloc (ptr size : UInt64) (answer : Option Grant) (bytes : Nat → UInt8)
  | reduce (ptr size : UInt64) (answer : Option Grant) (bytes : Nat → UInt8)
  | free (ptr : UInt64) (bytes : Nat → UInt8)
  | countersInitialize (first second : Option Grant) (others : List (Option Grant))
  | write (address : UInt64) (data : List UInt8)

/-- What a call returns, and the memory after it. -/
def Call.run (call : Call) (memory : Memory) : Except Stop (UInt64 × Memory) :=
  match call with
  | malloc size answer => kitMalloc setup thread size answer memory
  | memalign alignment size answer => kitMemalign setup thread alignment size answer memory
  | calloc num size answer => kitCalloc setup thread num size answer memory
  | strdup txt answer => kitStrdup setup thread txt answer memory
  | realloc ptr size answer bytes => kitRealloc setup thread ptr size answer bytes memory
  | reduce ptr size answer bytes => kitReduce setup thread ptr size answer bytes memory
  | free ptr bytes => do
      let memory ← kitFree setup thread ptr bytes memory
      .ok (0, memory)
  | countersInitialize first second others => do
      let memory ← kitCountersInitialize setup thread first second others memory
      .ok (0, memory)
  | write address data => .ok (0, { memory with bytes := Bytes.write memory.bytes address.toNat data })

end

def step (setup : Setup) (memory : Memory) (call : Nat × Call) : Option (UInt64 × Memory) :=
  match call.2.run setup call.1 memory with
  | .ok done => some done
  | .error _ => none

end KitAlloc
end LibKit
