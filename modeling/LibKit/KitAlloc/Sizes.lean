import LibKit.KitAlloc.Model

namespace LibKit
namespace KitAlloc

open KitCounters (Counters Stop)

/-!
# Sizes that are asked of `jemalloc`

The size that is asked for is that of the guards and of what is requested, taken
as a number of 64 bits.  The test of `kit_calloc` finds a product that is too
large only if what is left of it is less than a factor, and nothing tests the sum
with the guards.
-/

/-! ## What is asked -/

/-- A call that asks for memory; the alignment is a power of two. -/
inductive Ask where
  | malloc (size : UInt64)
  | memalign (lgAlign : Nat) (size : UInt64)
  | calloc (num size : UInt64)
  | realloc (ptr size : UInt64)

/-- The call, given what `jemalloc` answers. -/
def Ask.call (answer : Option Grant) (bytes : Nat → UInt8) : Ask → Call
  | .malloc size => .malloc size answer
  | .memalign lgAlign size => .memalign (UInt64.ofNat (2 ^ lgAlign)) size answer
  | .calloc num size => .calloc num size answer
  | .realloc ptr size => .realloc ptr size answer bytes

/-- A block that was granted is large enough: the guards that are written are in
it, and apart from the bytes that were requested. -/
structure Guarded (grant : Grant) (asked offset size : Nat) (result : UInt64) (bytes : Nat → UInt8) : Prop where
  enough : offset + size + 8 ≤ asked
  result : result = grant.address + UInt64.ofNat offset
  apart : offset = 16 ∨ 32 ≤ offset
  written : grant.address.toNat + asked ≤ 2 ^ 64 → ∀ place, bytes place ≠ grant.bytes place →
    (grant.address.toNat ≤ place ∧ place < grant.address.toNat + offset) ∨
      (grant.address.toNat + offset + size ≤ place ∧ place < grant.address.toNat + asked)

def Request.size : Request → UInt64
  | .mallocx size _ _ => size
  | .rallocx _ size => size
  | .dallocx _ => 0

/-- A call that does not fail asked for enough. -/
def Enough (setup : Setup) (memory : Memory) (offset size : Nat) (answer : Option Grant)
    (outcome : Except Stop (UInt64 × Memory)) : Prop :=
  ∀ result after, outcome = .ok (result, after) → result ≠ 0 → setup.checks = true →
    ∃ request grant, after.asked = request :: memory.asked ∧ answer = some grant ∧
      Guarded grant request.size.toNat offset size result after.bytes

/-- A call fails, with `ENOMEM` unless it aborts then. -/
def Fails (setup : Setup) (outcome : Except Stop (UInt64 × Memory)) : Prop :=
  (∃ after, outcome = .ok (0, after) ∧ after.enomem = true) ∨ (setup.aborts = true ∧ outcome = .error .assertion)

def overhead (setup : Setup) : Nat := if setup.checks then 24 else 0

/-- What is said of a call, whatever `jemalloc` answers. -/
def Ask.Sound (setup : Setup) (thread : Nat) (memory : Memory) (ask : Ask) : Prop :=
  ∀ answer bytes,
    match ask with
    | .malloc size => Enough setup memory 16 size.toNat answer ((ask.call answer bytes).run setup thread memory)
    | .memalign lgAlign size =>
        Enough setup memory (max 16 (2 ^ lgAlign)) size.toNat answer ((ask.call answer bytes).run setup thread memory)
    | .calloc num size =>
        (2 ^ 64 ≤ num.toNat * size.toNat + overhead setup →
          Fails setup ((ask.call answer bytes).run setup thread memory)) ∧
        (num.toNat * size.toNat + overhead setup < 2 ^ 64 →
          Enough setup memory 16 (num.toNat * size.toNat) answer ((ask.call answer bytes).run setup thread memory))
    | .realloc ptr size =>
        if ptr = 0 then Enough setup memory 16 size.toNat answer ((ask.call answer bytes).run setup thread memory)
        else if size = 0 then True
        else ∀ base, foreGuard ptr memory.bytes = .ok base →
          Enough setup memory (ptr - base).toNat size.toNat answer ((ask.call answer bytes).run setup thread memory)

/-- What is asked for does not wrap, or the test of `kit_calloc` finds that the
product does. -/
def Ask.Fits (setup : Setup) (memory : Memory) : Ask → Prop
  | .malloc size => setup.checks = true → 16 + size.toNat + 8 < 2 ^ 64
  | .memalign lgAlign size => setup.checks = true → max 16 (2 ^ lgAlign) + size.toNat + 8 < 2 ^ 64
  | .calloc num size => num.toNat * size.toNat + overhead setup < 2 ^ 64 ∨
      (num ≠ 0 ∧ size ≠ 0 ∧
        (num.toNat * size.toNat % 2 ^ 64 < num.toNat ∨ num.toNat * size.toNat % 2 ^ 64 < size.toNat))
  | .realloc ptr size => setup.checks = true →
      (ptr = 0 → 16 + size.toNat + 8 < 2 ^ 64) ∧
      (ptr ≠ 0 → size ≠ 0 → ∀ base, foreGuard ptr memory.bytes = .ok base →
        (ptr - base).toNat + size.toNat + 8 < 2 ^ 64)

/-- The thread has counters, if they are used, or may share some. -/
def CanCount (setup : Setup) (thread : Nat) (memory : Memory) : Prop :=
  ∀ counters, memory.counters = some counters →
    setup.counters.allowShared = true ∨ (counters.thread thread).isSome = true

/-- Alignments are those of 64 bits, and what is reallocated was allocated: its
guards are intact, and its offset in its block is a power of two. -/
def Ask.Allowed (setup : Setup) (memory : Memory) : Ask → Prop
  | .malloc _ => True
  | .memalign lgAlign _ => lgAlign < 64
  | .calloc _ _ => True
  | .realloc ptr _ => ptr ≠ 0 → setup.checks = true → ∃ base lgOffset, foreGuard ptr memory.bytes = .ok base ∧
      (∃ done, kitMemoryCheck setup ptr .null memory = .ok done) ∧ (ptr - base).toNat = 2 ^ lgOffset ∧ 4 ≤ lgOffset

section

variable {setup : Setup} {thread : Nat} {memory after : Memory}

/-! ## What counting leaves alone -/

structure Same (memory after : Memory) : Prop where
  bytes : after.bytes = memory.bytes
  asked : after.asked = memory.asked
  enomem : after.enomem = memory.enomem

theorem Same.then {last : Memory} (first : Same memory after) (second : Same after last) : Same memory last :=
  ⟨second.bytes.trans first.bytes, second.asked.trans first.asked, second.enomem.trans first.enomem⟩

theorem count_same {kind : Kind} (done : count setup thread kind memory = .ok after) : Same memory after := by
  unfold count at done
  split at done
  · cases done
    exact ⟨rfl, rfl, rfl⟩
  · rcases bind_ok done with ⟨counters, -, done⟩
    cases done
    exact ⟨rfl, rfl, rfl⟩

theorem countMallocIncrement_same {failed : Bool} (done : countMallocIncrement setup thread failed memory = .ok after) :
    Same memory after := by
  unfold countMallocIncrement at done
  rcases bind_ok done with ⟨next, counted, done⟩
  split at done
  · exact (count_same counted).then (count_same done)
  · cases done
    exact count_same counted

/-- A thread that can count goes on to. -/
theorem CanCount.count (canCount : CanCount setup thread memory) (kind : Kind) :
    ∃ after, KitAlloc.count setup thread kind memory = .ok after ∧ CanCount setup thread after := by
  unfold KitAlloc.count
  cases isCounters : memory.counters with
  | none => exact ⟨_, rfl, fun _ used => (by cases used)⟩
  | some counters =>
      have registered := (setup.registered kind).2
      have reaches := canCount counters isCounters
      simp only [KitCounters.counterIncr, KitCounters.counterAdd, if_neg (Nat.not_lt.mpr registered)]
      cases isThread : counters.thread thread with
      | none =>
          have shared : setup.counters.allowShared = true := by simpa [isThread] using reaches
          rw [if_pos shared]
          exact ⟨_, rfl, fun _ _ => .inl shared⟩
      | some pointer =>
          cases pointer with
          | own block =>
              refine ⟨_, rfl, ?_⟩
              rintro _ ⟨⟩
              exact .inr (by rw [isThread]; rfl)
          | dead =>
              refine ⟨_, rfl, ?_⟩
              rintro _ ⟨⟩
              exact .inr (by rw [isThread]; rfl)

theorem CanCount.countMallocIncrement (canCount : CanCount setup thread memory) (failed : Bool) :
    ∃ after, KitAlloc.countMallocIncrement setup thread failed memory = .ok after := by
  rcases canCount.count .malloc with ⟨next, counted, canNext⟩
  unfold KitAlloc.countMallocIncrement
  rw [counted]
  cases failed with
  | false => exact ⟨next, rfl⟩
  | true =>
      rcases canNext.count .fail with ⟨after, done, -⟩
      exact ⟨after, done⟩

/-! ## Guards that are written -/

theorem setWord_outside {bytes : Nat → UInt8} {address value : UInt64} {place : Nat}
    (outside : place < address.toNat ∨ address.toNat + 8 ≤ place) :
    setWord bytes address value place = bytes place := by
  unfold setWord
  rw [Bytes.write_outside]
  rw [Bytes.encodeWord_length]
  exact outside

theorem kitMemorySize_toNat {size alignment : UInt64} (checks : setup.checks = true) :
    (kitMemorySize setup size alignment).toNat = (max 16 alignment.toNat + size.toNat + 8) % 2 ^ 64 := by
  have offset : (if (if 8 ≤ alignment then alignment else 8) ≤ 16 then (16 : UInt64) else
      (if 8 ≤ alignment then alignment else 8)).toNat = max 16 alignment.toNat := by
    simp only [UInt64.le_iff_toNat_le]
    split_ifs <;> simp_all <;> omega
  have eight : (8 : UInt64).toNat = 8 := rfl
  unfold kitMemorySize
  rw [if_pos checks]
  simp only [UInt64.toNat_add, offset, eight, Nat.mod_add_mod]

/-- The guards of a block that is as large as asked for lie in it. -/
theorem guardInitialize_guarded {grant : Grant} {size alignment : UInt64} (checks : setup.checks = true)
    (granted : grant.address ≠ 0) (power : alignment.toNat ≤ 16 ∨ 32 ≤ alignment.toNat)
    (fits : max 16 alignment.toNat + size.toNat + 8 < 2 ^ 64) {result : UInt64} {bytes : Nat → UInt8}
    (done : guardInitialize setup grant.address (kitMemorySize setup size alignment) alignment grant.bytes =
      (result, bytes)) :
    Guarded grant (kitMemorySize setup size alignment).toNat (max 16 alignment.toNat) size.toNat result bytes := by
  have total : (kitMemorySize setup size alignment).toNat = max 16 alignment.toNat + size.toNat + 8 := by
    rw [kitMemorySize_toNat checks, Nat.mod_eq_of_lt fits]
  generalize kitMemorySize setup size alignment = asked at *
  have below : grant.address.toNat < 2 ^ 64 := grant.address.toNat_lt
  have eight : (8 : UInt64).toNat = 8 := rfl
  have sixteen : (16 : UInt64).toNat = 16 := rfl
  unfold guardInitialize at done
  rw [if_pos ⟨granted, checks⟩] at done
  have rear : grant.address.toNat + asked.toNat ≤ 2 ^ 64 →
    (grant.address + asked - 8).toNat = grant.address.toNat + asked.toNat - 8 := by
    intro inside
    rw [UInt64.toNat_sub, UInt64.toNat_add]
    omega
  have second : grant.address.toNat + asked.toNat ≤ 2 ^ 64 → (grant.address + 8).toNat = grant.address.toNat + 8 := by
    intro inside
    rw [UInt64.toNat_add]
    omega
  refine ⟨by omega, ?_, by omega, fun inside place differs => ?_⟩
  · split at done
    · rename_i far
      rw [← (Prod.mk.inj done).1]
      have isOffset : max 16 alignment.toNat = alignment.toNat := by
        have := UInt64.lt_iff_toNat_lt.mp far
        omega
      rw [isOffset, UInt64.ofNat_toNat]
    · rename_i near
      rw [← (Prod.mk.inj done).1]
      have isOffset : max 16 alignment.toNat = 16 := by
        have := mt UInt64.lt_iff_toNat_lt.mpr near
        omega
      rw [isOffset]
      rfl
  · by_contra elsewhere
    rw [not_or, not_and_or, not_and_or] at elsewhere
    have words : setWord (setWord (setWord grant.bytes grant.address asked) (grant.address + 8) grant.address)
        (grant.address + asked - 8) grant.address place = grant.bytes place := by
      rw [setWord_outside, setWord_outside, setWord_outside]
      · omega
      · rw [second inside]
        omega
      · rw [rear inside]
        omega
    split at done
    · rename_i far
      apply differs
      have isFar := UInt64.lt_iff_toNat_lt.mp far
      have near : (grant.address + alignment - 16).toNat = grant.address.toNat + alignment.toNat - 16 := by
        rw [UInt64.toNat_sub, UInt64.toNat_add]
        omega
      rw [← (Prod.mk.inj done).2, Bytes.write, if_neg, words]
      rw [near, Bytes.read, List.length_map, List.length_range]
      omega
    · apply differs
      rw [← (Prod.mk.inj done).2, words]

theorem guardInitialize_null {size alignment : UInt64} {bytes : Nat → UInt8} :
    guardInitialize setup 0 size alignment bytes = (0, bytes) := by
  unfold guardInitialize
  rw [if_neg]
  exact fun both => both.1 rfl

theorem memoryAlloc_granted {size alignment : UInt64} {lgAlign : Nat} {zero : Bool} {answer : Option Grant}
    {result : UInt64}
    (done : memoryAlloc setup size alignment lgAlign zero answer memory = .ok (result, after)) (granted : result ≠ 0) :
    after.asked = .mallocx (kitMemorySize setup size alignment) lgAlign zero :: memory.asked ∧
      ∃ grant, answer = some grant ∧ grant.address ≠ 0 ∧
        guardInitialize setup grant.address (kitMemorySize setup size alignment) alignment grant.bytes =
          (result, after.bytes) := by
  unfold memoryAlloc at done
  cases answer with
  | none =>
      dsimp only at done
      split at done
      · cases done
      · cases done
        exact absurd rfl granted
  | some grant =>
      cases done
      refine ⟨rfl, grant, rfl, ?_, rfl⟩
      intro null
      apply granted
      change (guardInitialize setup grant.address (kitMemorySize setup size alignment) alignment grant.bytes).1 = 0
      rw [null, guardInitialize_null]

theorem memoryAlloc_given {size alignment : UInt64} {lgAlign : Nat} {zero : Bool} {grant : Grant} :
    ∃ after, memoryAlloc setup size alignment lgAlign zero (some grant) memory =
        .ok ((guardInitialize setup grant.address (kitMemorySize setup size alignment) alignment grant.bytes).1,
          after) ∧
      after.asked = .mallocx (kitMemorySize setup size alignment) lgAlign zero :: memory.asked ∧
      after.counters = memory.counters :=
  ⟨_, rfl, rfl, rfl⟩

theorem memoryAlloc_counters {size alignment : UInt64} {lgAlign : Nat} {zero : Bool} {answer : Option Grant}
    {result : UInt64}
    (done : memoryAlloc setup size alignment lgAlign zero answer memory = .ok (result, after)) :
    after.counters = memory.counters := by
  unfold memoryAlloc at done
  cases answer with
  | none =>
      dsimp only at done
      split at done
      · cases done
      · cases done
        rfl
  | some grant =>
      cases done
      rfl

/-- A block at the address 16 is not `NULL` once its guards are written, whose
offset is no more than half of what can be addressed. -/
theorem guardInitialize_not_null {size alignment : UInt64} {bytes : Nat → UInt8} (below : alignment.toNat ≤ 2 ^ 63) :
    (guardInitialize setup 16 size alignment bytes).1 ≠ 0 := by
  unfold guardInitialize
  split
  · split
    · intro null
      have isNull := congrArg UInt64.toNat null
      rw [UInt64.toNat_add] at isNull
      have sixteen : (16 : UInt64).toNat = 16 := rfl
      have zero : (0 : UInt64).toNat = 0 := rfl
      omega
    · exact (by decide : (16 + 16 : UInt64) ≠ 0)
  · exact (by decide : (16 : UInt64) ≠ 0)

/-! ## One call -/

/-- An outcome that is a block, with what was asked for it. -/
def Given (memory : Memory) (request : Request) (outcome : Except Stop (UInt64 × Memory)) : Prop :=
  ∃ result after, outcome = .ok (result, after) ∧ result ≠ 0 ∧ after.asked = request :: memory.asked

/-- What is asked for is as much as is needed, if it is asked for and given. -/
theorem Enough.le {offset size : Nat} {answer : Option Grant} {request : Request}
    {outcome : Except Stop (UInt64 × Memory)}
    (enough : Enough setup memory offset size answer outcome) (given : Given memory request outcome)
    (checks : setup.checks = true) : offset + size + 8 ≤ request.size.toNat := by
  rcases given with ⟨result, after, done, granted, asked⟩
  rcases enough result after done granted checks with ⟨other, grant, isOther, -, guarded⟩
  cases asked.symm.trans isOther
  exact guarded.enough

theorem enough_of_alloc {size alignment : UInt64} {lgAlign : Nat} {zero : Bool} {answer : Option Grant}
    {outcome : Except Stop (UInt64 × Memory)}
    (allocates : ∀ result after, outcome = .ok (result, after) → result ≠ 0 → ∃ next,
      memoryAlloc setup size alignment lgAlign zero answer memory = .ok (result, next) ∧ Same next after)
    (power : alignment.toNat ≤ 16 ∨ 32 ≤ alignment.toNat)
    (fits : setup.checks = true → max 16 alignment.toNat + size.toNat + 8 < 2 ^ 64) :
    Enough setup memory (max 16 alignment.toNat) size.toNat answer outcome := by
  intro result after done granted checks
  rcases allocates result after done granted with ⟨next, allocated, same⟩
  rcases memoryAlloc_granted allocated granted with ⟨asked, grant, isGrant, notNull, initialized⟩
  refine ⟨_, grant, same.asked.trans asked, isGrant, ?_⟩
  rw [same.bytes]
  exact guardInitialize_guarded checks notNull power (fits checks) initialized

theorem kitCalloc_eq {num size : UInt64} {answer : Option Grant} :
    kitCalloc setup thread num size answer memory =
      ((if num ≠ 0 ∧ size ≠ 0 ∧ (num * size < num ∨ num * size < size) then
          if setup.aborts then .error .assertion else .ok (0, { memory with enomem := true })
        else memoryAlloc setup (num * size) 0 0 true answer memory) >>= fun given =>
      if setup.aborts ∧ given.1 = 0 then .error .assertion
      else count setup thread .calloc given.2 >>= fun next =>
        (if given.1 = 0 then count setup thread .fail next else .ok next) >>= fun last => .ok (given.1, last)) := by
  unfold kitCalloc
  simp only [ite_bind]

theorem kitRealloc_eq {ptr size : UInt64} {answer : Option Grant} {bytes : Nat → UInt8} :
    kitRealloc setup thread ptr size answer bytes memory =
      (reallocate setup ptr size answer bytes memory >>= fun done =>
      (if done.2.2.1 = 0 ∧ (done.2.1 ≠ 0 ∨ done.1 = 0) then
          if setup.aborts then .error .assertion else count setup thread .fail done.2.2.2
        else .ok done.2.2.2) >>= fun next =>
      (if done.1 = 0 ∧ done.2.2.1 ≠ 0 then countMallocIncrement setup thread false next
        else if done.1 ≠ 0 ∧ done.2.1 = 0 ∧ done.2.2.1 = 0 then count setup thread .free next
        else count setup thread .realloc next) >>= fun last => .ok (done.2.2.1, last)) := by
  unfold kitRealloc
  simp only [ite_bind]

theorem kitMalloc_allocates {size : UInt64} {answer : Option Grant} {result : UInt64}
    (done : kitMalloc setup thread size answer memory = .ok (result, after)) :
    ∃ next, memoryAlloc setup size 0 0 false answer memory = .ok (result, next) ∧ Same next after := by
  unfold kitMalloc at done
  rcases bind_ok done with ⟨⟨isResult, next⟩, allocated, done⟩
  rcases bind_ok done with ⟨last, counted, done⟩
  cases done
  exact ⟨next, allocated, countMallocIncrement_same counted⟩

theorem kitMemalign_allocates {alignment size : UInt64} {answer : Option Grant} {result : UInt64}
    (done : kitMemalign setup thread alignment size answer memory = .ok (result, after)) :
    ∃ next, memoryAlloc setup size alignment (Nat.log2 alignment.toNat) false answer memory = .ok (result, next) ∧
      Same next after := by
  unfold kitMemalign at done
  split at done
  · cases done
  · split at done
    · cases done
    · rcases bind_ok done with ⟨⟨isResult, next⟩, allocated, done⟩
      rcases bind_ok done with ⟨last, counted, done⟩
      cases done
      exact ⟨next, allocated, countMallocIncrement_same counted⟩

theorem kitCalloc_allocates {num size : UInt64} {answer : Option Grant} {result : UInt64} (granted : result ≠ 0)
    (done : kitCalloc setup thread num size answer memory = .ok (result, after)) :
    ∃ next, memoryAlloc setup (num * size) 0 0 true answer memory = .ok (result, next) ∧ Same next after := by
  rw [kitCalloc_eq] at done
  rcases bind_ok done with ⟨⟨isResult, next⟩, allocated, done⟩
  dsimp only at done
  split at done
  · cases done
  · rcases bind_ok done with ⟨middle, counted, done⟩
    rcases bind_ok done with ⟨last, failed, done⟩
    cases done
    rw [if_neg granted] at failed
    cases failed
    split at allocated
    · split at allocated
      · cases allocated
      · cases allocated
        exact absurd rfl granted
    · exact ⟨next, allocated, count_same counted⟩

theorem kitRealloc_reallocates {ptr size : UInt64} {answer : Option Grant} {bytes : Nat → UInt8} {result : UInt64}
    (done : kitRealloc setup thread ptr size answer bytes memory = .ok (result, after)) :
    ∃ base isSize next, reallocate setup ptr size answer bytes memory = .ok (base, isSize, result, next) ∧
      Same next after := by
  rw [kitRealloc_eq] at done
  rcases bind_ok done with ⟨⟨base, isSize, isResult, next⟩, reallocated, done⟩
  rcases bind_ok done with ⟨middle, failed, done⟩
  rcases bind_ok done with ⟨last, counted, done⟩
  cases done
  refine ⟨base, isSize, next, reallocated, ?_⟩
  have first : Same next middle := by
    split at failed
    · split at failed
      · cases failed
      · exact count_same failed
    · cases failed
      exact ⟨rfl, rfl, rfl⟩
  refine first.then ?_
  split at counted
  · exact countMallocIncrement_same counted
  · split at counted
    · exact count_same counted
    · exact count_same counted

theorem kitRealloc_null_allocates {size : UInt64} {answer : Option Grant} {bytes : Nat → UInt8} {result : UInt64}
    (done : kitRealloc setup thread 0 size answer bytes memory = .ok (result, after)) :
    ∃ next, memoryAlloc setup size 0 0 false answer memory = .ok (result, next) ∧ Same next after := by
  rcases kitRealloc_reallocates done with ⟨base, isSize, next, reallocated, same⟩
  unfold reallocate at reallocated
  rw [if_pos rfl] at reallocated
  rcases bind_ok reallocated with ⟨⟨isResult, last⟩, allocated, reallocated⟩
  cases reallocated
  exact ⟨next, allocated, same⟩

theorem kitMemoryCheck_base {ptr : UInt64} {base size : UInt64} {next : Memory} (checks : setup.checks = true)
    (done : kitMemoryCheck setup ptr .null memory = .ok (base, size, next)) :
      foreGuard ptr memory.bytes = .ok base ∧ next = memory := by
  unfold kitMemoryCheck at done
  rw [if_neg (not_not.mpr checks)] at done
  rcases bind_ok done with ⟨guard, found, done⟩
  split at done
  · cases done
  · split at done
    · cases done
    · cases done
      exact ⟨found, rfl⟩

/-- A block that is reallocated, for which guards are checked. -/
theorem kitRealloc_moves {ptr size : UInt64} {answer : Option Grant} {bytes : Nat → UInt8} {result base : UInt64}
    (checks : setup.checks = true) (notNull : ptr ≠ 0) (notZero : size ≠ 0)
    (found : foreGuard ptr memory.bytes = .ok base)
    (done : kitRealloc setup thread ptr size answer bytes memory = .ok (result, after)) (granted : result ≠ 0) :
    after.asked = .rallocx base (kitMemorySize setup size (ptr - base)) :: memory.asked ∧
      ∃ grant, answer = some grant ∧ grant.address ≠ 0 ∧
        guardInitialize setup grant.address (kitMemorySize setup size (ptr - base)) (ptr - base) grant.bytes =
          (result, after.bytes) := by
  rcases kitRealloc_reallocates done with ⟨isBase, isSize, next, reallocated, same⟩
  unfold reallocate at reallocated
  rw [if_neg notNull, if_pos notZero] at reallocated
  rcases bind_ok reallocated with ⟨⟨guard, stored, checked⟩, isChecked, reallocated⟩
  rcases kitMemoryCheck_base checks isChecked with ⟨isGuard, rfl⟩
  cases found.symm.trans isGuard
  cases answer with
  | none =>
      cases reallocated
      exact absurd rfl granted
  | some grant =>
      cases reallocated
      refine ⟨same.asked, grant, rfl, ?_, ?_⟩
      · intro null
        apply granted
        change (guardInitialize setup grant.address (kitMemorySize setup size (ptr - base))
          (ptr - base) grant.bytes).1 = 0
        rw [null, guardInitialize_null]
      · rw [same.bytes]
        rfl

/-! ## Calls that are given a block -/

def lowest : Grant := ⟨16, fun _ => 0⟩

theorem CanCount.of_counters {next : Memory} (canCount : CanCount setup thread memory)
    (same : next.counters = memory.counters) :
    CanCount setup thread next := by
  unfold CanCount
  rw [same]
  exact canCount

theorem CanCount.given {size alignment : UInt64} {lgAlign : Nat} {outcome : Except Stop (UInt64 × Memory)}
    (canCount : CanCount setup thread memory) (below : alignment.toNat ≤ 2 ^ 63)
    (allocates : ∀ result next, memoryAlloc setup size alignment lgAlign false (some lowest) memory =
      .ok (result, next) →
      result ≠ 0 → outcome = (KitAlloc.countMallocIncrement setup thread false next >>= fun last =>
        .ok (result, last))) :
    Given memory (.mallocx (kitMemorySize setup size alignment) lgAlign false) outcome := by
  rcases @memoryAlloc_given setup memory size alignment lgAlign false lowest with ⟨next, allocated, asked, isCounters⟩
  have notNull : (guardInitialize setup lowest.address
    (kitMemorySize setup size alignment) alignment lowest.bytes).1 ≠ 0 :=
    guardInitialize_not_null below
  rcases (canCount.of_counters isCounters).countMallocIncrement false with ⟨after, counted⟩
  refine ⟨_, after, ?_, notNull, ?_⟩
  · rw [allocates _ next allocated notNull, counted]
    rfl
  · rw [(countMallocIncrement_same counted).asked, asked]

theorem kitMalloc_given {size : UInt64} (canCount : CanCount setup thread memory) :
    Given memory (.mallocx (kitMemorySize setup size 0) 0 false)
      (kitMalloc setup thread size (some lowest) memory) := by
  refine canCount.given (by decide) fun result next allocated notNull => ?_
  unfold kitMalloc
  rw [allocated, ok_bind]
  dsimp only
  rw [decide_eq_false notNull]

theorem kitMemalign_given {lgAlign : Nat} {size : UInt64} (canCount : CanCount setup thread memory)
    (allowed : lgAlign < 64) :
    ∃ asked, Given memory (.mallocx (kitMemorySize setup size (UInt64.ofNat (2 ^ lgAlign))) asked false)
      (kitMemalign setup thread (UInt64.ofNat (2 ^ lgAlign)) size (some lowest) memory) := by
  have isPower : (UInt64.ofNat (2 ^ lgAlign)).toNat = 2 ^ lgAlign :=
    UInt64.toNat_ofNat_of_lt' (Nat.pow_lt_pow_right (by decide) allowed)
  have most : 2 ^ lgAlign ≤ 2 ^ 63 := Nat.pow_le_pow_right (by decide) (by omega)
  have below : (UInt64.ofNat (2 ^ lgAlign)).toNat ≤ 2 ^ 63 := isPower.le.trans most
  refine ⟨lgAlign, canCount.given below fun result next allocated notNull => ?_⟩
  have positive : UInt64.ofNat (2 ^ lgAlign) ≠ 0 := by
    intro zero
    have isZero := congrArg UInt64.toNat zero
    rw [isPower] at isZero
    exact absurd isZero (Nat.pos_iff_ne_zero.mp (Nat.two_pow_pos lgAlign))
  unfold kitMemalign
  rw [if_neg positive, isPower, Nat.log2_two_pow, if_neg (not_not.mpr rfl)]
  rw [allocated, ok_bind]
  dsimp only
  rw [decide_eq_false notNull]

theorem kitRealloc_null_given {size : UInt64} {bytes : Nat → UInt8} (canCount : CanCount setup thread memory) :
    Given memory (.mallocx (kitMemorySize setup size 0) 0 false)
      (kitRealloc setup thread 0 size (some lowest) bytes memory) := by
  refine canCount.given (by decide) fun result next allocated notNull => ?_
  rw [kitRealloc_eq, reallocate, if_pos rfl, allocated]
  simp only [ok_bind]
  rw [if_neg (fun failed => notNull failed.1), ok_bind, if_pos ⟨trivial, notNull⟩]

theorem kitRealloc_given {ptr size base : UInt64} {bytes : Nat → UInt8} (canCount : CanCount setup thread memory)
    (checks : setup.checks = true) (notNull : ptr ≠ 0) (notZero : size ≠ 0)
    (found : foreGuard ptr memory.bytes = .ok base)
    (intact : ∃ done, kitMemoryCheck setup ptr .null memory = .ok done) (below : (ptr - base).toNat ≤ 2 ^ 63) :
    Given memory (.rallocx base (kitMemorySize setup size (ptr - base)))
      (kitRealloc setup thread ptr size (some lowest) bytes memory) := by
  rcases intact with ⟨⟨guard, stored, checked⟩, isChecked⟩
  rcases kitMemoryCheck_base checks isChecked with ⟨isGuard, rfl⟩
  cases found.symm.trans isGuard
  have given : (guardInitialize setup lowest.address (kitMemorySize setup size (ptr - base))
    (ptr - base) lowest.bytes).1 ≠ 0 :=
    guardInitialize_not_null below
  have reallocated : ∃ next, reallocate setup ptr size (some lowest) bytes checked = .ok
    (base, kitMemorySize setup size (ptr - base),
      (guardInitialize setup lowest.address (kitMemorySize setup size (ptr - base))
        (ptr - base) lowest.bytes).1, next) ∧
      next.asked = .rallocx base (kitMemorySize setup size (ptr - base)) :: checked.asked ∧
        next.counters = checked.counters := by
    rw [reallocate, if_neg notNull, if_pos notZero, isChecked]
    exact ⟨_, rfl, rfl, rfl⟩
  rcases reallocated with ⟨next, reallocated, asked, isCounters⟩
  rw [kitRealloc_eq, reallocated]
  simp only [ok_bind]
  rw [if_neg (fun failed => given failed.1), ok_bind]
  split
  · rcases (canCount.of_counters isCounters).countMallocIncrement false with ⟨after, counted⟩
    refine ⟨_, after, ?_, given, (countMallocIncrement_same counted).asked.trans asked⟩
    rw [counted, ok_bind]
  · rcases (canCount.of_counters isCounters).count .realloc with ⟨after, counted, -⟩
    refine ⟨_, after, ?_, given, (count_same counted).asked.trans asked⟩
    rw [if_neg (fun other => given other.2.2), counted, ok_bind]

/-! ## `kit_calloc` -/

/-- The test of `kit_calloc`. -/
def Detected (num size : UInt64) : Prop := num ≠ 0 ∧ size ≠ 0 ∧ (num * size < num ∨ num * size < size)

theorem detected_iff {num size : UInt64} : Detected num size ↔ num ≠ 0 ∧ size ≠ 0 ∧
    (num.toNat * size.toNat % 2 ^ 64 < num.toNat ∨ num.toNat * size.toNat % 2 ^ 64 < size.toNat) := by
  rw [Detected, UInt64.lt_iff_toNat_lt, UInt64.lt_iff_toNat_lt, UInt64.toNat_mul]

theorem kitCalloc_fails {num size : UInt64} {answer : Option Grant} (canCount : CanCount setup thread memory)
    (detected : Detected num size) : Fails setup (kitCalloc setup thread num size answer memory) := by
  unfold Detected at detected
  rw [kitCalloc_eq, if_pos detected]
  by_cases aborts : setup.aborts = true
  · rw [if_pos aborts]
    exact .inr ⟨aborts, rfl⟩
  · rw [if_neg aborts, ok_bind]
    dsimp only
    rw [if_neg (fun both => aborts both.1)]
    have canNext : CanCount setup thread { memory with enomem := true } := canCount.of_counters rfl
    rcases canNext.count .calloc with ⟨next, counted, canNext⟩
    rcases canNext.count .fail with ⟨last, failed, -⟩
    rw [counted, ok_bind, if_pos rfl, failed, ok_bind]
    exact .inl ⟨last, rfl, ((count_same counted).then (count_same failed)).enomem⟩

theorem kitCalloc_given {num size : UInt64} (canCount : CanCount setup thread memory)
    (undetected : ¬ Detected num size) :
    Given memory (.mallocx (kitMemorySize setup (num * size) 0) 0 true)
      (kitCalloc setup thread num size (some lowest) memory) := by
  rcases @memoryAlloc_given setup memory (num * size) 0 0 true lowest with ⟨next, allocated, asked, isCounters⟩
  have notNull : (guardInitialize setup lowest.address (kitMemorySize setup (num * size) 0) 0 lowest.bytes).1 ≠ 0 :=
    guardInitialize_not_null (by decide)
  rcases (canCount.of_counters isCounters).count .calloc with ⟨after, counted, -⟩
  refine ⟨_, after, ?_, notNull, (count_same counted).asked.trans asked⟩
  unfold Detected at undetected
  rw [kitCalloc_eq, if_neg undetected, allocated, ok_bind]
  dsimp only
  rw [if_neg (fun both => notNull both.2), counted, ok_bind, if_neg notNull, ok_bind]

theorem Given.not_fails {request : Request} {outcome : Except Stop (UInt64 × Memory)}
    (given : Given memory request outcome) :
    ¬ Fails setup outcome := by
  rcases given with ⟨result, after, rfl, notNull, -⟩
  rintro (⟨next, done, -⟩ | ⟨-, done⟩)
  · cases done
    exact notNull rfl
  · cases done

/-! ## What holds when sizes do not wrap -/

theorem malloc_sound_iff {size : UInt64} (canCount : CanCount setup thread memory) :
    (Ask.malloc size).Sound setup thread memory ↔ (Ask.malloc size).Fits setup memory := by
  constructor
  · intro sound checks
    exact ((sound (some lowest) fun _ => 0).le (kitMalloc_given canCount) checks).trans_lt (UInt64.toNat_lt _)
  · intro fits answer bytes
    exact @enough_of_alloc setup memory size 0 _ _ answer _ (fun result after done _ => kitMalloc_allocates done)
      (by decide) fits

theorem memalign_sound_iff {lgAlign : Nat} {size : UInt64} (canCount : CanCount setup thread memory)
    (allowed : lgAlign < 64) :
    (Ask.memalign lgAlign size).Sound setup thread memory ↔ (Ask.memalign lgAlign size).Fits setup memory := by
  have isPower : (UInt64.ofNat (2 ^ lgAlign)).toNat = 2 ^ lgAlign :=
    UInt64.toNat_ofNat_of_lt' (Nat.pow_lt_pow_right (by decide) allowed)
  constructor
  · intro sound checks
    rcases @kitMemalign_given setup thread memory lgAlign size canCount allowed with ⟨asked, given⟩
    exact ((sound (some lowest) fun _ => 0).le given checks).trans_lt (UInt64.toNat_lt _)
  · intro fits answer bytes
    have power : 2 ^ lgAlign ≤ 16 ∨ 32 ≤ 2 ^ lgAlign := by
      rcases Nat.lt_or_ge lgAlign 5 with few | many
      · exact .inl (Nat.pow_le_pow_right (n := 2) (j := 4) (by decide) (by omega))
      · exact .inr (Nat.pow_le_pow_right (n := 2) (i := 5) (by decide) many)
    have enough := @enough_of_alloc setup memory size (UInt64.ofNat (2 ^ lgAlign)) _ _ answer _
      (fun result after done _ => @kitMemalign_allocates setup thread memory after _ size answer result done)
    rw [isPower] at enough
    exact enough power fits

theorem calloc_sound_iff {num size : UInt64} (canCount : CanCount setup thread memory) :
    (Ask.calloc num size).Sound setup thread memory ↔ (Ask.calloc num size).Fits setup memory := by
  constructor
  · intro sound
    rcases Nat.lt_or_ge (num.toNat * size.toNat + overhead setup) (2 ^ 64) with small | large
    · exact .inl small
    · refine .inr (detected_iff.mp ?_)
      by_contra undetected
      exact (kitCalloc_given canCount undetected).not_fails ((sound (some lowest) fun _ => 0).1 large)
  · intro fits answer bytes
    refine ⟨fun large => ?_, fun small => ?_⟩
    · rcases fits with small | detected
      · exact absurd large (Nat.not_le.mpr small)
      · exact kitCalloc_fails canCount (detected_iff.mpr detected)
    · have isProduct : (num * size).toNat = num.toNat * size.toNat := by
        rw [UInt64.toNat_mul, Nat.mod_eq_of_lt]
        omega
      have enough := @enough_of_alloc setup memory (num * size) 0 _ _ answer _
        (fun result after done granted => @kitCalloc_allocates setup thread memory after num size answer result granted done)
      rw [isProduct] at enough
      refine enough (by decide) fun checks => ?_
      rw [overhead, if_pos checks] at small
      have zero : max 16 (0 : UInt64).toNat = 16 := rfl
      omega

theorem realloc_sound_iff {ptr size : UInt64} (canCount : CanCount setup thread memory)
    (allowed : (Ask.realloc ptr size).Allowed setup memory) :
    (Ask.realloc ptr size).Sound setup thread memory ↔ (Ask.realloc ptr size).Fits setup memory := by
  constructor
  · intro sound checks
    have here := sound (some lowest) fun _ => 0
    dsimp only at here
    refine ⟨?_, fun notNull notZero base found => ?_⟩
    · rintro rfl
      rw [if_pos rfl] at here
      exact (here.le (kitRealloc_null_given canCount) checks).trans_lt (UInt64.toNat_lt _)
    · rw [if_neg notNull, if_neg notZero] at here
      rcases allowed notNull checks with ⟨other, lgOffset, isOther, intact, isPower, -⟩
      cases found.symm.trans isOther
      have below : lgOffset < 64 := by
        by_contra large
        have most := Nat.pow_le_pow_right (n := 2) (by decide) (Nat.le_of_not_lt large)
        exact absurd (isPower ▸ UInt64.toNat_lt (ptr - base)) (Nat.not_lt.mpr most)
      have half : (ptr - base).toNat ≤ 2 ^ 63 := isPower.le.trans (Nat.pow_le_pow_right (by decide) (by omega))
      exact ((here base found).le (kitRealloc_given canCount checks notNull notZero found intact half) checks).trans_lt
        (UInt64.toNat_lt _)
  · intro fits answer bytes
    dsimp only
    split
    · rename_i null
      cases null
      exact @enough_of_alloc setup memory size 0 _ _ answer _ (fun result after done _ =>
        kitRealloc_null_allocates done)
        (by decide) fun checks => (fits checks).1 rfl
    · rename_i notNull
      split
      · trivial
      · rename_i notZero
        intro base found result after done granted checks
        rcases kitRealloc_moves checks notNull notZero found done granted with
          ⟨asked, grant, isGrant, address, initialized⟩
        rcases allowed notNull checks with ⟨other, lgOffset, isOther, -, isPower, large⟩
        cases found.symm.trans isOther
        have least : 2 ^ 4 ≤ (ptr - base).toNat := isPower ▸ Nat.pow_le_pow_right (by decide) large
        have isMax : max 16 (ptr - base).toNat = (ptr - base).toNat := max_eq_right least
        have power : (ptr - base).toNat ≤ 16 ∨ 32 ≤ (ptr - base).toNat := by
          rcases Nat.eq_or_lt_of_le large with is | more
          · exact .inl (by rw [isPower, ← is]; norm_num)
          · exact .inr (isPower ▸ Nat.pow_le_pow_right (n := 2) (i := 5) (by decide) more)
        have guarded := guardInitialize_guarded checks address power
          (by rw [isMax]; exact (fits checks).2 notNull notZero base found) initialized
        rw [isMax] at guarded
        exact ⟨_, grant, asked, isGrant, guarded⟩

end

/-! ## Sizes -/

/-- What is asked of `jemalloc` is enough, and a product that is too large makes
`kit_calloc` fail, if and only if the sizes do not wrap or the test finds that
they do. -/
theorem allocation_sizes {setup : Setup} {thread : Nat} {memory : Memory} {ask : Ask}
    (canCount : CanCount setup thread memory)
    (allowed : ask.Allowed setup memory) : ask.Sound setup thread memory ↔ ask.Fits setup memory := by
  cases ask with
  | malloc size => exact malloc_sound_iff canCount
  | memalign lgAlign size => exact memalign_sound_iff canCount allowed
  | calloc num size => exact calloc_sound_iff canCount
  | realloc ptr size => exact realloc_sound_iff canCount allowed

/-- A hundred bytes, with guards. -/
theorem allocation_sizes_hundred : (Ask.malloc 100).Sound (Setup.simple true false) 0 Memory.start :=
  (@allocation_sizes (Setup.simple true false) 0 Memory.start (.malloc 100) (fun _ used => (by cases used)) trivial).mpr
    fun _ => (by decide)

/-- A product of 65 bits is not found to be too large, nor is a size that leaves
no room for the guards. -/
theorem sizes_wrap :
    (2 ^ 64 ≤ (4294967297 : UInt64).toNat * (4294967297 : UInt64).toNat ∧
      (∃ after, kitCalloc (Setup.simple false false) 0 4294967297 4294967297 (some lowest) Memory.start =
        .ok (16, after) ∧
        after.asked = [.mallocx 8589934593 0 true]) ∧
      ¬ (Ask.calloc 4294967297 4294967297).Sound (Setup.simple false false) 0 Memory.start) ∧
    ¬ (Ask.malloc 18446744073709551596).Sound (Setup.simple true false) 0 Memory.start := by
  refine ⟨⟨by decide, ⟨_, rfl, rfl⟩, fun sound => ?_⟩, fun sound => ?_⟩
  · have fits := (calloc_sound_iff (fun _ used => (by cases used))).mp sound
    exact absurd fits (by decide : ¬ (_ ∨ _))
  · exact absurd ((malloc_sound_iff (fun _ used => (by cases used))).mp sound rfl) (by decide)

end KitAlloc
end LibKit
