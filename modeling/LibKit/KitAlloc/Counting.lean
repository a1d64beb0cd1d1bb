import LibKit.KitAlloc.Checking

namespace LibKit
namespace KitAlloc

open KitCounters (Counters Stop)

/-!
# Allocations that are counted

A block that is allocated is counted by `kit_malloc` or `kit_calloc`, and one
that is freed by `kit_free`, also if `kit_realloc` does either.  The counts are
carried over when counters are initialized.  Allocations that fail are counted
all the same, apart from those of `kit_realloc`.
-/

/-! ## Outstanding blocks -/

/-- A block that was allocated, unless that failed. -/
def gained (result : UInt64) (held : List (Option UInt64)) : List (Option UInt64) :=
  if result = 0 then held else some result :: held

/-- The blocks allocated and not freed after a call that returned a result: those
of the program with their pointers, and those of the counters. -/
def Call.held (result : UInt64) (held : List (Option UInt64)) : Call → List (Option UInt64)
  | .malloc _ _ => gained result held
  | .memalign _ _ _ => gained result held
  | .calloc _ _ _ => gained result held
  | .strdup _ _ => gained result held
  | .realloc ptr size _ _ =>
      if ptr = 0 then gained result held
      else if size = 0 then held.erase (some ptr)
      else if result = 0 then held
      else some result :: held.erase (some ptr)
  | .reduce ptr size _ _ =>
      if ptr = 0 then held
      else if size = 0 then held.erase (some ptr)
      else some result :: held.erase (some ptr)
  | .free ptr _ => if ptr = 0 then held else held.erase (some ptr)
  | .countersInitialize _ _ others => List.replicate (others.length + 2) none ++ held
  | .write _ _ => held

/-- The blocks that are outstanding after the calls made so far. -/
def outstanding : History (Nat × Call) UInt64 → List (Option UInt64)
  | [] => []
  | ((_, call), result) :: history => call.held result (outstanding history)

/-- The failed allocations of a call that are counted like blocks. -/
def Call.failed (result : UInt64) : Call → Nat
  | .malloc _ _ => if result = 0 then 1 else 0
  | .memalign _ _ _ => if result = 0 then 1 else 0
  | .calloc _ _ _ => if result = 0 then 1 else 0
  | .strdup _ _ => if result = 0 then 1 else 0
  | _ => 0

/-- The failed allocations that were counted so far. -/
def failures : History (Nat × Call) UInt64 → Nat
  | [] => 0
  | ((_, call), result) :: history => call.failed result + failures history

/-! ## What a program promises -/

/-- A pointer is one to an outstanding block, whose guards lead to its start. -/
def Holds (setup : Setup) (held : List (Option UInt64)) (bytes : Nat → UInt8) (ptr : UInt64) : Prop :=
  some ptr ∈ held ∧ (setup.checks = true → ∀ base, foreGuard ptr bytes = .ok base → base ≠ 0)

/-- A program frees, reallocates and reduces blocks that are outstanding, and has
less than 2^31 threads. -/
def Call.Sensible (setup : Setup) (held : List (Option UInt64)) (bytes : Nat → UInt8) : Call → Prop
  | .realloc ptr _ _ _ => ptr ≠ 0 → Holds setup held bytes ptr
  | .reduce ptr _ _ _ => ptr ≠ 0 → Holds setup held bytes ptr
  | .free ptr _ => ptr ≠ 0 → some ptr ∈ held
  | .countersInitialize _ _ others => others.length + 1 < 2 ^ 31
  | _ => True

/-- The size that `kit_realloc` and `kit_reduce` ask for does not wrap to none. -/
def Call.Fits (setup : Setup) (bytes : Nat → UInt8) : Call → Prop
  | .realloc ptr size _ _ => ptr ≠ 0 → size ≠ 0 → setup.checks = true → ∀ base, foreGuard ptr bytes = .ok base →
      kitMemorySize setup size (ptr - base) ≠ 0
  | .reduce ptr size _ _ => ptr ≠ 0 → size ≠ 0 → setup.checks = true → ∀ base, foreGuard ptr bytes = .ok base →
      kitMemorySize setup size (ptr - base) ≠ 0
  | _ => True

/-! ## Counts -/

def Kind.worth : Kind → UInt64
  | .calloc => 1
  | .malloc => 1
  | .free => 0 - 1
  | _ => 0

/-- What was counted, before and after counters are used. -/
def Memory.total (setup : Setup) (memory : Memory) (kind : Kind) : UInt64 :=
  match memory.counters with
  | none => memory.counts kind
  | some counters => KitCounters.tally counters (setup.ids kind)

def Memory.balance (setup : Setup) (memory : Memory) : UInt64 :=
  memory.total setup .calloc + memory.total setup .malloc - memory.total setup .free

/-- Counters, if they are used, are sound, and every thread counts in a block
that is counted. -/
def Memory.Valid (memory : Memory) : Prop :=
  ∀ counters, memory.counters = some counters → KitCounters.Sound counters ∧ counters.slots.length < 2 ^ 31 ∧
    ∀ thread, KitCounters.Counts counters thread

section

variable {setup : Setup} {thread : Nat} {memory after : Memory}

theorem kitMemoryAllocations_balance (valid : memory.Valid) :
    kitMemoryAllocations setup memory = memory.balance setup := by
  unfold kitMemoryAllocations Memory.balance Memory.total
  cases isCounters : memory.counters with
  | none => rfl
  | some counters =>
      rcases valid counters isCounters with ⟨-, few, -⟩
      have value : ∀ kind, kind ≠ .bytes →
          KitCounters.counterGet setup.counters (setup.ids kind) counters =
            KitCounters.tally counters (setup.ids kind) :=
        fun kind plain => KitCounters.counterGet_tally few (setup.registered kind).1 (setup.registered kind).2
          (setup.plain kind plain)
      dsimp only
      rw [value .calloc (by decide), value .malloc (by decide), value .free (by decide)]

/-- Counts are made, and counters are not used if they were not. -/
structure Changed (setup : Setup) (change : UInt64) (memory after : Memory) : Prop where
  valid : after.Valid
  balance : after.balance setup = memory.balance setup + change
  unused : memory.counters = none → after.counters = none

theorem Changed.then {last : Memory} {first second : UInt64} (one : Changed setup first memory after)
    (two : Changed setup second after last) : Changed setup (first + second) memory last :=
  ⟨two.valid, by rw [two.balance, one.balance, add_assoc], fun unused => two.unused (one.unused unused)⟩

theorem Changed.none (valid : memory.Valid) (counts : after.counts = memory.counts)
    (counters : after.counters = memory.counters) :
    Changed setup 0 memory after := by
  refine ⟨?_, ?_, counters.trans⟩
  · unfold Memory.Valid
    rw [counters]
    exact valid
  · unfold Memory.balance Memory.total
    rw [counts, counters, add_zero]

theorem Changed.same {last : Memory} {change : UInt64} (changed : Changed setup change memory after)
    (counts : last.counts = after.counts) (counters : last.counters = after.counters) :
    Changed setup change memory last := by
  have both := changed.then (Changed.none changed.valid counts counters)
  rwa [add_zero] at both

/-- One count. -/
theorem count_changed {kind : Kind} (valid : memory.Valid) (done : count setup thread kind memory = .ok after) :
    Changed setup kind.worth memory after := by
  have totals : after.Valid ∧ ∀ other, after.total setup other = memory.total setup other + if kind = other then 1
    else 0 := by
    unfold count at done
    unfold Memory.total
    cases isCounters : memory.counters with
    | none =>
        rw [isCounters] at done
        cases done
        refine ⟨fun counters used => (by cases used), fun other => ?_⟩
        dsimp only
        rw [Function.update_apply]
        split
        · rename_i same
          rw [if_pos same.symm, same]
        · rename_i differs
          rw [if_neg (Ne.symm differs), add_zero]
    | some counters =>
        rw [isCounters] at done
        rcases bind_ok done with ⟨next, added, done⟩
        cases done
        rcases valid counters isCounters with ⟨sound, few, counts⟩
        have counted := KitCounters.counterAdd_counted sound (counts thread) added
        refine ⟨?_, fun other => ?_⟩
        · rintro _ ⟨⟩
          refine ⟨counted.sound, ?_, fun any => counted.counts (counts any)⟩
          rw [counted.slots]
          exact few
        · dsimp only
          rw [counted.tally _ (setup.registered other).2, KitCounters.addedTo_cons]
          have rest : KitCounters.addedTo (setup.ids other) [] = 0 := rfl
          rw [rest, add_zero]
          by_cases same : kind = other
          · rw [if_pos same, if_pos (congrArg setup.ids same)]
          · rw [if_neg same, if_neg fun equal => same (setup.distinct equal)]
  refine ⟨totals.1, ?_, fun unused => ?_⟩
  · unfold Memory.balance
    rw [totals.2, totals.2, totals.2]
    cases kind <;> simp only [Kind.worth, reduceCtorEq, if_true, if_false] <;> grind
  · unfold count at done
    rw [unused] at done
    cases done
    rfl

theorem countMallocIncrement_changed {failed : Bool} (valid : memory.Valid)
    (done : countMallocIncrement setup thread failed memory = .ok after) : Changed setup 1 memory after := by
  unfold countMallocIncrement at done
  rcases bind_ok done with ⟨next, counted, done⟩
  have one := count_changed valid counted
  split at done
  · have both : Changed setup (1 + 0) memory after := one.then (count_changed one.valid done)
    rwa [add_zero] at both
  · cases done
    exact one

/-! ## Calls -/

theorem memoryAlloc_changed {size alignment result : UInt64} {lgAlign : Nat} {zero : Bool} {answer : Option Grant}
    (valid : memory.Valid) (done : memoryAlloc setup size alignment lgAlign zero answer memory = .ok (result, after)) :
    Changed setup 0 memory after := by
  refine Changed.none valid ?_ (memoryAlloc_counters done)
  unfold memoryAlloc at done
  cases answer with
  | none =>
      dsimp only at done
      split at done
      · cases done
      · cases done
        rfl
  | some grant =>
      cases done
      rfl

theorem kitMalloc_changed {size result : UInt64} {answer : Option Grant} (valid : memory.Valid)
    (done : kitMalloc setup thread size answer memory = .ok (result, after)) : Changed setup 1 memory after := by
  unfold kitMalloc at done
  rcases bind_ok done with ⟨⟨isResult, next⟩, isAllocated, done⟩
  rcases bind_ok done with ⟨last, counted, done⟩
  cases done
  have alloc := memoryAlloc_changed valid isAllocated
  have both := alloc.then (countMallocIncrement_changed alloc.valid counted)
  rwa [zero_add] at both

theorem kitMemalign_changed {alignment size result : UInt64} {answer : Option Grant} (valid : memory.Valid)
    (done : kitMemalign setup thread alignment size answer memory = .ok (result, after)) :
    Changed setup 1 memory after := by
  unfold kitMemalign at done
  split at done
  · cases done
  · split at done
    · cases done
    · rcases bind_ok done with ⟨⟨isResult, next⟩, isAllocated, done⟩
      rcases bind_ok done with ⟨last, counted, done⟩
      cases done
      have alloc := memoryAlloc_changed valid isAllocated
      have both := alloc.then (countMallocIncrement_changed alloc.valid counted)
      rwa [zero_add] at both

theorem kitStrdup_changed {txt : List UInt8} {result : UInt64} {answer : Option Grant} (valid : memory.Valid)
    (done : kitStrdup setup thread txt answer memory = .ok (result, after)) : Changed setup 1 memory after := by
  unfold kitStrdup at done
  rcases bind_ok done with ⟨⟨isResult, next⟩, isAllocated, done⟩
  rcases bind_ok done with ⟨last, counted, done⟩
  cases done
  have alloc := memoryAlloc_changed valid isAllocated
  have copied : Changed setup 0 memory
      (if result ≠ 0 then { next with bytes := Bytes.write next.bytes result.toNat (txt ++ [0]) } else next) := by
    split
    · exact alloc.same rfl rfl
    · exact alloc
  have both := copied.then (countMallocIncrement_changed copied.valid counted)
  rwa [zero_add] at both

theorem kitCalloc_changed {num size result : UInt64} {answer : Option Grant} (valid : memory.Valid)
    (done : kitCalloc setup thread num size answer memory = .ok (result, after)) : Changed setup 1 memory after := by
  rw [kitCalloc_eq] at done
  rcases bind_ok done with ⟨⟨isResult, next⟩, given, done⟩
  dsimp only at done
  split at done
  · cases done
  · rcases bind_ok done with ⟨middle, counted, done⟩
    rcases bind_ok done with ⟨last, failed, done⟩
    cases done
    have first : Changed setup 0 memory next := by
      split at given
      · split at given
        · cases given
        · cases given
          exact Changed.none valid rfl rfl
      · exact memoryAlloc_changed valid given
    have second := count_changed first.valid counted
    have third : Changed setup 0 middle after := by
      split at failed
      · exact count_changed second.valid failed
      · cases failed
        exact Changed.none second.valid rfl rfl
    have all : Changed setup (0 + 1 + 0) memory after := (first.then second).then third
    rwa [zero_add, add_zero] at all

theorem kitMemoryCheck_changed {ptr base stored : UInt64} {out : SizeOut} (valid : memory.Valid)
    (done : kitMemoryCheck setup ptr out memory = .ok (base, stored, after)) : Changed setup 0 memory after := by
  unfold kitMemoryCheck at done
  split at done
  · cases done
    exact Changed.none valid rfl rfl
  · rcases bind_ok done with ⟨guard, found, done⟩
    split at done
    · cases done
    · split at done
      · cases done
      · cases out with
        | null =>
            cases done
            exact Changed.none valid rfl rfl
        | size =>
            cases done
            exact Changed.none valid rfl rfl
        | free =>
            cases done
            exact Changed.none valid rfl rfl

theorem kitFree_changed {ptr : UInt64} {bytes : Nat → UInt8} (valid : memory.Valid)
    (done : kitFree setup thread ptr bytes memory = .ok after) :
    Changed setup (if ptr = 0 then 0 else 0 - 1) memory after := by
  unfold kitFree at done
  split at done
  · rename_i null
    cases done
    rw [if_pos null]
    exact Changed.none valid rfl rfl
  · rename_i notNull
    rw [if_neg notNull]
    split at done
    · cases done
    · rcases bind_ok done with ⟨next, counted, done⟩
      rcases bind_ok done with ⟨⟨base, size, checked⟩, isChecked, done⟩
      cases done
      have one := count_changed valid counted
      have two := kitMemoryCheck_changed one.valid isChecked
      have both : Changed setup (0 - 1 + 0) memory checked := one.then two
      rw [add_zero] at both
      exact both.same rfl rfl

/-- A check answers the start of a block, which is the pointer if nothing is
checked. -/
theorem kitMemoryCheck_leads {ptr base stored : UInt64} {out : SizeOut}
    (done : kitMemoryCheck setup ptr out memory = .ok (base, stored, after)) :
    (setup.checks = true → foreGuard ptr memory.bytes = .ok base) ∧ (setup.checks = false → base = ptr) := by
  unfold kitMemoryCheck at done
  split at done
  · rename_i unchecked
    cases done
    exact ⟨fun checks => absurd checks unchecked, fun _ => rfl⟩
  · rename_i checks
    have isChecked := not_not.mp checks
    refine ⟨fun _ => ?_, fun unchecked => absurd (isChecked.symm.trans unchecked) (by decide)⟩
    rcases bind_ok done with ⟨guard, found, done⟩
    rw [found]
    split at done
    · cases done
    · split at done
      · cases done
      · cases out with
        | null =>
            cases done
            rfl
        | size =>
            cases done
            rfl
        | free =>
            cases done
            rfl

theorem kitMemoryCheck_notNull {ptr base stored : UInt64} {out : SizeOut} (notNull : ptr ≠ 0)
    (leads : setup.checks = true → ∀ base, foreGuard ptr memory.bytes = .ok base → base ≠ 0)
    (done : kitMemoryCheck setup ptr out memory = .ok (base, stored, after)) : base ≠ 0 := by
  have isBase := kitMemoryCheck_leads done
  cases checks : setup.checks with
  | true => exact leads checks base (isBase.1 checks)
  | false => exact isBase.2 checks ▸ notNull

theorem reallocate_changed {ptr size base asked result : UInt64} {answer : Option Grant} {bytes : Nat → UInt8}
    (valid : memory.Valid) (leads : ptr ≠ 0 → setup.checks = true →
      ∀ base, foreGuard ptr memory.bytes = .ok base → base ≠ 0)
    (fits : ptr ≠ 0 → size ≠ 0 → setup.checks = true → ∀ base, foreGuard ptr memory.bytes = .ok base →
      kitMemorySize setup size (ptr - base) ≠ 0)
    (done : reallocate setup ptr size answer bytes memory = .ok (base, asked, result, after)) :
    Changed setup 0 memory after ∧ (base = 0 ↔ ptr = 0) ∧ (ptr ≠ 0 → size = 0 → asked = 0 ∧ result = 0) ∧
      (ptr ≠ 0 → size ≠ 0 → asked ≠ 0) := by
  unfold reallocate at done
  split at done
  · rename_i null
    rcases bind_ok done with ⟨⟨isResult, next⟩, isAllocated, done⟩
    cases done
    exact ⟨memoryAlloc_changed valid isAllocated, ⟨fun _ => null, fun _ => rfl⟩, fun notNull => absurd null notNull,
      fun notNull => absurd null notNull⟩
  · rename_i notNull
    split at done
    · rename_i notZero
      rcases bind_ok done with ⟨⟨guard, stored, next⟩, isChecked, done⟩
      have one := kitMemoryCheck_changed valid isChecked
      have guardSet := kitMemoryCheck_notNull notNull (leads notNull) isChecked
      have isAsked : kitMemorySize setup size (ptr - guard) ≠ 0 := by
        cases checks : setup.checks with
        | true => exact fits notNull notZero checks guard ((kitMemoryCheck_leads isChecked).1 checks)
        | false =>
            unfold kitMemorySize
            rw [if_neg (fun isTrue => absurd (checks.symm.trans isTrue) (by decide))]
            exact notZero
      cases answer with
      | none =>
          cases done
          exact ⟨one.same rfl rfl, ⟨fun zero => absurd zero guardSet, fun null => absurd null notNull⟩,
            fun _ isZero => absurd isZero notZero, fun _ _ => isAsked⟩
      | some grant =>
          cases done
          exact ⟨one.same rfl rfl, ⟨fun zero => absurd zero guardSet, fun null => absurd null notNull⟩,
            fun _ isZero => absurd isZero notZero, fun _ _ => isAsked⟩
    · rename_i isZero
      rcases bind_ok done with ⟨⟨guard, stored, next⟩, isChecked, done⟩
      cases done
      have one := kitMemoryCheck_changed valid isChecked
      have guardSet := kitMemoryCheck_notNull notNull (leads notNull) isChecked
      exact ⟨one.same rfl rfl, ⟨fun zero => absurd zero guardSet, fun null => absurd null notNull⟩,
        fun _ _ => ⟨rfl, rfl⟩,
        fun _ notZero => absurd notZero isZero⟩

/-- `kit_realloc` counts an allocation from `NULL`, and that a block is freed. -/
theorem kitRealloc_changed {ptr size result : UInt64} {answer : Option Grant} {bytes : Nat → UInt8}
    (valid : memory.Valid)
    (leads : ptr ≠ 0 → setup.checks = true → ∀ base, foreGuard ptr memory.bytes = .ok base → base ≠ 0)
    (fits : ptr ≠ 0 → size ≠ 0 → setup.checks = true → ∀ base, foreGuard ptr memory.bytes = .ok base →
      kitMemorySize setup size (ptr - base) ≠ 0)
    (done : kitRealloc setup thread ptr size answer bytes memory = .ok (result, after)) :
    Changed setup (if ptr = 0 then if result = 0 then 0 else 1 else if size = 0 then 0 - 1 else 0) memory after := by
  rw [kitRealloc_eq] at done
  rcases bind_ok done with ⟨⟨base, asked, isResult, next⟩, reallocated, done⟩
  rcases bind_ok done with ⟨middle, failed, done⟩
  rcases bind_ok done with ⟨last, counted, done⟩
  cases done
  rcases reallocate_changed valid leads fits reallocated with ⟨one, isNull, frees, moves⟩
  have two : Changed setup 0 next middle := by
    split at failed
    · split at failed
      · cases failed
      · exact count_changed one.valid failed
    · cases failed
      exact Changed.none one.valid rfl rfl
  have three : Changed setup (if ptr = 0 then if isResult = 0 then 0 else 1 else if size = 0 then 0 - 1
    else 0) middle after := by
    dsimp only at counted
    by_cases null : ptr = 0
    · rw [if_pos null]
      by_cases missing : isResult = 0
      · rw [if_neg (fun both => both.2 missing), if_neg (fun both => both.1 (isNull.mpr null))] at counted
        rw [if_pos missing]
        exact count_changed two.valid counted
      · rw [if_pos ⟨isNull.mpr null, missing⟩] at counted
        rw [if_neg missing]
        exact countMallocIncrement_changed two.valid counted
    · rw [if_neg null]
      rw [if_neg (fun both => null (isNull.mp both.1))] at counted
      by_cases isZero : size = 0
      · rw [if_pos ⟨fun zero => null (isNull.mp zero), frees null isZero⟩] at counted
        rw [if_pos isZero]
        exact count_changed two.valid counted
      · rw [if_neg (fun all => moves null isZero all.2.1)] at counted
        rw [if_neg isZero]
        exact count_changed two.valid counted
  have all := (one.then two).then three
  rwa [add_zero, zero_add] at all

/-- `kit_reduce` counts that a block is freed. -/
theorem kitReduce_changed {ptr size result : UInt64} {answer : Option Grant} {bytes : Nat → UInt8}
    (valid : memory.Valid)
    (leads : ptr ≠ 0 → setup.checks = true → ∀ base, foreGuard ptr memory.bytes = .ok base → base ≠ 0)
    (fits : ptr ≠ 0 → size ≠ 0 → setup.checks = true → ∀ base, foreGuard ptr memory.bytes = .ok base →
      kitMemorySize setup size (ptr - base) ≠ 0)
    (done : kitReduce setup thread ptr size answer bytes memory = .ok (result, after)) :
    Changed setup (if ptr = 0 then 0 else if size = 0 then 0 - 1 else 0) memory after := by
  unfold kitReduce at done
  split at done
  · rename_i null
    rw [if_pos null]
    split at done
    · cases done
      exact Changed.none valid rfl rfl
    · cases done
  · rename_i notNull
    rw [if_neg notNull]
    rcases bind_ok done with ⟨⟨isResult, next⟩, reallocated, done⟩
    have one := kitRealloc_changed valid leads fits reallocated
    rw [if_neg notNull] at one
    dsimp only at done
    split at done
    · cases isCounters : next.counters with
      | none =>
          rw [isCounters] at done
          cases done
          exact one
      | some counters =>
          rw [isCounters] at done
          rcases bind_ok done with ⟨last, counted, done⟩
          cases done
          have two : Changed setup 0 next { next with counters := some last } := by
            rcases one.valid counters isCounters with ⟨sound, few, counts⟩
            have counted := KitCounters.counterAdd_counted sound (counts thread) counted
            refine ⟨?_, ?_, fun unused => absurd (isCounters.symm.trans unused) (Option.some_ne_none counters)⟩
            · rintro _ ⟨⟩
              refine ⟨counted.sound, ?_, fun any => counted.counts (counts any)⟩
              rw [counted.slots]
              exact few
            · have same : ∀ kind, kind ≠ .realloc →
                  ({ next with counters := some last } : Memory).total setup kind = next.total setup kind := by
                intro kind differs
                unfold Memory.total
                rw [isCounters]
                dsimp only
                have other : setup.ids .realloc ≠ setup.ids kind := fun equal => differs (setup.distinct equal).symm
                rw [counted.tally _ (setup.registered kind).2, KitCounters.addedTo_cons, if_neg other]
                exact add_zero _
              unfold Memory.balance
              rw [same .calloc (by decide), same .malloc (by decide), same .free (by decide), add_zero]
          have both := one.then two
          rwa [add_zero] at both
    · cases done
      exact one

/-! ## Counters -/

theorem callocBlocks_changed {answers : List (Option Grant)} (valid : memory.Valid)
    (done : callocBlocks setup thread answers memory = .ok after) :
    Changed setup (UInt64.ofNat answers.length) memory after := by
  induction answers generalizing memory with
  | nil =>
      cases done
      exact Changed.none valid rfl rfl
  | cons answer answers ih =>
      unfold callocBlocks at done
      rcases bind_ok done with ⟨⟨result, next⟩, given, done⟩
      dsimp only at done
      split at done
      · cases done
      · have one := kitCalloc_changed valid given
        have both := one.then (ih one.valid done)
        rw [List.length_cons, Nat.add_comm, UInt64.ofNat_add]
        exact both

theorem addCounts_counted {counts : Kind → UInt64} {kinds : List Kind} {state next : Counters}
    (sound : KitCounters.Sound state)
    (counting : KitCounters.Counts state thread) (done : addCounts setup thread counts kinds state = .ok next) :
    KitCounters.Counted setup.counters (kinds.map fun kind => (setup.ids kind, counts kind)) state next := by
  induction kinds generalizing state with
  | nil =>
      cases done
      exact ⟨rfl, rfl, rfl, sound, fun other _ => (add_zero _).symm⟩
  | cons kind kinds ih =>
      unfold addCounts at done
      rcases bind_ok done with ⟨middle, added, done⟩
      have one := KitCounters.counterAdd_counted sound counting added
      exact one.trans (ih one.sound (one.counts counting) done)

theorem addedTo_kinds (counts : Kind → UInt64) (kind : Kind) :
    KitCounters.addedTo (setup.ids kind)
      ([.bytes, .calloc, .fail, .free, .malloc, .realloc].map fun kind => (setup.ids kind, counts kind)) =
        counts kind := by
  have none : KitCounters.addedTo (setup.ids kind) [] = 0 := rfl
  simp only [List.map, KitCounters.addedTo_cons, setup.distinct.eq_iff, none]
  cases kind <;> simp

/-- The counters start with what was counted, and the blocks that they need. -/
theorem kitCountersInitialize_changed {first second : Option Grant} {others : List (Option Grant)}
    (valid : memory.Valid) (few : others.length + 1 < 2 ^ 31)
    (done : kitCountersInitialize setup thread first second others memory = .ok after) :
    after.Valid ∧ after.balance setup = memory.balance setup + UInt64.ofNat (others.length + 2) := by
  unfold kitCountersInitialize at done
  split at done
  · cases done
  · rename_i before
    have unused : memory.counters = none := Option.not_isSome_iff_eq_none.mp before
    rcases bind_ok done with ⟨⟨states, next⟩, isFirst, done⟩
    dsimp only at done
    split at done
    · cases done
    · rcases bind_ok done with ⟨⟨blocks, middle⟩, isSecond, done⟩
      dsimp only at done
      split at done
      · cases done
      · rcases bind_ok done with ⟨last, isOthers, done⟩
        rcases bind_ok done with ⟨start, started, done⟩
        rcases bind_ok done with ⟨counters, added, done⟩
        cases done
        have one := kitMalloc_changed valid isFirst
        have two := kitMalloc_changed one.valid isSecond
        have three := callocBlocks_changed two.valid isOthers
        have all := (one.then two).then three
        rcases KitCounters.initialize_sound started with ⟨length, sound, empty⟩
        have counting := (KitCounters.initialize_owned started).counts
        have counted := addCounts_counted sound (counting thread) added
        have lastUnused := all.unused unused
        refine ⟨?_, ?_⟩
        · rintro _ ⟨⟩
          refine ⟨counted.sound, ?_, fun any => counted.counts (counting any)⟩
          rw [counted.slots, length]
          exact few
        · have same : ∀ kind, ({ last with counters := some counters } : Memory).total setup kind =
            last.total setup kind := by
            intro kind
            unfold Memory.total
            rw [lastUnused]
            dsimp only
            rw [counted.tally _ (setup.registered kind).2, empty, zero_add]
            exact addedTo_kinds last.counts kind
          have isBalance : ({ last with counters := some counters } : Memory).balance setup = last.balance setup := by
            unfold Memory.balance
            rw [same, same, same]
          rw [isBalance, all.balance, UInt64.ofNat_add, add_comm (1 + 1)]
          rfl

/-! ## One call -/

variable {held : List (Option UInt64)} {result : UInt64}

theorem gained_failed (result : UInt64) (held : List (Option UInt64)) :
    UInt64.ofNat ((gained result held).length + if result = 0 then 1 else 0) = UInt64.ofNat held.length + 1 := by
  unfold gained
  by_cases null : result = 0
  · rw [if_pos null, if_pos null, UInt64.ofNat_add]
    rfl
  · rw [if_neg null, if_neg null, List.length_cons, add_zero, UInt64.ofNat_add]
    rfl

theorem gained_length (result : UInt64) (held : List (Option UInt64)) (notNull : result ≠ 0) :
    UInt64.ofNat (gained result held).length = UInt64.ofNat held.length + 1 := by
  rw [gained, if_neg notNull, List.length_cons, UInt64.ofNat_add]
  rfl

theorem erase_length {ptr : Option UInt64} (inside : ptr ∈ held) :
    UInt64.ofNat (held.erase ptr).length = UInt64.ofNat held.length + (0 - 1) := by
  rw [← List.length_erase_add_one inside, UInt64.ofNat_add]
  have one : UInt64.ofNat 1 = 1 := rfl
  rw [one]
  grind

/-- A call counts what it allocates and frees, and allocations that failed. -/
theorem held_call {call : Call} {failed : Nat} (valid : memory.Valid)
    (counted : memory.balance setup = UInt64.ofNat (held.length + failed))
    (sensible : call.Sensible setup held memory.bytes) (fits : call.Fits setup memory.bytes)
    (done : call.run setup thread memory = .ok (result, after)) :
    after.Valid ∧ after.balance setup = UInt64.ofNat ((call.held result held).length +
      (call.failed result + failed)) := by
  have holds : ∀ {change : UInt64}, Changed setup change memory after →
      UInt64.ofNat ((call.held result held).length + call.failed result) = UInt64.ofNat held.length + change →
      after.Valid ∧ after.balance setup = UInt64.ofNat ((call.held result held).length +
        (call.failed result + failed)) := by
    intro change isChanged isChange
    refine ⟨isChanged.valid, ?_⟩
    rw [isChanged.balance, counted, UInt64.ofNat_add, ← Nat.add_assoc, UInt64.ofNat_add _ failed, isChange]
    exact add_right_comm _ _ _
  have keeps : ∀ {change : UInt64}, Changed setup change memory after → call.failed result = 0 →
      UInt64.ofNat (call.held result held).length = UInt64.ofNat held.length + change →
      after.Valid ∧ after.balance setup = UInt64.ofNat ((call.held result held).length +
        (call.failed result + failed)) := by
    intro change isChanged isNone isChange
    refine holds isChanged ?_
    rwa [isNone, add_zero]
  cases call with
  | malloc size answer => exact holds (kitMalloc_changed valid done) (gained_failed result held)
  | memalign alignment size answer => exact holds (kitMemalign_changed valid done) (gained_failed result held)
  | calloc num size answer => exact holds (kitCalloc_changed valid done) (gained_failed result held)
  | strdup txt answer => exact holds (kitStrdup_changed valid done) (gained_failed result held)
  | realloc ptr size answer bytes =>
      refine keeps (kitRealloc_changed valid (fun notNull => (sensible notNull).2) fits done) rfl ?_
      rw [Call.held]
      by_cases null : ptr = 0
      · rw [if_pos null, if_pos null]
        by_cases missing : result = 0
        · rw [if_pos missing, gained, if_pos missing, add_zero]
        · rw [if_neg missing, gained_length result held missing]
      · have inside := (sensible null).1
        rw [if_neg null, if_neg null]
        by_cases isZero : size = 0
        · rw [if_pos isZero, if_pos isZero, erase_length inside]
        · rw [if_neg isZero, if_neg isZero, add_zero]
          split
          · rfl
          · rw [List.length_cons, List.length_erase_add_one inside]
  | reduce ptr size answer bytes =>
      refine keeps (kitReduce_changed valid (fun notNull => (sensible notNull).2) fits done) rfl ?_
      rw [Call.held]
      by_cases null : ptr = 0
      · rw [if_pos null, if_pos null, add_zero]
      · have inside := (sensible null).1
        rw [if_neg null, if_neg null]
        by_cases isZero : size = 0
        · rw [if_pos isZero, if_pos isZero, erase_length inside]
        · rw [if_neg isZero, if_neg isZero, add_zero, List.length_cons, List.length_erase_add_one inside]
  | free ptr bytes =>
      rcases bind_ok done with ⟨last, freed, done⟩
      cases done
      refine keeps (kitFree_changed valid freed) rfl ?_
      rw [Call.held]
      by_cases null : ptr = 0
      · rw [if_pos null, if_pos null, add_zero]
      · rw [if_neg null, if_neg null, erase_length (sensible null)]
  | countersInitialize first second others =>
      rcases bind_ok done with ⟨last, initialized, done⟩
      cases done
      rcases kitCountersInitialize_changed valid sensible initialized with ⟨isValid, balance⟩
      refine ⟨isValid, ?_⟩
      rw [balance, counted, ← UInt64.ofNat_add, Call.held, List.length_append, List.length_replicate]
      refine congrArg UInt64.ofNat ?_
      change _ = _ + (0 + failed)
      omega
  | write address data =>
      cases done
      exact keeps (@Changed.none setup memory { memory with bytes := Bytes.write memory.bytes address.toNat data }
        valid rfl rfl)
        rfl (add_zero _).symm

end

/-! ## Runs -/

/-- In every run of a program `kit_memory_allocations` is the number of blocks
that are outstanding and of allocations that failed, those of `kit_realloc` and
`kit_reduce` apart. -/
theorem allocations_outstanding {setup : Setup} {bytes : Nat → UInt8}
    {history : History (Nat × Call) UInt64} {memory : Memory}
    (run : Run (step setup) (fun history memory call =>
      call.2.Sensible setup (outstanding history) memory.bytes ∧ call.2.Fits setup memory.bytes)
      { Memory.start with bytes := bytes } history memory) :
    kitMemoryAllocations setup memory = UInt64.ofNat ((outstanding history).length + failures history) := by
  have all := run.invariant (fun history memory =>
    memory.Valid ∧ memory.balance setup = UInt64.ofNat ((outstanding history).length + failures history))
    ⟨?_, (by decide : (0 + 0 - 0 : UInt64) = 0)⟩ ?_
  · rw [kitMemoryAllocations_balance all.1, all.2]
  · intro counters used
    cases used
  · rintro history memory ⟨thread, call⟩ result next ⟨valid, counted⟩ ⟨sensible, fits⟩ stepped
    exact held_call valid counted sensible fits (step_ok stepped)

/-- A block is allocated, one is not and one more is reallocated in vain. -/
theorem allocations_outstanding_one : ∃ memory, kitMemoryAllocations (Setup.simple true false) memory = 2 :=
  ⟨_, @allocations_outstanding (Setup.simple true false) (fun _ => 0)
    [((0, .realloc 0 8 none fun _ => 0), 0), ((0, .malloc 8 none), 0), ((0, .malloc 8 (some lowest)), 32)] _
    (.step (.step (.step .start ⟨trivial, trivial⟩ rfl) ⟨trivial, trivial⟩ rfl)
      ⟨fun notNull => absurd rfl notNull, fun notNull => absurd rfl notNull⟩ rfl)⟩

/-- A block that is not allocated is counted. -/
theorem failed_allocation_counted : ∃ history memory, Run (step (Setup.simple false false)) (fun history memory call =>
      call.2.Sensible (Setup.simple false false) (outstanding history) memory.bytes) Memory.start history memory ∧
    outstanding history = [] ∧ kitMemoryAllocations (Setup.simple false false) memory = 1 :=
  ⟨[((0, .malloc 8 none), 0)], _, .step .start trivial rfl, rfl, rfl⟩

end KitAlloc
end LibKit
