import LibKit.KitAlloc.Sizes
import LibKit.Support.Runs

namespace LibKit
namespace KitAlloc

open KitCounters (Counters Stop)

/-!
# What `kit_memory_check` finds in the blocks of a program

A block lies at an offset from the base that `jemalloc` granted, which is its
alignment if that is more than a guard.  `kit_realloc` keeps the offset, but does
not ask `jemalloc` to align the new base.  Blocks are sound as long as it is
aligned nevertheless, and no size wraps.
-/

/-! ## Blocks -/

/-- A block that a program has: the pointer to it, the size that was asked for
last, and the alignment that was asked for first. -/
structure Block where
  ptr : UInt64
  size : Nat
  alignment : Nat

/-- The distance from the base of a block to its pointer. -/
def Block.offset (block : Block) : Nat := max 16 block.alignment

/-- What `jemalloc` granted for the block. -/
def Block.base (block : Block) : Nat := block.ptr.toNat - block.offset

def Block.total (block : Block) : Nat := block.offset + block.size + 8

/-- A place between the base of the block and its pointer, or behind its last
byte. -/
def Block.Guards (block : Block) (place : Nat) : Prop :=
  (block.base ≤ place ∧ place < block.base + block.offset) ∨
    (block.base + block.offset + block.size ≤ place ∧ place < block.base + block.total)

def others (ptr : UInt64) (blocks : List Block) : List Block := blocks.filter fun block => decide (block.ptr ≠ ptr)

/-- A block that was allocated, unless that failed. -/
def allocated (result : UInt64) (size alignment : Nat) (blocks : List Block) : List Block :=
  if result = 0 then blocks else ⟨result, size, alignment⟩ :: blocks

/-- The blocks after a call that returned a result. -/
def Call.blocks (result : UInt64) (blocks : List Block) : Call → List Block
  | .malloc size _ => allocated result size.toNat 1 blocks
  | .memalign alignment size _ => allocated result size.toNat alignment.toNat blocks
  | .calloc num size _ => allocated result (num.toNat * size.toNat) 1 blocks
  | .realloc ptr size _ _ =>
      if ptr = 0 then allocated result size.toNat 1 blocks
      else if size = 0 then others ptr blocks
      else if result = 0 then blocks
      else blocks.map fun block => if block.ptr = ptr then ⟨result, size.toNat, block.alignment⟩ else block
  | .free ptr _ => others ptr blocks
  | _ => blocks

/-- The blocks that are live after the calls made so far. -/
def live : History (Nat × Call) UInt64 → List Block
  | [] => []
  | ((_, call), result) :: history => call.blocks result (live history)

/-! ## What `jemalloc` and a program promise -/

/-- `jemalloc` leaves blocks alone. -/
def Leaves (blocks : List Block) (bytes after : Nat → UInt8) : Prop :=
  ∀ block ∈ blocks, ∀ place, block.base ≤ place → place < block.base + block.total → after place = bytes place

/-- What `jemalloc` grants: as many bytes as it was asked for, which are aligned,
and apart from the blocks, which it leaves alone. -/
structure Placed (blocks : List Block) (bytes : Nat → UInt8) (asked alignment : Nat) (grant : Grant) : Prop where
  notNull : grant.address ≠ 0
  fits : grant.address.toNat + asked ≤ 2 ^ 64
  aligned : alignment ∣ grant.address.toNat
  apart : ∀ block ∈ blocks, grant.address.toNat + asked ≤ block.base ∨ block.base + block.total ≤ grant.address.toNat
  leaves : Leaves blocks bytes grant.bytes

/-- A program frees and reallocates its blocks, and writes within the sizes it
asked for.  Without a flag for an alignment of more than one, `jemalloc` aligns
by 16; `rallocx` keeps the contents up to the smaller size. -/
def Call.Allowed (setup : Setup) (blocks : List Block) (bytes : Nat → UInt8) : Call → Prop
  | .malloc size answer =>
    ∀ grant, answer = some grant → Placed blocks bytes (kitMemorySize setup size 0).toNat 16 grant
  | .memalign alignment size answer => ∀ grant, answer = some grant →
      Placed blocks bytes (kitMemorySize setup size alignment).toNat (if alignment = 1 then 16
        else alignment.toNat) grant
  | .calloc num size answer => ∀ grant, answer = some grant →
      Placed blocks bytes (kitMemorySize setup (num * size) 0).toNat 16 grant
  | .realloc ptr size answer after =>
      (ptr = 0 → ∀ grant, answer = some grant → Placed blocks bytes (kitMemorySize setup size 0).toNat 16 grant) ∧
      (ptr ≠ 0 → ∃ block ∈ blocks, block.ptr = ptr ∧
        (size = 0 → Leaves (others ptr blocks) bytes after) ∧
        (size ≠ 0 → ∀ grant, answer = some grant →
          Placed (others ptr blocks) bytes (kitMemorySize setup size (UInt64.ofNat block.offset)).toNat 16 grant ∧
          ∀ index, index < block.total → index < (kitMemorySize setup size (UInt64.ofNat block.offset)).toNat →
            grant.bytes (grant.address.toNat + index) = bytes (block.base + index)))
  | .free ptr after => ptr ≠ 0 → (∃ block ∈ blocks, block.ptr = ptr) ∧ Leaves (others ptr blocks) bytes after
  | .write address data => ∃ block ∈ blocks, block.ptr.toNat ≤ address.toNat ∧
      address.toNat + data.length ≤ block.ptr.toNat + block.size
  | _ => False

/-- If memory is granted, its size does not wrap, and a block that is aligned by
more than a guard is aligned after it was reallocated. -/
def Call.Meets (blocks : List Block) : Call → Prop
  | .malloc size answer => answer ≠ none → 16 + size.toNat + 8 < 2 ^ 64
  | .memalign alignment size answer => answer ≠ none → max 16 alignment.toNat + size.toNat + 8 < 2 ^ 64
  | .calloc num size answer => answer ≠ none → ¬ Detected num size → 16 + num.toNat * size.toNat + 8 < 2 ^ 64
  | .realloc ptr size answer _ => ∀ grant, answer = some grant →
      (ptr = 0 → 16 + size.toNat + 8 < 2 ^ 64) ∧
      (ptr ≠ 0 → size ≠ 0 → ∀ block ∈ blocks, block.ptr = ptr →
        block.offset + size.toNat + 8 < 2 ^ 64 ∧ (16 < block.alignment → block.alignment ∣ grant.address.toNat))
  | _ => True

/-! ## Guards -/

section

variable {setup : Setup} {bytes : Nat → UInt8}

theorem readWord_setWord {address value : UInt64} :
    Bytes.readWord (setWord bytes address value) address.toNat 8 = value.toNat :=
  Bytes.readWord_write (UInt64.toNat_lt value)

theorem readWord_setWord_apart {address value : UInt64} {place : Nat}
    (apart : place + 8 ≤ address.toNat ∨ address.toNat + 8 ≤ place) :
    Bytes.readWord (setWord bytes address value) place 8 = Bytes.readWord bytes place 8 := by
  refine Bytes.readWord_congr fun index inside => setWord_outside ?_
  omega

theorem readWord_copy_apart {source : Nat → UInt8} {start place length : Nat} {origin : Nat}
    (apart : place + 8 ≤ start ∨ start + length ≤ place) :
    Bytes.readWord (Bytes.write bytes start (Bytes.read source origin length)) place 8 =
      Bytes.readWord bytes place 8 := by
  refine Bytes.readWord_congr fun index inside => Bytes.write_outside ?_
  rw [Bytes.read, List.length_map, List.length_range]
  omega

/-- The guards of a block at a base: the size and the base, the base at the end,
and, in front of a pointer that is farther than a guard from it, the base. -/
structure GuardedAt (bytes : Nat → UInt8) (base offset total : Nat) : Prop where
  size : Bytes.readWord bytes base 8 = total
  fore : Bytes.readWord bytes (base + 8) 8 = base
  rear : Bytes.readWord bytes (base + total - 8) 8 = base
  near : Bytes.readWord bytes (base + offset - 8) 8 = base

/-- Guards are kept if the bytes around what was requested are. -/
theorem GuardedAt.congr {base offset size : Nat} {after : Nat → UInt8}
    (guarded : GuardedAt bytes base offset (offset + size + 8))
    (far : 16 ≤ offset) (same : ∀ place, ((base ≤ place ∧ place < base + offset) ∨
      (base + offset + size ≤ place ∧ place < base + (offset + size + 8))) → after place = bytes place) :
    GuardedAt after base offset (offset + size + 8) := by
  have kept : ∀ start, (base ≤ start ∧ start + 8 ≤ base + offset) ∨ start = base + offset + size →
      Bytes.readWord after start 8 = Bytes.readWord bytes start 8 := by
    intro start lies
    refine Bytes.readWord_congr fun index inside => same _ ?_
    omega
  refine ⟨?_, ?_, ?_, ?_⟩
  · rw [kept base (by omega), guarded.size]
  · rw [kept (base + 8) (by omega), guarded.fore]
  · rw [kept _ (by omega), guarded.rear]
  · rw [kept _ (by omega), guarded.near]

theorem guardInitialize_guards {address asked alignment result : UInt64} {after : Nat → UInt8} {size : Nat}
    (checks : setup.checks = true) (notNull : address ≠ 0) (power : alignment.toNat ≤ 16 ∨ 32 ≤ alignment.toNat)
    (isAsked : asked.toNat = max 16 alignment.toNat + size + 8) (fits : address.toNat + asked.toNat ≤ 2 ^ 64)
    (done : guardInitialize setup address asked alignment bytes = (result, after)) :
    result.toNat = address.toNat + max 16 alignment.toNat ∧
      GuardedAt after address.toNat (max 16 alignment.toNat) asked.toNat := by
  have eight : (8 : UInt64).toNat = 8 := rfl
  have sixteen : (16 : UInt64).toNat = 16 := rfl
  have second : (address + 8).toNat = address.toNat + 8 := by
    rw [UInt64.toNat_add]
    omega
  have last : (address + asked - 8).toNat = address.toNat + asked.toNat - 8 := by
    rw [UInt64.toNat_sub, UInt64.toNat_add]
    omega
  have words : ∀ place, place = address.toNat ∨ place = address.toNat + 8 ∨ place = address.toNat + asked.toNat - 8 →
      Bytes.readWord (setWord (setWord (setWord bytes address asked) (address + 8) address)
        (address + asked - 8) address) place 8 =
        if place = address.toNat then asked.toNat else address.toNat := by
    rintro place (rfl | rfl | rfl)
    · rw [if_pos rfl, readWord_setWord_apart (by omega), readWord_setWord_apart (by omega), readWord_setWord]
    · rw [if_neg (by omega), readWord_setWord_apart (by omega), ← second, readWord_setWord]
    · rw [if_neg (by omega), ← last, readWord_setWord]
  unfold guardInitialize at done
  rw [if_pos ⟨notNull, checks⟩] at done
  split at done
  · rename_i far
    have isFar := UInt64.lt_iff_toNat_lt.mp far
    have isMax : max 16 alignment.toNat = alignment.toNat := by omega
    have front : (address + alignment - 16).toNat = address.toNat + alignment.toNat - 16 := by
      rw [UInt64.toNat_sub, UInt64.toNat_add]
      omega
    cases done
    rw [front, isMax]
    refine ⟨by rw [UInt64.toNat_add]; omega, ?_, ?_, ?_, ?_⟩
    · rw [readWord_copy_apart (by omega), words _ (.inl rfl), if_pos rfl]
    · rw [readWord_copy_apart (by omega), words _ (.inr (.inl rfl)), if_neg (by omega)]
    · rw [readWord_copy_apart (by omega), words _ (.inr (.inr rfl)), if_neg (by omega)]
    · have copied := words _ (.inr (.inl rfl))
      rw [if_neg (by omega)] at copied
      refine (Bytes.readWord_congr fun index inside => ?_).trans copied
      have start : address.toNat + alignment.toNat - 8 + index =
        address.toNat + alignment.toNat - 16 + (8 + index) := by omega
      rw [start, Bytes.write_read (by omega), Nat.add_assoc]
  · rename_i near
    have isNear := mt UInt64.lt_iff_toNat_lt.mpr near
    have isMax : max 16 alignment.toNat = 16 := by omega
    cases done
    rw [isMax]
    refine ⟨by rw [UInt64.toNat_add]; omega, ?_, ?_, ?_, ?_⟩
    · rw [words _ (.inl rfl), if_pos rfl]
    · rw [words _ (.inr (.inl rfl)), if_neg (by omega)]
    · rw [words _ (.inr (.inr rfl)), if_neg (by omega)]
    · have same : address.toNat + 16 - 8 = address.toNat + 8 := by omega
      rw [same, words _ (.inr (.inl rfl)), if_neg (by omega)]

/-! ## Sound blocks -/

/-- A block whose pointer is aligned and whose guards are intact.  An alignment by
more than a guard is one by a multiple of two. -/
structure Block.Sound (block : Block) (bytes : Nat → UInt8) : Prop where
  power : block.alignment ∣ 16 ∨ 32 ∣ block.alignment
  aligned : block.alignment ∣ block.ptr.toNat
  inside : block.offset < block.ptr.toNat
  fits : block.base + block.total ≤ 2 ^ 64
  guards : GuardedAt bytes block.base block.offset block.total

variable {block : Block} {memory : Memory}

theorem Block.offset_ge (block : Block) : 16 ≤ block.offset := le_max_left _ _

theorem Block.Sound.ptr_eq (sound : block.Sound bytes) : block.ptr.toNat = block.base + block.offset :=
  (Nat.sub_add_cancel (Nat.le_of_lt sound.inside)).symm

theorem Block.Sound.base_pos (sound : block.Sound bytes) : 0 < block.base := Nat.sub_pos_of_lt sound.inside

theorem Block.Sound.base_toNat (sound : block.Sound bytes) : (UInt64.ofNat block.base).toNat = block.base := by
  apply UInt64.toNat_ofNat_of_lt'
  have isSize : UInt64.size = 2 ^ 64 := rfl
  have fits := sound.fits
  rw [Block.total] at fits
  omega

theorem Block.Sound.total_toNat (sound : block.Sound bytes) : (UInt64.ofNat block.total).toNat = block.total := by
  apply UInt64.toNat_ofNat_of_lt'
  have isSize : UInt64.size = 2 ^ 64 := rfl
  have fits := sound.fits
  have positive := sound.base_pos
  omega

theorem Block.Sound.offset_toNat (sound : block.Sound bytes) : (UInt64.ofNat block.offset).toNat = block.offset :=
  UInt64.toNat_ofNat_of_lt' (sound.inside.trans (UInt64.toNat_lt _))

/-- The base of a block is a multiple of 32 if its pointer is farther than a guard
from it. -/
theorem Block.Sound.base_dvd (sound : block.Sound bytes) (far : block.offset ≠ 16) : 32 ∣ block.base := by
  rcases sound.power with near | multiple
  · exact absurd (max_eq_left (Nat.le_of_dvd (by decide) near)) far
  · have isOffset : block.offset = block.alignment := by
      rw [Block.offset] at far ⊢
      omega
    rw [Block.base, isOffset]
    exact Nat.dvd_sub (multiple.trans sound.aligned) multiple

/-- The pointer in front of that of a sound block leads to its base. -/
theorem Block.Sound.foreGuard (sound : block.Sound bytes) :
    KitAlloc.foreGuard block.ptr bytes = .ok (UInt64.ofNat block.base) := by
  have eight : (8 : UInt64).toNat = 8 := rfl
  have sixteen : (16 : UInt64).toNat = 16 := rfl
  have isPtr := sound.ptr_eq
  have below := UInt64.toNat_lt block.ptr
  have large := block.offset_ge
  have guard : (block.ptr - 16).toNat = block.ptr.toNat - 16 := by
    rw [UInt64.toNat_sub]
    omega
  have place : (block.ptr - 16 + 8).toNat = block.base + block.offset - 8 := by
    rw [UInt64.toNat_add, guard]
    omega
  have stamp : word bytes (block.ptr - 16 + 8) = UInt64.ofNat block.base := by
    rw [word, place, sound.guards.near]
  unfold KitAlloc.foreGuard
  dsimp only
  rw [stamp]
  by_cases near : block.offset = 16
  · have isGuard : UInt64.ofNat block.base = block.ptr - 16 := by
      apply UInt64.toNat_inj.mp
      rw [sound.base_toNat, guard]
      omega
    rw [if_pos isGuard, isGuard]
  · have differs : UInt64.ofNat block.base ≠ block.ptr - 16 := by
      intro same
      have same := congrArg UInt64.toNat same
      rw [sound.base_toNat, guard] at same
      omega
    have multiple : UInt64.ofNat block.base &&& 31 = 0 := by
      apply UInt64.toNat_inj.mp
      rw [UInt64.toNat_and, sound.base_toNat]
      have mask := Nat.and_two_pow_sub_one_eq_mod block.base 5
      have mod := Nat.mod_eq_zero_of_dvd (sound.base_dvd near)
      exact mask.trans mod
    have less : UInt64.ofNat block.base < block.ptr - 16 := by
      rw [UInt64.lt_iff_toNat_lt, sound.base_toNat, guard]
      omega
    rw [if_neg differs, if_neg (not_not.mpr multiple), if_neg (not_not.mpr less)]

theorem Block.Sound.check (sound : block.Sound memory.bytes) (checks : setup.checks = true) (out : SizeOut) :
    kitMemoryCheck setup block.ptr out memory = .ok (UInt64.ofNat block.base,
      if out = .size then UInt64.ofNat block.size else 0,
      if out = .free then { memory with bytes := setWord memory.bytes (UInt64.ofNat block.base + 8) (0 - 1) }
        else memory) := by
  have eight : (8 : UInt64).toNat = 8 := rfl
  have isBase := sound.base_toNat
  have isTotal := sound.total_toNat
  have isPtr := sound.ptr_eq
  have below := UInt64.toNat_lt block.ptr
  have fits := sound.fits
  have positive := sound.base_pos
  have large := block.offset_ge
  have total : block.total = block.offset + block.size + 8 := rfl
  have second : (UInt64.ofNat block.base + 8).toNat = block.base + 8 := by
    rw [UInt64.toNat_add, isBase]
    omega
  have stored : word memory.bytes (UInt64.ofNat block.base) = UInt64.ofNat block.total := by
    rw [word, isBase, sound.guards.size]
  have fore : word memory.bytes (UInt64.ofNat block.base + 8) = UInt64.ofNat block.base := by
    rw [word, second, sound.guards.fore]
  have last : (UInt64.ofNat block.base + UInt64.ofNat block.total - 8).toNat = block.base + block.total - 8 := by
    rw [UInt64.toNat_sub, UInt64.toNat_add, isBase, isTotal]
    omega
  have rear : word memory.bytes (UInt64.ofNat block.base + UInt64.ofNat block.total - 8) = UInt64.ofNat block.base := by
    rw [word, last, sound.guards.rear]
  have size : UInt64.ofNat block.total - (block.ptr - UInt64.ofNat block.base) - 8 = UInt64.ofNat block.size := by
    apply UInt64.toNat_inj.mp
    rw [UInt64.toNat_sub, UInt64.toNat_sub, UInt64.toNat_sub, isBase, isTotal, UInt64.toNat_ofNat']
    omega
  unfold kitMemoryCheck
  rw [if_neg (not_not.mpr checks), sound.foreGuard, ok_bind, if_neg (not_not.mpr fore), stored,
    if_neg (not_not.mpr rear)]
  cases out with
  | null => rfl
  | size =>
      dsimp only
      rw [size]
      rfl
  | free => rfl

theorem Block.Sound.congr {after : Nat → UInt8} (sound : block.Sound bytes)
    (same : ∀ place, block.Guards place → after place = bytes place) : block.Sound after :=
  ⟨sound.power, sound.aligned, sound.inside, sound.fits, sound.guards.congr block.offset_ge same⟩

/-! ## Blocks that are apart -/

/-- One block ends where the other starts, or before. -/
def Block.Separate (first second : Block) : Prop :=
  first.base + first.total ≤ second.base ∨ second.base + second.total ≤ first.base

structure Keeps (blocks : List Block) (bytes : Nat → UInt8) : Prop where
  sound : ∀ block ∈ blocks, block.Sound bytes
  apart : ∀ first ∈ blocks, ∀ second ∈ blocks, first = second ∨ first.Separate second

variable {blocks : List Block}

theorem Block.Guards.inside {place : Nat} (guards : block.Guards place) :
    block.base ≤ place ∧ place < block.base + block.total := by
  rw [Block.Guards, Block.total] at *
  omega

/-- Guards are apart from the places of another block. -/
theorem Block.Separate.not_guards {other : Block} (separate : block.Separate other) {place : Nat}
    (above : other.base ≤ place)
    (below : place < other.base + other.total) : ¬ block.Guards place := by
  intro guards
  have inside := guards.inside
  rw [Block.Separate] at separate
  omega

theorem Keeps.subset {fewer : List Block} (keeps : Keeps blocks bytes) (subset : ∀ block ∈ fewer, block ∈ blocks) :
    Keeps fewer bytes :=
  ⟨fun block inside => keeps.sound block (subset block inside),
    fun first isFirst second isSecond => keeps.apart first (subset first isFirst) second (subset second isSecond)⟩

theorem others_subset (ptr : UInt64) : ∀ block ∈ others ptr blocks, block ∈ blocks :=
  fun _ inside => (List.mem_filter.mp inside).1

theorem Keeps.congr {after : Nat → UInt8} (keeps : Keeps blocks bytes)
    (same : ∀ block ∈ blocks, ∀ place, block.Guards place → after place = bytes place) : Keeps blocks after :=
  ⟨fun block inside => (keeps.sound block inside).congr (same block inside), keeps.apart⟩

theorem Keeps.leaves {after : Nat → UInt8} (keeps : Keeps blocks bytes) (leaves : Leaves blocks bytes after) :
    Keeps blocks after :=
  keeps.congr fun block inside place guards => leaves block inside place guards.inside.1 guards.inside.2

theorem Keeps.unique {first second : Block} (keeps : Keeps blocks bytes) (isFirst : first ∈ blocks)
    (isSecond : second ∈ blocks)
    (same : first.ptr = second.ptr) : first = second := by
  rcases keeps.apart first isFirst second isSecond with equal | separate
  · exact equal
  · have firstPtr := (keeps.sound first isFirst).ptr_eq
    have secondPtr := (keeps.sound second isSecond).ptr_eq
    rw [same] at firstPtr
    rw [Block.Separate, Block.total, Block.total] at separate
    omega

/-! ## A block that is granted -/

/-- A block whose guards were written in what was granted. -/
structure Block.Initialized (block : Block) (grant : Grant) (after : Nat → UInt8) : Prop where
  notNull : block.ptr ≠ 0
  base : block.base = grant.address.toNat
  sound : block.Sound after
  same : ∀ place, ¬ block.Guards place → after place = grant.bytes place

theorem guardInitialize_sound {size result offset asked : UInt64} {alignment : Nat} {grant : Grant}
    {after : Nat → UInt8}
    (checks : setup.checks = true) (notNull : grant.address ≠ 0) (isAsked : kitMemorySize setup size offset = asked)
    (small : max 16 offset.toNat + size.toNat + 8 < 2 ^ 64) (fits : grant.address.toNat + asked.toNat ≤ 2 ^ 64)
    (isOffset : max 16 alignment = max 16 offset.toNat) (power : alignment ∣ 16 ∨ 32 ∣ alignment)
    (aligned : alignment ∣ grant.address.toNat)
    (done : guardInitialize setup grant.address asked offset grant.bytes = (result, after)) :
    Block.Initialized ⟨result, size.toNat, alignment⟩ grant after := by
  have total : asked.toNat = max 16 offset.toNat + size.toNat + 8 := by
    rw [← isAsked, kitMemorySize_toNat checks, Nat.mod_eq_of_lt small]
  have near : alignment ∣ 16 → alignment ≤ 16 := Nat.le_of_dvd (by decide)
  have farther : 32 ∣ alignment → alignment = 0 ∨ 32 ≤ alignment := by omega
  have isPower : offset.toNat ≤ 16 ∨ 32 ≤ offset.toNat := by
    rcases power with divides | multiple
    · have := near divides
      omega
    · have := farther multiple
      omega
  rcases guardInitialize_guards checks notNull isPower total fits done with ⟨isResult, guards⟩
  have guarded := guardInitialize_guarded checks notNull isPower small (isAsked ▸ done)
  rw [isAsked] at guarded
  have positive : 0 < grant.address.toNat := Nat.pos_of_ne_zero fun zero => notNull (UInt64.toNat_inj.mp zero)
  have base : (Block.mk result size.toNat alignment).base = grant.address.toNat := by
    rw [Block.base, Block.offset]
    dsimp only
    rw [isResult, isOffset, Nat.add_sub_cancel]
  have isTotal : (Block.mk result size.toNat alignment).total = asked.toNat := by
    rw [Block.total, Block.offset]
    dsimp only
    rw [isOffset, total]
  have divides : alignment ∣ max 16 alignment := by
    rcases power with divides | multiple
    · rw [max_eq_left (near divides)]
      exact divides
    · rcases farther multiple with rfl | large
      · cases Nat.eq_zero_of_zero_dvd aligned ▸ positive
      · rw [max_eq_right (by omega)]
  refine ⟨fun null => ?_, base, ⟨?_, ?_, ?_, ?_, ?_⟩, fun place outside => ?_⟩
  · have isNull := congrArg UInt64.toNat null
    dsimp only at isNull
    rw [isResult] at isNull
    have zero : (0 : UInt64).toNat = 0 := rfl
    omega
  · exact power
  · dsimp only
    rw [isResult, ← isOffset]
    exact Nat.dvd_add aligned divides
  · rw [Block.offset]
    dsimp only
    rw [isResult, isOffset]
    omega
  · rw [base, isTotal]
    exact fits
  · rw [base, isTotal, Block.offset]
    dsimp only
    rw [isOffset]
    exact guards
  · by_contra differs
    apply outside
    rw [Block.Guards, base, isTotal, Block.offset]
    dsimp only
    rw [isOffset]
    exact guarded.written fits place differs

/-- A block that is granted joins those that it is apart from. -/
theorem Keeps.granted {asked aligned : Nat} {grant : Grant} {after : Nat → UInt8} (keeps : Keeps blocks bytes)
    (placed : Placed blocks bytes asked aligned grant) (initialized : block.Initialized grant after)
    (isTotal : block.total = asked) : Keeps (block :: blocks) after := by
  have separate : ∀ other ∈ blocks, block.Separate other := by
    intro other inside
    rw [Block.Separate, initialized.base, isTotal]
    exact placed.apart other inside
  refine ⟨fun member inside => ?_, fun first isFirst second isSecond => ?_⟩
  · rcases List.mem_cons.mp inside with rfl | inside
    · exact initialized.sound
    · refine (keeps.sound member inside).congr fun place guards => ?_
      have within := guards.inside
      rw [initialized.same place ((separate member inside).not_guards within.1 within.2)]
      exact placed.leaves member inside place within.1 within.2
  · rcases List.mem_cons.mp isFirst with isBlock | firstInside
    · rcases List.mem_cons.mp isSecond with isSame | secondInside
      · exact .inl (isBlock.trans isSame.symm)
      · exact .inr (isBlock ▸ separate second secondInside)
    · rcases List.mem_cons.mp isSecond with isSame | secondInside
      · exact .inr (isSame ▸ (separate first firstInside).symm)
      · exact keeps.apart first firstInside second secondInside

theorem memoryAlloc_initialized {size offset result : UInt64} {lgAlign : Nat} {zero : Bool} {grant : Grant}
    {next : Memory}
    (done : memoryAlloc setup size offset lgAlign zero (some grant) memory = .ok (result, next)) :
    guardInitialize setup grant.address (kitMemorySize setup size offset) offset grant.bytes =
      (result, next.bytes) := by
  cases done
  rfl

theorem Keeps.alloc {size offset result : UInt64} {lgAlign requested alignment aligned : Nat} {zero : Bool}
    {answer : Option Grant} {next : Memory} (keeps : Keeps blocks memory.bytes) (checks : setup.checks = true)
    (done : memoryAlloc setup size offset lgAlign zero answer memory = .ok (result, next))
    (placed : ∀ grant, answer = some grant → Placed blocks memory.bytes
      (kitMemorySize setup size offset).toNat aligned grant)
    (isRequested : answer ≠ none → size.toNat = requested ∧ max 16 offset.toNat + requested + 8 < 2 ^ 64)
    (isOffset : max 16 alignment = max 16 offset.toNat) (power : alignment ∣ 16 ∨ 32 ∣ alignment)
    (divides : alignment ∣ aligned) :
    Keeps (allocated result requested alignment blocks) next.bytes := by
  cases answer with
  | none =>
      unfold memoryAlloc at done
      dsimp only at done
      split at done
      · cases done
      · cases done
        rw [allocated, if_pos rfl]
        exact keeps
  | some grant =>
      have isPlaced := placed grant rfl
      rcases isRequested (Option.some_ne_none grant) with ⟨rfl, small⟩
      have initialized := guardInitialize_sound checks isPlaced.notNull rfl small isPlaced.fits isOffset power
        (divides.trans isPlaced.aligned) (memoryAlloc_initialized done)
      rw [allocated, if_neg initialized.notNull]
      refine keeps.granted isPlaced initialized ?_
      rw [kitMemorySize_toNat checks, Nat.mod_eq_of_lt small, Block.total, Block.offset, isOffset]

/-! ## Calls on a block -/

variable {thread : Nat} {next : Memory}

theorem kitFree_bytes {ptr : UInt64} {after : Nat → UInt8} (done : kitFree setup thread ptr after memory = .ok next) :
    next.bytes = if ptr = 0 then memory.bytes else after := by
  unfold kitFree at done
  split at done
  · rename_i null
    cases done
    rw [if_pos null]
  · rename_i notNull
    split at done
    · cases done
    · rcases bind_ok done with ⟨counted, -, done⟩
      rcases bind_ok done with ⟨⟨base, size, checked⟩, -, done⟩
      cases done
      rw [if_neg notNull]

theorem kitRealloc_frees {ptr result : UInt64} {answer : Option Grant} {after : Nat → UInt8} (notNull : ptr ≠ 0)
    (done : kitRealloc setup thread ptr 0 answer after memory = .ok (result, next)) : next.bytes = after := by
  rcases kitRealloc_reallocates done with ⟨base, isSize, last, reallocated, same⟩
  unfold reallocate at reallocated
  rw [if_neg notNull, if_neg (not_not.mpr rfl)] at reallocated
  rcases bind_ok reallocated with ⟨⟨isBase, size, checked⟩, -, reallocated⟩
  cases reallocated
  exact same.bytes

theorem Block.Sound.ptr_ne (sound : block.Sound bytes) : block.ptr ≠ 0 := by
  intro null
  have inside := sound.inside
  rw [null] at inside
  exact absurd inside (Nat.not_lt_zero _)

theorem Block.Sound.ptr_sub (sound : block.Sound bytes) :
    block.ptr - UInt64.ofNat block.base = UInt64.ofNat block.offset := by
  apply UInt64.toNat_inj.mp
  have below := UInt64.toNat_lt block.ptr
  have isPtr := sound.ptr_eq
  rw [UInt64.toNat_sub, sound.base_toNat, sound.offset_toNat]
  omega

theorem Block.Sound.realloc {size result : UInt64} {answer : Option Grant} {after : Nat → UInt8}
    (sound : block.Sound memory.bytes) (checks : setup.checks = true) (notZero : size ≠ 0)
    (done : kitRealloc setup thread block.ptr size answer after memory = .ok (result, next)) :
    (answer = none ∧ result = 0 ∧ next.bytes = memory.bytes) ∨ ∃ grant, answer = some grant ∧
      guardInitialize setup grant.address (kitMemorySize setup size (UInt64.ofNat block.offset))
        (UInt64.ofNat block.offset)
        grant.bytes = (result, next.bytes) := by
  rcases kitRealloc_reallocates done with ⟨base, isSize, last, reallocated, same⟩
  unfold reallocate at reallocated
  rw [if_neg sound.ptr_ne, if_pos notZero, sound.check checks, ok_bind] at reallocated
  cases answer with
  | none =>
      cases reallocated
      exact .inl ⟨rfl, rfl, same.bytes⟩
  | some grant =>
      refine .inr ⟨grant, rfl, ?_⟩
      rw [same.bytes, ← sound.ptr_sub]
      cases reallocated
      rfl

/-- What is reallocated keeps its contents up to the smaller size, and is apart
from the other blocks. -/
theorem Keeps.realloc {size result : UInt64} {answer : Option Grant} {after : Nat → UInt8}
    (keeps : Keeps blocks memory.bytes)
    (checks : setup.checks = true) (inside : block ∈ blocks) (notZero : size ≠ 0)
    (done : kitRealloc setup thread block.ptr size answer after memory = .ok (result, next))
    (placed : ∀ grant, answer = some grant →
      Placed (others block.ptr blocks) memory.bytes
        (kitMemorySize setup size (UInt64.ofNat block.offset)).toNat 16 grant ∧
      ∀ index, index < block.total → index < (kitMemorySize setup size (UInt64.ofNat block.offset)).toNat →
        grant.bytes (grant.address.toNat + index) = memory.bytes (block.base + index))
    (meets : ∀ grant, answer = some grant →
      block.offset + size.toNat + 8 < 2 ^ 64 ∧ (16 < block.alignment → block.alignment ∣ grant.address.toNat)) :
    (result = 0 ∧ next.bytes = memory.bytes) ∨ (result ≠ 0 ∧
      Keeps (⟨result, size.toNat, block.alignment⟩ :: others block.ptr blocks) next.bytes ∧
      ∀ index, index < block.size → index < size.toNat →
        next.bytes (result.toNat + index) = memory.bytes (block.ptr.toNat + index)) := by
  have sound := keeps.sound block inside
  rcases sound.realloc checks notZero done with ⟨-, failed, same⟩ | ⟨grant, isGrant, written⟩
  · exact .inl ⟨failed, same⟩
  · rcases placed grant isGrant with ⟨isPlaced, contents⟩
    rcases meets grant isGrant with ⟨small, isAligned⟩
    have isOffset : max 16 (UInt64.ofNat block.offset).toNat = block.offset := by
      rw [sound.offset_toNat]
      exact max_eq_right block.offset_ge
    have aligned : block.alignment ∣ grant.address.toNat := by
      rcases sound.power with near | multiple
      · exact near.trans isPlaced.aligned
      · refine isAligned ?_
        have positive : block.alignment ≠ 0 := by
          intro zero
          have isPtr := Nat.eq_zero_of_zero_dvd (zero ▸ sound.aligned)
          exact sound.ptr_ne (UInt64.toNat_inj.mp isPtr)
        omega
    have initialized := guardInitialize_sound checks isPlaced.notNull rfl (isOffset.symm ▸ small) isPlaced.fits
      isOffset.symm sound.power aligned written
    have isSize : (kitMemorySize setup size (UInt64.ofNat block.offset)).toNat = block.offset + size.toNat + 8 := by
      rw [kitMemorySize_toNat checks, isOffset, Nat.mod_eq_of_lt small]
    refine .inr ⟨initialized.notNull, ?_, fun index old new => ?_⟩
    · exact (keeps.subset (others_subset block.ptr)).granted isPlaced initialized isSize.symm
    · have isResult : result.toNat = grant.address.toNat + block.offset := by
        rw [← initialized.base]
        exact initialized.sound.ptr_eq
      rw [isResult, Nat.add_assoc, initialized.same, contents (block.offset + index), sound.ptr_eq, Nat.add_assoc]
      · rw [Block.total]
        omega
      · rw [isSize]
        omega
      · rw [Block.Guards, initialized.base]
        have sameOffset : (Block.mk result size.toNat block.alignment).offset = block.offset := rfl
        rw [sameOffset]
        dsimp only
        omega

theorem Keeps.write {address : UInt64} {data : List UInt8} (keeps : Keeps blocks bytes) (inside : block ∈ blocks)
    (starts : block.ptr.toNat ≤ address.toNat) (ends : address.toNat + data.length ≤ block.ptr.toNat + block.size) :
    Keeps blocks (Bytes.write bytes address.toNat data) := by
  have isPtr := (keeps.sound block inside).ptr_eq
  refine keeps.congr fun other isOther place guards => Bytes.write_outside ?_
  rcases keeps.apart other isOther block inside with rfl | separate
  · rw [Block.Guards] at guards
    omega
  · have within := guards.inside
    rw [Block.Separate] at separate
    have total : block.total = block.offset + block.size + 8 := rfl
    omega

/-! ## One call -/

theorem kitMemalign_power {alignment size result : UInt64} {answer : Option Grant}
    (done : kitMemalign setup thread alignment size answer memory = .ok (result, next)) :
    alignment.toNat ∣ 16 ∨ 32 ∣ alignment.toNat := by
  unfold kitMemalign at done
  split at done
  · cases done
  · split at done
    · cases done
    · rename_i notZero isPower
      have positive : alignment.toNat ≠ 0 := fun zero => notZero (UInt64.toNat_inj.mp zero)
      have below : 2 ^ Nat.log2 alignment.toNat < UInt64.size :=
        (Nat.log2_self_le positive).trans_lt (UInt64.toNat_lt alignment)
      have power := congrArg UInt64.toNat (not_not.mp isPower)
      rw [UInt64.toNat_ofNat_of_lt' below] at power
      rw [← power]
      rcases Nat.le_total (Nat.log2 alignment.toNat) 4 with few | many
      · exact .inl (Nat.pow_dvd_pow 2 few : _ ∣ 2 ^ 4)
      · rcases Nat.eq_or_lt_of_le many with is | more
        · exact .inl (by rw [← is]; norm_num)
        · exact .inr (Nat.pow_dvd_pow 2 more : 2 ^ 5 ∣ _)

theorem keeps_malloc {size result : UInt64} {answer : Option Grant} (keeps : Keeps blocks memory.bytes)
    (checks : setup.checks = true) (allowed : (Call.malloc size answer).Allowed setup blocks memory.bytes)
    (meets : (Call.malloc size answer).Meets blocks)
    (done : kitMalloc setup thread size answer memory = .ok (result, next)) :
    Keeps (allocated result size.toNat 1 blocks) next.bytes := by
  rcases kitMalloc_allocates done with ⟨last, isAllocated, same⟩
  rw [same.bytes]
  exact keeps.alloc checks isAllocated allowed (fun granted => ⟨rfl, meets granted⟩) rfl (.inl (by decide)) (by decide)

theorem keeps_memalign {alignment size result : UInt64} {answer : Option Grant} (keeps : Keeps blocks memory.bytes)
    (checks : setup.checks = true) (allowed : (Call.memalign alignment size answer).Allowed setup blocks memory.bytes)
    (meets : (Call.memalign alignment size answer).Meets blocks)
    (done : kitMemalign setup thread alignment size answer memory = .ok (result, next)) :
    Keeps (allocated result size.toNat alignment.toNat blocks) next.bytes := by
  rcases kitMemalign_allocates done with ⟨last, isAllocated, same⟩
  rw [same.bytes]
  refine keeps.alloc checks isAllocated allowed (fun granted => ⟨rfl, meets granted⟩) rfl (kitMemalign_power done) ?_
  split
  · rename_i one
    rw [one]
    exact ⟨16, rfl⟩
  · exact Nat.dvd_refl _

theorem keeps_calloc {num size result : UInt64} {answer : Option Grant} (keeps : Keeps blocks memory.bytes)
    (checks : setup.checks = true) (allowed : (Call.calloc num size answer).Allowed setup blocks memory.bytes)
    (meets : (Call.calloc num size answer).Meets blocks)
    (done : kitCalloc setup thread num size answer memory = .ok (result, next)) :
    Keeps (allocated result (num.toNat * size.toNat) 1 blocks) next.bytes := by
  rw [kitCalloc_eq] at done
  rcases bind_ok done with ⟨⟨isResult, given⟩, isGiven, done⟩
  dsimp only at done
  split at done
  · cases done
  · rcases bind_ok done with ⟨middle, counted, done⟩
    rcases bind_ok done with ⟨last, failed, done⟩
    cases done
    have same : next.bytes = given.bytes := by
      split at failed
      · exact ((count_same counted).then (count_same failed)).bytes
      · cases failed
        exact (count_same counted).bytes
    rw [same]
    split at isGiven
    · split at isGiven
      · cases isGiven
      · cases isGiven
        rw [allocated, if_pos rfl]
        exact keeps
    · rename_i undetected
      refine keeps.alloc checks isGiven allowed (fun granted => ?_) rfl (.inl (by decide)) (by decide)
      have small := meets granted undetected
      refine ⟨?_, small⟩
      rw [UInt64.toNat_mul, Nat.mod_eq_of_lt]
      omega

theorem keeps_realloc {ptr size result : UInt64} {answer : Option Grant} {after : Nat → UInt8}
    (keeps : Keeps blocks memory.bytes)
    (checks : setup.checks = true) (allowed : (Call.realloc ptr size answer after).Allowed setup blocks memory.bytes)
    (meets : (Call.realloc ptr size answer after).Meets blocks)
    (done : kitRealloc setup thread ptr size answer after memory = .ok (result, next)) :
    Keeps ((Call.realloc ptr size answer after).blocks result blocks) next.bytes := by
  rw [Call.blocks]
  split
  · rename_i null
    cases null
    rcases kitRealloc_null_allocates done with ⟨last, isAllocated, same⟩
    rw [same.bytes]
    refine keeps.alloc checks isAllocated (allowed.1 rfl) (fun granted => ⟨rfl, ?_⟩) rfl (.inl (by decide)) (by decide)
    rcases Option.ne_none_iff_exists'.mp granted with ⟨grant, isGrant⟩
    exact (meets grant isGrant).1 rfl
  · rename_i notNull
    rcases allowed.2 notNull with ⟨block, inside, rfl, frees, moves⟩
    split
    · rename_i isZero
      cases isZero
      rw [kitRealloc_frees notNull done]
      exact (keeps.subset (others_subset block.ptr)).leaves (frees rfl)
    · rename_i notZero
      rcases keeps.realloc checks inside notZero done (moves notZero)
        (fun grant isGrant => (meets grant isGrant).2 notNull notZero block inside rfl) with ⟨failed, same⟩ |
        ⟨moved, isKept, -⟩
      · rw [if_pos failed, same]
        exact keeps
      · rw [if_neg moved]
        refine isKept.subset fun other isOther => ?_
        rcases List.mem_map.mp isOther with ⟨member, isMember, isSame⟩
        split at isSame
        · rename_i same
          cases keeps.unique isMember inside same
          exact List.mem_cons.mpr (.inl isSame.symm)
        · rename_i differs
          cases isSame
          exact List.mem_cons.mpr (.inr (List.mem_filter.mpr ⟨isMember, decide_eq_true differs⟩))

theorem keeps_call {call : Call} {result : UInt64} (keeps : Keeps blocks memory.bytes) (checks : setup.checks = true)
    (allowed : call.Allowed setup blocks memory.bytes) (meets : call.Meets blocks)
    (done : call.run setup thread memory = .ok (result, next)) : Keeps (call.blocks result blocks) next.bytes := by
  cases call with
  | malloc size answer => exact keeps_malloc keeps checks allowed meets done
  | memalign alignment size answer => exact keeps_memalign keeps checks allowed meets done
  | calloc num size answer => exact keeps_calloc keeps checks allowed meets done
  | strdup txt answer => cases allowed
  | realloc ptr size answer after => exact keeps_realloc keeps checks allowed meets done
  | reduce ptr size answer after => cases allowed
  | free ptr after =>
      rcases bind_ok done with ⟨last, freed, done⟩
      cases done
      have fewer := keeps.subset (others_subset ptr)
      rw [kitFree_bytes freed]
      split
      · exact fewer
      · rename_i notNull
        exact fewer.leaves (allowed notNull).2
  | countersInitialize first second others => cases allowed
  | write address data =>
      cases done
      rcases allowed with ⟨block, inside, starts, ends⟩
      exact keeps.write inside starts ends

end

/-! ## Runs -/

/-- Checks of blocks find no fault, and the size that was asked for last, and the
pointers to them are aligned. -/
structure Quiet (setup : Setup) (blocks : List Block) (memory : Memory) : Prop where
  checked : ∀ block ∈ blocks, ∀ out, ∃ done, kitMemoryCheck setup block.ptr out memory = .ok done
  sizes : ∀ block ∈ blocks, ∃ guard size, kitMemoryCheck setup block.ptr .size memory = .ok (guard, size, memory) ∧
    size.toNat = block.size
  aligned : ∀ block ∈ blocks, block.alignment ∣ block.ptr.toNat

/-- `kit_realloc` of a block keeps its contents, up to the smaller size. -/
def Call.Preserves (blocks : List Block) (memory : Memory) (result : UInt64) (next : Memory) : Call → Prop
  | .realloc ptr size _ _ => result ≠ 0 → ∀ block ∈ blocks, block.ptr = ptr →
      ∀ index, index < block.size → index < size.toNat →
        next.bytes (result.toNat + index) = memory.bytes (block.ptr.toNat + index)
  | _ => True

theorem Keeps.quiet {setup : Setup} {blocks : List Block} {memory : Memory} (keeps : Keeps blocks memory.bytes)
    (checks : setup.checks = true) : Quiet setup blocks memory := by
  refine ⟨fun block inside out => ⟨_, (keeps.sound block inside).check checks out⟩, fun block inside => ?_,
    fun block inside => (keeps.sound block inside).aligned⟩
  have sound := keeps.sound block inside
  refine ⟨_, _, sound.check checks .size, ?_⟩
  rw [if_pos rfl]
  have isSize : UInt64.size = 2 ^ 64 := rfl
  have fits := sound.fits
  have total : block.total = block.offset + block.size + 8 := rfl
  exact UInt64.toNat_ofNat_of_lt' (by omega)

theorem step_ok {setup : Setup} {memory next : Memory} {call : Nat × Call} {result : UInt64}
    (stepped : step setup memory call = some (result, next)) : call.2.run setup call.1 memory = .ok (result, next) := by
  unfold step at stepped
  split at stepped
  · cases stepped
    assumption
  · cases stepped

/-- In every run in which sizes do not wrap, and reallocated blocks are aligned
anew, the blocks are sound and apart. -/
theorem live_kept {setup : Setup} {start memory : Memory}
    {history : History (Nat × Call) UInt64} (checks : setup.checks = true)
    (run : Run (step setup) (fun history memory call =>
      call.2.Allowed setup (live history) memory.bytes ∧ call.2.Meets (live history)) start history memory) :
    Keeps (live history) memory.bytes := by
  refine run.invariant (fun history memory => Keeps (live history) memory.bytes) ⟨?_, ?_⟩ ?_
  · intro block inside
    cases inside
  · intro block inside
    cases inside
  · rintro history memory ⟨thread, call⟩ result next keeps ⟨allowed, meets⟩ stepped
    exact keeps_call keeps checks allowed meets (step_ok stepped)

/-- In such a run no check of a live block aborts, it reports the size asked for
last, blocks stay aligned, and `kit_realloc` preserves contents. -/
theorem live_blocks_quiet {setup : Setup} {start memory : Memory} {history : History (Nat × Call) UInt64}
    (checks : setup.checks = true)
    (run : Run (step setup) (fun history memory call =>
      call.2.Allowed setup (live history) memory.bytes ∧ call.2.Meets (live history)) start history memory) :
    Quiet setup (live history) memory ∧
      ∀ call result next, call.2.Allowed setup (live history) memory.bytes → call.2.Meets (live history) →
        step setup memory call = some (result, next) → call.2.Preserves (live history) memory result next := by
  have keeps := live_kept checks run
  refine ⟨keeps.quiet checks, ?_⟩
  rintro ⟨thread, call⟩ result next allowed meets stepped
  cases call with
  | realloc ptr size answer after =>
      rintro given block inside rfl index old new
      have notZero : size ≠ 0 := by
        rintro rfl
        exact absurd new (Nat.not_lt_zero index)
      have notNull := (keeps.sound block inside).ptr_ne
      rcases allowed.2 notNull with ⟨other, isOther, same, -, moves⟩
      have isBlock := keeps.unique isOther inside same
      rw [isBlock] at moves
      rcases keeps.realloc checks inside notZero (step_ok stepped) (moves notZero)
        (fun grant isGrant => (meets grant isGrant).2 notNull notZero block inside rfl) with ⟨failed, -⟩ |
        ⟨-, -, contents⟩
      · exact absurd failed given
      · exact contents index old new
  | _ => trivial

/-! ## An aligned block that moves -/

/-- Memory with a block of 8 bytes at 4128, which is aligned by 32. -/
def alignedMemory : Memory where
  bytes := (guardInitialize (Setup.simple true false) 4096 48 32 fun _ => 0).2
  asked := [.mallocx 48 5 false]
  enomem := false
  counts := Function.update (fun _ => 0) .malloc 1
  counters := none

def alignedCall : Nat × Call := (0, .memalign 32 8 (some ⟨4096, fun _ => 0⟩))

/-- The block is reallocated, and moves to a base. -/
def movingCall (address : UInt64) : Nat × Call :=
  (0, .realloc 4128 16 (some ⟨address, fun place => alignedMemory.bytes (4096 + (place - address.toNat))⟩) fun _ => 0)

theorem aligned_allowed : alignedCall.2.Allowed (Setup.simple true false) [] Memory.start.bytes := by
  rintro grant ⟨⟩
  refine ⟨by decide, by decide, by decide, ?_, ?_⟩
  · intro block inside
    cases inside
  · intro block inside
    cases inside

theorem moving_allowed {address : UInt64} (notNull : address ≠ 0) (fits : address.toNat + 56 ≤ 2 ^ 64)
    (aligned : 16 ∣ address.toNat) :
    (movingCall address).2.Allowed (Setup.simple true false) (live [(alignedCall, 4128)]) alignedMemory.bytes := by
  refine ⟨fun null => absurd null (by decide), fun _ => ⟨⟨4128, 8, 32⟩, List.mem_singleton.mpr rfl, rfl, ?_, ?_⟩⟩
  · intro zero
    exact absurd zero (by decide)
  · rintro _ grant ⟨⟩
    refine ⟨⟨notNull, fits, aligned, ?_, ?_⟩, fun index _ _ => ?_⟩
    · intro block inside
      cases inside
    · intro block inside
      cases inside
    · dsimp only
      rw [Nat.add_sub_cancel_left]
      rfl

/-- A block that `jemalloc` moves to a multiple of 32 passes every check. -/
theorem live_blocks_quiet_moved : ∃ memory, Quiet (Setup.simple true false) [⟨8224, 16, 32⟩] memory := by
  have aligned : Run (step (Setup.simple true false)) (fun history memory call =>
      call.2.Allowed (Setup.simple true false) (live history) memory.bytes ∧ call.2.Meets (live history)) Memory.start
      [(alignedCall, 4128)] alignedMemory :=
    .step .start ⟨aligned_allowed, fun _ => by decide⟩ rfl
  refine ⟨_, (live_blocks_quiet rfl (@Run.step _ _ _ _ _ _ _ _ _ (movingCall 8192) 8224 aligned
    ⟨moving_allowed (by decide) (by decide) (by decide), ?_⟩ rfl)).1⟩
  rintro grant ⟨⟩
  refine ⟨fun null => absurd null (by decide), fun _ _ block inside _ => ?_⟩
  cases List.mem_singleton.mp inside
  exact ⟨by decide, fun _ => by decide⟩

/-- `jemalloc` may move it to another multiple of 16: then it is not aligned, and
the check of it aborts. -/
theorem moved_aborts : ∃ history memory, Run (step (Setup.simple true false)) (fun history memory call =>
      call.2.Allowed (Setup.simple true false) (live history) memory.bytes) Memory.start history memory ∧
    ∃ block ∈ live history, kitMemoryCheck (Setup.simple true false) block.ptr .null memory = .error .assertion ∧
      ¬ block.alignment ∣ block.ptr.toNat := by
  refine ⟨[(movingCall 8208, 8240), (alignedCall, 4128)], _,
    .step (.step .start aligned_allowed rfl : Run _ _ _ _ alignedMemory)
      (moving_allowed (by decide) (by decide) (by decide)) rfl,
    ⟨8240, 16, 32⟩, List.mem_singleton.mpr rfl, rfl, by decide⟩

end KitAlloc
end LibKit
