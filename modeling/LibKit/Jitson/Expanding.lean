import LibKit.Jitson.Words
import LibKit.Jitson.Stack
import LibKit.Support.Results
import LibKit.Support.Runs

namespace LibKit
namespace Jitson

open Bytes

/-!
# Growing the construction stack

A stack grows to a multiple of its maximum while it is small, and otherwise to
a multiple of 4096 tokens.  Both are computed in words of 32 bits: a count may
wrap, a large stack may be grown to no tokens at all, and the maximum of a
stack made for no tokens cannot be divided by.  In all other states
`sxe_jitson_stack_expand` does what it is documented to do, in every run.
-/

/-! ## Rounding up -/

theorem le_roundUp {size unit : Nat} (positive : 0 < unit) : size ≤ ((size - 1) / unit + 1) * unit := by
  have within := Nat.lt_div_mul_add positive (a := size - 1)
  have expanded := Nat.add_one_mul ((size - 1) / unit) unit
  omega

theorem roundUp_lt {size unit : Nat} (some : 0 < size) : ((size - 1) / unit + 1) * unit < size + unit := by
  have below := Nat.div_mul_le_self (size - 1) unit
  have expanded := Nat.add_one_mul ((size - 1) / unit) unit
  omega

namespace RawStack

/-! ## What one expansion does -/

/-- The memory of a stack has room for its maximum, and its tokens are within
it. -/
structure Sound (stack : RawStack) : Prop where
  count : stack.count.toNat ≤ stack.maximum.toNat
  borrow : stack.borrow.toNat ≤ stack.maximum.toNat
  block : stack.jitsons = .null ∨ ∃ bytes, stack.jitsons = .live stack.maximum.toNat bytes

/-- A stack can be expanded if the tokens fit already, or if it can be grown
to a size that is a word, from a maximum that is not 0 unless it is grown by
whole units. -/
def CanGrow (stack : RawStack) (more : Nat) : Prop :=
  stack.count.toNat + more ≤ stack.maximum.toNat ∨
    stack.count.toNat + more ≤ 2 ^ 32 - 4096 ∧ (stack.maximum = 0 → 4096 ≤ stack.count.toNat + more)

instance (stack : RawStack) (more : Nat) : Decidable (CanGrow stack more) := inferInstanceAs (Decidable (_ ∨ _))

/-- The stack with more tokens in a block of the given size. -/
def grown (stack : RawStack) (more maximum : UInt32) (bytes : Memory) : RawStack :=
  { stack with count := stack.count + more, maximum := maximum, jitsons := .live maximum.toNat bytes }

/-- The bytes of a block are those of the block before, as far as it went. -/
def Keeps (stack : RawStack) (bytes : Memory) : Prop :=
  ∀ size old, stack.jitsons = .live size old → ∀ place, place < 16 * size → bytes place = old place

section

variable {stack : RawStack} {more : UInt32}

theorem toNat_expanded (fits : stack.count.toNat + more.toNat < 2 ^ 32) :
    (stack.count + more).toNat = stack.count.toNat + more.toNat := by
  rw [UInt32.toNat_add]
  exact Nat.mod_eq_of_lt fits

theorem CanGrow.fits (canGrow : CanGrow stack more.toNat) : stack.count.toNat + more.toNat < 2 ^ 32 := by
  rcases canGrow with already | ⟨below, _⟩
  · exact Nat.lt_of_le_of_lt already stack.maximum.toNat_lt
  · omega

/-- The count before is what is returned. -/
theorem expanded_sub (stack : RawStack) (more : UInt32) : stack.count + more - more = stack.count := by
  apply UInt32.toNat_inj.mp
  have sum := UInt32.toNat_add stack.count more
  have difference := UInt32.toNat_sub (stack.count + more) more
  have small := stack.count.toNat_lt
  have other := more.toNat_lt
  omega

theorem newMaximum_small {maximum expanded : UInt32} (small : expanded.toNat < 4096) (positive : maximum ≠ 0)
    (grows : maximum.toNat < expanded.toNat) :
    ∃ size, newMaximum maximum expanded = .ok size ∧
      size.toNat = ((expanded.toNat - 1) / maximum.toNat + 1) * maximum.toNat := by
  have high := @roundUp_lt expanded.toNat maximum.toNat (by omega)
  have one : (1 : UInt32).toNat = 1 := rfl
  have less : (expanded - 1).toNat = expanded.toNat - 1 := by
    have difference := UInt32.toNat_sub expanded 1
    omega
  have quotient : ((expanded - 1) / maximum + 1).toNat = (expanded.toNat - 1) / maximum.toNat + 1 := by
    have here : (expanded.toNat - 1) / maximum.toNat ≤ expanded.toNat - 1 := Nat.div_le_self _ _
    rw [UInt32.toNat_add, UInt32.toNat_div, less]
    exact Nat.mod_eq_of_lt (by omega)
  refine ⟨((expanded - 1) / maximum + 1) * maximum, ?_, ?_⟩
  · unfold newMaximum
    rw [if_pos (UInt32.lt_iff_toNat_lt.mpr small), if_neg positive]
  · rw [UInt32.toNat_mul, quotient]
    exact Nat.mod_eq_of_lt (by omega)

theorem newMaximum_large {maximum expanded : UInt32} (large : 4096 ≤ expanded.toNat) :
    ∃ size, newMaximum maximum expanded = .ok size ∧
      size.toNat = ((expanded.toNat - 1) / 4096 + 1) * 4096 % 2 ^ 32 := by
  have less : (expanded - 1).toNat = expanded.toNat - 1 := by
    have difference := UInt32.toNat_sub expanded 1
    have bound := expanded.toNat_lt
    have one : (1 : UInt32).toNat = 1 := rfl
    omega
  have quotient : ((expanded - 1) / 4096 + 1).toNat = (expanded.toNat - 1) / 4096 + 1 := by
    have bound := expanded.toNat_lt
    have unit : (4096 : UInt32).toNat = 4096 := rfl
    have one : (1 : UInt32).toNat = 1 := rfl
    rw [UInt32.toNat_add, UInt32.toNat_div, less, unit, one]
    omega
  refine ⟨((expanded - 1) / 4096 + 1) * 4096, ?_, ?_⟩
  · have notSmall : ¬ expanded < 4096 := fun small => by
      have here : expanded.toNat < 4096 := UInt32.lt_iff_toNat_lt.mp small
      omega
    unfold newMaximum
    rw [if_neg notSmall]
  · rw [UInt32.toNat_mul, quotient]
    rfl

theorem newMaximum_value {maximum expanded size : UInt32} (grows : maximum.toNat < expanded.toNat)
    (computed : newMaximum maximum expanded = .ok size) :
    size.toNat =
      if expanded.toNat < 4096 then ((expanded.toNat - 1) / maximum.toNat + 1) * maximum.toNat
      else ((expanded.toNat - 1) / 4096 + 1) * 4096 % 2 ^ 32 := by
  by_cases small : expanded.toNat < 4096
  · rw [if_pos small]
    by_cases zero : maximum = 0
    · unfold newMaximum at computed
      rw [if_pos (UInt32.lt_iff_toNat_lt.mpr small), if_pos zero] at computed
      cases computed
    · rcases newMaximum_small small zero grows with ⟨other, found, value⟩
      rw [found] at computed
      cases computed
      exact value
  · rw [if_neg small]
    rcases @newMaximum_large maximum expanded (Nat.le_of_not_lt small) with ⟨other, found, value⟩
    rw [found] at computed
    cases computed
    exact value

theorem newMaximum_le {maximum expanded size : UInt32} (grows : maximum.toNat < expanded.toNat)
    (computed : newMaximum maximum expanded = .ok size) : size.toNat ≤ 2 ^ 32 - 4096 := by
  have value := newMaximum_value grows computed
  by_cases small : expanded.toNat < 4096
  · have high := @roundUp_lt expanded.toNat maximum.toNat (by omega)
    rw [if_pos small] at value
    omega
  · rw [if_neg small] at value
    omega

theorem newMaximum_fits (canGrow : CanGrow stack more.toNat)
    (grows : stack.maximum.toNat < stack.count.toNat + more.toNat) :
    ∃ size, newMaximum stack.maximum (stack.count + more) = .ok size ∧
      stack.count.toNat + more.toNat ≤ size.toNat := by
  have sum := toNat_expanded canGrow.fits
  rcases canGrow with already | ⟨below, divides⟩
  · omega
  · by_cases small : (stack.count + more).toNat < 4096
    · have positive : stack.maximum ≠ 0 := fun zero => by
        have enough := divides zero
        omega
      have nonzero : 0 < stack.maximum.toNat := Nat.pos_of_ne_zero fun zero => positive (UInt32.toNat_inj.mp zero)
      rcases newMaximum_small small positive (by omega) with ⟨size, found, value⟩
      refine ⟨size, found, ?_⟩
      rw [value, ← sum]
      exact le_roundUp nonzero
    · rcases @newMaximum_large stack.maximum (stack.count + more) (by omega) with ⟨size, found, value⟩
      have low := @le_roundUp (stack.count + more).toNat 4096 (by omega)
      have high := @roundUp_lt (stack.count + more).toNat 4096 (by omega)
      exact ⟨size, found, by omega⟩

variable (grant : Option Memory)

/-- A null pointer or a block that is grown becomes a block that keeps what it
held, or is left alone if there is no memory. -/
theorem kitRealloc_met (sound : Sound stack) {tokens : Nat} (grows : stack.maximum.toNat ≤ tokens) (some : 0 < tokens) :
    (grant = none ∧ kitRealloc grant tokens stack.jitsons = .ok (none, stack.jitsons)) ∨
      grant.isSome ∧ ∃ bytes,
        kitRealloc grant tokens stack.jitsons = .ok (Option.some (.live tokens bytes), stack.jitsons) ∧
          Keeps stack bytes := by
  rcases sound.block with null | ⟨old, live⟩
  · rw [null]
    cases grant with
    | none => exact Or.inl ⟨rfl, rfl⟩
    | some fresh =>
        refine Or.inr ⟨rfl, fresh, rfl, ?_⟩
        intro size bytes isLive
        rw [null] at isLive
        cases isLive
  · rw [live]
    have nonzero : ¬ tokens = 0 := Nat.pos_iff_ne_zero.mp some
    cases grant with
    | none => exact Or.inl ⟨rfl, by rw [kitRealloc, if_neg nonzero]; rfl⟩
    | some fresh =>
        refine Or.inr ⟨rfl, _, by rw [kitRealloc, if_neg nonzero]; rfl, ?_⟩
        intro size bytes isLive place inside
        rw [live] at isLive
        cases isLive
        rw [Nat.min_eq_left grows]
        exact if_pos inside

def Needs (stack : RawStack) (more : UInt32) : Prop :=
  stack.maximum < stack.count + more ∨ stack.jitsons = .null

/-- What is known of a stack that was expanded. -/
structure Expanded (stack : RawStack) (more maximum : UInt32) (bytes : Memory) : Prop where
  higher : stack.maximum.toNat ≤ maximum.toNat
  room : stack.count.toNat + more.toNat ≤ maximum.toNat
  resized : if stack.maximum < stack.count + more then newMaximum stack.maximum (stack.count + more) = .ok maximum
    else maximum = stack.maximum
  keeps : Keeps stack bytes

/-- Where a stack can be expanded, either there is no memory and nothing
changes, or the old count is returned and there is room for the new one. -/
theorem expand_met (sound : Sound stack) (canGrow : CanGrow stack more.toNat) :
    (grant = none ∧ Needs stack more ∧ expand grant stack more = .ok (stackError, stack)) ∨
      (Needs stack more → grant.isSome) ∧ ∃ maximum bytes,
        expand grant stack more = .ok (stack.count, grown stack more maximum bytes) ∧
          Expanded stack more maximum bytes := by
  have sum := toNat_expanded canGrow.fits
  have returned := expanded_sub stack more
  by_cases grows : stack.maximum < stack.count + more
  · have less : stack.maximum.toNat < stack.count.toNat + more.toNat := sum ▸ UInt32.lt_iff_toNat_lt.mp grows
    rcases newMaximum_fits canGrow less with ⟨size, computed, room⟩
    have higher : stack.maximum.toNat ≤ size.toNat := by omega
    rcases kitRealloc_met grant sound higher (by omega) with ⟨noMemory, failed⟩ | ⟨granted, bytes, moved, keeps⟩
    · refine Or.inl ⟨noMemory, Or.inl grows, ?_⟩
      rw [expand, if_pos grows, computed]
      simp only [bind, Except.bind]
      rw [failed]
    · refine Or.inr ⟨fun _ => granted, size, bytes, ?_, higher, room, (if_pos grows).mpr computed, keeps⟩
      rw [expand, if_pos grows, computed]
      simp only [bind, Except.bind]
      rw [moved, returned]
      rfl
  · have room : stack.count.toNat + more.toNat ≤ stack.maximum.toNat := by
      have notLess := Nat.le_of_not_lt fun less => grows (UInt32.lt_iff_toNat_lt.mpr less)
      omega
    have same : if stack.maximum < stack.count + more then
        newMaximum stack.maximum (stack.count + more) = .ok stack.maximum else stack.maximum = stack.maximum :=
      (if_neg grows).mpr rfl
    rcases sound.block with null | ⟨old, live⟩
    · cases grant with
      | none =>
          refine Or.inl ⟨rfl, Or.inr null, ?_⟩
          rw [expand, if_neg grows, null]
          rfl
      | some fresh =>
          refine Or.inr ⟨fun _ => rfl, stack.maximum, fresh, ?_, Nat.le_refl _, room, same, ?_⟩
          · rw [expand, if_neg grows, null, returned]
            rfl
          · intro size bytes isLive
            rw [null] at isLive
            cases isLive
    · refine Or.inr ⟨fun needs => ?_, stack.maximum, old, ?_, Nat.le_refl _, room, same, ?_⟩
      · rcases needs with less | null
        · exact absurd less grows
        · rw [live] at null
          cases null
      · rw [expand, if_neg grows, live, returned]
        simp only [grown]
      · intro size bytes isLive place inside
        rw [live] at isLive
        cases isLive
        rfl

/-- Any expansion leaves the maximum of before, or one that could be rounded
up. -/
def Bounded (stack after : RawStack) : Prop :=
  after.maximum = stack.maximum ∨ after.maximum.toNat ≤ 2 ^ 32 - 4096

theorem expand_bounded {index : UInt32} {after : RawStack} (expanded : expand grant stack more = .ok (index, after)) :
    Bounded stack after := by
  by_cases grows : stack.maximum < stack.count + more
  · rw [expand, if_pos grows] at expanded
    cases computed : newMaximum stack.maximum (stack.count + more) with
    | error stop =>
        rw [computed] at expanded
        cases expanded
    | ok size =>
        have bound := newMaximum_le (UInt32.lt_iff_toNat_lt.mp grows) computed
        rw [computed] at expanded
        simp only [bind, Except.bind] at expanded
        cases moved : kitRealloc grant size.toNat stack.jitsons with
        | error stop =>
            rw [moved] at expanded
            cases expanded
        | ok result =>
            rw [moved] at expanded
            rcases result with ⟨fresh, old⟩
            cases fresh with
            | none =>
                cases expanded
                exact Or.inl rfl
            | some jitsons =>
                cases expanded
                exact Or.inr bound
  · rw [expand, if_neg grows] at expanded
    refine Or.inl ?_
    cases block : stack.jitsons with
    | null =>
        rw [block] at expanded
        cases grant with
        | none =>
            cases expanded
            rfl
        | some fresh =>
            cases expanded
            rfl
    | freed =>
        rw [block] at expanded
        cases expanded
        rfl
    | live size bytes =>
        rw [block] at expanded
        cases expanded
        rfl

/-- A stack with the maximum 0 cannot be expanded by less than a unit. -/
theorem expand_zero (zero : stack.maximum = 0) (sound : Sound stack) (some : 0 < more.toNat)
    (small : more.toNat < 4096) :
    expand grant stack more = .error .undefined := by
  have empty : stack.count = 0 := by
    have count := sound.count
    rw [zero] at count
    exact UInt32.toNat_inj.mp (Nat.le_zero.mp count)
  have expanded : stack.count + more = more := by rw [empty, UInt32.zero_add]
  have grows : stack.maximum < stack.count + more := by
    rw [zero, expanded]
    exact UInt32.lt_iff_toNat_lt.mpr some
  have below : more < 4096 := UInt32.lt_iff_toNat_lt.mpr small
  rw [expand, if_pos grows, newMaximum, expanded, if_pos below, if_pos zero]
  rfl

/-- Where a stack cannot be expanded, memory or not, the program is stopped,
the tokens are freed, or the stack is left with a count that is not the sum or
that its memory has no room for. -/
theorem expand_unmet (sound : Sound stack) (some : 0 < more.toNat) (cannot : ¬ CanGrow stack more.toNat)
    (fresh : Memory) :
    expand (Option.some fresh) stack more = .error .undefined ∨
      ∃ index after, expand (Option.some fresh) stack more = .ok (index, after) ∧
        ((index = stackError ∧ after.jitsons = .freed ∧ stack.jitsons ≠ .freed) ∨
          (after.count = stack.count + more ∧
            (after.count.toNat < stack.count.toNat ∨ after.maximum.toNat < after.count.toNat))) := by
  have count := sound.count
  have tooMany : stack.maximum.toNat < stack.count.toNat + more.toNat :=
    Nat.lt_of_not_le fun room => cannot (Or.inl room)
  by_cases wraps : 2 ^ 32 ≤ stack.count.toNat + more.toNat
  · have sum : (stack.count + more).toNat = stack.count.toNat + more.toNat - 2 ^ 32 := by
      have first := stack.count.toNat_lt
      have second := more.toNat_lt
      rw [UInt32.toNat_add]
      omega
    have less : (stack.count + more).toNat < stack.count.toNat := by
      have second := more.toNat_lt
      omega
    have notGrown : ¬ stack.maximum < stack.count + more := fun grows => by
      have here := UInt32.lt_iff_toNat_lt.mp grows
      omega
    refine Or.inr ⟨stack.count + more - more, ?_⟩
    rw [expand, if_neg notGrown]
    rcases sound.block with null | ⟨old, live⟩
    · rw [null]
      exact ⟨_, rfl, Or.inr ⟨rfl, Or.inl less⟩⟩
    · rw [live]
      exact ⟨_, rfl, Or.inr ⟨rfl, Or.inl less⟩⟩
  · have sum := @toNat_expanded stack more (Nat.lt_of_not_le wraps)
    have grows : stack.maximum < stack.count + more := UInt32.lt_iff_toNat_lt.mpr (by rw [sum]; exact tooMany)
    by_cases small : (stack.count + more).toNat < 4096
    · have zero : stack.maximum = 0 := by
        apply Decidable.byContradiction
        intro positive
        exact cannot (Or.inr ⟨by omega, fun zero => absurd zero positive⟩)
      exact Or.inl (expand_zero (Option.some fresh) zero sound some (by omega))
    · have high : 2 ^ 32 - 4096 < stack.count.toNat + more.toNat := by
        apply Nat.lt_of_not_le
        intro below
        exact cannot (Or.inr ⟨below, fun _ => by omega⟩)
      rcases @newMaximum_large stack.maximum (stack.count + more) (by omega) with ⟨size, computed, value⟩
      have nothing : size.toNat = 0 := by
        rw [value, sum]
        omega
      refine Or.inr ?_
      rw [expand, if_pos grows, computed]
      simp only [bind, Except.bind]
      rw [nothing]
      rcases sound.block with null | ⟨old, live⟩
      · rw [null]
        refine ⟨_, _, rfl, Or.inr ⟨rfl, Or.inr ?_⟩⟩
        calc
          size.toNat = 0 := nothing
          _ < (stack.count + more).toNat := by omega
      · rw [live]
        exact ⟨_, _, rfl, Or.inl ⟨rfl, rfl, fun freed => by cases freed⟩⟩

/-! ## Safe expansions -/

/-- Either nothing changes and the error is returned, or the old count is
returned, which is not the error, the new count is the sum and at most the
maximum, and that many tokens are allocated. -/
def Safe (stack : RawStack) (more : UInt32) (result : Except Stop (UInt32 × RawStack)) : Prop :=
  ∃ index after, result = .ok (index, after) ∧
    ((index = stackError ∧ after.count = stack.count ∧ after.maximum = stack.maximum ∧
        after.jitsons = stack.jitsons) ∨
      (index = stack.count ∧ index ≠ stackError ∧ after.count.toNat = stack.count.toNat + more.toNat ∧
        after.count.toNat ≤ after.maximum.toNat ∧
        ∃ size bytes, after.jitsons = .live size bytes ∧ after.maximum.toNat ≤ size))

theorem safe_of_canGrow (sound : Sound stack) (some : 0 < more.toNat) (canGrow : CanGrow stack more.toNat) :
    Safe stack more (expand grant stack more) := by
  have sum := toNat_expanded canGrow.fits
  rcases expand_met grant sound canGrow with ⟨_, _, failed⟩ | ⟨_, maximum, bytes, expanded, known⟩
  · exact ⟨stackError, stack, failed, Or.inl ⟨rfl, rfl, rfl, rfl⟩⟩
  · refine ⟨stack.count, grown stack more maximum bytes, expanded, Or.inr ⟨rfl, ?_, sum, ?_, ?_⟩⟩
    · intro last
      have bound := canGrow.fits
      rw [last] at bound
      have error : stackError.toNat = 2 ^ 32 - 1 := rfl
      omega
    · exact Nat.le_trans (Nat.le_of_eq sum) known.room
    · exact ⟨maximum.toNat, bytes, rfl, Nat.le_refl _⟩

theorem canGrow_of_safe (sound : Sound stack) (some : 0 < more.toNat)
    (safe : ∀ answer, Safe stack more (expand answer stack more)) : CanGrow stack more.toNat := by
  apply Decidable.byContradiction
  intro cannot
  have changes : stack.count + more ≠ stack.count := by
    intro same
    have sum := UInt32.toNat_add stack.count more
    have small := more.toNat_lt
    have count := stack.count.toNat_lt
    rw [same] at sum
    omega
  rcases safe (Option.some fun _ => 0) with ⟨index, after, result, outcome⟩
  rcases expand_unmet sound some cannot fun _ => 0 with stopped | ⟨other, next, wrong, how⟩
  · rw [stopped] at result
    cases result
  · rw [wrong] at result
    cases result
    rcases how with ⟨isError, freed, live⟩ | ⟨counted, wrapped | noRoom⟩
    · rcases outcome with ⟨_, _, _, same⟩ | ⟨_, noError, _⟩
      · exact live (same ▸ freed)
      · exact noError isError
    · rcases outcome with ⟨_, same, _⟩ | ⟨_, _, sum, _⟩
      · exact changes (counted ▸ same)
      · omega
    · rcases outcome with ⟨_, same, _⟩ | ⟨_, _, _, room, _⟩
      · exact changes (counted ▸ same)
      · omega

end

/-! ## Runs -/

/-- What a program does with a stack.  It writes to tokens, and discards tokens
from an index on where it fails to add more. -/
inductive Call where
  | expand (grant : Option Memory) (more : UInt32)
  | getJitson (grant : Option Memory)
  | clear
  | lend
  | giveBack (iou : RawStack)
  | unwind (idx : UInt32)
  | put (idx : UInt32) (offset : Nat) (block : List UInt8)

inductive Answer where
  | index (index : UInt32)
  | jitson (jitson : Jitsons)
  | iou (iou : RawStack)
  | done

def step (stack : RawStack) : Call → Option (Answer × RawStack)
  | .expand grant more => (expand grant stack more).toOption.map fun (index, after) => (.index index, after)
  | .getJitson grant => (getJitson grant stack).toOption.map fun (jitson, after) => (.jitson jitson, after)
  | .clear => some (.done, stack.clear)
  | .lend => some (.iou stack, stack.lend)
  | .giveBack iou => (giveBack stack iou).toOption.map fun after => (.done, after)
  | .unwind idx => some (.done, stack.unwind idx)
  | .put idx offset block => (stack.put idx offset block).toOption.map fun after => (.done, after)

/-- Only an IOU that was made is given back, only tokens that are there are
discarded, and the stack is expanded where it can be. -/
def Legal (history : History Call Answer) (stack : RawStack) : Call → Prop
  | .expand _ more => CanGrow stack more.toNat
  | .giveBack iou => (Call.lend, Answer.iou iou) ∈ history
  | .unwind idx => idx.toNat ≤ stack.count.toNat
  | _ => True

section

variable {stack after : RawStack}

/-- A jitson that is got takes the tokens from the borrowed ones on, with a
copy if there are any. -/
theorem getJitson_ok {grant : Option Memory} {jitson : Jitsons}
    (got : getJitson grant stack = .ok (jitson, after)) :
    after = stack ∨ after = stack.clear ∨ after = { stack with count := 0, jitsons := .null } := by
  rw [getJitson] at got
  cases block : stack.jitsons with
  | null =>
      rw [block] at got
      cases got
  | freed =>
      rw [block] at got
      cases got
  | live size bytes =>
      rw [block] at got
      by_cases borrowed : stack.borrow ≠ 0
      · simp only [if_pos borrowed] at got
        by_cases grew : stack.borrow < stack.count
        · rw [if_neg (not_not.mpr grew)] at got
          cases grant with
          | none =>
              cases got
              exact Or.inl rfl
          | some fresh =>
              cases got
              refine Or.inr (Or.inl ?_)
              rw [clear, ← block]
        · rw [if_pos grew] at got
          cases got
      · simp only [if_neg borrowed] at got
        by_cases empty : stack.count = 0
        · rw [if_pos empty] at got
          cases got
        · rw [if_neg empty] at got
          rcases bind_ok got with ⟨⟨ret, jitsons⟩, _, rest⟩
          cases kept : ret.getD jitsons with
          | null =>
              simp only [kept] at rest
              cases rest
          | freed =>
              simp only [kept] at rest
              cases rest
          | live room held =>
              simp only [kept] at rest
              cases rest
              exact Or.inr (Or.inr rfl)

theorem put_ok {idx : UInt32} {offset : Nat} {block : List UInt8} (put : stack.put idx offset block = .ok after) :
    ∃ size bytes, stack.jitsons = .live size bytes ∧
      16 * idx.toNat + offset + block.length ≤ 16 * min size stack.count.toNat ∧
      after = { stack with jitsons := .live size (write bytes (16 * idx.toNat + offset) block) } := by
  rw [RawStack.put] at put
  cases held : stack.jitsons with
  | null =>
      rw [held] at put
      cases put
  | freed =>
      rw [held] at put
      cases put
  | live size bytes =>
      simp only [held] at put
      by_cases inside : 16 * idx.toNat + offset + block.length ≤ 16 * min size stack.count.toNat
      · rw [if_pos inside] at put
        cases put
        exact ⟨size, bytes, rfl, inside, rfl⟩
      · rw [if_neg inside] at put
        cases put

theorem Sound.put {idx : UInt32} {offset : Nat} {block : List UInt8} (sound : Sound stack)
    (put : stack.put idx offset block = .ok after) : Sound after := by
  rcases put_ok put with ⟨size, bytes, live, _, rfl⟩
  refine ⟨sound.count, sound.borrow, Or.inr ⟨write bytes (16 * idx.toNat + offset) block, ?_⟩⟩
  rcases sound.block with null | ⟨old, held⟩
  · rw [null] at live
    cases live
  · rw [held] at live
    cases live
    rfl

theorem Sound.expand {grant : Option Memory} {more index : UInt32} (sound : Sound stack)
    (canGrow : CanGrow stack more.toNat) (expanded : expand grant stack more = .ok (index, after)) :
    Sound after ∧ stack.maximum.toNat ≤ after.maximum.toNat := by
  have sum := toNat_expanded canGrow.fits
  rcases expand_met grant sound canGrow with ⟨_, _, failed⟩ | ⟨_, maximum, bytes, grew, known⟩
  · rw [failed] at expanded
    cases expanded
    exact ⟨sound, Nat.le_refl _⟩
  · rw [grew] at expanded
    cases expanded
    refine ⟨⟨?_, Nat.le_trans sound.borrow known.higher, Or.inr ⟨bytes, rfl⟩⟩, known.higher⟩
    exact Nat.le_trans (Nat.le_of_eq sum) known.room

end

/-- A stack is sound, and all IOUs are for tokens that it has room for. -/
structure Kept (history : History Call Answer) (stack : RawStack) : Prop where
  sound : Sound stack
  ious : ∀ iou, (Call.lend, Answer.iou iou) ∈ history → iou.borrow.toNat ≤ stack.maximum.toNat

/-- A new stack, or one for which there was no memory. -/
theorem make_sound (grant : Option Memory) (initSize : UInt32) : Sound (make grant initSize).2 := by
  refine ⟨Nat.zero_le _, Nat.zero_le _, ?_⟩
  cases grant with
  | none => exact Or.inl rfl
  | some fresh => exact Or.inr ⟨fresh, rfl⟩

section

variable {history : History Call Answer} {stack after : RawStack} {answer : Answer}

theorem Kept.next {call : Call} (kept : Kept history stack) (sound : Sound after)
    (higher : stack.maximum.toNat ≤ after.maximum.toNat) (noIou : call ≠ .lend) :
    Kept ((call, answer) :: history) after := by
  refine ⟨sound, fun iou member => ?_⟩
  rcases List.mem_cons.mp member with here | before
  · exact absurd (congrArg Prod.fst here).symm noIou
  · exact Nat.le_trans (kept.ious iou before) higher

theorem Kept.step (kept : Kept history stack) {call : Call} (legal : Legal history stack call)
    (stepped : step stack call = some (answer, after)) : Kept ((call, answer) :: history) after := by
  have sound := kept.sound
  cases call with
  | expand grant more =>
      rcases Option.map_eq_some_iff.mp stepped with ⟨⟨index, changed⟩, expanded, same⟩
      cases same
      have grew := sound.expand legal (of_toOption expanded)
      exact kept.next grew.1 grew.2 (by simp)
  | getJitson grant =>
      rcases Option.map_eq_some_iff.mp stepped with ⟨⟨jitson, changed⟩, got, same⟩
      cases same
      rcases getJitson_ok (of_toOption got) with rfl | rfl | rfl
      · exact kept.next sound (Nat.le_refl _) (by simp)
      · exact kept.next ⟨sound.borrow, sound.borrow, sound.block⟩ (Nat.le_refl _) (by simp)
      · exact kept.next ⟨Nat.zero_le _, sound.borrow, Or.inl rfl⟩ (Nat.le_refl _) (by simp)
  | clear =>
      cases stepped
      exact kept.next ⟨sound.borrow, sound.borrow, sound.block⟩ (Nat.le_refl _) (by simp)
  | lend =>
      cases stepped
      refine ⟨⟨sound.count, sound.count, sound.block⟩, fun iou member => ?_⟩
      rcases List.mem_cons.mp member with here | before
      · cases here
        exact sound.borrow
      · exact kept.ious iou before
  | giveBack iou =>
      rcases Option.map_eq_some_iff.mp stepped with ⟨changed, returned, same⟩
      cases same
      rw [giveBack] at returned
      by_cases differs : stack.borrow ≠ iou.count
      · rw [if_pos differs] at returned
        cases returned
      · rw [if_neg differs] at returned
        cases returned
        have count : iou.count.toNat ≤ stack.maximum.toNat := (not_not.mp differs) ▸ sound.borrow
        exact kept.next ⟨count, kept.ious iou legal, sound.block⟩ (Nat.le_refl _) (by simp)
  | unwind idx =>
      cases stepped
      exact kept.next ⟨Nat.le_trans legal sound.count, sound.borrow, sound.block⟩ (Nat.le_refl _) (by simp)
  | put idx offset block =>
      rcases Option.map_eq_some_iff.mp stepped with ⟨changed, written, same⟩
      cases same
      rcases put_ok (of_toOption written) with ⟨size, bytes, _, _, how⟩
      refine kept.next (sound.put (of_toOption written)) ?_ (by simp)
      rw [how]

/-- Every stack reached is sound: its count is at most its maximum, and it has
memory for that many tokens or none. -/
theorem reached_sound {grant : Option Memory} {initSize : UInt32}
    (reached : Run RawStack.step Legal (make grant initSize).2 history stack) : Sound stack := by
  have kept : Kept history stack := by
    refine reached.invariant Kept ⟨make_sound grant initSize, fun iou member => ?_⟩ ?_
    · exact absurd member List.not_mem_nil
    · intro history stack call answer next kept legal stepped
      exact kept.step legal stepped
  exact kept.sound

/-- In every state reached by expanding only where the stack can be expanded,
an expansion is safe exactly where it can be expanded again. -/
theorem expand_safe {grant : Option Memory} {initSize more : UInt32}
    (reached : Run RawStack.step Legal (make grant initSize).2 history stack) (some : 1 ≤ more) :
    (∀ answer, Safe stack more (expand answer stack more)) ↔ CanGrow stack more.toNat := by
  have sound := reached_sound reached
  have positive : 0 < more.toNat := UInt32.le_iff_toNat_le.mp some
  exact ⟨canGrow_of_safe sound positive, fun canGrow answer => safe_of_canGrow answer sound positive canGrow⟩

/-- A stack of eight tokens, of which five are used and borrowed, can take four
more. -/
theorem expand_safe_nine :
    (∀ answer, Safe ⟨8, 5, 5, .live 8 fun _ => 0⟩ 4 (expand answer ⟨8, 5, 5, .live 8 fun _ => 0⟩ 4)) ↔
      CanGrow ⟨8, 5, 5, .live 8 fun _ => 0⟩ 4 := by
  have first : Legal [] (make (Option.some fun _ => 0) 8).2 (.expand none 5) := Or.inl (by decide)
  have used : Run RawStack.step Legal (make (Option.some fun _ => 0) 8).2 [(.expand none 5, .index 0)]
      ⟨8, 5, 0, .live 8 fun _ => 0⟩ := Run.step Run.start first rfl
  have borrowed : Run RawStack.step Legal (make (Option.some fun _ => 0) 8).2
      [(.lend, .iou ⟨8, 5, 0, .live 8 fun _ => 0⟩), (.expand none 5, .index 0)] ⟨8, 5, 5, .live 8 fun _ => 0⟩ :=
    Run.step used trivial rfl
  exact expand_safe borrowed (by decide)

/-- The stack made for no tokens is divided by its maximum, and a count that
wraps leaves less tokens than there were. -/
theorem expand_unsafe :
    ¬ Safe (make (some fun _ => 0) 0).2 1 (expand (some fun _ => 0) (make (some fun _ => 0) 0).2 1) ∧
      ¬ Safe ⟨1, 1, 0, .live 1 fun _ => 0⟩ 0xFFFFFFFF (expand none ⟨1, 1, 0, .live 1 fun _ => 0⟩ 0xFFFFFFFF) := by
  constructor
  · rintro ⟨index, after, result, _⟩
    cases result
  · rintro ⟨index, after, result, outcome⟩
    cases result
    rcases outcome with ⟨isError, _⟩ | ⟨_, _, sum, _⟩
    · exact absurd isError (by decide)
    · exact absurd sum (by decide)

end

/-! ## The stack of tokens -/

/-- A stack in words stands for a stack of tokens. -/
structure StandsFor (raw : RawStack) (stack : Stack) : Prop where
  maximum : stack.maximum = raw.maximum.toNat
  count : stack.count = raw.count.toNat
  allocated : stack.allocated = false ↔ raw.jitsons = .null

section

variable {raw : RawStack} {stack : Stack} {more : UInt32} {grant : Option Memory} {env : Env}

/-- The expansion that the model without words calls undefined is that of a
stack that cannot be expanded. -/
theorem expand_undefined (stands : StandsFor raw stack) (cannot : ¬ CanGrow raw more.toNat) :
    Stack.expand env stack more.toNat = .error ⟨.undefined, stack⟩ := by
  have maximum := stands.maximum
  have count := stands.count
  have tooMany : raw.maximum.toNat < raw.count.toNat + more.toNat := Nat.lt_of_not_le fun room => cannot (Or.inl room)
  unfold Stack.expand
  rw [count]
  by_cases wraps : 2 ^ 32 ≤ raw.count.toNat + more.toNat
  · exact if_pos wraps
  · rw [if_neg wraps]
    have grows : raw.count.toNat + more.toNat > stack.maximum := maximum ▸ tooMany
    have noRoom : stack.newMaximum (raw.count.toNat + more.toNat) < raw.count.toNat + more.toNat := by
      unfold Stack.newMaximum
      rw [maximum]
      by_cases small : raw.count.toNat + more.toNat < 4096
      · have zero : raw.maximum.toNat = 0 := by
          apply Decidable.byContradiction
          intro positive
          refine cannot (Or.inr ⟨by omega, fun zero => absurd (congrArg UInt32.toNat zero) positive⟩)
        rw [if_pos small, zero, Nat.mul_zero]
        omega
      · have high : 2 ^ 32 - 4096 < raw.count.toNat + more.toNat := by
          apply Nat.lt_of_not_le
          intro below
          exact cannot (Or.inr ⟨below, fun _ => by omega⟩)
        rw [if_neg small]
        omega
    rw [if_pos grows]
    exact if_pos noRoom

/-- An expansion of a stack that can be expanded is that of the model without
words, with memory and without. -/
theorem expand_simulates (stands : StandsFor raw stack) (sound : Sound raw)
    (canGrow : CanGrow raw more.toNat) (memory : ∀ tokens, env.alloc tokens = grant.isSome) :
    expand grant raw more = .ok (stackError, raw) ∧ Stack.expand env stack more.toNat = .error ⟨.memory, stack⟩ ∨
      ∃ after larger, expand grant raw more = .ok (raw.count, after) ∧
        Stack.expand env stack more.toNat = .ok larger ∧ StandsFor after larger := by
  have maximum := stands.maximum
  have count := stands.count
  have sum := toNat_expanded canGrow.fits
  have compare : stack.count + more.toNat > stack.maximum ↔ raw.maximum < raw.count + more := by
    rewrite [maximum, count, UInt32.lt_iff_toNat_lt, sum]
    exact Iff.rfl
  have noWrap : ¬ stack.count + more.toNat ≥ 2 ^ 32 := by
    rw [count]
    exact Nat.not_le_of_gt canGrow.fits
  rcases expand_met grant sound canGrow with ⟨noMemory, needs, failed⟩ | ⟨granted, size, bytes, expanded, known⟩
  · refine Or.inl ⟨failed, ?_⟩
    have refused : ∀ tokens, ¬ env.alloc tokens = true := by
      intro tokens
      rw [memory, noMemory]
      exact Bool.false_ne_true
    unfold Stack.expand
    rw [if_neg noWrap]
    by_cases grows : raw.maximum < raw.count + more
    · rcases newMaximum_fits canGrow (sum ▸ UInt32.lt_iff_toNat_lt.mp grows) with ⟨size, computed, room⟩
      have value := newMaximum_value (UInt32.lt_iff_toNat_lt.mp grows) computed
      have size_eq : stack.newMaximum (stack.count + more.toNat) = size.toNat := by
        rw [value, sum, Stack.newMaximum, count, maximum]
      have enough : ¬ stack.newMaximum (stack.count + more.toNat) < stack.count + more.toNat := by omega
      rw [if_pos (compare.mpr grows), if_neg enough, if_neg (refused _)]
    · have null := needs.resolve_left grows
      have notAllocated : ¬ (stack.allocated = true ∨ env.alloc stack.maximum = true) := by
        rintro (allocated | given)
        · rw [stands.allocated.mpr null] at allocated
          cases allocated
        · exact refused _ given
      rw [if_neg fun more => grows (compare.mp more), if_neg notAllocated]
  · let larger : Stack := { stack with
      maximum := size.toNat, jitsons := stack.jitsons ++ List.replicate more.toNat Token.more, allocated := true }
    have holds : StandsFor (grown raw more size bytes) larger := by
      refine ⟨rfl, ?_, ?_⟩
      · calc
          larger.count = stack.count + more.toNat := by simp [larger, Stack.count]
          _ = (raw.count + more).toNat := by rw [count, sum]
      · constructor
        · intro allocated
          cases allocated
        · intro null
          cases null
    refine Or.inr ⟨grown raw more size bytes, larger, expanded, ?_, holds⟩
    have resized := known.resized
    unfold Stack.expand
    rw [if_neg noWrap]
    by_cases grows : raw.maximum < raw.count + more
    · rw [if_pos grows] at resized
      have value := newMaximum_value (UInt32.lt_iff_toNat_lt.mp grows) resized
      have size_eq : stack.newMaximum (stack.count + more.toNat) = size.toNat := by
        rw [value, sum, Stack.newMaximum, count, maximum]
      have room := known.room
      have enough : ¬ stack.newMaximum (stack.count + more.toNat) < stack.count + more.toNat := by omega
      have given : env.alloc (stack.newMaximum (stack.count + more.toNat)) = true :=
        (memory _).trans (granted (Or.inl grows))
      rw [if_pos (compare.mpr grows), if_neg enough, if_pos given, size_eq]
    · rw [if_neg grows] at resized
      have unchanged : stack.maximum = size.toNat := by rw [maximum, resized]
      have ready : stack.allocated = true ∨ env.alloc stack.maximum = true := by
        by_cases null : raw.jitsons = .null
        · exact Or.inr ((memory _).trans (granted (Or.inr null)))
        · refine Or.inl ?_
          cases allocated : stack.allocated with
          | true => rfl
          | false => exact absurd (stands.allocated.mp allocated) null
      rw [if_neg fun more => grows (compare.mp more), if_pos ready, unchanged]

end

end RawStack

end Jitson
end LibKit
