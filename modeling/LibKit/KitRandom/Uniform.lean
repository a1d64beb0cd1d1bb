import LibKit.KitRandom.Model
import Mathlib.Data.Nat.Count
import Mathlib.Data.Nat.Periodic

namespace LibKit
namespace KitRandom

/-!
# Fair numbers below a bound

A number of 32 bits is taken modulo the bound, but the first few numbers are
skipped, as many as the number of all words leaves over when it is divided by
the bound.  Every value below the bound then comes from equally many words, and
more than half of the words are used.
-/

/-! ## The words that are skipped -/

theorem rejected_toNat {bound : Word} (positive : 0 < bound.toNat) : (rejected bound).toNat = 2 ^ 32 % bound.toNat := by
  have small := bound.isLt
  have negated : (0 - bound).toNat = 2 ^ 32 - bound.toNat := by
    rw [BitVec.toNat_sub]
    change (2 ^ 32 - bound.toNat + 0) % 2 ^ 32 = 2 ^ 32 - bound.toNat
    rw [Nat.add_zero]
    exact Nat.mod_eq_of_lt (by omega)
  rw [rejected, BitVec.toNat_umod, negated]
  exact (Nat.mod_eq_sub_mod (Nat.le_of_lt small)).symm

theorem rejected_lt {bound : Word} (positive : 0 < bound.toNat) : 2 * (rejected bound).toNat < 2 ^ 32 := by
  have small := bound.isLt
  have remainder := Nat.mod_lt (2 ^ 32) positive
  rw [rejected_toNat positive]
  by_cases large : 2 ^ 31 < bound.toNat
  · have once : 2 ^ 32 % bound.toNat = 2 ^ 32 - bound.toNat := by
      rw [Nat.mod_eq_sub_mod (Nat.le_of_lt small)]
      exact Nat.mod_eq_of_lt (by omega)
    omega
  · omega

/-! ## How many words give a value -/

theorem count_residue {divisor value : Nat} (small : value < divisor) (rounds : Nat) :
    Nat.count (fun number => number % divisor = value) (rounds * divisor) = rounds := by
  have one : Nat.count (fun number => number % divisor = value) divisor = 1 := by
    have same : ∀ number, number < divisor → (number % divisor = value ↔ number = value) := by
      intro number inside
      rw [Nat.mod_eq_of_lt inside]
    rw [Nat.count_eq_card_filter_range]
    have single : (Finset.range divisor).filter (fun number => number % divisor = value) = {value} := by
      ext number
      rw [Finset.mem_filter, Finset.mem_range, Finset.mem_singleton]
      constructor
      · rintro ⟨inside, found⟩
        exact (same number inside).mp found
      · intro here
        subst here
        exact ⟨small, Nat.mod_eq_of_lt small⟩
    rw [single, Finset.card_singleton]
  induction rounds with
  | zero => rw [Nat.zero_mul, Nat.count_zero]
  | succ rounds ih =>
      have shifted : Nat.count (fun number => (rounds * divisor + number) % divisor = value) divisor = 1 := by
        simp only [Nat.mul_add_mod_self_right]
        exact one
      rw [Nat.succ_mul, Nat.count_add, ih, shifted]

theorem card_residue {divisor value : Nat} (small : value < divisor) (low rounds : Nat) :
    ((Finset.Ico low (low + rounds * divisor)).filter fun number => number % divisor = value).card = rounds := by
  have periodic : Function.Periodic (fun number => number % divisor = value) (rounds * divisor) := by
    intro number
    change ((number + rounds * divisor) % divisor = value) = (number % divisor = value)
    rw [Nat.add_mul_mod_self_right]
  rw [Nat.filter_Ico_card_eq_of_periodic low (rounds * divisor) _ periodic, count_residue small]

theorem card_used {bound value : Word} (below : value < bound) :
    ((Finset.range (2 ^ 32)).filter fun number =>
      ¬BitVec.ofNat 32 number < rejected bound ∧ BitVec.ofNat 32 number % bound = value).card =
        2 ^ 32 / bound.toNat := by
  have small : value.toNat < bound.toNat := BitVec.lt_def.mp below
  have positive : 0 < bound.toNat := Nat.zero_lt_of_lt small
  have all : 2 ^ 32 = 2 ^ 32 % bound.toNat + 2 ^ 32 / bound.toNat * bound.toNat := by
    rw [Nat.mul_comm]
    exact (Nat.mod_add_div _ _).symm
  have used : (Finset.range (2 ^ 32)).filter (fun number =>
        ¬BitVec.ofNat 32 number < rejected bound ∧ BitVec.ofNat 32 number % bound = value) =
      (Finset.Ico (2 ^ 32 % bound.toNat) (2 ^ 32 % bound.toNat + 2 ^ 32 / bound.toNat * bound.toNat)).filter
        fun number => number % bound.toNat = value.toNat := by
    ext number
    rw [← all, Finset.mem_filter, Finset.mem_filter, Finset.mem_range, Finset.mem_Ico, BitVec.lt_def,
      rejected_toNat positive,
      ← BitVec.toNat_inj, BitVec.toNat_umod, BitVec.toNat_ofNat]
    constructor
    · rintro ⟨inside, late, residue⟩
      rw [Nat.mod_eq_of_lt inside] at late residue
      exact ⟨⟨Nat.le_of_not_lt late, inside⟩, residue⟩
    · rintro ⟨⟨late, inside⟩, residue⟩
      rw [Nat.mod_eq_of_lt inside]
      exact ⟨inside, Nat.not_lt.mpr late, residue⟩
  rw [used, card_residue small]

/-! ## The loop -/

/-- Some numbers of the generator, one after the other. -/
def words : Nat → Generator → Option (List Word × Generator)
  | 0, g => some ([], g)
  | count + 1, g =>
      (arc4random g).bind fun first => (words count first.2).map fun rest => (first.1 :: rest.1, rest.2)

/-- The loop skips the words that are rejected and ends with the first one that is not. -/
theorem uniformLoop_some {bound value : Word} {fuel : Nat} {g later : Generator}
    (found : uniformLoop bound fuel g = some (value, later)) :
    ∃ skipped last, words (skipped.length + 1) g = some (skipped ++ [last], later) ∧
      (∀ word ∈ skipped, word < rejected bound) ∧ ¬last < rejected bound ∧ value = last % bound := by
  induction fuel generalizing g with
  | zero => cases found
  | succ fuel ih =>
      rw [uniformLoop] at found
      cases drawn : arc4random g with
      | none =>
          rw [drawn] at found
          cases found
      | some answer =>
          rw [drawn] at found
          dsimp only at found
          by_cases low : answer.1 < rejected bound
          · rw [if_pos low] at found
            rcases ih found with ⟨skipped, last, read, early, late, same⟩
            refine ⟨answer.1 :: skipped, last, ?_, ?_, late, same⟩
            · rw [List.length_cons, words, drawn, Option.bind_some, read, Option.map_some, List.cons_append]
            · intro word inside
              rcases List.mem_cons.mp inside with here | rest
              · rw [here]
                exact low
              · exact early word rest
          · rw [if_neg low] at found
            injection found with both
            injection both with residue state
            refine ⟨[], answer.1, ?_, ?_, low, residue.symm⟩
            · rw [List.length_nil, words, drawn, Option.bind_some, words, Option.map_some, state, List.nil_append]
            · intro word inside
              cases inside

/-- Once the generator gives a word that is used, the loop ends with it. -/
theorem uniformLoop_words {bound last : Word} {skipped : List Word} {fuel : Nat} {g later : Generator}
    (read : words (skipped.length + 1) g = some (skipped ++ [last], later))
    (early : ∀ word ∈ skipped, word < rejected bound) (late : ¬last < rejected bound)
    (enough : skipped.length < fuel) :
    uniformLoop bound fuel g = some (last % bound, later) := by
  induction skipped generalizing fuel g with
  | nil =>
      cases fuel with
      | zero => cases enough
      | succ fuel =>
          rw [List.length_nil, words] at read
          rcases Option.bind_eq_some_iff.mp read with ⟨answer, drawn, rest⟩
          cases rest
          rw [uniformLoop, drawn]
          exact if_neg late
  | cons word skipped ih =>
      cases fuel with
      | zero => cases enough
      | succ fuel =>
          rw [List.length_cons, words] at read
          rcases Option.bind_eq_some_iff.mp read with ⟨answer, drawn, rest⟩
          rcases Option.map_eq_some_iff.mp rest with ⟨others, further, same⟩
          rw [List.cons_append, Prod.mk.injEq, List.cons.injEq] at same
          rcases same with ⟨⟨here, there⟩, state⟩
          rw [List.forall_mem_cons] at early
          rw [uniformLoop, drawn]
          dsimp only
          rw [here, if_pos early.1]
          exact ih (by rw [further, ← there, ← state]) early.2 (Nat.lt_of_succ_lt_succ enough)

/-- The words that the generator gives are skipped up to the first one that is used, and its
residue is the number, which is below the bound.  Each value comes from equally many of the words
that are used, and more than half of the words are used. -/
theorem uniform_fair {bound : Word} (valid : 2 ≤ bound) :
    (∀ g skipped last later, words (skipped.length + 1) g = some (skipped ++ [last], later) →
      (∀ word ∈ skipped, word < rejected bound) → ¬last < rejected bound →
      last % bound < bound ∧ ∀ fuel, skipped.length < fuel → uniform bound fuel g = some (last % bound, later)) ∧
      (∀ fuel g value later, uniform bound fuel g = some (value, later) →
        ∃ skipped last, words (skipped.length + 1) g = some (skipped ++ [last], later) ∧
          (∀ word ∈ skipped, word < rejected bound) ∧ ¬last < rejected bound ∧ value = last % bound) ∧
      (∀ value < bound, ((Finset.range (2 ^ 32)).filter fun number =>
        ¬BitVec.ofNat 32 number < rejected bound ∧ BitVec.ofNat 32 number % bound = value).card =
          2 ^ 32 / bound.toNat) ∧
      2 * (rejected bound).toNat < 2 ^ 32 := by
  have positive : 0 < bound.toNat := by
    have two := BitVec.le_def.mp valid
    change 2 ≤ bound.toNat at two
    omega
  refine ⟨?_, ?_, fun value below => card_used below, rejected_lt positive⟩
  · intro g skipped last later read early late
    refine ⟨?_, ?_⟩
    · rw [BitVec.lt_def, BitVec.toNat_umod]
      exact Nat.mod_lt _ positive
    · intro fuel enough
      rw [uniform, if_pos valid]
      exact uniformLoop_words read early late enough
  · intro fuel g value later found
    rw [uniform, if_pos valid] at found
    exact uniformLoop_some found

/-- A thread whose first three words are skipped for the bound `2 ^ 31 + 1`. -/
theorem uniform_fair_skips :
    let ready := { fresh [] with
      rsInitialized := true, rs := rsInit (Vector.replicate 16 0) (List.replicate 40 5), rsCount := 1600000 }
    ∃ later, ∀ fuel, 3 < fuel → uniform 2147483649 fuel ready = some (411470974, later) := by
  intro ready
  have drawn : (words 4 ready).map Prod.fst = some [1183183360, 1412795496, 590280995, 2558954623] := by decide +kernel
  rcases Option.map_eq_some_iff.mp drawn with ⟨⟨_, later⟩, read, same⟩
  cases same
  have low : [1183183360, 1412795496, 590280995].all (fun word : Word => decide (word < rejected 2147483649)) =
    true := by
    decide +kernel
  have skips := (@uniform_fair 2147483649 (by decide)).1 ready [1183183360, 1412795496, 590280995] 2558954623 later read
    (fun word inside => of_decide_eq_true (List.all_eq_true.mp low word inside)) (by decide)
  exact ⟨later, skips.2⟩

end KitRandom
end LibKit
