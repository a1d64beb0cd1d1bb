import Mathlib

namespace LibKit
namespace Halving

/-!
# Giving away every second one

Of the numbers with a property, every second one is given away, beginning with
the one of rank 1.  What is kept and what is given away are the halves of all,
and the rank of a number in its half is half of its rank.
-/

variable {p : Nat → Prop} [DecidablePred p]

theorem count_congr {q : Nat → Prop} [DecidablePred q] {n : Nat} (same : ∀ k < n, p k ↔ q k) :
    Nat.count p n = Nat.count q n :=
  Nat.le_antisymm (Nat.count_mono_left fun k bound => (same k bound).mp) (Nat.count_mono_left fun k bound =>
    (same k bound).mpr)

theorem count_even (n : Nat) : Nat.count (fun k => p k ∧ Nat.count p k % 2 = 0) n = (Nat.count p n + 1) / 2 := by
  induction n with
  | zero => simp
  | succ n ih =>
      rw [Nat.count_succ, Nat.count_succ, ih]
      by_cases has : p n
      · simp only [has, true_and, if_true]
        split <;> omega
      · simp only [has, false_and, if_false, Nat.add_zero]

theorem count_odd (n : Nat) : Nat.count (fun k => p k ∧ Nat.count p k % 2 = 1) n = Nat.count p n / 2 := by
  induction n with
  | zero => simp
  | succ n ih =>
      rw [Nat.count_succ, Nat.count_succ, ih]
      by_cases has : p n
      · simp only [has, true_and, if_true]
        split <;> omega
      · simp only [has, false_and, if_false, Nat.add_zero]

def half (rank total : Nat) : Nat := if rank % 2 = 0 then (total + 1) / 2 else total / 2

/-- After so many halvings, one that had a rank is left alone. -/
def Alone (halvings rank total : Nat) : Prop := rank < 2 ^ halvings ∧ total ≤ rank + 2 ^ halvings

theorem alone_zero {rank total : Nat} (inside : rank < total) : Alone 0 rank total ↔ total ≤ 1 := by
  rw [Alone, pow_zero]
  omega

theorem alone_succ (halvings rank total : Nat) :
    Alone (halvings + 1) rank total ↔ Alone halvings (rank / 2) (half rank total) := by
  rw [Alone, Alone, half, pow_succ]
  split <;> omega

/-- Two that are together after some halvings were together after the first. -/
theorem together_succ (halvings first second : Nat) :
    first % 2 ^ (halvings + 1) = second % 2 ^ (halvings + 1) ↔
      first % 2 = second % 2 ∧ first / 2 % 2 ^ halvings = second / 2 % 2 ^ halvings := by
  rw [pow_succ', Nat.mod_mul, Nat.mod_mul]
  generalize first / 2 % 2 ^ halvings = left
  generalize second / 2 % 2 ^ halvings = right
  omega

end Halving
end LibKit
