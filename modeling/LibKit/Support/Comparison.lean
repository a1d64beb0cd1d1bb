import Mathlib.Data.List.Forall2
import Mathlib.Data.List.Lex
import Mathlib.Tactic.SplitIfs

namespace LibKit
namespace Comparison

/-!
# Comparisons that return integers

A comparison is negative, zero or positive, as in C, and one positive number
stands for values that cannot be compared.  Lists are compared element by
element up to the first result that is not zero, so that a pair which cannot be
compared only counts if it is reached.
-/

variable {α β : Type}

/-- The comparison of the same two values the other way round. -/
def swapped (bad cmp : Int) : Int := if cmp = bad then bad else -cmp

/-- What the comparisons of three values have to do with each other in an
order. -/
def Chains (first second both : Int) : Prop :=
  first ≤ 0 → second ≤ 0 → both ≤ 0 ∧ (both = 0 ↔ first = 0 ∧ second = 0)

/-- A result that puts lists of numbers in order, whatever comes behind them. -/
structure Decides (cmp : Int) (first second : List Nat) : Prop where
  same : cmp = 0 → first = second
  below : cmp < 0 → ∀ more others, first ++ more < second ++ others
  above : 0 < cmp → ∀ more others, second ++ others < first ++ more

theorem swapped_eq_zero_iff {bad cmp : Int} (positive : 0 < bad) : swapped bad cmp = 0 ↔ cmp = 0 := by
  unfold swapped
  split_ifs with fails
  · omega
  · omega

theorem Decides.cons {cmp : Int} {first second : List Nat} (decides : Decides cmp first second) (head : Nat) :
    Decides cmp (head :: first) (head :: second) := by
  refine ⟨?_, ?_, ?_⟩
  · intro zero
    rw [decides.same zero]
  · intro negative more others
    exact List.cons_lt_cons_self.mpr (decides.below negative more others)
  · intro positive more others
    exact List.cons_lt_cons_self.mpr (decides.above positive more others)

/-- Once a result is not zero, what comes behind does not matter. -/
theorem Decides.extend {cmp : Int} {first second : List Nat} (decides : Decides cmp first second) (differ : cmp ≠ 0)
    (firsts seconds : List Nat) : Decides cmp (first ++ firsts) (second ++ seconds) := by
  refine ⟨fun zero => absurd zero differ, ?_, ?_⟩
  · intro negative more others
    rw [List.append_assoc, List.append_assoc]
    exact decides.below negative (firsts ++ more) (seconds ++ others)
  · intro positive more others
    rw [List.append_assoc, List.append_assoc]
    exact decides.above positive (firsts ++ more) (seconds ++ others)

theorem decides_of_lt {first second : List Nat} (less : ∀ more others, first ++ more < second ++ others) :
    Decides (-1) first second :=
  ⟨fun zero => absurd zero (by decide), fun _ => less, fun positive => absurd positive (by decide)⟩

theorem decides_of_gt {first second : List Nat} (greater : ∀ more others, second ++ others < first ++ more) :
    Decides 1 first second :=
  ⟨fun zero => absurd zero (by decide), fun negative => absurd negative (by decide), fun _ => greater⟩

theorem decides_same (list : List Nat) : Decides 0 list list :=
  ⟨fun _ => rfl, fun negative => absurd negative (by decide), fun positive => absurd positive (by decide)⟩

theorem Decides.append {cmp : Int} {first second : List Nat} (decides : Decides cmp first second) (front : List Nat) :
    Decides cmp (front ++ first) (front ++ second) := by
  induction front with
  | nil => exact decides
  | cons head front ih => exact ih.cons head

/-! ## Numbers -/

def ordered (left right : Nat) : Int := if left < right then -1 else if left = right then 0 else 1

theorem ordered_self (value : Nat) : ordered value value = 0 := by
  unfold ordered
  rw [if_neg (Nat.lt_irrefl value), if_pos rfl]

theorem ordered_eq_zero_iff {left right : Nat} : ordered left right = 0 ↔ left = right := by
  unfold ordered
  split_ifs with less same
  · exact ⟨fun zero => absurd zero (by decide), fun same => absurd same (Nat.ne_of_lt less)⟩
  · exact ⟨fun _ => same, fun _ => rfl⟩
  · exact ⟨fun zero => absurd zero (by decide), fun equal => absurd equal same⟩

theorem ordered_ne {bad : Int} (large : 1 < bad) (left right : Nat) : ordered left right ≠ bad := by
  unfold ordered
  split_ifs with less same
  · omega
  · omega
  · omega

theorem ordered_swapped {bad : Int} (large : 1 < bad) (left right : Nat) :
    ordered right left = swapped bad (ordered left right) := by
  rw [swapped, if_neg (ordered_ne large left right)]
  unfold ordered
  split_ifs with less same greater
  · omega
  · omega
  · omega
  · omega
  · omega
  · omega
  · omega
  · omega
  · omega

theorem ordered_chains (first second third : Nat) :
    Chains (ordered first second) (ordered second third) (ordered first third) := by
  intro before behind
  unfold ordered at *
  split_ifs at * <;> simp at * <;> omega

theorem ordered_decides (left right : Nat) : Decides (ordered left right) [left] [right] := by
  unfold ordered
  split_ifs with less same
  · exact decides_of_lt fun more others => List.cons_lt_cons_iff.mpr (Or.inl less)
  · rw [same]
    exact decides_same [right]
  · exact decides_of_gt fun more others => List.cons_lt_cons_iff.mpr (Or.inl (by omega))

/-! ## Lists -/

/-- Lists compared element by element, where a list is before those that it
starts. -/
def lexicographic (cmp : α → β → Int) : List α → List β → Int
  | [], [] => 0
  | [], _ :: _ => -1
  | _ :: _, [] => 1
  | left :: lefts, right :: rights => if cmp left right ≠ 0 then cmp left right else lexicographic cmp lefts rights

theorem lexicographic_eq_zero_iff {cmp : α → β → Int} {lefts : List α} {rights : List β} :
    lexicographic cmp lefts rights = 0 ↔ List.Forall₂ (fun left right => cmp left right = 0) lefts rights := by
  induction lefts generalizing rights with
  | nil =>
      cases rights with
      | nil => exact ⟨fun _ => .nil, fun _ => rfl⟩
      | cons right rights =>
          refine ⟨fun zero => ?_, fun all => by cases all⟩
          cases zero
  | cons left lefts ih =>
      cases rights with
      | nil =>
          refine ⟨fun zero => ?_, fun all => by cases all⟩
          cases zero
      | cons right rights =>
          rw [lexicographic, List.forall₂_cons, ← ih]
          split_ifs with differ
          · exact ⟨fun zero => absurd zero differ, fun both => absurd both.1 differ⟩
          · exact ⟨fun zero => ⟨not_not.mp differ, zero⟩, fun both => both.2⟩

theorem lexicographic_self {cmp : α → α → Int} {list : List α} (each : ∀ element ∈ list, cmp element element = 0) :
    lexicographic cmp list list = 0 := by
  rw [lexicographic_eq_zero_iff, List.forall₂_same]
  exact each

theorem lexicographic_swapped {cmp : α → β → Int} {other : β → α → Int} {bad : Int} (large : 1 < bad) {lefts : List α}
    {rights : List β} (each : ∀ left ∈ lefts, ∀ right ∈ rights, other right left = swapped bad (cmp left right)) :
    lexicographic other rights lefts = swapped bad (lexicographic cmp lefts rights) := by
  have zero : swapped bad 0 = 0 := (swapped_eq_zero_iff (by omega)).mpr rfl
  have one : swapped bad 1 = -1 := if_neg (by omega)
  have minus : swapped bad (-1) = 1 := if_neg (by omega)
  induction lefts generalizing rights with
  | nil =>
      cases rights with
      | nil => exact zero.symm
      | cons right rights => exact minus.symm
  | cons left lefts ih =>
      cases rights with
      | nil => exact one.symm
      | cons right rights =>
          have first := each left List.mem_cons_self right List.mem_cons_self
          rw [lexicographic, lexicographic, first]
          by_cases same : cmp left right = 0
          · rw [same, zero, if_neg (not_not.mpr rfl), if_neg (not_not.mpr rfl)]
            apply ih
            intro left isLeft right isRight
            exact each left (List.mem_cons_of_mem _ isLeft) right (List.mem_cons_of_mem _ isRight)
          · have differ := mt (swapped_eq_zero_iff (show (0 : Int) < bad by omega)).mp same
            rw [if_pos differ, if_pos same]

/-- Lists are in order if their elements are. -/
theorem lexicographic_chains {γ : Type} {cmp : α → β → Int} {next : β → γ → Int} {both : α → γ → Int} {firsts : List α}
    {seconds : List β} {thirds : List γ}
    (each : ∀ first ∈ firsts, ∀ second ∈ seconds, ∀ third ∈ thirds,
      Chains (cmp first second) (next second third) (both first third)) :
    Chains (lexicographic cmp firsts seconds) (lexicographic next seconds thirds)
      (lexicographic both firsts thirds) := by
  induction firsts generalizing seconds thirds with
  | nil =>
      intro before behind
      cases thirds with
      | nil =>
          cases seconds with
          | nil => exact ⟨Int.le_refl 0, fun _ => ⟨rfl, rfl⟩, fun _ => rfl⟩
          | cons second seconds => exact absurd behind (by rw [lexicographic]; omega)
      | cons third thirds =>
          refine ⟨by rw [lexicographic]; omega, (fun zero => by cases zero), ?_⟩
          intro zeros
          cases seconds with
          | nil => cases zeros.2
          | cons second seconds => cases zeros.1
  | cons first firsts ih =>
      intro before behind
      cases seconds with
      | nil => exact absurd before (by rw [lexicographic]; omega)
      | cons second seconds =>
          cases thirds with
          | nil => exact absurd behind (by rw [lexicographic]; omega)
          | cons third thirds =>
              have heads := each first List.mem_cons_self second List.mem_cons_self third List.mem_cons_self
              have tails := @ih seconds thirds fun first isFirst second isSecond third isThird =>
                each first (List.mem_cons_of_mem _ isFirst) second (List.mem_cons_of_mem _ isSecond) third
                  (List.mem_cons_of_mem _ isThird)
              rw [lexicographic] at before behind ⊢
              unfold Chains at heads tails
              rw [lexicographic, lexicographic]
              split_ifs at before behind ⊢ <;> grind

/-- The codes of elements, with a zero behind the last.  No code begins with
zero, so that a list is before those that it starts. -/
def codes (code : α → List Nat) : List α → List Nat
  | [] => [0]
  | element :: list => code element ++ codes code list

theorem lexicographic_decides {cmp : α → β → Int} {code : α → List Nat} {code' : β → List Nat} {bad : Int}
    (positive : 0 < bad)
    {lefts : List α} {rights : List β} (first : ∀ left ∈ lefts, ∃ head rest, code left = head :: rest ∧ 0 < head)
    (second : ∀ right ∈ rights, ∃ head rest, code' right = head :: rest ∧ 0 < head)
    (each : ∀ left ∈ lefts, ∀ right ∈ rights, cmp left right ≠ bad → Decides (cmp left right) (code left) (code' right))
    (compared : lexicographic cmp lefts rights ≠ bad) :
    Decides (lexicographic cmp lefts rights) (codes code lefts) (codes code' rights) := by
  induction lefts generalizing rights with
  | nil =>
      cases rights with
      | nil => exact decides_same [0]
      | cons right rights =>
          rcases second right List.mem_cons_self with ⟨head, rest, isCode, positive⟩
          apply decides_of_lt
          intro more others
          rw [codes, codes, isCode]
          exact List.cons_lt_cons_iff.mpr (Or.inl positive)
  | cons left lefts ih =>
      cases rights with
      | nil =>
          rcases first left List.mem_cons_self with ⟨head, rest, isCode, positive⟩
          apply decides_of_gt
          intro more others
          rw [codes, codes, isCode]
          exact List.cons_lt_cons_iff.mpr (Or.inl positive)
      | cons right rights =>
          have heads := each left List.mem_cons_self right List.mem_cons_self
          rw [lexicographic] at compared ⊢
          rw [codes, codes]
          by_cases same : cmp left right = 0
          · rw [if_neg (not_not.mpr same)] at compared ⊢
            rw [(heads (by omega)).same same]
            apply Decides.append
            apply ih
            · exact fun left isLeft => first left (List.mem_cons_of_mem _ isLeft)
            · exact fun right isRight => second right (List.mem_cons_of_mem _ isRight)
            · exact fun left isLeft right isRight => each left (List.mem_cons_of_mem _ isLeft) right
                (List.mem_cons_of_mem _ isRight)
            · exact compared
          · rw [if_pos same] at compared ⊢
            exact (heads compared).extend same _ _

end Comparison
end LibKit
