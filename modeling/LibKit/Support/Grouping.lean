import Mathlib.Data.List.Perm.Basic

namespace LibKit
namespace Grouping

/-!
# Lists in the order of a key

The elements of a list group by group, for keys from zero to a bound, where the
elements with the same key come in reverse order.
-/

variable {α β : Type}

def grouped (key : α → Nat) (count : Nat) (list : List α) : List α :=
  (List.range count).flatMap fun group => (list.filter fun element => key element = group).reverse

theorem grouped_succ (key : α → Nat) (count : Nat) (list : List α) :
    grouped key (count + 1) list = grouped key count list ++
      (list.filter fun element => key element = count).reverse := by
  rw [grouped, List.range_succ, List.flatMap_append, List.flatMap_singleton]
  rfl

theorem grouped_map (key : β → Nat) (count : Nat) (change : α → β) (list : List α) :
    grouped key count (list.map change) = (grouped (fun element => key (change element)) count list).map change := by
  rw [grouped, grouped, List.map_flatMap]
  congr 1
  funext group
  rw [List.filter_map, List.map_reverse]
  rfl

theorem grouped_congr {key other : α → Nat} (count : Nat) {list : List α}
    (same : ∀ element ∈ list, key element = other element) :
    grouped key count list = grouped other count list := by
  rw [grouped, grouped]
  congr 1
  funext group
  congr 1
  apply List.filter_congr
  intro element inside
  rw [same element inside]

theorem grouped_perm_filter (key : α → Nat) (count : Nat) (list : List α) :
    (grouped key count list).Perm (list.filter fun element => key element < count) := by
  induction count with
  | zero => simp [grouped]
  | succ count ih =>
      have split := List.filter_append_perm (fun element => decide (key element < count))
        (list.filter fun element => key element < count + 1)
      rw [List.filter_filter, List.filter_filter] at split
      have low : (list.filter fun element => decide (key element < count) && decide (key element < count + 1)) =
          list.filter fun element => key element < count := by
        apply List.filter_congr
        intro element _
        by_cases less : key element < count
        · simp [less, Nat.lt_succ_of_lt less]
        · simp [less]
      have high : (list.filter fun element => !decide (key element < count) && decide (key element < count + 1)) =
          list.filter fun element => key element = count := by
        apply List.filter_congr
        intro element _
        rw [Bool.eq_iff_iff]
        simp only [Bool.and_eq_true, Bool.not_eq_true', decide_eq_false_iff_not, decide_eq_true_eq]
        omega
      rw [low, high] at split
      rw [grouped_succ]
      exact (ih.append (List.reverse_perm _)).trans split

theorem mem_of_grouped {key : α → Nat} {count : Nat} {list : List α} {element : α}
    (inside : element ∈ grouped key count list) :
    element ∈ list :=
  List.mem_of_mem_filter ((grouped_perm_filter key count list).mem_iff.mp inside)

theorem grouped_perm {key : α → Nat} {count : Nat} {list : List α} (below : ∀ element ∈ list, key element < count) :
    (grouped key count list).Perm list := by
  have all := grouped_perm_filter key count list
  rw [List.filter_eq_self.mpr fun element inside => decide_eq_true (below element inside)] at all
  exact all

/-- Elements of one kind that have the same key are in reverse order. -/
theorem filter_grouped {key : α → Nat} {count : Nat} {list : List α} {kind : α → Bool} {value : Nat}
    (below : value < count)
    (same : ∀ element ∈ list, kind element = true → key element = value) :
    (grouped key count list).filter kind = (list.filter kind).reverse := by
  have upTo : ∀ bound, (grouped key bound list).filter kind = if value < bound then (list.filter kind).reverse
    else [] := by
    intro bound
    induction bound with
    | zero => rfl
    | succ bound ih =>
        rw [grouped_succ, List.filter_append, ih, List.filter_reverse, List.filter_filter]
        by_cases here : value = bound
        · subst here
          rw [if_neg (Nat.lt_irrefl _), if_pos (Nat.lt_succ_self _), List.nil_append]
          congr 1
          apply List.filter_congr
          intro element inside
          cases isKind : kind element with
          | false => rfl
          | true => rw [same element inside isKind, decide_eq_true rfl]; rfl
        · have none : (list.filter fun element => kind element && decide (key element = bound)) = [] := by
            rw [List.filter_eq_nil_iff]
            intro element inside both
            rw [Bool.and_eq_true, decide_eq_true_eq] at both
            exact here ((same element inside both.1).symm.trans both.2)
          rw [none, List.reverse_nil, List.append_nil]
          by_cases before : value < bound
          · rw [if_pos before, if_pos (Nat.lt_succ_of_lt before)]
          · rw [if_neg before, if_neg (by omega)]
  rw [upTo, if_pos below]

end Grouping
end LibKit
