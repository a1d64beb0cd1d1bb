import LibKit.Support.Results

namespace LibKit
namespace Visits

/-!
# Loops that call a visitor

A loop calls a visitor for some keys, and ends early where the visitor fails or
for a cause of its own.  Where neither depends on the state of the visitor, the
loop has a course: the keys it visits, and whether it ends for a cause.
-/

variable {Key Cause : Type}

section

variable {State Failed : Type} {fails : Cause → State → Failed} {visit : State → Key → Except Failed State}

def finish (fails : Cause → State → Failed) : Option Cause → State → Except Failed State
  | none, state => .ok state
  | some cause, state => .error (fails cause state)

/-- Some visits one after the other, and then the end. -/
def follow (fails : Cause → State → Failed) (visit : State → Key → Except Failed State) (visits : List Key)
    (ending : Option Cause)
    (state : State) : Except Failed State :=
  visits.foldlM visit state >>= finish fails ending

theorem follow_nil (ending : Option Cause) (state : State) :
    follow fails visit [] ending state = finish fails ending state := rfl

theorem follow_cons (key : Key) (visits : List Key) (ending : Option Cause) (state : State) :
    follow fails visit (key :: visits) ending state = visit state key >>= follow fails visit visits ending := by
  unfold follow
  rw [List.foldlM_cons]
  cases visit state key with
  | error failed => rfl
  | ok after => rfl

theorem follow_append (visits others : List Key) (ending : Option Cause) (state : State) :
    follow fails visit (visits ++ others) ending state =
      follow fails visit visits none state >>= follow fails visit others ending := by
  induction visits generalizing state with
  | nil => rfl
  | cons key visits ih =>
      rw [List.cons_append, follow_cons, follow_cons]
      cases visit state key with
      | error failed => rfl
      | ok after => exact ih after

/-- Nothing is visited behind a cause to end. -/
theorem follow_some (visits : List Key) (cause : Cause) (state : State) (next : State → Except Failed State) :
    (follow fails visit visits (some cause) state >>= next) = follow fails visit visits (some cause) state := by
  unfold follow
  cases visits.foldlM visit state with
  | error failed => rfl
  | ok after => rfl

theorem follow_counts {counted : Nat → State → Prop} (step : ∀ count state key after, counted count state →
    visit state key = .ok after →
    counted (count + 1) after) (visits : List Key) {count : Nat} {state after : State} (start : counted count state)
    (done : follow fails visit visits (none : Option Cause) state = .ok after) :
    counted (count + visits.length) after := by
  induction visits generalizing count state with
  | nil =>
      cases done
      exact start
  | cons key visits ih =>
      rw [follow_cons] at done
      rcases bind_ok done with ⟨middle, visited, rest⟩
      have further := ih (step _ _ _ _ start visited) rest
      rwa [Nat.add_assoc, Nat.add_comm 1] at further

theorem follow_some_ne {visits : List Key} {cause : Cause} {state after : State} :
    follow fails visit visits (some cause) state ≠ .ok after := by
  intro done
  rcases bind_ok done with ⟨last, -, wrong⟩
  cases wrong

theorem follow_stopping (stop : Failed) (visits : List Key) (ending : Option Cause) (state : State) :
    follow fails (fun _ _ => .error stop) visits ending state = if visits =
      [] then finish fails ending state else .error stop := by
  cases visits with
  | nil => rfl
  | cons key visits => rfl

end

/-! ## Courses -/

abbrev Run (Key Cause : Type) : Type 1 :=
  ∀ State Failed : Type, (Cause → State → Failed) → (State → Key → Except Failed State) → State → Except Failed State

/-- What is visited does not depend on the visitor. -/
def HasCourse (run : Run Key Cause) : Prop :=
  ∃ visits ending, ∀ (State Failed : Type) (fails : Cause → State → Failed)
    (visit : State → Key → Except Failed State) (state : State),
    run State Failed fails visit state = follow fails visit visits ending state

namespace HasCourse

theorem bind {first next : Run Key Cause} (hasFirst : HasCourse first) (hasNext : HasCourse next) :
    HasCourse fun State Failed fails visit state =>
      first State Failed fails visit state >>= next State Failed fails visit := by
  rcases hasFirst with ⟨visits, ending, course⟩
  rcases hasNext with ⟨others, ending', course'⟩
  cases ending with
  | some cause =>
      refine ⟨visits, some cause, fun State Failed fails visit state => ?_⟩
      dsimp only
      rw [course, follow_some]
  | none =>
      refine ⟨visits ++ others, ending', fun State Failed fails visit state => ?_⟩
      dsimp only
      rw [course, follow_append]
      congr 1
      funext state
      exact course' State Failed fails visit state

theorem done : HasCourse fun State Failed (_ : Cause → State → Failed)
    (_ : State → Key → Except Failed State) state => .ok state :=
  ⟨[], none, fun _ _ _ _ _ => rfl⟩

theorem failed (cause : Cause) :
    HasCourse fun State Failed (fails : Cause → State → Failed) (_ : State → Key → Except Failed State) state =>
      .error (fails cause state) :=
  ⟨[], some cause, fun _ _ _ _ _ => rfl⟩

theorem one (key : Key) :
    HasCourse fun State Failed (_ : Cause → State → Failed) (visit : State → Key → Except Failed State) state =>
      visit state key := by
  refine ⟨[key], none, fun State Failed fails visit state => ?_⟩
  dsimp only
  rw [follow_cons]
  cases visit state key with
  | error failed => rfl
  | ok after => rfl

/-- Keys of another kind. -/
theorem map {Other : Type} {run : Run Other Cause} (has : HasCourse run) (value : Other → Key) :
    HasCourse fun State Failed fails (visit : State → Key → Except Failed State) state =>
      run State Failed fails (fun state key => visit state (value key)) state := by
  rcases has with ⟨visits, ending, course⟩
  refine ⟨visits.map value, ending, fun State Failed fails visit state => ?_⟩
  dsimp only
  rw [course, follow, follow, List.foldlM_map]

end HasCourse

end Visits
end LibKit
