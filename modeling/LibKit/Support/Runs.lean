import Mathlib

namespace LibKit

/-!
# Runs of a state machine

A machine is given by a partial step function that answers a call.  A run is
recorded with its history, the latest call first, and every call of it meets
a condition on the history and the state before the call.
-/

section

variable {State Call Answer : Type}

/-- The calls made so far with their answers, the latest first. -/
abbrev History (Call Answer : Type) := List (Call × Answer)

/-- The states reached by calls that meet a condition. -/
inductive Run (step : State → Call → Option (Answer × State))
    (allowed : History Call Answer → State → Call → Prop) (start : State) :
    History Call Answer → State → Prop where
  | start : Run step allowed start [] start
  | step {history : History Call Answer} {state next : State} {call : Call} {answer : Answer} :
      Run step allowed start history state → allowed history state call →
      step state call = some (answer, next) → Run step allowed start ((call, answer) :: history) next

variable {step : State → Call → Option (Answer × State)}
  {allowed : History Call Answer → State → Call → Prop} {start : State}

/-- What every allowed step preserves holds in every state reached. -/
theorem Run.invariant (inv : History Call Answer → State → Prop) (initial : inv [] start)
    (preserved : ∀ history state call answer next, inv history state → allowed history state call →
      step state call = some (answer, next) → inv ((call, answer) :: history) next)
    {history : History Call Answer} {state : State} (run : Run step allowed start history state) :
    inv history state := by
  induction run with
  | start => exact initial
  | step _ ok stepped ih => exact preserved _ _ _ _ _ ih ok stepped

theorem Run.mono {weaker : History Call Answer → State → Call → Prop} (inv : History Call Answer → State → Prop)
    (always : ∀ history state, Run step allowed start history state → inv history state)
    (weaken : ∀ history state call, inv history state → allowed history state call → weaker history state call)
    {history : History Call Answer} {state : State} (run : Run step allowed start history state) :
    Run step weaker start history state := by
  induction run with
  | start => exact Run.start
  | step before ok stepped ih => exact Run.step ih (weaken _ _ _ (always _ _ before) ok) stepped

end

end LibKit
