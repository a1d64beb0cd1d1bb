import Mathlib

namespace LibKit

/-!
# Calls that may fail
-/

section

variable {ε α β : Type}

@[simp] theorem ok_bind (value : α) (next : α → Except ε β) : (Except.ok value >>= next) = next value := rfl

@[simp] theorem error_bind (failure : ε) (next : α → Except ε β) :
    (Except.error failure >>= next) = Except.error failure := rfl

theorem ite_bind {condition : Prop} [Decidable condition] {first second : Except ε α} {next : α → Except ε β} :
    ((if condition then first else second) >>= next) = if condition then first >>= next else second >>= next :=
  apply_ite (· >>= next) condition first second

theorem bind_ok {first : Except ε α} {next : α → Except ε β} {result : β}
    (done : (first >>= next) = .ok result) : ∃ value, first = .ok value ∧ next value = .ok result := by
  cases first with
  | error failure => cases done
  | ok value => exact ⟨value, rfl, done⟩

theorem bind_error {first : Except ε α} {next : α → Except ε β} {failure : ε}
    (failed : (first >>= next) = .error failure) :
    first = .error failure ∨ ∃ value, first = .ok value ∧ next value = .error failure := by
  cases first with
  | error other =>
      cases failed
      exact Or.inl rfl
  | ok value => exact Or.inr ⟨value, rfl, failed⟩

theorem of_toOption {outcome : Except ε α} {value : α} (done : outcome.toOption = some value) :
    outcome = .ok value := by
  cases outcome with
  | error failure => cases done
  | ok result =>
      cases done
      rfl

/-! ## Properties of outcomes -/

/-- The results of a call have a property, and its failures another one. -/
structure Ensures (ok : α → Prop) (failed : ε → Prop) (outcome : Except ε α) : Prop where
  result : ∀ value, outcome = .ok value → ok value
  failure : ∀ error, outcome = .error error → failed error

namespace Ensures

variable {ok : α → Prop} {ok' : β → Prop} {failed : ε → Prop}

theorem of_ok {value : α} (holds : ok value) : Ensures ok failed (.ok value) := by
  refine ⟨fun other same => ?_, fun error wrong => (by cases wrong)⟩
  cases same
  exact holds

theorem of_error {error : ε} (holds : failed error) : Ensures ok failed (.error error) := by
  refine ⟨fun value wrong => (by cases wrong), fun other same => ?_⟩
  cases same
  exact holds

/-- A call after another one. -/
theorem bind {first : Except ε α} {next : α → Except ε β} (ensures : Ensures ok failed first)
    (further : ∀ value, first = .ok value → ok value → Ensures ok' failed (next value)) :
      Ensures ok' failed (first >>= next) := by
  cases first with
  | error error => exact of_error (ensures.failure error rfl)
  | ok value => exact further value rfl (ensures.result value rfl)

theorem mono {ok'' : α → Prop} {failed' : ε → Prop} {outcome : Except ε α} (ensures : Ensures ok failed outcome)
    (weaker : ∀ value, ok value → ok'' value) (weaker' : ∀ error, failed error → failed' error) :
    Ensures ok'' failed' outcome :=
  ⟨fun value same => weaker value (ensures.result value same),
    fun error same => weaker' error (ensures.failure error same)⟩

end Ensures

end

end LibKit
