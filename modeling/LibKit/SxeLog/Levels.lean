import Mathlib

namespace LibKit
namespace SxeLog

/-!
# The levels of `sxe-log.c`

Each source file has a control with the level that was learned for it, from the
environment or from the global level.  When the global level is changed, all
controls that are in the list forget their levels.  A file is put into the list
before it learns, so the levels that are kept are never out of date: the answers
are those of a log that keeps no levels and looks each of them up anew.
-/

/-- `SXE_LOG_LEVEL_MAXIMUM` and the default level -/
def maximum : Nat := 7

/-- `SXE_LOG_LEVEL_OVER_MAXIMUM`, which is no level. -/
def overMaximum : Nat := 8

/-- `SXE_LOG_LEVEL_VALIDATE` -/
def validate (level highest : Nat) : Bool := 1 ≤ level && level ≤ highest

/-! ## The environment -/

/-- The digits at the start of a text, after a number. -/
def atoiDigits (number : Nat) : List UInt8 → Nat
  | [] => number
  | digit :: text => if 48 ≤ digit ∧ digit ≤ 57 then atoiDigits (number * 10 + (digit - 48).toNat) text else number

/-- `atoi`.  A number that is no `int`, for which the C function is undefined, is
the number itself. -/
def atoi (text : List UInt8) : Int :=
  match text.dropWhile fun byte => byte = 32 || (9 ≤ byte && byte ≤ 13) with
  | [] => 0
  | sign :: rest =>
      if sign = 45 then -atoiDigits 0 rest
      else if sign = 43 then atoiDigits 0 rest
      else atoiDigits 0 (sign :: rest)

/-- `sxe_log_level_getenv` -/
def levelGetenv (getenv : List UInt8 → Option (List UInt8)) (variableName : List UInt8) : Option Nat :=
  (getenv variableName).bind fun levelString =>
    let level := atoi levelString
    if level < 1 ∨ level > maximum then none else some level.toNat

/-- `"SXE_LOG_LEVEL"` -/
def globalName : List UInt8 := [83, 88, 69, 95, 76, 79, 71, 95, 76, 69, 86, 69, 76]

/-- The file name up to its first dot, as far as there is room for it. -/
def stem (file : List UInt8) : List UInt8 := (file.take 4081).takeWhile fun byte => byte ≠ 46

def upper (byte : UInt8) : UInt8 :=
  if byte = 45 ∨ byte = 47 then 95 else if 97 ≤ byte ∧ byte ≤ 122 then byte - 32 else byte

/-- The name of a variable for the start of a file name. -/
def variableName (part : List UInt8) : List UInt8 := globalName ++ [95] ++ part.map upper

/-- The variables for a file, its package and its component.  A file without an extension has none
of its own. -/
def variableNames (file : List UInt8) : List (List UInt8) :=
  let stem := stem file
  let endOfComponent := stem.findIdx fun byte => byte = 47
  let endOfPackage := endOfComponent + 1 + (stem.drop (endOfComponent + 1)).findIdx fun byte => byte = 47
  (if stem.length < file.length then [variableName stem] else []) ++
    (if endOfPackage < stem.length then [variableName (stem.take endOfPackage)] else []) ++
    (if endOfComponent < stem.length then [variableName (stem.take endOfComponent)] else [])

/-! ## Controls -/

/-- `sxe_log_level`, `sxe_log_control_list` and the field `level` of the controls -/
structure State (Control : Type) where
  level : Nat
  list : List Control
  levels : Control → Nat

inductive Call (Control : Type) where
  | setLevel (level : Nat)
  | getLevel
  | decreaseLevel (level : Nat)
  | learnLevel (control : Control)

section

variable {Control : Type} [DecidableEq Control] (file : Control → List UInt8)
    (getenv : List UInt8 → Option (List UInt8))

def State.initial : State Control := ⟨overMaximum, [], fun _ => overMaximum⟩

/-- `sxe_log_control_forget_all_levels` -/
def State.forgetAllLevels (state : State Control) : State Control :=
  { state with levels := fun control => if control ∈ state.list then overMaximum else state.levels control }

/-- `sxe_log_set_level`; there is no result if a level is not valid. -/
def State.setLevel (state : State Control) (level : Nat) : Option (Nat × State Control) :=
  if validate state.level overMaximum ∧ validate level overMaximum then
    some (state.level, { state with level := level }.forgetAllLevels)
  else none

/-- `sxe_log_decrease_level` -/
def State.decreaseLevel (state : State Control) (level : Nat) : Option (Nat × State Control) :=
  if validate state.level overMaximum ∧ validate level maximum then
    some (state.level, if level < state.level then { state with level := level }.forgetAllLevels else state)
  else none

/-- The rest of `sxe_log_control_learn_level` for a level that is not known yet, with `sxe_log_level` after it. -/
def lookup (file : List UInt8) (level : Nat) : Nat × Nat :=
  match (variableNames file).findSome? (levelGetenv getenv) with
  | some own => (own, level)
  | none =>
      if level ≤ maximum then (level, level)
      else
        match levelGetenv getenv globalName with
        | some own => (own, own)
        | none => (maximum, level)

/-- `sxe_log_control_learn_level` -/
def State.learnLevel (state : State Control) (control : Control) : Nat × State Control :=
  let list := if control ∈ state.list then state.list else control :: state.list
  if state.levels control ≤ maximum then (state.levels control, { state with list := list })
  else
    let (level, global) := lookup getenv (file control) state.level
    (level, ⟨global, list, Function.update state.levels control level⟩)

/-- A call to the log, with the level that it returns. -/
def step (state : State Control) : Call Control → Option (Nat × State Control)
  | .setLevel level => state.setLevel level
  | .getLevel => some (state.level, state)
  | .decreaseLevel level => state.decreaseLevel level
  | .learnLevel control => some (state.learnLevel file getenv control)

/-- A log that keeps no levels but the global one. -/
def plainStep (global : Nat) : Call Control → Option (Nat × Nat)
  | .setLevel level => if validate global overMaximum ∧ validate level overMaximum then some (global, level) else none
  | .getLevel => some (global, global)
  | .decreaseLevel level =>
      if validate global overMaximum ∧ validate level maximum then some (global, min level global) else none
  | .learnLevel control => some (lookup getenv (file control) global)

end

/-- What the calls return, one after the other; there is nothing if one of them aborts. -/
def answers {State Call Answer : Type} (step : State → Call → Option (Answer × State)) :
    List Call → State → Option (List Answer)
  | [], _ => some []
  | call :: calls, state => (step state call).bind fun (answer, next) => (answers step calls next).map (answer :: ·)

/-- Two machines that keep a relation while they give the same answers give the same ones for all calls. -/
theorem answers_eq {State Other Call Answer : Type} {step : State → Call → Option (Answer × State)}
    {other : Other → Call → Option (Answer × Other)} (related : State → Other → Prop)
    (same : ∀ state abstract, related state abstract → ∀ call, (step state call = none ∧ other abstract call = none) ∨
      ∃ answer next after, step state call = some (answer, next) ∧ other abstract call = some (answer, after) ∧
        related next after)
    {state : State} {abstract : Other} (start : related state abstract) (calls : List Call) :
    answers step calls state = answers other calls abstract := by
  induction calls generalizing state abstract with
  | nil => rfl
  | cons call calls ih =>
      rcases same state abstract start call with ⟨stopped, ended⟩ | ⟨answer, next, after, stepped, moved, kept⟩
      · rw [answers, answers, stopped, ended]
        rfl
      · rw [answers, answers, stepped, moved]
        dsimp only [Option.bind_some]
        rw [ih kept]

/-! ## Nothing is out of date -/

section

variable {Control : Type} [DecidableEq Control] {file : Control → List UInt8}
    {getenv : List UInt8 → Option (List UInt8)}
  {state : State Control}

/-- A level that is kept is the one that would be looked up, and looking it up would change nothing. -/
structure Coherent (file : Control → List UInt8) (getenv : List UInt8 →
    Option (List UInt8)) (state : State Control) : Prop where
  kept : ∀ control, state.levels control ≤ maximum → lookup getenv (file control) state.level =
    (state.levels control, state.level)
  listed : ∀ control, state.levels control ≤ maximum → control ∈ state.list

omit [DecidableEq Control] in
theorem initial_coherent : Coherent file getenv State.initial := by
  have unknown : ¬ overMaximum ≤ maximum := by decide
  exact ⟨fun _ known => absurd known unknown, fun _ known => absurd known unknown⟩

theorem Coherent.forget (coherent : Coherent file getenv state) (level : Nat) :
    Coherent file getenv { state with level := level }.forgetAllLevels := by
  have unknown : ∀ control, ¬ ({ state with level := level }.forgetAllLevels : State Control).levels control ≤
    maximum := by
    intro control known
    simp only [State.forgetAllLevels] at known
    split at known
    · exact absurd known (by decide)
    · rename_i unlisted
      exact unlisted (coherent.listed control known)
  exact ⟨fun control known => absurd known (unknown control), fun control known => absurd known (unknown control)⟩

theorem levelGetenv_bound {name : List UInt8} {level : Nat} (found : levelGetenv getenv name = some level) :
    1 ≤ level ∧ level ≤ maximum := by
  rcases Option.bind_eq_some_iff.mp found with ⟨text, -, got⟩
  dsimp only at got
  split at got
  · cases got
  · cases got
    have top : maximum = 7 := rfl
    omega

/-- A level is found for the file, or it is the global one, or that of the environment, or the default. -/
theorem lookup_cases (getenv : List UInt8 → Option (List UInt8)) (name : List UInt8) :
    (∃ own, 1 ≤ own ∧ own ≤ maximum ∧ ∀ level, lookup getenv name level = (own, level)) ∨
      ((∀ level, level ≤ maximum → lookup getenv name level = (level, level)) ∧
        ((∃ own, 1 ≤ own ∧ own ≤ maximum ∧ levelGetenv getenv globalName = some own ∧
            ∀ level, ¬ level ≤ maximum → lookup getenv name level = (own, own)) ∨
          (levelGetenv getenv globalName = none ∧ ∀ level, ¬ level ≤ maximum →
            lookup getenv name level = (maximum, level)))) := by
  cases found : (variableNames name).findSome? (levelGetenv getenv) with
  | some own =>
      rcases List.exists_of_findSome?_eq_some found with ⟨variableName, -, got⟩
      refine Or.inl ⟨own, (levelGetenv_bound got).1, (levelGetenv_bound got).2, ?_⟩
      intro level
      simp only [lookup, found]
  | none =>
      refine Or.inr ⟨?_, ?_⟩
      · intro level known
        simp only [lookup, found, if_pos known]
      · cases global : levelGetenv getenv globalName with
        | some own =>
            refine Or.inl ⟨own, (levelGetenv_bound global).1, (levelGetenv_bound global).2, rfl, ?_⟩
            intro level unknown
            simp only [lookup, found, if_neg unknown, global]
        | none =>
            refine Or.inr ⟨rfl, ?_⟩
            intro level unknown
            simp only [lookup, found, if_neg unknown, global]

theorem lookup_again (name : List UInt8) (level : Nat) :
    lookup getenv name (lookup getenv name level).2 = lookup getenv name level := by
  rcases lookup_cases getenv name with ⟨own, -, small, same⟩ | ⟨known, unknown⟩
  · rw [same, same]
  · by_cases isKnown : level ≤ maximum
    · rw [known level isKnown, known level isKnown]
    · rcases unknown with ⟨own, -, small, -, same⟩ | ⟨-, same⟩
      · rw [same level isKnown, known own small]
      · rw [same level isKnown, same level isKnown]

theorem lookup_other {name other : List UInt8} {level own : Nat} (learned : lookup getenv name level = (own, level)) :
    lookup getenv name (lookup getenv other level).2 = (own, (lookup getenv other level).2) := by
  have still : (lookup getenv other level).2 = level ∨
      ∃ global, global ≤ maximum ∧ ¬ level ≤ maximum ∧ levelGetenv getenv globalName = some global ∧
        (lookup getenv other level).2 = global := by
    rcases lookup_cases getenv other with ⟨own, -, -, same⟩ | ⟨known, unknown⟩
    · exact Or.inl (by rw [same])
    · by_cases isKnown : level ≤ maximum
      · exact Or.inl (by rw [known level isKnown])
      · rcases unknown with ⟨global, -, small, found, same⟩ | ⟨-, same⟩
        · exact Or.inr ⟨global, small, isKnown, found, by rw [same level isKnown]⟩
        · exact Or.inl (by rw [same level isKnown])
  rcases still with same | ⟨global, small, isUnknown, found, same⟩
  · rw [same, learned]
  · rcases lookup_cases getenv name with ⟨mine, -, -, always⟩ | ⟨-, ⟨theirs, -, fine, -, set⟩ | ⟨none, -⟩⟩
    · rw [always] at learned ⊢
      rw [(Prod.mk.inj learned).1]
    · rw [set level isUnknown] at learned
      rw [← (Prod.mk.inj learned).2] at isUnknown
      exact absurd fine isUnknown
    · rw [none] at found
      cases found

/-- Learning keeps what is known about all files, and gives the level that is looked up. -/
theorem Coherent.learn (coherent : Coherent file getenv state) (control : Control) :
    ((state.learnLevel file getenv control).1, (state.learnLevel file getenv control).2.level) =
        lookup getenv (file control) state.level ∧ Coherent file getenv (state.learnLevel file getenv control).2 := by
  have listed : ∀ other, other = control ∨ other ∈ state.list →
      other ∈ if control ∈ state.list then state.list else control :: state.list := by
    intro other member
    split
    · rename_i inside
      rcases member with rfl | member
      · exact inside
      · exact member
    · exact List.mem_cons.mpr member
  rw [State.learnLevel]
  dsimp only
  split
  · rename_i known
    refine ⟨(coherent.kept control known).symm, coherent.kept, ?_⟩
    exact fun other isKnown => listed other (Or.inr (coherent.listed other isKnown))
  · refine ⟨rfl, ?_, ?_⟩
    · intro other isKnown
      dsimp only at isKnown ⊢
      by_cases here : other = control
      · subst here
        rw [Function.update_self, lookup_again]
      · rw [Function.update_of_ne here] at isKnown ⊢
        exact lookup_other (coherent.kept other isKnown)
    · intro other isKnown
      dsimp only at isKnown ⊢
      by_cases here : other = control
      · exact listed other (Or.inl here)
      · rw [Function.update_of_ne here] at isKnown
        exact listed other (Or.inr (coherent.listed other isKnown))

theorem Coherent.decrease (coherent : Coherent file getenv state) (level : Nat) :
    Coherent file getenv (if level < state.level then { state with level := level }.forgetAllLevels else state) ∧
      (if level < state.level then { state with level := level }.forgetAllLevels else state : State Control).level =
        min level state.level := by
  split
  · rename_i less
    exact ⟨coherent.forget level, (Nat.min_eq_left (Nat.le_of_lt less)).symm⟩
  · rename_i more
    exact ⟨coherent, (Nat.min_eq_right (Nat.not_lt.mp more)).symm⟩

theorem Coherent.step_plain (coherent : Coherent file getenv state) (call : Call Control) :
    (step file getenv state call = none ∧ plainStep file getenv state.level call = none) ∨
      ∃ answer next after, step file getenv state call = some (answer, next) ∧
        plainStep file getenv state.level call = some (answer, after) ∧ Coherent file getenv next ∧
          next.level = after := by
  cases call with
  | setLevel level =>
      rw [step, plainStep, State.setLevel]
      split
      · exact Or.inr ⟨_, _, _, rfl, rfl, coherent.forget level, rfl⟩
      · exact Or.inl ⟨rfl, rfl⟩
  | getLevel => exact Or.inr ⟨_, _, _, rfl, rfl, coherent, rfl⟩
  | decreaseLevel level =>
      rw [step, plainStep, State.decreaseLevel]
      split
      · exact Or.inr ⟨_, _, _, rfl, rfl, coherent.decrease level⟩
      · exact Or.inl ⟨rfl, rfl⟩
  | learnLevel control =>
      rcases coherent.learn control with ⟨same, kept⟩
      refine Or.inr ⟨(state.learnLevel file getenv control).1, (state.learnLevel file getenv control).2, _, rfl,
        ?_, kept, rfl⟩
      rw [plainStep, ← same]

end

/-- In any sequence of calls, the levels that files keep are those that they would learn anew. -/
theorem levels_never_stale {Control : Type} [DecidableEq Control] (file : Control → List UInt8)
    (getenv : List UInt8 → Option (List UInt8)) (calls : List (Call Control)) :
    answers (step file getenv) calls State.initial = answers (plainStep file getenv) calls overMaximum := by
  refine answers_eq (fun state global => Coherent file getenv state ∧
    state.level = global) ?_ ⟨initial_coherent, rfl⟩ calls
  rintro state global ⟨coherent, rfl⟩ call
  exact coherent.step_plain call

/-- The level of a package is used where its files have none, until the log is told otherwise. -/
example :
    answers (step (fun _ : Bool => [97, 47, 98, 45, 99, 47, 100, 46, 99])
      fun name => if name = globalName ++ [95, 65, 95, 66, 95, 67] then some [51] else none)
      [.learnLevel true, .setLevel 5, .learnLevel false, .getLevel] State.initial = some [3, 8, 3, 5] := by
  decide +kernel

end SxeLog
end LibKit
