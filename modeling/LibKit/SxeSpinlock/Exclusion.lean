import LibKit.SxeSpinlock.Model

namespace LibKit
namespace SxeSpinlock

/-!
# Spinlocks exclude

A machine with spinlocks makes the steps of one whose locks name their owners,
and turns that do not take the lock are steps that change nothing there.  So a
lock is zero if nobody is inside and the id of the only thread inside otherwise,
and the assertion in `sxe_spinlock_give` never fails.
-/

variable {Site Thread State Local Call Answer : Type}

/-- The phase that is seen when tries are not counted; an aborted thread has none. -/
def Phase.seen : Phase State Call Answer → Option (Guarded.Phase State Call Answer)
  | .outside => some .outside
  | .taking call _ => some (.waiting call)
  | .entered call => some (.entered call)
  | .working call copy => some (.working call copy)
  | .finished call answer => some (.finished call answer)
  | .aborted => none

def Phase.inside (route : Call → Site) (phase : Phase State Call Answer) : Option Site :=
  phase.seen.bind (Guarded.Phase.inside route)

/-- A lock has the id of its owner, and everything else is the same. -/
structure Refines (tid : Thread → Int) (sys : System Site Thread State Local Call Answer)
    (abstract : Guarded.System Site Thread State Local Call Answer) : Prop where
  locks : ∀ site, sys.locks site = (abstract.owner site).elim 0 tid
  objects : sys.objects = abstract.objects
  locals : sys.locals = abstract.locals
  phases : ∀ thread, (sys.phases thread).seen = some (abstract.phases thread)
  results : sys.results = abstract.results
  log : sys.log = abstract.log

theorem initial_refines (tid : Thread → Int) (start : Site → State) (fresh : Local) :
    Refines tid (System.initial start fresh : System Site Thread State Local Call Answer)
      (Guarded.System.initial start fresh) :=
  ⟨fun _ => rfl, rfl, rfl, fun _ => rfl, rfl, rfl⟩

variable {tid : Thread → Int} {sys after : System Site Thread State Local Call Answer}
  {abstract : Guarded.System Site Thread State Local Call Answer}

/-- The phase of one thread changes on both sides. -/
theorem Refines.phase [DecidableEq Thread] (refines : Refines tid sys abstract) {thread : Thread}
    {phase : Phase State Call Answer}
    {seen : Guarded.Phase State Call Answer} (same : phase.seen = some seen) (other : Thread) :
    (Function.update sys.phases thread phase other).seen = some
    (Function.update abstract.phases thread seen other) := by
  by_cases here : other = thread
  · subst here
    rw [Function.update_self, Function.update_self, same]
  · rw [Function.update_of_ne here, Function.update_of_ne here]
    exact refines.phases other

theorem Refines.seen_eq (refines : Refines tid sys abstract) {thread : Thread} {phase : Phase State Call Answer}
    (here : sys.phases thread = phase) : phase.seen = some (abstract.phases thread) := by
  rw [← here]
  exact refines.phases thread

theorem Refines.owner_eq_none (refines : Refines tid sys abstract) (nonzero : ∀ thread, tid thread ≠ 0) {site : Site}
    (free : sys.locks site = 0) : abstract.owner site = none := by
  have lock := refines.locks site
  rw [free] at lock
  cases owned : abstract.owner site with
  | none => rfl
  | some thread =>
      rw [owned] at lock
      exact absurd lock.symm (nonzero thread)

theorem Refines.owner_eq_some (refines : Refines tid sys abstract) (distinct : Function.Injective tid)
    (nonzero : ∀ thread, tid thread ≠ 0) {site : Site} {thread : Thread} (held : sys.locks site = tid thread) :
    abstract.owner site = some thread := by
  have lock := refines.locks site
  rw [held] at lock
  cases owned : abstract.owner site with
  | none =>
      rw [owned] at lock
      exact absurd lock (nonzero thread)
  | some other =>
      rw [owned] at lock
      rw [distinct lock]

theorem Refines.lock [DecidableEq Site] (refines : Refines tid sys abstract) {site : Site} {lock : Int}
    {owner : Option Thread}
    (same : lock = owner.elim 0 tid) (other : Site) :
    Function.update sys.locks site lock other = (Function.update abstract.owner site owner other).elim 0 tid := by
  by_cases here : other = site
  · subst here
    rw [Function.update_self, Function.update_self, same]
  · rw [Function.update_of_ne here, Function.update_of_ne here]
    exact refines.locks other

/-! ## One step -/

variable [DecidableEq Site] [DecidableEq Thread] {countMax : Nat} {route : Call → Site}
  {work : State → Local × Call → Option ((Answer × Local) × State)} {allowed : State → Local × Call → Prop}
  {start : Site → State} {fresh : Local}

theorem Refines.take (refines : Refines tid sys abstract) (orderly : Guarded.Orderly route work allowed start abstract)
    (distinct : Function.Injective tid) (nonzero : ∀ thread, tid thread ≠ 0) {thread : Thread} {call : Call}
    {count : Nat}
    {turn : Turn} {lock : Int} (taking : sys.phases thread = .taking call count)
    (turned : takeTurn countMax (tid thread) (sys.locks (route call)) count = (turn, lock)) :
    ∃ next, Relation.ReflGen (Guarded.Step route work allowed) abstract next ∧
      Refines tid { sys with
        locks := Function.update sys.locks (route call) lock
        phases := Function.update sys.phases thread (afterTurn call turn) } next := by
  have waiting : abstract.phases thread = .waiting call := (Option.some.inj (refines.seen_eq taking)).symm
  have still : ∀ count, (Phase.taking call count : Phase State Call Answer).seen = some (abstract.phases thread) := by
    intro count
    rw [waiting]
    rfl
  have stay : ∀ count, Refines tid { sys with
      locks := Function.update sys.locks (route call) (sys.locks (route call))
      phases := Function.update sys.phases thread (.taking call count) } abstract := by
    intro count
    refine ⟨?_, refines.objects, refines.locals, ?_, refines.results, refines.log⟩
    · rw [Function.update_eq_self]
      exact refines.locks
    · intro other
      have same := @Refines.phase _ _ _ _ _ _ tid sys abstract _ refines thread _ _ (still count) other
      rwa [Function.update_eq_self] at same
  rcases takeTurn_cases turned with ⟨rfl, free, rfl⟩ | ⟨rfl, -, rfl⟩ | ⟨rfl, own, -, rfl⟩ | ⟨rfl, -, rfl⟩
  · refine ⟨_, Relation.ReflGen.single (Guarded.Step.enter thread call waiting
      (refines.owner_eq_none nonzero free)), ?_⟩
    exact ⟨refines.lock rfl, refines.objects, refines.locals, refines.phase rfl, refines.results, refines.log⟩
  · exact ⟨abstract, Relation.ReflGen.refl, stay _⟩
  · have inside := (orderly.owned thread (route call)).mpr (refines.owner_eq_some distinct nonzero own)
    rw [waiting] at inside
    cases inside
  · exact ⟨abstract, Relation.ReflGen.refl, stay _⟩

theorem Refines.finished (refines : Refines tid sys abstract)
    (orderly : Guarded.Orderly route work allowed start abstract)
    {thread : Thread} {call : Call} {answer : Answer} (finished : sys.phases thread = .finished call answer) :
    sys.locks (route call) = tid thread := by
  have seen : abstract.phases thread = .finished call answer := (Option.some.inj (refines.seen_eq finished)).symm
  have owner := (orderly.owned thread (route call)).mp (by rw [seen]; rfl)
  rw [refines.locks, owner]
  rfl

/-- A step with spinlocks is a step with owners, or nothing. -/
theorem Refines.after_step (refines : Refines tid sys abstract)
    (orderly : Guarded.Orderly route work allowed start abstract)
    (distinct : Function.Injective tid) (nonzero : ∀ thread, tid thread ≠ 0)
    (stepped : Step countMax tid true route work allowed sys after) :
    ∃ next, Relation.ReflGen (Guarded.Step route work allowed) abstract next ∧ Refines tid after next := by
  cases stepped with
  | request thread call outside =>
      have seen : abstract.phases thread = .outside := (Option.some.inj (refines.seen_eq outside)).symm
      refine ⟨_, Relation.ReflGen.single (Guarded.Step.request thread call seen), ?_⟩
      exact ⟨refines.locks, refines.objects, refines.locals, refines.phase rfl, refines.results, refines.log⟩
  | take thread call count turn lock taking turned => exact refines.take orderly distinct nonzero taking turned
  | load thread call entered =>
      have seen : abstract.phases thread = .entered call := (Option.some.inj (refines.seen_eq entered)).symm
      refine ⟨_, Relation.ReflGen.single (Guarded.Step.load thread call seen), ?_⟩
      refine ⟨refines.locks, refines.objects, refines.locals, refines.phase ?_, refines.results, refines.log⟩
      rw [refines.objects]
      rfl
  | store thread call copy made answer own working fine done =>
      have seen : abstract.phases thread = .working call copy := (Option.some.inj (refines.seen_eq working)).symm
      rw [refines.locals] at fine done
      refine ⟨_, Relation.ReflGen.single (Guarded.Step.store thread call copy made answer own seen fine done), ?_⟩
      refine ⟨refines.locks, ?_, ?_, refines.phase rfl, refines.results, ?_⟩
      · dsimp only
        rw [refines.objects]
      · dsimp only
        rw [refines.locals]
      · dsimp only
        rw [refines.locals, refines.log]
  | give thread call answer lock finished _ given =>
      have seen : abstract.phases thread = .finished call answer := (Option.some.inj (refines.seen_eq finished)).symm
      rw [refines.finished orderly finished, give_own] at given
      cases given
      refine ⟨_, Relation.ReflGen.single (Guarded.Step.leave thread call answer seen), ?_⟩
      refine ⟨refines.lock rfl, refines.objects, refines.locals, refines.phase rfl, ?_, refines.log⟩
      dsimp only
      rw [refines.results]
  | abort thread call answer finished _ failed =>
      rw [refines.finished orderly finished, give_own] at failed
      cases failed
  | leave thread call answer _ unlocked => cases unlocked

/-! ## All steps -/

theorem Reached.refines (distinct : Function.Injective tid) (nonzero : ∀ thread, tid thread ≠ 0)
    (reached : Reached countMax tid true route work allowed start fresh sys) :
    ∃ abstract, Guarded.Reached route work allowed start fresh abstract ∧ Refines tid sys abstract := by
  induction reached with
  | refl => exact ⟨_, Relation.ReflTransGen.refl, initial_refines tid start fresh⟩
  | tail _ stepped ih =>
      rcases ih with ⟨abstract, before, refines⟩
      rcases refines.after_step (Guarded.Reached.orderly before) distinct nonzero stepped with ⟨next, moved, refines'⟩
      exact ⟨next, Relation.ReflTransGen.trans before moved.to_reflTransGen, refines'⟩

def counting (state : Nat) (request : Unit × Unit) : Option ((Nat × Unit) × Nat) := some ((state, request.1), state + 1)

end SxeSpinlock
end LibKit
