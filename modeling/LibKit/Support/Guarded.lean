import LibKit.Support.Runs

namespace LibKit
namespace Guarded

/-!
# Objects behind locks

Several threads work on a family of objects, each of which has a lock.  A call
takes the lock of its object, loads the object, stores what the call makes of it
and leaves the lock, and other threads may step in between.  A thread also has a
state of its own that its calls read and change.  The calls that were stored then
form one order in which every object went through its calls alone, and every
thread got the answers that its calls have in this order.
-/

variable {Site Thread State Local Call Answer : Type}

inductive Phase (State Call Answer : Type) where
  | outside
  | waiting (call : Call)
  | entered (call : Call)
  | working (call : Call) (copy : State)
  | finished (call : Call) (answer : Answer)

/-- The locks, the objects and the threads.  The log has the calls in the order of their stores,
the latest first, and the results are what each thread got, the latest first. -/
structure System (Site Thread State Local Call Answer : Type) where
  owner : Site → Option Thread
  objects : Site → State
  locals : Thread → Local
  phases : Thread → Phase State Call Answer
  results : Thread → List (Call × Answer)
  log : List (Thread × (Local × Call) × (Answer × Local))

/-- All threads are outside, and nothing was done. -/
def System.initial (start : Site → State) (fresh : Local) : System Site Thread State Local Call Answer :=
  ⟨fun _ => none, start, fun _ => fresh, fun _ => .outside, fun _ => [], []⟩

section

variable [DecidableEq Site] [DecidableEq Thread] (route : Call → Site)
  (step : State → Local × Call → Option ((Answer × Local) × State)) (allowed : State → Local × Call → Prop)

inductive Step : System Site Thread State Local Call Answer → System Site Thread State Local Call Answer → Prop where
  | request {sys : System Site Thread State Local Call Answer} (thread : Thread) (call : Call) :
      sys.phases thread = .outside →
      Step sys { sys with phases := Function.update sys.phases thread (.waiting call) }
  | enter {sys : System Site Thread State Local Call Answer} (thread : Thread) (call : Call) :
      sys.phases thread = .waiting call → sys.owner (route call) = none →
      Step sys { sys with
        owner := Function.update sys.owner (route call) (some thread)
        phases := Function.update sys.phases thread (.entered call) }
  | load {sys : System Site Thread State Local Call Answer} (thread : Thread) (call : Call) :
      sys.phases thread = .entered call →
      Step sys { sys with phases := Function.update sys.phases thread (.working call (sys.objects (route call))) }
  | store {sys : System Site Thread State Local Call Answer} (thread : Thread) (call : Call) (copy next : State)
      (answer : Answer)
      (after : Local) :
      sys.phases thread = .working call copy → allowed copy (sys.locals thread, call) →
      step copy (sys.locals thread, call) = some ((answer, after), next) →
      Step sys { sys with
        objects := Function.update sys.objects (route call) next
        locals := Function.update sys.locals thread after
        phases := Function.update sys.phases thread (.finished call answer)
        log := (thread, (sys.locals thread, call), (answer, after)) :: sys.log }
  | leave {sys : System Site Thread State Local Call Answer} (thread : Thread) (call : Call) (answer : Answer) :
      sys.phases thread = .finished call answer →
      Step sys { sys with
        owner := Function.update sys.owner (route call) none
        phases := Function.update sys.phases thread .outside
        results := Function.update sys.results thread ((call, answer) :: sys.results thread) }

/-- The states that are reached by steps of the threads in any order. -/
def Reached (start : Site → State) (fresh : Local) (sys : System Site Thread State Local Call Answer) : Prop :=
  Relation.ReflTransGen (Step route step allowed) (System.initial start fresh) sys

end

/-! ## Who is inside -/

def Phase.inside (route : Call → Site) : Phase State Call Answer → Option Site
  | .outside => none
  | .waiting _ => none
  | .entered call => some (route call)
  | .working call _ => some (route call)
  | .finished call _ => some (route call)

/-- The answer that a thread has not been given yet. -/
def Phase.unreturned : Phase State Call Answer → List (Call × Answer)
  | .finished call answer => [(call, answer)]
  | _ => []

def historyOf [DecidableEq Site] (route : Call → Site) (site : Site)
    (log : List (Thread × (Local × Call) × (Answer × Local))) :
    History (Local × Call) (Answer × Local) :=
  (log.map Prod.snd).filter fun entry => route entry.1.2 = site

def callsOf [DecidableEq Thread] (thread : Thread) (log : List (Thread × (Local × Call) × (Answer × Local))) :
    List (Call × Answer) :=
  (log.filter fun entry => entry.1 = thread).map fun entry => (entry.2.1.2, entry.2.2.1)

variable [DecidableEq Site] [DecidableEq Thread]

/-- The locks say who is inside, copies are current, and the log is the story of all objects and
threads. -/
structure Orderly (route : Call → Site) (step : State → Local × Call → Option ((Answer × Local) × State))
    (allowed : State → Local × Call → Prop) (start : Site → State)
    (sys : System Site Thread State Local Call Answer) : Prop where
  owned : ∀ thread site, (sys.phases thread).inside route = some site ↔ sys.owner site = some thread
  current : ∀ thread call copy, sys.phases thread = .working call copy → copy = sys.objects (route call)
  serial : ∀ site, Run step (fun _ => allowed) (start site) (historyOf route site sys.log) (sys.objects site)
  returned : ∀ thread, callsOf thread sys.log = (sys.phases thread).unreturned ++ sys.results thread

variable {route : Call → Site} {step : State → Local × Call → Option ((Answer × Local) × State)}
  {allowed : State → Local × Call → Prop} {start : Site → State} {fresh : Local}
  {sys next : System Site Thread State Local Call Answer}

theorem initial_orderly : Orderly route step allowed start
    (System.initial start fresh : System Site Thread State Local Call Answer) := by
  refine ⟨?_, ?_, fun _ => Run.start, fun _ => rfl⟩
  · intro thread site
    constructor
    · intro inside
      cases inside
    · intro owner
      cases owner
  · intro thread call copy working
    cases working

/-- Two threads are never inside of the same object. -/
theorem Orderly.exclusive (orderly : Orderly route step allowed start sys) {first second : Thread} {site : Site}
    (one : (sys.phases first).inside route = some site) (other : (sys.phases second).inside route = some site) :
    first = second := by
  have owner := (orderly.owned first site).mp one
  rw [(orderly.owned second site).mp other] at owner
  injection owner with same
  exact same.symm

theorem Orderly.owned_update (orderly : Orderly route step allowed start sys) {thread : Thread}
    {phase : Phase State Call Answer}
    (same : phase.inside route = (sys.phases thread).inside route) (other : Thread) (site : Site) :
    (Function.update sys.phases thread phase other).inside route = some site ↔ sys.owner site = some other := by
  by_cases here : other = thread
  · subst here
    rw [Function.update_self, same]
    exact orderly.owned other site
  · rw [Function.update_of_ne here]
    exact orderly.owned other site

theorem Orderly.current_update (orderly : Orderly route step allowed start sys) {thread : Thread}
    {phase : Phase State Call Answer}
    (fresh : ∀ call copy, phase = .working call copy → copy = sys.objects (route call)) (other : Thread) (call : Call)
    (copy : State) (working : Function.update sys.phases thread phase other = .working call copy) :
    copy = sys.objects (route call) := by
  by_cases here : other = thread
  · subst here
    rw [Function.update_self] at working
    exact fresh call copy working
  · rw [Function.update_of_ne here] at working
    exact orderly.current other call copy working

theorem Orderly.returned_update (orderly : Orderly route step allowed start sys) {thread : Thread}
    {phase : Phase State Call Answer}
    (same : phase.unreturned = (sys.phases thread).unreturned) (other : Thread) :
    callsOf other sys.log = (Function.update sys.phases thread phase other).unreturned ++ sys.results other := by
  by_cases here : other = thread
  · subst here
    rw [Function.update_self, same]
    exact orderly.returned other
  · rw [Function.update_of_ne here]
    exact orderly.returned other

theorem callsOf_cons (other thread : Thread) (before after : Local) (call : Call) (answer : Answer)
    (log : List (Thread × (Local × Call) × (Answer × Local))) :
    callsOf other ((thread, (before, call), (answer, after)) :: log) =
      if thread = other then (call, answer) :: callsOf other log else callsOf other log := by
  rw [callsOf, List.filter_cons]
  by_cases here : thread = other
  · rw [if_pos (by simpa using here), if_pos here, List.map_cons, callsOf]
  · rw [if_neg (by simpa using here), if_neg here, callsOf]

omit [DecidableEq Thread] in
theorem historyOf_cons (site : Site) (thread : Thread) (before after : Local) (call : Call) (answer : Answer)
    (log : List (Thread × (Local × Call) × (Answer × Local))) :
    historyOf route site ((thread, (before, call), (answer, after)) :: log) =
      if route call = site then ((before, call), (answer, after)) :: historyOf route site log
        else historyOf route site log := by
  rw [historyOf, List.map_cons, List.filter_cons]
  by_cases here : route call = site
  · rw [if_pos (by simpa using here), if_pos here, historyOf]
  · rw [if_neg (by simpa using here), if_neg here, historyOf]

/-! ## One step -/

theorem Orderly.enter (orderly : Orderly route step allowed start sys) {thread : Thread} {call : Call}
    (waiting : sys.phases thread = .waiting call) (free : sys.owner (route call) = none) :
    Orderly route step allowed start { sys with
      owner := Function.update sys.owner (route call) (some thread)
      phases := Function.update sys.phases thread (.entered call) } := by
  refine ⟨?_, ?_, orderly.serial, ?_⟩
  · intro other site
    by_cases here : other = thread
    · subst here
      dsimp only
      rw [Function.update_self, Phase.inside]
      by_cases place : site = route call
      · subst place
        rw [Function.update_self]
        exact iff_of_true rfl rfl
      · rw [Function.update_of_ne place]
        refine iff_of_false (fun same => place (Option.some.inj same).symm) ?_
        intro owner
        have inside := (orderly.owned other site).mpr owner
        rw [waiting] at inside
        cases inside
    · dsimp only
      rw [Function.update_of_ne here]
      by_cases place : site = route call
      · subst place
        rw [Function.update_self]
        refine iff_of_false ?_ fun same => here (Option.some.inj same).symm
        intro inside
        rw [(orderly.owned other _).mp inside] at free
        cases free
      · rw [Function.update_of_ne place]
        exact orderly.owned other site
  · intro other request copy working
    exact orderly.current_update (fun _ _ absent => by cases absent) other request copy working
  · intro other
    exact orderly.returned_update (by rw [waiting]; rfl) other

/-- The object becomes what the call makes of it; nobody else has a copy of it. -/
theorem Orderly.store (orderly : Orderly route step allowed start sys) {thread : Thread} {call : Call}
    {copy made : State} {answer : Answer} {after : Local} (working : sys.phases thread = .working call copy)
    (fine : allowed copy (sys.locals thread, call))
    (stepped : step copy (sys.locals thread, call) = some ((answer, after), made)) :
    Orderly route step allowed start { sys with
      objects := Function.update sys.objects (route call) made
      locals := Function.update sys.locals thread after
      phases := Function.update sys.phases thread (.finished call answer)
      log := (thread, (sys.locals thread, call), (answer, after)) :: sys.log } := by
  have mine : (sys.phases thread).inside route = some (route call) := by
    rw [working]
    rfl
  refine ⟨?_, ?_, ?_, ?_⟩
  · intro other site
    exact orderly.owned_update (by rw [mine]; rfl) other site
  · intro other request held busy
    dsimp only at busy ⊢
    by_cases here : other = thread
    · subst here
      rw [Function.update_self] at busy
      cases busy
    · rw [Function.update_of_ne here] at busy
      have elsewhere : route request ≠ route call := by
        intro same
        have inside : (sys.phases other).inside route = some (route call) := by
          rw [busy, Phase.inside, same]
        exact here (orderly.exclusive inside mine)
      rw [Function.update_of_ne elsewhere]
      exact orderly.current other request held busy
  · intro site
    dsimp only
    rw [historyOf_cons]
    by_cases place : site = route call
    · subst place
      rw [Function.update_self, if_pos rfl]
      have now := orderly.current thread call copy working
      subst now
      exact Run.step (orderly.serial _) fine stepped
    · rw [Function.update_of_ne place, if_neg fun same => place same.symm]
      exact orderly.serial site
  · intro other
    dsimp only
    rw [callsOf_cons]
    by_cases here : other = thread
    · subst here
      have before := orderly.returned other
      rw [working] at before
      rw [Function.update_self, if_pos rfl, before]
      rfl
    · rw [Function.update_of_ne here, if_neg fun same => here same.symm]
      exact orderly.returned other

theorem Orderly.leave (orderly : Orderly route step allowed start sys) {thread : Thread} {call : Call} {answer : Answer}
    (finished : sys.phases thread = .finished call answer) :
    Orderly route step allowed start { sys with
      owner := Function.update sys.owner (route call) none
      phases := Function.update sys.phases thread .outside
      results := Function.update sys.results thread ((call, answer) :: sys.results thread) } := by
  have mine : (sys.phases thread).inside route = some (route call) := by
    rw [finished]
    rfl
  refine ⟨?_, ?_, orderly.serial, ?_⟩
  · intro other site
    dsimp only
    by_cases here : other = thread
    · subst here
      rw [Function.update_self]
      refine iff_of_false (fun inside => by cases inside) ?_
      by_cases place : site = route call
      · subst place
        rw [Function.update_self]
        exact fun owner => by cases owner
      · rw [Function.update_of_ne place]
        intro owner
        have inside := (orderly.owned other site).mpr owner
        rw [mine] at inside
        exact place (Option.some.inj inside).symm
    · rw [Function.update_of_ne here]
      by_cases place : site = route call
      · subst place
        rw [Function.update_self]
        refine iff_of_false ?_ fun owner => by cases owner
        exact fun inside => here (orderly.exclusive inside mine)
      · rw [Function.update_of_ne place]
        exact orderly.owned other site
  · intro other request copy working
    exact orderly.current_update (fun _ _ absent => by cases absent) other request copy working
  · intro other
    dsimp only
    by_cases here : other = thread
    · subst here
      have before := orderly.returned other
      rw [finished] at before
      rw [Function.update_self, Function.update_self, before]
      rfl
    · rw [Function.update_of_ne here, Function.update_of_ne here]
      exact orderly.returned other

theorem Orderly.after_step (orderly : Orderly route step allowed start sys)
    (stepped : Step route step allowed sys next) :
    Orderly route step allowed start next := by
  cases stepped with
  | request thread call outside =>
      refine ⟨?_, ?_, orderly.serial, ?_⟩
      · exact orderly.owned_update (by rw [outside]; rfl)
      · exact orderly.current_update fun _ _ absent => by cases absent
      · exact orderly.returned_update (by rw [outside]; rfl)
  | enter thread call waiting free => exact orderly.enter waiting free
  | load thread call entered =>
      refine ⟨?_, ?_, orderly.serial, ?_⟩
      · exact orderly.owned_update (by rw [entered]; rfl)
      · refine orderly.current_update ?_
        intro request copy here
        injection here with same held
        rw [← held, same]
      · exact orderly.returned_update (by rw [entered]; rfl)
  | store thread call copy made answer after working fine stepped => exact orderly.store working fine stepped
  | leave thread call answer finished => exact orderly.leave finished

/-! ## All steps -/

theorem Reached.orderly (reached : Reached route step allowed start fresh sys) :
    Orderly route step allowed start sys := by
  induction reached with
  | refl => exact initial_orderly
  | tail _ stepped ih => exact ih.after_step stepped

theorem Reached.locals (reached : Reached route step allowed start fresh sys) (fine : Local → Prop)
    (initial : fine fresh)
    (preserved : ∀ site history state own call answer after made,
      Run step (fun _ => allowed) (start site) history state → fine own →
      step state (own, call) = some ((answer, after), made) → fine after)
    (thread : Thread) : fine (sys.locals thread) := by
  induction reached with
  | refl => exact initial
  | tail before stepped ih =>
      cases stepped with
      | request => exact ih
      | enter => exact ih
      | load => exact ih
      | leave => exact ih
      | store other call copy made answer after working _ stepped =>
          have orderly := Reached.orderly before
          have now := orderly.current other call copy working
          dsimp only
          by_cases here : thread = other
          · subst here
            rw [Function.update_self]
            rw [now] at stepped
            exact preserved _ _ _ _ _ _ _ _ (orderly.serial (route call)) ih stepped
          · rw [Function.update_of_ne here]
            exact ih

end Guarded
end LibKit
