import LibKit.Support.Guarded

namespace LibKit
namespace SxeSpinlock

/-!
# The spinlocks of `lib-sxe-mmap`

A lock is a word that holds zero or the thread id of its owner, and it is only
touched by compare and exchange.  A thread that wants the lock tries a limited
number of times, and the functions of an ensemble of `lib-sxe-cdb` try again until
the lock is taken.

The machine has any number of threads that call functions on objects, each of
which has such a lock.  One step is one compare and exchange of one thread, or the
loading or the storing of the object in the body of a call.  An assertion that
fails leaves its thread aborted.
-/

/-- `SXE_SPINLOCK_STATUS` -/
inductive Status where
  | notTaken
  | taken
  | alreadyTaken
deriving DecidableEq

/-- `InterlockedCompareExchange`: what was there, and what is there then. -/
def compareExchange (destination exchange comperand : Int) : Int × Int :=
  (destination, if destination = comperand then exchange else destination)

/-- `sxe_spinlock_construct` -/
def construct : Int := 0

/-- What one turn of the loop in `sxe_spinlock_take` leads to. -/
inductive Turn where
  | again (count : Nat)
  | returned (status : Status)
deriving DecidableEq

/-- One turn of `sxe_spinlock_take`, with the lock after it. -/
def takeTurn (countMax : Nat) (tid lock : Int) (count : Nat) : Turn × Int :=
  if count < countMax then
    let (oldTid, lock) := compareExchange lock tid 0
    if oldTid ≠ 0 then
      if oldTid = tid then (.returned .alreadyTaken, lock) else (.again (count + 1), lock)
    else (.returned .taken, lock)
  else (.returned .notTaken, lock)

/-- `sxe_spinlock_give`; there is no result if the assertion fails. -/
def give (tid lock : Int) : Option Int :=
  let (oldTid, lock) := compareExchange lock 0 tid
  if oldTid = tid then some lock else none

/-! ## Threads -/

variable {Site Thread State Local Call Answer : Type}

/-- Where a thread is in a call; it counts the tries while it takes the lock. -/
inductive Phase (State Call Answer : Type) where
  | outside
  | taking (call : Call) (count : Nat)
  | entered (call : Call)
  | working (call : Call) (copy : State)
  | finished (call : Call) (answer : Answer)
  | aborted

/-- The locks, the objects and the threads, with the order of the stores and what was returned. -/
structure System (Site Thread State Local Call Answer : Type) where
  locks : Site → Int
  objects : Site → State
  locals : Thread → Local
  phases : Thread → Phase State Call Answer
  results : Thread → List (Call × Answer)
  log : List (Thread × (Local × Call) × (Answer × Local))

def System.initial (start : Site → State) (fresh : Local) : System Site Thread State Local Call Answer :=
  ⟨fun _ => construct, start, fun _ => fresh, fun _ => .outside, fun _ => [], []⟩

/-- The loop around `sxe_spinlock_take` goes on until the lock is taken. -/
def afterTurn (call : Call) : Turn → Phase State Call Answer
  | .again count => .taking call count
  | .returned .taken => .entered call
  | .returned _ => .taking call 0

section

variable [DecidableEq Site] [DecidableEq Thread] (countMax : Nat) (tid : Thread → Int) (isLocked : Bool)
    (route : Call → Site)
  (work : State → Local × Call → Option ((Answer × Local) × State)) (allowed : State → Local × Call → Prop)

inductive Step : System Site Thread State Local Call Answer → System Site Thread State Local Call Answer → Prop where
  | request {sys : System Site Thread State Local Call Answer} (thread : Thread) (call : Call) :
      sys.phases thread = .outside →
      Step sys { sys with
        phases := Function.update sys.phases thread (if isLocked then .taking call 0 else .entered call) }
  | take {sys : System Site Thread State Local Call Answer} (thread : Thread) (call : Call) (count : Nat)
      (turn : Turn) (lock : Int) :
      sys.phases thread = .taking call count →
      takeTurn countMax (tid thread) (sys.locks (route call)) count = (turn, lock) →
      Step sys { sys with
        locks := Function.update sys.locks (route call) lock
        phases := Function.update sys.phases thread (afterTurn call turn) }
  | load {sys : System Site Thread State Local Call Answer} (thread : Thread) (call : Call) :
      sys.phases thread = .entered call →
      Step sys { sys with phases := Function.update sys.phases thread (.working call (sys.objects (route call))) }
  | store {sys : System Site Thread State Local Call Answer} (thread : Thread) (call : Call) (copy made : State)
      (answer : Answer)
      (after : Local) :
      sys.phases thread = .working call copy → allowed copy (sys.locals thread, call) →
      work copy (sys.locals thread, call) = some ((answer, after), made) →
      Step sys { sys with
        objects := Function.update sys.objects (route call) made
        locals := Function.update sys.locals thread after
        phases := Function.update sys.phases thread (.finished call answer)
        log := (thread, (sys.locals thread, call), (answer, after)) :: sys.log }
  | give {sys : System Site Thread State Local Call Answer} (thread : Thread) (call : Call) (answer : Answer)
      (lock : Int) :
      sys.phases thread = .finished call answer → isLocked = true →
      SxeSpinlock.give (tid thread) (sys.locks (route call)) = some lock →
      Step sys { sys with
        locks := Function.update sys.locks (route call) lock
        phases := Function.update sys.phases thread .outside
        results := Function.update sys.results thread ((call, answer) :: sys.results thread) }
  | abort {sys : System Site Thread State Local Call Answer} (thread : Thread) (call : Call) (answer : Answer) :
      sys.phases thread = .finished call answer → isLocked = true →
      SxeSpinlock.give (tid thread) (sys.locks (route call)) = none →
      Step sys { sys with phases := Function.update sys.phases thread .aborted }
  | leave {sys : System Site Thread State Local Call Answer} (thread : Thread) (call : Call) (answer : Answer) :
      sys.phases thread = .finished call answer → isLocked = false →
      Step sys { sys with
        phases := Function.update sys.phases thread .outside
        results := Function.update sys.results thread ((call, answer) :: sys.results thread) }

/-- The states that are reached by steps of the threads in any order. -/
def Reached (start : Site → State) (fresh : Local) (sys : System Site Thread State Local Call Answer) : Prop :=
  Relation.ReflTransGen (Step countMax tid isLocked route work allowed) (System.initial start fresh) sys

end

/-! ## One compare and exchange -/

section

variable {countMax count : Nat} {tid lock : Int}

/-- A turn takes a free lock, tries again, or reports why the lock was not taken. -/
theorem takeTurn_cases {turn : Turn} {after : Int} (taken : takeTurn countMax tid lock count = (turn, after)) :
    (turn = .returned .taken ∧ lock = 0 ∧ after = tid) ∨ (turn = .again (count + 1) ∧ count < countMax ∧ after = lock) ∨
      (turn = .returned .alreadyTaken ∧ lock = tid ∧ lock ≠ 0 ∧ after = lock) ∨
        (turn = .returned .notTaken ∧ countMax ≤ count ∧ after = lock) := by
  by_cases more : count < countMax
  · by_cases free : lock = 0
    · simp only [takeTurn, compareExchange, more, free, ne_eq, not_true, if_true, if_false, Prod.mk.injEq] at taken
      exact Or.inl ⟨taken.1.symm, free, taken.2.symm⟩
    · by_cases own : lock = tid
      · subst own
        simp only [takeTurn, compareExchange, more, free, ne_eq, not_false_iff, if_true, if_false,
          Prod.mk.injEq] at taken
        exact Or.inr (Or.inr (Or.inl ⟨taken.1.symm, rfl, free, taken.2.symm⟩))
      · simp only [takeTurn, compareExchange, more, free, own, ne_eq, not_false_iff, if_true, if_false,
          Prod.mk.injEq] at taken
        exact Or.inr (Or.inl ⟨taken.1.symm, more, taken.2.symm⟩)
  · simp only [takeTurn, more, if_false, Prod.mk.injEq] at taken
    exact Or.inr (Or.inr (Or.inr ⟨taken.1.symm, Nat.not_lt.mp more, taken.2.symm⟩))

theorem give_own : give tid tid = some 0 := by
  rw [give, compareExchange, if_pos rfl]
  exact if_pos rfl

end

end SxeSpinlock
end LibKit
