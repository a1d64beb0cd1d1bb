import LibKit.SxeThread.Model
import LibKit.Support.Results

namespace LibKit
namespace SxeThread

/-!
# Trackers are freed once and never lost

The list of the trackers that are kept is carried from turn to turn, together
with its end.  The first turn builds it from nothing; in a later turn it leads
to trackers that are in the list of that turn too.
-/

/-! ## Lists of trackers -/

/-- The trackers in a list, with their threads. -/
def Chain (nodes : Nat → Option Tracker) : Nat → List (Nat × Int) → Prop
  | start, [] => start = 0
  | start, (address, tid) :: rest =>
      start = address ∧ address ≠ 0 ∧ ∃ next, nodes address = some ⟨tid, next⟩ ∧ Chain nodes next rest

structure Holds (memory : Memory) (trackers : List (Nat × Int)) : Prop where
  chain : Chain memory.nodes memory.trackers trackers
  nodup : (trackers.map Prod.fst).Nodup
  below : ∀ tracker ∈ trackers, tracker.1 < memory.size
  unallocated : ∀ address, memory.size ≤ address → memory.nodes address = none
  positive : 0 < memory.size
  spent : ∀ entry ∈ memory.freed, memory.nodes entry.1 = none ∧ entry.1 < memory.size

section

variable {nodes : Nat → Option Tracker} {start : Nat} {trackers : List (Nat × Int)}

theorem Chain.congr {nodes' : Nat → Option Tracker} (chain : Chain nodes start trackers)
    (same : ∀ tracker ∈ trackers, nodes' tracker.1 = nodes tracker.1) : Chain nodes' start trackers := by
  induction trackers generalizing start with
  | nil => exact chain
  | cons tracker trackers ih =>
      rcases chain with ⟨isStart, nonzero, next, stored, rest⟩
      refine ⟨isStart, nonzero, next, ?_, ih rest fun other inside => same other (List.mem_cons_of_mem _ inside)⟩
      exact (same _ List.mem_cons_self).trans stored

theorem Chain.update (chain : Chain nodes start trackers) {address : Nat} (fresh : address ∉ trackers.map Prod.fst)
    (node : Option Tracker) : Chain (Function.update nodes address node) start trackers := by
  apply chain.congr
  intro tracker inside
  apply Function.update_of_ne
  intro same
  exact fresh (List.mem_map.mpr ⟨tracker, inside, same⟩)

theorem Chain.unique {others : List (Nat × Int)} (chain : Chain nodes start trackers)
    (chain' : Chain nodes start others) :
    trackers = others := by
  induction trackers generalizing start others with
  | nil =>
      cases others with
      | nil => rfl
      | cons other others => exact absurd (chain'.1.symm.trans chain) chain'.2.1
  | cons tracker trackers ih =>
      rcases chain with ⟨same, nonzero, next, stored, rest⟩
      cases others with
      | nil => exact absurd (same.symm.trans chain') nonzero
      | cons other others =>
          rcases chain' with ⟨same', nonzero', next', stored', rest'⟩
          have address : tracker.1 = other.1 := same.symm.trans same'
          rw [← address, stored, Option.some.injEq, Tracker.mk.injEq] at stored'
          rcases stored' with ⟨tid, follows⟩
          rw [← follows] at rest'
          rw [Prod.ext address tid, ih rest rest']

theorem Chain.stored (chain : Chain nodes start trackers) :
    ∀ tracker ∈ trackers, tracker.1 ≠ 0 ∧ ∃ next, nodes tracker.1 = some ⟨tracker.2, next⟩ := by
  induction trackers generalizing start with
  | nil =>
      intro tracker member
      cases member
  | cons first trackers ih =>
      rcases chain with ⟨same, nonzero, next, stored, rest⟩
      intro tracker member
      rcases List.mem_cons.mp member with rfl | later
      · exact ⟨nonzero, next, stored⟩
      · exact ih rest tracker later

end

theorem empty_holds : Holds Memory.empty [] where
  chain := rfl
  nodup := List.nodup_nil
  below _ member := by cases member
  unallocated _ _ := rfl
  positive := Nat.one_pos
  spent _ member := by cases member

/-- `sxe_thread_malloc` puts its tracker in front of the list. -/
theorem Holds.malloc {memory : Memory} {trackers : List (Nat × Int)} (holds : Holds memory trackers) (tid : Int)
    (trackerGranted memoryGranted : Bool) :
    Holds (threadMalloc memory tid trackerGranted memoryGranted).2
      (match (threadMalloc memory tid trackerGranted memoryGranted).1 with
      | none => trackers
      | some address => (address, tid) :: trackers) := by
  have fresh : memory.size ∉ trackers.map Prod.fst := by
    intro member
    rcases List.mem_map.mp member with ⟨tracker, inside, same⟩
    have below := holds.below tracker inside
    omega
  cases trackerGranted with
  | false => exact holds
  | true =>
      cases memoryGranted with
      | false =>
          refine ⟨holds.chain, holds.nodup, ?_, ?_, Nat.succ_pos _, ?_⟩
          · intro tracker inside
            exact Nat.lt_succ_of_lt (holds.below tracker inside)
          · intro address above
            exact holds.unallocated address (Nat.le_of_succ_le above)
          · intro entry inside
            exact ⟨(holds.spent entry inside).1, Nat.lt_succ_of_lt (holds.spent entry inside).2⟩
      | true =>
          refine ⟨⟨rfl, Nat.ne_of_gt holds.positive, memory.trackers, ?_, holds.chain.update fresh _⟩, ?_, ?_, ?_,
            Nat.succ_pos _, ?_⟩
          · exact Function.update_self _ _ _
          · exact List.nodup_cons.mpr ⟨fresh, holds.nodup⟩
          · intro tracker inside
            rcases List.mem_cons.mp inside with rfl | later
            · exact Nat.lt_succ_self _
            · exact Nat.lt_succ_of_lt (holds.below tracker later)
          · intro address above
            have other : address ≠ memory.size := Nat.ne_of_gt above
            exact (Function.update_of_ne other _ _).trans (holds.unallocated address (Nat.le_of_succ_le above))
          · intro entry inside
            rcases holds.spent entry inside with ⟨gone, below⟩
            exact ⟨(Function.update_of_ne (Nat.ne_of_lt below) _ _).trans gone, Nat.lt_succ_of_lt below⟩

/-! ## A call -/

def kept (call : Call) : Nat → List (Nat × Int) → List (Nat × Int)
  | _, [] => []
  | time, (address, tid) :: rest =>
      if call.reap time tid then kept call (time + 1) rest else (address, tid) :: kept call (time + 1) rest

/-- The trackers that a turn frees, with their times. -/
def reaped (call : Call) : Nat → List (Nat × Int) → List (Nat × Nat)
  | _, [] => []
  | time, (address, tid) :: rest =>
      if call.reap time tid then (address, time) :: reaped call (time + 1) rest else reaped call (time + 1) rest

/-- A call frees trackers of threads that are gone, and its own if all are to be
freed; what is left is in the list, each once, and is counted. -/
def Right (call : Call) (memory : Memory) (trackers : List (Nat × Int)) (result : Except Fault (Nat × Memory)) : Prop :=
  ∃ count after freed rest, result = .ok (count, after) ∧ after.freed = memory.freed ++ freed ∧ Holds after rest ∧
    (freed.map Prod.fst ++ rest.map Prod.fst).Perm (trackers.map Prod.fst) ∧ count = rest.length ∧
    ∀ entry ∈ freed, ∃ tid, (entry.1, tid) ∈ trackers ∧
      (call.gone entry.2 tid = true ∨ (tid = call.tid ∧ call.what = .all))

/-! ## One tracker -/

def Sweep.afterReap (sweep : Sweep) (address : Nat) : Sweep :=
  { sweep with memory := sweep.memory.free address sweep.time, time := sweep.time + 1 }

def Sweep.afterKeep (sweep : Sweep) (address : Nat) (tid : Int) : Sweep where
  memory := sweep.memory.setNode address (some ⟨tid, sweep.keepers⟩)
  time := sweep.time + 1
  keepers := address
  last := if sweep.last ≠ 0 then sweep.last else address
  unfreed := sweep.unfreed + 1

section

variable (sweep : Sweep) (address : Nat) (tid : Int)

theorem afterReap_self : (sweep.afterReap address).memory.nodes address = none := Function.update_self _ _ _

theorem afterKeep_self : (sweep.afterKeep address tid).memory.nodes address = some ⟨tid, sweep.keepers⟩ :=
  Function.update_self _ _ _

theorem afterKeep_other {other : Nat} (differs : other ≠ address) :
    (sweep.afterKeep address tid).memory.nodes other = sweep.memory.nodes other := Function.update_of_ne differs _ _

end

section

variable {call : Call} {sweep : Sweep} {address next : Nat} {tid : Int}

theorem visit_reap (stored : sweep.memory.nodes address = some ⟨tid, next⟩) (reap : call.reap sweep.time tid = true) :
    visit call address sweep = .ok (next, sweep.afterReap address) := by
  simp only [visit, Memory.read, stored]
  exact if_neg (not_not.mpr reap)

theorem visit_keep (stored : sweep.memory.nodes address = some ⟨tid, next⟩) (keep : call.reap sweep.time tid = false)
    (linkable : sweep.memory.linkable sweep.keepers = true) :
    visit call address sweep = .ok (next, sweep.afterKeep address tid) := by
  have linked : sweep.memory.link address sweep.keepers =
    .ok (sweep.memory.setNode address (some ⟨tid, sweep.keepers⟩)) := by
    rw [Memory.link, if_pos linkable, Memory.read, stored]
    rfl
  simp only [visit, Memory.read, stored]
  refine (if_pos (by rw [keep]; exact Bool.false_ne_true)).trans ?_
  rw [linked]
  rfl

theorem visit_fault (stored : sweep.memory.nodes address = some ⟨tid, next⟩) (keep : call.reap sweep.time tid = false)
    (dangling : sweep.memory.linkable sweep.keepers = false) : visit call address sweep = .error .freed := by
  have refused : sweep.memory.link address sweep.keepers = .error .freed := by
    rw [Memory.link, if_neg (by rw [dangling]; exact Bool.false_ne_true)]
  simp only [visit, Memory.read, stored]
  refine (if_pos (by rw [keep]; exact Bool.false_ne_true)).trans ?_
  rw [refused]
  rfl

/-- Visiting a tracker leaves the others alone. -/
theorem visit_cases (stored : sweep.memory.nodes address = some ⟨tid, next⟩) :
    visit call address sweep = .error .freed ∨ ∃ after, visit call address sweep = .ok (next, after) ∧
      ∀ other, other ≠ address → after.memory.nodes other = sweep.memory.nodes other := by
  cases reap : call.reap sweep.time tid with
  | true =>
      refine Or.inr ⟨_, visit_reap stored reap, ?_⟩
      intro other differs
      exact Function.update_of_ne differs _ _
  | false =>
      cases linkable : sweep.memory.linkable sweep.keepers with
      | false => exact Or.inl (visit_fault stored reap linkable)
      | true =>
          refine Or.inr ⟨_, visit_keep stored reap linkable, ?_⟩
          intro other differs
          exact Function.update_of_ne differs _ _

end

/-! ## All trackers of a turn -/

def visitAll (call : Call) : List (Nat × Int) → Sweep → Except Fault Sweep
  | [], sweep => .ok sweep
  | (address, _) :: rest, sweep => do
      let (_, sweep) ← visit call address sweep
      visitAll call rest sweep

theorem visitAll_next {call : Call} {address next : Nat} {tid : Int} {sweep after : Sweep}
    (visited : visit call address sweep = .ok (next, after)) (rest : List (Nat × Int)) :
    visitAll call ((address, tid) :: rest) sweep = visitAll call rest after := by
  rw [visitAll, visited]
  rfl

/-- The loop goes through the list as it was in the beginning, for the links of
a tracker change after it was visited. -/
theorem sweepFrom_eq {call : Call} {trackers : List (Nat × Int)} {sweep : Sweep} {start fuel : Nat}
    (chain : Chain sweep.memory.nodes start trackers)
    (nodup : (trackers.map Prod.fst).Nodup) (enough : trackers.length < fuel) :
    sweepFrom call fuel start sweep = visitAll call trackers sweep := by
  induction trackers generalizing sweep start fuel with
  | nil =>
      rcases fuel with _ | fuel
      · exact absurd enough (Nat.not_lt_zero _)
      rw [sweepFrom, if_pos (show start = 0 from chain)]
      rfl
  | cons tracker trackers ih =>
      rcases tracker with ⟨address, tid⟩
      rcases chain with ⟨rfl, nonzero, next, stored, rest⟩
      rcases fuel with _ | fuel
      · exact absurd enough (Nat.not_lt_zero _)
      rw [List.map_cons, List.nodup_cons] at nodup
      rw [sweepFrom, if_neg nonzero, visitAll]
      rcases @visit_cases call sweep start next tid stored with failed | ⟨after, done, others⟩
      · rw [failed]
        rfl
      · rw [done]
        refine ih (rest.congr ?_) nodup.2 (Nat.lt_of_succ_lt_succ enough)
        intro tracker inside
        apply others
        intro same
        exact nodup.1 (List.mem_map.mpr ⟨tracker, inside, same⟩)

/-! ## The first turn -/

def lastOf (trackers : List (Nat × Int)) : Nat := (trackers.getLast?.map Prod.fst).getD 0

theorem lastOf_cons (tracker : Nat × Int) (trackers : List (Nat × Int)) :
    lastOf (tracker :: trackers) = if trackers = [] then tracker.1 else lastOf trackers := by
  cases trackers with
  | nil => rfl
  | cons second trackers =>
      rw [if_neg (List.cons_ne_nil _ _), lastOf, List.getLast?_cons_cons]
      rfl

theorem lastOf_eq_zero {nodes : Nat → Option Tracker} {start : Nat} {trackers : List (Nat × Int)}
    (chain : Chain nodes start trackers) : lastOf trackers = 0 ↔ trackers = [] := by
  cases found : trackers.getLast? with
  | none =>
      have empty := List.getLast?_eq_none_iff.mp found
      rw [empty]
      exact iff_of_true rfl rfl
  | some tracker =>
      have nonzero := (chain.stored tracker (List.mem_of_getLast? found)).1
      refine iff_of_false ?_ ?_
      · rw [lastOf, found]
        exact nonzero
      · rintro rfl
        cases found

/-- What a turn has done after some trackers, with those that it has kept so
far. -/
structure Swept (call : Call) (sweep : Sweep) (todo done : List (Nat × Int)) (after : Sweep) : Prop where
  chain : Chain after.memory.nodes after.keepers ((kept call sweep.time todo).reverse ++ done)
  last : after.last = lastOf ((kept call sweep.time todo).reverse ++ done)
  time : after.time = sweep.time + todo.length
  unfreed : after.unfreed = sweep.unfreed + (kept call sweep.time todo).length
  freed : after.memory.freed = sweep.memory.freed ++ reaped call sweep.time todo
  head : after.memory.trackers = sweep.memory.trackers
  size : after.memory.size = sweep.memory.size
  others : ∀ other, other ∉ todo.map Prod.fst → after.memory.nodes other = sweep.memory.nodes other
  gone : ∀ entry ∈ reaped call sweep.time todo, after.memory.nodes entry.1 = none

theorem reaped_mem {call : Call} {time : Nat} {todo : List (Nat × Int)} {entry : Nat × Nat}
    (member : entry ∈ reaped call time todo) : ∃ tid, (entry.1, tid) ∈ todo ∧ call.reap entry.2 tid = true := by
  induction todo generalizing time with
  | nil => cases member
  | cons tracker todo ih =>
      rcases tracker with ⟨address, tid⟩
      rw [reaped] at member
      split at member
      · rename_i reap
        rcases List.mem_cons.mp member with rfl | later
        · exact ⟨tid, List.mem_cons_self, reap⟩
        · rcases ih later with ⟨other, inside, isReaped⟩
          exact ⟨other, List.mem_cons_of_mem _ inside, isReaped⟩
      · rcases ih member with ⟨other, inside, isReaped⟩
        exact ⟨other, List.mem_cons_of_mem _ inside, isReaped⟩

theorem kept_mem {call : Call} {time : Nat} {todo : List (Nat × Int)} {tracker : Nat × Int}
    (member : tracker ∈ kept call time todo) : tracker ∈ todo := by
  induction todo generalizing time with
  | nil => cases member
  | cons first todo ih =>
      rw [kept] at member
      split at member
      · exact List.mem_cons_of_mem _ (ih member)
      · rcases List.mem_cons.mp member with rfl | later
        · exact List.mem_cons_self
        · exact List.mem_cons_of_mem _ (ih later)

/-- The trackers are freed or kept. -/
theorem reaped_kept_perm (call : Call) (time : Nat) (todo : List (Nat × Int)) :
    ((reaped call time todo).map Prod.fst ++ (kept call time todo).map Prod.fst).Perm (todo.map Prod.fst) := by
  induction todo generalizing time with
  | nil => exact List.Perm.nil
  | cons tracker todo ih =>
      rcases tracker with ⟨address, tid⟩
      rw [reaped, kept]
      split
      · exact (ih (time + 1)).cons address
      · rw [List.map_cons, List.map_cons]
        exact List.perm_middle.trans ((ih (time + 1)).cons address)

theorem kept_nodup {call : Call} {time : Nat} {todo : List (Nat × Int)} (nodup : (todo.map Prod.fst).Nodup) :
    ((kept call time todo).map Prod.fst).Nodup :=
  (List.nodup_append.mp ((reaped_kept_perm call time todo).nodup_iff.mpr nodup)).2.1

theorem visitAll_swept {call : Call} {todo done : List (Nat × Int)} {sweep : Sweep}
    (stored : ∀ tracker ∈ todo, tracker.1 ≠ 0 ∧ ∃ next, sweep.memory.nodes tracker.1 = some ⟨tracker.2, next⟩)
    (nodup : (todo.map Prod.fst ++ done.map Prod.fst).Nodup) (chain : Chain sweep.memory.nodes sweep.keepers done)
    (last : sweep.last = lastOf done) : ∃ after, visitAll call todo sweep = .ok after ∧
      Swept call sweep todo done after := by
  induction todo generalizing done sweep with
  | nil =>
      refine ⟨sweep, rfl, chain, last, rfl, rfl, (List.append_nil _).symm, rfl, rfl, fun _ _ => rfl, ?_⟩
      intro entry member
      cases member
  | cons tracker todo ih =>
      rcases tracker with ⟨address, tid⟩
      rcases stored _ List.mem_cons_self with ⟨nonzero, next, here⟩
      rw [List.map_cons, List.cons_append, List.nodup_cons, List.mem_append, not_or] at nodup
      rcases nodup with ⟨⟨notTodo, notDone⟩, nodup⟩
      have differ : ∀ other ∈ todo, other.1 ≠ address := by
        intro other inside same
        exact notTodo (List.mem_map.mpr ⟨other, inside, same⟩)
      rw [visitAll]
      cases reap : call.reap sweep.time tid with
      | true =>
          rw [visit_reap here reap]
          have further := @ih done (sweep.afterReap address) (by
            intro other inside
            rcases stored other (List.mem_cons_of_mem _ inside) with ⟨nonzero, next, there⟩
            exact ⟨nonzero, next, (Function.update_of_ne (differ other inside) _ _).trans there⟩) nodup
            (chain.update notDone none) last
          rcases further with ⟨after, isAfter, swept⟩
          have isKept : kept call sweep.time ((address, tid) :: todo) = kept call (sweep.time + 1) todo := by
            rw [kept, if_pos reap]
          have isReaped : reaped call sweep.time ((address, tid) :: todo) = (address, sweep.time) :: reaped call
            (sweep.time + 1) todo := by
            rw [reaped, if_pos reap]
          refine ⟨after, isAfter, ?_⟩
          constructor
          · rw [isKept]
            exact swept.chain
          · rw [isKept]
            exact swept.last
          · rw [swept.time, List.length_cons]
            simp only [Sweep.afterReap]
            omega
          · rw [isKept]
            exact swept.unfreed
          · rw [isReaped, swept.freed]
            exact List.append_assoc _ _ _
          · exact swept.head
          · exact swept.size
          · intro other outside
            rw [List.map_cons, List.mem_cons, not_or] at outside
            rw [swept.others other outside.2]
            exact Function.update_of_ne outside.1 _ _
          · intro entry member
            rw [isReaped] at member
            rcases List.mem_cons.mp member with rfl | later
            · rw [swept.others address notTodo]
              exact Function.update_self _ _ _
            · exact swept.gone entry later
      | false =>
          have linkable : sweep.memory.linkable sweep.keepers = true := by
            rcases done with _ | ⟨first, done⟩
            · rw [Memory.linkable, decide_eq_true_eq]
              exact Or.inl chain
            · rcases chain with ⟨isFirst, -, follows, there, -⟩
              rw [Memory.linkable, decide_eq_true_eq, isFirst, there]
              exact Or.inr rfl
          rw [visit_keep here reap linkable]
          have isLast : (if sweep.last ≠ 0 then sweep.last else address) = lastOf ((address, tid) :: done) := by
            rw [last, lastOf_cons]
            by_cases empty : done = []
            · rw [if_pos empty, empty]
              rfl
            · rw [if_neg empty, if_pos (mt (lastOf_eq_zero chain).mp empty)]
          have further := @ih ((address, tid) :: done)
            (sweep.afterKeep address tid) (by
            intro other inside
            rcases stored other (List.mem_cons_of_mem _ inside) with ⟨nonzero, next, there⟩
            exact ⟨nonzero, next, (Function.update_of_ne (differ other inside) _ _).trans there⟩)
            (by
              rw [List.map_cons]
              exact List.nodup_middle.mpr (List.nodup_cons.mpr ⟨by
                rw [List.mem_append, not_or]
                exact ⟨notTodo, notDone⟩, nodup⟩))
            ⟨rfl, nonzero, sweep.keepers, Function.update_self _ _ _, chain.update notDone _⟩ isLast
          rcases further with ⟨after, isAfter, swept⟩
          have isKept : kept call sweep.time ((address, tid) :: todo) =
            (address, tid) :: kept call (sweep.time + 1) todo := by
            rw [kept, reap, if_neg Bool.false_ne_true]
          have isReaped : reaped call sweep.time ((address, tid) :: todo) = reaped call (sweep.time + 1) todo := by
            rw [reaped, reap, if_neg Bool.false_ne_true]
          have order : (kept call sweep.time ((address, tid) :: todo)).reverse ++ done =
              (kept call (sweep.time + 1) todo).reverse ++ (address, tid) :: done := by
            rw [isKept, List.reverse_cons, List.append_assoc]
            rfl
          refine ⟨after, isAfter, ?_⟩
          constructor
          · rw [order]
            exact swept.chain
          · rw [order]
            exact swept.last
          · rw [swept.time, List.length_cons]
            simp only [Sweep.afterKeep]
            omega
          · rw [isKept, swept.unfreed, List.length_cons]
            simp only [Sweep.afterKeep]
            omega
          · rw [isReaped]
            exact swept.freed
          · exact swept.head
          · exact swept.size
          · intro other outside
            rw [List.map_cons, List.mem_cons, not_or] at outside
            rw [swept.others other outside.2]
            exact Function.update_of_ne outside.1 _ _
          · intro entry member
            rw [isReaped] at member
            exact swept.gone entry member

theorem Holds.length_le {memory : Memory} {trackers : List (Nat × Int)} (holds : Holds memory trackers) :
    trackers.length ≤ memory.size := by
  have within : trackers.map Prod.fst ⊆ List.range memory.size := by
    intro address inside
    rcases List.mem_map.mp inside with ⟨tracker, member, rfl⟩
    exact List.mem_range.mpr (holds.below tracker member)
  have bound := (holds.nodup.subperm within).length_le
  rw [List.length_map, List.length_range] at bound
  exact bound

theorem Chain.end {nodes : Nat → Option Tracker} {start : Nat} {trackers : List (Nat × Int)} {tracker : Nat × Int}
    (chain : Chain nodes start (trackers ++ [tracker])) : tracker.1 ≠ 0 ∧ nodes tracker.1 = some ⟨tracker.2, 0⟩ := by
  induction trackers generalizing start with
  | nil =>
      rcases chain with ⟨-, nonzero, next, stored, rest⟩
      have none : next = 0 := rest
      rw [none] at stored
      exact ⟨nonzero, stored⟩
  | cons first trackers ih =>
      rcases chain with ⟨-, -, next, -, rest⟩
      exact ih rest

theorem lastOf_concat (trackers : List (Nat × Int)) (tracker : Nat × Int) :
    lastOf (trackers ++ [tracker]) = tracker.1 := by
  rw [lastOf, List.getLast?_concat]
  rfl

theorem link_end {memory : Memory} {address : Nat} {tid : Int} (stored : memory.nodes address = some ⟨tid, 0⟩) :
    memory.link address 0 = .ok memory := by
  rw [Memory.link, if_pos (show memory.linkable 0 = true from rfl), Memory.read, stored]
  simp only [Memory.setNode, ok_bind, ← stored, Function.update_eq_self]

theorem first_turn (call : Call) {memory : Memory} {trackers : List (Nat × Int)} (holds : Holds memory trackers) :
    ∃ after, turn call ⟨memory, 0, 0, 0, 0⟩ = .ok after ∧ Holds after.memory (kept call 0 trackers).reverse ∧
      after.keepers = after.memory.trackers ∧ after.last = lastOf (kept call 0 trackers).reverse ∧
      after.time = trackers.length ∧ after.unfreed = (kept call 0 trackers).length ∧
      after.memory.freed = memory.freed ++ reaped call 0 trackers := by
  have chain : Chain (Sweep.acquire ⟨memory, 0, 0, 0, 0⟩).memory.nodes memory.trackers trackers := holds.chain
  have enough : trackers.length < memory.size + 1 := Nat.lt_succ_of_le holds.length_le
  have nodup : (trackers.map Prod.fst ++ ([] : List (Nat × Int)).map Prod.fst).Nodup := by
    rw [List.map_nil, List.append_nil]
    exact holds.nodup
  rcases @visitAll_swept call trackers [] ⟨{ memory with trackers := 0 }, 0, 0, 0,
    0⟩ holds.chain.stored nodup rfl rfl with
    ⟨after, visited, swept⟩
  have final := swept.chain
  have last := swept.last
  rw [List.append_nil] at final last
  have turned : turn call ⟨memory, 0, 0, 0, 0⟩ = publish after := by
    rw [turn, sweepFrom_eq chain holds.nodup enough]
    exact congrArg (· >>= publish) visited
  have published : publish after = .ok { after with memory := { after.memory with trackers := after.keepers } } := by
    rw [publish]
    rcases List.eq_nil_or_concat (kept call 0 trackers).reverse with empty | ⟨others, tracker, form⟩
    · rw [empty] at final
      have none : after.keepers = 0 := final
      have same : ({ after.memory with trackers := after.keepers } : Memory) = after.memory := by
        rw [none, ← show after.memory.trackers = 0 from swept.head]
      rw [if_neg (not_not.mpr none), same]
    · rw [List.concat_eq_append] at form
      rw [form] at final last
      have ends := final.end
      have some : after.keepers ≠ 0 ∧ after.memory.linkable after.keepers = true := by
        rcases others with _ | ⟨first, others⟩
        · rcases final with ⟨isFirst, nonzero, next, stored, -⟩
          rw [isFirst, Memory.linkable, decide_eq_true_eq, stored]
          exact ⟨nonzero, Or.inr rfl⟩
        · rcases final with ⟨isFirst, nonzero, next, stored, -⟩
          rw [isFirst, Memory.linkable, decide_eq_true_eq, stored]
          exact ⟨nonzero, Or.inr rfl⟩
      have linked : after.memory.link after.last after.memory.trackers = .ok after.memory := by
        rw [last, lastOf_concat, swept.head]
        exact link_end ends.2
      rw [if_pos some.1, linked, ok_bind, if_pos some.2]
  have within : ∀ tracker ∈ kept call 0 trackers, tracker ∈ trackers := fun _ => kept_mem
  refine ⟨_, turned.trans published, ?_, rfl, last, ?_, ?_, swept.freed⟩
  · refine ⟨final, ?_, ?_, ?_, ?_, ?_⟩
    · rw [List.map_reverse]
      exact List.nodup_reverse.mpr (kept_nodup holds.nodup)
    · intro tracker inside
      dsimp only
      rw [swept.size]
      exact holds.below tracker (within tracker (List.mem_reverse.mp inside))
    · intro address above
      dsimp only at above ⊢
      rw [swept.size] at above
      rw [swept.others]
      · exact holds.unallocated address above
      · intro inside
        rcases List.mem_map.mp inside with ⟨tracker, member, rfl⟩
        exact Nat.not_lt.mpr above (holds.below tracker member)
    · dsimp only
      rw [swept.size]
      exact holds.positive
    · intro entry member
      dsimp only at member ⊢
      rw [swept.size]
      rw [swept.freed] at member
      rcases List.mem_append.mp member with before | now
      · rcases holds.spent entry before with ⟨gone, below⟩
        refine ⟨?_, below⟩
        rw [swept.others]
        · exact gone
        · intro inside
          rcases List.mem_map.mp inside with ⟨tracker, isTracker, same⟩
          rcases (holds.chain.stored tracker isTracker).2 with ⟨next, stored⟩
          rw [same, gone] at stored
          cases stored
      · rcases reaped_mem now with ⟨tid, inside, -⟩
        exact ⟨swept.gone entry now, holds.below _ inside⟩
  · rw [swept.time]
    exact Nat.zero_add _
  · rw [swept.unfreed]
    exact Nat.zero_add _

/-! ## A list of one tracker -/

/-- A turn begins with one tracker, which the turn before has kept. -/
structure Single (address : Nat) (tid : Int) (sweep : Sweep) : Prop where
  nonzero : address ≠ 0
  head : sweep.memory.trackers = address
  stored : sweep.memory.nodes address = some ⟨tid, 0⟩
  keepers : sweep.keepers = address
  last : sweep.last = address
  positive : 0 < sweep.memory.size

section

variable {call : Call} {address : Nat} {tid : Int} {sweep : Sweep}

theorem Single.turn_eq (single : Single address tid sweep) :
    turn call sweep = (visit call address sweep.acquire >>= fun visited => publish visited.2) := by
  have chain : Chain sweep.acquire.memory.nodes sweep.memory.trackers [(address, tid)] :=
    ⟨single.head, single.nonzero, 0, single.stored, rfl⟩
  rw [turn, sweepFrom_eq chain (List.nodup_singleton _) (Nat.succ_lt_succ single.positive)]
  simp only [visitAll]
  cases visit call address sweep.acquire with
  | error fault => rfl
  | ok visited => rfl

theorem Single.acquired (single : Single address tid sweep) : sweep.acquire.memory.nodes address = some ⟨tid, 0⟩ :=
  single.stored

/-- A tracker that is freed in a later turn is linked and put back. -/
theorem Single.turn_reap (single : Single address tid sweep) (reap : call.reap sweep.time tid = true) :
    turn call sweep = .error .freed := by
  have nonzero : sweep.keepers ≠ 0 := by
    rw [single.keepers]
    exact single.nonzero
  have missing : (sweep.acquire.memory.free address sweep.time).link sweep.last 0 = .error .freed := by
    rw [Memory.link, if_pos (show Memory.linkable _ 0 = true from rfl), single.last, Memory.read]
    simp only [Memory.free, Memory.setNode, Function.update_self, error_bind]
  rw [single.turn_eq, visit_reap single.acquired reap, ok_bind, publish]
  exact (if_pos nonzero).trans (congrArg (· >>= _) missing)

theorem Single.turn_keep (single : Single address tid sweep) (keep : call.reap sweep.time tid = false) :
    turn call sweep = .ok { sweep with time := sweep.time + 1, unfreed := 1 } := by
  have linkable : sweep.acquire.memory.linkable sweep.acquire.keepers = true := by
    rw [Memory.linkable, decide_eq_true_eq, show sweep.acquire.keepers = address from single.keepers, single.acquired]
    exact Or.inr rfl
  have isLast : (if sweep.acquire.last ≠ 0 then sweep.acquire.last else address) = address := by
    rw [show sweep.acquire.last = address from single.last, ite_self]
  have looped : (sweep.acquire.memory.setNode address (some ⟨tid, sweep.acquire.keepers⟩)).link address 0 =
      .ok sweep.acquire.memory := by
    have nodes : Function.update sweep.acquire.memory.nodes address (some ⟨tid, 0⟩) = sweep.acquire.memory.nodes := by
      rw [← single.acquired, Function.update_eq_self]
    rw [Memory.link, if_pos (show Memory.linkable _ 0 = true from rfl), Memory.read]
    simp only [Memory.setNode, Function.update_self, ok_bind, Function.update_idem, nodes]
  have back : sweep.acquire.memory.linkable address = true := by
    rw [show sweep.acquire.keepers = address from single.keepers] at linkable
    exact linkable
  have memory : ({ sweep.acquire.memory with trackers := address } : Memory) = sweep.memory := by
    rw [← single.head]
    rfl
  rw [single.turn_eq, visit_keep single.acquired keep linkable, ok_bind, publish]
  simp only [Sweep.afterKeep, isLast]
  refine (if_pos single.nonzero).trans ?_
  refine (congrArg (· >>= _) looped).trans ?_
  refine (if_pos back).trans ?_
  rw [memory]
  have keepers := single.keepers
  have last := single.last
  rcases sweep with ⟨memory, time, keepers, last, unfreed⟩
  dsimp only at keepers last ⊢
  rw [keepers, last]
  rfl

/-- The later turns leave the one tracker in the list as long as its thread is
there, and go wrong when it is gone. -/
theorem Single.turns_eq (single : Single address tid sweep) (all : call.what = .all) (tries : Nat) :
    ((∀ retry, retry < tries → call.reap (sweep.time + retry) tid = false) ∧
      turns call tries sweep =
        .ok { sweep with time := sweep.time + tries, unfreed := if tries = 0 then sweep.unfreed else 1 }) ∨
    ((∃ retry, retry < tries ∧ call.reap (sweep.time + retry) tid = true) ∧
      turns call tries sweep = .error .freed) := by
  induction tries generalizing sweep with
  | zero =>
      refine Or.inl ⟨?_, rfl⟩
      intro retry few
      exact absurd few (Nat.not_lt_zero _)
  | succ tries ih =>
      cases reap : call.reap sweep.time tid with
      | true =>
          refine Or.inr ⟨⟨0, Nat.succ_pos _, reap⟩, ?_⟩
          rw [turns, single.turn_reap reap, error_bind]
      | false =>
          have next : Single address tid { sweep with time := sweep.time + 1, unfreed := 1 } :=
            ⟨single.nonzero, single.head, single.stored, single.keepers, single.last, single.positive⟩
          have goes : ¬ (call.what ≠ .all ∨ (1 : Nat) = 0) := by
            rintro (other | never)
            · exact other all
            · exact absurd never (by decide)
          rw [turns, single.turn_keep reap, ok_bind, if_neg goes]
          rcases ih next with ⟨alive, done⟩ | ⟨⟨retry, few, dead⟩, failed⟩
          · refine Or.inl ⟨?_, ?_⟩
            · intro retry few
              cases retry with
              | zero => exact reap
              | succ retry =>
                  have later := alive retry (Nat.lt_of_succ_lt_succ few)
                  rw [← Nat.add_assoc, Nat.add_right_comm]
                  exact later
            · rw [done]
              simp only [Nat.succ_ne_zero, if_false, ite_self, Except.ok.injEq, Sweep.mk.injEq, true_and, and_true]
              omega
          · refine Or.inr ⟨⟨retry + 1, Nat.succ_lt_succ few, ?_⟩, failed⟩
            rw [← Nat.add_assoc, Nat.add_right_comm]
            exact dead

end

/-! ## A list of several trackers -/

section

variable {call : Call} {todo : List (Nat × Int)} {sweep : Sweep}

/-- Once the first keeper was freed, keeping a tracker links it. -/
theorem visitAll_dangling
    (stored : ∀ tracker ∈ todo, ∃ next, sweep.memory.nodes tracker.1 = some ⟨tracker.2, next⟩)
    (nodup : (todo.map Prod.fst).Nodup) (nonzero : sweep.keepers ≠ 0)
    (freed : sweep.memory.nodes sweep.keepers = none) :
    visitAll call todo sweep = .error .freed ∨ ∃ after, visitAll call todo sweep = .ok after ∧
      after.keepers = sweep.keepers ∧ after.last = sweep.last ∧
        (∀ tracker ∈ todo, after.memory.nodes tracker.1 = none) ∧
      ∀ other, other ∉ todo.map Prod.fst → after.memory.nodes other = sweep.memory.nodes other := by
  induction todo generalizing sweep with
  | nil =>
      refine Or.inr ⟨sweep, rfl, rfl, rfl, ?_, fun _ _ => rfl⟩
      intro tracker member
      cases member
  | cons tracker todo ih =>
      rcases tracker with ⟨address, tid⟩
      rcases stored _ List.mem_cons_self with ⟨next, here⟩
      rw [List.map_cons, List.nodup_cons] at nodup
      cases reap : call.reap sweep.time tid with
      | false =>
          have dangling : sweep.memory.linkable sweep.keepers = false := by
            rw [Memory.linkable, decide_eq_false_iff_not, not_or, freed]
            exact ⟨nonzero, Bool.false_ne_true⟩
          rw [visitAll, visit_fault here reap dangling]
          exact Or.inl rfl
      | true =>
          have other : sweep.keepers ≠ address := by
            intro same
            rw [same, here] at freed
            cases freed
          rw [visitAll_next (visit_reap here reap)]
          have further := @ih (sweep.afterReap address) (by
            intro tracker inside
            rcases stored tracker (List.mem_cons_of_mem _ inside) with ⟨next, there⟩
            refine ⟨next, (Function.update_of_ne ?_ _ _).trans there⟩
            intro same
            exact nodup.1 (List.mem_map.mpr ⟨tracker, inside, same⟩)) nodup.2 nonzero
            ((Function.update_of_ne other _ _).trans freed)
          rcases further with failed | ⟨after, done, keepers, last, gone, others⟩
          · exact Or.inl failed
          · refine Or.inr ⟨after, done, keepers, last, ?_, ?_⟩
            · intro tracker inside
              rcases List.mem_cons.mp inside with rfl | later
              · exact (others address nodup.1).trans (Function.update_self _ _ _)
              · exact gone tracker later
            · intro outside notInside
              rw [List.map_cons, List.mem_cons, not_or] at notInside
              exact (others outside notInside.2).trans (Function.update_of_ne notInside.1 _ _)

/-- As long as the first keeper is there, trackers are freed and kept. -/
theorem visitAll_alive
    (stored : ∀ tracker ∈ todo, tracker.1 ≠ 0 ∧ ∃ next, sweep.memory.nodes tracker.1 = some ⟨tracker.2, next⟩)
    (nodup : (todo.map Prod.fst).Nodup) (nonzero : sweep.keepers ≠ 0)
    (alive : (sweep.memory.nodes sweep.keepers).isSome) (outside : sweep.keepers ∉ todo.map Prod.fst)
    (last : sweep.last ≠ 0) :
    ∃ after, visitAll call todo sweep = .ok after ∧ after.keepers ≠ 0 ∧ (after.memory.nodes after.keepers).isSome ∧
      after.last = sweep.last ∧ sweep.unfreed ≤ after.unfreed ∧ after.memory.trackers = sweep.memory.trackers ∧
      after.memory.size = sweep.memory.size ∧
      ∀ other, other ∉ todo.map Prod.fst → after.memory.nodes other = sweep.memory.nodes other := by
  induction todo generalizing sweep with
  | nil => exact ⟨sweep, rfl, nonzero, alive, rfl, Nat.le_refl _, rfl, rfl, fun _ _ => rfl⟩
  | cons tracker todo ih =>
      rcases tracker with ⟨address, tid⟩
      rcases stored _ List.mem_cons_self with ⟨nonzero', next, here⟩
      rw [List.map_cons, List.nodup_cons] at nodup
      rw [List.map_cons, List.mem_cons, not_or] at outside
      have differ : ∀ other ∈ todo, other.1 ≠ address := by
        intro other inside same
        exact nodup.1 (List.mem_map.mpr ⟨other, inside, same⟩)
      cases reap : call.reap sweep.time tid with
      | true =>
          rw [visitAll_next (visit_reap here reap)]
          have further := @ih (sweep.afterReap address) (by
            intro other inside
            rcases stored other (List.mem_cons_of_mem _ inside) with ⟨nonzero, next, there⟩
            exact ⟨nonzero, next, (Function.update_of_ne (differ other inside) _ _).trans there⟩) nodup.2 nonzero
            ((congrArg Option.isSome (Function.update_of_ne outside.1 _ _)).trans alive) outside.2 last
          rcases further with ⟨after, done, nonzero, alive, isLast, count, head, size, others⟩
          refine ⟨after, done, nonzero, alive, isLast, count, head, size, ?_⟩
          intro other notInside
          rw [List.map_cons, List.mem_cons, not_or] at notInside
          exact (others other notInside.2).trans (Function.update_of_ne notInside.1 _ _)
      | false =>
          have linkable : sweep.memory.linkable sweep.keepers = true := by
            rw [Memory.linkable, decide_eq_true_eq]
            exact Or.inr alive
          have isLast : (sweep.afterKeep address tid).last = sweep.last := if_pos last
          rw [visitAll_next (visit_keep here reap linkable)]
          have further := @ih (sweep.afterKeep address tid) (by
            intro other inside
            rcases stored other (List.mem_cons_of_mem _ inside) with ⟨nonzero, next, there⟩
            exact ⟨nonzero, next, (Function.update_of_ne (differ other inside) _ _).trans there⟩) nodup.2 nonzero'
            (congrArg Option.isSome (afterKeep_self sweep address tid)) nodup.1 (by rw [isLast]; exact last)
          rcases further with ⟨after, done, nonzero, alive, sameLast, count, head, size, others⟩
          refine ⟨after, done, nonzero, alive, sameLast.trans isLast, Nat.le_of_succ_le count, head, size, ?_⟩
          intro other notInside
          rw [List.map_cons, List.mem_cons, not_or] at notInside
          exact (others other notInside.2).trans (Function.update_of_ne notInside.1 _ _)

end

theorem visitAll_append (call : Call) (first second : List (Nat × Int)) (sweep : Sweep) :
    visitAll call (first ++ second) sweep = (visitAll call first sweep >>= visitAll call second) := by
  induction first generalizing sweep with
  | nil => rfl
  | cons tracker first ih =>
      rcases tracker with ⟨address, tid⟩
      rw [List.cons_append, visitAll, visitAll]
      cases visit call address sweep with
      | error fault => rfl
      | ok visited => exact ih visited.2

theorem publish_freed {sweep : Sweep} (nonzero : sweep.keepers ≠ 0) (freed : sweep.memory.nodes sweep.last = none) :
    publish sweep = .error .freed := by
  rw [publish, if_pos nonzero, Memory.link]
  split
  · rw [Memory.read, freed]
    rfl
  · rfl

/-- The second turn over several trackers goes wrong, or it loses the first. -/
theorem second_turn {call : Call} {sweep : Sweep} {first last : Nat × Int} {between : List (Nat × Int)}
    (holds : Holds sweep.memory (first :: (between ++ [last]))) (keepers : sweep.keepers = first.1)
    (isLast : sweep.last = last.1) :
    turn call sweep = .error .freed ∨ ∃ after, turn call sweep = .ok after ∧ Single last.1 last.2 after ∧
      (after.memory.nodes first.1).isSome ∧ after.unfreed ≠ 0 := by
  have stored := holds.chain.stored
  have nodup := holds.nodup
  rcases stored first List.mem_cons_self with ⟨firstNonzero, next, firstStored⟩
  rcases stored last (List.mem_cons_of_mem _ (List.mem_append_right _ (List.mem_singleton_self _))) with
    ⟨lastNonzero, -⟩
  rw [List.map_cons, List.nodup_cons] at nodup
  have chain : Chain sweep.acquire.memory.nodes sweep.memory.trackers (first :: (between ++ [last])) := holds.chain
  have turned : turn call sweep = (visitAll call (first :: (between ++ [last])) sweep.acquire >>= publish) := by
    rw [turn, sweepFrom_eq chain holds.nodup (Nat.lt_succ_of_le holds.length_le)]
  have later : ∀ tracker ∈ between ++ [last], tracker.1 ≠ first.1 := by
    intro tracker inside same
    exact nodup.1 (List.mem_map.mpr ⟨tracker, inside, same⟩)
  have isKeeper : sweep.acquire.keepers = first.1 := keepers
  have isEnd : sweep.acquire.last = last.1 := isLast
  have after : ∀ tracker ∈ between ++ [last], ∃ next, sweep.acquire.memory.nodes tracker.1 = some ⟨tracker.2, next⟩ :=
    fun tracker inside => (stored tracker (List.mem_cons_of_mem _ inside)).2
  rw [turned]
  cases reap : call.reap sweep.time first.2 with
  | true =>
      refine Or.inl ?_
      rw [visitAll_next (@visit_reap call sweep.acquire first.1 next first.2 firstStored reap)]
      have dangling := @visitAll_dangling call (between ++ [last]) (sweep.acquire.afterReap first.1) (by
          intro tracker inside
          rcases after tracker inside with ⟨next, there⟩
          exact ⟨next, (Function.update_of_ne (later tracker inside) _ _).trans there⟩) nodup.2
          (show sweep.acquire.keepers ≠ 0 from isKeeper.symm ▸ firstNonzero)
          (by rw [show (sweep.acquire.afterReap first.1).keepers = first.1 from isKeeper]; exact afterReap_self _ _)
      rcases dangling with failed | ⟨final, done, same, sameLast, gone, -⟩
      · rw [failed]
        rfl
      · rw [done, ok_bind]
        apply publish_freed
        · rw [same]
          exact (show sweep.acquire.keepers ≠ 0 from isKeeper.symm ▸ firstNonzero)
        · rw [sameLast, show (sweep.acquire.afterReap first.1).last = last.1 from isEnd]
          exact gone last (List.mem_append_right _ (List.mem_singleton_self _))
  | false =>
      have linkable : sweep.acquire.memory.linkable sweep.acquire.keepers = true := by
        rw [Memory.linkable, decide_eq_true_eq, isKeeper]
        exact Or.inr (congrArg Option.isSome firstStored)
      rw [visitAll_next (@visit_keep call sweep.acquire first.1 next first.2 firstStored reap linkable),
        visitAll_append]
      have endStays : (sweep.acquire.afterKeep first.1 first.2).last = last.1 := by
        refine (if_pos ?_).trans isEnd
        rw [isEnd]
        exact lastNonzero
      rw [List.map_append, List.nodup_append] at nodup
      rcases nodup with ⟨notLater, nodupBetween, -, across⟩
      rw [List.mem_append, not_or] at notLater
      have lastOutside : last.1 ∉ between.map Prod.fst := by
        intro inside
        exact across _ inside _ (List.mem_map.mpr ⟨last, List.mem_singleton_self _, rfl⟩) rfl
      have alive := @visitAll_alive call between (sweep.acquire.afterKeep first.1 first.2) (by
          intro tracker inside
          have member := List.mem_append_left [last] inside
          rcases after tracker member with ⟨next, there⟩
          exact ⟨(stored tracker (List.mem_cons_of_mem _ member)).1, next,
            (Function.update_of_ne (later tracker member) _ _).trans there⟩) nodupBetween firstNonzero
          (congrArg Option.isSome (afterKeep_self sweep.acquire first.1 first.2)) notLater.1
          (by rw [endStays]; exact lastNonzero)
      rcases alive with ⟨middle, done, nonzero, isSome, middleLast, count, head, size, others⟩
      rw [done, ok_bind]
      have lastStored : ∃ next, middle.memory.nodes last.1 = some ⟨last.2, next⟩ := by
        have member : last ∈ between ++ [last] := List.mem_append_right _ (List.mem_singleton_self _)
        rcases after last member with ⟨next, there⟩
        refine ⟨next, (others last.1 lastOutside).trans ((Function.update_of_ne (later last member) _ _).trans there)⟩
      rcases lastStored with ⟨next', lastStored⟩
      cases reapLast : call.reap middle.time last.2 with
      | true =>
          refine Or.inl ?_
          rw [visitAll_next (@visit_reap call middle last.1 next' last.2 lastStored reapLast)]
          refine @publish_freed (middle.afterReap last.1) nonzero ?_
          rw [show (middle.afterReap last.1).last = last.1 from middleLast.trans endStays]
          exact Function.update_self _ _ _
      | false =>
          have keepable : middle.memory.linkable middle.keepers = true := by
            rw [Memory.linkable, decide_eq_true_eq]
            exact Or.inr isSome
          have sameEnd : (middle.afterKeep last.1 last.2).last = last.1 := by
            have isMiddle : middle.last = last.1 := middleLast.trans endStays
            refine (if_pos ?_).trans isMiddle
            rw [isMiddle]
            exact lastNonzero
          have noTrackers : (middle.afterKeep last.1 last.2).memory.trackers = 0 := head
          have kept := afterKeep_self middle last.1 last.2
          rw [visitAll_next (@visit_keep call middle last.1 next' last.2 lastStored reapLast keepable)]
          have linked : (middle.afterKeep last.1 last.2).memory.link (middle.afterKeep last.1 last.2).last
              (middle.afterKeep last.1 last.2).memory.trackers =
                .ok ((middle.afterKeep last.1 last.2).memory.setNode last.1 (some ⟨last.2, 0⟩)) := by
            rw [sameEnd, noTrackers, Memory.link, if_pos (show Memory.linkable _ 0 = true from rfl), Memory.read, kept]
            rfl
          have put : publish (middle.afterKeep last.1 last.2) = .ok { middle.afterKeep last.1 last.2 with
              memory := { (middle.afterKeep last.1 last.2).memory.setNode last.1 (some ⟨last.2, 0⟩)
                with trackers := last.1 } } := by
            have back : ((middle.afterKeep last.1 last.2).memory.setNode last.1
              (some ⟨last.2, 0⟩)).linkable last.1 = true := by
              rw [Memory.linkable, decide_eq_true_eq]
              exact Or.inr (by simp [Memory.setNode])
            rw [publish, if_pos (show (middle.afterKeep last.1 last.2).keepers ≠ 0 from lastNonzero), linked, ok_bind]
            exact if_pos back
          refine Or.inr ⟨_, put, ⟨lastNonzero, rfl, Function.update_self _ _ _, rfl, sameEnd, ?_⟩, ?_,
            Nat.succ_ne_zero _⟩
          · exact lt_of_lt_of_eq holds.positive size.symm
          · have firstOther : first.1 ≠ last.1 := by
              intro same
              exact later last (List.mem_append_right _ (List.mem_singleton_self _)) same.symm
            have still : middle.memory.nodes first.1 = some ⟨first.2, sweep.acquire.keepers⟩ :=
              (others first.1 notLater.1).trans (afterKeep_self _ _ _)
            exact congrArg Option.isSome
              (((Function.update_of_ne firstOther _ _).trans (afterKeep_other _ _ _ firstOther)).trans still)

/-! ## Calls -/

/-- The first turn is the only one, or it keeps one tracker, whose thread is
there until the last turn. -/
def Safe (call : Call) (trackers : List (Nat × Int)) : Prop :=
  call.what = .unused ∨ kept call 0 trackers = [] ∨ ∃ address tid, kept call 0 trackers = [(address, tid)] ∧
    ∀ retry, retry < 1000 → call.gone (trackers.length + retry) tid = false

section

variable {call : Call} {memory : Memory} {trackers : List (Nat × Int)}

theorem reap_eq_gone (all : call.what = .all) {tid : Int} {time : Nat} (keep : call.reap time tid = false)
    (later : Nat) :
    call.reap later tid = call.gone later tid := by
  have other : call.tid ≠ tid := by
    intro own
    rw [Call.reap, if_pos own, all] at keep
    exact absurd keep (by decide)
  rw [Call.reap, if_neg other]

theorem kept_reap {time : Nat} {tracker : Nat × Int} (member : tracker ∈ kept call time trackers) :
    ∃ time, call.reap time tracker.2 = false := by
  induction trackers generalizing time with
  | nil => cases member
  | cons first trackers ih =>
      rw [kept] at member
      split at member
      · exact ih member
      · rename_i keep
        rcases List.mem_cons.mp member with rfl | later
        · exact ⟨time, Bool.eq_false_iff.mpr keep⟩
        · exact ih later

theorem reaped_right {entry : Nat × Nat} (member : entry ∈ reaped call 0 trackers) :
    ∃ tid, (entry.1, tid) ∈ trackers ∧ (call.gone entry.2 tid = true ∨ (tid = call.tid ∧ call.what = .all)) := by
  rcases reaped_mem member with ⟨tid, inside, reap⟩
  refine ⟨tid, inside, ?_⟩
  rw [Call.reap] at reap
  split at reap
  · rename_i own
    exact Or.inr ⟨own.symm, of_decide_eq_true reap⟩
  · exact Or.inl reap

/-- What the first turn has done is right. -/
theorem right_of_turn {after : Memory} (freed : after.freed = memory.freed ++ reaped call 0 trackers)
    (holds : Holds after (kept call 0 trackers).reverse) :
    Right call memory trackers (.ok ((kept call 0 trackers).length, after)) := by
  refine ⟨_, after, reaped call 0 trackers, (kept call 0 trackers).reverse, rfl, freed, holds, ?_, ?_, ?_⟩
  · rw [List.map_reverse]
    exact ((List.reverse_perm _).append_left _).trans (reaped_kept_perm call 0 trackers)
  · rw [List.length_reverse]
  · intro entry member
    exact reaped_right member

theorem not_right_error (fault : Fault) : ¬ Right call memory trackers (.error fault) := by
  rintro ⟨count, after, freed, rest, same, -⟩
  cases same

/-- Several trackers that the first turn has kept are not all in the list in the
end. -/
theorem not_right_several {sweep : Sweep} {first last : Nat × Int} {between : List (Nat × Int)} {tries : Nat}
    (all : call.what = .all) (holds : Holds sweep.memory (first :: (between ++ [last])))
      (keepers : sweep.keepers = first.1)
    (isLast : sweep.last = last.1) (inside : first.1 ∈ trackers.map Prod.fst) :
    ¬ Right call memory trackers
      (turns call (tries + 1) sweep >>= fun sweep => .ok (sweep.unfreed, sweep.memory)) := by
  have differ : first.1 ≠ last.1 := by
    intro same
    exact (List.nodup_cons.mp holds.nodup).1 (List.mem_map.mpr
      ⟨last, List.mem_append_right _ (List.mem_singleton_self _), same.symm⟩)
  rw [turns]
  rcases @second_turn call sweep first last between holds keepers isLast with
    failed | ⟨after, done, single, alive, some⟩
  · rw [failed]
    exact not_right_error _
  · have goes : ¬ (call.what ≠ .all ∨ after.unfreed = 0) := by
      rintro (other | none)
      · exact other all
      · exact some none
    rw [done, ok_bind, if_neg goes]
    rcases single.turns_eq all tries with ⟨-, ended⟩ | ⟨-, failed⟩
    · rw [ended, ok_bind]
      rintro ⟨count, final, freed, rest, same, isFreed, isHeld, perm, -⟩
      cases same
      have listed : rest = [(last.1, last.2)] :=
        isHeld.chain.unique ⟨single.head, single.nonzero, 0, single.stored, rfl⟩
      rcases List.mem_append.mp (perm.mem_iff.mpr inside) with wasFreed | isLeft
      · rcases List.mem_map.mp wasFreed with ⟨entry, member, isEntry⟩
        have gone := (isHeld.spent entry (isFreed ▸ List.mem_append_right _ member)).1
        rw [isEntry] at gone
        rw [show after.memory.nodes first.1 = none from gone] at alive
        cases alive
      · rw [listed, List.map_singleton, List.mem_singleton] at isLeft
        exact differ isLeft
    · rw [failed, error_bind]
      exact not_right_error _

/-- `sxe_thread_memory_free` frees each tracker at most once and loses none if
and only if the first turn is the only one, or keeps one tracker, whose thread
is there until the last turn. -/
theorem thread_memory_free_iff (holds : Holds memory trackers) :
    Right call memory trackers (threadMemoryFree call memory) ↔ Safe call trackers := by
  rcases first_turn call holds with ⟨after, turned, isHeld, keepers, last, time, unfreed, freed⟩
  have right := right_of_turn freed isHeld
  rw [threadMemoryFree, turns, turned, ok_bind]
  by_cases stops : call.what ≠ .all ∨ after.unfreed = 0
  · rw [if_pos stops, ok_bind, unfreed]
    refine iff_of_true right ?_
    rcases stops with unused | none
    · refine Or.inl ?_
      cases what : call.what with
      | unused => rfl
      | all => exact absurd what unused
    · refine Or.inr (Or.inl ?_)
      rw [unfreed] at none
      exact List.eq_nil_of_length_eq_zero none
  · rw [if_neg stops]
    rw [not_or, not_not] at stops
    rcases stops with ⟨all, some⟩
    rw [unfreed] at some
    rcases several : (kept call 0 trackers).reverse with _ | ⟨first, rest⟩
    · rw [List.reverse_eq_nil_iff] at several
      rw [several] at some
      exact absurd rfl some
    rw [several] at isHeld last
    rcases List.eq_nil_or_concat rest with rfl | ⟨between, final, rfl⟩
    · have one : kept call 0 trackers = [first] := List.reverse_eq_iff.mp several
      rcases isHeld.chain with ⟨isHead, nonzero, next, stored, ends⟩
      rw [show next = 0 from ends] at stored
      have single : Single first.1 first.2 after :=
        ⟨nonzero, isHead, stored, keepers.trans isHead, last, isHeld.positive⟩
      rcases kept_reap (one ▸ List.mem_singleton_self first) with ⟨keptTime, keep⟩
      rcases single.turns_eq all 1000 with ⟨alive, done⟩ | ⟨⟨retry, few, dead⟩, failed⟩
      · rw [done, ok_bind, if_neg (by decide)]
        rw [one] at right
        refine iff_of_true right (Or.inr (Or.inr ⟨first.1, first.2, one, ?_⟩))
        intro retry few
        rw [← reap_eq_gone all keep, ← time]
        exact alive retry few
      · rw [failed, error_bind]
        refine iff_of_false (not_right_error _) ?_
        rintro (unused | none | ⟨address, tid, isOne, alive⟩)
        · rw [all] at unused
          cases unused
        · rw [one] at none
          cases none
        · rw [one] at isOne
          cases isOne
          rw [time, reap_eq_gone all keep, alive retry few] at dead
          cases dead
    · rw [List.concat_eq_append] at isHeld last several
      have inside : first.1 ∈ trackers.map Prod.fst := by
        refine List.mem_map.mpr ⟨first, @kept_mem call 0 trackers first (List.mem_reverse.mp ?_), rfl⟩
        rw [several]
        exact List.mem_cons_self
      rcases isHeld.chain with ⟨isHead, -⟩
      refine iff_of_false (not_right_several all isHeld (keepers.trans isHead) ?_ inside) ?_
      · rw [last, ← List.cons_append, lastOf_concat]
      · have long := congrArg List.length several
        rw [List.length_reverse, List.length_cons, List.length_append, List.length_singleton] at long
        rintro (unused | none | ⟨address, tid, isOne, -⟩)
        · rw [all] at unused
          cases unused
        · rw [none, List.length_nil] at long
          omega
        · rw [isOne, List.length_singleton] at long
          omega

end

/-- The memory of a thread that allocates twice. -/
def twiceAllocated : Memory := (threadMalloc (threadMalloc Memory.empty 7 true true).2 7 true true).2

theorem twiceAllocated_holds : Holds twiceAllocated [(2, 7), (1, 7)] :=
  (empty_holds.malloc 7 true true).malloc 7 true true

/-- All is to be freed by thread one, while no other thread ends. -/
def allByOne : Call := ⟨.all, 1, fun _ _ => false⟩

/-- A thread that has not allocated frees nothing of a live thread, and loses
nothing if that has allocated once. -/
theorem thread_memory_free_live :
    Holds (threadMalloc Memory.empty 7 true true).2 [(1, 7)] ∧
      Right allByOne (threadMalloc Memory.empty 7 true true).2 [(1, 7)]
        (threadMemoryFree allByOne (threadMalloc Memory.empty 7 true true).2) :=
  ⟨empty_holds.malloc 7 true true,
    (thread_memory_free_iff (empty_holds.malloc 7 true true)).mpr
      (Or.inr (Or.inr ⟨1, 7, rfl, fun _ _ => rfl⟩))⟩

/-- A live thread that has allocated twice has one of its trackers lost. -/
theorem thread_memory_free_loses :
    Holds twiceAllocated [(2, 7), (1, 7)] ∧
      ¬ Right allByOne twiceAllocated [(2, 7), (1, 7)] (threadMemoryFree allByOne twiceAllocated) := by
  refine ⟨twiceAllocated_holds, ?_⟩
  rcases first_turn allByOne twiceAllocated_holds with ⟨after, turned, isHeld, keepers, last, -, unfreed, -⟩
  have goes : ¬ (allByOne.what ≠ .all ∨ after.unfreed = 0) := by
    rw [unfreed]
    decide
  rw [threadMemoryFree, turns, turned, ok_bind, if_neg goes]
  exact @not_right_several allByOne twiceAllocated [(2, 7), (1, 7)] after (1, 7) (2, 7) [] 999 rfl isHeld
    (keepers.trans isHeld.chain.1) last (by decide)

end SxeThread
end LibKit
