import LibKit.SxeList.Deque
import LibKit.Support.Runs

namespace LibKit
namespace SxeList

/-!
# Runs on lists

A list behaves like a double ended queue through any sequence of calls.  This
does not depend on where the list and its nodes are in memory, and still holds
after they were copied to another place.
-/

/-! ## Calls -/

inductive Call where
  | push (object : UInt64)
  | unshift (object : UInt64)
  | remove (object : UInt64)
  | pop
  | shift
  | peekHead
  | peekTail

/-- One call on a list, which fails if an assertion does. -/
def perform (list : UInt64) (heap : Heap) : Call → Option (Option UInt64 × Heap)
  | .push object => some (none, push heap list object)
  | .unshift object => some (none, unshift heap list object)
  | .remove object => (remove heap list object).map fun (object, heap) => (some object, heap)
  | .pop => pop heap list
  | .shift => shift heap list
  | .peekHead => (peekHead heap list).map fun object => (object, heap)
  | .peekTail => (peekTail heap list).map fun object => (object, heap)

/-- One call on a double ended queue: its answer, and the queue afterwards. -/
def dequeStep (objects : List UInt64) : Call → Option UInt64 × List UInt64
  | .push object => (none, objects ++ [object])
  | .unshift object => (none, object :: objects)
  | .remove object => (some object, objects.erase object)
  | .pop => (objects.getLast?, objects.dropLast)
  | .shift => (objects.head?, objects.tail)
  | .peekHead => (objects.head?, objects)
  | .peekTail => (objects.getLast?, objects)

/-- The queue after some calls, the latest first. -/
def deque (start : List UInt64) : History Call (Option UInt64) → List UInt64
  | [] => start
  | (call, _) :: history => (dequeStep (deque start history) call).2

/-- Objects are added that are not on the list, and removed when they are. -/
def Permitted (list offset : UInt64) (objects : List UInt64) : Call → Prop
  | .push object | .unshift object => object ∉ objects ∧ object + offset ≠ list ∧ object + offset ≠ 0
  | .remove object => object ∈ objects
  | _ => True

/-- The object that a call takes from the queue. -/
def taken (objects : List UInt64) : Call → Option UInt64
  | .remove object => some object
  | .pop => objects.getLast?
  | .shift => objects.head?
  | _ => none

/-- The node is marked as being on no list, and no links have changed but its
own and those to it. -/
structure TakenOff (before after : Heap) (list node : UInt64) : Prop where
  next : (after.node node).next = nullRel list
  prev : (after.node node).prev = nullRel list
  nexts : ∀ other, other ≠ node → before.nextOf list other ≠ node → (after.node other).next = (before.node other).next
  prevs : ∀ other, other ≠ node → before.prevOf list other ≠ node → (after.node other).prev = (before.node other).prev

section

variable {heap : Heap} {list : UInt64} {objects : List UInt64}

theorem Represents.takenOff {left right : List UInt64} {object : UInt64}
    (represents : Represents heap list (left ++ object :: right)) :
    TakenOff heap (unlink heap list (object + heap.offset list)) list (object + heap.offset list) := by
  have ring := represents.node_ring
  have different := represents.next_ne
  refine ⟨?_, ?_, ?_, ?_⟩
  · rw [unlink_next different, if_pos rfl]
  · rw [unlink_prev, if_pos rfl]
  · intro other apart elsewhere
    rw [unlink_next different, if_neg apart, if_neg]
    rintro rfl
    exact elsewhere ring.next_last
  · intro other apart elsewhere
    rw [unlink_prev, if_neg apart, if_neg]
    rintro rfl
    exact elsewhere ring.last_next

/-- Every permitted call is answered as by a queue, and no assertion fails. -/
theorem Represents.perform (represents : Represents heap list objects) {call : Call}
    (permitted : Permitted list (heap.offset list) objects call) :
    ∃ next, perform list heap call = some ((dequeStep objects call).1, next) ∧
      Represents next list (dequeStep objects call).2 ∧ next.offset = heap.offset ∧
      ∀ object, taken objects call = some object → TakenOff heap next list (object + heap.offset list) := by
  cases call with
  | push object =>
      exact ⟨_, rfl, represents.push ⟨permitted.1, permitted.2.1, permitted.2.2⟩, rfl, nofun⟩
  | unshift object =>
      exact ⟨_, rfl, represents.unshift ⟨permitted.1, permitted.2.1, permitted.2.2⟩, rfl, nofun⟩
  | remove object =>
      rcases List.append_of_mem permitted with ⟨left, right, rfl⟩
      rcases represents.remove with ⟨removed, represents'⟩
      have absent : object ∉ left := by
        intro member
        have nodes := (List.nodup_cons.mp represents.node_ring.nodup).2
        exact (List.nodup_append.mp nodes).2.2 _ (List.mem_map_of_mem member) _ List.mem_cons_self rfl
      refine ⟨unlink heap list (object + heap.offset list), by rw [SxeList.perform, removed]; rfl, ?_, rfl, ?_⟩
      · rw [dequeStep, List.erase_append_right _ absent, List.erase_cons_head]
        exact represents'
      · rintro taken ⟨⟩
        exact represents.takenOff
  | pop =>
      rcases List.eq_nil_or_concat objects with rfl | ⟨others, object, rfl⟩
      · exact ⟨heap, represents.pop_nil, represents, rfl, nofun⟩
      · rw [List.concat_eq_append] at *
        rcases represents.pop with ⟨popped, represents'⟩
        refine ⟨unlink heap list (object + heap.offset list), ?_, ?_, rfl, ?_⟩
        · rw [SxeList.perform, popped, dequeStep, List.getLast?_concat]
        · rw [dequeStep, List.dropLast_concat]
          exact represents'
        · intro taken isTaken
          rw [SxeList.taken, List.getLast?_concat, Option.some.injEq] at isTaken
          rw [← isTaken]
          exact represents.takenOff
  | shift =>
      cases objects with
      | nil => exact ⟨heap, represents.shift_nil, represents, rfl, nofun⟩
      | cons object others =>
          rcases represents.shift with ⟨shifted, represents'⟩
          refine ⟨unlink heap list (object + heap.offset list), shifted, represents', rfl, ?_⟩
          rintro taken ⟨⟩
          exact @Represents.takenOff heap list [] others object represents
  | peekHead =>
      cases objects with
      | nil => exact ⟨heap, by rw [SxeList.perform, represents.peekHead_nil]; rfl, represents, rfl, nofun⟩
      | cons object others =>
          exact ⟨heap, by rw [SxeList.perform, represents.peekHead]; rfl, represents, rfl, nofun⟩
  | peekTail =>
      rcases List.eq_nil_or_concat objects with rfl | ⟨others, object, rfl⟩
      · exact ⟨heap, by rw [SxeList.perform, represents.peekTail_nil]; rfl, represents, rfl, nofun⟩
      · rw [List.concat_eq_append] at *
        refine ⟨heap, ?_, represents, rfl, nofun⟩
        rw [SxeList.perform, represents.peekTail, dequeStep, List.getLast?_concat]
        rfl

/-! ## Runs -/

/-- Calls are permitted by the queue that the calls before them have left. -/
def Allowed (list offset : UInt64) (start : List UInt64) (history : History Call (Option UInt64)) (_ : Heap)
    (call : Call) : Prop :=
  Permitted list offset (deque start history) call

/-- Through any run a list represents the queue. -/
theorem Represents.run (represents : Represents heap list objects)
    {history : History Call (Option UInt64)} {state : Heap}
    (run : Run (SxeList.perform list) (Allowed list (heap.offset list) objects) heap history state) :
    Represents state list (deque objects history) ∧ state.offset = heap.offset := by
  refine run.invariant (fun history state => Represents state list (deque objects history) ∧ state.offset = heap.offset)
    ⟨represents, rfl⟩ ?_
  rintro history state call answer next ⟨holds, offset⟩ allowed performed
  have permitted : Permitted list (state.offset list) (deque objects history) call := by
    rw [offset]
    exact allowed
  rcases holds.perform permitted with ⟨next', same, holds', offset', -⟩
  rw [performed] at same
  cases same
  exact ⟨holds', offset'.trans offset⟩

/-- What a list and its nodes say about the objects. -/
structure Describes (list : UInt64) (heap : Heap) (objects : List UInt64) : Prop where
  forward : ∀ steps, objects.length < steps → forward heap list steps list = objects
  backward : ∀ steps, objects.length < steps → backward heap list steps list = objects.reverse
  length : heap.length list = objects.length % 2 ^ 32
  walk : walk heap (objects.length + 1) (walkerConstruct list) = objects.map some ++ [none]

theorem Represents.describes (represents : Represents heap list objects) : Describes list heap objects :=
  ⟨fun _ => represents.forward, fun _ => represents.backward, represents.length, represents.walk⟩

/-! ## Relocation -/

/-- The heap after the memory in a block was copied to addresses that differ
from its own by a number. -/
def relocate (heap : Heap) (block : UInt64 → Bool) (delta : UInt64) : Heap where
  node address := if block (address - delta) then heap.node (address - delta) else heap.node address
  length list := if block (list - delta) then heap.length (list - delta) else heap.length list
  offset list := if block (list - delta) then heap.offset (list - delta) else heap.offset list

/-- The block holds the list and its nodes, and is copied to where the null
pointer is not. -/
def Holds (block : UInt64 → Bool) (delta : UInt64) (addresses : List UInt64) : Prop :=
  ∀ address ∈ addresses, block address = true ∧ address + delta ≠ 0

theorem relocate_node {block : UInt64 → Bool} {address : UInt64} (delta : UInt64) (inside : block address = true) :
    (relocate heap block delta).node (address + delta) = heap.node address := by
  simp only [relocate, UInt64.add_sub_cancel, inside, if_true]

theorem relocate_offset {block : UInt64 → Bool} (delta : UInt64) (inside : block list = true) :
    (relocate heap block delta).offset (list + delta) = heap.offset list := by
  simp only [relocate, UInt64.add_sub_cancel, inside, if_true]

theorem add_delta_offset (object delta offset : UInt64) : object + delta + offset = object + offset + delta := by
  rw [UInt64.add_assoc, UInt64.add_comm delta, ← UInt64.add_assoc]

/-- A copy of a list and its nodes represents the copies of the objects. -/
theorem Represents.relocate (represents : Represents heap list objects) {block : UInt64 → Bool} {delta : UInt64}
    (holds : Holds block delta (list :: nodesOf heap list objects)) :
    Represents (relocate heap block delta) (list + delta) (objects.map (· + delta)) := by
  have offset := @relocate_offset heap list block delta (holds list List.mem_cons_self).1
  have nodes : nodesOf (SxeList.relocate heap block delta) (list + delta) (objects.map (· + delta)) =
      (nodesOf heap list objects).map (· + delta) := by
    rw [nodesOf, nodesOf, offset, List.map_map, List.map_map]
    refine List.map_congr_left fun object _ => ?_
    exact add_delta_offset object delta (heap.offset list)
  refine ⟨?_, ?_, ?_, ?_⟩
  · rw [nodes]
    refine represents.ring.map (fun first second same => (UInt64.add_left_inj _).mp same) ?_ ?_
    · intro node member
      rw [Heap.nextOf, relocate_node delta (holds node member).1]
      exact (UInt64.add_assoc _ _ _).symm
    · intro node member
      rw [Heap.prevOf, relocate_node delta (holds node member).1]
      exact (UInt64.add_assoc _ _ _).symm
  · rw [nodes, ← List.map_cons (f := (· + delta))]
    intro member
    rcases List.mem_map.mp member with ⟨address, inside, zero⟩
    exact (holds address inside).2 zero
  · intro node member
    rw [nodes] at member
    rcases List.mem_map.mp member with ⟨address, inside, rfl⟩
    rw [relocate_node delta (holds address (List.mem_cons_of_mem _ inside)).1,
      relocate_node delta (holds list List.mem_cons_self).1]
    exact represents.ids address inside
  · simp only [SxeList.relocate, UInt64.add_sub_cancel, (holds list List.mem_cons_self).1, if_true, List.length_map]
    exact represents.length

def Call.moved (delta : UInt64) : Call → Call
  | .push object => .push (object + delta)
  | .unshift object => .unshift (object + delta)
  | .remove object => .remove (object + delta)
  | call => call

/-- The copy of an object that is added is not where the null pointer is. -/
def Movable (offset delta : UInt64) : Call → Prop
  | .push object | .unshift object => object + offset + delta ≠ 0
  | _ => True

theorem dequeStep_moved (objects : List UInt64) (delta : UInt64) (call : Call) :
    dequeStep (objects.map (· + delta)) (call.moved delta) =
      ((dequeStep objects call).1.map (· + delta), (dequeStep objects call).2.map (· + delta)) := by
  have injective : Function.Injective (· + delta) := fun _ _ same => (UInt64.add_left_inj _).mp same
  cases call with
  | push object => simp [dequeStep, Call.moved]
  | unshift object => simp [dequeStep, Call.moved]
  | remove object => simp [dequeStep, Call.moved, List.map_erase injective]
  | pop => simp [dequeStep, Call.moved, List.map_dropLast]
  | shift => simp [dequeStep, Call.moved, List.map_tail]
  | peekHead => simp [dequeStep, Call.moved]
  | peekTail => simp [dequeStep, Call.moved]

theorem Permitted.moved {offset delta : UInt64} {call : Call} (permitted : Permitted list offset objects call)
    (movable : Movable offset delta call) :
    Permitted (list + delta) offset (objects.map (· + delta)) (call.moved delta) := by
  have added : ∀ object, object ∉ objects ∧ object + offset ≠ list ∧ object + offset ≠ 0 → object + offset + delta ≠ 0 →
      object + delta ∉ objects.map (· + delta) ∧ object + delta + offset ≠ list + delta ∧
        object + delta + offset ≠ 0 := by
    rintro object ⟨absent, apart, -⟩ notNull
    rw [add_delta_offset]
    refine ⟨?_, fun same => apart ((UInt64.add_left_inj _).mp same), notNull⟩
    intro member
    rcases List.mem_map.mp member with ⟨other, inside, same⟩
    exact absent ((UInt64.add_left_inj _).mp same ▸ inside)
  cases call with
  | push object => exact added object permitted movable
  | unshift object => exact added object permitted movable
  | remove object => exact List.mem_map_of_mem permitted
  | _ => trivial

def movedEntry (delta : UInt64) (entry : Call × Option UInt64) : Call × Option UInt64 :=
  (entry.1.moved delta, entry.2.map (· + delta))

theorem deque_moved (objects : List UInt64) (delta : UInt64) (history : History Call (Option UInt64)) :
    deque (objects.map (· + delta)) (history.map (movedEntry delta)) = (deque objects history).map (· + delta) := by
  induction history with
  | nil => rfl
  | cons entry history ih =>
      rw [List.map_cons, movedEntry, deque, ih, dequeStep_moved]
      rfl

/-- A run on a list can be made on its copy, with the same answers. -/
theorem Represents.run_moved (represents : Represents heap list objects) {block : UInt64 → Bool} {delta : UInt64}
    (holds : Holds block delta (list :: nodesOf heap list objects)) {history : History Call (Option UInt64)}
      {state : Heap}
    (run : Run (SxeList.perform list) (Allowed list (heap.offset list) objects) heap history state)
    (movable : ∀ entry ∈ history, Movable (heap.offset list) delta entry.1) :
    ∃ copy, Run (SxeList.perform (list + delta)) (Allowed (list + delta) (heap.offset list) (objects.map (· + delta)))
        (SxeList.relocate heap block delta) (history.map (movedEntry delta)) copy ∧
      Represents copy (list + delta) ((deque objects history).map (· + delta)) := by
  have relocated := represents.relocate holds
  have offset := @relocate_offset heap list block delta (holds list List.mem_cons_self).1
  induction run with
  | start => exact ⟨_, Run.start, relocated⟩
  | @step history state next call answer run allowed performed ih =>
      rcases ih fun entry member => movable entry (List.mem_cons_of_mem _ member) with ⟨copy, copied, holds'⟩
      rcases represents.run run with ⟨original, sameOffset⟩
      have permitted : Permitted list (state.offset list) (deque objects history) call := by
        rw [sameOffset]
        exact allowed
      rcases original.perform permitted with ⟨next', same, -, -, -⟩
      rw [performed] at same
      cases same
      have copiedOffset : copy.offset (list + delta) = heap.offset list := by
        rw [← offset] at copied ⊢
        rw [(relocated.run copied).2]
      have permitted' := Permitted.moved allowed (movable _ List.mem_cons_self)
      have onCopy := permitted'
      rw [← copiedOffset] at onCopy
      rcases holds'.perform onCopy with ⟨copy', performed', represents', -, -⟩
      rw [dequeStep_moved] at performed' represents'
      refine ⟨copy', Run.step copied ?_ performed', represents'⟩
      rw [Allowed, deque_moved]
      exact permitted'

end

/-- Through any run a list is a double ended queue: its links in both directions,
its length and the steps of a walker are those of the queue, no assertion fails,
and objects that are taken off it are marked.  All this holds as well after the
list and its nodes were copied to another place. -/
theorem list_refines_deque (heap : Heap) {list : UInt64} (notNull : list ≠ 0) (id : Nat) (offset : UInt64)
    {history : History Call (Option UInt64)} {state : Heap}
    (run : Run (perform list) (Allowed list offset []) (construct heap list id offset) history state) :
    Describes list state (deque [] history) ∧
      (∀ call, Permitted list offset (deque [] history) call →
        ∃ next, perform list state call = some ((dequeStep (deque [] history) call).1, next) ∧
          ∀ object, taken (deque [] history) call = some object → TakenOff state next list (object + offset)) ∧
      ∀ block delta, Holds block delta (list :: nodesOf state list (deque [] history)) →
        Describes (list + delta) (relocate state block delta) ((deque [] history).map (· + delta)) ∧
        ∀ further after, Run (perform list) (Allowed list offset (deque [] history)) state further after →
          (∀ entry ∈ further, Movable offset delta entry.1) →
          ∃ copy, Run (perform (list + delta)) (Allowed (list + delta) offset ((deque [] history).map (· + delta)))
              (relocate state block delta) (further.map (movedEntry delta)) copy ∧
            Describes (list + delta) copy ((deque (deque [] history) further).map (· + delta)) := by
  have isOffset : (construct heap list id offset).offset list = offset := by simp [construct]
  have start := construct_represents heap id offset notNull
  generalize construct heap list id offset = initial at run isOffset start
  subst isOffset
  rcases start.run run with ⟨represents, same⟩
  rw [← same] at run ⊢
  refine ⟨represents.describes, ?_, ?_⟩
  · intro call permitted
    rcases represents.perform permitted with ⟨next, performed, -, -, takenOff⟩
    exact ⟨next, performed, takenOff⟩
  · intro block delta holds
    refine ⟨(represents.relocate holds).describes, ?_⟩
    intro further after onward movable
    rcases represents.run_moved holds onward movable with ⟨copy, copied, represents'⟩
    exact ⟨copy, copied, represents'.describes⟩

def blank : Heap := ⟨fun _ => ⟨0, 0, 0⟩, fun _ => 0, fun _ => 0⟩

/-- A list at address 16 after the object at address 64, whose node is at its
start, was pushed; list and object are copied eight bytes up. -/
theorem list_refines_deque_push : ∃ state,
    perform 16 (construct blank 16 0 0) (.push 64) = some (none, state) ∧
      Describes 16 state [64] ∧ Describes 24 (relocate state (fun _ => true) 8) [72] := by
  have run : Run (perform 16) (Allowed 16 0 []) (construct blank 16 0 0) [(.push 64, none)]
      (push (construct blank 16 0 0) 16 64) :=
    Run.step Run.start ⟨List.not_mem_nil, by decide, by decide⟩ rfl
  rcases list_refines_deque blank (by decide) 0 0 run with ⟨describes, -, relocates⟩
  refine ⟨push (construct blank 16 0 0) 16 64, rfl, describes, (relocates (fun _ => true) 8 ?_).1⟩
  intro address member
  rcases List.mem_cons.mp member with rfl | inside
  · decide
  · rw [List.mem_singleton.mp inside]
    decide

/-- The objects at every 32nd address from 64 on. -/
def objectAt (i : Nat) : UInt64 := UInt64.ofNat (64 + 32 * i)

theorem objectAt_toNat {i : Nat} (small : i < 2 ^ 32) : (objectAt i).toNat = 64 + 32 * i := by
  rw [objectAt, UInt64.toNat_ofNat']
  omega

/-- These objects can be pushed one after another. -/
theorem exists_run_pushes {count : Nat} (few : count ≤ 2 ^ 32) : ∃ history state,
    Run (perform 16) (Allowed 16 0 []) (construct blank 16 0 0) history state ∧
      deque [] history = (List.range count).map objectAt := by
  induction count with
  | zero => exact ⟨[], _, Run.start, rfl⟩
  | succ count ih =>
      rcases ih (by omega) with ⟨history, state, run, queue⟩
      have here := objectAt_toNat (i := count) (by omega)
      refine ⟨(.push (objectAt count), none) :: history, push state 16 (objectAt count), Run.step run ?_ rfl, ?_⟩
      · rw [Allowed, queue]
        refine ⟨?_, ?_, ?_⟩
        · intro member
          rcases List.mem_map.mp member with ⟨i, inside, same⟩
          have bound := List.mem_range.mp inside
          have there := objectAt_toNat (i := i) (by omega)
          rw [same] at there
          omega
        · intro same
          have sums := congrArg UInt64.toNat same
          rw [UInt64.add_zero, here] at sums
          change 64 + 32 * count = 16 at sums
          omega
        · intro same
          have sums := congrArg UInt64.toNat same
          rw [UInt64.add_zero, here] at sums
          change 64 + 32 * count = 0 at sums
          omega
      · rw [deque, queue, dequeStep, List.range_succ, List.map_append]
        rfl

/-- The length of a list of `2 ^ 32` objects is zero. -/
theorem length_wraps : ∃ history state,
    Run (perform 16) (Allowed 16 0 []) (construct blank 16 0 0) history state ∧
      (deque [] history).length = 2 ^ 32 ∧ state.length 16 = 0 := by
  rcases exists_run_pushes (Nat.le_refl _) with ⟨history, state, run, queue⟩
  have length : (deque [] history).length = 2 ^ 32 := by
    rw [queue, List.length_map, List.length_range]
  have represents := ((construct_represents blank 0 0 (by decide)).run run).1
  refine ⟨history, state, run, length, ?_⟩
  rw [represents.length]
  exact (congrArg (· % 2 ^ 32) length).trans (Nat.mod_self _)

end SxeList
end LibKit
