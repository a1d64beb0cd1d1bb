import LibKit.SxePool.Model
import LibKit.SxeList.Deque

namespace LibKit
namespace SxePool

open SxeList (Heap Represents Fresh nodesOf unlink)

/-!
# The queues of a pool

Each element of a pool is in one queue.  The queues are lists of nodes in one
memory, so that what is done to one of them leaves the others alone.
-/

/-! ## Addresses -/

/-- The queues and the nodes have different addresses. -/
structure Placed (layout : Layout) : Prop where
  node_inj : ∀ first second, first < layout.number → second < layout.number →
    layout.nodeAt first = layout.nodeAt second → first = second
  queue_inj : ∀ first second, first < layout.states → second < layout.states →
    layout.queueAt first = layout.queueAt second → first = second
  apart : ∀ id state, id < layout.number → state < layout.states → layout.nodeAt id ≠ layout.queueAt state
  node_notNull : ∀ id, id < layout.number → layout.nodeAt id ≠ 0
  queue_notNull : ∀ state, state < layout.states → layout.queueAt state ≠ 0
  index : ∀ id, id < layout.number → layout.indexOf (layout.nodeAt id) = id

/-- A pool that is constructed in memory that is large enough. -/
theorem placed_of_fits {base : UInt64} {number size states : Nat} (notNull : base ≠ 0) (few : number < 2 ^ 32)
    (fits : base.toNat + (144 + number * size + states * 40 + number * 32) ≤ 2 ^ 64) :
    Placed ⟨base, number, states, UInt64.ofNat (144 + number * size),
      UInt64.ofNat (144 + number * size + states * 40)⟩ := by
  have positive : base.toNat ≠ 0 := fun zero => notNull (UInt64.toNat_inj.mp zero)
  generalize number * size = total at fits
  have node : ∀ id, id < number → ((UInt64.ofNat (144 + total + states * 40) + base + UInt64.ofNat (32 * id)).toNat =
      base.toNat + 144 + total + states * 40 + 32 * id) := by
    intro id small
    rw [UInt64.toNat_add, UInt64.toNat_add, UInt64.toNat_ofNat', UInt64.toNat_ofNat']
    omega
  have queue : ∀ state, state < states → ((UInt64.ofNat (144 + total) + base + UInt64.ofNat (40 * state)).toNat =
      base.toNat + 144 + total + 40 * state) := by
    intro state small
    rw [UInt64.toNat_add, UInt64.toNat_add, UInt64.toNat_ofNat', UInt64.toNat_ofNat']
    omega
  refine ⟨?_, ?_, ?_, ?_, ?_, ?_⟩
  · intro first second smallFirst smallSecond same
    have values := congrArg UInt64.toNat same
    rw [Layout.nodeAt, Layout.nodeAt, node first smallFirst, node second smallSecond] at values
    omega
  · intro first second smallFirst smallSecond same
    have values := congrArg UInt64.toNat same
    rw [Layout.queueAt, Layout.queueAt, queue first smallFirst, queue second smallSecond] at values
    omega
  · intro id state smallId smallState same
    have values := congrArg UInt64.toNat same
    rw [Layout.nodeAt, Layout.queueAt, node id smallId, queue state smallState] at values
    dsimp only at smallId smallState
    omega
  · intro id small zero
    have value := node id small
    rw [Layout.nodeAt] at zero
    rw [zero, UInt64.toNat_zero] at value
    omega
  · intro state small zero
    have value := queue state small
    rw [Layout.queueAt] at zero
    rw [zero, UInt64.toNat_zero] at value
    omega
  · intro id small
    dsimp only at small
    rw [Layout.indexOf, Layout.nodeAt, UInt64.add_comm _ (UInt64.ofNat (32 * id)), UInt64.add_sub_cancel,
      UInt64.toNat_ofNat']
    omega

/-! ## Queues -/

/-- The queues are lists of the nodes of elements, no element being in two. -/
structure Holds (pool : Pool) (queues : Nat → List Nat) : Prop where
  placed : Placed pool.toLayout
  lists : ∀ state, state < pool.states →
    Represents pool.heap (pool.queueAt state) ((queues state).map pool.nodeAt)
  offset : ∀ state, state < pool.states → pool.heap.offset (pool.queueAt state) = 0
  state : ∀ state, state < pool.states → (pool.heap.node (pool.queueAt state)).id = state
  bound : ∀ state, state < pool.states → ∀ id ∈ queues state, id < pool.number
  one : ∀ first second, first < pool.states → second < pool.states → ∀ id, id ∈ queues first → id ∈ queues second →
    first = second

section

variable {pool : Pool} {queues : Nat → List Nat}

theorem nodesOf_eq {heap : Heap} {list : UInt64} (offset : heap.offset list = 0) (objects : List UInt64) :
    nodesOf heap list objects = objects := by
  have zero : (fun object : UInt64 => object + heap.offset list) = id := by
    funext object
    rw [offset, UInt64.add_zero]
    rfl
  rw [nodesOf, zero, List.map_id]

theorem Holds.nodes (holds : Holds pool queues) {state : Nat} (valid : state < pool.states) :
    nodesOf pool.heap (pool.queueAt state) ((queues state).map pool.nodeAt) = (queues state).map pool.nodeAt :=
  nodesOf_eq (holds.offset state valid) _

theorem Holds.nodup (holds : Holds pool queues) {state : Nat} (valid : state < pool.states) : (queues state).Nodup := by
  have distinct := (List.nodup_cons.mp (holds.lists state valid).ring.nodup).2
  rw [holds.nodes valid] at distinct
  exact List.Nodup.of_map _ distinct

/-- The node of an element has the state of the queue that it is in. -/
theorem Holds.node_state (holds : Holds pool queues) {state id : Nat} (valid : state < pool.states)
    (member : id ∈ queues state) : (pool.heap.node (pool.nodeAt id)).id = state := by
  rw [(holds.lists state valid).ids, holds.state state valid]
  rw [holds.nodes valid]
  exact List.mem_map_of_mem member

theorem Holds.peekHead (holds : Holds pool queues) {state : Nat} (valid : state < pool.states) :
    SxeList.peekHead pool.heap (pool.queueAt state) = some ((queues state).head?.map pool.nodeAt) := by
  have represents := holds.lists state valid
  cases queue : queues state with
  | nil =>
      rw [queue] at represents
      exact represents.peekHead_nil
  | cons id others =>
      rw [queue] at represents
      exact represents.peekHead

theorem Holds.outside (holds : Holds pool queues) {state other : Nat} (valid : state < pool.states)
    (validOther : other < pool.states) (different : other ≠ state) {address : UInt64}
    (inside : address ∈ pool.queueAt other :: nodesOf pool.heap (pool.queueAt other) ((queues other).map pool.nodeAt)) :
    address ∉ pool.queueAt state :: nodesOf pool.heap (pool.queueAt state) ((queues state).map pool.nodeAt) := by
  rw [holds.nodes validOther] at inside
  rw [holds.nodes valid]
  intro also
  rcases List.mem_cons.mp inside with rfl | inOther
  · rcases List.mem_cons.mp also with same | inState
    · exact different (holds.placed.queue_inj _ _ validOther valid same)
    · rcases List.mem_map.mp inState with ⟨id, member, same⟩
      exact holds.placed.apart id other (holds.bound state valid id member) validOther same
  · rcases List.mem_map.mp inOther with ⟨id, member, rfl⟩
    have small := holds.bound other validOther id member
    rcases List.mem_cons.mp also with same | inState
    · exact holds.placed.apart id state small valid same
    · rcases List.mem_map.mp inState with ⟨second, member', same⟩
      have equal := holds.placed.node_inj _ _ (holds.bound state valid second member') small same
      exact different (holds.one other state validOther valid id member (equal ▸ member'))

theorem Holds.update (holds : Holds pool queues) {heap : Heap} {state : Nat} {ids : List Nat}
    (valid : state < pool.states)
    (list : Represents heap (pool.queueAt state) (ids.map pool.nodeAt))
    (frame : ∀ address, (∃ other, other < pool.states ∧ other ≠ state ∧
        address ∈ pool.queueAt other :: nodesOf pool.heap (pool.queueAt other) ((queues other).map pool.nodeAt)) →
      heap.node address = pool.heap.node address)
    (lengths : ∀ other, other ≠ pool.queueAt state → heap.length other = pool.heap.length other)
    (offset : heap.offset = pool.heap.offset) (isState : (heap.node (pool.queueAt state)).id = state)
    (bound : ∀ id ∈ ids, id < pool.number)
    (only : ∀ id ∈ ids, ∀ other, other < pool.states → other ≠ state → id ∉ queues other) :
    Holds { pool with heap := heap } (Function.update queues state ids) := by
  refine ⟨holds.placed, ?_, ?_, ?_, ?_, ?_⟩
  · intro other validOther
    by_cases same : other = state
    · rw [same, Function.update_self]
      exact list
    · rw [Function.update_of_ne same]
      refine (holds.lists other validOther).congr ?_ ?_ ?_
      · exact fun address inside => frame address ⟨other, validOther, same, inside⟩
      · exact lengths _ fun equal => same (holds.placed.queue_inj _ _ validOther valid equal)
      · exact congrFun offset _
  · intro other validOther
    exact (congrFun offset _).trans (holds.offset other validOther)
  · intro other validOther
    by_cases same : other = state
    · rw [same]
      exact isState
    · have kept := frame (pool.queueAt other) ⟨other, validOther, same, List.mem_cons_self⟩
      exact (congrArg SxeList.Node.id kept).trans (holds.state other validOther)
  · intro other validOther id member
    by_cases same : other = state
    · rw [same, Function.update_self] at member
      exact bound id member
    · rw [Function.update_of_ne same] at member
      exact holds.bound other validOther id member
  · intro first second validFirst validSecond id inFirst inSecond
    by_cases isFirst : first = state
    · by_cases isSecond : second = state
      · rw [isFirst, isSecond]
      · rw [isFirst, Function.update_self] at inFirst
        rw [Function.update_of_ne isSecond] at inSecond
        exact absurd inSecond (only id inFirst second validSecond isSecond)
    · rw [Function.update_of_ne isFirst] at inFirst
      by_cases isSecond : second = state
      · rw [isSecond, Function.update_self] at inSecond
        exact absurd inFirst (only id inSecond first validFirst isFirst)
      · rw [Function.update_of_ne isSecond] at inSecond
        exact holds.one first second validFirst validSecond id inFirst inSecond

def removed (queues : Nat → List Nat) (id state : Nat) : Nat → List Nat :=
  Function.update queues state ((queues state).erase id)

def added (queues : Nat → List Nat) (id state : Nat) : Nat → List Nat :=
  Function.update queues state (queues state ++ [id])

theorem mem_added {queues : Nat → List Nat} {id state other second : Nat} :
    second ∈ added queues id state other ↔ second ∈ queues other ∨ other = state ∧ second = id := by
  by_cases same : other = state
  · rw [added, same, Function.update_self, List.mem_append, List.mem_singleton]
    simp
  · rw [added, Function.update_of_ne same]
    simp [same]

theorem mem_removed_of_ne {queues : Nat → List Nat} {id state other second : Nat} (different : second ≠ id) :
    second ∈ removed queues id state other ↔ second ∈ queues other := by
  by_cases same : other = state
  · rw [removed, same, Function.update_self, List.mem_erase_of_ne different]
  · rw [removed, Function.update_of_ne same]

theorem removed_sublist (queues : Nat → List Nat) (id state other : Nat) :
    (removed queues id state other).Sublist (queues other) := by
  by_cases same : other = state
  · rw [removed, same, Function.update_self]
    exact List.erase_sublist
  · rw [removed, Function.update_of_ne same]

def Loose (pool : Pool) (queues : Nat → List Nat) (id : Nat) : Prop :=
  ∀ state, state < pool.states → id ∉ queues state

theorem Holds.dequeue (holds : Holds pool queues) {id state : Nat} (valid : state < pool.states)
    (member : id ∈ queues state) :
    SxeList.remove pool.heap (pool.queueAt state) (pool.nodeAt id) =
        some (pool.nodeAt id, unlink pool.heap (pool.queueAt state) (pool.nodeAt id)) ∧
      Holds { pool with heap := unlink pool.heap (pool.queueAt state) (pool.nodeAt id) } (removed queues id state) := by
  rcases List.append_of_mem member with ⟨left, right, split⟩
  have absent : id ∉ left := by
    have distinct := holds.nodup valid
    rw [split] at distinct
    exact fun inLeft =>
      (List.nodup_cons.mp (List.nodup_middle.mp distinct)).1 (List.mem_append_left _ inLeft)
  have erased : (queues state).erase id = left ++ right := by
    rw [split, List.erase_append_right _ absent, List.erase_cons_head]
  have before : ∀ other ∈ left ++ right, other ∈ queues state := by
    rw [← erased]
    exact fun other => List.mem_of_mem_erase
  have node : pool.nodeAt id + pool.heap.offset (pool.queueAt state) = pool.nodeAt id := by
    rw [holds.offset state valid, UInt64.add_zero]
  have represents := holds.lists state valid
  have frame : ∀ address, address ∉ pool.queueAt state ::
      nodesOf pool.heap (pool.queueAt state) ((queues state).map pool.nodeAt) →
      (unlink pool.heap (pool.queueAt state) (pool.nodeAt id)).node address = pool.heap.node address := by
    intro address outside
    rw [split, List.map_append, List.map_cons] at represents outside
    have kept := represents.unlink_frame outside
    rwa [node] at kept
  rw [split, List.map_append, List.map_cons] at represents
  rcases represents.remove with ⟨taken, represents'⟩
  rw [node, ← List.map_append] at represents'
  rw [node] at taken
  refine ⟨taken, ?_⟩
  rw [removed, erased]
  refine holds.update valid represents' ?_ ?_ rfl ?_ ?_ ?_
  · rintro address ⟨other, validOther, different, inside⟩
    exact frame address (holds.outside valid validOther different inside)
  · intro other different
    rw [SxeList.unlink_length, if_neg different]
  · rw [SxeList.unlink_id]
    exact holds.state state valid
  · exact fun other inside => holds.bound state valid other (before other inside)
  · intro other inside second validSecond different inSecond
    exact different (holds.one second state validSecond valid other inSecond (before other inside))

theorem Holds.loose (holds : Holds pool queues) {id state : Nat} (valid : state < pool.states)
    (member : id ∈ queues state) : Loose pool (removed queues id state) id := by
  intro other validOther inside
  by_cases same : other = state
  · rw [removed, same, Function.update_self] at inside
    exact (holds.nodup valid).not_mem_erase inside
  · rw [removed, Function.update_of_ne same] at inside
    exact same (holds.one other state validOther valid id inside member)

theorem Holds.enqueue (holds : Holds pool queues) {id state : Nat} (valid : state < pool.states)
    (small : id < pool.number)
    (loose : Loose pool queues id) : Holds (pool.enqueue id state) (added queues id state) := by
  have node : pool.nodeAt id + pool.heap.offset (pool.queueAt state) = pool.nodeAt id := by
    rw [holds.offset state valid, UInt64.add_zero]
  have fresh : Fresh pool.heap (pool.queueAt state) ((queues state).map pool.nodeAt) (pool.nodeAt id) := by
    refine ⟨?_, ?_, ?_⟩
    · intro member
      rcases List.mem_map.mp member with ⟨other, inside, same⟩
      have equal := holds.placed.node_inj _ _ (holds.bound state valid other inside) small same
      exact loose state valid (equal ▸ inside)
    · rw [node]
      exact holds.placed.apart id state small valid
    · rw [node]
      exact holds.placed.node_notNull id small
  have represents := holds.lists state valid
  have pushed := represents.push fresh
  have mapped : (queues state).map pool.nodeAt ++ [pool.nodeAt id] = (queues state ++ [id]).map pool.nodeAt := by
    rw [List.map_append]
    rfl
  rw [mapped] at pushed
  refine holds.update valid pushed ?_ ?_ rfl ?_ ?_ ?_
  · rintro address ⟨other, validOther, different, inside⟩
    refine represents.push_frame fresh (holds.outside valid validOther different inside) ?_
    rw [node]
    rintro rfl
    rw [holds.nodes validOther] at inside
    rcases List.mem_cons.mp inside with same | inOther
    · exact holds.placed.apart id other small validOther same
    · rcases List.mem_map.mp inOther with ⟨second, member, same⟩
      have equal := holds.placed.node_inj _ _ (holds.bound other validOther second member) small same
      exact loose other validOther (equal ▸ member)
  · intro other different
    rw [SxeList.push_length, if_neg different]
  · rw [SxeList.push_id, if_neg (Ne.symm fresh.apart)]
    exact holds.state state valid
  · intro other inside
    rcases List.mem_append.mp inside with before | same
    · exact holds.bound state valid other before
    · rw [List.mem_singleton.mp same]
      exact small
  · intro other inside second validSecond different inSecond
    rcases List.mem_append.mp inside with before | same
    · exact different (holds.one second state validSecond valid other inSecond before)
    · rw [List.mem_singleton.mp same] at inSecond
      exact loose second validSecond inSecond

end

end SxePool
end LibKit
