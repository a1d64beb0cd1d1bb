import LibKit.SxePool.Queues
import LibKit.SxeList.Refinement

namespace LibKit
namespace SxePool

open SxeList (Heap Represents Describes)

/-!
# The states of elements

A pool tracks for each element its state and when it last entered this state or
was touched.  Time is the number of times that elements entered states, which
the pool counts in 64 bits.
-/

/-! ## Ages -/

/-- The states of elements, when they entered them, the time, and the elements
in each state from the oldest on. -/
structure Ages where
  state : Nat → Nat
  stamp : Nat → Nat
  clock : Nat
  queues : Nat → List Nat

def Ages.enter (ages : Ages) (id newState : Nat) : Ages where
  state := Function.update ages.state id newState
  stamp := Function.update ages.stamp id (ages.clock + 1)
  clock := ages.clock + 1
  queues := added (removed ages.queues id (ages.state id)) id newState

namespace Ages

variable (ages : Ages) (id newState : Nat)

@[simp] theorem enter_state_self : (ages.enter id newState).state id = newState := Function.update_self ..

@[simp] theorem enter_stamp_self : (ages.enter id newState).stamp id = ages.clock + 1 := Function.update_self ..

@[simp] theorem enter_clock : (ages.enter id newState).clock = ages.clock + 1 := rfl

theorem enter_queues :
    (ages.enter id newState).queues = added (removed ages.queues id (ages.state id)) id newState := rfl

variable {id}

theorem enter_state_of_ne {other : Nat} (different : other ≠ id) :
    (ages.enter id newState).state other = ages.state other := Function.update_of_ne different ..

theorem enter_stamp_of_ne {other : Nat} (different : other ≠ id) :
    (ages.enter id newState).stamp other = ages.stamp other := Function.update_of_ne different ..

end Ages

structure Tracks (pool : Pool) (ages : Ages) : Prop where
  holds : Holds pool ages.queues
  valid : ∀ id, id < pool.number → ages.state id < pool.states
  mem_iff : ∀ id state, id < pool.number → state < pool.states → (id ∈ ages.queues state ↔ state = ages.state id)
  ordered : ∀ state, state < pool.states →
    (ages.queues state).Pairwise fun first second => ages.stamp first < ages.stamp second
  distinct : ∀ first second, first < pool.number → second < pool.number → ages.stamp first = ages.stamp second →
    first = second
  past : ∀ id, id < pool.number → 0 < ages.stamp id ∧ ages.stamp id ≤ ages.clock
  counts : ∀ id, id < pool.number → pool.last (pool.nodeAt id) = ages.stamp id % 2 ^ 64
  next : pool.nextCount = ages.clock % 2 ^ 64

section

variable {pool : Pool} {ages : Ages}

theorem Tracks.member (tracks : Tracks pool ages) {id : Nat} (small : id < pool.number) :
    id ∈ ages.queues (ages.state id) :=
  (tracks.mem_iff id _ small (tracks.valid id small)).mpr rfl

theorem Tracks.node_state (tracks : Tracks pool ages) {id : Nat} (small : id < pool.number) :
    (pool.heap.node (pool.nodeAt id)).id = ages.state id :=
  tracks.holds.node_state (tracks.valid id small) (tracks.member small)

/-- The pool after an element has entered a state. -/
def Pool.enter (pool : Pool) (id oldState newState : Nat) : Pool :=
  (({ pool with heap := SxeList.unlink pool.heap (pool.queueAt oldState) (pool.nodeAt id) } : Pool).count id).enqueue id
    newState

/-- Counting changes no queue. -/
theorem Holds.count {queues : Nat → List Nat} (holds : Holds pool queues) (id : Nat) : Holds (pool.count id) queues :=
  ⟨holds.placed, holds.lists, holds.offset, holds.state, holds.bound, holds.one⟩

theorem Tracks.enter (tracks : Tracks pool ages) {id newState : Nat} (small : id < pool.number)
    (validNew : newState < pool.states) : Tracks (pool.enter id (ages.state id) newState) (ages.enter id newState) := by
  have valid := tracks.valid id small
  have member := tracks.member small
  rcases tracks.holds.dequeue valid member with ⟨-, holds⟩
  have loose := tracks.holds.loose valid member
  have next := tracks.next
  refine ⟨(holds.count id).enqueue validNew small loose, ?_, ?_, ?_, ?_, ?_, ?_, ?_⟩
  · intro other smallOther
    by_cases same : other = id
    · rw [same, Ages.enter_state_self]
      exact validNew
    · rw [ages.enter_state_of_ne newState same]
      exact tracks.valid other smallOther
  · intro other state smallOther validState
    rw [Ages.enter_queues, mem_added]
    by_cases same : other = id
    · rw [same, Ages.enter_state_self]
      exact ⟨fun inside => inside.elim (fun inQueue => absurd inQueue (loose state validState)) And.left,
        fun isNew => Or.inr ⟨isNew, rfl⟩⟩
    · rw [ages.enter_state_of_ne newState same, mem_removed_of_ne same,
        ← tracks.mem_iff other state smallOther validState]
      exact ⟨fun inside => inside.resolve_right fun isNew => same isNew.2, Or.inl⟩
  · intro state validState
    have rest : (removed ages.queues id (ages.state id) state).Pairwise fun first second =>
        (ages.enter id newState).stamp first < (ages.enter id newState).stamp second := by
      refine ((tracks.ordered state validState).sublist (removed_sublist _ _ _ _)).imp_of_mem ?_
      intro first second inFirst inSecond less
      have notFirst : first ≠ id := fun same => loose state validState (same ▸ inFirst)
      have notSecond : second ≠ id := fun same => loose state validState (same ▸ inSecond)
      rwa [ages.enter_stamp_of_ne newState notFirst, ages.enter_stamp_of_ne newState notSecond]
    by_cases same : state = newState
    · subst same
      rw [Ages.enter_queues, added, Function.update_self]
      refine List.pairwise_append.mpr ⟨rest, List.pairwise_singleton _ _, ?_⟩
      intro first inFirst second isNew
      have notFirst : first ≠ id := by
        rintro rfl
        exact loose state validState inFirst
      have past := tracks.past first (holds.bound state validState first inFirst)
      rw [List.mem_singleton.mp isNew, Ages.enter_stamp_self, ages.enter_stamp_of_ne state notFirst]
      omega
    · rw [Ages.enter_queues, added, Function.update_of_ne same]
      exact rest
  · intro first second smallFirst smallSecond equal
    have pastFirst := tracks.past first smallFirst
    have pastSecond := tracks.past second smallSecond
    by_cases isFirst : first = id
    · by_cases isSecond : second = id
      · rw [isFirst, isSecond]
      · rw [isFirst, Ages.enter_stamp_self, ages.enter_stamp_of_ne newState isSecond] at equal
        omega
    · rw [ages.enter_stamp_of_ne newState isFirst] at equal
      by_cases isSecond : second = id
      · rw [isSecond, Ages.enter_stamp_self] at equal
        omega
      · rw [ages.enter_stamp_of_ne newState isSecond] at equal
        exact tracks.distinct first second smallFirst smallSecond equal
  · intro other smallOther
    by_cases same : other = id
    · rw [same, Ages.enter_stamp_self]
      exact ⟨Nat.succ_pos _, Nat.le_refl _⟩
    · have past := tracks.past other smallOther
      rw [ages.enter_stamp_of_ne newState same]
      exact ⟨past.1, Nat.le_succ_of_le past.2⟩
  · intro other smallOther
    change (if pool.nodeAt other = pool.nodeAt id then (pool.nextCount + 1) % 2 ^ 64
      else pool.last (pool.nodeAt other)) = _
    by_cases same : other = id
    · rw [same, if_pos rfl, Ages.enter_stamp_self]
      omega
    · rw [if_neg fun equal => same (tracks.holds.placed.node_inj _ _ smallOther small equal),
        ages.enter_stamp_of_ne newState same]
      exact tracks.counts other smallOther
  · change (pool.nextCount + 1) % 2 ^ 64 = (ages.clock + 1) % 2 ^ 64
    omega

theorem Tracks.setUnlocked (tracks : Tracks pool ages) {id : Nat} (small : id < pool.number) (newState : Nat)
    (aborts : Bool) :
    pool.setUnlocked id (ages.state id) newState aborts = some (true, pool.enter id (ages.state id) newState) := by
  rcases tracks.holds.dequeue (tracks.valid id small) (tracks.member small) with ⟨taken, -⟩
  rw [Pool.setUnlocked, if_neg (not_not_intro (tracks.node_state small)), taken]
  rfl

/-- `sxe_pool_set_indexed_element_state_unlocked` on an element in another
state. -/
theorem Tracks.setUnlocked_other (tracks : Tracks pool ages) {id oldState newState : Nat} (small : id < pool.number)
    (different : oldState ≠ ages.state id) (aborts : Bool) :
    pool.setUnlocked id oldState newState aborts = if aborts then none else some (false, pool) := by
  rw [Pool.setUnlocked, if_pos]
  rw [tracks.node_state small]
  exact Ne.symm different

/-! ## Construction -/

structure Empty (pool : Pool) (state : Nat) : Prop where
  list : Represents pool.heap (pool.queueAt state) []
  offset : pool.heap.offset (pool.queueAt state) = 0
  state : (pool.heap.node (pool.queueAt state)).id = state

theorem constructQueues_empty {states : Nat} (placed : Placed pool.toLayout) (few : states ≤ pool.states)
    (done : ∀ state, states ≤ state → state < pool.states → Empty pool state) :
    (pool.constructQueues states).toLayout = pool.toLayout ∧ (pool.constructQueues states).nextCount = pool.nextCount ∧
      ∀ state, state < pool.states → Empty (pool.constructQueues states) state := by
  induction states generalizing pool with
  | zero => exact ⟨rfl, rfl, fun state => done state (Nat.zero_le state)⟩
  | succ states ih =>
      rw [Pool.constructQueues]
      refine @ih { pool with heap := SxeList.construct pool.heap (pool.queueAt states) states 0 } placed
        (by exact Nat.le_of_succ_le few) ?_
      intro state later valid
      by_cases same : state = states
      · subst same
        refine ⟨SxeList.construct_represents _ _ _ (placed.queue_notNull state valid), ?_, ?_⟩
        · simp [SxeList.construct, Layout.queueAt]
        · simp [SxeList.construct, Layout.queueAt]
      · have empty := done state (by omega) valid
        have different : pool.queueAt state ≠ pool.queueAt states := by
          intro equal
          exact same (placed.queue_inj _ _ valid (by omega) equal)
        rcases SxeList.construct_frame pool.heap states 0 different with ⟨node, length, offset⟩
        refine ⟨empty.list.congr ?_ length offset, offset.trans empty.offset, ?_⟩
        · intro address inside
          rw [List.mem_singleton.mp inside]
          exact node
        · exact (congrArg SxeList.Node.id node).trans empty.state

/-- The queues with the elements from an index on in the first of them, the last
element first. -/
def startQueues (number first : Nat) : Nat → List Nat :=
  fun state => if state = 0 then (List.range' first (number - first)).reverse else []

theorem added_startQueues {number first : Nat} (less : first < number) :
    added (startQueues number (first + 1)) first 0 = startQueues number first := by
  funext state
  have count : number - first = number - (first + 1) + 1 := by omega
  by_cases same : state = 0
  · rw [added, same, Function.update_self, startQueues, startQueues, if_pos rfl, if_pos rfl, count, List.range'_succ,
      List.reverse_cons]
  · rw [added, Function.update_of_ne same, startQueues, startQueues, if_neg same, if_neg same]

theorem mem_startQueues {number first state id : Nat} :
    id ∈ startQueues number first state ↔ state = 0 ∧ first ≤ id ∧ id < number := by
  rw [startQueues]
  by_cases same : state = 0
  · rw [if_pos same, List.mem_reverse, List.mem_range'_1]
    omega
  · rw [if_neg same]
    simp [same]

/-- The loop over the nodes adds those below an index. -/
theorem constructNodes_tracks {first : Nat} (bound : first ≤ pool.number) (few : pool.number < 2 ^ 32)
    (some : 0 < pool.states) (holds : Holds pool (startQueues pool.number first))
    (counts : ∀ id, first ≤ id → id < pool.number → pool.last (pool.nodeAt id) = pool.number - id)
    (next : pool.nextCount = pool.number - first) :
    (pool.constructNodes first).toLayout = pool.toLayout ∧
      Holds (pool.constructNodes first) (startQueues pool.number 0) ∧
      (∀ id, id < pool.number → (pool.constructNodes first).last (pool.nodeAt id) = pool.number - id) ∧
      (pool.constructNodes first).nextCount = pool.number := by
  induction first generalizing pool with
  | zero => exact ⟨rfl, holds, fun id => counts id (Nat.zero_le id), next⟩
  | succ first ih =>
      have loose : Loose (pool.count first) (startQueues pool.number (first + 1)) first := by
        intro state _ member
        have inside := mem_startQueues.mp member
        omega
      have holds' := (holds.count first).enqueue some bound loose
      rw [added_startQueues bound] at holds'
      rw [Pool.constructNodes]
      refine @ih ((pool.count first).enqueue first 0) (Nat.le_of_succ_le bound) few some holds' ?_ ?_
      · intro id later small
        change (if pool.nodeAt id = pool.nodeAt first then (pool.nextCount + 1) % 2 ^ 64
          else pool.last (pool.nodeAt id)) = pool.number - id
        by_cases same : id = first
        · rw [same, if_pos rfl]
          omega
        · rw [if_neg fun equal => same (holds.placed.node_inj _ _ small bound equal)]
          exact counts id (by omega) small
      · change (pool.nextCount + 1) % 2 ^ 64 = pool.number - first
        omega

def startAges (number : Nat) : Ages where
  state _ := 0
  stamp id := number - id
  clock := number
  queues := startQueues number 0

theorem holds_empty (placed : Placed pool.toLayout) (empty : ∀ state, state < pool.states → Empty pool state) :
    Holds pool (startQueues pool.number pool.number) := by
  have none : ∀ state, startQueues pool.number pool.number state = [] := by
    intro state
    rw [startQueues, Nat.sub_self]
    split <;> rfl
  refine ⟨placed, ?_, fun state valid => (empty state valid).offset,
    fun state valid => (empty state valid).state, ?_, ?_⟩
  · intro state valid
    rw [none]
    exact (empty state valid).list
  · intro state _ id member
    rw [none] at member
    cases member
  · intro first second _ _ id member
    rw [none] at member
    cases member

theorem tracks_start (holds : Holds pool (startQueues pool.number 0)) (few : pool.number < 2 ^ 32)
    (some : 0 < pool.states) (counts : ∀ id, id < pool.number → pool.last (pool.nodeAt id) = pool.number - id)
    (next : pool.nextCount = pool.number) : Tracks pool (startAges pool.number) := by
  refine ⟨holds, fun _ _ => some, ?_, ?_, ?_, ?_, ?_, ?_⟩
  · intro id state small _
    rw [startAges, mem_startQueues]
    exact ⟨And.left, fun first => ⟨first, Nat.zero_le id, small⟩⟩
  · intro state _
    change (if state = 0 then (List.range' 0 (pool.number - 0)).reverse else []).Pairwise
      fun first second => pool.number - first < pool.number - second
    split
    · rw [List.pairwise_reverse]
      have increasing : (List.range' 0 (pool.number - 0)).Pairwise (· < ·) := List.pairwise_lt_range'
      refine increasing.imp_of_mem ?_
      intro first second _ inSecond less
      have bound := (List.mem_range'_1.mp inSecond).2
      omega
    · exact List.Pairwise.nil
  · intro first second smallFirst smallSecond same
    simp only [startAges] at same
    omega
  · intro id small
    simp only [startAges]
    omega
  · intro id small
    rw [counts id small]
    exact (Nat.mod_eq_of_lt (show pool.number - id < 2 ^ 64 by omega)).symm
  · rw [next]
    exact (Nat.mod_eq_of_lt (show pool.number < 2 ^ 64 by omega)).symm

/-- A new pool tracks that all of its elements have entered the first state, from
the last element on. -/
theorem construct_tracks (heap : Heap) (last : UInt64 → Nat) {base : UInt64} {number size states : Nat}
    (notNull : base ≠ 0)
    (few : number < 2 ^ 32) (some : 0 < states)
    (fits : base.toNat + (144 + number * size + states * 40 + number * 32) ≤ 2 ^ 64) :
    Tracks (Pool.construct heap last base number size states) (startAges number) ∧
      (Pool.construct heap last base number size states).number = number ∧
      (Pool.construct heap last base number size states).states = states := by
  have placed := placed_of_fits notNull few fits
  rw [Pool.construct]
  generalize made : (⟨⟨base, number, states, UInt64.ofNat (144 + number * size),
    UInt64.ofNat (144 + number * size + states * 40)⟩, 0, heap, last⟩ : Pool) = pool
  have isNumber : pool.number = number := by rw [← made]
  have isStates : pool.states = states := by rw [← made]
  have isNext : pool.nextCount = 0 := by rw [← made]
  replace placed : Placed pool.toLayout := by
    rw [← made]
    exact placed
  rw [← isNumber, ← isStates]
  rcases @constructQueues_empty pool pool.states placed (Nat.le_refl _) (fun state late valid => by omega) with
    ⟨layout, next, empty⟩
  generalize pool.constructQueues pool.states = queued at layout next empty
  rw [← layout] at placed empty
  have holds := holds_empty placed empty
  rw [← congrArg Layout.number layout, ← congrArg Layout.states layout]
  have numberLess : queued.number < 2 ^ 32 := by
    rw [congrArg Layout.number layout, isNumber]
    exact few
  have statesSome : 0 < queued.states := by
    rw [congrArg Layout.states layout, isStates]
    exact some
  rcases constructNodes_tracks (Nat.le_refl _) numberLess statesSome holds (fun id late small => by omega)
    (by rw [next, isNext, Nat.sub_self]) with ⟨layout', holds', counts, next'⟩
  generalize queued.constructNodes queued.number = final at layout' holds' counts next'
  rw [← congrArg Layout.number layout'] at holds' counts next' numberLess ⊢
  rw [← congrArg Layout.states layout'] at statesSome ⊢
  rw [← layout'] at counts
  exact ⟨tracks_start holds' numberLess statesSome counts next', rfl, rfl⟩

end

end SxePool
end LibKit
