import LibKit.SxePool.Refinement

namespace LibKit
namespace SxePool

open SxeList (Heap Represents Walker)

/-!
# Walks

A walker goes through the elements of one state while other threads move and
touch elements between its steps.  It keeps the addresses of the element that it
is at and of the one before, and the count of the former.  A step is to the
first element that entered the state after this count was given, unless the
walker steps from an element that has entered the state again.
-/

/-! ## Steps -/

/-- The address of a walker that has passed some elements of a queue. -/
def Layout.behind (layout : Layout) (state : Nat) (ids : List Nat) : UInt64 :=
  (ids.getLast?.map layout.nodeAt).getD (layout.queueAt state)

theorem Layout.behind_concat (layout : Layout) (state id : Nat) (ids : List Nat) :
    layout.behind state (ids ++ [id]) = layout.nodeAt id := by
  rw [Layout.behind, List.getLast?_concat]
  rfl

/-- A walker has gone to the first element of a state that entered it after a
time, or to the end. -/
inductive Advances (pool : Pool) (ages : Ages) (state time : Nat) : Option UInt64 × Walker → Prop where
  | stop (back : UInt64) : (∀ id ∈ ages.queues state, ages.stamp id ≤ time) →
      Advances pool ages state time (none, ⟨pool.queueAt state, back, pool.queueAt state⟩)
  | go (left right : List Nat) (id : Nat) : ages.queues state = left ++ id :: right →
      (∀ other ∈ left, ages.stamp other ≤ time) → time < ages.stamp id →
      Advances pool ages state time (some (pool.nodeAt id),
        ⟨pool.queueAt state, pool.behind state left, pool.nodeAt id⟩)

section

variable {pool : Pool} {ages : Ages}

/-- `sxe_list_walker_step` in the queue of a state. -/
theorem Holds.walkerStep {queues : Nat → List Nat} (holds : Holds pool queues) {state : Nat}
    (valid : state < pool.states)
    {left right : List Nat} (split : queues state = left ++ right) (back : UInt64) :
    SxeList.walkerStep pool.heap ⟨pool.queueAt state, back, pool.behind state left⟩ =
      (right.head?.map pool.nodeAt,
        ⟨pool.queueAt state, pool.behind state left, (right.head?.map pool.nodeAt).getD (pool.queueAt state)⟩) := by
  have represents := holds.lists state valid
  have offset := holds.offset state valid
  rw [split, List.map_append] at represents
  have stepped := represents.walkerStep back
  rw [nodesOf_eq offset, nodesOf_eq offset, List.getLast?_map, List.head?_map] at stepped
  exact stepped

theorem Tracks.walkerStep (tracks : Tracks pool ages) {state time : Nat} (valid : state < pool.states)
    {left right : List Nat} (split : ages.queues state = left ++ right) (passed : ∀ id ∈ left, ages.stamp id ≤ time)
    (ahead : ∀ id ∈ right, time < ages.stamp id) (back : UInt64) :
    Advances pool ages state time (SxeList.walkerStep pool.heap ⟨pool.queueAt state, back,
      pool.behind state left⟩) := by
  rw [tracks.holds.walkerStep valid split]
  cases right with
  | nil =>
      refine .stop _ ?_
      rw [split, List.append_nil]
      exact passed
  | cons id others => exact .go left others id split passed (ahead id List.mem_cons_self)

theorem Tracks.count_eq (tracks : Tracks pool ages) (early : ages.clock < 2 ^ 64) {id : Nat}
    (small : id < pool.number) :
    pool.last (pool.nodeAt id) = ages.stamp id := by
  have past := tracks.past id small
  rw [tracks.counts id small]
  exact Nat.mod_eq_of_lt (by omega)

/-- The loop of `sxe_pool_walker_step`, when no element has the count of the
walker. -/
theorem Tracks.rewalk (tracks : Tracks pool ages) (early : ages.clock < 2 ^ 64) {state time : Nat}
    (valid : state < pool.states) (nobody : ∀ id ∈ ages.queues state, ages.stamp id ≠ time) {left right : List Nat}
    (split : ages.queues state = left ++ right) (passed : ∀ id ∈ left, ages.stamp id ≤ time) {fuel : Nat}
    (enough : right.length < fuel) (back : UInt64) :
    Advances pool ages state time (pool.rewalk time fuel ⟨pool.queueAt state, back, pool.behind state left⟩) := by
  induction fuel generalizing left right back with
  | zero => omega
  | succ fuel ih =>
      rw [Pool.rewalk, tracks.holds.walkerStep valid split]
      cases right with
      | nil =>
          refine .stop _ ?_
          rw [split, List.append_nil]
          exact passed
      | cons id others =>
          have member : id ∈ ages.queues state := by
            rw [split]
            exact List.mem_append_right _ List.mem_cons_self
          have different := nobody id member
          have small := tracks.holds.bound state valid id member
          simp only [List.head?_cons, Option.map_some, Option.getD_some, tracks.count_eq early small]
          by_cases late : ages.stamp id ≥ time
          · rw [if_pos late]
            exact .go left others id split passed (by omega)
          · rw [if_neg late, ← pool.behind_concat state id left]
            refine ih (by rw [split, List.append_assoc, List.singleton_append]) ?_
              (by rw [List.length_cons] at enough; omega) _
            intro other inside
            rcases List.mem_append.mp inside with before | same
            · exact passed other before
            · rw [List.mem_singleton.mp same]
              omega

/-! ## Where a walker is -/

/-- What is known of the element before that of a walker: if it has not entered
the state again, no element of the state is between them. -/
def Follows (layout : Layout) (ages : Ages) (state time : Nat) (back : UInt64) : Prop :=
  back = layout.queueAt state ∨ ∃ id, id < layout.number ∧ back = layout.nodeAt id ∧
    (ages.stamp id < time → ∀ other, other < layout.number → ages.state other = state →
      ages.stamp other ≤ ages.stamp id ∨ time ≤ ages.stamp other)

/-- A walker is at the head of its queue, or at an element that it has stepped
to and that no later element shares its count with. -/
structure Stands (layout : Layout) (ages : Ages) (walker : PoolWalker) : Prop where
  list : walker.listWalker.list = layout.queueAt walker.state
  past : walker.last ≤ ages.clock
  place : walker.listWalker.node = layout.queueAt walker.state ∧ walker.last = 0 ∨
    ∃ id, id < layout.number ∧ walker.listWalker.node = layout.nodeAt id ∧
      (∀ other, other < layout.number → ages.stamp other = walker.last → other = id) ∧
      Follows layout ages walker.state walker.last walker.listWalker.back

/-- The element that a walker is at has not entered the state of the walk since
the walker stepped to it.  If it has left the state, the element before it has
not entered this again either. -/
def Undisturbed (pool : Pool) (walker : PoolWalker) : Prop :=
  walker.listWalker.node ≠ pool.queueAt walker.state →
    if (pool.heap.node walker.listWalker.node).id = walker.state then
      pool.last walker.listWalker.node = walker.last
    else
      walker.listWalker.back ≠ pool.queueAt walker.state →
        (pool.heap.node walker.listWalker.back).id = walker.state →
          pool.last walker.listWalker.back < walker.last

/-- The elements of a state before and after one of them. -/
theorem Tracks.split (tracks : Tracks pool ages) {id state : Nat} (valid : state < pool.states)
    (small : id < pool.number)
    (same : ages.state id = state) : ∃ left right, ages.queues state = (left ++ [id]) ++ right ∧
      (∀ other ∈ left ++ [id], ages.stamp other ≤ ages.stamp id) ∧
        ∀ other ∈ right, ages.stamp id < ages.stamp other := by
  have member := (tracks.mem_iff id state small valid).mpr same.symm
  rcases List.append_of_mem member with ⟨left, right, split⟩
  have ordered := tracks.ordered state valid
  rw [split] at ordered
  rcases List.pairwise_append.mp ordered with ⟨-, behind, across⟩
  refine ⟨left, right, by rw [split, List.append_assoc, List.singleton_append], ?_, (List.pairwise_cons.mp behind).1⟩
  intro other inside
  rcases List.mem_append.mp inside with before | same
  · exact Nat.le_of_lt (across other before id List.mem_cons_self)
  · exact Nat.le_of_eq (congrArg ages.stamp (List.mem_singleton.mp same))

theorem Tracks.walkerNext (tracks : Tracks pool ages) (early : ages.clock < 2 ^ 64) {walker : PoolWalker}
    (valid : walker.state < pool.states) (stands : Stands pool.toLayout ages walker)
    (undisturbed : Undisturbed pool walker) :
    Advances pool ages walker.state walker.last (pool.walkerNext walker) := by
  rcases walker with ⟨⟨list, back, node⟩, state, time⟩
  dsimp only at valid
  rcases stands with ⟨isList, past, place⟩
  dsimp only at isList past place
  subst isList
  have offset := tracks.holds.offset state valid
  rw [Undisturbed] at undisturbed
  dsimp only at undisturbed
  rw [Pool.walkerNext, SxeList.walkerFind]
  dsimp only
  rcases place with ⟨rfl, rfl⟩ | ⟨id, small, rfl, only, follows⟩
  · simp only [ne_eq, not_true_eq_false, if_false, Bool.false_eq_true]
    exact tracks.walkerStep valid (List.nil_append _).symm (by simp)
      (fun id member => (tracks.past id (tracks.holds.bound state valid id member)).1) back
  · have apart := tracks.holds.placed.apart id state small valid
    replace undisturbed := undisturbed apart
    rw [if_pos apart, offset, UInt64.sub_zero]
    simp only [tracks.node_state small] at undisturbed ⊢
    by_cases same : ages.state id = state
    · rw [if_pos same, tracks.count_eq early small] at undisturbed
      rcases tracks.split valid small same with ⟨left, right, split, passed, ahead⟩
      simp only [same, ne_eq, not_true_eq_false, decide_false, Bool.false_eq_true, if_false]
      rw [← pool.behind_concat state id left]
      rw [undisturbed] at passed ahead
      exact tracks.walkerStep valid split passed ahead back
    · rw [if_neg same] at undisturbed
      simp only [same, ne_eq, not_false_eq_true, decide_true, if_true]
      have nobody : ∀ other ∈ ages.queues state, ages.stamp other ≠ time := by
        intro other member equal
        have smallOther := tracks.holds.bound state valid other member
        have isOther := only other smallOther equal
        rw [isOther] at member
        exact same ((tracks.mem_iff id state small valid).mp member).symm
      have again := tracks.rewalk early valid nobody (List.nil_append _).symm (by simp)
        (Nat.lt_succ_of_le (tracks.length_le valid)) (pool.queueAt state)
      rw [SxeList.walkerBack]
      dsimp only
      rcases follows with rfl | ⟨previous, smallPrevious, rfl, between⟩
      · rw [if_neg (not_not_intro rfl)]
        exact again
      · have apart' := tracks.holds.placed.apart previous state smallPrevious valid
        rw [if_pos apart', offset, UInt64.sub_zero]
        simp only [tracks.node_state smallPrevious] at undisturbed ⊢
        by_cases sameAlso : ages.state previous = state
        · rw [if_pos sameAlso]
          replace undisturbed := undisturbed apart' sameAlso
          rw [tracks.count_eq early smallPrevious] at undisturbed
          rcases tracks.split valid smallPrevious sameAlso with ⟨left, right, split, passed, ahead⟩
          rw [← pool.behind_concat state previous left]
          refine tracks.walkerStep valid split ?_ ?_ _
          · exact fun other inside => Nat.le_of_lt (Nat.lt_of_le_of_lt (passed other inside) undisturbed)
          · intro other inside
            have member : other ∈ ages.queues state := by
              rw [split]
              exact List.mem_append_right _ inside
            have smallOther := tracks.holds.bound state valid other member
            have later := ahead other inside
            have different := nobody other member
            rcases between undisturbed other smallOther
              ((tracks.mem_iff other state smallOther valid).mp member).symm with
              early | late
            · omega
            · omega
        · rw [if_neg sameAlso]
          exact again

/-- A walker that has gone to an element stands there. -/
theorem Tracks.stands (tracks : Tracks pool ages) {state : Nat} (valid : state < pool.states)
    {left right : List Nat} {id : Nat}
    (split : ages.queues state = left ++ id :: right) :
    id < pool.number ∧ ages.state id = state ∧ Stands pool.toLayout ages
      ⟨⟨pool.queueAt state, pool.behind state left, pool.nodeAt id⟩, state, ages.stamp id⟩ := by
  have member : id ∈ ages.queues state := by
    rw [split]
    exact List.mem_append_right _ List.mem_cons_self
  have small := tracks.holds.bound state valid id member
  have ordered := tracks.ordered state valid
  rw [split] at ordered
  refine ⟨small, ((tracks.mem_iff id state small valid).mp member).symm, rfl, (tracks.past id small).2,
    Or.inr ⟨id, small, rfl, ?_, ?_⟩⟩
  · exact fun other smallOther same => tracks.distinct other id smallOther small same
  · rcases List.eq_nil_or_concat left with rfl | ⟨others, previous, rfl⟩
    · exact Or.inl rfl
    · rw [List.concat_eq_append] at split ordered ⊢
      have isMember : previous ∈ ages.queues state := by
        rw [split]
        exact List.mem_append_left _ (List.mem_append_right _ List.mem_cons_self)
      refine Or.inr ⟨previous, tracks.holds.bound state valid previous isMember, pool.behind_concat _ _ _, ?_⟩
      intro _ other smallOther same
      have inside := (tracks.mem_iff other state smallOther valid).mpr same.symm
      rw [split] at inside
      rcases List.pairwise_append.mp ordered with ⟨before, behind, -⟩
      rcases List.mem_append.mp inside with inLeft | inRight
      · left
        rcases List.mem_append.mp inLeft with earlier | isPrevious
        · exact Nat.le_of_lt ((List.pairwise_append.mp before).2.2 other earlier previous List.mem_cons_self)
        · exact Nat.le_of_eq (congrArg ages.stamp (List.mem_singleton.mp isPrevious))
      · right
        rcases List.mem_cons.mp inRight with rfl | later
        · exact Nat.le_refl _
        · exact Nat.le_of_lt ((List.pairwise_cons.mp behind).1 other later)

/-- A walker stands where it is when an element enters a state. -/
theorem Stands.enter {layout : Layout} {walker : PoolWalker} (stands : Stands layout ages walker) (id newState : Nat) :
    Stands layout (ages.enter id newState) walker := by
  rcases stands with ⟨list, past, place⟩
  refine ⟨list, Nat.le_succ_of_le past, place.imp_right ?_⟩
  rintro ⟨current, small, isNode, only, follows⟩
  refine ⟨current, small, isNode, ?_, follows.imp_right ?_⟩
  · intro other smallOther same
    by_cases isId : other = id
    · rw [isId, Ages.enter_stamp_self] at same
      omega
    · rw [ages.enter_stamp_of_ne newState isId] at same
      exact only other smallOther same
  · rintro ⟨previous, smallPrevious, isBack, between⟩
    refine ⟨previous, smallPrevious, isBack, ?_⟩
    intro earlier other smallOther same
    by_cases isPrevious : previous = id
    · rw [isPrevious, Ages.enter_stamp_self] at earlier
      omega
    · rw [ages.enter_stamp_of_ne newState isPrevious] at earlier ⊢
      by_cases isOther : other = id
      · right
        rw [isOther, Ages.enter_stamp_self]
        omega
      · rw [ages.enter_state_of_ne newState isOther] at same
        rw [ages.enter_stamp_of_ne newState isOther]
        exact between earlier other smallOther same

end

/-! ## Interleaved calls -/

def moves (pool : Pool) : Bool × Operation → Option Nat
  | (false, _) => none
  | (true, .set id oldState _) | (true, .tryTo id oldState _) =>
      if pool.indexToState id = some oldState then some id else none
  | (true, .setOldest oldState _) =>
      (pool.getOldestIndex true oldState).bind fun index => if index = noIndex then none else some index
  | (true, .touch id) => some id

/-- What happens while a walk is under way: a call of another thread, or a step
of the walk, which may fail to take the lock. -/
inductive Event where
  | call (call : Bool × Operation)
  | step (taken : Bool)

/-- One event.  The answer to a call is the element that it moves or touches,
and the answer to a step is its result. -/
def interleave : Pool × PoolWalker → Event → Option (Option Nat × (Pool × PoolWalker))
  | (pool, walker), .call call => (perform pool call).map fun (_, after) => (moves pool call, (after, walker))
  | (pool, walker), .step taken =>
      some (some (pool.walkerStep taken walker).1, (pool, (pool.walkerStep taken walker).2))

def moved : History Event (Option Nat) → List Nat
  | [] => []
  | (.call _, some id) :: history => id :: moved history
  | _ :: history => moved history

/-- The indexes that steps returned, the latest first. -/
def returned : History Event (Option Nat) → List Nat
  | [] => []
  | (.step true, some index) :: history => if index = noIndex then returned history else index :: returned history
  | _ :: history => returned history

/-- A step returned `SXE_POOL_NO_INDEX`. -/
def Ended (history : History Event (Option Nat)) : Prop := (.step true, some noIndex) ∈ history

/-- Calls with valid indexes and states, and steps until the walk has ended. -/
def Proper (history : History Event (Option Nat)) : Pool × PoolWalker → Event → Prop
  | (pool, _), .call call => Valid pool.toLayout call.2
  | _, .step _ => ¬ Ended history

/-- No step is taken from an element that has entered the state of the walk
again, or after the counts have wrapped.  Before the walk some counts were given. -/
def Unharmed (given : Nat) (history : History Event (Option Nat)) (now : Pool × PoolWalker) (event : Event) : Prop :=
  Proper history now event ∧
    (event = .step true → Undisturbed now.1 now.2 ∧ given + (moved history).length < 2 ^ 64)

section

variable {pool : Pool} {ages : Ages}

theorem Tracks.indexToState (tracks : Tracks pool ages) {id : Nat} (small : id < pool.number) :
    pool.indexToState id = some (ages.state id) := by
  rw [Pool.indexToState, if_pos small, tracks.node_state small]

/-- A call changes no ages, or the element that it moves enters a state. -/
theorem Tracks.moves (tracks : Tracks pool ages) {call : Bool × Operation} (valid : Valid pool.toLayout call.2)
    (few : pool.number < 2 ^ 32) :
    (moves pool call = none ∧ ages.step call = ages) ∨
      ∃ id newState, moves pool call = some id ∧ ages.step call = ages.enter id newState := by
  rcases call with ⟨taken, operation⟩
  cases taken with
  | false => exact Or.inl ⟨rfl, rfl⟩
  | true =>
      cases operation with
      | set id oldState newState | tryTo id oldState newState =>
          rw [SxePool.moves, tracks.indexToState valid.1, Ages.step]
          by_cases same : ages.state id = oldState
          · rw [if_pos (congrArg some same), if_pos same.symm]
            exact Or.inr ⟨id, newState, rfl, rfl⟩
          · rw [if_neg fun equal => same (Option.some.inj equal), if_neg (Ne.symm same)]
            exact Or.inl ⟨rfl, rfl⟩
      | setOldest oldState newState =>
          rw [SxePool.moves, Pool.getOldestIndex, tracks.peekHead valid.1, Ages.step]
          cases first : (ages.queues oldState).head? with
          | none => exact Or.inl ⟨rfl, rfl⟩
          | some id =>
              rcases tracks.head valid.1 first with ⟨small, -, index⟩
              have notNone : id ≠ noIndex := by
                rw [noIndex]
                omega
              refine Or.inr ⟨id, newState, ?_, rfl⟩
              simp [index, notNone]
      | touch id => exact Or.inr ⟨id, _, rfl, rfl⟩

/-! ## Runs of a walk -/

/-- An element was in the state when the walk began, and was neither moved nor
touched since. -/
def Stayed (start : Pool) (state : Nat) (history : History Event (Option Nat)) (id : Nat) : Prop :=
  start.indexToState id = some state ∧ id ∉ moved history

/-- What a walk has done: it has returned the elements that stayed and whose
count is not above that of the walker. -/
structure Walks (start : Pool) (state given : Nat) (history : History Event (Option Nat)) (now : Pool × PoolWalker)
    (ages : Ages) : Prop where
  tracks : Tracks now.1 ages
  layout : now.1.toLayout = start.toLayout
  isState : now.2.state = state
  clock : ages.clock = given + (moved history).length
  stays : ∀ id, Stayed start state history id → ages.state id = state
  under : ¬ Ended history → Stands now.1.toLayout ages now.2 ∧
    ∀ id, Stayed start state history id → (returned history).count id = if ages.stamp id ≤ now.2.last then 1 else 0
  ended : Ended history → ∀ id, Stayed start state history id → (returned history).count id = 1

/-- A walk at its beginning. -/
theorem Tracks.walks (tracks : Tracks pool ages) (state : Nat) :
    Walks pool state ages.clock [] (pool, pool.walkerConstruct state) ages := by
  refine ⟨tracks, rfl, rfl, rfl, ?_, ?_, fun ended => nomatch ended⟩
  · rintro id ⟨before, -⟩
    rw [Pool.indexToState] at before
    split at before
    · rename_i small
      rw [tracks.node_state small] at before
      exact Option.some.inj before
    · cases before
  · intro _
    refine ⟨⟨rfl, Nat.zero_le _, Or.inl ⟨rfl, rfl⟩⟩, ?_⟩
    rintro id ⟨before, -⟩
    rw [Pool.indexToState] at before
    split at before
    · rename_i small
      have past := tracks.past id small
      change 0 = if ages.stamp id ≤ 0 then 1 else 0
      rw [if_neg (by omega)]
    · cases before

variable {start : Pool} {state given : Nat} {history : History Event (Option Nat)} {walker : PoolWalker}

theorem ended_call {call : Bool × Operation} {answer : Option Nat} :
    Ended ((.call call, answer) :: history) ↔ Ended history := by
  rw [Ended, List.mem_cons]
  exact ⟨fun member => member.resolve_left nofun, Or.inr⟩

theorem returned_call {call : Bool × Operation} {answer : Option Nat} :
    returned ((.call call, answer) :: history) = returned history := rfl

theorem Walks.call (walks : Walks start state given history (pool, walker) ages) (few : pool.number < 2 ^ 32)
    {call : Bool × Operation} (valid : Valid pool.toLayout call.2) {answer : Nat × Nat} {after : Pool}
    (performed : perform pool call = some (answer, after)) :
    Walks start state given ((.call call, moves pool call) :: history) (after, walker) (ages.step call) := by
  rcases walks with ⟨tracks, layout, isState, clock, stays, under, ended⟩
  rcases tracks.perform valid performed with ⟨tracks', layout'⟩
  dsimp only at tracks layout isState clock under
  rcases tracks.moves valid few with ⟨isNone, same⟩ | ⟨id, newState, isSome, same⟩
  · rw [isNone]
    rw [same] at tracks' ⊢
    refine ⟨tracks', layout'.trans layout, isState, clock, stays, ?_, fun isEnded => ended (ended_call.mp isEnded)⟩
    dsimp only
    rw [layout']
    exact fun notEnded => under fun isEnded => notEnded (ended_call.mpr isEnded)
  · rw [isSome]
    rw [same] at tracks' ⊢
    have stayed : ∀ other, Stayed start state ((.call call, some id) :: history) other →
        other ≠ id ∧ Stayed start state history other := by
      rintro other ⟨before, notMoved⟩
      rw [moved, List.mem_cons, not_or] at notMoved
      exact ⟨notMoved.1, before, notMoved.2⟩
    refine ⟨tracks', layout'.trans layout, isState, ?_, ?_, ?_, ?_⟩
    · rw [Ages.enter_clock, clock, moved, List.length_cons]
      omega
    · intro other isStayed
      rcases stayed other isStayed with ⟨different, before⟩
      rw [ages.enter_state_of_ne newState different]
      exact stays other before
    · intro notEnded
      rcases under fun isEnded => notEnded (ended_call.mpr isEnded) with ⟨stands, counts⟩
      dsimp only
      rw [layout']
      refine ⟨stands.enter id newState, ?_⟩
      intro other isStayed
      rcases stayed other isStayed with ⟨different, before⟩
      rw [ages.enter_stamp_of_ne newState different, returned_call]
      exact counts other before
    · exact fun isEnded other isStayed => ended (ended_call.mp isEnded) other (stayed other isStayed).2

theorem Walks.untaken (walks : Walks start state given history (pool, walker) ages) :
    Walks start state given ((.step false, some lockNotTaken) :: history) (pool, walker) ages := by
  have same : Ended ((.step false, some lockNotTaken) :: history) ↔ Ended history := by
    rw [Ended, List.mem_cons]
    exact ⟨fun member => member.resolve_left nofun, Or.inr⟩
  exact ⟨walks.tracks, walks.layout, walks.isState, walks.clock, walks.stays,
    fun notEnded => walks.under fun isEnded => notEnded (same.mpr isEnded),
      fun isEnded => walks.ended (same.mp isEnded)⟩

theorem Walks.step (walks : Walks start state given history (pool, walker) ages) (few : pool.number < 2 ^ 32)
    (valid : state < pool.states) (underWay : ¬ Ended history) (undisturbed : Undisturbed pool walker)
    (early : given + (moved history).length < 2 ^ 64) :
    ((pool.walkerStep true walker).1 ≠ noIndex → pool.indexToState (pool.walkerStep true walker).1 = some state) ∧
      Walks start state given ((.step true, some (pool.walkerStep true walker).1) :: history)
        (pool, (pool.walkerStep true walker).2) ages := by
  rcases walks with ⟨tracks, layout, isState, clock, stays, under, -⟩
  dsimp only at tracks layout isState clock under
  subst isState
  rcases under underWay with ⟨stands, counts⟩
  rw [← clock] at early
  have advances := tracks.walkerNext early valid stands undisturbed
  rw [Pool.walkerStep, if_neg (not_not_intro rfl)]
  have isSmall : ∀ id, Stayed start walker.state history id → id < pool.number := by
    rintro id ⟨before, -⟩
    rw [Pool.indexToState, ← congrArg Layout.number layout] at before
    split at before
    · assumption
    · cases before
  have inQueue : ∀ id, Stayed start walker.state history id → id ∈ ages.queues walker.state := by
    intro id isStayed
    exact (tracks.mem_iff id _ (isSmall id isStayed) valid).mpr (stays id isStayed).symm
  generalize next : pool.walkerNext walker = result at advances
  cases advances with
  | stop back all =>
      refine ⟨fun different => absurd rfl different, tracks, layout, rfl, clock, stays, ?_, ?_⟩
      · exact fun notEnded => absurd List.mem_cons_self notEnded
      · intro _ id isStayed
        rw [returned, if_pos rfl, counts id isStayed, if_pos (all id (inQueue id isStayed))]
  | go left right id split passed later =>
      rcases tracks.stands valid split with ⟨small, same, stands'⟩
      have index := tracks.holds.placed.index id small
      have notNone : id ≠ noIndex := by
        rw [noIndex]
        omega
      dsimp only
      rw [index, tracks.count_eq early small]
      refine ⟨fun _ => by rw [tracks.indexToState small, same], tracks, layout, rfl, clock, stays, ?_, ?_⟩
      · intro _
        refine ⟨stands', ?_⟩
        intro other isStayed
        have ordered := tracks.ordered _ valid
        have inside := inQueue other isStayed
        rw [split] at ordered inside
        rw [returned, if_neg notNone, List.count_cons, counts other isStayed]
        dsimp only
        rcases List.mem_append.mp inside with before | after
        · have notId : ages.stamp other < ages.stamp id :=
            (List.pairwise_append.mp ordered).2.2 other before id List.mem_cons_self
          have different : id ≠ other := by
            rintro rfl
            omega
          rw [if_pos (passed other before), if_pos (Nat.le_of_lt notId)]
          simp [different]
        · rcases List.mem_cons.mp after with rfl | behind
          · rw [if_neg (by omega), if_pos (Nat.le_refl _)]
            simp
          · have notId : ages.stamp id < ages.stamp other :=
              (List.pairwise_cons.mp (List.pairwise_append.mp ordered).2.1).1 other behind
            have different : id ≠ other := by
              rintro rfl
              omega
            rw [if_neg (Nat.not_le.mpr (Nat.lt_trans later notId)), if_neg (Nat.not_le.mpr notId)]
            simp [different]
      · intro isEnded
        rcases List.mem_cons.mp isEnded with same | before
        · cases same
          exact absurd rfl notNone
        · exact absurd before underWay

theorem Walks.event {now next : Pool × PoolWalker} (walks : Walks start state given history now ages)
    (few : start.number < 2 ^ 32) (valid : state < start.states) {event : Event}
    (unharmed : Unharmed given history now event) {answer : Option Nat}
    (happened : interleave now event = some (answer, next)) :
    ∃ ages, Walks start state given ((event, answer) :: history) next ages := by
  rcases now with ⟨pool, walker⟩
  rcases unharmed with ⟨proper, undisturbed⟩
  rw [← congrArg Layout.number walks.layout] at few
  rw [← congrArg Layout.states walks.layout] at valid
  cases event with
  | call call =>
      rcases Option.map_eq_some_iff.mp happened with ⟨⟨result, after⟩, performed, same⟩
      cases same
      exact ⟨_, walks.call few proper performed⟩
  | step taken =>
      cases happened
      cases taken with
      | false => exact ⟨ages, walks.untaken⟩
      | true => exact ⟨ages, (walks.step few valid proper (undisturbed rfl).1 (undisturbed rfl).2).2⟩

end

/-- Through any run of events that does no harm, a walk returns elements of its
state, and when it ends it has returned the elements that stayed exactly once. -/
theorem walk_sound (heap : Heap) (last : UInt64 → Nat) {base : UInt64} {number size states state : Nat}
    (notNull : base ≠ 0)
    (few : number < 2 ^ 32) (fits : base.toNat + (144 + number * size + states * 40 + number * 32) ≤ 2 ^ 64)
    (valid : state < states) {earlier : History (Bool × Operation) (Nat × Nat)} {start : Pool}
    (before : Run perform Allowed (Pool.construct heap last base number size states) earlier start)
    {history : History Event (Option Nat)} {pool : Pool} {walker : PoolWalker}
    (run : Run interleave (Unharmed (agesAfter number earlier).clock) (start, start.walkerConstruct state) history
      (pool, walker)) :
    (Unharmed (agesAfter number earlier).clock history (pool, walker) (.step true) →
        (pool.walkerStep true walker).1 ≠ noIndex → pool.indexToState (pool.walkerStep true walker).1 = some state) ∧
      (Ended history → ∀ id, start.indexToState id = some state → id ∉ moved history →
        (returned history).count id = 1) := by
  rcases construct_tracks heap last notNull few (Nat.zero_lt_of_lt valid) fits with ⟨new, isNumber, isStates⟩
  rcases new.run before with ⟨tracks, layout⟩
  have fewStart : start.number < 2 ^ 32 := by
    rw [congrArg Layout.number layout, isNumber]
    exact few
  have validStart : state < start.states := by
    rw [congrArg Layout.states layout, isStates]
    exact valid
  have always := run.invariant
    (fun history now => ∃ ages, Walks start state (agesAfter number earlier).clock history now ages)
    ⟨_, tracks.walks state⟩ (by
      rintro history now event answer next ⟨ages, walks⟩ unharmed happened
      exact walks.event fewStart validStart unharmed happened)
  rcases always with ⟨ages, walks⟩
  refine ⟨?_, fun isEnded id inState notMoved => walks.ended isEnded id ⟨inState, notMoved⟩⟩
  rintro ⟨proper, undisturbed⟩ found
  rw [← congrArg Layout.number walks.layout] at fewStart
  rw [← congrArg Layout.states walks.layout] at validStart
  exact (walks.step fewStart validStart proper (undisturbed rfl).1 (undisturbed rfl).2).1 found

/-- An element is touched that the walk has gone past. -/
def touchedBehind : History Event (Option Nat) :=
  [(.step true, some noIndex), (.step true, some 1), (.call (true, .touch 1), some 1), (.step true, some 0),
    (.step true, some 1)]

theorem walk_sound_touchedBehind :
    (∃ now, Run interleave (Unharmed 2) (smallPool, smallPool.walkerConstruct 0) touchedBehind now) ∧
      (returned touchedBehind).count 0 = 1 := by
  have run : ∃ pool walker,
      Run interleave (Unharmed 2) (smallPool, smallPool.walkerConstruct 0) touchedBehind (pool, walker) := by
    refine ⟨_, _, Run.step (Run.step (Run.step (Run.step (Run.step Run.start ⟨?_, ?_⟩ rfl) ⟨?_, ?_⟩ rfl) ⟨?_, ?_⟩ rfl)
      ⟨?_, ?_⟩ rfl) ⟨?_, ?_⟩ rfl⟩
    · simp [Proper, Ended]
    · exact fun _ => ⟨by unfold Undisturbed; decide, by decide⟩
    · simp [Proper, Ended, noIndex]
    · exact fun _ => ⟨by unfold Undisturbed; decide, by decide⟩
    · show 1 < 2
      decide
    · intro step
      cases step
    · simp [Proper, Ended, noIndex]
    · exact fun _ => ⟨by unfold Undisturbed; decide, by decide⟩
    · simp [Proper, Ended, noIndex]
    · exact fun _ => ⟨by unfold Undisturbed; decide, by decide⟩
  rcases run with ⟨pool, walker, run⟩
  refine ⟨⟨_, run⟩, ?_⟩
  exact (walk_sound SxeList.blank (fun _ => 0) (by decide) (by decide) (by decide) (by decide) Run.start run).2
    List.mem_cons_self 0 rfl (by decide)

/-- The element that the walk is at is touched, and the walk ends without the
other element. -/
theorem walk_misses_element : ∃ history now,
    Run interleave Proper (smallPool, smallPool.walkerConstruct 0) history now ∧ Ended history ∧
      smallPool.indexToState 0 = some 0 ∧ 0 ∉ moved history ∧ 0 ∉ returned history := by
  refine ⟨[(.step true, some noIndex), (.call (true, .touch 1), some 1), (.step true, some 1)], _,
    Run.step (Run.step (Run.step Run.start ?_ rfl) ?_ rfl) ?_ rfl, ?_, ?_, ?_, ?_⟩
  · simp [Proper, Ended]
  · show 1 < 2
    decide
  · simp [Proper, Ended, noIndex]
  · exact List.mem_cons_self
  · rfl
  · decide
  · decide

end SxePool
end LibKit
