import LibKit.KitCounters.Slots
import LibKit.Support.Runs

namespace LibKit
namespace KitCounters

/-!
# Counts are conserved

In a run of calls, the value of a counter is the sum of what was counted, as
long as no thread counts in the block of a slot that is not in use.  A thread
does that only after another has given up its dynamic slot.
-/

/-! ## Runs -/

/-- A thread that is given a slot by its number gets a static one. -/
def OnStatic (state : Counters) : Call → Prop
  | .initThread index => ∀ slot, state.slots[index]? = some slot → slot.isStatic = true
  | _ => True

/-- Counts are made by threads whose block is counted, and the number of slots is
one of an `int`. -/
def Safe (state : Counters) (thread : Nat) : Call → Prop
  | .prepareDynamicThreads count _ =>
      ((reuse count state.slots).2 ≠ 0 → Counts state thread) ∧ preparedSlots state count < 2 ^ 31
  | .incr _ => Counts state thread
  | .decr _ => Counts state thread
  | .add _ _ => Counts state thread
  | .initThread _ => True
  | .finiThread _ => True
  | .initDynamicThread => True
  | .finiDynamicThread _ => True

section

variable {setup : Setup} {state after : Counters} {thread : Nat}

/-- One safe call. -/
theorem call_kept {call : Call} (sound : Sound state) (few : state.slots.length < 2 ^ 31)
    (onStatic : OnStatic state call)
    (safe : Safe state thread call) (done : call.run setup thread state = .ok after) :
    after.slots.length < 2 ^ 31 ∧ Sound after ∧ ∀ counter, counter ≤ setup.numCounters → Plain setup counter →
      tally after counter = tally state counter + addedTo counter (call.counts setup state) := by
  have moves : Kept setup state after → call.counts setup state = [] → after.slots.length < 2 ^ 31 ∧ Sound after ∧
      ∀ counter, counter ≤ setup.numCounters → Plain setup counter →
        tally after counter = tally state counter + addedTo counter (call.counts setup state) := by
    intro kept none
    refine ⟨kept.length ▸ few, kept.sound, fun counter known plain => ?_⟩
    rw [kept.tally counter known plain, none]
    exact (add_zero _).symm
  have counts : ∀ {one : Nat × UInt64}, Counted setup [one] state after → call.counts setup state = [one] →
      after.slots.length < 2 ^ 31 ∧ Sound after ∧ ∀ counter, counter ≤ setup.numCounters → Plain setup counter →
        tally after counter = tally state counter + addedTo counter (call.counts setup state) := by
    intro one counted isOne
    refine ⟨counted.slots ▸ few, counted.sound, fun counter known _ => ?_⟩
    rw [counted.tally counter known, isOne]
  cases call with
  | prepareDynamicThreads count contents =>
      rcases prepare_kept sound safe.1 done with ⟨length, isSound, isTally⟩
      exact ⟨length ▸ safe.2, isSound, isTally⟩
  | initThread index => exact moves (initThread_kept sound onStatic done) rfl
  | finiThread index => exact moves (finiThread_kept sound done) rfl
  | initDynamicThread =>
      rcases bind_ok done with ⟨⟨index, next⟩, begun, done⟩
      cases done
      exact moves (initDynamicThread_kept sound begun) rfl
  | finiDynamicThread index => exact moves (finiDynamicThread_kept sound done) rfl
  | incr counter => exact counts (counterAdd_counted sound safe done) rfl
  | decr counter => exact counts (counterAdd_counted sound safe done) rfl
  | add counter value => exact counts (counterAdd_counted sound safe done) rfl

theorem step_ok {call : Nat × Call} {answer : List (Nat × UInt64)} {next : Counters}
    (stepped : step setup state call = some (answer, next)) :
    answer = call.2.counts setup state ∧ call.2.run setup call.1 state = .ok next := by
  rw [step] at stepped
  split at stepped
  · rename_i after done
    cases stepped
    exact ⟨rfl, done⟩
  · cases stepped

theorem initialize_sound {threads main : Nat} {start : Counters}
    (started : countersInitialize threads main = .ok start) :
    start.slots.length = threads ∧ Sound start ∧ ∀ counter, tally start counter = 0 := by
  rw [countersInitialize] at started
  split at started
  · cases started
  · cases started
    refine ⟨by rw [List.length_map, List.length_range], ⟨?_, ?_, fun _ _ _ _ => rfl⟩, fun counter => ?_⟩
    · have blocks : ((List.range threads).map fun i => Slot.mk false true (decide (i = 0)) i).map Slot.block =
          List.range threads := by
        rw [List.map_map]
        exact List.map_id _
      rw [Distinct, blocks]
      exact List.nodup_range
    · intro slot inside
      rcases List.mem_map.mp inside with ⟨i, isI, rfl⟩
      exact List.mem_range.mp isI
    · rw [tally]
      dsimp only
      have none : usedSum ((List.range threads).map fun i => Slot.mk false true (decide (i = 0)) i)
        (fun _ _ => 0) counter = 0 := by
        rw [usedSum]
        apply List.sum_eq_zero
        intro value inside
        rcases List.mem_map.mp inside with ⟨slot, -, rfl⟩
        exact ite_self 0
      rw [none]
      rfl

theorem counterGet_tally {counter : Nat} (few : state.slots.length < 2 ^ 31) (registered : 0 < counter)
    (known : counter ≤ setup.numCounters) (plain : Plain setup counter) :
      counterGet setup counter state = tally state counter := by
  have isInt : -1 < (UInt32.ofNat state.slots.length).toInt32.toInt := by
    rw [UInt32.toInt32_ofNat', Int32.toInt_ofNat_of_lt few]
    omega
  have none : setup.combineHandlers.find? (·.1 = counter) = none := by
    rw [List.find?_eq_none]
    intro handler inside
    rw [decide_eq_true_eq]
    exact plain handler inside
  rw [counterGet, if_neg (Nat.ne_of_gt registered), counterGetTotal, if_pos ⟨known, isInt⟩, none]
  rfl

/-- The value of a counter is the sum of the counts made since the counters were
initialized. -/
theorem counter_get_conserved {threads main : Nat} {start : Counters}
    {history : History (Nat × Call) (List (Nat × UInt64))}
    (started : countersInitialize threads main = .ok start) (few : threads < 2 ^ 31)
    (run : Run (step setup) (fun _ state call => OnStatic state call.2 ∧ Safe state call.1 call.2) start history state)
    {counter : Nat} (registered : 0 < counter) (known : counter ≤ setup.numCounters) (plain : Plain setup counter) :
    counterGet setup counter state = addedTo counter (history.flatMap Prod.snd) := by
  rcases initialize_sound started with ⟨length, sound, empty⟩
  have all := run.invariant (fun history state => state.slots.length < 2 ^ 31 ∧ Sound state ∧
    ∀ counter, counter ≤ setup.numCounters → Plain setup counter →
      tally state counter = addedTo counter (history.flatMap Prod.snd)) ⟨length ▸ few, sound,
        fun counter _ _ => empty counter⟩ ?_
  · rcases all with ⟨few, -, isTally⟩
    rw [counterGet_tally few registered known plain]
    exact isTally counter known plain
  · rintro history state call answer next ⟨few, sound, isTally⟩ ⟨onStatic, safe⟩ stepped
    rcases step_ok stepped with ⟨rfl, done⟩
    rcases call_kept sound few onStatic safe done with ⟨fewNext, soundNext, tallyNext⟩
    refine ⟨fewNext, soundNext, fun counter known plain => ?_⟩
    rw [tallyNext counter known plain, isTally counter known plain, List.flatMap_cons, addedTo_append, add_comm]

end

/-! ## Slots that are given up by their threads -/

/-- Threads that have blocks of slots have those of slots in use, and no two have
the same. -/
structure Owned (state : Counters) : Prop where
  counts : ∀ thread, Counts state thread
  alone : ∀ first second block, state.thread first = some (.own block) → state.thread second = some (.own block) →
    first = second

/-- No other thread has the block of a dynamic slot that is given up. -/
def ByOwner (state : Counters) (thread : Nat) : Call → Prop
  | .finiDynamicThread index => ∀ slot, state.slots[index]? = some slot →
      ∀ other, state.thread other = some (.own slot.block) → other = thread
  | _ => True

section

variable {setup : Setup} {state after : Counters} {thread : Nat}

/-- A thread takes a slot that was not in use. -/
theorem Owned.takes (owned : Owned state) (sound : Sound state) {index : Nat} {slot : Slot}
    (found : state.slots[index]? = some slot) (unused : slot.isUsed = false) (other : Slot)
    (same : other.block = slot.block) (used : other.isUsed = true)
    (isSlots : after.slots = state.slots.set index other)
    (isThread : after.thread = Function.update state.thread thread (some (.own slot.block))) : Owned after := by
  have below := (List.getElem?_eq_some_iff.mp found).1
  have nobody : ∀ any, state.thread any ≠ some (.own slot.block) := by
    intro any leads
    rcases owned.counts any slot.block leads with ⟨member, inside, isUsed, isBlock⟩
    rcases List.getElem?_of_mem inside with ⟨i, isMember⟩
    cases sound.distinct.unique isMember found isBlock
    cases isMember.symm.trans found
    rw [unused] at isUsed
    cases isUsed
  constructor
  · intro any block leads
    rw [isSlots]
    rw [isThread, Function.update_apply] at leads
    split at leads
    · cases leads
      exact ⟨other, List.mem_of_getElem? (List.getElem?_set_self below), used, same⟩
    · rcases owned.counts any block leads with ⟨member, inside, isUsed, isBlock⟩
      rcases List.getElem?_of_mem inside with ⟨i, isMember⟩
      refine ⟨member, List.mem_of_getElem? (i := i) ?_, isUsed, isBlock⟩
      rw [List.getElem?_set_ne, isMember]
      rintro rfl
      cases isMember.symm.trans found
      rw [unused] at isUsed
      cases isUsed
  · intro first second block isFirst isSecond
    rw [isThread, Function.update_apply] at isFirst isSecond
    split at isFirst
    · split at isSecond
      · rename_i one two
        exact one.trans two.symm
      · cases isFirst
        exact absurd isSecond (nobody second)
    · split at isSecond
      · cases isSecond
        exact absurd isFirst (nobody first)
      · exact owned.alone first second block isFirst isSecond

theorem Owned.gives (owned : Owned state) {index : Nat} {slot : Slot}
    (found : state.slots[index]? = some slot) {other : Slot}
    (alone : ∀ any, state.thread any = some (.own slot.block) → any = thread)
    (isSlots : after.slots = state.slots.set index other)
    (isThread : after.thread = Function.update state.thread thread (some .dead)) : Owned after := by
  constructor
  · intro any block leads
    rw [isSlots]
    rw [isThread, Function.update_apply] at leads
    split at leads
    · cases leads
    · rename_i differs
      rcases owned.counts any block leads with ⟨member, inside, isUsed, isBlock⟩
      rcases List.getElem?_of_mem inside with ⟨i, isMember⟩
      refine ⟨member, List.mem_of_getElem? (i := i) ?_, isUsed, isBlock⟩
      rw [List.getElem?_set_ne, isMember]
      rintro rfl
      cases isMember.symm.trans found
      exact differs (alone any (isBlock ▸ leads))
  · intro first second block isFirst isSecond
    rw [isThread, Function.update_apply] at isFirst isSecond
    split at isFirst
    · cases isFirst
    · split at isSecond
      · cases isSecond
      · exact owned.alone first second block isFirst isSecond

theorem Owned.congr (owned : Owned state) (isThread : after.thread = state.thread)
    (slots : ∀ slot ∈ state.slots, slot.isUsed = true → ∃ other ∈ after.slots, other.isUsed = true ∧
      other.block = slot.block) :
    Owned after := by
  constructor
  · intro any block leads
    rw [isThread] at leads
    rcases owned.counts any block leads with ⟨slot, inside, used, isBlock⟩
    rcases slots slot inside used with ⟨other, isOther, otherUsed, same⟩
    exact ⟨other, isOther, otherUsed, same.trans isBlock⟩
  · rw [isThread]
    exact owned.alone

theorem counterAdd_owned {counter : Nat} {value : UInt64} (owned : Owned state) (sound : Sound state)
    (done : counterAdd setup thread counter value state = .ok after) : Owned after := by
  have counted := counterAdd_counted sound (owned.counts thread) done
  apply owned.congr counted.thread
  rw [counted.slots]
  exact fun slot inside used => ⟨slot, inside, used, rfl⟩

theorem prepare_owned {count : Nat} {contents : Nat → Block} (owned : Owned state) (sound : Sound state)
    (done : countersPrepareDynamicThreads setup thread count contents state = .ok after) : Owned after := by
  have alike := alike_mem (reuse_alike count state.slots)
  have reused := @reuse_kept setup state sound count
  have likely : ∀ slot ∈ state.slots, slot.isUsed = true →
      ∃ other ∈ (reuse count state.slots).1, other.isUsed = true ∧ other.block = slot.block := by
    intro slot inside used
    rcases alike.2 slot inside with ⟨other, isOther, like⟩
    exact ⟨other, isOther, like.isUsed.trans used, like.block⟩
  rw [countersPrepareDynamicThreads] at done
  simp only at done
  split at done
  · cases done
    exact owned.congr rfl likely
  · split at done
    · cases done
    · rcases bind_ok done with ⟨allocated, first, done⟩
      have mallocs := counterIncrs_counted reused.sound (reuse_counts (owned.counts thread) count) first
      have frees := counterIncrs_counted (grow_kept allocated _ contents mallocs.sound).1
        (grow_counts allocated _ contents (mallocs.counts (reuse_counts (owned.counts thread) count))) done
      apply owned.congr (frees.thread.trans mallocs.thread)
      intro slot inside used
      rcases likely slot inside used with ⟨other, isOther, same⟩
      refine ⟨other, ?_, same⟩
      rw [frees.slots]
      apply List.mem_append_left
      rw [mallocs.slots]
      exact isOther

theorem call_owned {call : Call} (sound : Sound state) (owned : Owned state) (byOwner : ByOwner state thread call)
    (done : call.run setup thread state = .ok after) : Owned after := by
  cases call with
  | prepareDynamicThreads count contents => exact prepare_owned owned sound done
  | initThread index =>
      rcases initThread_ok done with ⟨slot, found, unused, rfl⟩
      exact owned.takes sound found unused { slot with isUsed := true } rfl rfl rfl rfl
  | finiThread index =>
      rcases finiThread_ok done with ⟨slot, found, -, own, rfl⟩
      exact owned.gives found (fun any leads => owned.alone any thread slot.block leads own) rfl rfl
  | initDynamicThread =>
      rcases bind_ok done with ⟨⟨index, next⟩, begun, done⟩
      cases done
      rcases initDynamicThread_ok begun with ⟨slot, found, unused, rfl⟩
      exact owned.takes sound found unused { slot with isUsed := true } rfl rfl rfl rfl
  | finiDynamicThread index =>
      rcases finiDynamicThread_ok done with ⟨slot, found, -, rfl⟩
      exact owned.gives found (byOwner slot found) rfl rfl
  | incr counter => exact counterAdd_owned owned sound done
  | decr counter => exact counterAdd_owned owned sound done
  | add counter value => exact counterAdd_owned owned sound done

theorem initialize_owned {threads main : Nat} {start : Counters}
    (started : countersInitialize threads main = .ok start) :
    Owned start := by
  rw [countersInitialize] at started
  split at started
  · cases started
  · rename_i some
    cases started
    constructor
    · intro any block leads
      simp only at leads
      split at leads
      · cases leads
        refine ⟨⟨false, true, decide (0 = 0), 0⟩, List.mem_map.mpr ⟨0, List.mem_range.mpr ?_, rfl⟩, rfl, rfl⟩
        exact Nat.pos_of_ne_zero some
      · cases leads
    · intro first second block isFirst isSecond
      simp only at isFirst isSecond
      split at isFirst
      · split at isSecond
        · rename_i one two
          exact one.trans two.symm
        · cases isSecond
      · cases isFirst

/-- The number of slots stays one of an `int`. -/
def FewSlots (state : Counters) : Call → Prop
  | .prepareDynamicThreads count _ => preparedSlots state count < 2 ^ 31
  | _ => True

theorem Owned.safe (owned : Owned state) {call : Call} (few : FewSlots state call) : Safe state thread call := by
  cases call with
  | prepareDynamicThreads count contents => exact ⟨fun _ => owned.counts thread, few⟩
  | incr counter => exact owned.counts thread
  | decr counter => exact owned.counts thread
  | add counter value => exact owned.counts thread
  | initThread index => trivial
  | finiThread index => trivial
  | initDynamicThread => trivial
  | finiDynamicThread index => trivial

/-- Threads that give up only their own slots always count in what is counted. -/
theorem run_by_owners {threads main : Nat} {start : Counters} {history : History (Nat × Call) (List (Nat × UInt64))}
    (started : countersInitialize threads main = .ok start) (few : threads < 2 ^ 31)
    (run : Run (step setup) (fun _ state call => OnStatic state call.2 ∧ ByOwner state call.1 call.2 ∧
      FewSlots state call.2)
      start history state) :
    Run (step setup) (fun _ state call => OnStatic state call.2 ∧ Safe state call.1 call.2) start history state := by
  rcases initialize_sound started with ⟨length, sound, -⟩
  refine run.mono (fun _ state => Owned state) (fun history state run => ?_)
    (fun history state call owned allowed => ⟨allowed.1, owned.safe allowed.2.2⟩)
  have all := run.invariant (fun _ state => state.slots.length < 2 ^ 31 ∧ Sound state ∧ Owned state)
    ⟨length ▸ few, sound, initialize_owned started⟩ ?_
  · exact all.2.2
  · rintro history state call answer next ⟨few, sound, owned⟩ ⟨onStatic, byOwner, fewNext⟩ stepped
    rcases step_ok stepped with ⟨-, done⟩
    have kept := call_kept sound few onStatic (owned.safe fewNext) done
    exact ⟨kept.1, kept.2.1, call_owned sound owned byOwner done⟩

end

/-- Three counters without handlers, two of which are those of memory. -/
def threeCounters : Setup := ⟨3, [], true, 1, 2⟩

/-- The main thread prepares a slot for another. -/
def prepareOne : Nat × Call := (0, .prepareDynamicThreads 1 fun _ _ => 9)

/-- The counters when the main thread has prepared a slot, and the other thread
has taken it. -/
theorem threeCounters_begun : ∃ start first second answer, countersInitialize 1 0 = .ok start ∧
    step threeCounters start prepareOne = some (answer, first) ∧
    step threeCounters first (1, .initDynamicThread) = some ([], second) ∧ addedTo 3 answer = 0 ∧
    second.slots = [⟨false, true, true, 0⟩, ⟨true, false, true, 1⟩] ∧
    (∀ thread, second.thread thread = if thread = 1 then some (.own 1) else if thread = 0 then some (.own 0)
      else none) ∧
    second.blocks 0 3 = 0 ∧ second.blocks 1 3 = 0 ∧ second.dead 3 = 0 ∧ second.shared 3 = 0 := by
  refine ⟨_, _, _, _, rfl, rfl, rfl, rfl, rfl, fun thread => ?_, rfl, rfl, rfl, rfl⟩
  exact Function.update_apply _ _ _ _

/-- The count of a thread is not lost when the thread ends. -/
theorem counter_get_ended : ∃ start history state, countersInitialize 1 0 = .ok start ∧
    Run (step threeCounters) (fun _ state call => OnStatic state call.2 ∧
      Safe state call.1 call.2) start history state ∧
    history.map Prod.fst = [(1, .finiDynamicThread 1), (1, .incr 3), (1, .initDynamicThread), prepareOne] ∧
    counterGet threeCounters 3 state = 1 := by
  rcases threeCounters_begun with ⟨start, first, second, answer, started, prepared, begun, none, isSlots, isThread, -⟩
  have counted : ∃ third, step threeCounters second (1, .incr 3) = some ([(3, 1)], third) ∧ third.slots = second.slots ∧
      third.thread = second.thread := by
    have own : second.thread 1 = some (.own 1) := isThread 1
    simp only [step, Call.run, counterIncr, counterAdd, own]
    exact ⟨_, rfl, rfl, rfl⟩
  rcases counted with ⟨third, counted, thirdSlots, thirdThread⟩
  have ended : ∃ fourth, step threeCounters third (1, .finiDynamicThread 1) = some ([], fourth) := by
    simp only [step, Call.run, countersFiniDynamicThread, thirdSlots, isSlots]
    exact ⟨_, rfl⟩
  rcases ended with ⟨fourth, ended⟩
  have owner : ByOwner third 1 (.finiDynamicThread 1) := by
    intro slot found other leads
    rw [thirdSlots, isSlots] at found
    cases found
    rw [thirdThread, isThread] at leads
    split at leads
    · assumption
    · split at leads <;> cases leads
  have few : FewSlots start prepareOne.2 := by
    cases started
    show _ < _
    decide
  have run := run_by_owners started (by decide)
    ((((Run.start.step (by exact ⟨trivial, trivial, few⟩) prepared).step
      (by exact ⟨trivial, trivial, trivial⟩) begun).step
      (by exact ⟨trivial, trivial, trivial⟩) counted).step (by exact ⟨trivial, owner, trivial⟩) ended)
  refine ⟨start, _, fourth, started, run, rfl, ?_⟩
  rw [counter_get_conserved started (by decide) run (by decide) (by decide) fun _ inside =>
    absurd inside List.not_mem_nil]
  show addedTo 3 ([] ++ ([(3, 1)] ++ ([] ++ (answer ++ [])))) = 1
  rw [addedTo_append, addedTo_append, addedTo_append, addedTo_append, none]
  rfl

/-- A thread whose slot is given up by another counts in what is not counted. -/
theorem counter_get_lost : ∃ start history state, countersInitialize 1 0 = .ok start ∧
    Run (step threeCounters) (fun _ state call => OnStatic state call.2) start history state ∧
    counterGet threeCounters 3 state ≠ addedTo 3 (history.flatMap Prod.snd) := by
  rcases threeCounters_begun with
    ⟨start, first, second, answer, started, prepared, begun, none, isSlots, isThread, zero, one, dead, shared⟩
  have ended : ∃ third, step threeCounters second (0, .finiDynamicThread 1) = some ([], third) ∧
      third.slots = [⟨false, true, true, 0⟩, ⟨false, false, false, 1⟩] ∧ third.thread 1 = second.thread 1 ∧
      third.blocks = second.blocks ∧ third.dead 3 = second.dead 3 + second.blocks 1 3 ∧
        third.shared = second.shared := by
    simp only [step, Call.run, countersFiniDynamicThread, isSlots]
    exact ⟨_, rfl, rfl, rfl, rfl, rfl, rfl⟩
  rcases ended with ⟨third, ended, thirdSlots, thirdThread, thirdBlocks, thirdDead, thirdShared⟩
  have counted : ∃ fourth, step threeCounters third (1, .incr 3) = some ([(3, 1)], fourth) ∧
    fourth.slots = third.slots ∧
      fourth.blocks 0 = third.blocks 0 ∧ fourth.dead = third.dead ∧ fourth.shared = third.shared := by
    have own : third.thread 1 = some (.own 1) := thirdThread.trans (isThread 1)
    simp only [step, Call.run, counterIncr, counterAdd, own]
    exact ⟨_, rfl, rfl, rfl, rfl, rfl⟩
  rcases counted with ⟨fourth, counted, fourthSlots, fourthBlocks, fourthDead, fourthShared⟩
  refine ⟨start, _, fourth, started, (((Run.start.step (by exact trivial) prepared).step (by exact trivial) begun).step
    (by exact trivial) ended).step (by exact trivial) counted, ?_⟩
  have isZero : counterGet threeCounters 3 fourth = 0 := by
    rw [counterGet, if_neg (by decide), counterGetTotal, fourthSlots, thirdSlots, if_pos (by decide)]
    show usedSum _ fourth.blocks 3 + fourth.dead 3 + fourth.shared 3 = 0
    rw [usedSum_cons, usedSum_cons, Slot.worth, Slot.worth, if_pos rfl, if_neg (by decide), fourthBlocks,
      thirdBlocks, zero,
      fourthDead, thirdDead, dead, one, fourthShared, thirdShared, shared]
    rfl
  rw [isZero]
  show 0 ≠ addedTo 3 ([(3, 1)] ++ ([] ++ ([] ++ (answer ++ []))))
  rw [addedTo_append, addedTo_append, addedTo_append, addedTo_append, none]
  decide

end KitCounters
end LibKit
