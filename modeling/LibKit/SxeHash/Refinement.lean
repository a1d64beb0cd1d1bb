import LibKit.SxeHash.Multimap

namespace LibKit
namespace SxeHash

open SxeList (Heap)
open SxePool (Pool Tracks Ages Layout added removed)

/-!
# Runs on a hash

Every call keeps the queues of the buckets and the contents of the multimap in
step, so that a run of any calls has the answers of a multimap.
-/

section

variable {hash after : Hash} {contents : Contents} {ages : Ages} {id : Nat}

/-! ## Elements that change buckets -/

theorem removed_eq_filter (tracks : Tracks hash.pool ages) {state bucket : Nat} (small : id < hash.pool.number)
    (isState : ages.state id = state) (valid : bucket < hash.pool.states) :
    removed ages.queues id state bucket = (ages.queues bucket).filter (· ≠ id) := by
  by_cases same : bucket = state
  · rw [removed, same, Function.update_self, (tracks.holds.nodup (same ▸ valid)).erase_eq_filter]
    apply List.filter_congr
    intro other _
    rw [Bool.eq_iff_iff, bne_iff_ne, decide_eq_true_eq]
  · rw [removed, Function.update_of_ne same]
    symm
    rw [List.filter_eq_self]
    intro other inside
    rw [decide_eq_true_eq]
    rintro rfl
    exact same ((tracks.mem_iff other bucket small valid).mp inside ▸ isState)

/-- The queues of the buckets after an element has moved from one state to
another. -/
theorem enter_queue (tracks : Tracks hash.pool ages) {newState bucket : Nat} (small : id < hash.pool.number)
    (valid : bucket < hash.pool.states) :
    (ages.enter id newState).queues bucket =
      (ages.queues bucket).filter (· ≠ id) ++ if bucket = newState then [id] else [] := by
  rw [Ages.enter_queues, added]
  by_cases same : bucket = newState
  · rw [same, Function.update_self, if_pos rfl, removed_eq_filter tracks small rfl (same ▸ valid)]
  · rw [Function.update_of_ne same, if_neg same, List.append_nil, removed_eq_filter tracks small rfl valid]

theorem Represents.filter_queue (represents : Represents hash contents ages) (small : id < hash.count) {bucket : Nat}
    (valid : bucket < hash.count + bucketsReserved) (elsewhere : ages.state id ≠ bucket) :
    (ages.queues bucket).filter (· ≠ id) = ages.queues bucket := by
  rw [List.filter_eq_self]
  intro other inside
  rw [decide_eq_true_eq]
  rintro rfl
  exact elsewhere ((represents.tracks.mem_iff other bucket (represents.number ▸ small) (represents.states ▸ valid)).mp
    inside).symm

theorem Represents.take (represents : Represents hash contents ages) (small : id < hash.count)
    (unused : ages.state id = unusedBucket) :
    Represents { hash with pool := hash.pool.enter id unusedBucket newBucket }
      { contents with fresh := id :: contents.fresh }
      (ages.enter id newBucket) := by
  have inPool : id < hash.pool.number := represents.number ▸ small
  have validNew : newBucket < hash.pool.states := by
    rw [represents.states, newBucket, bucketsReserved]
    omega
  refine ⟨unused ▸ represents.tracks.enter inPool validNew, represents.number, represents.states, ?_, ?_,
    represents.nodup,
    represents.entries, represents.keys⟩
  · intro other
    rw [List.mem_cons, represents.fresh]
    by_cases same : other = id
    · rw [same, Ages.enter_state_self]
      exact iff_of_true (Or.inl rfl) ⟨small, rfl⟩
    · rw [ages.enter_state_of_ne newBucket same]
      exact ⟨fun either => either.resolve_left same, Or.inr⟩
  · intro bucket high low
    rw [enter_queue represents.tracks inPool (represents.states ▸ low), if_neg, List.append_nil,
      represents.filter_queue small low, represents.buckets bucket high low]
    · rw [unused, unusedBucket]
      rw [bucketsReserved] at high
      omega
    · rw [newBucket]
      rw [bucketsReserved] at high
      omega

theorem Represents.writeKey (represents : Represents hash contents ages) (fits : Fits hash.toOptions)
    (isFresh : id ∈ contents.fresh) {key : List UInt8} (length : key.length = hash.keySize) :
    Represents (hash.writeKey id key) { contents with keys := Function.update contents.keys id key } ages := by
  refine ⟨represents.tracks, represents.number, represents.states, represents.fresh, represents.buckets,
    represents.nodup, ?_, ?_⟩
  · intro entry inside
    refine ⟨(represents.entries entry inside).1, ?_⟩
    have isNew := ((represents.fresh id).mp isFresh).2
    have differs : entry.1 ≠ id := by
      rintro rfl
      have bounds := fits.bucketOf_lt entry.2
      rw [← represents.entry_state fits inside, isNew] at bounds
      exact absurd bounds.1 (by decide)
    show entry.2 = Function.update contents.keys id key entry.1
    rw [Function.update_of_ne differs]
    exact (represents.entries entry inside).2
  · intro other small
    show _ = Function.update contents.keys id key other
    by_cases same : other = id
    · rw [same, Function.update_self]
      exact keyOf_writeKey length
    · rw [Function.update_of_ne same, keyOf_writeKey_of_ne fits length same]
      exact represents.keys other small

theorem Represents.add (represents : Represents hash contents ages) (fits : Fits hash.toOptions)
    (small : id < hash.count)
    (isNew : ages.state id = newBucket) :
    Represents { hash with pool := hash.pool.enter id newBucket (Hash.bucketOf hash.toOptions (contents.keys id)) }
      (contents.step (.add id, 0)) (ages.enter id (Hash.bucketOf hash.toOptions (contents.keys id))) := by
  have inPool : id < hash.pool.number := represents.number ▸ small
  have bounds := fits.bucketOf_lt (contents.keys id)
  have notAdded : ∀ entry ∈ contents.entries, entry.1 ≠ id := by
    rintro entry inside rfl
    have ofEntry := fits.bucketOf_lt entry.2
    rw [← represents.entry_state fits inside, isNew] at ofEntry
    exact absurd ofEntry.1 (by decide)
  refine ⟨isNew ▸ represents.tracks.enter inPool (represents.states ▸ bounds.2), represents.number,
    represents.states, ?_, ?_,
    ?_, ?_, represents.keys⟩
  · intro other
    show other ∈ contents.fresh.filter (· ≠ id) ↔ _
    rw [List.mem_filter, represents.fresh, decide_eq_true_eq]
    by_cases same : other = id
    · rw [same, Ages.enter_state_self]
      refine iff_of_false (fun both => both.2 rfl) (fun both => ?_)
      rw [both.2] at bounds
      exact absurd bounds.1 (by decide)
    · rw [ages.enter_state_of_ne _ same]
      exact ⟨And.left, fun both => ⟨both, same⟩⟩
  · intro bucket high low
    rw [enter_queue represents.tracks inPool (represents.states ▸ low), represents.filter_queue small low,
      represents.buckets bucket high low]
    · show _ = ((contents.entries ++ [(id, contents.keys id)]).filter _).map Prod.fst
      rw [List.filter_append, List.map_append]
      congr 1
      rw [List.filter_cons, List.filter_nil]
      by_cases same : bucket = Hash.bucketOf hash.toOptions (contents.keys id)
      · simp [same]
      · simp [same, Ne.symm same]
    · rw [isNew, newBucket]
      rw [bucketsReserved] at high
      omega
  · show ((contents.entries ++ [(id, contents.keys id)]).map Prod.fst).Nodup
    rw [List.map_append]
    refine represents.nodup.append (List.nodup_singleton id) ?_
    intro other inside isId
    rcases List.mem_map.mp inside with ⟨entry, isEntry, rfl⟩
    exact notAdded entry isEntry (List.mem_singleton.mp isId)
  · intro entry inside
    rcases List.mem_append.mp inside with old | new
    · exact represents.entries entry old
    · rw [List.mem_singleton.mp new]
      exact ⟨small, rfl⟩

theorem Represents.give (represents : Represents hash contents ages) (small : id < hash.count) :
    Represents { hash with pool := hash.pool.enter id (ages.state id) unusedBucket } (contents.step (.give id, 0))
      (ages.enter id unusedBucket) := by
  have inPool : id < hash.pool.number := represents.number ▸ small
  have validUnused : unusedBucket < hash.pool.states := by
    rw [represents.states, unusedBucket, bucketsReserved]
    omega
  refine ⟨represents.tracks.enter inPool validUnused, represents.number, represents.states, ?_, ?_, ?_, ?_,
    represents.keys⟩
  · intro other
    show other ∈ contents.fresh.filter (· ≠ id) ↔ _
    rw [List.mem_filter, represents.fresh, decide_eq_true_eq]
    by_cases same : other = id
    · rw [same, Ages.enter_state_self]
      refine iff_of_false (fun both => both.2 rfl) (fun both => ?_)
      cases both.2
    · rw [ages.enter_state_of_ne _ same]
      exact ⟨And.left, fun both => ⟨both, same⟩⟩
  · intro bucket high low
    rw [enter_queue represents.tracks inPool (represents.states ▸ low), if_neg, List.append_nil,
      represents.buckets bucket high low, List.filter_map]
    · show _ = ((contents.entries.filter fun entry => entry.1 ≠ id).filter _).map Prod.fst
      rw [List.filter_filter, List.filter_filter]
      congr 1
      apply List.filter_congr
      intro entry _
      exact Bool.and_comm _ _
    · rw [unusedBucket]
      rw [bucketsReserved] at high
      omega
  · exact represents.nodup.sublist (List.filter_sublist.map Prod.fst)
  · intro entry inside
    exact represents.entries entry (List.mem_of_mem_filter inside)

end

/-! ## Runs -/

def startContents (hash : Hash) : Contents := ⟨[], [], hash.keyOf⟩

theorem newPlus_represents {options : Options} (fits : Fits options) (heap : Heap) (last : UInt64 → Nat) {base : UInt64}
    (memory : Nat → UInt8) (notNull : base ≠ 0)
    (room : base.toNat + (144 + options.count * options.size +
    (options.count + bucketsReserved) * 40 + options.count * 32) ≤ 2 ^ 64) :
    Represents (newPlus options heap last base memory) (startContents (newPlus options heap last base memory))
      (SxePool.startAges options.count) := by
  have few : options.count < 2 ^ 32 := by
    have buckets := fits.buckets
    omega
  have isStates : (options.count + bucketsReserved) % 2 ^ 32 = options.count + bucketsReserved :=
    Nat.mod_eq_of_lt fits.buckets
  have made := @SxePool.construct_tracks heap last base options.count options.size (options.count +
    bucketsReserved) notNull few
    (by rw [bucketsReserved]; omega) room
  rw [← isStates] at made
  refine ⟨made.1, made.2.1, made.2.2.trans isStates, ?_, ?_, List.nodup_nil,
    fun _ inside => absurd inside List.not_mem_nil,
    fun _ _ => rfl⟩
  · intro id
    refine iff_of_false List.not_mem_nil (fun both => ?_)
    cases both.2
  · intro bucket high _
    show SxePool.startQueues options.count 0 bucket = _
    rw [SxePool.startQueues, if_neg]
    · rfl
    · rw [bucketsReserved] at high
      omega

structure Behaves (hash : Hash) (contents : Contents) : Prop where
  take : ∃ id after, hash.take = some (id, after) ∧
    (id = noElement ↔ ∀ other, other < hash.count → ¬ contents.Unused other) ∧
    (id ≠ noElement → id < hash.count ∧ contents.Unused id)
  look : ∀ key, key.length = hash.keySize → hash.look key = some (contents.look key) ∧
    (contents.look key = noElement ↔ ∀ entry ∈ contents.entries, entry.2 ≠ key)

section

variable {hash after : Hash} {contents : Contents} {ages : Ages}

theorem Represents.few (represents : Represents hash contents ages) (fits : Fits hash.toOptions) :
    hash.pool.number < 2 ^ 32 ∧ 2 ≤ hash.pool.states := by
  have buckets := fits.buckets
  rw [represents.number, represents.states, bucketsReserved]
  omega

theorem Represents.behaves (represents : Represents hash contents ages) (fits : Fits hash.toOptions) :
    Behaves hash contents := by
  refine ⟨?_, fun key _ => ⟨represents.look fits key, represents.look_none fits key⟩⟩
  rcases represents.few fits with ⟨few, several⟩
  rcases take_cases represents.tracks few several with ⟨empty, taken⟩ | ⟨id, rest, isQueue, small, unused, taken⟩
  · refine ⟨noElement, hash, taken, iff_of_true rfl ?_, fun differs => absurd rfl differs⟩
    intro other small isUnused
    have inPool : other < hash.pool.number := represents.number ▸ small
    have member := represents.tracks.member inPool
    rw [(represents.unused_iff fits small).mp isUnused, empty] at member
    cases member
  · have inHash : id < hash.count := represents.number ▸ small
    have isUnused := (represents.unused_iff fits inHash).mpr unused
    have notNone : id ≠ noElement := by
      rw [noElement]
      omega
    exact ⟨id, _, taken, iff_of_false notNone fun none => none id inHash isUnused, fun _ => ⟨inHash, isUnused⟩⟩

theorem Represents.step (represents : Represents hash contents ages) (fits : Fits hash.toOptions) {start : Contents}
    {history : History Call Nat} (isContents : contentsAfter start history = contents) {call : Call}
    (allowed : Allowed start history hash call) {answer : Nat} (stepped : step hash call = some (answer, after)) :
    after.toOptions = hash.toOptions ∧ ∃ ages, Represents after (contents.step (call, answer)) ages := by
  rcases represents.few fits with ⟨few, several⟩
  cases call with
  | take =>
      rcases take_cases represents.tracks few several with ⟨empty, taken⟩ | ⟨id, rest, isQueue, small, unused, taken⟩
      · rw [SxeHash.step, taken] at stepped
        cases stepped
        exact ⟨rfl, ages, represents⟩
      · rw [SxeHash.step, taken] at stepped
        cases stepped
        have notNone : answer ≠ noElement := by
          rw [noElement]
          omega
        refine ⟨rfl, ages.enter answer newBucket, ?_⟩
        rw [Contents.step, if_neg notNone]
        exact represents.take (represents.number ▸ small) unused
  | writeKey id key =>
      cases stepped
      exact ⟨rfl, ages, represents.writeKey fits (isContents ▸ allowed.1) allowed.2⟩
  | add id =>
      rcases Option.map_eq_some_iff.mp stepped with ⟨next, done, same⟩
      cases same
      have small : id < hash.count := allowed
      rw [add_eq represents.tracks (represents.number ▸ small)] at done
      split at done
      · rename_i isNew
        cases done
        rw [fits.addedKey small, represents.keys id small]
        exact ⟨rfl, _, represents.add fits small isNew.symm⟩
      · cases done
  | look key =>
      rcases Option.map_eq_some_iff.mp stepped with ⟨id, -, same⟩
      cases same
      exact ⟨rfl, ages, represents⟩
  | give id =>
      rcases Option.map_eq_some_iff.mp stepped with ⟨next, done, same⟩
      cases same
      have small : id < hash.count := allowed
      rw [give_eq represents.tracks (represents.number ▸ small)] at done
      cases done
      exact ⟨rfl, _, represents.give small⟩

/-- A hash whose keys are in their elements, at offsets of an `unsigned`, behaves
as a multimap in every run. -/
theorem hash_run_behaves {options : Options} (fits : Fits options) (heap : Heap) (last : UInt64 → Nat) {base : UInt64}
    (memory : Nat → UInt8) (notNull : base ≠ 0)
    (room : base.toNat + (144 + options.count * options.size +
    (options.count + bucketsReserved) * 40 + options.count * 32) ≤ 2 ^ 64)
    {history : History Call Nat}
    (run : Run step (Allowed (startContents (newPlus options heap last base memory)))
      (newPlus options heap last base memory)
      history hash) :
    Behaves hash (contentsAfter (startContents (newPlus options heap last base memory)) history) := by
  have all := run.invariant (fun history hash => hash.toOptions = options ∧ ∃ ages, Represents hash
    (contentsAfter (startContents (newPlus options heap last base memory)) history) ages)
    ⟨rfl, _, newPlus_represents fits heap last memory notNull room⟩ ?_
  · rcases all with ⟨rfl, ages, represents⟩
    exact represents.behaves fits
  · rintro history state call answer next ⟨rfl, ages, represents⟩ allowed stepped
    rcases represents.step fits rfl allowed stepped with ⟨same, ages', represents'⟩
    exact ⟨same, ages', represents'⟩

end

/-! ## A run -/

/-- A hash of three elements of some size, with words as keys that are hashed to
their first byte. -/
def threeElements (size : Nat) : Options := ⟨3, size, 0, 4, fun key => UInt32.ofNat (key.headD 0).toNat⟩

def newThree (size : Nat) : Hash := newPlus (threeElements size) SxeList.blank (fun _ => 0) 4096 (fun _ => 0)

def addOne : History Call Nat := [(.add 2, 0), (.writeKey 2 [1, 0, 0, 0], 0), (.take, 2)]

/-- The element that is taken first, the last one, has got a key. -/
def writtenThree (size : Nat) : Hash :=
  Hash.writeKey { newThree size with pool := (newThree size).pool.enter 2 unusedBucket newBucket } 2 [1, 0, 0, 0]

/-- The bucket of what is read as the key of the element. -/
def bucketThree (size : Nat) : Nat := Hash.bucketOf (threeElements size) ((writtenThree size).addedKey 2)

def addedThree (size : Nat) : Hash :=
  { writtenThree size with pool := (writtenThree size).pool.enter 2 newBucket (bucketThree size) }

/-- The states of the elements when one was added. -/
def agesThree (size : Nat) : Ages := ((SxePool.startAges 3).enter 2 newBucket).enter 2 (bucketThree size)

theorem newThree_run {size : Nat} (small : size ≤ 2 ^ 32) :
    Run step (Allowed (startContents (newThree size))) (newThree size) addOne (addedThree size) ∧
      Tracks (addedThree size).pool (agesThree size) ∧ (addedThree size).pool.number = 3 ∧
      (addedThree size).pool.states = 5 := by
  have room : (4096 : UInt64).toNat + (144 + 3 * size + 5 * 40 + 3 * 32) ≤ 2 ^ 64 := by
    show 4096 + _ ≤ _
    omega
  rcases @SxePool.construct_tracks SxeList.blank (fun _ => 0) 4096 3 size 5 (by decide) (by decide)
    (by decide) room with
    ⟨tracks, number, states⟩
  replace tracks : Tracks (newThree size).pool (SxePool.startAges 3) := tracks
  replace number : (newThree size).pool.number = 3 := number
  replace states : (newThree size).pool.states = 5 := states
  have takes : step (newThree size) .take =
      some (2, { newThree size with pool := (newThree size).pool.enter 2 unusedBucket newBucket }) := by
    rcases take_cases tracks (by rw [number]; decide) (by rw [states]; decide) with
      ⟨empty, -⟩ | ⟨id, rest, isQueue, -, -, taken⟩
    · cases empty
    · cases isQueue
      exact taken
  have inPool : 2 < (newThree size).pool.number := by
    rw [number]
    decide
  have entered : Tracks (writtenThree size).pool ((SxePool.startAges 3).enter 2 newBucket) :=
    tracks.enter inPool (by rw [states]; decide)
  have adds : step (writtenThree size) (.add 2) = some (0, addedThree size) := by
    rw [step, add_eq entered inPool, if_pos (Ages.enter_state_self _ _ _).symm]
    rfl
  have written : step { newThree size with pool := (newThree size).pool.enter 2 unusedBucket newBucket }
      (.writeKey 2 [1, 0, 0, 0]) = some (0, writtenThree size) := rfl
  refine ⟨((Run.start.step (by exact trivial) takes).step (by exact ⟨List.mem_cons_self, rfl⟩) written).step
    (by exact (by decide : 2 < 3)) adds, ?_, number, states⟩
  have valid := Nat.mod_lt ((threeElements size).hashKey ((writtenThree size).addedKey 2)).toNat (show 0 < 3 by decide)
  have below : bucketThree size < (newThree size).pool.states := by
    rw [states, bucketThree, Hash.bucketOf]
    exact Nat.lt_of_le_of_lt (Nat.mod_le _ _) (Nat.add_lt_add_right valid 2)
  have again := @Tracks.enter _ _ entered 2 (bucketThree size) inPool below
  rwa [Ages.enter_state_self] at again

/-- The element is found with its key in a hash whose elements are small. -/
theorem hash_run_found : ∃ hash,
    Run step (Allowed (startContents (newThree 8))) (newThree 8) addOne hash ∧ hash.look [1, 0, 0, 0] = some 2 := by
  have fits : Fits (threeElements 8) := ⟨by decide, by decide, by decide, by decide⟩
  rcases @newThree_run 8 (by decide) with ⟨run, -⟩
  have behaves := hash_run_behaves fits SxeList.blank (fun _ => 0) (fun _ => 0) (by decide) (by decide) run
  exact ⟨_, run, (behaves.look [1, 0, 0, 0] rfl).1⟩

/-- The element is not found with its key in a hash whose elements are so large
that the offset of the last is not one of an `unsigned`. -/
theorem hash_run_misses : ∃ hash,
    Run step (Allowed (startContents (newThree (2 ^ 31)))) (newThree (2 ^ 31)) addOne hash ∧
    (2, [1, 0, 0, 0]) ∈ (contentsAfter (startContents (newThree (2 ^ 31))) addOne).entries ∧
    hash.look [1, 0, 0, 0] = some noElement ∧
    ¬ Behaves hash (contentsAfter (startContents (newThree (2 ^ 31))) addOne) := by
  rcases @newThree_run (2 ^ 31) (by decide) with ⟨run, tracks, number, states⟩
  have isBucket : Hash.bucketOf (addedThree (2 ^ 31)).toOptions [1, 0, 0, 0] = 3 := by decide
  have isZero : bucketThree (2 ^ 31) = 2 := by decide
  have misses : (addedThree (2 ^ 31)).look [1, 0, 0, 0] = some noElement := by
    rw [look_eq tracks (by rw [number]; decide) (by rw [isBucket, states]; decide), isBucket, agesThree, isZero]
    rfl
  refine ⟨_, run, List.mem_singleton_self _, misses, fun behaves => ?_⟩
  have found := (behaves.look [1, 0, 0, 0] rfl).1
  rw [misses] at found
  exact absurd found (by decide)

end SxeHash
end LibKit
