import LibKit.SxeHash.Model
import LibKit.SxePool.Walks

namespace LibKit
namespace SxeHash

open SxePool (Pool PoolWalker Tracks Ages noIndex Layout)

/-!
# A hash is a multimap

The queue of a bucket holds the elements that were added with a key of the
bucket and not given back, from the earliest on.  All elements with a key are in
one bucket, so that the first that is found there is the earliest.
-/

/-! ## The multimap -/

/-- The elements that were taken and not yet added, those that were added with
their keys, from the earliest on, and the keys of all elements. -/
structure Contents where
  fresh : List Nat
  entries : List (Nat × List UInt8)
  keys : Nat → List UInt8

/-- What a call does to the contents, given its answer. -/
def Contents.step (contents : Contents) : Call × Nat → Contents
  | (.take, id) => if id = noElement then contents else { contents with fresh := id :: contents.fresh }
  | (.writeKey id key, _) => { contents with keys := Function.update contents.keys id key }
  | (.add id, _) =>
      { contents with
        fresh := contents.fresh.filter (· ≠ id)
        entries := contents.entries ++ [(id, contents.keys id)] }
  | (.look _, _) => contents
  | (.give id, _) =>
      { contents with
        fresh := contents.fresh.filter (· ≠ id)
        entries := contents.entries.filter (·.1 ≠ id) }

def contentsAfter (start : Contents) : History Call Nat → Contents
  | [] => start
  | entry :: history => (contentsAfter start history).step entry

/-- An element is unused: it is neither new nor added. -/
def Contents.Unused (contents : Contents) (id : Nat) : Prop :=
  id ∉ contents.fresh ∧ ∀ entry ∈ contents.entries, entry.1 ≠ id

/-- What `sxe_hash_look` is to return. -/
def Contents.look (contents : Contents) (key : List UInt8) : Nat :=
  ((contents.entries.find? (·.2 = key)).map Prod.fst).getD noElement

/-- Calls are made with elements of the hash and with keys of its size, and only
the keys of new elements are written. -/
def Allowed (start : Contents) (history : History Call Nat) (hash : Hash) : Call → Prop
  | .take => True
  | .writeKey id key => id ∈ (contentsAfter start history).fresh ∧ key.length = hash.keySize
  | .add id => id < hash.count
  | .look key => key.length = hash.keySize
  | .give id => id < hash.count

/-! ## Walks through a bucket -/

section

variable {pool : Pool} {ages : Ages}

/-- A step of a walker through a queue that does not change. -/
theorem walkerNext_still (tracks : Tracks pool ages) {state : Nat} (valid : state < pool.states) {left right : List Nat}
    (split : ages.queues state = left ++ right) (back : UInt64) (time : Nat) :
    pool.walkerNext ⟨⟨pool.queueAt state, back, pool.behind state left⟩, state, time⟩ =
      SxeList.walkerStep pool.heap ⟨pool.queueAt state, back, pool.behind state left⟩ := by
  rw [Pool.walkerNext, SxeList.walkerFind]
  dsimp only
  rcases List.eq_nil_or_concat left with rfl | ⟨before, id, rfl⟩
  · rw [Layout.behind, List.getLast?_nil, Option.map_none, Option.getD_none, if_neg (not_not_intro rfl)]
    rfl
  · have inside : id ∈ ages.queues state := by
      rw [split]
      simp
    have small := tracks.holds.bound state valid id inside
    have isState := tracks.holds.node_state valid inside
    rw [List.concat_eq_append, pool.behind_concat, if_pos (tracks.holds.placed.apart id state small valid),
      tracks.holds.offset state valid, UInt64.sub_zero]
    simp only [isState, ne_eq, not_true_eq_false, decide_false, Bool.false_eq_true, if_false]

theorem walkerStep_still (tracks : Tracks pool ages) {state : Nat} (valid : state < pool.states) {left right : List Nat}
    (split : ages.queues state = left ++ right) (back : UInt64) (time : Nat) :
    ∃ walker, pool.walkerStep true ⟨⟨pool.queueAt state, back, pool.behind state left⟩, state, time⟩ =
      (right.head?.getD noIndex, walker) ∧
      ∀ id rest, right = id :: rest → ∃ back time, walker =
        ⟨⟨pool.queueAt state, back, pool.behind state (left ++ [id])⟩, state, time⟩ := by
  rw [Pool.walkerStep, if_neg (not_not_intro rfl), walkerNext_still tracks valid split,
    tracks.holds.walkerStep valid split]
  cases right with
  | nil => exact ⟨_, rfl, fun id rest none => by cases none⟩
  | cons id rest =>
      have inside : id ∈ ages.queues state := by
        rw [split]
        exact List.mem_append_right _ List.mem_cons_self
      have small := tracks.holds.bound state valid id inside
      refine ⟨_, Prod.ext (tracks.holds.placed.index id small) rfl, fun other others same => ?_⟩
      cases same
      rw [pool.behind_concat]
      exact ⟨_, _, rfl⟩

end

section

variable {hash : Hash} {ages : Ages}

/-- The loop of `sxe_hash_look` finds the first element of the rest of a queue
with the key. -/
theorem lookFrom_eq (tracks : Tracks hash.pool ages) (few : hash.pool.number < 2 ^ 32) {state : Nat}
    (valid : state < hash.pool.states)
    {left right : List Nat} (split : ages.queues state = left ++ right) (key : List UInt8) {fuel : Nat}
    (enough : right.length < fuel) (back : UInt64) (time : Nat) :
    hash.lookFrom key fuel ⟨⟨hash.pool.queueAt state, back, hash.pool.behind state left⟩, state, time⟩ =
      some ((right.find? fun id => hash.lookedKey id = key).getD noElement) := by
  induction fuel generalizing left right back time with
  | zero => omega
  | succ fuel ih =>
      rcases walkerStep_still tracks valid split back time with ⟨walker, stepped, next⟩
      rw [Hash.lookFrom, stepped]
      cases right with
      | nil => rfl
      | cons id rest =>
          have inside : id ∈ ages.queues state := by
            rw [split]
            exact List.mem_append_right _ List.mem_cons_self
          have small := tracks.holds.bound state valid id inside
          have notNone : id ≠ noElement := by
            rw [noElement]
            omega
          show (if id = noElement then some noElement
            else if hash.lookedKey id = key then some id else hash.lookFrom key fuel walker) = _
          rw [if_neg notNone]
          by_cases found : hash.lookedKey id = key
          · rw [if_pos found, List.find?_cons_of_pos (by simpa using found)]
            rfl
          · rw [if_neg found, List.find?_cons_of_neg (by simpa using found)]
            rcases next id rest rfl with ⟨back, time, rfl⟩
            apply ih
            · rw [split, List.append_assoc, List.singleton_append]
            · rw [List.length_cons] at enough
              omega

theorem look_eq (tracks : Tracks hash.pool ages) (few : hash.pool.number < 2 ^ 32) {key : List UInt8}
    (valid : Hash.bucketOf hash.toOptions key < hash.pool.states) :
    hash.look key =
      some (((ages.queues (Hash.bucketOf hash.toOptions key)).find? fun id => hash.lookedKey id =
        key).getD noElement) := by
  have enough := tracks.length_le valid
  exact lookFrom_eq tracks few valid (List.nil_append _).symm key (Nat.lt_succ_of_le enough) _ _

theorem take_cases (tracks : Tracks hash.pool ages) (few : hash.pool.number < 2 ^ 32) (several : 2 ≤ hash.pool.states) :
    (ages.queues unusedBucket = [] ∧ hash.take = some (noElement, hash)) ∨
      ∃ id rest, ages.queues unusedBucket = id :: rest ∧ id < hash.pool.number ∧ ages.state id = unusedBucket ∧
        hash.take = some (id, { hash with pool := hash.pool.enter id unusedBucket newBucket }) := by
  have valid : unusedBucket < hash.pool.states := by
    rw [unusedBucket]
    omega
  cases queue : ages.queues unusedBucket with
  | nil =>
      left
      refine ⟨rfl, ?_⟩
      simp only [Hash.take, Pool.setOldest, tracks.peekHead valid, queue, not_true_eq_false, if_false, List.head?_nil,
        Option.map_none, Option.bind_some, Option.map_some, if_true]
  | cons id rest =>
      right
      have first : (ages.queues unusedBucket).head? = some id := by
        rw [queue]
        rfl
      rcases tracks.head valid first with ⟨small, isState, index⟩
      have notNone : id ≠ noIndex := by
        rw [noIndex]
        omega
      refine ⟨id, rest, rfl, small, isState, ?_⟩
      simp only [Hash.take, Pool.setOldest, tracks.peekHead valid, first, not_true_eq_false, if_false, Option.map_some,
        Option.bind_some, index, tracks.setAsserted small, isState, if_true, notNone]

theorem add_eq (tracks : Tracks hash.pool ages) {id : Nat} (small : id < hash.pool.number) :
    hash.add id = if newBucket = ages.state id then some { hash with
      pool := hash.pool.enter id newBucket (Hash.bucketOf hash.toOptions (hash.addedKey id)) } else none := by
  simp only [Hash.add, Pool.setIndexed, not_true_eq_false, if_false, tracks.setAsserted small]
  split <;> rfl

theorem give_eq (tracks : Tracks hash.pool ages) {id : Nat} (small : id < hash.pool.number) :
    hash.give id = some { hash with pool := hash.pool.enter id (ages.state id) unusedBucket } := by
  simp only [Hash.give, tracks.indexToState small, Option.bind_some, Pool.setIndexed, not_true_eq_false, if_false,
    tracks.setAsserted small, if_true, Option.map_some]

end

/-! ## Keys -/

/-- Keys are in their elements, the offsets of keys in the array are those of an
`unsigned`, and so is the number of buckets. -/
structure Fits (options : Options) : Prop where
  some : 0 < options.count
  buckets : options.count + bucketsReserved < 2 ^ 32
  inside : options.keyOffset + options.keySize ≤ options.size
  offset : (options.count - 1) * options.size + options.keyOffset < 2 ^ 32

def Hash.keyOf (hash : Hash) (id : Nat) : List UInt8 :=
    bytesAt hash.memory (id * hash.size + hash.keyOffset) hash.keySize

section

variable {hash : Hash} {id : Nat}

theorem Fits.offset_lt (fits : Fits hash.toOptions) (small : id < hash.count) :
    id * hash.size + hash.keyOffset < 2 ^ 32 := by
  have most : id * hash.size ≤ (hash.count - 1) * hash.size := Nat.mul_le_mul_right _ (by omega)
  have last := fits.offset
  omega

theorem Fits.lookedKey (fits : Fits hash.toOptions) (small : id < hash.count) : hash.lookedKey id = hash.keyOf id := by
  have below := fits.offset_lt small
  rw [Hash.lookedKey, Hash.keyOf, Nat.mod_eq_of_lt (Nat.lt_of_le_of_lt (Nat.le_add_right _ _) below)]

theorem Fits.addedKey (fits : Fits hash.toOptions) (small : id < hash.count) : hash.addedKey id = hash.keyOf id := by
  rw [Hash.addedKey, Hash.keyOf, Nat.mod_eq_of_lt (fits.offset_lt small)]

theorem Fits.bucketOf_eq {options : Options} (fits : Fits options) (key : List UInt8) :
    Hash.bucketOf options key = (options.hashKey key).toNat % options.count + bucketsReserved := by
  have below := Nat.mod_lt (options.hashKey key).toNat fits.some
  have few := fits.buckets
  exact Nat.mod_eq_of_lt (by omega)

theorem Fits.bucketOf_lt {options : Options} (fits : Fits options) (key : List UInt8) :
    bucketsReserved ≤ Hash.bucketOf options key ∧ Hash.bucketOf options key < options.count + bucketsReserved := by
  have below := Nat.mod_lt (options.hashKey key).toNat fits.some
  rw [fits.bucketOf_eq]
  omega

/-- A byte of the array after a key was written. -/
theorem writeKey_memory (hash : Hash) (id : Nat) (key : List UInt8) (address : Nat) :
    (hash.writeKey id key).memory address =
      if id * hash.size + hash.keyOffset ≤ address then
        (key[address - (id * hash.size + hash.keyOffset)]?).getD (hash.memory address)
      else hash.memory address := rfl

theorem writeKey_keyOf (hash : Hash) (id : Nat) (key : List UInt8) (other : Nat) :
    (hash.writeKey id key).keyOf other =
      bytesAt (hash.writeKey id key).memory (other * hash.size + hash.keyOffset) hash.keySize := rfl

theorem keyOf_writeKey {key : List UInt8} (length : key.length = hash.keySize) :
    (hash.writeKey id key).keyOf id = key := by
  rw [writeKey_keyOf, bytesAt]
  apply List.ext_getElem
  · rw [List.length_map, List.length_range]
    exact length.symm
  · intro i below inKey
    rw [List.getElem_map, List.getElem_range, writeKey_memory, if_pos (Nat.le_add_right _ _), Nat.add_sub_cancel_left,
      List.getElem?_eq_getElem inKey]
    rfl

theorem keyOf_writeKey_of_ne (fits : Fits hash.toOptions) {key : List UInt8} (length : key.length = hash.keySize)
    {other : Nat} (differs : other ≠ id) : (hash.writeKey id key).keyOf other = hash.keyOf other := by
  have inside := fits.inside
  rw [writeKey_keyOf, Hash.keyOf]
  apply List.map_congr_left
  intro i isI
  have below : i < hash.keySize := List.mem_range.mp isI
  rw [writeKey_memory]
  rcases Nat.lt_or_gt_of_ne differs with before | after
  · have apart : (other + 1) * hash.size ≤ id * hash.size := Nat.mul_le_mul_right _ before
    rw [Nat.succ_mul] at apart
    rw [if_neg (by omega)]
  · have apart : (id + 1) * hash.size ≤ other * hash.size := Nat.mul_le_mul_right _ after
    rw [Nat.succ_mul] at apart
    rw [if_pos (by omega), List.getElem?_eq_none (by omega)]
    rfl

end

/-! ## The hash and the multimap -/

structure Represents (hash : Hash) (contents : Contents) (ages : Ages) : Prop where
  tracks : Tracks hash.pool ages
  number : hash.pool.number = hash.count
  states : hash.pool.states = hash.count + bucketsReserved
  fresh : ∀ id, id ∈ contents.fresh ↔ id < hash.count ∧ ages.state id = newBucket
  buckets : ∀ bucket, bucketsReserved ≤ bucket → bucket < hash.count + bucketsReserved → ages.queues bucket =
    (contents.entries.filter fun entry => Hash.bucketOf hash.toOptions entry.2 = bucket).map Prod.fst
  nodup : (contents.entries.map Prod.fst).Nodup
  entries : ∀ entry ∈ contents.entries, entry.1 < hash.count ∧ entry.2 = contents.keys entry.1
  keys : ∀ id, id < hash.count → hash.keyOf id = contents.keys id

section

variable {hash : Hash} {contents : Contents} {ages : Ages}

theorem Represents.entry_state (represents : Represents hash contents ages) (fits : Fits hash.toOptions)
    {entry : Nat × List UInt8} (inside : entry ∈ contents.entries) :
    ages.state entry.1 = Hash.bucketOf hash.toOptions entry.2 := by
  have bounds := fits.bucketOf_lt entry.2
  have member : entry.1 ∈ ages.queues (Hash.bucketOf hash.toOptions entry.2) := by
    rw [represents.buckets _ bounds.1 bounds.2]
    exact List.mem_map_of_mem (List.mem_filter.mpr ⟨inside, by simp⟩)
  have small := (represents.entries entry inside).1
  refine ((represents.tracks.mem_iff entry.1 _ ?_ ?_).mp member).symm
  · rwa [represents.number]
  · rw [represents.states]
    exact bounds.2

/-- An element is unused if and only if it is in the first state. -/
theorem Represents.unused_iff (represents : Represents hash contents ages) (fits : Fits hash.toOptions) {id : Nat}
    (small : id < hash.count) : contents.Unused id ↔ ages.state id = unusedBucket := by
  have inPool : id < hash.pool.number := by rwa [represents.number]
  have valid := represents.tracks.valid id inPool
  rw [represents.states] at valid
  constructor
  · rintro ⟨notFresh, notAdded⟩
    have notNew : ages.state id ≠ newBucket := fun isNew => notFresh ((represents.fresh id).mpr ⟨small, isNew⟩)
    rcases Nat.lt_or_ge (ages.state id) bucketsReserved with low | high
    · rw [newBucket] at notNew
      rw [bucketsReserved] at low
      rw [unusedBucket]
      omega
    · have member := represents.tracks.member inPool
      rw [represents.buckets _ high valid] at member
      rcases List.mem_map.mp member with ⟨entry, inside, isId⟩
      exact absurd isId (notAdded entry (List.mem_of_mem_filter inside))
  · intro isUnused
    constructor
    · intro isFresh
      have isNew := ((represents.fresh id).mp isFresh).2
      rw [isUnused] at isNew
      cases isNew
    · rintro entry inside rfl
      have bounds := fits.bucketOf_lt entry.2
      rw [← represents.entry_state fits inside, isUnused] at bounds
      exact absurd bounds.1 (by decide)

theorem Represents.look (represents : Represents hash contents ages) (fits : Fits hash.toOptions) (key : List UInt8) :
    hash.look key = some (contents.look key) := by
  have bounds := fits.bucketOf_lt key
  have few : hash.pool.number < 2 ^ 32 := by
    rw [represents.number]
    have buckets := fits.buckets
    omega
  rw [look_eq represents.tracks few (by rw [represents.states]; exact bounds.2), represents.buckets _ bounds.1 bounds.2,
    List.find?_map, List.find?_filter, Contents.look]
  congr 3
  apply List.find?_congr
  intro entry inside
  rcases represents.entries entry inside with ⟨small, isKey⟩
  rw [Function.comp_apply, fits.lookedKey small, represents.keys entry.1 small, ← isKey]
  by_cases same : entry.2 = key
  · simp [same]
  · simp [same]

theorem Represents.look_none (represents : Represents hash contents ages) (fits : Fits hash.toOptions)
    (key : List UInt8) :
    contents.look key = noElement ↔ ∀ entry ∈ contents.entries, entry.2 ≠ key := by
  rw [Contents.look]
  cases found : contents.entries.find? (·.2 = key) with
  | none =>
      refine iff_of_true rfl ?_
      intro entry inside
      simpa using List.find?_eq_none.mp found entry inside
  | some entry =>
      have inside := List.mem_of_find?_eq_some found
      have isKey : entry.2 = key := by simpa using List.find?_some found
      have small := (represents.entries entry inside).1
      have few := fits.buckets
      refine iff_of_false ?_ fun none => none entry inside isKey
      rw [Option.map_some, Option.getD_some, noElement]
      omega

end

end SxeHash
end LibKit
