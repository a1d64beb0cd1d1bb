import LibKit.SxePool.Model

namespace LibKit
namespace SxeHash

open SxeList (Heap)
open SxePool (Pool PoolWalker noIndex)

/-!
# `sxe-hash.c`

A hash is a pool whose states are the buckets, after one for the elements that
are unused and one for those that were taken and not yet added.  The function
that hashes is any function of the bytes of a key; that of prehashed keys is one
if keys have a word at least.  Calls follow one another, so that the lock of a
pool is always taken.
-/

/-- `SXE_HASH_KEY_NOT_FOUND` and `SXE_HASH_FULL` -/
def noElement : Nat := 2 ^ 32 - 1

/-- `SXE_HASH_UNUSED_BUCKET` -/
def unusedBucket : Nat := 0

/-- `SXE_HASH_NEW_BUCKET` -/
def newBucket : Nat := 1

/-- `SXE_HASH_BUCKETS_RESERVED` -/
def bucketsReserved : Nat := 2

/-- What `sxe_hash_new_plus` is given: the number of elements, their size, and
where in an element its key is, all of them `unsigned`, and the function that
hashes. -/
structure Options where
  count : Nat
  size : Nat
  keyOffset : Nat
  keySize : Nat
  hashKey : List UInt8 → UInt32

/-- `SXE_HASH`, with the bytes of the array of its elements. -/
structure Hash extends Options where
  pool : Pool
  memory : Nat → UInt8

/-- `sxe_hash_new_plus`, for memory whose pool is at an address. -/
def newPlus (options : Options) (heap : Heap) (last : UInt64 → Nat) (base : UInt64) (memory : Nat → UInt8) : Hash where
  toOptions := options
  pool := Pool.construct heap last base options.count options.size ((options.count + bucketsReserved) % 2 ^ 32)
  memory := memory

def bytesAt (memory : Nat → UInt8) (start length : Nat) :
    List UInt8 := (List.range length).map fun i => memory (start + i)

namespace Hash

def bucketOf (options : Options) (key : List UInt8) : Nat :=
  ((options.hashKey key).toNat % options.count + bucketsReserved) % 2 ^ 32

/-- `sxe_hash_take` -/
def take (hash : Hash) : Option (Nat × Hash) :=
  (hash.pool.setOldest true unusedBucket newBucket).map fun (id, pool) =>
    (if id = noIndex then noElement else id, { hash with pool := pool })

/-- The key that `sxe_hash_look` compares: the element is found with a product
that is `unsigned`. -/
def lookedKey (hash : Hash) (id : Nat) : List UInt8 :=
  bytesAt hash.memory (id * hash.size % 2 ^ 32 + hash.keyOffset) hash.keySize

/-- The loop of `sxe_hash_look`; there is no result if it does not end. -/
def lookFrom (hash : Hash) (key : List UInt8) : Nat → PoolWalker → Option Nat
  | 0, _ => none
  | fuel + 1, walker =>
      let (id, walker) := hash.pool.walkerStep true walker
      if id = noElement then some noElement
      else if hash.lookedKey id = key then some id
      else lookFrom hash key fuel walker

/-- `sxe_hash_look`; a bucket has at most as many elements as the pool. -/
def look (hash : Hash) (key : List UInt8) : Option Nat :=
  hash.lookFrom key (hash.pool.number + 1) (hash.pool.walkerConstruct (bucketOf hash.toOptions key))

/-- The key that `sxe_hash_add` hashes: its offset in the array is `unsigned`. -/
def addedKey (hash : Hash) (id : Nat) : List UInt8 :=
  bytesAt hash.memory ((id * hash.size + hash.keyOffset) % 2 ^ 32) hash.keySize

/-- `sxe_hash_add` -/
def add (hash : Hash) (id : Nat) : Option Hash :=
  (hash.pool.setIndexed true id newBucket (bucketOf hash.toOptions (hash.addedKey id))).map fun (_, pool) =>
    { hash with pool := pool }

/-- `sxe_hash_give` -/
def give (hash : Hash) (id : Nat) : Option Hash :=
  (hash.pool.indexToState id).bind fun state =>
    (hash.pool.setIndexed true id state unusedBucket).map fun (_, pool) => { hash with pool := pool }

/-- The key of an element is written, by its user. -/
def writeKey (hash : Hash) (id : Nat) (key : List UInt8) : Hash :=
  let start := id * hash.size + hash.keyOffset
  { hash with memory := fun address =>
      if start ≤ address then (key[address - start]?).getD (hash.memory address) else hash.memory address }

end Hash

/-! ## Calls -/

inductive Call where
  | take
  | writeKey (id : Nat) (key : List UInt8)
  | add (id : Nat)
  | look (key : List UInt8)
  | give (id : Nat)

/-- A call that returns, with what `sxe_hash_take` and `sxe_hash_look` return. -/
def step (hash : Hash) : Call → Option (Nat × Hash)
  | .take => hash.take
  | .writeKey id key => some (0, hash.writeKey id key)
  | .add id => (hash.add id).map fun hash => (0, hash)
  | .look key => (hash.look key).map fun id => (id, hash)
  | .give id => (hash.give id).map fun hash => (0, hash)

end SxeHash
end LibKit
