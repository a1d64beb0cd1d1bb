import LibKit.Support.Linked
import LibKit.SxeCdb.Records

namespace LibKit
namespace SxeCdb

/-!
# Chains of counts and chains of keys

A counts list is abstractly a list of buckets by increasing count; a bucket
has a node and the positions of the keys that have reached its count.  The
predicate `Chained` says that the nodes and links of an instance represent
such a list.  Each way in which `sxe_cdb_instance_inc` changes the pointers
is one lemma here, stated over the tables before and after.
-/

structure Bucket where
  node : Nat
  count : Nat
  keys : List Nat

def nodesOf (buckets : List Bucket) : List Nat := buckets.map Bucket.node

@[simp] theorem nodesOf_nil : nodesOf [] = [] := rfl

@[simp] theorem nodesOf_cons (bucket : Bucket) (buckets : List Bucket) :
    nodesOf (bucket :: buckets) = bucket.node :: nodesOf buckets := rfl

@[simp] theorem nodesOf_append (left right : List Bucket) :
    nodesOf (left ++ right) = nodesOf left ++ nodesOf right := List.map_append

theorem mem_nodesOf {buckets : List Bucket} {bucket : Bucket} (member : bucket ∈ buckets) :
    bucket.node ∈ nodesOf buckets := List.mem_map_of_mem member

/-- A node and the links of its keys represent a bucket. -/
structure BucketOk (counts : Nat → Count) (links : Nat → Links) (bucket : Bucket) : Prop where
  count : (counts bucket.node).count = bucket.count
  first : (counts bucket.node).hkv1 = bucket.keys.head?.getD 0
  linked : Linked (fun pos => (links pos).nextHkvPos) (fun pos => (links pos).lastHkvPos) 0 bucket.keys 0
  nodup : bucket.keys.Nodup
  use : ∀ pos ∈ bucket.keys, (links pos).countToUse = bucket.node
  positive : 0 ∉ bucket.keys

/-- The nodes from `lo` to `hi` represent a list of buckets. -/
structure Chained (counts : Nat → Count) (links : Nat → Links) (lo hi : Nat) (buckets : List Bucket) : Prop where
  linked : Linked (fun c => (counts c).next) (fun c => (counts c).last) 0 (nodesOf buckets) 0
  nodup : (nodesOf buckets).Nodup
  positive : 0 ∉ nodesOf buckets
  low : lo = (nodesOf buckets).head?.getD 0
  high : hi = (nodesOf buckets).getLast?.getD 0
  buckets : ∀ bucket ∈ buckets, BucketOk counts links bucket

theorem BucketOk.congr {counts counts' : Nat → Count} {links links' : Nat → Links} {bucket : Bucket}
    (ok : BucketOk counts links bucket) (node : (counts' bucket.node).count = (counts bucket.node).count)
    (head : (counts' bucket.node).hkv1 = (counts bucket.node).hkv1)
    (keys : ∀ pos ∈ bucket.keys, links' pos = links pos) : BucketOk counts' links' bucket := by
  refine ⟨node.trans ok.count, head.trans ok.first, ?_, ok.nodup, ?_, ok.positive⟩
  · apply ok.linked.congr
    · intro pos member
      rw [keys pos member]
    · intro pos member
      rw [keys pos member]
  · intro pos member
    rw [keys pos member]
    exact ok.use pos member

/-- A counts list is untouched by changes to other nodes and other keys. -/
theorem Chained.congr {counts counts' : Nat → Count} {links links' : Nat → Links} {lo hi : Nat}
    {buckets : List Bucket} (chained : Chained counts links lo hi buckets)
    (nodes : ∀ c ∈ nodesOf buckets, counts' c = counts c)
    (keys : ∀ bucket ∈ buckets, ∀ pos ∈ bucket.keys, links' pos = links pos) :
    Chained counts' links' lo hi buckets := by
  refine ⟨?_, chained.nodup, chained.positive, chained.low, chained.high, ?_⟩
  · apply chained.linked.congr
    · intro c member
      rw [nodes c member]
    · intro c member
      rw [nodes c member]
  · intro bucket member
    have same := nodes _ (mem_nodesOf member)
    exact (chained.buckets bucket member).congr (by rw [same]) (by rw [same]) (keys bucket member)

theorem Chained.bucket_eq {counts : Nat → Count} {links : Nat → Links} {lo hi : Nat} {buckets : List Bucket}
    (chained : Chained counts links lo hi buckets) {first second : Bucket} (inFirst : first ∈ buckets)
    (inSecond : second ∈ buckets) (same : first.node = second.node) : first = second :=
  List.inj_on_of_nodup_map chained.nodup inFirst inSecond same

/-! ## Inserting a bucket -/

/-- A new node with one key between two parts of a list. -/
theorem Chained.insert {counts counts' : Nat → Count} {links links' : Nat → Links} {lo hi lo' hi' : Nat}
    {left right : List Bucket} (chained : Chained counts links lo hi (left ++ right)) {c count pos : Nat}
    (freshNode : c ∉ nodesOf (left ++ right)) (nodePositive : c ≠ 0)
    (freshKey : ∀ bucket ∈ left ++ right, pos ∉ bucket.keys) (keyPositive : pos ≠ 0)
    (node : counts' c = ⟨count, (nodesOf right).head?.getD 0, (nodesOf left).getLast?.getD 0, pos⟩)
    (others : ∀ other ∈ nodesOf (left ++ right), counts' other =
      { counts other with
        next := if (nodesOf left).getLast? = some other then c else (counts other).next
        last := if (nodesOf right).head? = some other then c else (counts other).last })
    (key : links' pos = ⟨c, 0, 0⟩) (otherKeys : ∀ other, other ≠ pos → links' other = links other)
    (low : lo' = if left = [] then c else lo) (high : hi' = if right = [] then c else hi) :
    Chained counts' links' lo' hi' (left ++ ⟨c, count, [pos]⟩ :: right) := by
  have freshNode' : c ∉ nodesOf left ++ nodesOf right := by rwa [nodesOf_append] at freshNode
  refine ⟨?_, ?_, ?_, ?_, ?_, ?_⟩
  · rw [nodesOf_append, nodesOf_cons]
    have linked := chained.linked
    have nodup := chained.nodup
    rw [nodesOf_append] at linked nodup
    apply linked.insert nodup
    · rw [node]
    · rw [node]
    · intro other member
      rw [others other (by rwa [nodesOf_append])]
    · intro other member
      rw [others other (by rwa [nodesOf_append])]
  · have nodup := chained.nodup
    rw [nodesOf_append] at nodup
    rw [nodesOf_append, nodesOf_cons]
    exact List.nodup_middle.mpr (List.nodup_cons.mpr ⟨freshNode', nodup⟩)
  · have positive := chained.positive
    rw [nodesOf_append, List.mem_append] at positive
    rw [nodesOf_append, nodesOf_cons, List.mem_append, List.mem_cons]
    rintro (inLeft | same | inRight)
    · exact positive (Or.inl inLeft)
    · exact nodePositive same.symm
    · exact positive (Or.inr inRight)
  · rw [low, chained.low]
    cases left with
    | nil => rfl
    | cons head left => rfl
  · rw [high, chained.high, nodesOf_append, nodesOf_append]
    cases right with
    | nil => simp
    | cons head right => simp [List.getLast?_append, List.getLast?_cons]
  · intro bucket member
    rcases List.mem_append.mp member with inLeft | inRest
    · have old : bucket ∈ left ++ right := List.mem_append_left _ inLeft
      have same := others _ (mem_nodesOf old)
      apply (chained.buckets bucket old).congr
      · rw [same]
      · rw [same]
      · intro other inKeys
        exact otherKeys other (fun equal => freshKey bucket old (equal ▸ inKeys))
    · rcases List.mem_cons.mp inRest with now | inRight
      · subst now
        refine ⟨by rw [node], by rw [node]; rfl, ?_, List.nodup_singleton _, ?_, ?_⟩
        · exact ⟨congrArg Links.lastHkvPos key, congrArg Links.nextHkvPos key, trivial⟩
        · intro other inKeys
          rw [List.mem_singleton.mp inKeys, key]
        · intro zero
          exact keyPositive (List.mem_singleton.mp zero).symm
      · have old : bucket ∈ left ++ right := List.mem_append_right _ inRight
        have same := others _ (mem_nodesOf old)
        apply (chained.buckets bucket old).congr
        · rw [same]
        · rw [same]
        · intro other inKeys
          exact otherKeys other (fun equal => freshKey bucket old (equal ▸ inKeys))

/-! ## Removing an empty bucket -/

/-- A node without keys is taken out of a list that goes on after it. -/
theorem Chained.remove {counts counts' : Nat → Count} {links : Nat → Links} {lo hi lo' : Nat}
    {left right : List Bucket} {bucket : Bucket}
    (chained : Chained counts links lo hi (left ++ bucket :: right)) (more : right ≠ [])
    (others : ∀ other ∈ nodesOf (left ++ right), counts' other =
      { counts other with
        next := if (nodesOf left).getLast? = some other then (nodesOf right).head?.getD 0 else (counts other).next
        last := if (nodesOf right).head? = some other then (nodesOf left).getLast?.getD 0
          else (counts other).last })
    (low : lo' = if left = [] then (nodesOf right).head?.getD 0 else lo) :
    Chained counts' links lo' hi (left ++ right) := by
  have linked := chained.linked
  have nodup := chained.nodup
  have positive := chained.positive
  rw [nodesOf_append, nodesOf_cons] at linked nodup positive
  have inside : ∀ {other}, other ∈ left ++ right → other ∈ left ++ bucket :: right := by
    intro other member
    rcases List.mem_append.mp member with inLeft | inRight
    · exact List.mem_append_left _ inLeft
    · exact List.mem_append_right _ (List.mem_cons_of_mem _ inRight)
  refine ⟨?_, ?_, ?_, ?_, ?_, ?_⟩
  · rw [nodesOf_append]
    apply linked.remove nodup
    · intro other member
      rw [others other (by rwa [nodesOf_append])]
    · intro other member
      rw [others other (by rwa [nodesOf_append])]
  · rw [nodesOf_append]
    exact (List.nodup_cons.mp (List.nodup_middle.mp nodup)).2
  · rw [nodesOf_append]
    intro zero
    apply positive
    rcases List.mem_append.mp zero with inLeft | inRight
    · exact List.mem_append_left _ inLeft
    · exact List.mem_append_right _ (List.mem_cons_of_mem _ inRight)
  · rw [low, chained.low]
    cases left with
    | nil => rfl
    | cons head left => rfl
  · rw [chained.high, nodesOf_append, nodesOf_append, nodesOf_cons]
    cases right with
    | nil => exact absurd rfl more
    | cons head right => simp [List.getLast?_append, List.getLast?_cons]
  · intro other member
    have same := others _ (mem_nodesOf member)
    exact (chained.buckets other (inside member)).congr (by rw [same]) (by rw [same]) (fun _ _ => rfl)

/-! ## Changing one bucket -/

/-- One bucket of a list changes in its count and its keys. -/
theorem Chained.change {counts counts' : Nat → Count} {links links' : Nat → Links} {lo hi : Nat}
    {left right : List Bucket} {bucket after : Bucket}
    (chained : Chained counts links lo hi (left ++ bucket :: right)) (sameNode : after.node = bucket.node)
    (others : ∀ other ∈ nodesOf (left ++ right), counts' other = counts other)
    (here : (counts' bucket.node).next = (counts bucket.node).next ∧
      (counts' bucket.node).last = (counts bucket.node).last)
    (otherKeys : ∀ other ∈ left ++ right, ∀ pos ∈ other.keys, links' pos = links pos)
    (ok : BucketOk counts' links' after) :
    Chained counts' links' lo hi (left ++ after :: right) := by
  have nodes : nodesOf (left ++ after :: right) = nodesOf (left ++ bucket :: right) := by
    rw [nodesOf_append, nodesOf_append, nodesOf_cons, nodesOf_cons, sameNode]
  have fields : ∀ c ∈ nodesOf (left ++ bucket :: right),
      (counts' c).next = (counts c).next ∧ (counts' c).last = (counts c).last := by
    intro c member
    by_cases same : c = bucket.node
    · rw [same]
      exact here
    · have elsewhere : c ∈ nodesOf (left ++ right) := by
        rw [nodesOf_append, nodesOf_cons] at member
        rw [nodesOf_append]
        rcases List.mem_append.mp member with inLeft | inRest
        · exact List.mem_append_left _ inLeft
        · rcases List.mem_cons.mp inRest with now | inRight
          · exact absurd now same
          · exact List.mem_append_right _ inRight
      rw [others c elsewhere]
      exact ⟨rfl, rfl⟩
  refine ⟨?_, ?_, ?_, ?_, ?_, ?_⟩
  · rw [nodes]
    apply chained.linked.congr
    · intro c member
      exact (fields c member).1
    · intro c member
      exact (fields c member).2
  · rw [nodes]
    exact chained.nodup
  · rw [nodes]
    exact chained.positive
  · rw [nodes]
    exact chained.low
  · rw [nodes]
    exact chained.high
  · intro other member
    have cases' : other = after ∨ other ∈ left ++ right := by
      rcases List.mem_append.mp member with inLeft | inRest
      · exact Or.inr (List.mem_append_left _ inLeft)
      · rcases List.mem_cons.mp inRest with now | inRight
        · exact Or.inl now
        · exact Or.inr (List.mem_append_right _ inRight)
    rcases cases' with now | elsewhere
    · rw [now]
      exact ok
    · have old : other ∈ left ++ bucket :: right := by
        rcases List.mem_append.mp elsewhere with inLeft | inRight
        · exact List.mem_append_left _ inLeft
        · exact List.mem_append_right _ (List.mem_cons_of_mem _ inRight)
      have same := others _ (mem_nodesOf elsewhere)
      exact (chained.buckets other old).congr (by rw [same]) (by rw [same]) (otherKeys other elsewhere)

theorem BucketOk.unlink {counts counts' : Nat → Count} {links links' : Nat → Links} {c count pos : Nat}
    {front back : List Nat} (ok : BucketOk counts links ⟨c, count, front ++ pos :: back⟩)
    (node : counts' c = { counts c with hkv1 := if front = [] then back.head?.getD 0 else (counts c).hkv1 })
    (keys : ∀ other ∈ front ++ back, links' other =
      { links other with
        nextHkvPos := if front.getLast? = some other then back.head?.getD 0 else (links other).nextHkvPos
        lastHkvPos := if back.head? = some other then front.getLast?.getD 0 else (links other).lastHkvPos }) :
    BucketOk counts' links' ⟨c, count, front ++ back⟩ := by
  have inside : ∀ {other}, other ∈ front ++ back → other ∈ front ++ pos :: back := by
    intro other member
    rcases List.mem_append.mp member with inFront | inBack
    · exact List.mem_append_left _ inFront
    · exact List.mem_append_right _ (List.mem_cons_of_mem _ inBack)
  refine ⟨?_, ?_, ?_, ?_, ?_, ?_⟩
  · rw [node]
    exact ok.count
  · rw [node]
    have first := ok.first
    cases front with
    | nil => rfl
    | cons head front => exact first
  · apply ok.linked.remove ok.nodup
    · intro other member
      rw [keys other member]
    · intro other member
      rw [keys other member]
  · exact (List.nodup_cons.mp (List.nodup_middle.mp ok.nodup)).2
  · intro other member
    rw [keys other member]
    exact ok.use other (inside member)
  · intro zero
    exact ok.positive (inside zero)

theorem BucketOk.push {counts counts' : Nat → Count} {links links' : Nat → Links} {bucket : Bucket} {pos : Nat}
    (ok : BucketOk counts links bucket) (fresh : pos ∉ bucket.keys) (positive : pos ≠ 0)
    (node : counts' bucket.node = { counts bucket.node with hkv1 := pos })
    (key : links' pos = ⟨bucket.node, (counts bucket.node).hkv1, 0⟩)
    (keys : ∀ other ∈ bucket.keys, links' other =
      { links other with
        lastHkvPos := if bucket.keys.head? = some other then pos else (links other).lastHkvPos }) :
    BucketOk counts' links' ⟨bucket.node, bucket.count, pos :: bucket.keys⟩ := by
  refine ⟨?_, ?_, ?_, ?_, ?_, ?_⟩
  · rw [node]
    exact ok.count
  · rw [node]
    rfl
  · refine ⟨congrArg Links.lastHkvPos key, (congrArg Links.nextHkvPos key).trans ok.first, ?_⟩
    apply ok.linked.set_before ok.nodup
    · intro other member
      rw [keys other member]
    · intro other member
      rw [keys other member]
  · exact List.nodup_cons.mpr ⟨fresh, ok.nodup⟩
  · intro other member
    rcases List.mem_cons.mp member with now | before
    · rw [now, key]
    · rw [keys other before]
      exact ok.use other before
  · intro zero
    rcases List.mem_cons.mp zero with now | before
    · exact positive now.symm
    · exact ok.positive before

end SxeCdb
end LibKit
