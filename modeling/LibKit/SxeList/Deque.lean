import LibKit.SxeList.Model
import LibKit.Support.Ring
import LibKit.Support.Runs

namespace LibKit
namespace SxeList

/-!
# Lists refine double ended queues

The nodes of the objects in a queue form a ring through the list, in the order
of the queue.  What is done at one end of a list is the mirror image of what is
done at the other.
-/

/-! ## Links -/

namespace Heap

/-- The node that the link `next` leads to. -/
def nextOf (heap : Heap) (list address : UInt64) : UInt64 := ptrFix list (heap.node address).next

/-- The node that the link `prev` leads to. -/
def prevOf (heap : Heap) (list address : UInt64) : UInt64 := ptrFix list (heap.node address).prev

def mirror (heap : Heap) : Heap :=
  { heap with node := fun address => ⟨(heap.node address).prev, (heap.node address).next, (heap.node address).id⟩ }

section

variable (heap : Heap) (address : UInt64)

@[simp] theorem mirror_mirror : heap.mirror.mirror = heap := rfl

@[simp] theorem mirror_next : (heap.mirror.node address).next = (heap.node address).prev := rfl

@[simp] theorem mirror_prev : (heap.mirror.node address).prev = (heap.node address).next := rfl

@[simp] theorem mirror_id : (heap.mirror.node address).id = (heap.node address).id := rfl

@[simp] theorem mirror_length : heap.mirror.length = heap.length := rfl

@[simp] theorem mirror_offset : heap.mirror.offset = heap.offset := rfl

end

theorem mirror_setNext (heap : Heap) (address value : UInt64) :
    (heap.setNext address value).mirror = heap.mirror.setPrev address value := by
  simp only [mirror, setNext, setPrev, mk.injEq, and_true]
  funext other
  split <;> rfl

theorem mirror_setPrev (heap : Heap) (address value : UInt64) :
    (heap.setPrev address value).mirror = heap.mirror.setNext address value := by
  simp only [mirror, setNext, setPrev, mk.injEq, and_true]
  funext other
  split <;> rfl

theorem mirror_setId (heap : Heap) (address : UInt64) (id : Nat) :
    (heap.setId address id).mirror = heap.mirror.setId address id := by
  simp only [mirror, setId, mk.injEq, and_true]
  funext other
  split <;> rfl

theorem mirror_setLength (heap : Heap) (list : UInt64) (length : Nat) :
    (heap.setLength list length).mirror = heap.mirror.setLength list length := rfl

end Heap

@[simp] theorem ptrFix_ptrRel (base fixed : UInt64) : ptrFix base (ptrRel base fixed) = fixed :=
  UInt64.sub_add_cancel fixed base

theorem eq_ptrRel_iff {base relative fixed : UInt64} : relative = ptrRel base fixed ↔ ptrFix base relative = fixed := by
  rw [ptrRel, ptrFix, eq_comm, UInt64.sub_eq_iff_eq_add, eq_comm]

def nodesOf (heap : Heap) (list : UInt64) (objects : List UInt64) : List UInt64 := objects.map (· + heap.offset list)

structure Represents (heap : Heap) (list : UInt64) (objects : List UInt64) : Prop where
  ring : Ring (heap.nextOf list) (heap.prevOf list) list (nodesOf heap list objects)
  notNull : 0 ∉ list :: nodesOf heap list objects
  ids : ∀ node ∈ nodesOf heap list objects, (heap.node node).id = (heap.node list).id
  length : heap.length list = objects.length % 2 ^ 32

section

variable {heap : Heap} {list : UInt64} {objects : List UInt64}

theorem Represents.mirror (represents : Represents heap list objects) :
    Represents heap.mirror list objects.reverse := by
  have nodes : nodesOf heap.mirror list objects.reverse = (nodesOf heap list objects).reverse := List.map_reverse
  refine ⟨?_, ?_, ?_, ?_⟩
  · rw [nodes]
    exact represents.ring.reverse
  · rw [nodes, List.mem_cons, List.mem_reverse, ← List.mem_cons]
    exact represents.notNull
  · intro node member
    rw [nodes, List.mem_reverse] at member
    exact represents.ids node member
  · rw [List.length_reverse]
    exact represents.length

/-- An empty list. -/
theorem construct_represents (heap : Heap) {list : UInt64} (id : Nat) (offset : UInt64) (notNull : list ≠ 0) :
    Represents (construct heap list id offset) list [] := by
  refine ⟨⟨trivial, ?_, ?_, List.nodup_singleton list⟩, ?_, nofun, ?_⟩
  · simp [construct, Heap.nextOf, nodesOf]
  · simp [construct, Heap.prevOf, nodesOf]
  · exact fun member => notNull (List.mem_singleton.mp member).symm
  · simp [construct]

/-! ## Adding -/

structure Fresh (heap : Heap) (list : UInt64) (objects : List UInt64) (object : UInt64) : Prop where
  absent : object ∉ objects
  apart : object + heap.offset list ≠ list
  notNull : object + heap.offset list ≠ 0

theorem Fresh.node (fresh : Fresh heap list objects object) :
    object + heap.offset list ∉ list :: nodesOf heap list objects := by
  intro member
  rcases List.mem_cons.mp member with same | inside
  · exact fresh.apart same
  · rcases List.mem_map.mp inside with ⟨other, isObject, same⟩
    exact fresh.absent ((UInt64.add_left_inj _).mp same ▸ isObject)

@[simp] theorem push_offset (heap : Heap) (list object : UInt64) : (push heap list object).offset = heap.offset := rfl

theorem push_length (heap : Heap) (list object other : UInt64) :
    (push heap list object).length other = if other = list then (heap.length list + 1) % 2 ^ 32
      else heap.length other := rfl

theorem push_id (heap : Heap) (list object address : UInt64) :
    ((push heap list object).node address).id =
      if address = object + heap.offset list then (heap.node list).id else (heap.node address).id := by
  simp [push]

theorem push_next {object : UInt64} (apart : object + heap.offset list ≠ list) (address : UInt64) :
    ((push heap list object).node address).next =
      if address = heap.prevOf list list then ptrRel list (object + heap.offset list)
      else if address = object + heap.offset list then ptrRel list list
      else (heap.node address).next := by
  simp [push, Heap.prevOf, apart]
  rfl

theorem push_prev {object : UInt64} (apart : object + heap.offset list ≠ list) (address : UInt64) :
    ((push heap list object).node address).prev =
      if address = list then ptrRel list (object + heap.offset list)
      else if address = object + heap.offset list then (heap.node list).prev
      else (heap.node address).prev := by
  simp [push, apart]

theorem Represents.push (represents : Represents heap list objects) {object : UInt64}
    (fresh : Fresh heap list objects object) : Represents (push heap list object) list (objects ++ [object]) := by
  have nodes : nodesOf (SxeList.push heap list object) list (objects ++ [object]) =
      nodesOf heap list objects ++ [object + heap.offset list] := List.map_append
  have notTail : heap.prevOf list list ≠ object + heap.offset list := by
    intro same
    refine fresh.node ?_
    rw [← same, represents.ring.final]
    exact Ring.mem_of_getLast _ _
  refine ⟨?_, ?_, ?_, ?_⟩
  · have ring := represents.ring
    rw [← List.append_nil (nodesOf heap list objects)] at ring
    rw [nodes]
    refine ring.insert ?_ ?_ ?_
    · rw [List.append_nil]
      exact fresh.node
    · intro other
      rw [Heap.nextOf, push_next fresh.apart, ← represents.ring.final]
      by_cases isNode : other = object + heap.offset list
      · rw [isNode, if_neg (Ne.symm notTail), if_pos rfl, if_pos rfl, ptrFix_ptrRel]
        rfl
      · rw [if_neg isNode, if_neg isNode]
        split
        · exact ptrFix_ptrRel _ _
        · rfl
    · intro other
      rw [Heap.prevOf, push_prev fresh.apart, ← represents.ring.final, List.head?_nil, Option.getD_none]
      by_cases isNode : other = object + heap.offset list
      · rw [isNode, if_neg fresh.apart, if_pos rfl, if_pos rfl]
        rfl
      · rw [if_neg isNode, if_neg isNode]
        split
        · exact ptrFix_ptrRel _ _
        · rfl
  · rw [nodes, List.mem_cons, List.mem_append, List.mem_singleton, ← or_assoc, ← List.mem_cons, not_or]
    exact ⟨represents.notNull, Ne.symm fresh.notNull⟩
  · intro node member
    rw [push_id, push_id, if_neg (Ne.symm fresh.apart)]
    rw [nodes, List.mem_append, List.mem_singleton] at member
    split
    · rfl
    · rename_i different
      exact represents.ids node (member.resolve_right different)
  · have length := represents.length
    rw [push_length, if_pos rfl, List.length_append, List.length_singleton]
    omega

theorem unshift_mirror (heap : Heap) (list object : UInt64) :
    unshift heap list object = (push heap.mirror list object).mirror := by
  simp [push, unshift, Heap.mirror_setLength, Heap.mirror_setId, Heap.mirror_setNext, Heap.mirror_setPrev]

theorem Represents.unshift (represents : Represents heap list objects) {object : UInt64}
    (fresh : Fresh heap list objects object) : Represents (unshift heap list object) list (object :: objects) := by
  have fresh' : Fresh heap.mirror list objects.reverse object :=
    ⟨fun member => fresh.absent (List.mem_reverse.mp member), fresh.apart, fresh.notNull⟩
  have pushed := (represents.mirror.push fresh').mirror
  rw [List.reverse_append, List.reverse_reverse] at pushed
  rw [unshift_mirror]
  exact pushed

/-! ## Removing -/

theorem Represents.head_iff (represents : Represents heap list objects) :
    (heap.node list).next = ptrRel list list ↔ objects = [] := by
  have first := represents.ring.first
  rw [Heap.nextOf] at first
  rw [eq_ptrRel_iff, first]
  cases objects with
  | nil => exact ⟨fun _ => rfl, fun _ => rfl⟩
  | cons object others =>
      refine ⟨fun same => absurd same ?_, nofun⟩
      exact ne_of_mem_of_not_mem List.mem_cons_self (List.nodup_cons.mp represents.ring.nodup).1

theorem Represents.tail_iff (represents : Represents heap list objects) :
    (heap.node list).prev = ptrRel list list ↔ objects = [] := by
  have mirrored := represents.mirror.head_iff
  rwa [Heap.mirror_next, List.reverse_eq_nil_iff] at mirrored

section

variable {node : UInt64}

@[simp] theorem unlink_offset (heap : Heap) (list node : UInt64) : (unlink heap list node).offset = heap.offset := rfl

theorem unlink_length (heap : Heap) (list node other : UInt64) :
    (unlink heap list node).length other =
      if other = list then (heap.length list + (2 ^ 32 - 1)) % 2 ^ 32 else heap.length other := rfl

theorem unlink_id (heap : Heap) (list node address : UInt64) :
    ((unlink heap list node).node address).id = (heap.node address).id := by
  simp [unlink]

theorem unlink_next (different : heap.nextOf list node ≠ node) (address : UInt64) :
    ((unlink heap list node).node address).next =
      if address = node then nullRel list
      else if address = heap.prevOf list node then (heap.node node).next
      else (heap.node address).next := by
  have apart : node ≠ ptrFix list (heap.node node).next := Ne.symm different
  simp [unlink, Heap.prevOf, apart]
  rfl

theorem unlink_prev (address : UInt64) :
    ((unlink heap list node).node address).prev =
      if address = node then nullRel list
      else if address = heap.nextOf list node then (heap.node node).prev
      else (heap.node address).prev := by
  simp [unlink, Heap.nextOf]
  rfl

end

theorem Represents.node_ring {left right : List UInt64} {object : UInt64}
    (represents : Represents heap list (left ++ object :: right)) :
    Ring (heap.nextOf list) (heap.prevOf list) list
      (nodesOf heap list left ++ (object + heap.offset list) :: nodesOf heap list right) := by
  have ring := represents.ring
  rwa [nodesOf, List.map_append] at ring

theorem Represents.next_ne {left right : List UInt64} {object : UInt64}
    (represents : Represents heap list (left ++ object :: right)) :
    heap.nextOf list (object + heap.offset list) ≠ object + heap.offset list := by
  have ring := represents.node_ring
  rcases List.nodup_cons.mp ring.nodup with ⟨outside, distinct⟩
  rcases List.nodup_cons.mp (List.nodup_middle.mp distinct) with ⟨absent, -⟩
  have nextIn := Ring.mem_of_head (nodesOf heap list right) list
  rw [← ring.neighbours.2] at nextIn
  intro same
  rw [same] at nextIn
  rcases List.mem_cons.mp nextIn with isList | inRight
  · exact ne_of_mem_of_not_mem (List.mem_append_right _ List.mem_cons_self) outside isList
  · exact absent (List.mem_append_right _ inRight)

theorem Represents.remove {left right : List UInt64} {object : UInt64}
    (represents : Represents heap list (left ++ object :: right)) :
    remove heap list object = some (object, unlink heap list (object + heap.offset list)) ∧
      Represents (unlink heap list (object + heap.offset list)) list (left ++ right) := by
  have ring := represents.node_ring
  have different := represents.next_ne
  have notNull : 0 ∉ list :: (nodesOf heap list left ++ (object + heap.offset list) :: nodesOf heap list right) := by
    have absent := represents.notNull
    rwa [nodesOf, List.map_append] at absent
  rcases ring.neighbours with ⟨isPrev, isNext⟩
  have prevIn := Ring.mem_of_getLast (nodesOf heap list left) list
  have nextIn := Ring.mem_of_head (nodesOf heap list right) list
  rw [← isPrev] at prevIn
  rw [← isNext] at nextIn
  have inside : ∀ node ∈ list :: nodesOf heap list (left ++ right),
    node ∈ list :: nodesOf heap list (left ++ object :: right) := by
    intro node member
    refine List.Sublist.subset ?_ member
    exact (((List.sublist_cons_self object right).append_left left).map _).cons_cons list
  refine ⟨?_, ?_, ?_, ?_, ?_⟩
  · have some : left ++ object :: right ≠ [] := by simp
    have nextSet : (heap.node (object + heap.offset list)).next ≠ nullRel list := by
      rw [nullRel, Ne, eq_ptrRel_iff]
      refine ne_of_mem_of_not_mem (List.cons_subset_cons _ ?_ nextIn) notNull
      exact fun node member => List.mem_append_right _ (List.mem_cons_of_mem _ member)
    have prevSet : (heap.node (object + heap.offset list)).prev ≠ nullRel list := by
      rw [nullRel, Ne, eq_ptrRel_iff]
      refine ne_of_mem_of_not_mem (List.cons_subset_cons _ ?_ prevIn) notNull
      exact fun node member => List.mem_append_left _ member
    simp only [SxeList.remove, ne_eq, represents.head_iff, represents.tail_iff, some, nextSet, prevSet,
      not_false_eq_true, and_self, or_self, not_true_eq_false, if_false]
  · have nodes' : nodesOf (unlink heap list (object + heap.offset list)) list (left ++ right) =
        nodesOf heap list left ++ nodesOf heap list right := List.map_append
    rw [nodes']
    refine ring.remove ?_ ?_
    · intro other apart
      rw [Heap.nextOf, unlink_next different, if_neg apart, ← isPrev, ← isNext]
      split <;> rfl
    · intro other apart
      rw [Heap.prevOf, unlink_prev, if_neg apart, ← isPrev, ← isNext]
      split <;> rfl
  · intro member
    exact represents.notNull (inside 0 member)
  · intro node member
    rw [unlink_id, unlink_id]
    refine represents.ids node ?_
    exact ((((List.sublist_cons_self object right).append_left left).map _).subset member)
  · have length := represents.length
    rw [List.length_append, List.length_cons] at length
    rw [unlink_length, if_pos rfl, List.length_append]
    omega

/-! ## Frames -/

theorem Represents.congr {other : Heap} (represents : Represents heap list objects)
    (nodes : ∀ address ∈ list :: nodesOf heap list objects, other.node address = heap.node address)
    (length : other.length list = heap.length list) (offset : other.offset list = heap.offset list) :
    Represents other list objects := by
  have same : nodesOf other list objects = nodesOf heap list objects := by rw [nodesOf, nodesOf, offset]
  refine ⟨?_, ?_, ?_, ?_⟩
  · rw [same]
    refine represents.ring.congr ?_ ?_
    · intro node member
      rw [Heap.nextOf, Heap.nextOf, nodes node member]
    · intro node member
      rw [Heap.prevOf, Heap.prevOf, nodes node member]
  · rw [same]
    exact represents.notNull
  · intro node member
    rw [same] at member
    rw [nodes node (List.mem_cons_of_mem _ member), nodes list List.mem_cons_self]
    exact represents.ids node member
  · rw [length]
    exact represents.length

theorem construct_frame (heap : Heap) {list : UInt64} (id : Nat) (offset : UInt64) {address : UInt64}
    (different : address ≠ list) :
    (construct heap list id offset).node address = heap.node address ∧
      (construct heap list id offset).length address = heap.length address ∧
      (construct heap list id offset).offset address = heap.offset address := by
  refine ⟨?_, ?_, ?_⟩
  · apply Node.ext <;> simp [construct, different]
  · simp [construct, different]
  · simp [construct, different]

theorem Represents.push_frame (represents : Represents heap list objects) {object : UInt64}
    (fresh : Fresh heap list objects object) {address : UInt64} (outside : address ∉ list :: nodesOf heap list objects)
    (different : address ≠ object + heap.offset list) :
    (SxeList.push heap list object).node address = heap.node address := by
  have notList : address ≠ list := fun same => outside (List.mem_cons.mpr (Or.inl same))
  have notTail : address ≠ heap.prevOf list list := by
    rw [represents.ring.final]
    exact fun same => outside (same ▸ Ring.mem_of_getLast _ _)
  apply Node.ext
  · rw [push_next fresh.apart, if_neg notTail, if_neg different]
  · rw [push_prev fresh.apart, if_neg notList, if_neg different]
  · rw [push_id, if_neg different]

theorem Represents.unlink_frame {left right : List UInt64} {object : UInt64}
    (represents : Represents heap list (left ++ object :: right)) {address : UInt64}
    (outside : address ∉ list :: nodesOf heap list (left ++ object :: right)) :
    (unlink heap list (object + heap.offset list)).node address = heap.node address := by
  have ring := represents.node_ring
  have nodes : nodesOf heap list (left ++ object :: right) =
      nodesOf heap list left ++ (object + heap.offset list) :: nodesOf heap list right := List.map_append
  rw [nodes] at outside
  have notNode : address ≠ object + heap.offset list := fun same =>
    outside (List.mem_cons_of_mem _ (List.mem_append_right _ (same ▸ List.mem_cons_self)))
  have notPrev : address ≠ heap.prevOf list (object + heap.offset list) := by
    rw [ring.neighbours.1]
    rintro rfl
    exact outside (List.cons_subset_cons _ (List.subset_append_left _ _) (Ring.mem_of_getLast _ _))
  have notNext : address ≠ heap.nextOf list (object + heap.offset list) := by
    rw [ring.neighbours.2]
    rintro rfl
    refine outside (List.cons_subset_cons _ ?_ (Ring.mem_of_head _ _))
    exact fun node member => List.mem_append_right _ (List.mem_cons_of_mem _ member)
  apply Node.ext
  · rw [unlink_next represents.next_ne, if_neg notNode, if_neg notPrev]
  · rw [unlink_prev, if_neg notNode, if_neg notNext]
  · exact unlink_id heap list _ address

/-! ## Ends -/

theorem Represents.first {object : UInt64} {others : List UInt64}
    (represents : Represents heap list (object :: others)) :
    heap.nextOf list list = object + heap.offset list := represents.ring.first

theorem Represents.shift_nil (represents : Represents heap list []) : shift heap list = some (none, heap) := by
  have head := represents.head_iff.mpr rfl
  have tail := represents.tail_iff.mpr rfl
  rw [shift, head, ptrFix_ptrRel, if_pos rfl, if_pos tail]

theorem Represents.shift {object : UInt64} {others : List UInt64}
    (represents : Represents heap list (object :: others)) :
    shift heap list = some (some object, unlink heap list (object + heap.offset list)) ∧
      Represents (unlink heap list (object + heap.offset list)) list others := by
  have first := represents.first
  rw [Heap.nextOf] at first
  have apart : object + heap.offset list ≠ list :=
    ne_of_mem_of_not_mem List.mem_cons_self (List.nodup_cons.mp represents.ring.nodup).1
  have removed := @Represents.remove heap list [] others object represents
  rw [SxeList.shift, first, if_neg apart, UInt64.add_sub_cancel, removed.1]
  exact ⟨rfl, removed.2⟩

theorem Represents.final {object : UInt64} {others : List UInt64}
    (represents : Represents heap list (others ++ [object])) :
    heap.prevOf list list = object + heap.offset list := by
  rw [represents.ring.final, nodesOf, List.map_append]
  simp

theorem Represents.pop_nil (represents : Represents heap list []) : pop heap list = some (none, heap) := by
  have head := represents.head_iff.mpr rfl
  have tail := represents.tail_iff.mpr rfl
  rw [pop, tail, ptrFix_ptrRel, if_pos rfl, if_pos head]

theorem Represents.pop {object : UInt64} {others : List UInt64}
    (represents : Represents heap list (others ++ [object])) :
    pop heap list = some (some object, unlink heap list (object + heap.offset list)) ∧
      Represents (unlink heap list (object + heap.offset list)) list others := by
  have final := represents.final
  rw [Heap.prevOf] at final
  have apart : object + heap.offset list ≠ list := by
    refine ne_of_mem_of_not_mem ?_ (List.nodup_cons.mp represents.ring.nodup).1
    exact List.mem_map_of_mem (List.mem_append_right _ (List.mem_singleton_self object))
  have removed := represents.remove
  rw [List.append_nil] at removed
  rw [SxeList.pop, final, if_neg apart, UInt64.add_sub_cancel, removed.1]
  exact ⟨rfl, removed.2⟩

theorem Represents.peekHead_nil (represents : Represents heap list []) : peekHead heap list = some none := by
  have head := represents.head_iff.mpr rfl
  have tail := represents.tail_iff.mpr rfl
  rw [peekHead, if_pos head, if_pos tail]

theorem Represents.peekHead {object : UInt64} {others : List UInt64}
    (represents : Represents heap list (object :: others)) : peekHead heap list = some (some object) := by
  have first := represents.first
  have back := represents.ring.linked.1
  rw [Heap.nextOf] at first
  rw [Heap.prevOf, ← eq_ptrRel_iff] at back
  rw [SxeList.peekHead, if_neg (by simp [represents.head_iff]), if_neg (by simp [represents.tail_iff]), first,
    if_neg (not_not_intro back), UInt64.add_sub_cancel]

theorem Represents.peekTail_nil (represents : Represents heap list []) : peekTail heap list = some none :=
  represents.mirror.peekHead_nil

theorem Represents.peekTail {object : UInt64} {others : List UInt64}
    (represents : Represents heap list (others ++ [object])) : peekTail heap list = some (some object) := by
  have mirrored := represents.mirror
  rw [List.reverse_append] at mirrored
  exact mirrored.peekHead

/-! ## Walking -/

/-- The objects that are read by following `next`, up to the list, with at most
as many steps. -/
def forward (heap : Heap) (list : UInt64) : Nat → UInt64 → List UInt64
  | 0, _ => []
  | steps + 1, address =>
      let node := heap.nextOf list address
      if node = list then [] else (node - heap.offset list) :: forward heap list steps node

/-- The objects that are read by following `prev`. -/
def backward (heap : Heap) (list : UInt64) (steps : Nat) (address : UInt64) : List UInt64 :=
  forward heap.mirror list steps address

theorem forward_linked {objects : List UInt64} {address : UInt64} (outside : list ∉ nodesOf heap list objects)
    (first : heap.nextOf list address = (nodesOf heap list objects).head?.getD list)
    (linked : Linked (heap.nextOf list) (heap.prevOf list) address (nodesOf heap list objects) list) (more : Nat) :
    forward heap list (objects.length + more + 1) address = objects := by
  induction objects generalizing address with
  | nil =>
      rw [forward, first]
      exact if_pos rfl
  | cons object others ih =>
      rcases linked with ⟨-, isNext, rest⟩
      have apart : object + heap.offset list ≠ list := ne_of_mem_of_not_mem List.mem_cons_self outside
      have count : (object :: others).length + more + 1 = (others.length + more + 1) + 1 := by
        rw [List.length_cons]
        omega
      rw [count, forward, first]
      change (if object + heap.offset list = list then [] else
        (object + heap.offset list - heap.offset list) :: forward heap list _ (object + heap.offset list)) = _
      rw [if_neg apart, UInt64.add_sub_cancel]
      exact congrArg _ (ih (fun member => outside (List.mem_cons_of_mem _ member)) isNext rest)

/-- What is read forward from the head. -/
theorem Represents.forward (represents : Represents heap list objects) {steps : Nat} (enough : objects.length < steps) :
    forward heap list steps list = objects := by
  have walked := forward_linked (List.nodup_cons.mp represents.ring.nodup).1 represents.ring.first
    represents.ring.linked (steps - objects.length - 1)
  have count : objects.length + (steps - objects.length - 1) + 1 = steps := by omega
  rwa [count] at walked

theorem Represents.backward (represents : Represents heap list objects) {steps : Nat}
    (enough : objects.length < steps) :
    backward heap list steps list = objects.reverse :=
  represents.mirror.forward (by rw [List.length_reverse]; exact enough)

theorem Represents.walkerStep {left right : List UInt64}
    (represents : Represents heap list (left ++ right)) (back : UInt64) :
    walkerStep heap ⟨list, back, (nodesOf heap list left).getLast?.getD list⟩ =
      (right.head?, ⟨list, (nodesOf heap list left).getLast?.getD list,
        (nodesOf heap list right).head?.getD list⟩) := by
  have next : heap.nextOf list ((nodesOf heap list left).getLast?.getD list) =
      (nodesOf heap list right).head?.getD list := by
    rcases List.eq_nil_or_concat left with rfl | ⟨others, object, rfl⟩
    · exact represents.ring.first
    · rw [List.concat_eq_append, List.append_assoc] at represents
      rw [List.concat_eq_append, nodesOf, List.map_append]
      exact (List.getLast?_concat ▸ represents.node_ring.neighbours.2)
  rw [SxeList.walkerStep]
  rw [Heap.nextOf] at next
  dsimp only
  rw [next]
  cases right with
  | nil => simp [nodesOf]
  | cons object others =>
      have apart : object + heap.offset list ≠ list := by
        have outside := (List.nodup_cons.mp represents.ring.nodup).1
        refine ne_of_mem_of_not_mem ?_ outside
        rw [nodesOf, List.map_append]
        exact List.mem_append_right _ List.mem_cons_self
      simp [nodesOf, apart]

def walk (heap : Heap) : Nat → Walker → List (Option UInt64)
  | 0, _ => []
  | steps + 1, walker => (walkerStep heap walker).1 :: walk heap steps (walkerStep heap walker).2

theorem walk_linked {objects : List UInt64} {back address : UInt64} (outside : list ∉ nodesOf heap list objects)
    (first : heap.nextOf list address = (nodesOf heap list objects).head?.getD list)
    (linked : Linked (heap.nextOf list) (heap.prevOf list) address (nodesOf heap list objects) list) :
    walk heap (objects.length + 1) ⟨list, back, address⟩ = objects.map some ++ [none] := by
  induction objects generalizing back address with
  | nil =>
      rw [Heap.nextOf] at first
      simp [walk, walkerStep, first, nodesOf]
  | cons object others ih =>
      rcases linked with ⟨-, isNext, rest⟩
      have apart : object + heap.offset list ≠ list := ne_of_mem_of_not_mem List.mem_cons_self outside
      have stepped : walkerStep heap ⟨list, back, address⟩ =
        (some object, ⟨list, address, object + heap.offset list⟩) := by
        rw [Heap.nextOf] at first
        rw [walkerStep]
        dsimp only
        rw [first]
        change (if object + heap.offset list ≠ list then some (object + heap.offset list - heap.offset list)
          else none, _) = _
        rw [if_pos apart, UInt64.add_sub_cancel]
        rfl
      rw [List.length_cons, walk, stepped]
      exact congrArg _ (ih (fun member => outside (List.mem_cons_of_mem _ member)) isNext rest)

theorem Represents.walk (represents : Represents heap list objects) :
    walk heap (objects.length + 1) (walkerConstruct list) = objects.map some ++ [none] :=
  walk_linked (List.nodup_cons.mp represents.ring.nodup).1 represents.ring.first represents.ring.linked

end

end SxeList
end LibKit
