import Mathlib

namespace LibKit
namespace SxeList

/-!
# Position independent lists

`lib-sxe-list` links nodes that are members of objects into a circle through
the list itself.  The links are stored relative to the address of the list, as
differences that wrap like addresses do.

A heap is modelled by the nodes at all addresses, and by the other members of
the lists.  A list starts with its sentinel, which has the same address.  A
function has no result if an assertion with `SXEA1` fails.  Pointers that may be
null are options.
-/

/-- `SXE_LIST_NODE` -/
@[ext] structure Node where
  next : UInt64
  prev : UInt64
  id : Nat

/-- The nodes at addresses, and `length` and `offset` of the lists at
addresses. -/
structure Heap where
  node : UInt64 → Node
  length : UInt64 → Nat
  offset : UInt64 → UInt64

/-- `SXE_PTR_FIX` -/
def ptrFix (base relative : UInt64) : UInt64 := relative + base

/-- `SXE_PTR_REL` -/
def ptrRel (base fixed : UInt64) : UInt64 := fixed - base

/-- `NULL_REL` -/
def nullRel (list : UInt64) : UInt64 := ptrRel list 0

namespace Heap

def setNext (heap : Heap) (address next : UInt64) : Heap :=
  { heap with node := fun other => if other = address then { heap.node other with next := next } else heap.node other }

def setPrev (heap : Heap) (address prev : UInt64) : Heap :=
  { heap with node := fun other => if other = address then { heap.node other with prev := prev } else heap.node other }

def setId (heap : Heap) (address : UInt64) (id : Nat) : Heap :=
  { heap with node := fun other => if other = address then { heap.node other with id := id } else heap.node other }

def setLength (heap : Heap) (list : UInt64) (length : Nat) : Heap :=
  { heap with length := fun other => if other = list then length else heap.length other }

def setOffset (heap : Heap) (list offset : UInt64) : Heap :=
  { heap with offset := fun other => if other = list then offset else heap.offset other }

section

variable (heap : Heap) (address other value : UInt64) (id length : Nat)

@[simp] theorem setNext_next :
    ((heap.setNext address value).node other).next = if other = address then value else (heap.node other).next := by
  simp only [setNext]
  split <;> rfl

@[simp] theorem setNext_prev : ((heap.setNext address value).node other).prev = (heap.node other).prev := by
  simp only [setNext]
  split <;> rfl

@[simp] theorem setNext_id : ((heap.setNext address value).node other).id = (heap.node other).id := by
  simp only [setNext]
  split <;> rfl

@[simp] theorem setPrev_next : ((heap.setPrev address value).node other).next = (heap.node other).next := by
  simp only [setPrev]
  split <;> rfl

@[simp] theorem setPrev_prev :
    ((heap.setPrev address value).node other).prev = if other = address then value else (heap.node other).prev := by
  simp only [setPrev]
  split <;> rfl

@[simp] theorem setPrev_id : ((heap.setPrev address value).node other).id = (heap.node other).id := by
  simp only [setPrev]
  split <;> rfl

@[simp] theorem setId_next : ((heap.setId address id).node other).next = (heap.node other).next := by
  simp only [setId]
  split <;> rfl

@[simp] theorem setId_prev : ((heap.setId address id).node other).prev = (heap.node other).prev := by
  simp only [setId]
  split <;> rfl

@[simp] theorem setId_id :
    ((heap.setId address id).node other).id = if other = address then id else (heap.node other).id := by
  simp only [setId]
  split <;> rfl

@[simp] theorem setLength_node : (heap.setLength address length).node = heap.node := rfl

@[simp] theorem setOffset_node : (heap.setOffset address value).node = heap.node := rfl

@[simp] theorem setNext_length : (heap.setNext address value).length = heap.length := rfl

@[simp] theorem setPrev_length : (heap.setPrev address value).length = heap.length := rfl

@[simp] theorem setId_length : (heap.setId address id).length = heap.length := rfl

@[simp] theorem setOffset_length : (heap.setOffset address value).length = heap.length := rfl

@[simp] theorem setLength_length :
    (heap.setLength address length).length other = if other = address then length else heap.length other := rfl

@[simp] theorem setNext_offset : (heap.setNext address value).offset = heap.offset := rfl

@[simp] theorem setPrev_offset : (heap.setPrev address value).offset = heap.offset := rfl

@[simp] theorem setId_offset : (heap.setId address id).offset = heap.offset := rfl

@[simp] theorem setLength_offset : (heap.setLength address length).offset = heap.offset := rfl

@[simp] theorem setOffset_offset :
    (heap.setOffset address value).offset other = if other = address then value else heap.offset other := rfl

end

end Heap

/-! ## Lists -/

/-- `sxe_list_construct_impl` -/
def construct (heap : Heap) (list : UInt64) (id : Nat) (offset : UInt64) : Heap :=
  ((((heap.setNext list (ptrRel list list)).setPrev list (ptrRel list list)).setId list id).setLength list 0).setOffset
    list offset

/-- `sxe_list_push` -/
def push (heap : Heap) (list object : UInt64) : Heap :=
  let node := object + heap.offset list
  let heap := heap.setNext node (ptrRel list list)
  let heap := heap.setPrev node (heap.node list).prev
  let heap := heap.setPrev list (ptrRel list node)
  let heap := heap.setNext (ptrFix list (heap.node node).prev) (ptrRel list node)
  let heap := heap.setId node (heap.node list).id
  heap.setLength list ((heap.length list + 1) % 2 ^ 32)

/-- `sxe_list_unshift` -/
def unshift (heap : Heap) (list object : UInt64) : Heap :=
  let node := object + heap.offset list
  let heap := heap.setPrev node (ptrRel list list)
  let heap := heap.setNext node (heap.node list).next
  let heap := heap.setNext list (ptrRel list node)
  let heap := heap.setPrev (ptrFix list (heap.node node).next) (ptrRel list node)
  let heap := heap.setId node (heap.node list).id
  heap.setLength list ((heap.length list + 1) % 2 ^ 32)

/-- The part of `sxe_list_remove` that changes links. -/
def unlink (heap : Heap) (list node : UInt64) : Heap :=
  let heap := heap.setPrev (ptrFix list (heap.node node).next) (heap.node node).prev
  let heap := heap.setNext (ptrFix list (heap.node node).prev) (heap.node node).next
  let heap := heap.setPrev node (nullRel list)
  let heap := heap.setNext node (nullRel list)
  heap.setLength list ((heap.length list + (2 ^ 32 - 1)) % 2 ^ 32)

/-- `sxe_list_remove`: the object, and the heap afterwards. -/
def remove (heap : Heap) (list object : UInt64) : Option (UInt64 × Heap) :=
  let head := (heap.node list).next
  let tail := (heap.node list).prev
  let node := object + heap.offset list
  if ¬ (head ≠ ptrRel list list ∧ tail ≠ ptrRel list list) then none
  else if ¬ (head ≠ ptrRel list list ∨ tail ≠ ptrRel list list) then none
  else if ¬ ((heap.node node).next ≠ nullRel list ∧ (heap.node node).prev ≠ nullRel list) then none
  else some (object, unlink heap list node)

/-- `sxe_list_pop`; `none` in a result is a null pointer. -/
def pop (heap : Heap) (list : UInt64) : Option (Option UInt64 × Heap) :=
  let node := ptrFix list (heap.node list).prev
  if node = list then
    if (heap.node list).next = ptrRel list list then some (none, heap) else none
  else (remove heap list (node - heap.offset list)).map fun (object, heap) => (some object, heap)

/-- `sxe_list_shift` -/
def shift (heap : Heap) (list : UInt64) : Option (Option UInt64 × Heap) :=
  let node := ptrFix list (heap.node list).next
  if node = list then
    if (heap.node list).prev = ptrRel list list then some (none, heap) else none
  else (remove heap list (node - heap.offset list)).map fun (object, heap) => (some object, heap)

/-- `sxe_list_peek_head` -/
def peekHead (heap : Heap) (list : UInt64) : Option (Option UInt64) :=
  let head := (heap.node list).next
  let tail := (heap.node list).prev
  if head = ptrRel list list then if tail = ptrRel list list then some none else none
  else if ¬ tail ≠ ptrRel list list then none
  else if ¬ (heap.node (ptrFix list head)).prev = ptrRel list list then none
  else some (some (ptrFix list head - heap.offset list))

/-- `sxe_list_peek_tail` -/
def peekTail (heap : Heap) (list : UInt64) : Option (Option UInt64) :=
  let head := (heap.node list).next
  let tail := (heap.node list).prev
  if tail = ptrRel list list then if head = ptrRel list list then some none else none
  else if ¬ head ≠ ptrRel list list then none
  else if ¬ (heap.node (ptrFix list tail)).next = ptrRel list list then none
  else some (some (ptrFix list tail - heap.offset list))

/-! ## Walkers -/

/-- `SXE_LIST_WALKER` -/
structure Walker where
  list : UInt64
  back : UInt64
  node : UInt64

/-- `sxe_list_walker_construct` -/
def walkerConstruct (list : UInt64) : Walker := ⟨list, list, list⟩

/-- `sxe_list_walker_back` -/
def walkerBack (heap : Heap) (walker : Walker) : Option UInt64 × Walker :=
  if walker.back ≠ walker.list then
    (some (walker.back - heap.offset walker.list), { walker with node := walker.back, back := walker.list })
  else (none, walker)

/-- `sxe_list_walker_find` -/
def walkerFind (heap : Heap) (walker : Walker) : Option UInt64 :=
  if walker.node ≠ walker.list then some (walker.node - heap.offset walker.list) else none

/-- `sxe_list_walker_step` -/
def walkerStep (heap : Heap) (walker : Walker) : Option UInt64 × Walker :=
  let node := ptrFix walker.list (heap.node walker.node).next
  (if node ≠ walker.list then some (node - heap.offset walker.list) else none,
    { walker with back := walker.node, node := node })

end SxeList
end LibKit
