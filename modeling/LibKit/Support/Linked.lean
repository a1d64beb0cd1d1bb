import Mathlib

namespace LibKit

/-!
# Doubly linked chains

A chain lives in two tables of successors and predecessors.  The predicate
`Linked` says that a list of nodes is the segment of a chain between a node
before and a node after it; inserting and removing a node are described by
what the tables hold afterwards, whatever assignments led there.
-/

/-- The nodes are chained in this order, after `before` and up to `after`. -/
def Linked {Node : Type} (next last : Node → Node) : Node → List Node → Node → Prop
  | _, [], _ => True
  | before, node :: nodes, after =>
      last node = before ∧ next node = nodes.head?.getD after ∧ Linked next last node nodes after

namespace Linked

variable {Node : Type} {next last next' last' : Node → Node} {before after : Node} {nodes : List Node}

theorem congr (linked : Linked next last before nodes after)
    (nexts : ∀ node ∈ nodes, next' node = next node) (lasts : ∀ node ∈ nodes, last' node = last node) :
    Linked next' last' before nodes after := by
  induction nodes generalizing before with
  | nil => trivial
  | cons node nodes ih =>
      rcases linked with ⟨first, second, rest⟩
      refine ⟨(lasts node List.mem_cons_self).trans first, (nexts node List.mem_cons_self).trans second, ?_⟩
      exact ih rest (fun other member => nexts other (List.mem_cons_of_mem _ member))
        (fun other member => lasts other (List.mem_cons_of_mem _ member))

theorem append {left right : List Node} :
    Linked next last before (left ++ right) after ↔
      Linked next last before left (right.head?.getD after) ∧
        Linked next last (left.getLast?.getD before) right after := by
  induction left generalizing before with
  | nil => simp [Linked]
  | cons node left ih =>
      simp only [List.cons_append, Linked]
      rw [ih]
      have heads : (left ++ right).head?.getD after = left.head?.getD (right.head?.getD after) := by
        cases left <;> rfl
      have ends : (node :: left).getLast?.getD before = left.getLast?.getD node := by
        cases left with
        | nil => rfl
        | cons second left => simp [List.getLast?_cons]
      rw [heads, ends]
      tauto

section

variable [DecidableEq Node]

/-- Give a segment another successor. -/
theorem set_after (linked : Linked next last before nodes after) (nodup : nodes.Nodup) {other : Node}
    (nexts : ∀ node ∈ nodes, next' node = if nodes.getLast? = some node then other else next node)
    (lasts : ∀ node ∈ nodes, last' node = last node) : Linked next' last' before nodes other := by
  induction nodes generalizing before with
  | nil => trivial
  | cons node nodes ih =>
      rcases linked with ⟨first, second, rest⟩
      rcases List.nodup_cons.mp nodup with ⟨fresh, nodup⟩
      refine ⟨(lasts node List.mem_cons_self).trans first, ?_, ?_⟩
      · rw [nexts node List.mem_cons_self]
        cases nodes with
        | nil => simp
        | cons head nodes =>
            have differ : (node :: head :: nodes).getLast? ≠ some node := by
              rw [List.getLast?_cons_cons]
              intro same
              exact fresh (List.mem_of_getLast? same)
            rw [if_neg differ, second]
            rfl
      · apply ih rest nodup
        · intro other member
          rw [nexts other (List.mem_cons_of_mem _ member)]
          cases nodes with
          | nil => cases member
          | cons head nodes => rw [List.getLast?_cons_cons]
        · intro other member
          exact lasts other (List.mem_cons_of_mem _ member)

theorem set_before (linked : Linked next last before nodes after) (nodup : nodes.Nodup) {other : Node}
    (nexts : ∀ node ∈ nodes, next' node = next node)
    (lasts : ∀ node ∈ nodes, last' node = if nodes.head? = some node then other else last node) :
    Linked next' last' other nodes after := by
  cases nodes with
  | nil => trivial
  | cons node nodes =>
      rcases linked with ⟨_, second, rest⟩
      have fresh := (List.nodup_cons.mp nodup).1
      refine ⟨by simpa using lasts node List.mem_cons_self,
        (nexts node List.mem_cons_self).trans second, ?_⟩
      apply rest.congr
      · intro other member
        exact nexts other (List.mem_cons_of_mem _ member)
      · intro other member
        rw [lasts other (List.mem_cons_of_mem _ member), if_neg]
        intro same
        have equal : node = other := by simpa using same
        exact fresh (equal ▸ member)

theorem insert {left right : List Node} (linked : Linked next last before (left ++ right) after)
    (nodup : (left ++ right).Nodup) {node : Node} (nodeLast : last' node = left.getLast?.getD before)
    (nodeNext : next' node = right.head?.getD after)
    (nexts : ∀ other ∈ left ++ right, next' other = if left.getLast? = some other then node else next other)
    (lasts : ∀ other ∈ left ++ right, last' other = if right.head? = some other then node else last other) :
    Linked next' last' before (left ++ node :: right) after := by
  rcases append.mp linked with ⟨front, back⟩
  rcases List.nodup_append.mp nodup with ⟨leftNodup, rightNodup, disjoint⟩
  refine append.mpr ⟨?_, nodeLast, nodeNext, ?_⟩
  · apply front.set_after leftNodup
    · intro other member
      exact nexts other (List.mem_append_left _ member)
    · intro other member
      rw [lasts other (List.mem_append_left _ member), if_neg]
      intro same
      exact disjoint other member other (List.mem_of_mem_head? same) rfl
  · apply back.set_before rightNodup
    · intro other member
      rw [nexts other (List.mem_append_right _ member), if_neg]
      intro same
      exact disjoint other (List.mem_of_getLast? same) other member rfl
    · intro other member
      exact lasts other (List.mem_append_right _ member)

theorem remove {left right : List Node} {node : Node}
    (linked : Linked next last before (left ++ node :: right) after)
    (nodup : (left ++ node :: right).Nodup)
    (nexts : ∀ other ∈ left ++ right,
      next' other = if left.getLast? = some other then right.head?.getD after else next other)
    (lasts : ∀ other ∈ left ++ right,
      last' other = if right.head? = some other then left.getLast?.getD before else last other) :
    Linked next' last' before (left ++ right) after := by
  rcases append.mp linked with ⟨front, _, _, back⟩
  rcases List.nodup_append.mp nodup with ⟨leftNodup, rest, disjoint⟩
  have rightNodup := (List.nodup_cons.mp rest).2
  refine append.mpr ⟨?_, ?_⟩
  · apply front.set_after leftNodup
    · intro other member
      exact nexts other (List.mem_append_left _ member)
    · intro other member
      rw [lasts other (List.mem_append_left _ member), if_neg]
      intro same
      exact disjoint other member other (List.mem_cons_of_mem _ (List.mem_of_mem_head? same)) rfl
  · apply back.set_before rightNodup
    · intro other member
      rw [nexts other (List.mem_append_right _ member), if_neg]
      intro same
      exact disjoint other (List.mem_of_getLast? same) other (List.mem_cons_of_mem _ member) rfl
    · intro other member
      exact lasts other (List.mem_append_right _ member)

end

theorem neighbours {left right : List Node} {node : Node}
    (linked : Linked next last before (left ++ node :: right) after) :
    last node = left.getLast?.getD before ∧ next node = right.head?.getD after := by
  rcases append.mp linked with ⟨_, first, second, _⟩
  exact ⟨first, second⟩

end Linked

/-- The nodes met on the way along the successors, up to a null pointer. -/
inductive Walk (next : Nat → Nat) (first : Nat) : Nat → Prop where
  | first : first ≠ 0 → Walk next first first
  | next {node : Nat} : Walk next first node → next node ≠ 0 → Walk next first (next node)

/-- A walk along a chain meets the nodes of the chain. -/
theorem Linked.walk_iff {next last : Nat → Nat} {nodes : List Nat} (linked : Linked next last 0 nodes 0)
    (positive : 0 ∉ nodes) {first : Nat} (head : first = nodes.head?.getD 0) (node : Nat) :
    Walk next first node ↔ node ∈ nodes := by
  constructor
  · intro walk
    induction walk with
    | first nonzero =>
        cases nodes with
        | nil => exact absurd head nonzero
        | cons start nodes =>
            rw [head]
            exact List.mem_cons_self
    | @next node _ nonzero member =>
        rcases List.append_of_mem member with ⟨left, right, form⟩
        subst form
        have successor := (Linked.neighbours linked).2
        cases right with
        | nil => exact absurd successor nonzero
        | cons second right =>
            have isSecond : next node = second := successor
            rw [isSecond]
            exact List.mem_append_right _ (List.mem_cons_of_mem _ List.mem_cons_self)
  · have from_head : ∀ (rest : List Nat) (before : Nat), Linked next last before rest 0 → 0 ∉ rest →
        (∀ start, rest.head? = some start → Walk next first start) → ∀ node ∈ rest, Walk next first node := by
      intro rest
      induction rest with
      | nil =>
          intro before _ _ _ node member
          cases member
      | cons start rest ih =>
          intro before segment nonzero begun node member
          rcases segment with ⟨_, successor, tail⟩
          rw [List.mem_cons, not_or] at nonzero
          have here := begun start rfl
          rcases List.mem_cons.mp member with now | later
          · rw [now]
            exact here
          · apply ih start tail nonzero.2 _ node later
            intro second isHead
            rw [isHead] at successor
            have equal : next start = second := successor
            have notZero : second ≠ 0 := fun zero => nonzero.2 (zero ▸ List.mem_of_mem_head? isHead)
            exact equal ▸ Walk.next here (equal ▸ notZero)
    apply from_head nodes 0 linked positive
    intro start isHead
    have firstIs : first = start := by rw [head, isHead]; rfl
    have notZero : start ≠ 0 := fun zero => positive (zero ▸ List.mem_of_mem_head? isHead)
    exact firstIs ▸ Walk.first (firstIs ▸ notZero)

/-- A singly linked list of free nodes: as many as are counted, whatever the
last one points to. -/
def Threaded (next : Nat → Nat) : Nat → List Nat → Prop
  | _, [] => True
  | start, node :: nodes => start = node ∧ Threaded next (next node) nodes

theorem Threaded.congr {next next' : Nat → Nat} {start : Nat} {nodes : List Nat}
    (threaded : Threaded next start nodes) (nexts : ∀ node ∈ nodes, next' node = next node) :
    Threaded next' start nodes := by
  induction nodes generalizing start with
  | nil => trivial
  | cons node nodes ih =>
      rcases threaded with ⟨first, rest⟩
      refine ⟨first, ?_⟩
      rw [nexts node List.mem_cons_self]
      exact ih rest (fun other member => nexts other (List.mem_cons_of_mem _ member))

end LibKit
