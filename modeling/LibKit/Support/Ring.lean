import LibKit.Support.Linked

namespace LibKit

/-!
# Rings

A ring is a chain of nodes between a sentinel and itself.  The sentinel has a
successor and a predecessor too, so that no node is first or last.
-/

/-- The nodes follow each other in a ring through the sentinel. -/
structure Ring {Node : Type} (next last : Node → Node) (sentinel : Node) (nodes : List Node) : Prop where
  linked : Linked next last sentinel nodes sentinel
  first : next sentinel = nodes.head?.getD sentinel
  final : last sentinel = nodes.getLast?.getD sentinel
  nodup : (sentinel :: nodes).Nodup

namespace Ring

variable {Node : Type} {next last next' last' : Node → Node} {sentinel : Node} {nodes left right : List Node}
    {node : Node}

theorem congr (ring : Ring next last sentinel nodes) (nexts : ∀ node ∈ sentinel :: nodes, next' node = next node)
    (lasts : ∀ node ∈ sentinel :: nodes, last' node = last node) : Ring next' last' sentinel nodes := by
  refine ⟨ring.linked.congr ?_ ?_, ?_, ?_, ring.nodup⟩
  · exact fun node member => nexts node (List.mem_cons_of_mem _ member)
  · exact fun node member => lasts node (List.mem_cons_of_mem _ member)
  · exact (nexts sentinel List.mem_cons_self).trans ring.first
  · exact (lasts sentinel List.mem_cons_self).trans ring.final

/-- The same ring in the other direction. -/
theorem reverse (ring : Ring next last sentinel nodes) : Ring last next sentinel nodes.reverse := by
  have chain : ∀ (nodes : List Node) (before after : Node), Linked next last before nodes after →
      Linked last next after nodes.reverse before := by
    intro nodes
    induction nodes with
    | nil => exact fun _ _ _ => trivial
    | cons node nodes ih =>
        rintro before after ⟨isLast, isNext, rest⟩
        rw [List.reverse_cons]
        refine Linked.append.mpr ⟨ih node after rest, ?_, isLast, trivial⟩
        rw [List.getLast?_reverse]
        exact isNext
  refine ⟨chain nodes _ _ ring.linked, ?_, ?_, ?_⟩
  · rw [List.head?_reverse]
    exact ring.final
  · rw [List.getLast?_reverse]
    exact ring.first
  · rcases List.nodup_cons.mp ring.nodup with ⟨fresh, distinct⟩
    exact List.nodup_cons.mpr ⟨fun member => fresh (List.mem_reverse.mp member), List.nodup_reverse.mpr distinct⟩

theorem map {Other : Type} {image : Node → Other} {next' last' : Other → Other} (ring : Ring next last sentinel nodes)
    (injective : Function.Injective image) (nexts : ∀ node ∈ sentinel :: nodes, next' (image node) = image (next node))
    (lasts : ∀ node ∈ sentinel :: nodes, last' (image node) = image (last node)) :
    Ring next' last' (image sentinel) (nodes.map image) := by
  have chain : ∀ (nodes : List Node) (before after : Node), Linked next last before nodes after →
      (∀ node ∈ nodes, next' (image node) = image (next node)) →
      (∀ node ∈ nodes, last' (image node) = image (last node)) →
      Linked next' last' (image before) (nodes.map image) (image after) := by
    intro nodes
    induction nodes with
    | nil => exact fun _ _ _ _ _ => trivial
    | cons node nodes ih =>
        rintro before after ⟨isLast, isNext, rest⟩ nexts lasts
        refine ⟨?_, ?_, ih node after rest ?_ ?_⟩
        · rw [lasts node List.mem_cons_self, isLast]
        · rw [nexts node List.mem_cons_self, isNext, List.head?_map, Option.getD_map]
        · exact fun other member => nexts other (List.mem_cons_of_mem _ member)
        · exact fun other member => lasts other (List.mem_cons_of_mem _ member)
  refine ⟨chain nodes _ _ ring.linked ?_ ?_, ?_, ?_, ?_⟩
  · exact fun node member => nexts node (List.mem_cons_of_mem _ member)
  · exact fun node member => lasts node (List.mem_cons_of_mem _ member)
  · rw [nexts sentinel List.mem_cons_self, ring.first, List.head?_map, Option.getD_map]
  · rw [lasts sentinel List.mem_cons_self, ring.final, List.getLast?_map, Option.getD_map]
  · exact ring.nodup.map injective

theorem neighbours (ring : Ring next last sentinel (left ++ node :: right)) :
    last node = left.getLast?.getD sentinel ∧ next node = right.head?.getD sentinel :=
  Linked.neighbours ring.linked

theorem next_last (ring : Ring next last sentinel (left ++ node :: right)) : next (last node) = node := by
  rw [ring.neighbours.1]
  rcases List.eq_nil_or_concat left with rfl | ⟨others, previous, rfl⟩
  · exact ring.first
  · rw [List.concat_eq_append, List.append_assoc] at ring
    rw [List.concat_eq_append, List.getLast?_concat]
    exact ring.neighbours.2

theorem last_next (ring : Ring next last sentinel (left ++ node :: right)) : last (next node) = node := by
  have turned := ring.reverse
  rw [List.reverse_append, List.reverse_cons, List.append_assoc] at turned
  exact turned.next_last

theorem mem_of_getLast (nodes : List Node) (sentinel : Node) : nodes.getLast?.getD sentinel ∈ sentinel :: nodes := by
  cases last : nodes.getLast? with
  | none => exact List.mem_cons_self
  | some node => exact List.mem_cons_of_mem _ (List.mem_of_getLast? last)

theorem mem_of_head (nodes : List Node) (sentinel : Node) : nodes.head?.getD sentinel ∈ sentinel :: nodes := by
  cases nodes with
  | nil => exact List.mem_cons_self
  | cons node nodes => exact List.mem_cons_of_mem _ List.mem_cons_self

variable [DecidableEq Node]

omit [DecidableEq Node] in
/-- For a node other than the sentinel, being the last of some nodes does not
depend on the sentinel. -/
theorem getLast_iff {other : Node} (different : other ≠ sentinel) :
    other = nodes.getLast?.getD sentinel ↔ nodes.getLast? = some other := by
  cases nodes.getLast? with
  | none => exact ⟨fun same => absurd same different, nofun⟩
  | some node => simp [eq_comm]

omit [DecidableEq Node] in
theorem head_iff {other : Node} (different : other ≠ sentinel) :
    other = nodes.head?.getD sentinel ↔ nodes.head? = some other := by
  cases nodes.head? with
  | none => exact ⟨fun same => absurd same different, nofun⟩
  | some node => simp [eq_comm]

theorem head_split (outside : sentinel ∉ left) (part other : List Node) :
    (if sentinel = left.getLast?.getD sentinel then part.head?.getD sentinel
      else (left ++ other).head?.getD sentinel) = (left ++ part).head?.getD sentinel := by
  cases left with
  | nil => exact if_pos rfl
  | cons start left =>
      rw [if_neg]
      · rfl
      · intro same
        refine outside ?_
        rw [same, List.getLast?_eq_getLast_of_ne_nil (List.cons_ne_nil start left)]
        exact List.getLast_mem _

theorem last_split (outside : sentinel ∉ right) (part other : List Node) :
    (if sentinel = right.head?.getD sentinel then part.getLast?.getD sentinel
      else (other ++ right).getLast?.getD sentinel) = (part ++ right).getLast?.getD sentinel := by
  cases right with
  | nil =>
      rw [List.append_nil, List.append_nil]
      exact if_pos rfl
  | cons start right =>
      rw [if_neg]
      · simp [List.getLast?_append, List.getLast?_cons]
      · intro same
        exact outside (same ▸ List.mem_cons_self)

theorem insert (ring : Ring next last sentinel (left ++ right)) (fresh : node ∉ sentinel :: (left ++ right))
    (nexts : ∀ other, next' other = if other = node then right.head?.getD sentinel
      else if other = left.getLast?.getD sentinel then node else next other)
    (lasts : ∀ other, last' other = if other = node then left.getLast?.getD sentinel
      else if other = right.head?.getD sentinel then node else last other) :
    Ring next' last' sentinel (left ++ node :: right) := by
  rcases List.nodup_cons.mp ring.nodup with ⟨outside, distinct⟩
  have notNode : ∀ other ∈ sentinel :: (left ++ right), other ≠ node := fun other member same => fresh (same ▸ member)
  have notSentinel : ∀ other ∈ left ++ right, other ≠ sentinel := fun other member same => outside (same ▸ member)
  refine ⟨ring.linked.insert distinct ?_ ?_ ?_ ?_, ?_, ?_, ?_⟩
  · rw [lasts, if_pos rfl]
  · rw [nexts, if_pos rfl]
  · intro other member
    rw [nexts, if_neg (notNode other (List.mem_cons_of_mem _ member))]
    simp only [getLast_iff (notSentinel other member)]
  · intro other member
    rw [lasts, if_neg (notNode other (List.mem_cons_of_mem _ member))]
    simp only [head_iff (notSentinel other member)]
  · rw [nexts, if_neg (notNode sentinel List.mem_cons_self), ring.first]
    exact head_split (fun member => outside (List.mem_append_left _ member)) (node :: right) right
  · rw [lasts, if_neg (notNode sentinel List.mem_cons_self), ring.final]
    have split := last_split (fun member => outside (List.mem_append_right _ member)) (left ++ [node]) left
    rwa [List.getLast?_concat, Option.getD_some, List.append_assoc, List.singleton_append] at split
  · rw [List.mem_cons, not_or] at fresh
    refine List.nodup_cons.mpr ⟨?_, ?_⟩
    · intro member
      rcases List.mem_append.mp member with inLeft | inRight
      · exact outside (List.mem_append_left _ inLeft)
      · rcases List.mem_cons.mp inRight with same | later
        · exact fresh.1 same.symm
        · exact outside (List.mem_append_right _ later)
    · exact List.nodup_middle.mpr (List.nodup_cons.mpr ⟨fresh.2, distinct⟩)

theorem remove (ring : Ring next last sentinel (left ++ node :: right))
    (nexts : ∀ other, other ≠ node → next' other =
      if other = left.getLast?.getD sentinel then right.head?.getD sentinel else next other)
    (lasts : ∀ other, other ≠ node → last' other =
      if other = right.head?.getD sentinel then left.getLast?.getD sentinel else last other) :
    Ring next' last' sentinel (left ++ right) := by
  rcases List.nodup_cons.mp ring.nodup with ⟨outside, distinct⟩
  rcases List.nodup_cons.mp (List.nodup_middle.mp distinct) with ⟨absent, others⟩
  have notNode : ∀ other ∈ left ++ right, other ≠ node := fun other member same => absent (same ▸ member)
  have inside : ∀ other ∈ left ++ right, other ∈ left ++ node :: right := by
    intro other member
    rcases List.mem_append.mp member with inLeft | inRight
    · exact List.mem_append_left _ inLeft
    · exact List.mem_append_right _ (List.mem_cons_of_mem _ inRight)
  have notSentinel : ∀ other ∈ left ++ right, other ≠ sentinel :=
    fun other member same => outside (same ▸ inside other member)
  have apart : sentinel ≠ node :=
    fun same => outside (same ▸ List.mem_append_right _ List.mem_cons_self)
  refine ⟨ring.linked.remove distinct ?_ ?_, ?_, ?_, ?_⟩
  · intro other member
    rw [nexts other (notNode other member)]
    simp only [getLast_iff (notSentinel other member)]
  · intro other member
    rw [lasts other (notNode other member)]
    simp only [head_iff (notSentinel other member)]
  · rw [nexts sentinel apart, ring.first]
    exact head_split (fun member => outside (List.mem_append_left _ member)) right (node :: right)
  · rw [lasts sentinel apart, ring.final]
    have split := last_split
      (fun member => outside (List.mem_append_right _ (List.mem_cons_of_mem _ member))) left (left ++ [node])
    rwa [List.append_assoc, List.singleton_append] at split
  · exact List.nodup_cons.mpr ⟨fun member => outside (inside _ member), others⟩

end Ring

end LibKit
