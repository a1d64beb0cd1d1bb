import LibKit.Jitson.Gathering

namespace LibKit
namespace Jitson

open KitSortedArray (Address)

/-!
# `INTERSECT` as set intersection

The elements of the result are the common elements of the operands on every
path but one: of two ordered arrays whose elements have different uniform sizes
nothing is compared.
-/

/-! ## Filling the array -/

/-- A stack on which an array of scalars is being constructed. -/
def Gathers (base : List Token) (borrow : Nat) (scalars : List Scalar) (stack : Stack) : Prop :=
  ∃ frame maximum last, 0 < maximum ∧ stack = Frame.stack frame maximum last borrow ∧ frame.base = base ∧
    Gathering frame scalars

/-- The stack can take that many elements of an array above a base. -/
def Room (base : List Token) (elements : Nat) : Prop := base.length + 1 + elements ≤ 2 ^ 32 - 4096

section

variable {env : Env} {base : List Token} {borrow : Nat} {scalars : List Scalar} {stack : Stack}

theorem Gathers.add (gathers : Gathers base borrow scalars stack) (roomy : env.Roomy)
    (room : Room base (scalars.length + 1)) {scalar : Scalar} {element : Pointer} (stored : Stored scalar element) :
    ∃ after, jitsonStackAdd env stack element = .ok after ∧ Gathers base borrow (scalars ++ [scalar]) after := by
  rcases gathers with ⟨frame, maximum, last, positive, rfl, rfl, gathering⟩
  have fits : frame.Fits 1 := by
    rw [Frame.Fits, gathering.tokens]
    exact room
  rcases @Gathering.add _ _ _ _ last borrow gathering roomy positive fits _ _ stored with
    ⟨after, maximum', last', positive', added, sameBase, gathered⟩
  exact ⟨_, added, after, maximum', last', positive', rfl, sameBase, gathered⟩

def pairs (left right : List Scalar) : Nat := (left.map fun scalar => right.count scalar).sum

/-- Common elements of two lists, all of them and no more of them than there
are pairs. -/
structure Common (left right added : List Scalar) : Prop where
  short : added.length ≤ pairs left right
  mem_iff : ∀ scalar, scalar ∈ added ↔ scalar ∈ left ∧ scalar ∈ right

@[simp] theorem pairs_nil (right : List Scalar) : pairs [] right = 0 := rfl

@[simp] theorem pairs_cons (scalar : Scalar) (left right : List Scalar) :
    pairs (scalar :: left) right = right.count scalar + pairs left right := rfl

theorem pairs_cons_right (scalar : Scalar) (left right : List Scalar) :
    pairs left (scalar :: right) = left.count scalar + pairs left right := by
  induction left with
  | nil => rfl
  | cons first left ih =>
      rw [pairs_cons, pairs_cons, ih, List.count_cons, List.count_cons]
      have symmetric : (scalar == first) = (first == scalar) := by
        rw [Bool.eq_iff_iff, beq_iff_eq, beq_iff_eq]
        exact eq_comm
      rw [symmetric]
      omega

theorem pairs_comm (left right : List Scalar) : pairs left right = pairs right left := by
  induction left with
  | nil =>
      induction right with
      | nil => rfl
      | cons scalar right ih => simpa using ih
  | cons scalar left ih => rw [pairs_cons, pairs_cons_right, ih]

theorem Common.nil (right : List Scalar) : Common [] right [] :=
  ⟨Nat.le_refl 0, fun scalar => by simp⟩

/-- Common elements that are taken from the left in their order. -/
theorem pairs_sublist {left right added : List Scalar} (sub : added.Sublist left)
    (common : ∀ scalar ∈ added, scalar ∈ right) : added.length ≤ pairs left right := by
  induction sub with
  | slnil => exact Nat.le_refl 0
  | cons scalar _ ih =>
      rw [pairs_cons]
      exact Nat.le_add_left_of_le (ih common)
  | @cons_cons first second scalar _ ih =>
      have here := List.count_pos_iff.mpr (common scalar List.mem_cons_self)
      have rest := ih fun other member => common other (List.mem_cons_of_mem _ member)
      rw [pairs_cons, List.length_cons]
      omega

/-! ### Ordered arrays -/

theorem filterMap_range' (before scalars : List Scalar) :
    (List.range' before.length scalars.length).filterMap (fun i => (before ++ scalars)[i]?) = scalars := by
  induction scalars generalizing before with
  | nil => rfl
  | cons scalar scalars ih =>
      have rest := ih (before ++ [scalar])
      rw [List.length_append, List.length_singleton, List.append_assoc, List.singleton_append] at rest
      rw [List.length_cons, List.range'_succ, List.filterMap_cons_some (b := scalar) (by simp), rest]

variable {left right : List Scalar} {arrayLeft arrayRight : Pointer}

def visitedScalars (left : List Scalar) (visited : List Nat) : List Scalar :=
  visited.filterMap fun i => left[i]?

theorem visits_common {visited : List Nat}
    (visits : KitSortedArray.Visits (rankAt left) (rankAt right) 0 left.length 0 right.length visited) :
    Common left right (visitedScalars left visited) := by
  have sound : ∀ scalar ∈ visitedScalars left visited, scalar ∈ left ∧ scalar ∈ right := by
    intro scalar member
    rcases List.mem_filterMap.mp member with ⟨i, inVisited, found⟩
    rcases visits.sound i inVisited with ⟨_, _, j, _, inside, same⟩
    rw [rankAt_eq found, Nat.zero_add] at *
    exact ⟨List.mem_of_getElem? found, (exists_rankAt_iff scalar).mp ⟨j, inside, same⟩⟩
  refine ⟨?_, ?_⟩
  · apply pairs_sublist
    · have all : (List.range' 0 left.length).filterMap (fun i => left[i]?) = left := filterMap_range' [] left
      have sub := visits.inOrder.filterMap fun i => left[i]?
      rw [all] at sub
      exact sub
    · exact fun scalar member => (sound scalar member).2
  · intro scalar
    refine ⟨sound scalar, ?_⟩
    rintro ⟨inLeft, inRight⟩
    rcases List.getElem?_of_mem inLeft with ⟨i, found⟩
    rcases (exists_rankAt_iff scalar).mpr inRight with ⟨j, inside, same⟩
    have bound := (List.getElem?_eq_some_iff.mp found).1
    rcases visits.complete i (Nat.zero_le i) (by omega) ⟨j, Nat.zero_le j, by omega, same.trans (rankAt_eq found).symm⟩
      with ⟨other, visitedOther, sameRank⟩
    rcases visits.sound other visitedOther with ⟨_, otherIn, _⟩
    rw [Nat.zero_add] at otherIn
    have foundOther := List.getElem?_eq_getElem otherIn
    rw [rankAt_eq foundOther, rankAt_eq found] at sameRank
    exact List.mem_filterMap.mpr ⟨other, visitedOther, by rw [foundOther, Scalar.rank_injective sameRank]⟩

theorem Gathers.visitAll {Key Elem : Type} [KitSortedArray.Pointer Key] (gathers : Gathers base borrow scalars stack)
    (roomy : env.Roomy)
    {cls : KitSortedArray.ArrayClass Key Elem Stack} {keys : Key} (laid : Laid left arrayLeft)
    (visit : ∀ i, i < left.length → ∀ stack, cls.visit stack (KitSortedArray.elemAt cls keys i) =
      (jitsonStackAdd env stack (elementAt arrayLeft i)).toOption)
    (visited : List Nat) (inside : ∀ i ∈ visited, i < left.length)
    (room : Room base (scalars.length + (visitedScalars left visited).length)) :
    ∃ after, KitSortedArray.visitAll cls keys visited stack = some after ∧
      Gathers base borrow (scalars ++ visitedScalars left visited) after := by
  induction visited generalizing scalars stack with
  | nil => exact ⟨stack, rfl, by simpa [visitedScalars] using gathers⟩
  | cons i visited ih =>
      have bound := inside i List.mem_cons_self
      have found := List.getElem?_eq_getElem bound
      have split : visitedScalars left (i :: visited) = left[i] :: visitedScalars left visited :=
        List.filterMap_cons_some found
      rw [split, List.length_cons] at room
      rcases gathers.add roomy (by rw [Room] at room ⊢; omega) (laid.stored i _ found) with ⟨next, added, gathered⟩
      rcases ih gathered (fun other member => inside other (List.mem_cons_of_mem _ member))
        (by rw [List.length_append, List.length_singleton]; rw [Room] at room ⊢; omega) with ⟨after, rest, filled⟩
      refine ⟨after, ?_, ?_⟩
      · rw [KitSortedArray.visitAll, List.foldlM_cons, visit i bound, added]
        exact rest
      · rw [split]
        simpa using filled

/-- The elements of both arrays are of one kind. -/
def Comparable (left right : List Scalar) : Prop := ∀ first ∈ left, ∀ second ∈ right, first.kind = second.kind

theorem Laid.agrees_laid (laidLeft : Laid left arrayLeft) (laidRight : Laid right arrayRight)
    (comparable : Comparable left right) {i j : Nat} (insideLeft : i < left.length) (insideRight : j < right.length) :
    KitSortedArray.Agrees (cmp env.ops (elementAt arrayLeft i) (elementAt arrayRight j)) (rankAt left i)
      (rankAt right j) := by
  have found := List.getElem?_eq_getElem insideLeft
  rw [rankAt_eq found]
  exact laidRight.agrees env (laidLeft.stored i _ found)
    (fun other member => (comparable _ (List.getElem_mem insideLeft) other member).symm) insideRight

/-- Two sorted arrays whose class reaches their elements are intersected. -/
theorem Gathers.intersect {Key Elem : Type} [KitSortedArray.Pointer Key] [KitSortedArray.Pointer Elem]
    (gathers : Gathers base borrow [] stack) (roomy : env.Roomy)
    {cls : KitSortedArray.ArrayClass Key Elem Stack} {keys : Key} {elems : Elem}
    (laidLeft : Laid left arrayLeft) (laidRight : Laid right arrayRight)
    (orderedLeft : (typeOf arrayLeft).isOrd = true) (orderedRight : (typeOf arrayRight).isOrd = true)
    (comparable : Comparable left right) (room : Room base (pairs left right)) (keyoffset : cls.keyoffset = 0)
    (compares : ∀ i j, i < left.length → j < right.length →
      cls.cmp (KitSortedArray.elemAt cls keys i) (KitSortedArray.elemAt cls elems j) =
        cmp env.ops (elementAt arrayLeft i) (elementAt arrayRight j))
    (visit : ∀ i, i < left.length → ∀ stack, cls.visit stack (KitSortedArray.elemAt cls keys i) =
      (jitsonStackAdd env stack (elementAt arrayLeft i)).toOption) :
    ∃ after added, orInvalid (KitSortedArray.intersect cls left.length stack keys left.length elems right.length) =
      .ok after ∧ Gathers base borrow added after ∧ Common left right added := by
  have arrays : KitSortedArray.Sorted cls keys elems (rankAt left) (rankAt right) left.length right.length := by
    refine ⟨keyoffset, nonDecreasing_rankAt (laidLeft.ordered orderedLeft),
      nonDecreasing_rankAt (laidRight.ordered orderedRight), ?_⟩
    intro i j insideLeft insideRight
    rw [compares i j insideLeft insideRight]
    exact laidLeft.agrees_laid laidRight comparable insideLeft insideRight
  rcases arrays.intersect with ⟨visited, same, visits⟩
  have common := visits_common visits
  have short := common.short
  rcases gathers.visitAll roomy laidLeft visit visited (fun i member => by simpa using (visits.sound i member).2.1)
    (by rw [Room] at room ⊢; rw [List.length_nil]; omega) with ⟨after, filled, gathered⟩
  refine ⟨after, _, ?_, gathered, common⟩
  rw [same, filled]
  rfl

theorem Gathers.intersectUniform (gathers : Gathers base borrow [] stack) (roomy : env.Roomy)
    (laidLeft : Laid left arrayLeft) (laidRight : Laid right arrayRight)
    (orderedLeft : (typeOf arrayLeft).isOrd = true) (orderedRight : (typeOf arrayRight).isOrd = true)
    (uniformLeft : (typeOf arrayLeft).isUnif = true) (uniformRight : (typeOf arrayRight).isUnif = true)
    (sizes : uniformSize arrayLeft = uniformSize arrayRight)
    (comparable : Comparable left right) (room : Room base (pairs left right)) :
    ∃ after added, Jitson.intersectUniform env arrayLeft arrayRight stack = .ok after ∧
      Gathers base borrow added after ∧ Common left right added := by
  have reach : ∀ {scalars : List Scalar} {array : Pointer}, Laid scalars array → (typeOf array).isUnif = true →
      uniformSize array = uniformSize arrayLeft → ∀ i, i < scalars.length →
      (KitSortedArray.elemAt (uniformIntersectClass env (uniformSize arrayLeft)) (⟨array.drop 1, 0⟩ : Address Token)
        i).tokens 16 = elementAt array i := by
    intro scalars array laid uniform size i inside
    have element := laid.tokens_uniform uniform inside
    rw [size, Nat.mul_comm] at element
    simpa [KitSortedArray.elemAt, KitSortedArray.Pointer.advance, uniformIntersectClass] using element
  rw [Jitson.intersectUniform, laidLeft.len, laidRight.len]
  apply gathers.intersect roomy laidLeft laidRight orderedLeft orderedRight comparable room rfl
  · intro i j insideLeft insideRight
    have first := reach laidLeft uniformLeft rfl i insideLeft
    have second := reach laidRight uniformRight sizes.symm j insideRight
    exact congrArg₂ (cmp env.ops) first second
  · intro i inside stack
    exact congrArg (fun element => (jitsonStackAdd env stack element).toOption)
      (reach laidLeft uniformLeft rfl i inside)

theorem Gathers.intersectIndexed (gathers : Gathers base borrow [] stack) (roomy : env.Roomy)
    (laidLeft : Laid left arrayLeft) (laidRight : Laid right arrayRight)
    (orderedLeft : (typeOf arrayLeft).isOrd = true) (orderedRight : (typeOf arrayRight).isOrd = true)
    (plainLeft : (typeOf arrayLeft).isUnif = false) (plainRight : (typeOf arrayRight).isUnif = false)
    (comparable : Comparable left right) (room : Room base (pairs left right)) :
    ∃ after added, Jitson.intersectIndexed env arrayLeft arrayRight stack = .ok after ∧
      Gathers base borrow added after ∧ Common left right added := by
  have reach : ∀ {scalars : List Scalar} {array : Pointer}, Laid scalars array → (typeOf array).isUnif = false →
      ∀ i, i < scalars.length → (indexedArray array).drop (((KitSortedArray.elemAt
        (indexedIntersectClass env (indexedArray arrayLeft) (indexedArray arrayRight))
        (⟨indexOf (indexedArray array), 0⟩ : Address Nat) i).tokens 4).headD 0) = elementAt array i := by
    intro scalars array laid plain i inside
    have element := laid.tokens_index plain inside
    rw [Nat.mul_comm] at element
    simpa [KitSortedArray.elemAt, KitSortedArray.Pointer.advance, indexedIntersectClass] using element
  rw [Jitson.intersectIndexed, lenOf_indexedArray laidLeft.kind, lenOf_indexedArray laidRight.kind, laidLeft.len,
    laidRight.len]
  apply gathers.intersect roomy laidLeft laidRight orderedLeft orderedRight comparable room rfl
  · intro i j insideLeft insideRight
    exact congrArg₂ (cmp env.ops) (reach laidLeft plainLeft i insideLeft) (reach laidRight plainRight j insideRight)
  · intro i inside stack
    exact congrArg (fun element => (jitsonStackAdd env stack element).toOption) (reach laidLeft plainLeft i inside)

/-! ### Other arrays -/

/-- Looking up each left element in the right array, from an index on. -/
theorem Gathers.intersectIn (gathers : Gathers base borrow scalars stack) (roomy : env.Roomy)
    (sum : List UInt8 → Nat) (operandLeft : Operand left arrayLeft) (operandRight : Operand right arrayRight)
    (comparable : Comparable left right) (count i : Nat) (rest : i + count = left.length)
    (room : Room base (scalars.length + pairs (left.drop i) right)) :
    ∃ after added, Jitson.intersectIn env sum arrayLeft arrayRight count i stack = .ok after ∧
      Gathers base borrow (scalars ++ added) after ∧ Common (left.drop i) right added := by
  induction count generalizing i scalars stack with
  | zero =>
      rw [List.drop_of_length_le (by omega)]
      exact ⟨stack, [], rfl, by simpa using gathers, Common.nil right⟩
  | succ count ih =>
      have inside : i < left.length := by omega
      rcases operandLeft.element (List.getElem?_eq_getElem inside) with ⟨element, found, stored⟩
      rw [List.drop_eq_getElem_cons inside, pairs_cons] at room
      rw [List.drop_eq_getElem_cons inside]
      simp only [Jitson.intersectIn, found]
      have decides := operandRight.jitsonIn env stored
        (fun other member => (comparable _ (List.getElem_mem inside) other member).symm) sum
      rcases decides with ⟨member, pointer, isIn⟩ | ⟨missing, isIn⟩
      · have positive := List.count_pos_iff.mpr member
        rcases gathers.add roomy (by rw [Room] at room ⊢; omega) stored with ⟨next, added, gathered⟩
        rcases ih gathered (i + 1) (by omega)
          (by rw [List.length_append, List.length_singleton]; rw [Room] at room ⊢; omega) with
          ⟨after, others, filled, gathered, common⟩
        refine ⟨after, left[i] :: others, ?_, by simpa using gathered, ?_, ?_⟩
        · simp only [isIn, added, ok_bind, filled]
        · have short := common.short
          rw [List.length_cons, pairs_cons]
          omega
        · intro scalar
          rw [List.mem_cons, List.mem_cons, common.mem_iff]
          constructor
          · rintro (rfl | ⟨inLeft, inRight⟩)
            · exact ⟨Or.inl rfl, member⟩
            · exact ⟨Or.inr inLeft, inRight⟩
          · rintro ⟨here | inLeft, inRight⟩
            · exact Or.inl here
            · exact Or.inr ⟨inLeft, inRight⟩
      · rcases ih gathers (i + 1) (by omega) (by rw [Room] at room ⊢; omega) with
          ⟨after, others, filled, gathered, common⟩
        refine ⟨after, others, ?_, gathered, ?_, ?_⟩
        · simp only [isIn, filled]
        · exact Nat.le_add_left_of_le common.short
        · intro scalar
          rw [List.mem_cons, common.mem_iff]
          constructor
          · rintro ⟨inLeft, inRight⟩
            exact ⟨Or.inr inLeft, inRight⟩
          · rintro ⟨here | inLeft, inRight⟩
            · exact absurd (here ▸ inRight) missing
            · exact ⟨inLeft, inRight⟩

/-- Adding an element once for each equal one on the right, from an index on. -/
theorem Gathers.addMatches (gathers : Gathers base borrow scalars stack) (roomy : env.Roomy) {scalar : Scalar}
    {element : Pointer} (stored : Stored scalar element) (operandRight : Operand right arrayRight) (count j : Nat)
    (rest : j + count = right.length) (room : Room base (scalars.length + (right.drop j).count scalar)) :
    ∃ after, Jitson.addMatches env element arrayRight count j stack = .ok after ∧
      Gathers base borrow (scalars ++ List.replicate ((right.drop j).count scalar) scalar) after := by
  induction count generalizing j scalars stack with
  | zero =>
      rw [List.drop_of_length_le (by omega)]
      exact ⟨stack, rfl, by simpa using gathers⟩
  | succ count ih =>
      have inside : j < right.length := by omega
      rcases operandRight.element (List.getElem?_eq_getElem inside) with ⟨other, found, storedOther⟩
      rw [List.drop_eq_getElem_cons inside, List.count_cons] at room ⊢
      simp only [Jitson.addMatches, found, stored.eq_eq env.ops storedOther]
      by_cases same : scalar = right[j]
      · have hit : (right[j] == scalar) = true := by simp [same]
        rw [if_pos hit] at room ⊢
        simp only [same, decide_true] at stored ⊢
        rw [same] at room ih
        rcases gathers.add roomy (by rw [Room] at room ⊢; omega) stored with ⟨next, added, gathered⟩
        rcases ih gathered (j + 1) (by omega)
          (by rw [List.length_append, List.length_singleton]; rw [Room] at room ⊢; omega) with
          ⟨after, filled, gathered⟩
        refine ⟨after, ?_, ?_⟩
        · simp only [added, ok_bind, filled]
        · rw [List.replicate_succ]
          simpa using gathered
      · have miss : ¬ (right[j] == scalar) = true := by
          rw [beq_iff_eq]
          exact fun equal => same equal.symm
        rw [if_neg miss] at room ⊢
        simp only [same, decide_false]
        exact ih gathers (j + 1) (by omega) room

/-- Comparing all elements with all elements, from an index on. -/
theorem Gathers.intersectPlain (gathers : Gathers base borrow scalars stack) (roomy : env.Roomy)
    (operandLeft : Operand left arrayLeft) (operandRight : Operand right arrayRight) (count i : Nat)
    (rest : i + count = left.length) (room : Room base (scalars.length + pairs (left.drop i) right)) :
    ∃ after added, Jitson.intersectPlain env arrayLeft arrayRight count i stack = .ok after ∧
      Gathers base borrow (scalars ++ added) after ∧ Common (left.drop i) right added := by
  induction count generalizing i scalars stack with
  | zero =>
      rw [List.drop_of_length_le (by omega)]
      exact ⟨stack, [], rfl, by simpa using gathers, Common.nil right⟩
  | succ count ih =>
      have inside : i < left.length := by omega
      rcases operandLeft.element (List.getElem?_eq_getElem inside) with ⟨element, found, stored⟩
      rw [List.drop_eq_getElem_cons inside, pairs_cons] at room
      rw [List.drop_eq_getElem_cons inside]
      rcases gathers.addMatches roomy stored operandRight right.length 0 (by omega)
        (by rw [List.drop_zero]; rw [Room] at room ⊢; omega) with ⟨next, matched, gathered⟩
      rw [List.drop_zero] at gathered
      rcases ih gathered (i + 1) (by omega)
        (by rw [List.length_append, List.length_replicate]; rw [Room] at room ⊢; omega) with
        ⟨after, others, filled, gathered, common⟩
      refine ⟨after, List.replicate (right.count left[i]) left[i] ++ others, ?_, by simpa using gathered, ?_, ?_⟩
      · simp only [Jitson.intersectPlain, found, operandRight.len_eq, matched, ok_bind, filled]
      · have short := common.short
        rw [List.length_append, List.length_replicate, pairs_cons]
        omega
      · intro scalar
        rw [List.mem_append, List.mem_replicate, List.mem_cons, common.mem_iff]
        constructor
        · rintro (⟨some, rfl⟩ | ⟨inLeft, inRight⟩)
          · exact ⟨Or.inl rfl, List.count_pos_iff.mp (Nat.pos_of_ne_zero some)⟩
          · exact ⟨Or.inr inLeft, inRight⟩
        · rintro ⟨rfl | inLeft, inRight⟩
          · exact Or.inl ⟨Nat.ne_of_gt (List.count_pos_iff.mpr inRight), rfl⟩
          · exact Or.inr ⟨inLeft, inRight⟩

end

/-! ## Borrowing the stack -/

section

variable {env : Env} {stack : Stack}

theorem gathers_opened (roomy : env.Roomy) (positive : 0 < stack.maximum) {elements : Nat}
    (room : Room stack.jitsons elements) :
    ∃ opened, getStackOpenArray env stack = .ok opened ∧ Gathers stack.jitsons stack.count [] opened := by
  have small : stack.lend.count + 1 ≤ 2 ^ 32 - 4096 := Nat.le_trans (Nat.le_add_right _ elements) room
  rcases Stack.openCollection_first roomy (show Stack.canOpen { kind := .array } = true by decide)
    (show stack.lend.opened = 0 from rfl) positive small with ⟨maximum, positive', opened⟩
  refine ⟨_, congrArg faultOf opened, _, maximum, _, positive', rfl, rfl, ?_⟩
  have flags : (Frame.openedType env { kind := .array }).unflagged = { kind := .array } := by
    rw [Frame.openedType]
    split <;> rfl
  constructor
  · exact congrArg TypeWord.kind flags
  · exact congrArg TypeWord.mkSort flags
  · exact congrArg TypeWord.isRef flags
  · exact congrArg TypeWord.isOwn flags
  · rfl
  · rfl
  · rfl
  · intro i scalar found
    simp at found
  · intro i inside
    simp at inside
  · exact fun some => absurd rfl some
  · exact fun _ => List.Pairwise.nil

/-- A call that returns an array of these scalars and gives the stack back. -/
def Yields (call : Except Fault (Pointer × Stack)) (stack : Stack) (scalars : List Scalar) : Prop :=
  ∃ result after, call = .ok (result, after) ∧ Laid scalars result ∧ after.jitsons = stack.jitsons ∧ 0 < after.maximum

theorem Gathers.close {filled : Stack} {scalars : List Scalar}
    (gathers : Gathers stack.jitsons stack.count scalars filled)
    (roomy : env.Roomy) (same : ∀ first ∈ scalars, ∀ second ∈ scalars, first.kind = second.kind) :
    Yields (closeArrayAndGet env filled stack) stack scalars := by
  rcases gathers with ⟨frame, maximum, last, positive, rfl, sameBase, gathering⟩
  have closed := frame.closeCollection_outermost env maximum last stack.count
    (fun object => absurd gathering.kind (by rw [object]; decide)) gathering.outermost
  rcases Stack.getJitson_borrowed roomy maximum last stack.jitsons frame.closed (by simp [Frame.closed]) with
    ⟨allocated, got⟩
  refine ⟨_, ⟨maximum, stack.jitsons, allocated, stack.opened, stack.last, stack.borrow⟩, ?_, gathering.laid same, rfl,
    positive⟩
  rw [closeArrayAndGet, closed, sameBase]
  refine (congrArg (fun taken => faultOf taken >>= fun taken : Pointer × Stack =>
    faultOf (taken.2.giveBack stack) >>= fun stack => Except.ok (taken.1, stack)) got).trans ?_
  simp [Stack.giveBack, Stack.count, faultOf, Except.mapError]

/-! ## All paths -/

/-- Two ordered arrays of uniform elements whose sizes differ, of which
`INTERSECT` compares nothing. -/
def Skips (left right : Pointer) : Prop :=
  (typeOf left).isOrd = true ∧ (typeOf right).isOrd = true ∧ (typeOf left).isUnif = true ∧
    (typeOf right).isUnif = true ∧ uniformSize left ≠ uniformSize right

theorem Skips.symm {left right : Pointer} (skips : Skips left right) : Skips right left :=
  ⟨skips.2.1, skips.1, skips.2.2.2.1, skips.2.2.1, skips.2.2.2.2.symm⟩

/-- What is returned: nothing where the comparison is skipped, and otherwise
the common elements. -/
def Gives (call : Except Fault (Pointer × Stack)) (stack : Stack) (arrayLeft arrayRight : Pointer)
    (left right : List Scalar) : Prop :=
  ∃ added, Yields call stack added ∧ (Skips arrayLeft arrayRight → added = []) ∧
    (¬ Skips arrayLeft arrayRight → ∀ scalar, scalar ∈ added ↔ scalar ∈ left ∧ scalar ∈ right)

variable {left right : List Scalar} {arrayLeft arrayRight : Pointer}

theorem Gives.swap {call : Except Fault (Pointer × Stack)} (gives : Gives call stack arrayRight arrayLeft right left) :
    Gives call stack arrayLeft arrayRight left right := by
  rcases gives with ⟨added, yields, skipped, common⟩
  refine ⟨added, yields, fun skips => skipped skips.symm, fun compared scalar => ?_⟩
  rw [common (fun skips => compared skips.symm), and_comm]

/-- All elements that can occur are of one kind. -/
def OneKind (left right : List Scalar) : Prop :=
  ∀ first ∈ left ++ right, ∀ second ∈ left ++ right, first.kind = second.kind

theorem OneKind.comparable (oneKind : OneKind left right) : Comparable left right :=
  fun first inLeft second inRight =>
    oneKind first (List.mem_append_left _ inLeft) second (List.mem_append_right _ inRight)

theorem OneKind.swap (oneKind : OneKind left right) : OneKind right left := by
  intro first inFirst second inSecond
  exact oneKind first (List.mem_append.mpr (List.mem_append.mp inFirst).symm) second
    (List.mem_append.mpr (List.mem_append.mp inSecond).symm)

/-- Closing an array that was filled with common elements. -/
theorem gives_filled (roomy : env.Roomy) (oneKind : OneKind left right) {filled : Stack} {added : List Scalar}
    (gathers : Gathers stack.jitsons stack.count added filled) (common : Common left right added)
    (compared : ¬ Skips arrayLeft arrayRight) :
    Gives (closeArrayAndGet env filled stack) stack arrayLeft arrayRight left right := by
  have inLeft : ∀ scalar ∈ added, scalar ∈ left ++ right :=
    fun scalar member => List.mem_append_left _ ((common.mem_iff scalar).mp member).1
  exact ⟨added, gathers.close roomy fun first memberFirst second memberSecond =>
      oneKind first (inLeft first memberFirst) second (inLeft second memberSecond),
    fun skips => absurd skips compared, fun _ => common.mem_iff⟩

theorem getType_array {array : Pointer} (kind : (typeOf array).kind = .array) : getType array = .array := by
  rw [getType, dereference_array kind, kind]

theorem intersectOrderedArray_gives (roomy : env.Roomy) (sum : List UInt8 → Nat) (positive : 0 < stack.maximum)
    (operandLeft : Operand left arrayLeft) (operandRight : Operand right arrayRight)
    (orderedRight : (typeOf arrayRight).isOrd = true) (oneKind : OneKind left right)
    (room : Room stack.jitsons (pairs left right)) :
    Gives (intersectOrderedArray env sum stack arrayLeft arrayRight) stack arrayLeft arrayRight left right := by
  rcases gathers_opened roomy positive room with ⟨opened, isOpen, gathers⟩
  have laidRight := operandRight.laid_of_ordered orderedRight
  simp only [intersectOrderedArray, getType_array operandLeft.kind_eq, ne_eq, not_true, if_false, isOpen, ok_bind]
  by_cases bothUniform : (typeOf arrayLeft).isOrd = true ∧ (typeOf arrayLeft).isUnif = true ∧
      (typeOf arrayRight).isUnif = true
  · rw [if_pos bothUniform]
    have laidLeft := operandLeft.laid_of_ordered bothUniform.1
    by_cases sizes : uniformSize arrayLeft = uniformSize arrayRight
    · rcases gathers.intersectUniform roomy laidLeft laidRight bothUniform.1 orderedRight bothUniform.2.1
        bothUniform.2.2 sizes oneKind.comparable room with ⟨filled, added, result, gathered, common⟩
      rw [if_neg (fun different => different sizes), result, ok_bind]
      exact gives_filled roomy oneKind gathered common fun skips => skips.2.2.2.2 sizes
    · have skips : Skips arrayLeft arrayRight :=
        ⟨bothUniform.1, orderedRight, bothUniform.2.1, bothUniform.2.2, sizes⟩
      rw [if_pos sizes]
      exact ⟨[], gathers.close roomy (fun first member => absurd member List.not_mem_nil), fun _ => rfl,
        fun compared => absurd skips compared⟩
  · have compared : ¬ Skips arrayLeft arrayRight :=
      fun skips => bothUniform ⟨skips.1, skips.2.2.1, skips.2.2.2.1⟩
    rw [if_neg bothUniform]
    by_cases bothIndexed : (typeOf arrayLeft).isOrd = true ∧ ¬ (typeOf arrayLeft).isUnif = true ∧
        ¬ (typeOf arrayRight).isUnif = true
    · rcases gathers.intersectIndexed roomy (operandLeft.laid_of_ordered bothIndexed.1) laidRight bothIndexed.1
        orderedRight (Bool.not_eq_true _ ▸ bothIndexed.2.1) (Bool.not_eq_true _ ▸ bothIndexed.2.2)
        oneKind.comparable room with ⟨filled, added, result, gathered, common⟩
      rw [if_pos bothIndexed, result, ok_bind]
      exact gives_filled roomy oneKind gathered common compared
    · rcases gathers.intersectIn roomy sum operandLeft operandRight oneKind.comparable left.length 0 (by omega)
        (by simpa using room) with ⟨filled, added, result, gathered, common⟩
      rw [if_neg bothIndexed, operandLeft.len_eq, result, ok_bind]
      exact gives_filled roomy oneKind gathered common compared

theorem intersectArray_gives (roomy : env.Roomy) (sum : List UInt8 → Nat) (positive : 0 < stack.maximum)
    (operandLeft : Operand left arrayLeft) (operandRight : Operand right arrayRight) (oneKind : OneKind left right)
    (room : Room stack.jitsons (pairs left right)) :
    Gives (intersectArray env sum stack arrayLeft arrayRight) stack arrayLeft arrayRight left right := by
  rw [intersectArray]
  by_cases orderedRight : (typeOf arrayRight).isOrd = true
  · rw [if_pos orderedRight]
    exact intersectOrderedArray_gives roomy sum positive operandLeft operandRight orderedRight oneKind room
  · rw [if_neg orderedRight]
    by_cases orderedLeft : (typeOf arrayLeft).isOrd = true
    · rw [if_pos orderedLeft]
      refine (intersectOrderedArray_gives roomy sum positive operandRight operandLeft orderedLeft oneKind.swap ?_).swap
      rw [pairs_comm]
      exact room
    · rcases gathers_opened roomy positive room with ⟨opened, isOpen, gathers⟩
      rcases gathers.intersectPlain roomy operandLeft operandRight left.length 0 (by omega) (by simpa using room) with
        ⟨filled, added, result, gathered, common⟩
      simp only [orderedLeft, Bool.false_eq_true, if_false, getType_array operandLeft.kind_eq, ne_eq, not_true, isOpen,
        ok_bind, operandLeft.len_eq, result]
      exact gives_filled roomy oneKind gathered common fun skips => orderedRight skips.2.1

end

/-! ## Set intersection -/

/-- The values that elements are compared with: scalars in any storage, and
values that are neither numbers nor strings. -/
def Comparand (value : Pointer) : Prop :=
  (∃ scalar, Stored scalar value) ∨ (getType value ≠ .number ∧ getType value ≠ .string)

/-- A value is `sxe_jitson_eq` to some element of an array. -/
def HasEqual (env : Env) (array value : Pointer) : Prop :=
  ∃ i element, arrayGetElement array i = some element ∧ eq env.ops value element = some true

/-- `sxe_jitson_intersect` returns the set intersection, as an array of scalars
on the left that can be intersected again. -/
def IntersectsAsSets (env : Env) (sum : List UInt8 → Nat) (stack : Stack) (left right : Pointer)
    (scalars : List Scalar) : Prop :=
  ∃ result after, intersect env sum stack left right = .ok (result, after) ∧
    (∀ value, Comparand value →
      (HasEqual env result value ↔ HasEqual env left value ∧ HasEqual env right value)) ∧
    (∃ common, Operand common result ∧ ∀ scalar ∈ common, scalar ∈ scalars) ∧
    after.jitsons = stack.jitsons ∧ 0 < after.maximum

section

variable {env : Env} {stack : Stack} {scalars : List Scalar} {array : Pointer}

theorem weight_dereference_le (pointer : Pointer) : weight (dereference pointer) ≤ weight pointer := by
  rw [dereference]
  split
  · rcases pointer with _ | ⟨⟨type, len, body⟩ | _, rest⟩
    · simp [bodyOf]
    · cases body with
      | jitref target =>
          simp only [bodyOf_head, weight, Token.weight]
          omega
      | _ => simp [weight]
    · simp [bodyOf, weight]
  · exact Nat.le_refl _

/-- Accessing the elements of an array or of a reference to one. -/
theorem Operand.elements (operand : Operand scalars (dereference array)) (i : Nat) :
    (∃ scalar element, scalars[i]? = some scalar ∧ arrayGetElement array i = some element ∧ Stored scalar element) ∨
      (scalars.length ≤ i ∧ arrayGetElement array i = none) := by
  have heavy := weight_dereference_le array
  have positive := weight_pos operand.kind_eq
  have through : arrayGetElement array i = Jitson.getElementDepth (weight array) (dereference array) i := by
    rw [arrayGetElement, show weight array = weight array - 1 + 1 by omega]
    simp only [Jitson.getElementDepth, dereference_array operand.kind_eq]
  rw [through]
  rcases Nat.lt_or_ge i scalars.length with inside | outside
  · have found := List.getElem?_eq_getElem inside
    rcases operand.getElementDepth found (weight array) heavy with ⟨element, got, stored⟩
    exact Or.inl ⟨_, element, found, got, stored⟩
  · refine Or.inr ⟨outside, ?_⟩
    rw [show weight array = weight array - 1 + 1 by omega]
    simp only [Jitson.getElementDepth, dereference_array operand.kind_eq, operand.len_eq]
    rw [if_pos outside]

theorem Operand.hasEqual_iff (operand : Operand scalars (dereference array)) {scalar : Scalar} {value : Pointer}
    (stored : Stored scalar value) : HasEqual env array value ↔ scalar ∈ scalars := by
  constructor
  · rintro ⟨i, element, got, equal⟩
    rcases operand.elements i with ⟨other, element', found, got', storedElement⟩ | ⟨_, nothing⟩
    · rw [got] at got'
      rw [Option.some.inj got', stored.eq_eq env.ops storedElement] at equal
      have same : scalar = other := by simpa using equal
      rw [same]
      exact List.mem_of_getElem? found
    · rw [got] at nothing
      cases nothing
  · intro member
    rcases List.getElem?_of_mem member with ⟨i, found⟩
    have inside := (List.getElem?_eq_some_iff.mp found).1
    rcases operand.elements i with ⟨other, element, found', got, storedElement⟩ | ⟨outside, _⟩
    · rw [found] at found'
      rw [← Option.some.inj found'] at storedElement
      exact ⟨i, element, got, by rw [stored.eq_eq env.ops storedElement]; simp⟩
    · omega

theorem Operand.not_hasEqual (operand : Operand scalars (dereference array)) {value : Pointer}
    (number : getType value ≠ .number) (string : getType value ≠ .string) : ¬ HasEqual env array value := by
  rintro ⟨i, element, got, equal⟩
  rcases operand.elements i with ⟨scalar, element', _, got', stored⟩ | ⟨_, nothing⟩
  · rw [got] at got'
    rw [Option.some.inj got'] at equal
    have kind := stored.dereference.kind_eq
    have different : (typeOf (dereference value)).kind ≠ scalar.kind := by
      cases scalar with
      | uint => exact number
      | string => exact string
    simp only [eq, eqDepth, kind] at equal
    rw [if_pos different] at equal
    cases equal
  · rw [got] at nothing
    cases nothing

variable {left right : List Scalar} {arrayLeft arrayRight : Pointer}

theorem intersect_gives (roomy : env.Roomy) (sum : List UInt8 → Nat) (positive : 0 < stack.maximum)
    (operandLeft : Operand left (dereference arrayLeft)) (operandRight : Operand right (dereference arrayRight))
    (oneKind : OneKind left right) (room : Room stack.jitsons (pairs left right)) :
    Gives (intersect env sum stack arrayLeft arrayRight) stack (dereference arrayLeft) (dereference arrayRight)
      left right := by
  simp only [intersect, operandRight.kind_eq, if_true]
  exact intersectArray_gives roomy sum positive operandLeft operandRight oneKind room

theorem Laid.operand_dereference (laid : Laid scalars array) : Operand scalars (dereference array) := by
  rw [dereference_array laid.kind]
  exact .laid laid

theorem intersectsAsSets_of_gives {sum : List UInt8 → Nat}
    (operandLeft : Operand left (dereference arrayLeft)) (operandRight : Operand right (dereference arrayRight))
    (gives : Gives (intersect env sum stack arrayLeft arrayRight) stack (dereference arrayLeft)
      (dereference arrayRight) left right)
    (compared : Skips (dereference arrayLeft) (dereference arrayRight) → ∀ scalar ∈ left, scalar ∉ right) :
    IntersectsAsSets env sum stack arrayLeft arrayRight left := by
  rcases gives with ⟨added, ⟨result, after, returned, laid, same, positive⟩, skipped, common⟩
  have mem_iff : ∀ scalar, scalar ∈ added ↔ scalar ∈ left ∧ scalar ∈ right := by
    intro scalar
    by_cases skips : Skips (dereference arrayLeft) (dereference arrayRight)
    · rw [skipped skips]
      refine ⟨fun member => absurd member List.not_mem_nil, ?_⟩
      rintro ⟨inLeft, inRight⟩
      exact absurd inRight (compared skips scalar inLeft)
    · exact common skips scalar
  refine ⟨result, after, returned, ?_, ⟨added, .laid laid, fun scalar member => ((mem_iff scalar).mp member).1⟩, same,
    positive⟩
  rintro value (⟨scalar, stored⟩ | ⟨number, string⟩)
  · rw [laid.operand_dereference.hasEqual_iff stored, operandLeft.hasEqual_iff stored,
      operandRight.hasEqual_iff stored, mem_iff]
  · have nowhere : ∀ {scalars : List Scalar} {array : Pointer}, Operand scalars (dereference array) →
        ¬ HasEqual env array value := fun operand => operand.not_hasEqual number string
    exact ⟨fun equal => absurd equal (nowhere laid.operand_dereference),
      fun both => absurd both.1 (nowhere operandLeft)⟩

theorem not_intersectsAsSets_of_gives {sum : List UInt8 → Nat}
    (operandLeft : Operand left (dereference arrayLeft)) (operandRight : Operand right (dereference arrayRight))
    (gives : Gives (intersect env sum stack arrayLeft arrayRight) stack (dereference arrayLeft)
      (dereference arrayRight) left right)
    (skips : Skips (dereference arrayLeft) (dereference arrayRight)) {scalar : Scalar} (inLeft : scalar ∈ left)
    (inRight : scalar ∈ right) : ¬ IntersectsAsSets env sum stack arrayLeft arrayRight left := by
  rintro ⟨result, after, returned, sets, _⟩
  rcases gives with ⟨added, ⟨result', after', returned', laid, _⟩, skipped, _⟩
  rw [returned] at returned'
  have same := (Prod.mk.injEq _ _ _ _).mp (Except.ok.inj returned')
  rw [← same.1] at laid
  rcases List.getElem?_of_mem inLeft with ⟨i, found⟩
  rcases operandLeft.element found with ⟨element, _, stored⟩
  have equal := (sets element (Or.inl ⟨scalar, stored⟩)).mpr
    ⟨(operandLeft.hasEqual_iff stored).mpr inLeft, (operandRight.hasEqual_iff stored).mpr inRight⟩
  rw [laid.operand_dereference.hasEqual_iff stored, skipped skips] at equal
  exact absurd equal List.not_mem_nil

/-- `INTERSECT` is set intersection, whatever the representation of the arrays,
exactly where it is not asked for common elements of two ordered arrays whose
elements have different uniform sizes. -/
theorem intersect_is_set_intersection_iff (roomy : env.Roomy) (sum : List UInt8 → Nat) (positive : 0 < stack.maximum)
    (operandLeft : Operand left (dereference arrayLeft)) (operandRight : Operand right (dereference arrayRight))
    (oneKind : OneKind left right) (room : Room stack.jitsons (pairs left right)) :
    IntersectsAsSets env sum stack arrayLeft arrayRight left ↔
      ¬ (Skips (dereference arrayLeft) (dereference arrayRight) ∧ ∃ scalar ∈ left, scalar ∈ right) := by
  have gives := intersect_gives roomy sum positive operandLeft operandRight oneKind room
  constructor
  · rintro sets ⟨skips, scalar, inLeft, inRight⟩
    exact not_intersectsAsSets_of_gives operandLeft operandRight gives skips inLeft inRight sets
  · intro compared
    exact intersectsAsSets_of_gives operandLeft operandRight gives
      fun skips scalar inLeft inRight => compared ⟨skips, scalar, inLeft, inRight⟩

end

/-! ### Storage matters -/

theorem Laid.single {type : TypeWord} {body : Body (List Token)} {scalar : Scalar} {element : Pointer}
    (kind : type.kind = .array) (whole : type.isRef = false) (unindexed : type.isOwn = false)
    (stored : Stored scalar element)
    (uniform : type.isUnif = true → uniformSize (.head type 1 body :: element) = 16 * size element) :
    Laid [scalar] (.head type 1 body :: element) := by
  have only : ∀ {i : Nat}, i < [scalar].length → elementAt (.head type 1 body :: element) i = element := by
    intro i inside
    rw [List.length_singleton] at inside
    rw [show i = 0 by omega]
    rfl
  constructor
  · exact kind
  · exact whole
  · rfl
  · intro i other found
    have inside := (List.getElem?_eq_some_iff.mp found).1
    rw [only inside, List.mem_singleton.mp (List.mem_of_getElem? found)]
    exact stored
  · intro isUnif
    exact ⟨size element, fun _ => uniform isUnif, fun i inside => by rw [only inside]⟩
  · intro _ indexed
    rw [TypeWord.indexed, typeOf_head, unindexed] at indexed
    cases indexed
  · intro _ first inFirst second inSecond
    rw [List.mem_singleton.mp inFirst, List.mem_singleton.mp inSecond]
  · exact fun _ => List.pairwise_singleton _ _

/-- The string `"abcdefgh"`, the copy of which takes two tokens. -/
def longText : List UInt8 := [97, 98, 99, 100, 101, 102, 103, 104]

def sortedType : TypeWord := { kind := .array, isHomo := true, isUnif := true, isOrd := true }

/-- `["abcdefgh"]` with a copy of the string. -/
def copiedArray : Pointer :=
  [.head sortedType 1 (.uniform 32), .head { kind := .string } 8 (.string longText), .more]

/-- `["abcdefgh"]` with a reference to the string, ordered or not. -/
def referredArray (type : TypeWord) (body : Body (List Token)) : Pointer :=
  [.head type 1 body, .head { kind := .string, isRef := true } 0 (.reference longText)]

def wordEnv : Env where
  ops := ⟨fun left right => left < right, fun left right => left = right, UInt64.toNat, UInt64.ofNat, fun _ => (0, 0)⟩
  alloc := fun _ => true
  optimize := true

def threadStack : Stack := ⟨1, [], true, 0, 0, 0⟩

theorem operand_copiedArray : Operand [.string longText] (dereference copiedArray) := by
  refine Laid.operand_dereference (Laid.single rfl rfl rfl (.here ?_) fun _ => rfl)
  exact .copy rfl rfl rfl (by decide)

theorem operand_referredArray {type : TypeWord} {body : Body (List Token)} (kind : type.kind = .array)
    (whole : type.isRef = false) (unindexed : type.isOwn = false)
    (uniform : type.isUnif = true → uniformSize (referredArray type body) = 16) :
    Operand [.string longText] (dereference (referredArray type body)) := by
  refine Laid.operand_dereference (Laid.single kind whole unindexed (.here ?_) uniform)
  exact .stringRef rfl rfl rfl (by decide) (Or.inl rfl)

theorem oneKind_longText : OneKind [.string longText] [.string longText] := by
  intro first inFirst second inSecond
  simp at inFirst inSecond
  rw [inFirst, inSecond]

theorem room_threadStack : Room threadStack.jitsons (pairs [.string longText] [.string longText]) := by
  rw [Room]
  decide

/-- A string that is copied in an ordered array is found where the other array
refers to it without being ordered. -/
theorem intersect_copied_with_unordered :
    IntersectsAsSets wordEnv (fun _ => 0) threadStack copiedArray (referredArray { kind := .array } (.integer 2))
      [.string longText] := by
  refine (intersect_is_set_intersection_iff ⟨fun _ => rfl, rfl⟩ (fun _ => 0) (by decide) operand_copiedArray
    (operand_referredArray rfl rfl rfl ?_) oneKind_longText room_threadStack).mpr ?_
  · intro uniform
    cases uniform
  · rintro ⟨skips, _⟩
    cases skips.2.1

/-- Where both arrays are ordered, the same string is lost. -/
theorem intersect_loses_copied :
    Operand [.string longText] (dereference copiedArray) ∧
      Operand [.string longText] (dereference (referredArray sortedType (.uniform 16))) ∧
      ¬ IntersectsAsSets wordEnv (fun _ => 0) threadStack copiedArray (referredArray sortedType (.uniform 16))
        [.string longText] := by
  have referred : Operand [.string longText] (dereference (referredArray sortedType (.uniform 16))) :=
    operand_referredArray rfl rfl rfl fun _ => rfl
  refine ⟨operand_copiedArray, referred, ?_⟩
  have gives := @intersect_gives wordEnv threadStack _ _ _ _ ⟨fun _ => rfl, rfl⟩ (fun _ => 0) (by decide)
    operand_copiedArray referred oneKind_longText room_threadStack
  exact not_intersectsAsSets_of_gives operand_copiedArray referred gives ⟨rfl, rfl, rfl, rfl, by decide⟩
    (List.mem_singleton_self _) (List.mem_singleton_self _)

end Jitson
end LibKit
