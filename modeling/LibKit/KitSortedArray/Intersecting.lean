import LibKit.KitSortedArray.Search
import LibKit.KitSortedArray.Visiting

namespace LibKit
namespace KitSortedArray

open Pointer (advance)
open LibKit.Visits (follow)

/-!
# What an intersection visits

`kit_sortedarray_intersect` calls itself for the elements behind a median with
pointers to their keys instead of pointers to the elements.  Where the key is
the first part of an element, these are the same, and the common elements are
visited.  Where it is not, they are visited if no such call is made.
-/

section

variable {Key Elem State : Type} [Pointer Key] [Pointer Elem]

/-- A class whose visitor notes what it visits. -/
def recording (cls : ArrayClass Key Elem State) : ArrayClass Key Elem (List Key) where
  size := cls.size
  keyoffset := cls.keyoffset
  cmp := cls.cmp
  visit := fun visited key => some (visited ++ [key])
  cmpCanFail := cls.cmpCanFail

variable {cls : ArrayClass Key Elem State} {left : Key} {right : Elem}

omit [Pointer Key] [Pointer Elem] in
theorem follow_recording {Cause : Type} (fails : Cause → List Key → Unit) (visits : List Key) (ending : Option Cause)
    (visited : List Key) :
    (follow fails (fun visited key => .ok (visited ++ [key])) visits ending visited).toOption =
      if ending = none then some (visited ++ visits) else none := by
  induction visits generalizing visited with
  | nil => cases ending <;> simp [Visits.follow_nil, Visits.finish, Except.toOption]
  | cons key visits ih =>
      rw [Visits.follow_cons]
      exact (ih (visited ++ [key])).trans (by simp)

/-- What one visitor notes is what every visitor visits. -/
theorem intersectInto_of_recorded {fuel leftCount rightCount : Nat} {visits : List Key}
    (recorded : intersect (recording cls) fuel [] left leftCount right rightCount = some visits) {Value Failed : Type}
    (fails : Value → Failed) (visit : Value → Key → Except Failed Value) (value : Value) :
    intersectInto cls.search fails visit fuel value left leftCount right rightCount = visits.foldlM visit value := by
  rcases intersectInto_course cls.search () fuel left leftCount right rightCount with ⟨visits', ending, course⟩
  have noted := course (List Key) Unit (fun _ _ => ()) (fun visited key => .ok (visited ++ [key])) []
  have whole : intersect (recording cls) fuel [] left leftCount right rightCount =
    (intersectInto cls.search (fun _ => ())
      (fun visited key => .ok (visited ++ [key])) fuel [] left leftCount right rightCount).toOption :=
    intersect_eq (fun _ _ => rfl) fuel [] left leftCount right rightCount
  rw [recorded] at whole
  have same := whole.trans (congrArg Except.toOption noted)
  rw [follow_recording] at same
  cases ending with
  | some cause => cases same
  | none =>
      simp only [if_true, List.nil_append, Option.some.injEq] at same
      subst same
      refine (course Value Failed (fun _ => fails) visit value).trans ?_
      unfold follow
      cases visits.foldlM visit value <;> rfl

end

/-! ## Common elements -/

section

variable {Rank : Type} [LinearOrder Rank] {rankL rankR : Nat → Rank} {leftCount rightCount : Nat}

/-- The left elements whose keys occur on the right. -/
def common (rankL rankR : Nat → Rank) (leftCount rightCount : Nat) : List Nat :=
  (List.range leftCount).filter fun i => decide (∃ j, j < rightCount ∧ rankR j = rankL i)

/-- In a strictly sorted array, what is visited is what is common. -/
theorem Visits.eq_common {visited : List Nat} (increasing : Increasing rankL leftCount)
    (visits : Visits rankL rankR 0 leftCount 0 rightCount visited) :
    visited = common rankL rankR leftCount rightCount := by
  have inOrder := visits.inOrder
  rw [← List.range_eq_range'] at inOrder
  refine List.Pairwise.eq_of_mem_iff (List.pairwise_lt_range.sublist inOrder)
    (List.pairwise_lt_range.sublist List.filter_sublist) fun i => ?_
  simp only [common, List.mem_filter, List.mem_range, decide_eq_true_eq]
  constructor
  · intro member
    rcases visits.sound i member with ⟨-, high, j, -, inRight, same⟩
    exact ⟨by omega, j, by omega, same⟩
  · rintro ⟨high, j, inRight, same⟩
    rcases visits.complete i (Nat.zero_le i) (by omega) ⟨j, Nat.zero_le j, by omega, same⟩ with ⟨other, member, equal⟩
    rcases visits.sound other member with ⟨-, high', -⟩
    rcases Nat.lt_trichotomy other i with before | here | behind
    · exact absurd equal (ne_of_lt (increasing other i before high))
    · rwa [← here]
    · exact absurd equal (ne_of_gt (increasing i other behind (by omega)))

variable {Key Elem State : Type} [Pointer Key] [Pointer Elem]

/-- Every visitor is called once for each of some left elements, one after the
other, with a pointer to its start, and no more once it returned false. -/
def VisitsExactly (cls : ArrayClass Key Elem State) (left : Key) (leftCount : Nat) (right : Elem) (rightCount : Nat)
    (elements : List Nat) : Prop :=
  ∀ (Value Failed : Type) (fails : Value → Failed) (visit : Value → Key → Except Failed Value) (value : Value),
    intersectInto cls.search fails visit leftCount value left leftCount right rightCount =
      elements.foldlM (fun value i => visit value (elemAt cls left i)) value

variable {cls : ArrayClass Key Elem State} {left : Key} {right : Elem}

/-- Strictly sorted arrays are intersected if the key is at the start of an
element or no call is made for what is behind a median. -/
theorem Arranged.visits_common (arrays : Arranged cls left right rankL rankR leftCount rightCount)
    (increasingL : Increasing rankL leftCount) (increasingR : Increasing rankR rightCount)
    (plain : cls.keyoffset = 0 ∨ Straight rankL rankR leftCount rightCount) :
    VisitsExactly cls left leftCount right rightCount (common rankL rankR leftCount rightCount) := by
  intro Value Failed fails visit value
  have noted : Arranged (recording cls) left right rankL rankR leftCount rightCount :=
    ⟨arrays.sortedLeft, arrays.sortedRight, arrays.same, arrays.less, arrays.sure⟩
  rcases noted.intersect_window leftCount 0 leftCount 0 rightCount (Nat.le_refl _) (by omega) (by omega)
    (plain.imp_right fun straight => ⟨rfl, rfl, increasingL, increasingR, straight⟩) with ⟨visited, same, visits⟩
  have visitedAll : ∀ (visited : List Nat) (before : List Key),
      visitAll (recording cls) left visited before = some (before ++ visited.map (elemAt cls left)) := by
    intro visited
    induction visited with
    | nil => exact fun before => by rw [List.map_nil, List.append_nil]; rfl
    | cons i visited ih =>
        intro before
        refine (ih (before ++ [elemAt cls left i])).trans ?_
        rw [List.map_cons, List.append_assoc, List.singleton_append]
  have recorded := same []
  rw [elemAt_zero, elemAt_zero, visitedAll, List.nil_append, visits.eq_common increasingL] at recorded
  rw [intersectInto_of_recorded recorded, List.foldlM_map]

end

/-! ## Keys behind the start of their elements -/

section

variable {Rank : Type} [LinearOrder Rank]

/-- What is at an address in a memory of which each cell is a key or not. -/
def cell (address : Address (Option Rank)) : Option Rank := address.base[address.offset]?.join

/-- Elements of some cells, with their keys at an offset. -/
def cells (size keyoffset : Nat) (rank : Nat → Rank) (count : Nat) : List (Option Rank) :=
  (List.range (count * size)).map fun p => if p % size = keyoffset then some (rank (p / size)) else none

/-- The class of such elements.  What is no key compares equal, and the visitor
returns false for what is not the start of an element. -/
def cellClass (Rank : Type) [LinearOrder Rank] (size keyoffset : Nat) :
    ArrayClass (Address (Option Rank)) (Address (Option Rank)) Unit where
  size := size
  keyoffset := keyoffset
  cmp first second :=
    match cell first, cell second with
    | some a, some b => if a = b then 0 else if a < b then -1 else 1
    | _, _ => 0
  visit _ key := if key.offset % size = 0 then some () else none
  cmpCanFail := false

variable {size keyoffset : Nat} {rank rankL rankR : Nat → Rank} {count leftCount rightCount : Nat}

omit [LinearOrder Rank] in
theorem cell_key (inside : keyoffset < size) {i : Nat} (bound : i < count) :
    cell ⟨cells size keyoffset rank count, i * size + keyoffset⟩ = some (rank i) := by
  have fits : i * size + keyoffset < count * size := by
    have whole := Nat.mul_le_mul_right size bound
    rw [Nat.succ_mul] at whole
    omega
  have quotient : (i * size + keyoffset) / size = i := by
    rw [Nat.mul_comm, Nat.mul_add_div (by omega), Nat.div_eq_of_lt inside, Nat.add_zero]
  have remainder : (i * size + keyoffset) % size = keyoffset := by
    rw [Nat.mul_comm, Nat.mul_add_mod, Nat.mod_eq_of_lt inside]
  simp [cell, cells, fits, quotient, remainder]

omit [LinearOrder Rank] in
theorem cell_gap {p : Nat} (gap : p % size ≠ keyoffset) : cell ⟨cells size keyoffset rank count, p⟩ = none := by
  rcases Nat.lt_or_ge p (count * size) with inside | outside
  · simp [cell, cells, inside, gap]
  · simp [cell, cells, outside]

/-- Memory with the keys of two arrays. -/
theorem arranged_cells (inside : keyoffset < size) (increasingL : Increasing rankL leftCount)
    (increasingR : Increasing rankR rightCount) :
    Arranged (cellClass Rank size keyoffset) (⟨cells size keyoffset rankL leftCount, 0⟩ : Address (Option Rank))
      (⟨cells size keyoffset rankR rightCount, 0⟩ : Address (Option Rank)) rankL rankR leftCount rightCount := by
  have compared : ∀ i j, i < leftCount → j < rightCount →
      (cellClass Rank size keyoffset).cmp
          (keyAt (cellClass Rank size keyoffset) (⟨cells size keyoffset rankL leftCount, 0⟩ : Address (Option Rank)) i)
          (keyAt (cellClass Rank size keyoffset) (⟨cells size keyoffset rankR rightCount,
            0⟩ : Address (Option Rank)) j) =
        if rankL i = rankR j then 0 else if rankL i < rankR j then -1 else 1 := by
    intro i j inLeft inRight
    simp only [cellClass, keyAt, elemAt, advance, Nat.zero_add, cell_key inside inLeft, cell_key inside inRight]
  refine ⟨increasingL.nonDecreasing, increasingR.nonDecreasing, ?_, ?_, fun fails => absurd fails Bool.false_ne_true⟩
  · intro i j inLeft inRight
    rw [compared i j inLeft inRight]
    split
    · simp_all
    · split <;> simp_all
  · intro i j inLeft inRight
    rw [compared i j inLeft inRight]
    split
    · simp_all
    · split <;> simp_all

/-- From a key on, nothing is a key of its element, and the first match is no
start of an element. -/
theorem intersect_displaced (inside : keyoffset < size) (behind : 0 < keyoffset) {left right : Address (Option Rank)}
    (memory : left.base = cells size keyoffset rank count) (displaced : left.offset % size = keyoffset) {fuel n m : Nat}
    (some : 0 < n) (others : 0 < m) : intersect (cellClass Rank size keyoffset) (fuel + 1) () left n right m =
      none := by
  have gap : ∀ i, (left.offset + i * size + keyoffset) % size ≠ keyoffset := by
    intro i same
    rw [Nat.add_right_comm, Nat.add_mul_mod_self_right, Nat.add_mod, displaced, Nat.mod_eq_of_lt inside] at same
    rcases Nat.lt_or_ge (keyoffset + keyoffset) size with less | enough
    · rw [Nat.mod_eq_of_lt less] at same
      omega
    · rw [Nat.mod_eq_sub_mod enough, Nat.mod_eq_of_lt (by omega)] at same
      omega
  have equal : ∀ i element, (cellClass Rank size keyoffset).cmp
    (keyAt (cellClass Rank size keyoffset) left i) element = 0 := by
    intro i element
    have none : cell (keyAt (cellClass Rank size keyoffset) left i) = none := by
      have here := @cell_gap Rank size keyoffset rank count _ (gap i)
      rw [← memory] at here
      exact here
    simp only [cellClass] at none ⊢
    rw [none]
  have found : ∀ i, findKey (cellClass Rank size keyoffset) right m
    (keyAt (cellClass Rank size keyoffset) left i) = .some (m / 2, true) := by
    intro i
    cases m with
    | zero => exact absurd others (lt_irrefl 0)
    | succ m => simp [findKey, findKeyLoop, equal]
  have refused : ∀ i, (cellClass Rank size keyoffset).visit () (elemAt (cellClass Rank size keyoffset) left i) =
    none := by
    intro i
    refine if_neg ?_
    change ¬ (left.offset + i * size) % size = 0
    rw [Nat.add_mul_mod_self_right, displaced]
    omega
  rw [intersect, if_neg (by omega)]
  by_cases single : n = 1
  · have here := found 0
    rw [keyAt, elemAt_zero] at here
    have stopped := refused 0
    rw [elemAt_zero] at stopped
    rw [if_pos single, visitMatch, here]
    exact stopped
  · rw [if_neg single]
    dsimp only
    rw [found]
    dsimp only
    simp only [if_true, refused, Option.bind_none]
    split
    · exact Option.bind_fun_none _
    · rfl

/-- Where a call is made for what is behind a median, something else than an
element is visited. -/
theorem intersect_cells (inside : keyoffset < size) (behind : 0 < keyoffset) (increasingL : Increasing rankL leftCount)
    (increasingR : Increasing rankR rightCount) (fuel n m : Nat) (enough : n ≤ fuel) (inLeft : n ≤ leftCount)
    (inRight : m ≤ rightCount) (bent : ¬ Straight rankL rankR n m) :
    intersect (cellClass Rank size keyoffset) fuel () ⟨cells size keyoffset rankL leftCount, 0⟩ n
      ⟨cells size keyoffset rankR rightCount, 0⟩ m = none := by
  induction fuel generalizing n m with
  | zero =>
      refine absurd (fun k three => ?_) bent
      rw [Nat.le_zero.mp enough, Nat.zero_div] at three
      omega
  | succ fuel ih =>
      have arrays := arranged_cells inside increasingL increasingR
      have nonempty : ¬ (n = 0 ∨ m = 0) := by
        intro nothing
        refine bent ?_
        rcases nothing with zero | zero
        · intro k three
          rw [zero, Nat.zero_div] at three
          omega
        · intro k three above
          rcases above with ⟨j, wrong, -⟩
          omega
      have several : n ≠ 1 := by
        intro one
        refine bent fun k three => ?_
        have whole := Nat.div_le_self n (2 ^ k)
        omega
      rcases arrays.findKey (show n / 2 < leftCount by omega) (show 0 + m ≤ rightCount by omega) with
        ⟨idx, matched, found, located⟩
      simp only [elemAt_zero, Nat.zero_add] at found located
      have increasing : Increasing rankR m := fun i j before bound => increasingR i j before (by omega)
      rw [intersect, if_neg nonempty, if_neg several]
      dsimp only
      rw [found]
      dsimp only
      by_cases deeper : Straight rankL rankR (n / 2) idx
      · -- the call for what is behind the median is made, whatever was visited before
        have ends : ¬ EndsAt rankL rankR n m := fun ends =>
          bent ((straight_iff increasingL inLeft located.bound fun j => located.lt_iff increasing).mpr ⟨ends, deeper⟩)
        unfold EndsAt at ends
        push Not at ends
        rcases ends with ⟨three, ⟨j, inM, above⟩, more⟩
        have last : ∀ value idx', idx' < m → intersect (cellClass Rank size keyoffset) fuel value
            (keyAt (cellClass Rank size keyoffset) ⟨cells size keyoffset rankL leftCount, 0⟩ (n / 2 + 1))
            (n - (n / 2 + 1))
            (keyAt (cellClass Rank size keyoffset) ⟨cells size keyoffset rankR rightCount, 0⟩ idx')
            (m - idx') = none := by
          intro value idx' less
          cases fuel with
          | zero => omega
          | succ fuel =>
              refine intersect_displaced inside behind rfl ?_ (by omega) (by omega)
              simp only [keyAt, elemAt, advance, cellClass, Nat.zero_add, Nat.mul_add_mod_self_right,
                Nat.mod_eq_of_lt inside]
        cases matched with
        | true =>
            rcases located.hit rfl with ⟨idxIn, same⟩
            have five : 5 ≤ n := by
              by_contra few
              exact more (by omega) idx idxIn same
            have beyond : idx + 1 < m := by
              rcases Nat.lt_trichotomy j idx with before | here | after
              · have less := increasing j idx before idxIn
                rw [same] at less
                exact absurd above (lt_asymm less)
              · rw [here, same] at above
                exact absurd above (lt_irrefl _)
              · omega
            simp only [if_true, if_pos beyond, if_neg (show ¬ n / 2 + 1 = n - 1 by omega), last _ _ beyond,
              Option.bind_fun_none]
        | false =>
            have beyond : idx < m := by
              by_contra none
              exact lt_asymm above (located.below rfl j (by omega))
            simp only [Bool.false_eq_true, if_false, if_pos beyond, last _ _ beyond, Option.bind_fun_none]
      · have three : n / 2 ≠ 0 := by
          intro zero
          refine deeper fun k three => ?_
          rw [zero, Nat.zero_div] at three
          omega
        have some : idx ≠ 0 := by
          intro zero
          refine deeper ?_
          intro k three above
          rcases above with ⟨j, wrong, -⟩
          omega
        have bound := located.bound
        rw [if_pos ⟨by omega, by omega⟩, ih (n / 2) idx (by omega) (by omega) (by omega) deeper, Option.bind_none]

/-- For any order of the keys of two strictly sorted arrays, the common elements
are visited, whatever else is in memory, if and only if the key is at the start
of an element or no call is made for what is behind a median.  Where comparisons
can fail, `~0U` is no number of elements. -/
theorem intersect_visits_common_iff (inside : keyoffset < size) (increasingL : Increasing rankL leftCount)
    (increasingR : Increasing rankR rightCount) :
    (∀ (Key Elem State : Type) [Pointer Key] [Pointer Elem] (cls : ArrayClass Key Elem State) (left : Key)
      (right : Elem),
      cls.size = size → cls.keyoffset = keyoffset → (cls.cmpCanFail = true → rightCount < 2 ^ 32 - 1) →
        Arranged cls left right rankL rankR leftCount rightCount →
          VisitsExactly cls left leftCount right rightCount (common rankL rankR leftCount rightCount)) ↔
      keyoffset = 0 ∨ Straight rankL rankR leftCount rightCount := by
  constructor
  · intro always
    by_contra wrong
    push Not at wrong
    rcases wrong with ⟨behind, bent⟩
    have visits := always _ _ Unit (cellClass Rank size keyoffset) ⟨cells size keyoffset rankL leftCount, 0⟩
      ⟨cells size keyoffset rankR rightCount, 0⟩ rfl rfl nofun
        (arranged_cells inside increasingL increasingR) Unit Unit id
      (fun _ key => if key.offset % size = 0 then .ok () else .error ()) ()
    have starts : ∀ elements : List Nat, (elements.foldlM (fun (_ : Unit) i =>
        if (elemAt (cellClass Rank size keyoffset) (⟨cells size keyoffset rankL leftCount,
          0⟩ : Address (Option Rank)) i).offset %
          size = 0 then Except.ok () else Except.error ()) () : Except Unit Unit) = .ok () := by
      intro elements
      induction elements with
      | nil => rfl
      | cons i elements ih =>
          have start : (0 + i * (cellClass Rank size keyoffset).size) % size = 0 := by
            rw [Nat.zero_add]
            exact Nat.mul_mod_left i size
          rw [List.foldlM_cons, elemAt]
          simp only [advance, if_pos start]
          exact ih
    have whole := intersect_cells inside (by omega) increasingL increasingR leftCount leftCount rightCount
      (Nat.le_refl _)
      (Nat.le_refl _) (Nat.le_refl _) bent
    have same : ∀ (value : Unit) (key : Address (Option Rank)), (cellClass Rank size keyoffset).visit value key =
        (if key.offset % size = 0 then Except.ok () else Except.error () : Except Unit Unit).toOption := by
      intro value key
      simp only [cellClass]
      split <;> rfl
    rw [@intersect_eq _ _ _ _ _ _ _ id _ same, visits, starts] at whole
    cases whole
  · intro plain Key Elem State _ _ cls left right sizeIs offsetIs _ arrays
    rw [← offsetIs] at plain
    exact arrays.visits_common increasingL increasingR plain

end

/-- Elements of two bytes, of which the second is the key. -/
def pairClass : ArrayClass (Address UInt8) (Address UInt8) Unit where
  size := 2
  keyoffset := 1
  cmp first second := Int.ofNat ((first.tokens 1).headD 0).toNat - Int.ofNat ((second.tokens 1).headD 0).toNat
  visit _ _ := none
  cmpCanFail := false

/-- The last of three elements is looked up behind its median with what follows
its key, and is not visited. -/
theorem intersect_misses_common :
    Increasing (fun i => i + 1) 3 ∧ Increasing (fun j => j + 3) 1 ∧
      Arranged pairClass (⟨[0, 1, 0, 2, 0, 3, 9, 9], 0⟩ : Address UInt8) (⟨[0, 3, 8, 8], 0⟩ : Address UInt8)
        (fun i => i + 1) (fun j => j + 3) 3 1 ∧
      common (fun i => i + 1) (fun j => j + 3) 3 1 = [2] ∧
      ¬ VisitsExactly pairClass (⟨[0, 1, 0, 2, 0, 3, 9, 9], 0⟩ : Address UInt8) 3
          (⟨[0, 3, 8, 8], 0⟩ : Address UInt8) 1 (common (fun i => i + 1) (fun j => j + 3) 3 1) := by
  have increasing : ∀ start count : Nat, Increasing (fun i => i + start) count := fun start count i j less _ =>
    Nat.add_lt_add_right less start
  refine ⟨increasing 1 3, increasing 3 1, ⟨(increasing 1 3).nonDecreasing, (increasing 3 1).nonDecreasing, ?_, ?_,
    nofun⟩, by decide, ?_⟩
  · have compared : ∀ i < 3, ∀ j < 1, (pairClass.cmp (keyAt pairClass (⟨[0, 1, 0, 2, 0, 3, 9, 9], 0⟩ : Address UInt8) i)
        (keyAt pairClass (⟨[0, 3, 8, 8], 0⟩ : Address UInt8) j) = 0 ↔ i + 1 = j + 3) := by decide
    exact fun i j inLeft inRight => compared i inLeft j inRight
  · have compared : ∀ i < 3, ∀ j < 1, (pairClass.cmp (keyAt pairClass (⟨[0, 1, 0, 2, 0, 3, 9, 9], 0⟩ : Address UInt8) i)
        (keyAt pairClass (⟨[0, 3, 8, 8], 0⟩ : Address UInt8) j) < 0 ↔ i + 1 < j + 3) := by decide
    exact fun i j inLeft inRight => compared i inLeft j inRight
  · intro visits
    have noted := visits (List Nat) Unit (fun _ => ()) (fun visited key => .ok (visited ++ [key.offset])) []
    have nothing : intersectInto pairClass.search (fun _ => ()) (fun visited key => .ok (visited ++ [key.offset])) 3 []
        (⟨[0, 1, 0, 2, 0, 3, 9, 9], 0⟩ : Address UInt8) 3 (⟨[0, 3, 8, 8], 0⟩ : Address UInt8) 1 =
        (.ok [] : Except Unit (List Nat)) := rfl
    rw [nothing] at noted
    cases noted

/-- For the order of these arrays, the common element is not always visited. -/
theorem intersect_visits_common_iff_bent :
    1 < 2 ∧ Increasing (fun i => i + 1) 3 ∧ Increasing (fun j => j + 3) 1 ∧
      ¬ ∀ (Key Elem State : Type) [Pointer Key] [Pointer Elem] (cls : ArrayClass Key Elem State) (left : Key)
        (right : Elem),
        cls.size = 2 → cls.keyoffset = 1 → (cls.cmpCanFail = true → 1 < 2 ^ 32 - 1) →
          Arranged cls left right (fun i => i + 1) (fun j => j + 3) 3 1 →
            VisitsExactly cls left 3 right 1 (common (fun i => i + 1) (fun j => j + 3) 3 1) := by
  have increasing : ∀ start count : Nat, Increasing (fun i => i + start) count := fun start count i j less _ =>
    Nat.add_lt_add_right less start
  refine ⟨by decide, increasing 1 3, increasing 3 1, ?_⟩
  rw [intersect_visits_common_iff (by decide) (increasing 1 3) (increasing 3 1)]
  rintro (zero | straight)
  · cases zero
  · rcases (straight 0 (by decide) ⟨0, by decide, by decide, fun wrong => absurd wrong (lt_irrefl 0)⟩).2 with
      ⟨j, bound, same⟩
    change j + 3 = 2 at same
    omega

end KitSortedArray
end LibKit
