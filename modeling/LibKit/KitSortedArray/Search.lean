import LibKit.KitSortedArray.Model

namespace LibKit
namespace KitSortedArray

/-!
# Searching and intersecting sorted arrays

A comparison agrees with a linear order when its sign is that of the ranks of
what it compares.  For arrays sorted by such an order, a search finds an equal
element or the place where it would be, and an intersection visits only left
elements that have an equal in the right array and, for each of these, some
left element of the same rank.
-/

open Pointer (advance advance_zero advance_add)

/-! ## Searching without failures -/

/-- A class that compares by the signs of the results of another. -/
def signed {Key Elem State : Type} (cls : ArrayClass Key Elem State) : ArrayClass Key Elem State :=
  { cls with cmp := fun key elem => (cls.cmp key elem).sign }

theorem sign_ne_cmpError (cmp : Int) : cmp.sign ≠ cmpError := by
  rcases Int.sign_trichotomy cmp with same | same | same <;> rw [same] <;> decide

section

variable {Key Elem State : Type} [Pointer Key] [Pointer Elem] {cls : ArrayClass Key Elem State}

omit [Pointer Key] in
/-- Where no comparison fails, only the signs matter. -/
theorem findKeyLoop_signed (sure : cls.cmpCanFail = false) (array : Elem) (key : Key) (fuel pos lim : Nat) :
    findKeyLoop cls array key fuel pos lim = findKeyLoop (signed cls) array key fuel pos lim := by
  induction fuel generalizing pos lim with
  | zero => rfl
  | succ fuel ih =>
      have fails : ∀ cmp : Int, ¬ (cmp = cmpError ∧ cls.cmpCanFail = true) := by
        rintro cmp ⟨-, can⟩
        rw [sure] at can
        cases can
      rw [findKeyLoop, findKeyLoop]
      simp only [signed, Int.sign_eq_zero_iff_zero, fails, if_false, gt_iff_lt, Int.sign_pos_iff]
      simp only [ih]
      rfl

omit [Pointer Key] in
theorem findKey_signed (sure : cls.cmpCanFail = false) (array : Elem) (count : Nat) (key : Key) :
    findKey cls array count key = findKey (signed cls) array count key :=
  findKeyLoop_signed sure array key count 0 count

end

section

variable {Rank : Type} [LinearOrder Rank]

/-- A comparison did not fail and has the sign of two ranks. -/
structure Agrees (cmp : Int) (first second : Rank) : Prop where
  eq_iff : cmp = 0 ↔ first = second
  lt_iff : cmp < 0 ↔ first < second
  ok : cmp ≠ cmpError

theorem Agrees.gt_iff {cmp : Int} {first second : Rank} (agrees : Agrees cmp first second) :
    0 < cmp ↔ second < first := by
  constructor
  · intro positive
    rcases lt_trichotomy first second with below | same | above
    · have negative := agrees.lt_iff.mpr below
      omega
    · have zero := agrees.eq_iff.mpr same
      omega
    · exact above
  · intro above
    have notZero : cmp ≠ 0 := fun zero => absurd (agrees.eq_iff.mp zero) (ne_of_gt above)
    have notNegative : ¬ cmp < 0 := fun negative => lt_asymm above (agrees.lt_iff.mp negative)
    omega

theorem Agrees.le_iff {cmp : Int} {first second : Rank} (agrees : Agrees cmp first second) :
    cmp ≤ 0 ↔ first ≤ second := by
  rw [← not_lt, ← not_lt, agrees.gt_iff]

def NonDecreasing (rank : Nat → Rank) (count : Nat) : Prop :=
  ∀ i j, i < j → j < count → rank i ≤ rank j

/-- A smaller rank stands before a larger one. -/
theorem NonDecreasing.lt {rank : Nat → Rank} {count : Nat} (sorted : NonDecreasing rank count) {i j : Nat}
    (inside : i < count) (less : rank i < rank j) : i < j := by
  by_contra notBefore
  rcases Nat.eq_or_lt_of_le (Nat.le_of_not_lt notBefore) with same | after
  · rw [same] at less
    exact lt_irrefl _ less
  · exact not_le_of_gt less (sorted j i after inside)

def Increasing (rank : Nat → Rank) (count : Nat) : Prop :=
  ∀ i j, i < j → j < count → rank i < rank j

theorem Increasing.nonDecreasing {rank : Nat → Rank} {count : Nat} (increasing : Increasing rank count) :
    NonDecreasing rank count := fun i j before bound => le_of_lt (increasing i j before bound)

structure Located (rank : Nat → Rank) (count : Nat) (wanted : Rank) (pos : Nat) (matched : Bool) : Prop where
  bound : pos ≤ count
  hit : matched = true → pos < count ∧ rank pos = wanted
  below : matched = false → ∀ j, j < pos → rank j < wanted
  above : matched = false → ∀ j, pos ≤ j → j < count → wanted < rank j

variable {Key Elem State : Type} [Pointer Key] [Pointer Elem] {cls : ArrayClass Key Elem State}

/-! ## Searching -/

omit [Pointer Key] in
theorem findKeyLoop_congr {key key' : Key} (same : ∀ element, cls.cmp key element = cls.cmp key' element) (array : Elem)
    (fuel pos lim : Nat) : findKeyLoop cls array key fuel pos lim = findKeyLoop cls array key' fuel pos lim := by
  induction fuel generalizing pos lim with
  | zero => rfl
  | succ fuel ih => simp only [findKeyLoop, same, ih]

omit [Pointer Key] in
theorem findKey_congr {key key' : Key} (same : ∀ element, cls.cmp key element = cls.cmp key' element) (array : Elem)
    (count : Nat) :
    findKey cls array count key = findKey cls array count key' := findKeyLoop_congr same array count 0 count

omit [Pointer Key] in
/-- The loop keeps the wanted rank between the elements before `pos` and those
from `pos + lim` on. -/
theorem findKeyLoop_located {array : Elem} {key : Key} {rank : Nat → Rank} {count : Nat} {wanted : Rank}
    (sorted : NonDecreasing rank count)
    (agrees : ∀ i, i < count → Agrees (cls.cmp key (advance array (cls.size * i + cls.keyoffset))) wanted (rank i))
    (fuel pos lim : Nat) (enough : lim ≤ fuel) (bound : pos + lim ≤ count)
    (below : ∀ j, j < pos → rank j < wanted) (above : ∀ j, pos + lim ≤ j → j < count → wanted < rank j) :
    ∃ found matched, findKeyLoop cls array key fuel pos lim = some (found, matched) ∧
      Located rank count wanted found matched := by
  induction fuel generalizing pos lim with
  | zero =>
      have empty : lim = 0 := Nat.le_zero.mp enough
      subst empty
      exact ⟨pos, false, rfl, bound, by simp, fun _ => below, fun _ => above⟩
  | succ fuel ih =>
      rw [findKeyLoop]
      by_cases empty : lim = 0
      · subst empty
        exact ⟨pos, false, if_pos rfl, bound, by simp, fun _ => below, fun _ => above⟩
      · have inside : pos + lim / 2 < count := by omega
        have agree := agrees _ inside
        rw [if_neg empty]
        dsimp only
        by_cases same : cls.cmp key (advance array (cls.size * (pos + lim / 2) + cls.keyoffset)) = 0
        · rw [if_pos same]
          exact ⟨_, true, rfl, Nat.le_of_lt inside, fun _ => ⟨inside, (agree.eq_iff.mp same).symm⟩,
            by simp, by simp⟩
        · rw [if_neg same, if_neg (fun fails => agree.ok fails.1)]
          by_cases greater : cls.cmp key (advance array (cls.size * (pos + lim / 2) + cls.keyoffset)) > 0
          · rw [if_pos greater]
            have smaller := agree.gt_iff.mp greater
            apply ih
            · omega
            · omega
            · intro j before
              rcases Nat.lt_or_ge j (pos + lim / 2) with earlier | later
              · exact lt_of_le_of_lt (sorted j _ earlier inside) smaller
              · have here : j = pos + lim / 2 := by omega
                rw [here]
                exact smaller
            · intro j behind inCount
              exact above j (by omega) inCount
          · rw [if_neg greater]
            have larger := agree.lt_iff.mp (by omega)
            apply ih
            · omega
            · omega
            · exact below
            · intro j behind inCount
              rcases Nat.eq_or_lt_of_le behind with here | later
              · rw [← here]
                exact larger
              · exact lt_of_lt_of_le larger (sorted _ j later inCount)

omit [Pointer Key] in
theorem findKey_located {array : Elem} {key : Key} {rank : Nat → Rank} {count : Nat} {wanted : Rank}
    (sorted : NonDecreasing rank count)
    (agrees : ∀ i, i < count → Agrees (cls.cmp key (advance array (cls.size * i + cls.keyoffset))) wanted (rank i)) :
    ∃ found matched, findKey cls array count key = some (found, matched) ∧
      Located rank count wanted found matched := by
  apply findKeyLoop_located sorted agrees count 0 count (Nat.le_refl _) (by omega)
  · intro j impossible
    omega
  · intro j behind inCount
    omega

theorem Located.matched_iff {rank : Nat → Rank} {count pos : Nat} {wanted : Rank} {matched : Bool}
    (located : Located rank count wanted pos matched) :
    matched = true ↔ ∃ j, j < count ∧ rank j = wanted := by
  cases matched with
  | true =>
      rcases located.hit rfl with ⟨inside, same⟩
      exact ⟨fun _ => ⟨pos, inside, same⟩, fun _ => rfl⟩
  | false =>
      constructor
      · intro impossible
        cases impossible
      · rintro ⟨j, inside, same⟩
        rcases Nat.lt_or_ge j pos with before | behind
        · exact absurd same (ne_of_lt (located.below rfl j before))
        · exact absurd same (ne_of_gt (located.above rfl j behind inside))

/-! ## Intersecting -/

/-- Visit the left elements with the given indexes. -/
def visitAll (cls : ArrayClass Key Elem State) (left : Key) (visited : List Nat) (value : State) : Option State :=
  visited.foldlM (fun value i => cls.visit value (elemAt cls left i)) value

omit [Pointer Elem] in
theorem visitAll_append (left : Key) (first second : List Nat) (value : State) :
    visitAll cls left (first ++ second) value = (visitAll cls left first value).bind (visitAll cls left second) :=
  List.foldlM_append

omit [Pointer Elem] in
theorem visitAll_single (left : Key) (i : Nat) (value : State) :
    visitAll cls left [i] value = cls.visit value (elemAt cls left i) := by
  simp [visitAll]

/-- The left indexes visited for the windows of `n` left elements from `i0` on
and `m` right elements from `j0` on. -/
structure Visits (rankL rankR : Nat → Rank) (i0 n j0 m : Nat) (visited : List Nat) : Prop where
  inOrder : visited.Sublist (List.range' i0 n)
  sound : ∀ i ∈ visited, i0 ≤ i ∧ i < i0 + n ∧ ∃ j, j0 ≤ j ∧ j < j0 + m ∧ rankR j = rankL i
  complete : ∀ i, i0 ≤ i → i < i0 + n → (∃ j, j0 ≤ j ∧ j < j0 + m ∧ rankR j = rankL i) →
    ∃ other ∈ visited, rankL other = rankL i

/-- Two sorted arrays whose keys the class compares by rank, wherever the keys
are in the elements. -/
structure Arranged (cls : ArrayClass Key Elem State) (left : Key) (right : Elem) (rankL rankR : Nat → Rank)
    (leftCount rightCount : Nat) : Prop where
  sortedLeft : NonDecreasing rankL leftCount
  sortedRight : NonDecreasing rankR rightCount
  same : ∀ i j, i < leftCount → j < rightCount →
    (cls.cmp (keyAt cls left i) (keyAt cls right j) = 0 ↔ rankL i = rankR j)
  less : ∀ i j, i < leftCount → j < rightCount →
    (cls.cmp (keyAt cls left i) (keyAt cls right j) < 0 ↔ rankL i < rankR j)
  sure : cls.cmpCanFail = true → ∀ i j, i < leftCount → j < rightCount →
    cls.cmp (keyAt cls left i) (keyAt cls right j) ≠ cmpError

/-- Two sorted arrays whose elements the class compares by rank. -/
structure Sorted (cls : ArrayClass Key Elem State) (left : Key) (right : Elem) (rankL rankR : Nat → Rank)
    (leftCount rightCount : Nat) : Prop where
  keyoffset : cls.keyoffset = 0
  sortedLeft : NonDecreasing rankL leftCount
  sortedRight : NonDecreasing rankR rightCount
  agrees : ∀ i j, i < leftCount → j < rightCount →
    Agrees (cls.cmp (elemAt cls left i) (elemAt cls right j)) (rankL i) (rankR j)

variable {left : Key} {right : Elem} {rankL rankR : Nat → Rank} {leftCount rightCount : Nat}

omit [Pointer Key] [Pointer Elem] in
theorem elemAt_elemAt {P : Type} [Pointer P] (array : P) (first second : Nat) :
    elemAt cls (elemAt cls array first) second = elemAt cls array (first + second) := by
  rw [elemAt, elemAt, elemAt, advance_add, Nat.add_mul]

omit [Pointer Key] [Pointer Elem] in
@[simp] theorem elemAt_zero {P : Type} [Pointer P] (array : P) : elemAt cls array 0 = array := by
  rw [elemAt, Nat.zero_mul, advance_zero]

omit [Pointer Key] [Pointer Elem] in
theorem keyAt_elemAt {P : Type} [Pointer P] (array : P) (first second : Nat) :
    keyAt cls (elemAt cls array first) second = keyAt cls array (first + second) := by
  rw [keyAt, keyAt, elemAt_elemAt]

omit [Pointer Key] [Pointer Elem] in
/-- Where the keys are the first bytes of the elements, a pointer to a key is a
pointer to an element. -/
theorem keyAt_eq_elemAt {P : Type} [Pointer P] (plain : cls.keyoffset = 0) (array : P) (idx : Nat) :
    keyAt cls array idx = elemAt cls array idx := by
  rw [keyAt, plain, advance_zero]

omit [Pointer Key] in
theorem keyAt_window (array : Elem) (j0 j : Nat) :
    advance (elemAt cls array j0) (cls.size * j + cls.keyoffset) = keyAt cls array (j0 + j) := by
  rw [← keyAt_elemAt, keyAt, elemAt, elemAt, advance_add, advance_add, advance_add, Nat.mul_comm j, ← Nat.add_assoc]

theorem Sorted.arranged (arrays : Sorted cls left right rankL rankR leftCount rightCount) :
    Arranged cls left right rankL rankR leftCount rightCount := by
  refine ⟨arrays.sortedLeft, arrays.sortedRight, ?_, ?_, fun _ => ?_⟩
  all_goals
    intro i j inLeft inRight
    rw [keyAt_eq_elemAt arrays.keyoffset, keyAt_eq_elemAt arrays.keyoffset]
  · exact (arrays.agrees i j inLeft inRight).eq_iff
  · exact (arrays.agrees i j inLeft inRight).lt_iff
  · exact (arrays.agrees i j inLeft inRight).ok

theorem Arranged.findKey (arrays : Arranged cls left right rankL rankR leftCount rightCount) {i j0 m : Nat}
    (inside : i < leftCount) (window : j0 + m ≤ rightCount) :
    ∃ pos matched, KitSortedArray.findKey cls (elemAt cls right j0) m (keyAt cls left i) = some (pos, matched) ∧
      Located (fun j => rankR (j0 + j)) m (rankL i) pos matched := by
  have sorted : NonDecreasing (fun j => rankR (j0 + j)) m := by
    intro first second less bound
    exact arrays.sortedRight (j0 + first) (j0 + second) (by omega) (by omega)
  cases fails : cls.cmpCanFail with
  | true =>
      apply findKey_located sorted
      intro j bound
      rw [keyAt_window]
      exact ⟨arrays.same i (j0 + j) inside (by omega), arrays.less i (j0 + j) inside (by omega),
        arrays.sure fails i (j0 + j) inside (by omega)⟩
  | false =>
      rw [findKey_signed fails]
      apply findKey_located sorted
      intro j bound
      change Agrees (cls.cmp (keyAt cls left i) (advance (elemAt cls right j0) (cls.size * j + cls.keyoffset))).sign _ _
      rw [keyAt_window]
      exact ⟨Int.sign_eq_zero_iff_zero.trans (arrays.same i (j0 + j) inside (by omega)),
        Int.sign_neg_iff.trans (arrays.less i (j0 + j) inside (by omega)), sign_ne_cmpError _⟩

theorem Arranged.visitMatch (arrays : Arranged cls left right rankL rankR leftCount rightCount) {i j0 m : Nat}
    (inside : i < leftCount) (window : j0 + m ≤ rightCount) :
    ∃ visited, (∀ value, KitSortedArray.visitMatch cls value (elemAt cls left i) (keyAt cls left i)
        (elemAt cls right j0) m = visitAll cls left visited value) ∧ Visits rankL rankR i 1 j0 m visited := by
  rcases arrays.findKey inside window with ⟨pos, matched, found, located⟩
  have hit := located.matched_iff
  cases matched with
  | true =>
      refine ⟨[i], ?_, List.Sublist.refl [i], ?_, ?_⟩
      · intro value
        rw [KitSortedArray.visitMatch, found, visitAll_single]
        rfl
      · intro other member
        rcases hit.mp rfl with ⟨j, bound, same⟩
        rw [List.mem_singleton.mp member]
        exact ⟨Nat.le_refl i, Nat.lt_succ_self i, j0 + j, by omega, by omega, same⟩
      · intro other low high _
        have same : other = i := by omega
        exact ⟨i, List.mem_singleton_self i, by rw [same]⟩
  | false =>
      refine ⟨[], ?_, List.nil_sublist _, ?_, ?_⟩
      · intro value
        rw [KitSortedArray.visitMatch, found]
        rfl
      · intro other member
        cases member
      · rintro other low high ⟨j, lowJ, highJ, equal⟩
        have same : other = i := by omega
        have found := hit.mpr ⟨j - j0, by omega, by rw [Nat.add_sub_cancel' lowJ, equal, same]⟩
        cases found

theorem Visits.nil {i0 n j0 m : Nat} (empty : n = 0 ∨ m = 0) : Visits rankL rankR i0 n j0 m [] := by
  refine ⟨List.nil_sublist _, ?_, ?_⟩
  · intro i member
    cases member
  · rintro i low high ⟨j, lowJ, highJ, _⟩
    omega

theorem range'_median {i0 n median : Nat} (medianIn : median < n) :
    List.range' i0 n = List.range' i0 median ++ (i0 + median) :: List.range' (i0 + (median + 1))
      (n - (median + 1)) := by
  have split : n = median + (n - (median + 1) + 1) := by omega
  rw [split, ← List.range'_append_1, List.range'_succ]
  congr 3
  omega

/-- A match of the median splits both arrays: what is smaller is before it on
both sides and what is larger behind it. -/
theorem Visits.split_matched (arrays : Arranged cls left right rankL rankR leftCount rightCount)
    {i0 n j0 m median idx : Nat} (windowL : i0 + n ≤ leftCount) (windowR : j0 + m ≤ rightCount)
    (medianIn : median < n) (idxIn : idx < m) (same : rankR (j0 + idx) = rankL (i0 + median))
    {first second : List Nat} (before : Visits rankL rankR i0 median j0 idx first)
    (behind : Visits rankL rankR (i0 + (median + 1)) (n - (median + 1)) (j0 + (idx + 1)) (m - (idx + 1)) second) :
    Visits rankL rankR i0 n j0 m (first ++ (i0 + median) :: second) := by
  refine ⟨?_, ?_, ?_⟩
  · rw [range'_median medianIn]
    exact before.inOrder.append (behind.inOrder.cons_cons _)
  · intro i member
    rcases List.mem_append.mp member with inFirst | rest
    · rcases before.sound i inFirst with ⟨low, high, j, lowJ, highJ, equal⟩
      exact ⟨low, by omega, j, lowJ, by omega, equal⟩
    · rcases List.mem_cons.mp rest with now | inSecond
      · rw [now]
        exact ⟨by omega, by omega, j0 + idx, by omega, by omega, same⟩
      · rcases behind.sound i inSecond with ⟨low, high, j, lowJ, highJ, equal⟩
        exact ⟨by omega, by omega, j, by omega, by omega, equal⟩
  · rintro i low high ⟨j, lowJ, highJ, equal⟩
    rcases lt_trichotomy (rankL i) (rankL (i0 + median)) with smaller | here | larger
    · have beforeMedian := arrays.sortedLeft.lt (by omega) smaller
      have beforeIdx : j < j0 + idx := by
        rw [← equal, ← same] at smaller
        exact arrays.sortedRight.lt (by omega) smaller
      rcases before.complete i low beforeMedian ⟨j, lowJ, beforeIdx, equal⟩ with ⟨other, member, rank⟩
      exact ⟨other, List.mem_append_left _ member, rank⟩
    · exact ⟨i0 + median, List.mem_append_right _ List.mem_cons_self, here.symm⟩
    · have afterMedian := arrays.sortedLeft.lt (by omega) larger
      have afterIdx : j0 + idx < j := by
        rw [← equal, ← same] at larger
        exact arrays.sortedRight.lt (by omega) larger
      rcases behind.complete i (by omega) (by omega) ⟨j, by omega, by omega, equal⟩ with ⟨other, member, rank⟩
      exact ⟨other, List.mem_append_right _ (List.mem_cons_of_mem _ member), rank⟩

/-- A median that is missing on the right splits both arrays at its place. -/
theorem Visits.split_missing (arrays : Arranged cls left right rankL rankR leftCount rightCount)
    {i0 n j0 m median idx : Nat} (windowL : i0 + n ≤ leftCount) (medianIn : median < n)
    (idxIn : idx ≤ m) (below : ∀ j, j < idx → rankR (j0 + j) < rankL (i0 + median))
    (above : ∀ j, idx ≤ j → j < m → rankL (i0 + median) < rankR (j0 + j))
    {first second : List Nat} (before : Visits rankL rankR i0 median j0 idx first)
    (behind : Visits rankL rankR (i0 + (median + 1)) (n - (median + 1)) (j0 + idx) (m - idx) second) :
    Visits rankL rankR i0 n j0 m (first ++ second) := by
  refine ⟨?_, ?_, ?_⟩
  · rw [range'_median medianIn]
    exact before.inOrder.append (behind.inOrder.cons _)
  · intro i member
    rcases List.mem_append.mp member with inFirst | inSecond
    · rcases before.sound i inFirst with ⟨low, high, j, lowJ, highJ, equal⟩
      exact ⟨low, by omega, j, lowJ, by omega, equal⟩
    · rcases behind.sound i inSecond with ⟨low, high, j, lowJ, highJ, equal⟩
      exact ⟨by omega, by omega, j, by omega, by omega, equal⟩
  · rintro i low high ⟨j, lowJ, highJ, equal⟩
    rcases Nat.lt_or_ge (j - j0) idx with early | late
    · have smaller := below _ early
      rw [Nat.add_sub_cancel' lowJ, equal] at smaller
      have beforeMedian := arrays.sortedLeft.lt (by omega) smaller
      rcases before.complete i low beforeMedian ⟨j, lowJ, by omega, equal⟩ with ⟨other, member, rank⟩
      exact ⟨other, List.mem_append_left _ member, rank⟩
    · have larger := above _ late (by omega)
      rw [Nat.add_sub_cancel' lowJ, equal] at larger
      have afterMedian := arrays.sortedLeft.lt (by omega) larger
      rcases behind.complete i (by omega) (by omega) ⟨j, by omega, by omega, equal⟩ with ⟨other, member, rank⟩
      exact ⟨other, List.mem_append_right _ member, rank⟩

theorem Located.lt_iff {rank : Nat → Rank} {count pos : Nat} {wanted : Rank} {matched : Bool}
    (located : Located rank count wanted pos matched) (increasing : Increasing rank count) {j : Nat}
    (inside : j < count) :
    j < pos ↔ rank j < wanted := by
  cases matched with
  | true =>
      rcases located.hit rfl with ⟨posIn, same⟩
      rw [← same]
      refine ⟨fun before => increasing j pos before posIn, fun less => ?_⟩
      exact increasing.nonDecreasing.lt inside less
  | false =>
      refine ⟨located.below rfl j, fun less => ?_⟩
      by_contra behind
      exact lt_asymm less (located.above rfl j (Nat.le_of_not_lt behind) inside)

/-- The left elements behind the median are searched for by no further call:
there are none, or no right element is behind it, or the median is met and just
one left element is behind it. -/
def EndsAt (rankL rankR : Nat → Rank) (n m : Nat) : Prop :=
  3 ≤ n → (∃ j, j < m ∧ rankL (n / 2) < rankR j) → n < 5 ∧ ∃ j, j < m ∧ rankR j = rankL (n / 2)

/-- No call is made for the left elements behind a median.  The medians of the
calls for what is before them are at a half, a quarter and so on of the left
array, and each such call is for the right keys less than the median before. -/
def Straight (rankL rankR : Nat → Rank) (n m : Nat) : Prop :=
  ∀ k, 3 ≤ n / 2 ^ k →
    (∃ j, j < m ∧ rankL (n / 2 ^ (k + 1)) < rankR j ∧ (0 < k → rankR j < rankL (n / 2 ^ k))) →
    n / 2 ^ k < 5 ∧ ∃ j, j < m ∧ rankR j = rankL (n / 2 ^ (k + 1))

/-- The calls for a window are that for its median and those for what is before
it. -/
theorem straight_iff {n m idx : Nat} (increasing : Increasing rankL leftCount) (inLeft : n ≤ leftCount)
    (idxIn : idx ≤ m)
    (before : ∀ j, j < m → (j < idx ↔ rankR j < rankL (n / 2))) :
    Straight rankL rankR n m ↔ EndsAt rankL rankR n m ∧ Straight rankL rankR (n / 2) idx := by
  have half : ∀ k, n / 2 / 2 ^ k = n / 2 ^ (k + 1) := fun k => by rw [Nat.div_div_eq_div_mul, ← pow_succ']
  have medians : ∀ k, 3 ≤ n / 2 ^ (k + 1) → rankL (n / 2 ^ (k + 1)) ≤ rankL (n / 2) := by
    intro k deep
    have whole := Nat.div_le_self n (2 ^ (k + 1))
    rcases Nat.eq_or_lt_of_le (Nat.div_le_self (n / 2) (2 ^ k)) with same | less
    · rw [← half, same]
    · rw [half] at less
      exact le_of_lt (increasing _ _ less (by omega))
  constructor
  · intro straight
    refine ⟨fun three beyond => ?_, fun k deep beyond => ?_⟩
    · have level := straight 0 (by simpa using three) (by simpa using beyond)
      simpa using level
    · rw [half] at deep
      rw [half, half] at beyond ⊢
      rcases beyond with ⟨j, inside, above, below⟩
      have inM : j < m := Nat.lt_of_lt_of_le inside idxIn
      have less : rankR j < rankL (n / 2 ^ (k + 1)) := by
        rcases Nat.eq_zero_or_pos k with rfl | positive
        · simpa using (before j inM).mp inside
        · exact below positive
      rcases straight (k + 1) deep ⟨j, inM, above, fun _ => less⟩ with ⟨few, other, inside', same⟩
      refine ⟨few, other, (before other inside').mpr ?_, same⟩
      rw [same]
      exact lt_of_lt_of_le (lt_trans above less) (medians k deep)
  · rintro ⟨ends, straight⟩ k deep ⟨j, inside, above, below⟩
    cases k with
    | zero => simpa using ends (by simpa using deep) ⟨j, inside, by simpa using above⟩
    | succ k =>
        have less := below (Nat.succ_pos k)
        have early := (before j inside).mpr (lt_of_lt_of_le less (medians k deep))
        have level := straight k (by rw [half]; exact deep)
          ⟨j, early, by rw [half]; exact above, fun _ => by rw [half]; exact less⟩
        rw [half, half] at level
        rcases level with ⟨few, other, inside', same⟩
        exact ⟨few, other, Nat.lt_of_lt_of_le inside' idxIn, same⟩

theorem intersect_nil (fuel : Nat) (value : State) (left : Key) (right : Elem) (m : Nat) :
    KitSortedArray.intersect cls fuel value left 0 right m = some value := by
  cases fuel with
  | zero => rfl
  | succ fuel => exact if_pos (Or.inl rfl)

/-- Intersecting two windows of sorted arrays.  Where the key is not at the
start of an element, only windows of the first elements are intersected. -/
theorem Arranged.intersect_window (arrays : Arranged cls left right rankL rankR leftCount rightCount)
    (fuel i0 n j0 m : Nat) (enough : n ≤ fuel) (windowL : i0 + n ≤ leftCount) (windowR : j0 + m ≤ rightCount)
    (plain : cls.keyoffset = 0 ∨ i0 = 0 ∧ j0 = 0 ∧ Increasing rankL leftCount ∧ Increasing rankR rightCount ∧
      Straight rankL rankR n m) :
    ∃ visited, (∀ value, KitSortedArray.intersect cls fuel value (elemAt cls left i0) n (elemAt cls right j0) m =
        visitAll cls left visited value) ∧ Visits rankL rankR i0 n j0 m visited := by
  induction fuel generalizing i0 n j0 m with
  | zero => exact ⟨[], fun _ => rfl, Visits.nil (Or.inl (Nat.le_zero.mp enough))⟩
  | succ fuel ih =>
      by_cases empty : n = 0 ∨ m = 0
      · exact ⟨[], fun value => by rw [KitSortedArray.intersect, if_pos empty]; rfl, Visits.nil empty⟩
      by_cases single : n = 1
      · subst single
        rcases arrays.visitMatch (show i0 < leftCount by omega) windowR with ⟨visited, same, visits⟩
        refine ⟨visited, ?_, visits⟩
        intro value
        rw [KitSortedArray.intersect, if_neg empty, if_pos rfl]
        exact same value
      have medianIn : n / 2 < n := by omega
      rcases arrays.findKey (show i0 + n / 2 < leftCount by omega) windowR with ⟨idx, matched, found, located⟩
      have bound := located.bound
      have levels : cls.keyoffset = 0 ∨ i0 = 0 ∧ j0 = 0 ∧ Increasing rankL leftCount ∧ Increasing rankR rightCount ∧
          EndsAt rankL rankR n m ∧ Straight rankL rankR (n / 2) idx := by
        rcases plain with zero | ⟨rfl, rfl, increasingL, increasingR, straight⟩
        · exact Or.inl zero
        · simp only [Nat.zero_add] at located windowL windowR
          refine Or.inr ⟨rfl, rfl, increasingL, increasingR, ?_⟩
          refine (straight_iff increasingL windowL bound fun j inside => ?_).mp straight
          exact located.lt_iff (fun first second less inM => increasingR first second less (by omega)) inside
      have front : ∃ first, (∀ value, (if n / 2 > 0 ∧ idx > 0 then
            KitSortedArray.intersect cls fuel value (elemAt cls left i0) (n / 2) (elemAt cls right j0) idx
          else some value) = visitAll cls left first value) ∧ Visits rankL rankR i0 (n / 2) j0 idx first := by
        by_cases both : n / 2 > 0 ∧ idx > 0
        · rcases ih i0 (n / 2) j0 idx (by omega) (by omega) (by omega)
            (levels.imp_right fun ⟨startL, startR, increasingL, increasingR, _, straight⟩ =>
              ⟨startL, startR, increasingL, increasingR, straight⟩) with ⟨first, same, visits⟩
          exact ⟨first, fun value => by rw [if_pos both]; exact same value, visits⟩
        · exact ⟨[], fun value => by rw [if_neg both]; rfl, Visits.nil (by omega)⟩
      have back : ∀ idx', idx' ≤ m → (idx' < m → cls.keyoffset = 0 ∨ n - (n / 2 + 1) = 0) →
          ∃ second, (∀ value, (if idx' < m then
            KitSortedArray.intersect cls fuel value (keyAt cls left (i0 + (n / 2 + 1))) (n - (n / 2 + 1))
              (keyAt cls right (j0 + idx')) (m - idx')
          else some value) = visitAll cls left second value) ∧
            Visits rankL rankR (i0 + (n / 2 + 1)) (n - (n / 2 + 1)) (j0 + idx') (m - idx') second := by
        intro idx' bound ends
        by_cases more : idx' < m
        · simp only [if_pos more]
          rcases ends more with zero | none
          · simp only [keyAt_eq_elemAt zero]
            exact ih (i0 + (n / 2 + 1)) (n - (n / 2 + 1)) (j0 + idx') (m - idx') (by omega) (by omega) (by omega)
              (Or.inl zero)
          · simp only [none, intersect_nil]
            exact ⟨[], fun _ => rfl, Visits.nil (Or.inl rfl)⟩
        · exact ⟨[], fun value => by rw [if_neg more]; rfl, Visits.nil (by omega)⟩
      rcases front with ⟨first, sameFirst, visitsFirst⟩
      have foundKey : KitSortedArray.findKey cls (elemAt cls right j0) m (keyAt cls (elemAt cls left i0) (n / 2)) =
          some (idx, matched) := by rw [keyAt_elemAt, found]
      cases matched with
      | true =>
          rcases located.hit rfl with ⟨idxIn, same⟩
          have behind : ∃ second, (∀ value, (if n / 2 + 1 = n - 1 then
                if idx + 1 < m then
                  KitSortedArray.visitMatch cls value (elemAt cls (elemAt cls left i0) (n / 2 + 1))
                    (keyAt cls (elemAt cls left i0) (n / 2 + 1)) (elemAt cls (elemAt cls right j0) (idx + 1))
                    (m - (idx + 1))
                else some value
              else if idx + 1 < m then
                KitSortedArray.intersect cls fuel value (keyAt cls (elemAt cls left i0) (n / 2 + 1)) (n - (n / 2 + 1))
                  (keyAt cls (elemAt cls right j0) (idx + 1)) (m - (idx + 1))
              else some value) = visitAll cls left second value) ∧
                Visits rankL rankR (i0 + (n / 2 + 1)) (n - (n / 2 + 1)) (j0 + (idx + 1)) (m - (idx + 1)) second := by
            simp only [keyAt_elemAt, elemAt_elemAt]
            by_cases last : n / 2 + 1 = n - 1
            · have one : n - (n / 2 + 1) = 1 := by omega
              simp only [if_pos last, one]
              by_cases more : idx + 1 < m
              · simp only [if_pos more]
                exact arrays.visitMatch (by omega) (by omega)
              · simp only [if_neg more]
                exact ⟨[], fun _ => rfl, Visits.nil (by omega)⟩
            · simp only [if_neg last]
              refine back (idx + 1) idxIn fun more => levels.imp_right ?_
              rintro ⟨rfl, rfl, -, increasingR, ends, -⟩
              simp only [Nat.zero_add] at same windowR
              by_contra some
              have above := increasingR idx (idx + 1) (Nat.lt_succ_self idx) (by omega)
              rw [same] at above
              have few := ends (by omega) ⟨idx + 1, more, above⟩
              omega
          rcases behind with ⟨second, sameSecond, visitsSecond⟩
          refine ⟨first ++ (i0 + n / 2) :: second, ?_,
            Visits.split_matched arrays windowL windowR medianIn idxIn same visitsFirst visitsSecond⟩
          intro value
          rw [KitSortedArray.intersect, if_neg empty, if_neg single]
          dsimp only
          rw [foundKey]
          dsimp only
          rw [sameFirst, visitAll_append]
          congr 1
          funext value
          rw [if_pos rfl, ← List.singleton_append, visitAll_append, visitAll_single, elemAt_elemAt]
          congr 1
          funext value
          exact sameSecond value
      | false =>
          have ends : idx < m → cls.keyoffset = 0 ∨ n - (n / 2 + 1) = 0 := by
            refine fun more => levels.imp_right ?_
            rintro ⟨rfl, rfl, -, -, ends, -⟩
            simp only [Nat.zero_add] at located
            by_contra some
            rcases (ends (by omega) ⟨idx, more, located.above rfl idx (Nat.le_refl idx) more⟩).2 with ⟨j, inside, same⟩
            have hit := located.matched_iff.mpr ⟨j, inside, same⟩
            cases hit
          rcases back idx bound ends with ⟨second, sameSecond, visitsSecond⟩
          refine ⟨first ++ second, ?_, Visits.split_missing arrays windowL medianIn located.bound
            (located.below rfl) (located.above rfl) visitsFirst visitsSecond⟩
          intro value
          rw [KitSortedArray.intersect, if_neg empty, if_neg single]
          dsimp only
          rw [foundKey]
          dsimp only
          simp only [keyAt_elemAt, Bool.false_eq_true, if_false]
          rw [sameFirst, visitAll_append]
          congr 1
          funext value
          exact sameSecond value

/-- Intersecting sorted arrays visits left elements with an equal on the right,
at least one of each rank. -/
theorem Sorted.intersect (arrays : Sorted cls left right rankL rankR leftCount rightCount) :
    ∃ visited, (∀ value, KitSortedArray.intersect cls leftCount value left leftCount right rightCount =
        visitAll cls left visited value) ∧ Visits rankL rankR 0 leftCount 0 rightCount visited := by
  have window := arrays.arranged.intersect_window leftCount 0 leftCount 0 rightCount (Nat.le_refl _) (by omega)
    (by omega)
    (Or.inl arrays.keyoffset)
  simpa only [elemAt_zero] using window

end

end KitSortedArray
end LibKit
