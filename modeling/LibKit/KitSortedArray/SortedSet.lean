import LibKit.KitSortedArray.Search
import LibKit.Support.Runs

namespace LibKit
namespace KitSortedArray

open Pointer (advance)

/-!
# Sorted arrays are sorted sets

An array that is changed by `kit_sortedarray_add_elem` and
`kit_sortedarray_delete_elem` holds elements with strictly increasing keys in
its first slots, through any sequence of calls.
-/

/-! ## Elements in memory -/

section

variable {Rank : Type} [LinearOrder Rank]

/-- A class that compares keys by their ranks, which are strictly ordered.  The
rank of a key is read from the memory at the key, and the key of an element is
inside of it. -/
structure Ordered (cls : SetClass) (rank : List UInt8 → Rank) : Prop where
  some : 0 < cls.size
  same : ∀ first second, cls.cmp first second = 0 ↔ rank (first.tokens 1) = rank (second.tokens 1)
  less : ∀ first second, cls.cmp first second < 0 ↔ rank (first.tokens 1) < rank (second.tokens 1)
  inside : ∀ element rest : List UInt8, element.length = cls.size →
    rank ((element ++ rest).drop cls.keyoffset) = rank (element.drop cls.keyoffset)
  copies : cls.zeroCopy = false
  sure : cls.cmpCanFail = false

def keyRank (cls : SetClass) (rank : List UInt8 → Rank) (element : List UInt8) : Rank :=
  rank (element.drop cls.keyoffset)

/-- The array holds elements with strictly increasing keys. -/
structure Represents (cls : SetClass) (rank : List UInt8 → Rank) (slots : Slots) (elements : List (List UInt8)) :
    Prop where
  sizes : ∀ element ∈ elements, element.length = cls.size
  increasing : elements.Pairwise fun first second => keyRank cls rank first < keyRank cls rank second
  count : slots.count = elements.length
  room : slots.count ≤ slots.alloc
  memory : ∃ rest, slots.array.getD [] = elements.flatten ++ rest
  allocated : ∀ block, slots.array = Option.some block → block.length = slots.alloc * cls.size
  unallocated : slots.array = none → elements = []

variable {cls : SetClass} {rank : List UInt8 → Rank}

theorem Ordered.greater (ordered : Ordered cls rank) (first second : Address UInt8) :
    0 < cls.cmp first second ↔ rank (second.tokens 1) < rank (first.tokens 1) := by
  have same := ordered.same first second
  have less := ordered.less first second
  rcases lt_trichotomy (rank (first.tokens 1)) (rank (second.tokens 1)) with below | equal | above
  · have negative := less.mpr below
    exact ⟨fun positive => by omega, fun other => absurd other (lt_asymm below)⟩
  · have zero := same.mpr equal
    exact ⟨fun positive => by omega, fun other => absurd other (by rw [equal]; exact lt_irrefl _)⟩
  · have notZero : cls.cmp first second ≠ 0 := fun zero => ne_of_gt above (same.mp zero)
    have notNegative : ¬ cls.cmp first second < 0 := fun negative => lt_asymm above (less.mp negative)
    exact ⟨fun _ => above, fun _ => by omega⟩

theorem Ordered.agrees (ordered : Ordered cls rank) (first second : Address UInt8) :
    Agrees ((signed cls.toArrayClass).cmp first second) (rank (first.tokens 1)) (rank (second.tokens 1)) :=
  ⟨Int.sign_eq_zero_iff_zero.trans (ordered.same first second),
    Int.sign_neg_iff.trans (ordered.less first second), sign_ne_cmpError _⟩

theorem flatten_length_eq {size : Nat} {elements : List (List UInt8)}
    (sizes : ∀ element ∈ elements, element.length = size) : elements.flatten.length = elements.length * size := by
  induction elements with
  | nil => simp
  | cons element elements ih =>
      have others := ih fun other member => sizes other (List.mem_cons_of_mem _ member)
      rw [List.flatten_cons, List.length_append, others, sizes element List.mem_cons_self, List.length_cons,
        Nat.succ_mul, Nat.add_comm]

/-- The key of an element in memory. -/
theorem Ordered.rank_at (ordered : Ordered cls rank) {elements : List (List UInt8)} {rest : List UInt8}
    (sizes : ∀ element ∈ elements, element.length = cls.size) {i : Nat} (bound : i < elements.length) :
    rank ((elements.flatten ++ rest).drop (cls.size * i + cls.keyoffset)) = keyRank cls rank elements[i] := by
  have length : (elements.take i).flatten.length = cls.size * i := by
    rw [flatten_length_eq fun element member => sizes element (List.mem_of_mem_take member),
      List.length_take, Nat.min_eq_left (Nat.le_of_lt bound), Nat.mul_comm]
  have memory : elements.flatten ++ rest =
      (elements.take i).flatten ++ (elements[i] ++ ((elements.drop (i + 1)).flatten ++ rest)) := by
    rw [← List.append_assoc elements[i], ← List.flatten_cons, List.getElem_cons_drop, ← List.append_assoc,
      ← List.flatten_append, List.take_append_drop]
  rw [memory, ← length, List.drop_length_add_append]
  exact ordered.inside _ _ (sizes _ (List.getElem_mem bound))

/-! ## Searching -/

/-- The position of a key: that of the element with it, or that of the first
element with a greater key. -/
inductive Found (cls : SetClass) (rank : List UInt8 → Rank) (elements : List (List UInt8)) (wanted : Rank) :
    Nat → Bool → Prop where
  | hit {before after : List (List UInt8)} {element : List UInt8} (split : elements = before ++ element :: after)
      (same : keyRank cls rank element = wanted) : Found cls rank elements wanted before.length true
  | miss {before after : List (List UInt8)} (split : elements = before ++ after)
      (below : ∀ element ∈ before, keyRank cls rank element < wanted)
      (above : ∀ element ∈ after, wanted < keyRank cls rank element) :
      Found cls rank elements wanted before.length false

theorem Located.found {elements : List (List UInt8)} {wanted : Rank} {ranks : Nat → Rank}
    (is : ∀ i (bound : i < elements.length), ranks i = keyRank cls rank elements[i]) {pos : Nat} {matched : Bool}
    (located : Located ranks elements.length wanted pos matched) : Found cls rank elements wanted pos matched := by
  have length : (elements.take pos).length = pos := by
    rw [List.length_take, Nat.min_eq_left located.bound]
  cases matched with
  | true =>
      rcases located.hit rfl with ⟨bound, same⟩
      rw [is pos bound] at same
      have split : elements = elements.take pos ++ elements[pos] :: elements.drop (pos + 1) := by
        rw [List.getElem_cons_drop, List.take_append_drop]
      have found := Found.hit split same
      rwa [length] at found
  | false =>
      have found := @Found.miss Rank _ cls rank elements wanted (elements.take pos) (elements.drop pos)
        (List.take_append_drop pos elements).symm ?_ ?_
      · rwa [length] at found
      · intro element member
        rcases List.mem_iff_getElem.mp member with ⟨i, bound, rfl⟩
        rw [length] at bound
        have inside : i < elements.length := Nat.lt_of_lt_of_le bound located.bound
        rw [List.getElem_take, ← is i inside]
        exact located.below rfl i bound
      · intro element member
        rcases List.mem_iff_getElem.mp member with ⟨i, bound, rfl⟩
        rw [List.length_drop] at bound
        have inside : pos + i < elements.length := by omega
        rw [List.getElem_drop, ← is (pos + i) inside]
        exact located.above rfl (pos + i) (by omega) inside

/-- `kit_sortedarray_find_key` on an array that holds elements. -/
theorem Represents.findKey {slots : Slots} {elements : List (List UInt8)} (ordered : Ordered cls rank)
    (represents : Represents cls rank slots elements) (key : Address UInt8) :
    ∃ pos matched,
      KitSortedArray.findKey cls.toArrayClass ⟨slots.array.getD [], 0⟩ slots.count key = some (pos, matched) ∧
        Found cls rank elements (rank (key.tokens 1)) pos matched := by
  rcases represents.memory with ⟨rest, memory⟩
  have is : ∀ i (bound : i < elements.length),
      rank ((elements.flatten ++ rest).drop (cls.size * i + cls.keyoffset)) = keyRank cls rank elements[i] :=
    fun i bound => ordered.rank_at represents.sizes bound
  have sorted : NonDecreasing (fun i => rank ((elements.flatten ++ rest).drop (cls.size * i + cls.keyoffset)))
      elements.length := by
    intro i j less bound
    dsimp only
    rw [is i (Nat.lt_trans less bound), is j bound]
    exact le_of_lt (List.pairwise_iff_getElem.mp represents.increasing i j (Nat.lt_trans less bound) bound less)
  have agrees : ∀ i, i < elements.length →
      Agrees ((signed cls.toArrayClass).cmp key
          (advance (⟨elements.flatten ++ rest, 0⟩ : Address UInt8) (cls.size * i + cls.keyoffset)))
        (rank (key.tokens 1)) (rank ((elements.flatten ++ rest).drop (cls.size * i + cls.keyoffset))) := by
    intro i _
    have both := ordered.agrees key
      (advance (⟨elements.flatten ++ rest, 0⟩ : Address UInt8) (cls.size * i + cls.keyoffset))
    simpa [Address.tokens, advance] using both
  rcases findKey_located sorted agrees with ⟨pos, matched, found, located⟩
  rw [findKey_signed ordered.sure, represents.count, memory]
  exact ⟨pos, matched, found, located.found is⟩

/-! ## Moving bytes -/

omit [LinearOrder Rank] in
theorem store_eq {before bytes old rest : List UInt8} (same : old.length = bytes.length) :
    store (before ++ (old ++ rest)) before.length bytes = some (before ++ (bytes ++ rest)) := by
  have inside : before.length + bytes.length ≤ (before ++ (old ++ rest)).length := by
    rw [List.length_append, List.length_append]
    omega
  rw [store, if_pos inside, List.take_left, ← same, List.drop_length_add_append, List.drop_left]

theorem store_outside {block bytes : List UInt8} {offset : Nat} (outside : block.length < offset + bytes.length) :
    store block offset bytes = none := if_neg (Nat.not_le_of_lt outside)

theorem move_eq {block bytes : List UInt8} {target source length : Nat} (inside : source + length ≤ block.length)
    (is : (block.drop source).take length = bytes) : move block target source length = store block target bytes := by
  rw [move, if_pos inside, is]

theorem exists_append {bytes : List UInt8} {first second : Nat} (length : bytes.length = first + second) :
    ∃ before after, bytes = before ++ after ∧ before.length = first ∧ after.length = second := by
  refine ⟨bytes.take first, bytes.drop first, (List.take_append_drop first bytes).symm, ?_, ?_⟩
  · rw [List.length_take]
    omega
  · rw [List.length_drop]
    omega

theorem insert_bytes {before after element old rest : List UInt8} (same : old.length = element.length) :
    (move (before ++ (after ++ (old ++ rest))) (before.length + element.length) before.length after.length).bind
        (fun block => store block before.length element) =
      some (before ++ (element ++ (after ++ rest))) := by
  have moved : ((before ++ (after ++ (old ++ rest))).drop before.length).take after.length = after := by
    rw [List.drop_left, List.take_left]
  rcases @exists_append (after ++ old) element.length after.length (by rw [List.length_append]; omega) with
    ⟨first, second, split, lenFirst, lenSecond⟩
  have block : before ++ (after ++ (old ++ rest)) = (before ++ first) ++ (second ++ rest) := by
    rw [← List.append_assoc after, split, List.append_assoc, List.append_assoc]
  rw [move_eq (by simp) moved, block, ← lenFirst, ← List.length_append, store_eq lenSecond, Option.bind_some,
    List.append_assoc, store_eq lenFirst]

theorem delete_bytes (before element after rest : List UInt8) :
    ∃ old, old.length = element.length ∧
      move (before ++ (element ++ (after ++ rest))) before.length (before.length + element.length) after.length =
        some (before ++ (after ++ (old ++ rest))) := by
  have moved : ((before ++ (element ++ (after ++ rest))).drop (before.length + element.length)).take after.length =
      after := by
    rw [List.drop_length_add_append, List.drop_left, List.take_left]
  rcases @exists_append (element ++ after) after.length element.length (by rw [List.length_append]; omega) with
    ⟨first, old, split, lenFirst, lenOld⟩
  refine ⟨old, lenOld, ?_⟩
  rw [move_eq (by simp only [List.length_append]; omega) moved, ← List.append_assoc element, split,
    List.append_assoc, store_eq lenFirst]

/-! ## Adding -/

/-- An element that is not refused for its key. -/
def Addable (cls : SetClass) (rank : List UInt8 → Rank) (elements : List (List UInt8)) (element : List UInt8) : Prop :=
  (∀ other ∈ elements, keyRank cls rank other ≠ keyRank cls rank element) ∧
    (cls.allowInserts = true ∨ ∀ last, elements.getLast? = some last → keyRank cls rank last < keyRank cls rank element)

/-- The key of the last element in memory. -/
theorem Represents.last_key {slots : Slots} {others : List (List UInt8)} {last : List UInt8}
    (ordered : Ordered cls rank) (represents : Represents cls rank slots (others ++ [last])) :
    rank ((keyAt cls.toArrayClass (⟨slots.array.getD [], 0⟩ : Address UInt8) (slots.count - 1)).tokens 1) =
      keyRank cls rank last := by
  rcases represents.memory with ⟨rest, memory⟩
  have count := represents.count
  rw [List.length_append, List.length_singleton] at count
  have here := @Ordered.rank_at _ _ _ _ ordered _ rest represents.sizes others.length
    (by rw [List.length_append, List.length_singleton]; omega)
  have index : slots.count - 1 = others.length := by omega
  rw [List.getElem_concat_length rfl] at here
  rw [← here, index, memory]
  simp only [keyAt, elemAt, advance, Address.tokens, Nat.zero_add, Nat.div_one, Nat.mul_comm]

theorem Represents.position {slots : Slots} {elements : List (List UInt8)} (ordered : Ordered cls rank)
    (represents : Represents cls rank slots elements) (element : List UInt8) :
    (KitSortedArray.position cls (slots.array.getD []) slots.count element = none ∧
      ¬ Addable cls rank elements element) ∨
      ∃ before after, KitSortedArray.position cls (slots.array.getD []) slots.count element = some before.length ∧
        Addable cls rank elements element ∧ elements = before ++ after ∧
        (∀ other ∈ before, keyRank cls rank other < keyRank cls rank element) ∧
        ∀ other ∈ after, keyRank cls rank element < keyRank cls rank other := by
  have key : (⟨element, cls.keyoffset⟩ : Address UInt8).tokens 1 = element.drop cls.keyoffset := by
    rw [Address.tokens, Nat.div_one]
  rcases List.eq_nil_or_concat elements with rfl | ⟨others, last, rfl⟩
  · have count := represents.count
    rw [List.length_nil] at count
    have none : ∀ other ∈ ([] : List (List UInt8)), False := fun other member => List.not_mem_nil member
    refine Or.inr ⟨[], [], ?_, ⟨fun other member => (none other member).elim, Or.inr ?_⟩, rfl,
      fun other member => (none other member).elim, fun other member => (none other member).elim⟩
    · rw [KitSortedArray.position, if_pos count, List.length_nil]
    · intro last isLast
      cases isLast
  · rw [List.concat_eq_append] at *
    have count := represents.count
    rw [List.length_append, List.length_singleton] at count
    have isLast : (others ++ [last]).getLast? = some last := List.getLast?_concat
    have lastIn : last ∈ others ++ [last] := List.mem_append_right _ (List.mem_singleton_self _)
    have smaller : ∀ other ∈ others ++ [last], keyRank cls rank other ≤ keyRank cls rank last := by
      intro other member
      rcases List.mem_append.mp member with before | same
      · exact le_of_lt ((List.pairwise_append.mp represents.increasing).2.2 other before last
          (List.mem_singleton_self _))
      · rw [List.mem_singleton.mp same]
    have lastKey := represents.last_key ordered
    rw [KitSortedArray.position, if_neg (by omega)]
    dsimp only
    by_cases same : cls.cmp (keyAt cls.toArrayClass ⟨slots.array.getD [], 0⟩ (slots.count - 1))
        ⟨element, cls.keyoffset⟩ = 0
    · rw [if_pos same]
      rw [ordered.same, lastKey, key] at same
      exact Or.inl ⟨rfl, fun addable => addable.1 last lastIn same⟩
    · rw [if_neg same]
      rw [ordered.same, lastKey, key] at same
      by_cases above : cls.cmp (keyAt cls.toArrayClass ⟨slots.array.getD [], 0⟩ (slots.count - 1))
          ⟨element, cls.keyoffset⟩ > 0
      · rw [if_pos above]
        rw [gt_iff_lt, ordered.greater, lastKey, key] at above
        by_cases inserts : cls.allowInserts = true
        · rw [if_pos inserts]
          rcases represents.findKey ordered ⟨element, cls.keyoffset⟩ with ⟨pos, matched, found, isFound⟩
          rw [found, key] at *
          cases isFound with
          | @hit before after other split equal =>
              refine Or.inl ⟨rfl, fun addable => addable.1 other ?_ equal⟩
              rw [split]
              exact List.mem_append_right _ List.mem_cons_self
          | @miss before after split lower higher =>
              refine Or.inr ⟨before, after, rfl, ⟨?_, Or.inl inserts⟩, split, lower, higher⟩
              intro other member
              rw [split] at member
              rcases List.mem_append.mp member with inBefore | inAfter
              · exact ne_of_lt (lower other inBefore)
              · exact ne_of_gt (higher other inAfter)
        · rw [if_neg inserts]
          refine Or.inl ⟨rfl, ?_⟩
          rintro ⟨-, allowed | greatest⟩
          · exact inserts allowed
          · exact lt_asymm above (greatest last isLast)
      · rw [if_neg above]
        rw [gt_iff_lt, ordered.greater, lastKey, key] at above
        have greatest : keyRank cls rank last < keyRank cls rank element := lt_of_le_of_ne (not_lt.mp above) same
        have lower : ∀ other ∈ others ++ [last], keyRank cls rank other < keyRank cls rank element :=
          fun other member => lt_of_le_of_lt (smaller other member) greatest
        refine Or.inr ⟨others ++ [last], [], ?_, ⟨fun other member => ne_of_lt (lower other member), Or.inr ?_⟩,
          (List.append_nil _).symm, lower, fun other member => (List.not_mem_nil member).elim⟩
        · rw [represents.count]
        · intro found isFound
          rw [isLast, Option.some.injEq] at isFound
          rw [← isFound]
          exact greatest

def Slots.Full (slots : Slots) : Prop := slots.array = none ∨ slots.count = slots.alloc

/-- The number of bytes that is asked for when the array is full does not wrap. -/
def Slots.Fits (cls : SetClass) (slots : Slots) : Prop := slots.Full → (slots.alloc + more slots) * cls.size < 2 ^ 64

theorem more_lt {slots : Slots} (few : slots.alloc < 2 ^ 31) : slots.alloc + more slots < 2 ^ 32 := by
  rw [more]
  split
  · split <;> omega
  · omega

theorem more_eq_zero_iff (slots : Slots) : more slots = 0 ↔ slots.count ≠ slots.alloc := by
  rw [more]
  split
  · split <;> omega
  · exact ⟨fun _ => by assumption, fun _ => rfl⟩

theorem requested_eq {slots : Slots} (few : slots.alloc < 2 ^ 31) (fits : slots.Fits cls) (full : slots.Full) :
    requested cls slots = (slots.alloc + more slots) * cls.size := by
  rw [requested, Nat.mod_eq_of_lt (more_lt few), Nat.mod_eq_of_lt (fits full)]

/-- An array is reallocated if and only if it is full. -/
theorem grow_cases (cls : SetClass) (grant : Grant) {slots : Slots} (few : slots.alloc < 2 ^ 31) :
    (slots.Full ∧ grow cls grant slots =
      (realloc grant slots.array (requested cls slots)).map fun block => (block, slots.alloc + more slots)) ∨
      ∃ block, ¬ slots.Full ∧ slots.array = some block ∧ grow cls grant slots = some (block, slots.alloc) := by
  rw [grow, Nat.mod_eq_of_lt (more_lt few)]
  cases array : slots.array with
  | none => exact Or.inl ⟨Or.inl array, rfl⟩
  | some block =>
      dsimp only
      by_cases spare : more slots = 0
      · rw [if_pos spare]
        refine Or.inr ⟨block, ?_, rfl, rfl⟩
        rintro (missing | filled)
        · rw [array] at missing
          cases missing
        · exact (more_eq_zero_iff slots).mp spare filled
      · rw [if_neg spare]
        refine Or.inl ⟨Or.inr ?_, rfl⟩
        by_contra other
        exact spare ((more_eq_zero_iff slots).mpr other)

theorem realloc_eq {grant : Grant} {array : Option (List UInt8)} {bytes : Nat} {held rest : List UInt8}
    (holds : array.getD [] = held ++ rest) (enough : held.length ≤ bytes) :
    (realloc grant array bytes = none ∧ grant bytes = none) ∨
      ∃ block rest, realloc grant array bytes = some block ∧ (grant bytes).isSome = true ∧
        block = held ++ rest ∧ block.length = bytes := by
  rw [realloc]
  cases granted : grant bytes with
  | none => exact Or.inl ⟨rfl, rfl⟩
  | some content =>
      refine Or.inr ⟨_, ((List.range bytes).map fun i => (array.getD []).getD i (content i)).drop held.length, rfl, rfl,
        ?_, by rw [List.length_map, List.length_range]⟩
      have kept : ((List.range bytes).map fun i => (array.getD []).getD i (content i)).take held.length = held := by
        refine List.ext_getElem ?_ ?_
        · rw [List.length_take, List.length_map, List.length_range]
          omega
        · intro i _ bound
          simp [holds, List.getD_eq_getElem?_getD, List.getElem?_append_left, bound]
      have whole := List.take_append_drop held.length ((List.range bytes).map fun i =>
        (array.getD []).getD i (content i))
      rw [kept] at whole
      exact whole.symm

/-- The memory that `kit_sortedarray_add_elem` works on has room for another
element. -/
theorem Represents.grow {slots : Slots} {elements : List (List UInt8)}
    (represents : Represents cls rank slots elements) (few : slots.alloc < 2 ^ 31) (fits : slots.Fits cls)
    (grant : Grant) :
    (KitSortedArray.grow cls grant slots = none ∧ slots.Full ∧ grant (requested cls slots) = none) ∨
      ∃ block alloc rest, KitSortedArray.grow cls grant slots = some (block, alloc) ∧
        (slots.Full → (grant (requested cls slots)).isSome = true) ∧
        block = elements.flatten ++ rest ∧ block.length = alloc * cls.size ∧ slots.count < alloc := by
  rcases represents.memory with ⟨rest, memory⟩
  have count := represents.count
  have room := represents.room
  rcases grow_cases cls grant few with ⟨full, grown⟩ | ⟨block, notFull, array, grown⟩
  · have larger : slots.count < slots.alloc + more slots := by
      have spare := more_eq_zero_iff slots
      omega
    have enough : elements.flatten.length ≤ requested cls slots := by
      rw [requested_eq few fits full, flatten_length_eq represents.sizes, ← count]
      exact Nat.mul_le_mul_right _ (Nat.le_of_lt larger)
    rcases @realloc_eq grant _ _ _ _ memory enough with ⟨failed, refused⟩ | ⟨block, rest', done, granted, holds, length⟩
    · exact Or.inl ⟨by rw [grown, failed, Option.map_none], full, refused⟩
    · refine Or.inr ⟨block, _, rest', by rw [grown, done, Option.map_some], fun _ => granted, holds, ?_, larger⟩
      rw [length, requested_eq few fits full]
  · refine Or.inr ⟨block, slots.alloc, rest, grown, fun full => absurd full notFull, ?_,
      represents.allocated block array, ?_⟩
    · rw [← memory, array, Option.getD_some]
    · have different : slots.count ≠ slots.alloc := fun filled => notFull (Or.inr filled)
      omega

/-- The conditions under which an element is added. -/
def Succeeds (cls : SetClass) (rank : List UInt8 → Rank) (slots : Slots) (elements : List (List UInt8))
    (element : List UInt8) (grant : Grant) : Prop :=
  Addable cls rank elements element ∧ (slots.count < slots.alloc ∨ cls.allowGrowth = true) ∧
    (slots.Full → (grant (requested cls slots)).isSome = true)

/-- An element between those with smaller and those with greater keys. -/
theorem increasing_insert {before after : List (List UInt8)} {element : List UInt8}
    (increasing : (before ++ after).Pairwise fun first second => keyRank cls rank first < keyRank cls rank second)
    (lower : ∀ other ∈ before, keyRank cls rank other < keyRank cls rank element)
    (higher : ∀ other ∈ after, keyRank cls rank element < keyRank cls rank other) :
    (before ++ element :: after).Pairwise fun first second => keyRank cls rank first < keyRank cls rank second := by
  rw [List.pairwise_append] at increasing ⊢
  refine ⟨increasing.1, List.pairwise_cons.mpr ⟨higher, increasing.2.1⟩, ?_⟩
  intro first inBefore second inAfter
  rcases List.mem_cons.mp inAfter with rfl | later
  · exact lower first inBefore
  · exact increasing.2.2 first inBefore second later

theorem Represents.insertAt {slots : Slots} {before after : List (List UInt8)} {rest element : List UInt8} {alloc : Nat}
    (ordered : Ordered cls rank) (represents : Represents cls rank slots (before ++ after))
    (size : element.length = cls.size) (length : ((before ++ after).flatten ++ rest).length = alloc * cls.size)
    (larger : slots.count < alloc) :
    ∃ final further,
      KitSortedArray.insertAt cls ((before ++ after).flatten ++ rest) before.length slots.count element = some final ∧
      final = (before ++ element :: after).flatten ++ further ∧ final.length = alloc * cls.size := by
  have count := represents.count
  have lengthBefore := flatten_length_eq fun other member => represents.sizes other (List.mem_append_left after member)
  have lengthAfter := flatten_length_eq fun other member => represents.sizes other (List.mem_append_right before member)
  rw [List.length_append] at count
  rw [List.flatten_append, List.append_assoc] at length ⊢
  have total : before.flatten.length + (after.flatten.length + rest.length) = alloc * cls.size := by
    rw [← length, List.length_append, List.length_append]
  have enough : (before.length + after.length + 1) * cls.size ≤ alloc * cls.size :=
    Nat.mul_le_mul_right _ (by omega)
  rw [Nat.add_mul, Nat.add_mul, Nat.one_mul, ← lengthBefore, ← lengthAfter] at enough
  rcases @exists_append rest element.length (rest.length - element.length) (by omega) with
    ⟨old, further, rfl, lengthOld, -⟩
  have final : (before ++ element :: after).flatten ++ further =
      before.flatten ++ (element ++ (after.flatten ++ further)) := by
    rw [List.flatten_append, List.flatten_cons, List.append_assoc, List.append_assoc]
  have same : ((before ++ element :: after).flatten ++ further).length = alloc * cls.size := by
    rw [List.length_append] at total
    rw [final, List.length_append, List.length_append, List.length_append]
    omega
  refine ⟨_, further, ?_, rfl, same⟩
  rw [KitSortedArray.insertAt, ordered.copies, List.take_of_length_le (Nat.le_of_eq size), final, ← lengthBefore]
  by_cases inner : before.length < slots.count
  · have behind : (slots.count - before.length) * cls.size = after.flatten.length := by
      rw [lengthAfter, count, Nat.add_sub_cancel_left]
    rw [if_pos inner, behind, ← size]
    exact insert_bytes lengthOld
  · have last : after = [] := List.eq_nil_of_length_eq_zero (by omega)
    subst last
    rw [if_neg inner]
    exact store_eq lengthOld

/-- `kit_sortedarray_add_elem` adds an element in its place, or changes
nothing. -/
theorem Represents.addElem {slots : Slots} {elements : List (List UInt8)} (ordered : Ordered cls rank)
    (represents : Represents cls rank slots elements) (few : slots.alloc < 2 ^ 31) (fits : slots.Fits cls)
    (grant : Grant) {element : List UInt8} (size : element.length = cls.size) :
    (¬ Succeeds cls rank slots elements element grant ∧
      KitSortedArray.addElem cls grant slots element = some (none, slots)) ∨
      ∃ before after next, Succeeds cls rank slots elements element grant ∧ elements = before ++ after ∧
        KitSortedArray.addElem cls grant slots element = some (some (before.length * cls.size), next) ∧
        Represents cls rank next (before ++ element :: after) := by
  rw [KitSortedArray.addElem]
  rcases represents.position ordered element with
    ⟨refused, notAddable⟩ | ⟨before, after, placed, addable, rfl, lower, higher⟩
  · rw [refused]
    exact Or.inl ⟨fun succeeds => notAddable succeeds.1, rfl⟩
  · rw [placed]
    dsimp only
    by_cases stuck : slots.count = slots.alloc ∧ ¬ cls.allowGrowth = true
    · rw [if_pos stuck]
      refine Or.inl ⟨?_, rfl⟩
      rintro ⟨-, room | growth, -⟩
      · omega
      · exact stuck.2 growth
    · rw [if_neg stuck]
      rcases represents.grow few fits grant with
        ⟨failed, full, refused⟩ | ⟨block, alloc, rest, grown, granted, rfl, length, larger⟩
      · rw [failed]
        refine Or.inl ⟨?_, rfl⟩
        rintro ⟨-, -, granted⟩
        have isSome := granted full
        rw [refused] at isSome
        cases isSome
      · rw [grown]
        have room := represents.room
        have succeeds : Succeeds cls rank slots (before ++ after) element grant := by
          refine ⟨addable, ?_, granted⟩
          by_cases growth : cls.allowGrowth = true
          · exact Or.inr growth
          · exact Or.inl (Nat.lt_of_le_of_ne room fun filled => stuck ⟨filled, growth⟩)
        rcases represents.insertAt ordered size length larger with ⟨final, further, inserted, holds, same⟩
        refine Or.inr ⟨before, after, ⟨some final, slots.count + 1, alloc⟩, succeeds, rfl, ?_, ?_⟩
        · dsimp only
          rw [inserted, Option.map_some]
        · have count := represents.count
          rw [List.length_append] at count
          refine ⟨?_, increasing_insert represents.increasing lower higher, ?_, larger, ⟨_, holds⟩, ?_, nofun⟩
          · intro other member
            rcases List.mem_append.mp member with inBefore | inAfter
            · exact represents.sizes other (List.mem_append_left _ inBefore)
            · rcases List.mem_cons.mp inAfter with rfl | later
              · exact size
              · exact represents.sizes other (List.mem_append_right _ later)
          · rw [List.length_append, List.length_cons]
            dsimp only
            omega
          · intro block is
            cases is
            exact same

/-! ## Getting and deleting -/

def Absent (cls : SetClass) (rank : List UInt8 → Rank) (elements : List (List UInt8)) (wanted : Rank) : Prop :=
  ∀ element ∈ elements, keyRank cls rank element ≠ wanted

theorem Found.absent {elements : List (List UInt8)} {wanted : Rank} {pos : Nat}
    (found : Found cls rank elements wanted pos false) : Absent cls rank elements wanted := by
  cases found with
  | miss split below above =>
      intro element member
      rw [split] at member
      rcases List.mem_append.mp member with before | after
      · exact ne_of_lt (below element before)
      · exact ne_of_gt (above element after)

theorem Represents.findKey_block {slots : Slots} {elements : List (List UInt8)} (ordered : Ordered cls rank)
    (represents : Represents cls rank slots elements) {block : List UInt8} (array : slots.array = some block)
    (key : List UInt8) :
    ∃ pos matched, KitSortedArray.findKey cls.toArrayClass ⟨block, 0⟩ slots.count ⟨key, 0⟩ = some (pos, matched) ∧
      Found cls rank elements (rank key) pos matched := by
  have found := represents.findKey ordered ⟨key, 0⟩
  rwa [array, Option.getD_some, Address.tokens_zero] at found

theorem Represents.getElem {slots : Slots} {elements : List (List UInt8)} (ordered : Ordered cls rank)
    (represents : Represents cls rank slots elements) (key : List UInt8) :
    (∃ before element after, elements = before ++ element :: after ∧ keyRank cls rank element = rank key ∧
      KitSortedArray.getElem cls slots key = some (before.length * cls.size)) ∨
      (Absent cls rank elements (rank key) ∧ KitSortedArray.getElem cls slots key = none) := by
  rw [KitSortedArray.getElem]
  cases array : slots.array with
  | none =>
      refine Or.inr ⟨?_, rfl⟩
      rw [represents.unallocated array]
      exact nofun
  | some block =>
      rcases represents.findKey_block ordered array key with ⟨pos, matched, searched, found⟩
      dsimp only
      rw [searched]
      cases matched with
      | true =>
          cases found with
          | hit split same => exact Or.inl ⟨_, _, _, split, same, by rw [Nat.mul_comm]⟩
      | false => exact Or.inr ⟨found.absent, rfl⟩

theorem Represents.delete_block {slots : Slots} {before after : List (List UInt8)} {element block : List UInt8}
    (represents : Represents cls rank slots (before ++ element :: after)) (array : slots.array = some block) :
    ∃ final, move block (before.length * cls.size) ((before.length + 1) * cls.size)
        ((slots.count - before.length - 1) * cls.size) = some final ∧
      Represents cls rank ⟨some final, slots.count - 1, slots.alloc⟩ (before ++ after) := by
  have size := represents.sizes element (List.mem_append_right _ List.mem_cons_self)
  have sizes : ∀ other ∈ before ++ after, other.length = cls.size := by
    intro other member
    rcases List.mem_append.mp member with inBefore | inAfter
    · exact represents.sizes other (List.mem_append_left _ inBefore)
    · exact represents.sizes other (List.mem_append_right _ (List.mem_cons_of_mem _ inAfter))
  have lengthBefore := flatten_length_eq fun other member => sizes other (List.mem_append_left after member)
  have lengthAfter := flatten_length_eq fun other member => sizes other (List.mem_append_right before member)
  have count := represents.count
  rw [List.length_append, List.length_cons] at count
  have behind : (slots.count - before.length - 1) * cls.size = after.flatten.length := by
    rw [lengthAfter, count]
    congr 1
    omega
  have length := represents.allocated block array
  rcases represents.memory with ⟨rest, memory⟩
  rw [array, Option.getD_some, List.flatten_append, List.flatten_cons, List.append_assoc, List.append_assoc] at memory
  rcases delete_bytes before.flatten element after.flatten rest with ⟨old, lengthOld, moved⟩
  refine ⟨before.flatten ++ (after.flatten ++ (old ++ rest)), ?_, sizes, ?_, ?_, ?_, ⟨old ++ rest, ?_⟩, ?_, nofun⟩
  · rw [behind, Nat.add_mul, Nat.one_mul, ← lengthBefore, ← size, memory]
    exact moved
  · exact represents.increasing.sublist (List.Sublist.append_left (List.sublist_cons_self _ _) _)
  · rw [List.length_append]
    dsimp only
    omega
  · have room := represents.room
    dsimp only
    omega
  · rw [Option.getD_some, List.flatten_append, List.append_assoc]
  · intro block' same
    cases same
    rw [memory] at length
    simp only [List.length_append] at length ⊢
    omega

theorem Represents.deleteElem {slots : Slots} {elements : List (List UInt8)} (ordered : Ordered cls rank)
    (represents : Represents cls rank slots elements) (key : List UInt8) :
    (∃ before element after next, elements = before ++ element :: after ∧ keyRank cls rank element = rank key ∧
      KitSortedArray.deleteElem cls slots key = some (true, next) ∧ Represents cls rank next (before ++ after)) ∨
      (Absent cls rank elements (rank key) ∧ KitSortedArray.deleteElem cls slots key = some (false, slots)) := by
  have count := represents.count
  rw [KitSortedArray.deleteElem]
  cases array : slots.array with
  | none =>
      refine Or.inr ⟨?_, rfl⟩
      rw [represents.unallocated array]
      exact nofun
  | some block =>
      rcases represents.findKey_block ordered array key with ⟨pos, matched, searched, found⟩
      dsimp only
      by_cases empty : slots.count = 0
      · rw [if_pos empty]
        have nothing : elements = [] := List.eq_nil_of_length_eq_zero (by omega)
        refine Or.inr ⟨?_, rfl⟩
        rw [nothing]
        exact nofun
      · rw [if_neg empty, searched]
        cases matched with
        | false => exact Or.inr ⟨found.absent, rfl⟩
        | true =>
            cases found with
            | @hit before after element split same =>
                subst split
                rcases represents.delete_block array with ⟨final, moved, represents'⟩
                refine Or.inl ⟨before, element, after, _, rfl, same, ?_, represents'⟩
                dsimp only
                rw [moved, Option.map_some]

/-! ## Runs -/

inductive Call where
  | add (element : List UInt8) (grant : Grant)
  | get (key : List UInt8)
  | find (key : List UInt8)
  | delete (key : List UInt8)

inductive Answer where
  | slot (offset : Option Nat)
  | found (pos : Nat) (matched : Bool)
  | deleted (done : Bool)

def perform (cls : SetClass) (slots : Slots) : Call → Option (Answer × Slots)
  | .add element grant => (addElem cls grant slots element).map fun (offset, next) => (.slot offset, next)
  | .get key => some (.slot (getElem cls slots key), slots)
  | .find key =>
      match findKey cls.toArrayClass ⟨slots.array.getD [], 0⟩ slots.count ⟨key, 0⟩ with
      | none => some (.found (2 ^ 32 - 1) false, slots)
      | some (pos, matched) => some (.found pos matched, slots)
  | .delete key => (deleteElem cls slots key).map fun (done, next) => (.deleted done, next)

/-- The calls that are made: on an array of fewer than `2 ^ 31` slots, with
elements of the size of the class, and so that no number of bytes wraps. -/
def Allowed (cls : SetClass) (_ : History Call Answer) (slots : Slots) (call : Call) : Prop :=
  slots.alloc < 2 ^ 31 ∧
    match call with
    | .add element _ => element.length = cls.size ∧ slots.Fits cls
    | _ => True

/-- The answer of a sorted set to a call, and its elements afterwards. -/
def Answers (cls : SetClass) (rank : List UInt8 → Rank) (slots : Slots) (elements : List (List UInt8)) (answer : Answer)
    (next : Slots) (elements' : List (List UInt8)) : Call → Prop
  | .add element grant =>
      (Succeeds cls rank slots elements element grant ∧ ∃ before after, elements = before ++ after ∧
        elements' = before ++ element :: after ∧ answer = .slot (some (before.length * cls.size))) ∨
      (¬ Succeeds cls rank slots elements element grant ∧ elements' = elements ∧ next = slots ∧ answer = .slot none)
  | .get key =>
      elements' = elements ∧ next = slots ∧
      ((∃ before element after, elements = before ++ element :: after ∧ keyRank cls rank element = rank key ∧
        answer = .slot (some (before.length * cls.size))) ∨
      (Absent cls rank elements (rank key) ∧ answer = .slot none))
  | .find key =>
      elements' = elements ∧ next = slots ∧
      ∃ pos matched, answer = .found pos matched ∧ Found cls rank elements (rank key) pos matched
  | .delete key =>
      (∃ before element after, elements = before ++ element :: after ∧ keyRank cls rank element = rank key ∧
        elements' = before ++ after ∧ answer = .deleted true) ∨
      (Absent cls rank elements (rank key) ∧ elements' = elements ∧ next = slots ∧ answer = .deleted false)

/-- Every call on an array that holds elements is answered, and leaves an array
that holds elements. -/
theorem Represents.perform {slots : Slots} {elements : List (List UInt8)} (ordered : Ordered cls rank)
    (represents : Represents cls rank slots elements) {history : History Call Answer} {call : Call}
    (allowed : Allowed cls history slots call) :
    ∃ answer next elements', KitSortedArray.perform cls slots call = some (answer, next) ∧
      Represents cls rank next elements' ∧ Answers cls rank slots elements answer next elements' call := by
  cases call with
  | add element grant =>
      rcases allowed with ⟨few, size, fits⟩
      rw [KitSortedArray.perform]
      rcases represents.addElem ordered few fits grant size with
        ⟨fails, added⟩ | ⟨before, after, next, succeeds, split, added, represents'⟩
      · exact ⟨_, _, elements, by rw [added, Option.map_some], represents, Or.inr ⟨fails, rfl, rfl, rfl⟩⟩
      · exact ⟨_, next, _, by rw [added, Option.map_some], represents',
          Or.inl ⟨succeeds, before, after, split, rfl, rfl⟩⟩
  | get key =>
      refine ⟨_, slots, elements, rfl, represents, rfl, rfl, ?_⟩
      rcases represents.getElem ordered key with ⟨before, element, after, split, same, got⟩ | ⟨absent, got⟩
      · exact Or.inl ⟨before, element, after, split, same, by rw [got]⟩
      · exact Or.inr ⟨absent, by rw [got]⟩
  | find key =>
      rcases represents.findKey ordered ⟨key, 0⟩ with ⟨pos, matched, searched, found⟩
      rw [Address.tokens_zero] at found
      exact ⟨.found pos matched, slots, elements, by rw [KitSortedArray.perform, searched], represents, rfl, rfl,
        pos, matched, rfl, found⟩
  | delete key =>
      rw [KitSortedArray.perform]
      rcases represents.deleteElem ordered key with
        ⟨before, element, after, next, split, same, deleted, represents'⟩ | ⟨absent, deleted⟩
      · exact ⟨_, next, _, by rw [deleted, Option.map_some], represents',
          Or.inl ⟨before, element, after, split, same, rfl, rfl⟩⟩
      · exact ⟨_, _, elements, by rw [deleted, Option.map_some], represents, Or.inr ⟨absent, rfl, rfl, rfl⟩⟩

theorem represents_unallocated (cls : SetClass) (rank : List UInt8 → Rank) (alloc : Nat) :
    Represents cls rank ⟨none, 0, alloc⟩ [] :=
  ⟨nofun, List.Pairwise.nil, rfl, Nat.zero_le _, ⟨[], rfl⟩, nofun, fun _ => rfl⟩

/-- Through any run, the array is a sorted set, and every call is answered as by
a sorted set. -/
theorem sorted_set_run (ordered : Ordered cls rank) {alloc : Nat} {history : History Call Answer} {slots : Slots}
    (run : Run (perform cls) (Allowed cls) ⟨none, 0, alloc⟩ history slots) :
    ∃ elements, Represents cls rank slots elements ∧
      ∀ call, Allowed cls history slots call → ∃ answer next elements',
        perform cls slots call = some (answer, next) ∧ Represents cls rank next elements' ∧
          Answers cls rank slots elements answer next elements' call := by
  have holds := run.invariant (fun _ slots => ∃ elements, Represents cls rank slots elements)
    ⟨[], represents_unallocated cls rank alloc⟩ ?_
  · rcases holds with ⟨elements, represents⟩
    exact ⟨elements, represents, fun call allowed => represents.perform ordered allowed⟩
  · rintro history slots call answer next ⟨elements, represents⟩ allowed performed
    rcases represents.perform ordered allowed with ⟨answer', next', elements', same, represents', -⟩
    rw [performed] at same
    cases same
    exact ⟨elements', represents'⟩

end

/-- Elements of a size whose keys are their first bytes. -/
def byteClass (size : Nat) (allowInserts allowGrowth : Bool) : SetClass where
  size := size
  keyoffset := 0
  cmp first second := Int.ofNat ((first.tokens 1).headD 0).toNat - Int.ofNat ((second.tokens 1).headD 0).toNat
  visit _ _ := none
  cmpCanFail := false
  allowInserts := allowInserts
  allowGrowth := allowGrowth

theorem byteClass_ordered {size : Nat} (positive : 0 < size) (allowInserts allowGrowth : Bool) :
    Ordered (byteClass size allowInserts allowGrowth) fun key => (key.headD 0).toNat := by
  refine ⟨positive, ?_, ?_, ?_, rfl, rfl⟩
  · intro first second
    simp only [byteClass, Int.ofNat_eq_natCast]
    omega
  · intro first second
    simp only [byteClass, Int.ofNat_eq_natCast]
    omega
  · intro element rest length
    cases element with
    | nil => exact absurd length (Nat.ne_of_lt positive)
    | cons byte others => rfl

/-- Two elements are added, for which the array grows, and one is deleted; then
another is added without growth. -/
theorem sorted_set_run_several : ∃ history slots elements,
    history.map Prod.snd = [.deleted true, .slot (some 0), .slot (some 0)] ∧
      Run (perform (byteClass 1 true true)) (Allowed (byteClass 1 true true)) ⟨none, 0, 1⟩ history slots ∧
      Represents (byteClass 1 true true) (fun key => (key.headD 0).toNat) slots elements ∧
      ∃ answer next elements', perform (byteClass 1 true true) slots (.add [6] fun _ => none) = some (answer, next) ∧
        Answers (byteClass 1 true true) (fun key => (key.headD 0).toNat) slots elements answer next elements'
          (.add [6] fun _ => none) := by
  have run : Run (perform (byteClass 1 true true)) (Allowed (byteClass 1 true true)) ⟨none, 0, 1⟩
      [(.delete [7], .deleted true), (.add [5] fun _ => some fun _ => 0, .slot (some 0)),
        (.add [7] fun _ => some fun _ => 0, .slot (some 0))] ⟨some [5, 7, 0, 0, 0, 0, 0, 0, 0, 0, 0], 1, 11⟩ := by
    refine Run.step (Run.step (Run.step Run.start ⟨by decide, rfl, fun _ => by decide⟩ rfl) ⟨by decide, rfl,
      fun _ => ?_⟩ rfl)
      ⟨by decide, trivial⟩ rfl
    decide
  rcases sorted_set_run (byteClass_ordered Nat.one_pos true true) run with ⟨elements, represents, answered⟩
  rcases answered (.add [6] fun _ => none) ⟨by decide, rfl, fun _ => by decide⟩ with
    ⟨answer, next, elements', done, -, answers⟩
  exact ⟨_, _, elements, rfl, run, represents, answer, next, elements', done, answers⟩

theorem insertAt_outside {size : Nat} {block element : List UInt8} (short : block.length < size)
    (length : element.length = size) : insertAt (byteClass size true true) block 0 0 element = none := by
  rw [insertAt, if_neg (Nat.lt_irrefl 0), Option.bind_some]
  change store block (0 * size) (element.take size) = none
  rw [Nat.zero_mul, List.take_of_length_le (Nat.le_of_eq length)]
  exact store_outside (by omega)

/-- The number of bytes of `2 ^ 31 - 1` slots of eight gigabytes and eight bytes
wraps to less than one slot, so that the first element, which should be added,
is written outside of the memory. -/
theorem sorted_set_wraps :
    Succeeds (byteClass (2 ^ 33 + 8) true true) (fun key => (key.headD 0).toNat) ⟨none, 0, 2 ^ 31 - 1⟩ []
        (List.replicate (2 ^ 33 + 8) 0) (fun _ => some fun _ => 0) ∧
      perform (byteClass (2 ^ 33 + 8) true true) ⟨none, 0, 2 ^ 31 - 1⟩
        (.add (List.replicate (2 ^ 33 + 8) 0) fun _ => some fun _ => 0) = none := by
  have bytes : requested (byteClass (2 ^ 33 + 8) true true) ⟨none, 0, 2 ^ 31 - 1⟩ = 2 ^ 33 - 8 := by
    simp [requested, more, byteClass]
  have grown : grow (byteClass (2 ^ 33 + 8) true true) (fun _ => some fun _ => 0) ⟨none, 0, 2 ^ 31 - 1⟩ =
      some ((List.range (2 ^ 33 - 8)).map fun i => ([] : List UInt8).getD i 0, 2 ^ 31 - 1) := by
    rw [grow, realloc, bytes]
    rfl
  have outside : insertAt (byteClass (2 ^ 33 + 8) true true)
      ((List.range (2 ^ 33 - 8)).map fun i => ([] : List UInt8).getD i 0) 0 0 (List.replicate (2 ^ 33 + 8) 0) =
        none := by
    refine insertAt_outside ?_ List.length_replicate
    rw [List.length_map, List.length_range]
    omega
  refine ⟨⟨⟨nofun, Or.inl rfl⟩, Or.inr rfl, fun _ => rfl⟩, ?_⟩
  rw [perform, addElem, position, if_pos rfl]
  dsimp only
  rw [if_neg (by decide), grown]
  dsimp only
  rw [outside]
  rfl

end KitSortedArray
end LibKit
