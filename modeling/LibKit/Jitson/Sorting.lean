import LibKit.Jitson.Elements
import LibKit.Jitson.Inserting

namespace LibKit
namespace Jitson

open Stack KitSortedArray

/-!
# Sorted construction

As long as no element has to be moved, or elements are single tokens, an array
that is kept in order holds what was added to it, sorted.
-/

/-- Values that can be compared with each other: no comparison fails, and all of
them are those of some order. -/
def Orderable (ops : FloatOps) (trees : List Json) : Prop :=
  ∃ (Rank : Type) (_ : LinearOrder Rank) (rank : Json → Rank),
    ∀ first ∈ trees, ∀ second ∈ trees, Agrees (first.cmp ops second) (rank first) (rank second)

theorem Orderable.subset {ops : FloatOps} {trees others : List Json} (orderable : Orderable ops trees)
    (inside : others ⊆ trees) :
    Orderable ops others := by
  rcases orderable with ⟨Rank, order, rank, agrees⟩
  exact ⟨Rank, order, rank, fun first isFirst second isSecond => agrees first (inside isFirst) second (inside isSecond)⟩

/-- Unsigned integers, strings and arrays of them can be compared with each
other if no comparison fails. -/
theorem orderable_of_sortable {ops : FloatOps} {trees : List Json} (sortable : ∀ tree ∈ trees, tree.Sortable)
    (ok : ∀ first ∈ trees, ∀ second ∈ trees, first.cmp ops second ≠ cmpError) : Orderable ops trees :=
  ⟨List Nat, inferInstance, Json.rank, fun first isFirst second isSecond =>
    (sortable first isFirst).agrees (sortable second isSecond) (ok first isFirst second isSecond)⟩

/-- Elements in an order that does not decrease. -/
def Ascending (ops : FloatOps) (trees : List Json) : Prop := trees.Pairwise fun first second => first.cmp ops second ≤ 0

section

variable {env : Env} {sum : List UInt8 → Nat} {frame : Frame} {maximum last borrow size : Nat}

theorem drop_flatten {segments : List (List Token)} {i : Nat} {segment : List Token} (rest : List Token)
    (each : ∀ segment ∈ segments, segment.length = size) (here : segments[i]? = some segment) :
    (segments.flatten ++ rest).drop (size * i) = segment ++ ((segments.drop (i + 1)).flatten ++ rest) := by
  have found := @drop_segment .more segments rest i segment here
  have inside := (List.getElem?_eq_some_iff.mp here).1
  have taken : (segments.take i).flatten.length = size * i := by
    rw [flatten_uniform fun segment isHere => each segment (List.mem_of_mem_take isHere), List.length_take,
      Nat.min_eq_left (Nat.le_of_lt inside), Nat.mul_comm]
  rwa [taken, Nat.add_comm, List.drop_succ_cons] at found

namespace Frame

/-- An array that is kept in order, with the trees of its elements. -/
structure Held (ops : FloatOps) (sum : List UInt8 → Nat) (frame : Frame) (size : Nat)
    (held : List (Json × List Token)) : Prop
    extends frame.Sorting size (held.map Prod.snd) where
  uniform : frame.type.isUnif = true
  notRef : frame.type.isRef = false
  notIndexed : frame.type.isOwn = false
  represents : ∀ entry ∈ held, Represents sum entry.1 entry.2
  sorted : Ascending ops (held.map Prod.fst)

/-- Where an element is placed in a sorted array: none before it is greater, and
none from there on is smaller. -/
structure Settles (ops : FloatOps) (trees : List Json) (tree : Json) (pos : Nat) : Prop where
  bound : pos ≤ trees.length
  before : ∀ first ∈ trees.take pos, first.cmp ops tree ≤ 0
  behind : ∀ second ∈ trees.drop pos, tree.cmp ops second ≤ 0

end Frame

theorem Frame.pointer_segment {held : List (Json × List Token)} {rest : List Token}
    (tokens : frame.tokens = (held.map Prod.snd).flatten ++ rest)
    (each : ∀ segment ∈ held.map Prod.snd, segment.length = size) {i : Nat} {entry : Json × List Token}
    (here : held[i]? = some entry) :
    (frame.stack maximum last borrow).pointer (frame.start + size * i) =
      entry.2 ++ (((held.map Prod.snd).drop (i + 1)).flatten ++ rest) := by
  have isSegment : (held.map Prod.snd)[i]? = some entry.2 := by rw [List.getElem?_map, here, Option.map_some]
  rw [← drop_flatten rest each isSegment, ← tokens, start]
  exact frame.pointer_tokens maximum last borrow (size * i)

/-- Where the binary search places an element that is smaller than the last. -/
theorem settles_located {ops : FloatOps} {Rank : Type} [LinearOrder Rank] {rank : Json → Rank} {trees : List Json}
    {tree : Json} {pos : Nat}
    {matched : Bool} (agrees : ∀ first ∈ tree :: trees, ∀ second ∈ tree :: trees,
      Agrees (first.cmp ops second) (rank first) (rank second))
    (sorted : NonDecreasing (fun i => rank (trees.getD i tree)) trees.length)
    (located : Located (fun i => rank (trees.getD i tree)) trees.length (rank tree) pos matched) :
    Frame.Settles ops trees tree pos := by
  have least : ∀ {first second : Json}, first ∈ tree :: trees → second ∈ tree :: trees → rank first ≤ rank second →
      first.cmp ops second ≤ 0 := fun isFirst isSecond below => (agrees _ isFirst _ isSecond).le_iff.mpr below
  have entry : ∀ {i : Nat} {first : Json}, trees[i]? = some first → trees.getD i tree = first := by
    intro i first here
    rw [List.getD_eq_getElem?_getD, here, Option.getD_some]
  refine ⟨located.bound, ?_, ?_⟩
  · intro first isFirst
    rcases List.mem_iff_getElem?.mp isFirst with ⟨i, here⟩
    rw [List.getElem?_take] at here
    split at here
    · rename_i before
      refine least (List.mem_cons_of_mem _ (List.mem_of_getElem? here)) List.mem_cons_self ?_
      rw [← entry here]
      cases matched with
      | true => exact (located.hit rfl).2 ▸ sorted i pos before (located.hit rfl).1
      | false => exact le_of_lt (located.below rfl i before)
    · cases here
  · intro second isSecond
    rcases List.mem_iff_getElem?.mp isSecond with ⟨i, here⟩
    rw [List.getElem?_drop] at here
    have inside := (List.getElem?_eq_some_iff.mp here).1
    refine least List.mem_cons_self (List.mem_cons_of_mem _ (List.mem_of_getElem? here)) ?_
    rw [← entry here]
    cases matched with
    | true =>
        rcases located.hit rfl with ⟨-, same⟩
        rcases Nat.eq_zero_or_pos i with rfl | positive
        · exact le_of_eq same.symm
        · exact same ▸ sorted pos (pos + i) (by omega) inside
    | false => exact le_of_lt (located.above rfl (pos + i) (Nat.le_add_right _ _) inside)

namespace Frame

/-- Where an element is placed: behind the others, or where the search finds
its place among those that are greater than it. -/
theorem makeRoom_settles {held : List (Json × List Token)} {rest : List Token} {tree : Json} {element : Pointer}
    (tokens : frame.tokens = (held.map Prod.snd).flatten ++ rest)
    (each : ∀ segment ∈ held.map Prod.snd, segment.length = size)
    (represents : ∀ entry ∈ held, Represents sum entry.1 entry.2)
    (sorted : Ascending env.ops (held.map Prod.fst)) (points : PointsTo sum tree element)
    (orderable : Orderable env.ops (tree :: held.map Prod.fst)) :
    ∃ pos, Settles env.ops (held.map Prod.fst) tree pos ∧
      ((pos = held.length ∧
          (frame.stack maximum (frame.start + size * held.length) borrow).makeRoom env frame.base.length
            size held.length element =
            .ok (frame.stack maximum (frame.start + size * held.length) borrow, frame.start + size * held.length)) ∨
        (pos < held.length ∧ (∃ entry ∈ held, 0 < entry.1.cmp env.ops tree) ∧
          (frame.stack maximum (frame.start + size * held.length) borrow).makeRoom env frame.base.length
            size held.length element =
            .ok ((frame.stack maximum (frame.start + size * held.length) borrow).write (frame.start + size * pos + 1)
              (((frame.stack maximum (frame.start + size * held.length) borrow).pointer (frame.start + size * pos)).take
                ((held.length - pos) * size)), frame.start + size * pos))) := by
  rcases orderable with ⟨Rank, order, rank, agrees⟩
  have len : (held.map Prod.fst).length = held.length := List.length_map _
  rcases Nat.eq_zero_or_pos held.length with empty | some
  · refine ⟨held.length, ⟨le_of_eq len.symm, ?_, ?_⟩, Or.inl ⟨rfl, if_pos empty⟩⟩
    · rw [List.eq_nil_of_length_eq_zero empty]
      intro first inside
      cases inside
    · rw [List.eq_nil_of_length_eq_zero empty]
      intro second inside
      cases inside
  have entry : ∀ {i : Nat} (inside : i < held.length), (held.map Prod.fst).getD i tree = held[i].1 := by
    intro i inside
    rw [List.getD_eq_getElem?_getD, List.getElem?_map, List.getElem?_eq_getElem inside]
    rfl
  have member : ∀ {i : Nat} (inside : i < held.length), held[i].1 ∈ tree :: held.map Prod.fst := fun inside =>
    List.mem_cons_of_mem _ (List.mem_map_of_mem (List.getElem_mem inside))
  have ordered : NonDecreasing (fun i => rank ((held.map Prod.fst).getD i tree)) held.length := by
    intro i j before inside
    have compared := List.pairwise_iff_getElem.mp sorted i j (by omega) (by omega) before
    rw [List.getElem_map, List.getElem_map] at compared
    dsimp only
    rw [entry (Nat.lt_trans before inside), entry inside]
    exact (agrees _ (member _) _ (member inside)).le_iff.mp compared
  have final : held.length - 1 < held.length := Nat.sub_lt some Nat.one_pos
  have behind : frame.start + size * held.length - size = frame.start + size * (held.length - 1) := by
    have whole : size * held.length = size * (held.length - 1) + size :=
      by rw [← Nat.mul_succ, Nat.succ_eq_add_one, Nat.sub_add_cancel some]
    omega
  have pointed : ∀ (last i : Nat) (inside : i < held.length),
      PointsTo sum held[i].1 ((frame.stack maximum last borrow).pointer (frame.start + size * i)) := by
    intro last i inside
    refine ⟨_, _, pointer_segment tokens each (List.getElem?_eq_getElem inside), ?_⟩
    exact represents _ (List.getElem_mem inside)
  have compared : cmp env.ops ((frame.stack maximum (frame.start + size * held.length) borrow).pointer
      (frame.start + size * (held.length - 1))) element = held[held.length - 1].1.cmp env.ops tree :=
    (pointed _ _ final).cmp_eq points
  have placed : (frame.stack maximum (frame.start +
    size * held.length) borrow).makeRoom env frame.base.length size held.length element =
      (frame.stack maximum (frame.start + size * held.length) borrow).insertElement env frame.base.length
        size held.length element :=
    if_neg (Nat.ne_of_gt some)
  rw [placed]
  unfold insertElement
  rw [stack_last, behind, compared]
  by_cases greater : held[held.length - 1].1.cmp env.ops tree > 0
  · rw [if_pos greater]
    have address : ∀ i, (elementClass env (16 * size)).cmp ⟨element, 0⟩
        (Pointer.advance (⟨(frame.stack maximum (frame.start + size * held.length) borrow).pointer
        (frame.base.length + 1), 0⟩ : Address Token)
          ((elementClass env (16 * size)).size * i + (elementClass env (16 * size)).keyoffset)) =
        cmp env.ops element ((frame.stack maximum (frame.start + size * held.length) borrow).pointer
          (frame.start + size * i)) := by
      intro i
      have scaled : (0 + (16 * size * i + 0)) / 16 = size * i := by
        rw [Nat.zero_add, Nat.add_zero, Nat.mul_assoc]
        exact Nat.mul_div_cancel_left _ (by decide)
      simp only [elementClass, Pointer.advance, Address.tokens_zero]
      rw [Address.tokens, scaled, Stack.pointer, List.drop_drop]
      rfl
    have agree : ∀ i, i < held.length → Agrees ((elementClass env (16 * size)).cmp ⟨element, 0⟩
        (Pointer.advance (⟨(frame.stack maximum (frame.start + size * held.length) borrow).pointer
        (frame.base.length + 1), 0⟩ : Address Token)
          ((elementClass env (16 * size)).size * i + (elementClass env (16 * size)).keyoffset)))
        (rank tree) (rank ((held.map Prod.fst).getD i tree)) := by
      intro i inside
      rw [address, points.cmp_eq (pointed _ i inside), entry inside]
      exact agrees _ List.mem_cons_self _ (member inside)
    rcases findKey_located ordered agree with ⟨pos, matched, found, located⟩
    have settles := settles_located agrees (len.symm ▸ ordered) (len.symm ▸ located)
    have before : pos < held.length := by
      refine Nat.lt_of_le_of_ne located.bound fun whole => ?_
      refine absurd ((agrees _ (member final) _ List.mem_cons_self).gt_iff.mp greater) (not_lt.mpr ?_)
      refine (agrees _ (member final) _ List.mem_cons_self).le_iff.mp (settles.before _ ?_)
      rw [whole, List.take_of_length_le (le_of_eq len)]
      exact List.mem_map_of_mem (List.getElem_mem final)
    refine ⟨pos, settles, Or.inr ⟨before, ⟨_, List.getElem_mem final, greater⟩, ?_⟩⟩
    rw [found]
    exact if_pos before
  · rw [if_neg greater]
    refine ⟨held.length, ⟨le_of_eq len.symm, ?_, ?_⟩, Or.inl ⟨rfl, rfl⟩⟩
    · intro first inside
      rw [List.take_of_length_le (le_of_eq len)] at inside
      rcases List.mem_map.mp inside with ⟨other, isOther, rfl⟩
      rcases List.mem_iff_getElem.mp isOther with ⟨i, inHeld, rfl⟩
      have last := (agrees _ (member final) _ List.mem_cons_self).le_iff.mp (Int.not_lt.mp greater)
      refine (agrees _ (member inHeld) _ List.mem_cons_self).le_iff.mpr (le_trans ?_ last)
      rw [← entry inHeld, ← entry final]
      rcases Nat.eq_or_lt_of_le (Nat.le_sub_one_of_lt inHeld) with same | earlier
      · rw [same]
      · exact ordered i _ earlier final
    · rw [List.drop_of_length_le (le_of_eq len)]
      intro second inside
      cases inside

theorem moved_up {α : Type} (before behind : List α) (first room item : α) :
    let grown := before ++ (first :: behind ++ [room])
    let moved := grown.take (before.length + 1) ++ (grown.drop before.length).take (behind.length + 1) ++
      grown.drop (before.length + 1 + (behind.length + 1))
    moved.take before.length ++ [item] ++ moved.drop (before.length + 1) = before ++ item :: first :: behind := by
  intro grown moved
  have all : moved = before ++ first :: first :: behind := by
    have enough : grown.length = before.length + 1 + (behind.length + 1) := by
      simp only [grown, List.length_append, List.length_cons, List.length_nil]
      omega
    have none : grown.drop (before.length + 1 + (behind.length + 1)) = [] := List.drop_of_length_le (le_of_eq enough)
    simp only [moved, none, grown, List.take_length_add_append, List.drop_left]
    simp
  rw [all]
  simp

theorem write_moved {before behind : List Token} {first : Token} (item : Token)
    (tokens : frame.tokens = before ++ (first :: behind ++ [.more])) :
    ((frame.stack maximum last borrow).write (frame.start + before.length + 1)
        (((frame.stack maximum last borrow).pointer (frame.start + before.length)).take (behind.length + 1))).write
          (frame.start + before.length) [item] =
      ({ frame with tokens := before ++ item :: first :: behind } : Frame).stack maximum last borrow := by
  have moved := moved_up before behind first .more item
  have written := frame.stack_write maximum last borrow (before.length + 1)
    (((frame.stack maximum last borrow).pointer (frame.start + before.length)).take (behind.length + 1))
  have pointed : (frame.stack maximum last borrow).pointer (frame.start + before.length) =
    frame.tokens.drop before.length :=
    frame.pointer_tokens maximum last borrow before.length
  have counted : ((frame.tokens.drop before.length).take (behind.length + 1)).length = behind.length + 1 := by
    rw [tokens, List.drop_left]
    simp
  rw [pointed, counted, tokens] at written
  have again := ({ frame with tokens := (before ++ (first :: behind ++ [Token.more])).take (before.length + 1) ++
      ((before ++ (first :: behind ++ [Token.more])).drop before.length).take (behind.length + 1) ++
      (before ++ (first :: behind ++ [Token.more])).drop (before.length + 1 + (behind.length + 1)) } :
      Frame).stack_write
    maximum last borrow before.length [item]
  rw [List.length_singleton, moved] at again
  rw [pointed, tokens]
  exact (congrArg (fun stack : Stack => stack.write (frame.start + before.length) [item]) written).trans again

theorem Settles.ascending {ops : FloatOps} {trees : List Json} {tree : Json} {pos : Nat}
    (settles : Settles ops trees tree pos)
    (sorted : Ascending ops trees) : Ascending ops (trees.take pos ++ tree :: trees.drop pos) := by
  have both : Ascending ops (trees.take pos ++ trees.drop pos) := by rwa [List.take_append_drop]
  rcases List.pairwise_append.mp both with ⟨first, second, across⟩
  refine List.pairwise_append.mpr ⟨first, List.pairwise_cons.mpr ⟨settles.behind, second⟩, ?_⟩
  intro before isBefore after isAfter
  rcases List.mem_cons.mp isAfter with rfl | isBehind
  · exact settles.before before isBefore
  · exact across before isBefore after isBehind

theorem Held.inserted {ops : FloatOps} {held : List (Json × List Token)} (holds : frame.Held ops sum size held)
    {tree : Json}
    {tokens : List Token} {pos last : Nat} (settles : Settles ops (held.map Prod.fst) tree pos)
      (long : tokens.length = size)
    (represents : Represents sum tree tokens) (elemType : TypeWord) (laidOut : List Token)
    (same : laidOut = ((held.map Prod.snd).take pos).flatten ++ tokens ++ ((held.map Prod.snd).drop pos).flatten) :
    (({ frame.checked size elemType true with tokens := laidOut } : Frame).noted size last).Held ops sum size
      (held.take pos ++ (tree, tokens) :: held.drop pos) := by
  have segments : (held.take pos ++ (tree, tokens) :: held.drop pos).map Prod.snd =
      (held.map Prod.snd).take pos ++ tokens :: (held.map Prod.snd).drop pos := by
    rw [List.map_append, List.map_cons, List.map_take, List.map_drop]
  have perm : (held.take pos ++ (tree, tokens) :: held.drop pos).Perm ((tree, tokens) :: held) := by
    have moved := @List.perm_middle _ (tree, tokens) (held.take pos) (held.drop pos)
    rwa [List.take_append_drop] at moved
  refine ⟨⟨holds.array, holds.mkSort, ?_, ?_, ?_⟩, ?_, holds.notRef, holds.notIndexed, ?_, ?_⟩
  · rw [List.length_map, perm.length_eq, List.length_cons, ← List.length_map Prod.snd, ← holds.counted]
    rfl
  · rw [segments, List.flatten_append, List.flatten_cons, ← List.append_assoc]
    exact same
  · intro segment inside
    rcases List.mem_map.mp inside with ⟨entry, isEntry, rfl⟩
    rcases List.mem_cons.mp (perm.subset isEntry) with rfl | isHeld
    · exact long
    · exact holds.each _ (List.mem_map_of_mem isHeld)
  · change (frame.type.isUnif && !frame.resized size true) = true
    rw [holds.uniform, holds.toSorting.notResized]
    rfl
  · intro entry isEntry
    rcases List.mem_cons.mp (perm.subset isEntry) with rfl | isHeld
    · exact represents
    · exact holds.represents _ isHeld
  · rw [List.map_append, List.map_cons, List.map_take, List.map_drop]
    exact settles.ascending holds.sorted

theorem expand_notAsserted {stack : Stack} {more : Nat} {failure : Failure}
    (failed : stack.expand env more = .error failure) :
    failure.fault ≠ .assertion := by
  simp only [Stack.expand] at failed
  intro asserted
  split at failed
  · cases failed
    cases asserted
  · split at failed
    · split at failed
      · cases failed
        cases asserted
      · split at failed
        · cases failed
        · cases failed
          cases asserted
    · split at failed
      · cases failed
      · cases failed
        cases asserted

/-- An addition after which the array holds one more element in order, or that
was refused for want of memory. -/
structure Inserts (ops : FloatOps) (sum : List UInt8 → Nat) (frame : Frame) (borrow size : Nat)
    (held : List (Json × List Token))
    (entry : Json × List Token) (outcome : Except Failure Stack) : Prop where
  ok : ∀ after, outcome = .ok after → ∃ (frame' : Frame) (maximum last : Nat) (held' : List (Json × List Token)),
    after = frame'.stack maximum last borrow ∧ frame'.base = frame.base ∧ frame'.collection = frame.collection ∧
      frame'.Held ops sum size held' ∧ held'.Perm (entry :: held) ∧ (size ≠ 1 → held' = held ++ [entry])
  failed : ∀ failure, outcome = .error failure → failure.fault ≠ .assertion

theorem Inserts.of_eq {ops : FloatOps} {held : List (Json × List Token)} {entry : Json × List Token}
    {outcome other : Except Failure Stack}
    (inserts : frame.Inserts ops sum borrow size held entry outcome) (same : other = outcome) :
    frame.Inserts ops sum borrow size held entry other := same ▸ inserts

theorem Held.inserts {ops : FloatOps} {held : List (Json × List Token)} (holds : frame.Held ops sum size held)
    {tree : Json}
    {tokens : List Token} {pos : Nat} (settles : Settles ops (held.map Prod.fst) tree pos) (long : tokens.length = size)
    (represents : Represents sum tree tokens) (elemType : TypeWord) {laidOut : List Token}
    (same : laidOut = ((held.map Prod.snd).take pos).flatten ++ tokens ++ ((held.map Prod.snd).drop pos).flatten)
    (final : size ≠ 1 → pos = held.length) :
    frame.Inserts ops sum borrow size held (tree, tokens)
      (.ok ((({ frame.checked size elemType true with tokens := laidOut } : Frame).stack maximum last borrow).noteElement
        frame.base.length size true)) := by
  refine ⟨fun after placed => ?_, fun failure failed => (by cases failed)⟩
  cases placed
  refine ⟨_, maximum, _, _, noteElement_eq { frame.checked size elemType true with tokens := laidOut }
    maximum last borrow size, rfl, rfl,
    holds.inserted settles long represents elemType laidOut same, ?_, ?_⟩
  · have moved := @List.perm_middle _ (tree, tokens) (held.take pos) (held.drop pos)
    rwa [List.take_append_drop] at moved
  · intro several
    rw [final several, List.take_length, List.drop_length]

/-- `sxe_jitson_stack_add_value` keeps an array in order if no element has to be
moved, or elements are single tokens. -/
theorem Held.addValue {held : List (Json × List Token)} (holds : frame.Held env.ops sum size held) {tree : Json}
    {element : Pointer} (elemType : TypeWord) (long : size ≤ element.length)
    (represents : Represents sum tree (element.take size))
    (orderable : Orderable env.ops (tree :: held.map Prod.fst))
    (fit : size = 1 ∨ ∀ entry ∈ held, entry.1.cmp env.ops tree ≤ 0) :
    frame.Inserts env.ops sum borrow size held (tree, element.take size)
      ((frame.stack maximum last borrow).addValue env size elemType (some element)) := by
  rw [holds.toSorting.addValue_eq]
  cases expanded : ((frame.checked size elemType true).stack maximum last borrow).expand env size with
  | error failure =>
      refine ⟨fun after impossible => (by cases impossible), fun failure' failed => ?_⟩
      cases failed
      change failure.fault ≠ .assertion
      exact expand_notAsserted expanded
  | ok grown =>
      rcases Stack.expand_cases expanded with ⟨inRange, maximum', rfl⟩
      have pushed : ({ (frame.checked size elemType true).stack maximum last borrow with
          maximum := maximum'
          jitsons := ((frame.checked size elemType true).stack maximum last borrow).jitsons ++
            List.replicate size Token.more
          allocated := true } : Stack) =
          ((frame.checked size elemType true).pushed (List.replicate size .more)).stack maximum' last borrow := by
        simp [Frame.stack, Frame.pushed, Frame.head]
      have total : frame.tokens.length = size * held.length := by
        rw [holds.toSorting.length, List.length_map, Nat.mul_comm]
      have counted : (((frame.checked size elemType true).pushed
        (List.replicate size .more)).stack maximum' last borrow).count - size =
          frame.start + size * held.length := by
        rw [stack_count, start, ← total]
        simp only [Frame.pushed, List.length_append, List.length_replicate, checked]
        omega
      have long' : (element.take size).length = size := by rw [List.length_take, Nat.min_eq_left long]
      have points : PointsTo sum tree element := ⟨element.take size, element.drop size,
        (List.take_append_drop _ _).symm, represents⟩
      rw [onFailure_ok, ok_bind, pushed, counted, stack_setLast, List.length_map]
      rcases @makeRoom_settles env sum ((frame.checked size elemType true).pushed
        (List.replicate size .more)) maximum' borrow size held
        (List.replicate size .more) tree element (congrArg (· ++
          List.replicate size Token.more) holds.tokens) holds.each
        holds.represents holds.sorted points orderable with
          ⟨pos, settles, ⟨rfl, room⟩ | ⟨before, ⟨entry, isEntry, greater⟩, room⟩⟩
      · have written := (frame.checked size elemType true).write_pushed maximum'
          (frame.start + size * held.length) borrow size element long
        have inserted := @Held.inserts sum frame maximum' (frame.start +
          size * held.length) borrow size env.ops held holds tree
          (element.take size) held.length settles long' represents elemType
          (frame.tokens ++ element.take size) ?_ fun _ => rfl
        · have placed := congrArg (fun stack : Stack => (Except.ok
            (stack.noteElement frame.base.length size true) : Except Failure Stack)) written
          rw [show (frame.checked size elemType true).tokens.length = size * held.length from total] at placed
          exact inserted.of_eq ((congrArg (fun room => room >>= _) room).trans placed)
        · rw [holds.tokens, ← List.length_map Prod.snd, List.take_length, List.drop_length, List.flatten_nil,
            List.append_nil]
      · have single : size = 1 := by
          rcases fit with single | least
          · exact single
          · exact absurd (least entry isEntry) (Int.not_le.mpr greater)
        subst single
        have lengths : ∀ segment ∈ held.map Prod.snd, segment.length = 1 := holds.each
        have front : ((held.map Prod.snd).take pos).flatten.length = pos := by
          rw [flatten_uniform fun segment inside => lengths segment (List.mem_of_mem_take inside), List.length_take,
            List.length_map,
            Nat.min_eq_left (Nat.le_of_lt before), Nat.mul_one]
        have back : ((held.map Prod.snd).drop pos).flatten.length = held.length - pos := by
          rw [flatten_uniform fun segment inside => lengths segment (List.mem_of_mem_drop inside), List.length_drop,
            List.length_map,
            Nat.mul_one]
        have split : frame.tokens = ((held.map Prod.snd).take pos).flatten ++
          ((held.map Prod.snd).drop pos).flatten := by
          rw [holds.tokens, ← List.flatten_append, List.take_append_drop]
        rcases List.exists_cons_of_length_pos (show 0 < ((held.map Prod.snd).drop pos).flatten.length by omega) with
          ⟨first, behind, isBack⟩
        rcases List.length_eq_one_iff.mp long' with ⟨item, isItem⟩
        have inserted := @Held.inserts sum frame maximum' (frame.start +
          1 * held.length) borrow 1 env.ops held holds tree
          (element.take 1) pos settles long' represents elemType
          (((held.map Prod.snd).take pos).flatten ++ item :: first :: behind) ?_ fun several => absurd rfl several
        · have written := @write_moved ((frame.checked 1 elemType true).pushed (List.replicate 1 .more)) maximum'
            (frame.start + 1 * held.length) borrow _ behind first item
            (show frame.tokens ++ [Token.more] = ((held.map Prod.snd).take pos).flatten ++
              (first :: behind ++ [Token.more]) by
              rw [split, isBack, List.append_assoc])
          have some : behind.length + 1 = (held.length - pos) * 1 := by
            rw [Nat.mul_one, ← back, isBack, List.length_cons]
          rw [front, some, ← isItem] at written
          have placed := congrArg (fun stack : Stack => (Except.ok
            (stack.noteElement frame.base.length 1 true) : Except Failure Stack)) written
          rw [Nat.one_mul pos] at room
          exact inserted.of_eq ((congrArg (fun room => room >>= _) room).trans placed)
        · rw [isBack, isItem, List.append_assoc, List.singleton_append]

end Frame

/-! ## Runs -/

/-- A call that adds an element to an array that is kept in order. -/
inductive Addition where
  | value (elemType : TypeWord) (element : Pointer)
  | uint (number : Nat)
  | string (bytes : List UInt8) (isOwn : Bool)
  | reference (target : Pointer)

namespace Addition

def element : Addition → Pointer
  | .value _ element => element
  | .uint number => [makeUint number]
  | .string bytes isOwn => [.head { kind := .string, isRef := true, isOwn := isOwn } 0 (.reference bytes)]
  | .reference target => [makeReference target]

def elemType : Addition → TypeWord
  | .value elemType _ => elemType
  | .uint _ => { kind := .number }
  | .string _ _ => { kind := .string }
  | .reference target => typeOf target

def run (env : Env) (size : Nat) (stack : Stack) : Addition → Except Failure Stack
  | .value elemType element => stack.addValue env size elemType (some element)
  | .uint number => stack.addUint env number
  | .string bytes isOwn => stack.addString env bytes true isOwn
  | .reference target => stack.addReference env target

/-- Calls other than `sxe_jitson_stack_add_value` add a single token. -/
def single : Addition → Bool
  | .value _ _ => false
  | _ => true

/-- A call that adds an element of that many tokens. -/
structure Adds (sum : List UInt8 → Nat) (size : Nat) (addition : Addition) (tree : Json) : Prop where
  sized : addition.single = true → size = 1
  long : size ≤ addition.element.length
  represents : Represents sum tree (addition.element.take size)

theorem run_eq {addition : Addition} (sized : addition.single = true → size = 1) (stack : Stack) :
    addition.run env size stack = stack.addValue env size addition.elemType (some addition.element) := by
  cases addition with
  | value elemType element => rfl
  | uint number =>
      rw [sized rfl]
      rfl
  | string bytes isOwn =>
      rw [sized rfl]
      rfl
  | reference target =>
      rw [sized rfl]
      rfl

def runAll (env : Env) (size : Nat) (stack : Stack) : List Addition → Except Failure Stack
  | [] => .ok stack
  | addition :: additions => do
      let stack ← addition.run env size stack
      runAll env size stack additions

end Addition

/-- An array that is kept in order by each call is so after all. -/
theorem Frame.Held.runAll {held : List (Json × List Token)} (holds : frame.Held env.ops sum size held)
    {additions : List Addition}
    {trees : List Json} (adds : List.Forall₂ (Addition.Adds sum size) additions trees)
    (orderable : Orderable env.ops (held.map Prod.fst ++ trees))
    (fit : size = 1 ∨ Ascending env.ops (held.map Prod.fst ++ trees)) :
    (∀ filled, Addition.runAll env size (frame.stack maximum last borrow) additions = .ok filled →
      ∃ (frame' : Frame) (maximum last : Nat) (held' : List (Json × List Token)), filled =
        frame'.stack maximum last borrow ∧
        frame'.base = frame.base ∧ frame'.Held env.ops sum size held' ∧
        (held'.map Prod.snd).Perm (held.map Prod.snd ++ additions.map fun addition => addition.element.take size)) ∧
      ∀ failure, Addition.runAll env size (frame.stack maximum last borrow) additions = .error failure →
        failure.fault ≠ .assertion := by
  induction adds generalizing frame held maximum last with
  | nil =>
      refine ⟨fun filled done => ?_, fun failure failed => (by cases failed)⟩
      cases done
      refine ⟨frame, maximum, last, held, rfl, rfl, holds, ?_⟩
      rw [List.map_nil, List.append_nil]
  | @cons addition tree additions trees adds others ih =>
      have inserts : frame.Inserts env.ops sum borrow size held (tree, addition.element.take size)
          (addition.run env size (frame.stack maximum last borrow)) := by
        rw [Addition.run_eq adds.sized]
        refine holds.addValue addition.elemType adds.long adds.represents (orderable.subset ?_) ?_
        · intro other inside
          rw [List.mem_append, List.mem_cons]
          rcases List.mem_cons.mp inside with rfl | isHeld
          · exact Or.inr (Or.inl rfl)
          · exact Or.inl isHeld
        · refine fit.imp id fun ascending entry isHeld => ?_
          exact (List.pairwise_append.mp ascending).2.2 entry.1 (List.mem_map_of_mem isHeld) tree List.mem_cons_self
      cases outcome : addition.run env size (frame.stack maximum last borrow) with
      | error failure =>
          have run : Addition.runAll env size (frame.stack maximum last borrow) (addition :: additions) =
            .error failure := by
            rw [Addition.runAll, outcome, error_bind]
          rw [run]
          refine ⟨fun filled impossible => (by cases impossible), fun failure' failed => ?_⟩
          cases failed
          exact inserts.failed failure outcome
      | ok after =>
          have run : Addition.runAll env size (frame.stack maximum last borrow) (addition :: additions) =
              Addition.runAll env size after additions := by
            rw [Addition.runAll, outcome, ok_bind]
          rw [run]
          rcases inserts.ok after outcome with ⟨frame', maximum', last', held', rfl, base, -, holds', perm, final⟩
          have further := @ih frame' maximum' last' held' holds' (orderable.subset ?_) ?_
          · refine ⟨fun filled done => ?_, further.2⟩
            rcases further.1 filled done with ⟨frame'', maximum'', last'', held'', same, base', holds'', perm'⟩
            refine ⟨frame'', maximum'', last'', held'', same, base'.trans base, holds'', perm'.trans ?_⟩
            have moved := ((perm.map Prod.snd).append_right (additions.map fun addition =>
              addition.element.take size)).trans
              List.perm_middle.symm
            exact moved
          · intro other inside
            rw [List.mem_append, List.mem_cons]
            rcases List.mem_append.mp inside with isHeld | isOther
            · rcases List.mem_cons.mp ((perm.map Prod.fst).subset isHeld) with rfl | isHeld
              · exact Or.inr (Or.inl rfl)
              · exact Or.inl isHeld
            · exact Or.inr (Or.inr isOther)
          · by_cases single : size = 1
            · exact Or.inl single
            · refine Or.inr ?_
              rw [final single, List.map_append, List.append_assoc]
              exact fit.resolve_left single

/-- An array of some elements, each as it was added, in an order that does not
decrease. -/
def Sorts (ops : FloatOps) (elements : List (List Token)) (array : Pointer) : Prop :=
  ∃ order : List (List Token), order.Perm elements ∧ getType array = .array ∧ lenOf array = order.length ∧
    (∀ i segment, order[i]? = some segment → ∃ rest, arrayGetElement array i = some (segment ++ rest)) ∧
    ∀ i j first second, i < j → arrayGetElement array i = some first → arrayGetElement array j = some second →
      cmp ops first second ≤ 0

/-- The array that is closed holds its elements in order. -/
theorem Frame.Held.sorts {ops : FloatOps} {held : List (Json × List Token)} (holds : frame.Held ops sum size held)
    (small : size < 2 ^ 28) : Sorts ops (held.map Prod.snd) frame.closed := by
  have len : frame.len = held.length := by rw [holds.counted, List.length_map]
  have body : ArrayBody (held.map Prod.snd) frame.type (closedBody frame.type frame.len frame.tokens.length) := by
    refine @ArrayBody.uniform _ _ _ size holds.uniform holds.notIndexed ?_
    intro segment inside
    refine ⟨holds.each segment inside, ?_⟩
    have some : 0 < held.length := by
      rw [← List.length_map Prod.snd]
      exact List.length_pos_of_mem inside
    have whole : 16 * frame.tokens.length / frame.len = 16 * size := by
      rw [holds.toSorting.length, List.length_map, len, Nat.mul_comm held.length, ← Nat.mul_assoc]
      exact Nat.mul_div_cancel _ some
    rw [closedBody, if_pos ⟨by omega, holds.array, holds.uniform⟩, whole, Nat.mod_eq_of_lt (by omega)]
    rfl
  have each : ∀ pair ∈ (held.map Prod.fst).zip (held.map Prod.snd), Represents sum pair.1 pair.2 := by
    intro pair inside
    rw [List.zip_map'] at inside
    rcases List.mem_map.mp inside with ⟨entry, isEntry, rfl⟩
    exact holds.represents entry isEntry
  have closed : frame.closed = .head frame.type (held.map Prod.fst).length
    (closedBody frame.type frame.len frame.tokens.length) ::
      ((held.map Prod.snd).flatten ++ []) := by
    rw [Frame.closed, Frame.head, closeHead, List.length_map, ← len, List.append_nil, ← holds.tokens]
  have found : ∀ {i : Nat} {entry : Json × List Token}, held[i]? = some entry →
      arrayGetElement frame.closed i = some (entry.2 ++ ((held.map Prod.snd).drop (i + 1)).flatten ++ []) := by
    intro i entry here
    have inside : i < (held.map Prod.fst).length := by
      rw [List.length_map]
      exact (List.getElem?_eq_some_iff.mp here).1
    have isSegment : (held.map Prod.snd)[i]? = some entry.2 := by rw [List.getElem?_map, here, Option.map_some]
    rw [closed, arrayGetElement_segment (by rw [holds.array]; decide) holds.notRef
      (by rw [List.length_map, List.length_map]) each body [] inside,
      drop_segment isSegment, List.append_assoc]
  have direct : dereference frame.closed = frame.closed := dereference_head (by rw [holds.array]; decide) _ _ _
  have lenClosed : lenOf frame.closed = held.length := len
  refine ⟨held.map Prod.snd, .refl _, ?_, ?_, ?_, ?_⟩
  · rw [getType, direct]
    exact holds.array
  · rw [lenClosed, List.length_map]
  · intro i segment here
    rw [List.getElem?_map, Option.map_eq_some_iff] at here
    rcases here with ⟨entry, here, rfl⟩
    exact ⟨_, (found here).trans (by rw [List.append_assoc])⟩
  · intro i j first second before isFirst isSecond
    have inside : ∀ {i : Nat} {element : Pointer}, arrayGetElement frame.closed i = some element → i < held.length := by
      intro i element here
      rw [← lenClosed, ← direct]
      by_contra outside
      rw [arrayGetElement_out (Nat.not_lt.mp outside)] at here
      cases here
    have entry : ∀ {i : Nat} {element : Pointer} (here : arrayGetElement frame.closed i = some element),
        PointsTo sum (held.get ⟨i, inside here⟩).1 element := by
      intro i element here
      have same := (found (List.getElem?_eq_getElem (inside here))).symm.trans here
      refine ⟨_, _, (Option.some.inj same).symm.trans (List.append_assoc _ _ _), ?_⟩
      exact holds.represents _ (List.getElem_mem _)
    rw [(entry isFirst).cmp_eq (entry isSecond)]
    have compared := List.pairwise_iff_getElem.mp holds.sorted i j (by rw [List.length_map]; exact inside isFirst)
      (by rw [List.length_map]; exact inside isSecond) before
    rwa [List.getElem_map, List.getElem_map] at compared

theorem Sorts.perm {ops : FloatOps} {elements others : List (List Token)} {array : Pointer}
    (sorts : Sorts ops elements array)
    (perm : elements.Perm others) : Sorts ops others array := by
  rcases sorts with ⟨order, same, holds⟩
  exact ⟨order, same.trans perm, holds⟩

theorem sorting_of_canOpen {type : TypeWord} (sorting : type.mkSort = true) (allowed : canOpen type = true) :
    type.kind = .array ∧ type.isRef = false ∧ type.isOwn = false := by
  simp only [canOpen, List.mem_cons, List.not_mem_nil, or_false, decide_eq_true_eq] at allowed
  rcases type with ⟨kind, mkSort, isLocal, isHomo, isUnif, isOrd, isUint, isKey, isRef, isOwn, alloced⟩
  rcases allowed with same | same | same
  · cases same
    cases sorting
  · cases same
    cases sorting
  · cases same
    exact ⟨rfl, rfl, rfl⟩

/-- An array that is opened with `SXE_JITSON_TYPE_MK_SORT` holds what was added
to it in order, if its elements are single tokens or were added in order. -/
theorem insertion_sorts {type : TypeWord} (sorting : type.mkSort = true) (small : size < 2 ^ 28) {stack opened : Stack}
    (opening : stack.openCollection env type = .ok opened) {additions : List Addition} {trees : List Json}
    (adds : List.Forall₂ (Addition.Adds sum size) additions trees) (orderable : Orderable env.ops trees)
    (fit : size = 1 ∨ Ascending env.ops trees) :
    (∀ filled closed, Addition.runAll env size opened additions = .ok filled → filled.closeCollection env = .ok closed →
      Sorts env.ops (additions.map fun addition => addition.element.take size) (closed.pointer (opened.opened - 1))) ∧
    ∀ failure, Addition.runAll env size opened additions = .error failure → failure.fault ≠ .assertion := by
  rcases Frame.openCollection_ok opening with ⟨before, maximum, allowed, -, rfl⟩
  rcases sorting_of_canOpen sorting allowed with ⟨array, notRef, notIndexed⟩
  have opened : Frame.openedType env type = { type with isOrd := true, isUnif := true, isHomo := true } :=
    if_pos ⟨array, Or.inr sorting⟩
  have empty : (Frame.opening env before.jitsons type before.opened).Held env.ops sum size [] := by
    refine ⟨⟨?_, ?_, rfl, rfl, fun segment inside => (by cases inside)⟩, ?_, ?_, ?_,
      fun entry inside => (by cases inside), .nil⟩
    · exact (congrArg TypeWord.kind opened).trans array
    · exact (congrArg TypeWord.mkSort opened).trans sorting
    · exact congrArg TypeWord.isUnif opened
    · exact (congrArg TypeWord.isRef opened).trans notRef
    · exact (congrArg TypeWord.isOwn opened).trans notIndexed
  rcases @Frame.Held.runAll env sum _ maximum before.last before.borrow size
    [] empty additions trees adds orderable fit with
    ⟨done, failed⟩
  refine ⟨fun filled closed ran closing => ?_, failed⟩
  rcases done filled ran with ⟨frame, maximum', last', held, rfl, base, holds, perm⟩
  have place : (Frame.opening env before.jitsons type before.opened).base.length = frame.base.length := by rw [base]
  rw [Frame.stack_opened, Nat.add_sub_cancel, place, Builds.pointer_closed closing]
  exact (holds.sorts small).perm perm

/-- A string of eight bytes, which takes two tokens. -/
def eightBytes (byte : UInt8) : Pointer := [.head { kind := .string } 8 (.string (List.replicate 8 byte)), .more]

/-- The numbers 1 and 2 are added in the other order. -/
theorem insertion_sorts_two :
    (∀ filled closed, Addition.runAll numberEnv 1 ((Frame.opening numberEnv []
      { kind := .array, mkSort := true } 0).stack 1 0 0)
        [.uint 2, .uint 1] = .ok filled → filled.closeCollection numberEnv = .ok closed →
      Sorts numberEnv.ops [[makeUint 2], [makeUint 1]] (closed.pointer 0)) ∧
    ∀ failure, Addition.runAll numberEnv 1 ((Frame.opening numberEnv []
      { kind := .array, mkSort := true } 0).stack 1 0 0)
        [.uint 2, .uint 1] = .error failure → failure.fault ≠ .assertion :=
  have opening : openCollection numberEnv emptyStack { kind := .array, mkSort := true } =
      .ok ((Frame.opening numberEnv [] { kind := .array, mkSort := true } 0).stack 1 0 0) := rfl
  have adds : List.Forall₂ (Addition.Adds List.length 1) [.uint 2, .uint 1] [.uint 2, .uint 1] :=
    .cons ⟨fun _ => rfl, Nat.le_refl _, .uint rfl rfl⟩ (.cons ⟨fun _ => rfl, Nat.le_refl _, .uint rfl rfl⟩ .nil)
  insertion_sorts rfl (by decide) opening adds
    (orderable_of_sortable (by simp [Json.Sortable.uint]) (by simp [Json.cmp_uint]; decide)) (Or.inl rfl)

/-- The array of strings of eight bytes under construction, with its tokens. -/
def stringsStack (maximum len last : Nat) (tokens : List Token) : Stack :=
  ⟨maximum, .head { kind := .array, mkSort := true, isOrd := true, isUnif := true, isHomo := true } len
    (.part false last 0) :: tokens,
    true, 1, last, 0⟩

/-- The strings `"bbbbbbbb"` and `"aaaaaaaa"` are added: of the first, the head
is overwritten. -/
theorem insertion_loses :
    openCollection numberEnv emptyStack { kind := .array, mkSort := true } = .ok (stringsStack 1 0 0 []) ∧
    ¬ ∀ filled closed, Addition.runAll numberEnv 2 (stringsStack 1 0 0 [])
        [.value { kind := .string } (eightBytes 98), .value { kind := .string } (eightBytes 97)] = .ok filled →
      filled.closeCollection numberEnv = .ok closed →
        Sorts numberEnv.ops [eightBytes 98, eightBytes 97] (closed.pointer 0) := by
  refine ⟨rfl, fun sorts => ?_⟩
  have first : (stringsStack 1 0 0 []).addValue numberEnv 2 { kind := .string } (some (eightBytes 98)) =
      .ok (stringsStack 3 1 1 (eightBytes 98)) := rfl
  have second : (stringsStack 3 1 1 (eightBytes 98)).addValue numberEnv 2 { kind := .string } (some (eightBytes 97)) =
      .ok (stringsStack 6 2 3 (eightBytes 97 ++ [.more, .more])) := rfl
  have ran : Addition.runAll numberEnv 2 (stringsStack 1 0 0 [])
      [.value { kind := .string } (eightBytes 98), .value { kind := .string } (eightBytes 97)] =
      .ok (stringsStack 6 2 3 (eightBytes 97 ++ [.more, .more])) := by
    rw [Addition.runAll, Addition.run, first, ok_bind, Addition.runAll, Addition.run, second]
    rfl
  rcases sorts _ _ ran rfl with ⟨order, perm, -, -, found, -⟩
  have two : order.length = 2 := perm.length_eq
  rcases found 1 _ (List.getElem?_eq_getElem (by omega)) with ⟨rest, here⟩
  have lost : arrayGetElement (.head { kind := .array, mkSort := true, isOrd := true, isUnif := true, isHomo := true }
    2 (.uniform 32) ::
      (eightBytes 97 ++ [.more, .more])) 1 = some [.more, .more] := rfl
  have inside := perm.subset (List.getElem_mem (show 1 < order.length by omega))
  have same := Option.some.inj (lost.symm.trans here)
  rcases List.mem_cons.mp inside with isFirst | isSecond
  · rw [isFirst] at same
    cases same
  · rw [List.mem_singleton.mp isSecond] at same
    cases same

end

end Jitson
end LibKit
