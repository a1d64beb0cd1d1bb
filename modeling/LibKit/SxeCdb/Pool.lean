import LibKit.Support.Linked
import LibKit.SxeCdb.Model

namespace LibKit
namespace SxeCdb

/-!
# The pool of counter nodes

Free nodes are threaded through their field `next`.  The thread is as long as
`counts_free` says; what the last free node points to is stale.  A node handed
out is neither free nor in use, and the nodes in use keep their contents.
-/

/-- The free nodes of an instance, beside those in use. -/
structure Pool (cdb : Instance) (used : Nat → Prop) (free : List Nat) : Prop where
  threaded : Threaded (fun c => (cdb.counts c).next) cdb.countsNextFree free
  length : free.length = cdb.countsFree
  nodup : free.Nodup
  apart : ∀ c ∈ free, ¬ used c
  range : ∀ c, c ∈ free ∨ used c → 1 ≤ c ∧ c < cdb.countsSize
  pages : cdb.countsPages < 2 ^ 20
  size : cdb.countsSize = if cdb.countsPages = 0 then 0 else pageBytes * cdb.countsPages / countBytes

theorem Pool.size_lt {cdb : Instance} {used : Nat → Prop} {free : List Nat} (pool : Pool cdb used free) :
    cdb.countsSize < 2 ^ 32 := by
  have pages := pool.pages
  have size := pool.size
  simp only [pageBytes, countBytes] at size
  split at size <;> omega

theorem fresh_pool (keysAtStart maximum : Nat) : Pool (fresh keysAtStart maximum) (fun _ => False) [] := by
  refine ⟨trivial, rfl, List.nodup_nil, ?_, ?_, ?_, rfl⟩
  · intro c member
    cases member
  · rintro c (member | impossible)
    · cases member
    · cases impossible
  · exact Nat.two_pow_pos 20

/-! ## Pushing -/

/-- Pushing nodes in descending order threads them in ascending order. -/
theorem pushFree_foldl (cs free : List Nat) (cdb : Instance) (nodup : (cs ++ free).Nodup)
    (threaded : Threaded (fun c => (cdb.counts c).next) cdb.countsNextFree free) :
    ∃ counts nextFree, cs.reverse.foldl pushFree cdb =
        { cdb with counts := counts, countsNextFree := nextFree, countsFree := cdb.countsFree + cs.length } ∧
      Threaded (fun c => (counts c).next) nextFree (cs ++ free) ∧
      (∀ c, c ∉ cs → counts c = cdb.counts c) ∧
      ∀ c, (counts c).hkv1 = (cdb.counts c).hkv1 := by
  induction cs with
  | nil => exact ⟨cdb.counts, cdb.countsNextFree, rfl, threaded, fun _ _ => rfl, fun _ => rfl⟩
  | cons c cs ih =>
      rcases List.nodup_cons.mp nodup with ⟨fresh, rest⟩
      rcases ih rest with ⟨counts, nextFree, folded, inner, same, heads⟩
      refine ⟨Function.update counts c { counts c with next := nextFree }, c, ?_, ?_, ?_, ?_⟩
      · rw [List.reverse_cons, List.foldl_append, folded]
        simp only [List.foldl_cons, List.foldl_nil, pushFree, modifyCount, List.length_cons]
        congr 1
      · refine ⟨rfl, ?_⟩
        simp only [Function.update_self]
        apply inner.congr
        intro other member
        have differ : other ≠ c := fun equal => fresh (equal ▸ member)
        simp only [Function.update_of_ne differ]
      · intro other outside
        rw [List.mem_cons, not_or] at outside
        rw [Function.update_of_ne outside.1]
        exact same other outside.2
      · intro other
        by_cases here : other = c
        · subst here
          simp only [Function.update_self]
          exact heads other
        · rw [Function.update_of_ne here]
          exact heads other

theorem freeCountPush_pool {cdb after : Instance} {used : Nat → Prop} {free : List Nat} {c : Nat}
    (pool : Pool cdb used free) (inUse : used c) (pushed : freeCountPush cdb c c = some after) :
    ∃ counts, after = { cdb with counts := counts, countsNextFree := c, countsFree := cdb.countsFree + 1 } ∧
      Pool after (fun other => used other ∧ other ≠ c) (c :: free) ∧
      (∀ other, other ≠ c → counts other = cdb.counts other) := by
  have fresh : c ∉ free := fun member => pool.apart c member inUse
  have single : List.range' c (c + 1 - c) = [c] := by
    have one : c + 1 - c = 1 := by omega
    rw [one]
    rfl
  have form : freeCountPush cdb c c = some (pushFree cdb c) := by
    have positive := (pool.range c (Or.inr inUse)).1
    rw [freeCountPush, if_neg (by omega), single]
    rfl
  rw [form] at pushed
  have same := (Option.some.inj pushed).symm
  refine ⟨Function.update cdb.counts c { cdb.counts c with next := cdb.countsNextFree }, same, ?_, ?_⟩
  · rw [same]
    refine ⟨⟨rfl, ?_⟩, ?_, List.nodup_cons.mpr ⟨fresh, pool.nodup⟩, ?_, ?_, pool.pages, pool.size⟩
    · simp only [pushFree, modifyCount, Function.update_self]
      apply pool.threaded.congr
      intro other member
      have differ : other ≠ c := fun equal => fresh (equal ▸ member)
      simp only [Function.update_of_ne differ]
    · simp only [pushFree, modifyCount, List.length_cons, pool.length]
    · intro other member both
      rcases List.mem_cons.mp member with now | before
      · exact both.2 now
      · exact pool.apart other before both.1
    · rintro other (member | both)
      · rcases List.mem_cons.mp member with now | before
        · rw [now]
          exact pool.range c (Or.inr inUse)
        · exact pool.range other (Or.inl before)
      · exact pool.range other (Or.inr both.1)
  · intro other differ
    exact Function.update_of_ne differ _ _

/-! ## Popping -/

/-- An empty pool is filled from a new page. -/
theorem growCounts_pool {cdb after : Instance} {used : Nat → Prop} (pool : Pool cdb used [])
    (grown : growCounts cdb = some after) :
    ∃ counts nextFree countsFree countsPages countsSize free, after =
        { cdb with
          counts := counts
          countsNextFree := nextFree
          countsFree := countsFree
          countsPages := countsPages
          countsSize := countsSize } ∧
      Pool after used free ∧ free ≠ [] ∧ ∀ c, used c → counts c = cdb.counts c := by
  have pages := pool.pages
  have size := pool.size
  simp only [pageBytes, countBytes] at size
  have small : (cdb.countsPages + 1) % 2 ^ 32 = cdb.countsPages + 1 := by omega
  unfold growCounts at grown
  simp only [small] at grown
  split at grown
  · cases grown
  · rename_i nonzero
    have notLast : cdb.countsPages + 1 < 2 ^ 20 := by
      by_contra last
      have exactly : cdb.countsPages + 1 = 2 ^ 20 := by omega
      rw [exactly] at nonzero
      exact nonzero rfl
    have bytes : pageBytes * (cdb.countsPages + 1) % 2 ^ 32 = pageBytes * (cdb.countsPages + 1) := by
      simp only [pageBytes]
      omega
    rw [bytes] at grown
    generalize start : cdb.countsSize + (if cdb.countsPages + 1 = 1 then 1 else 0) = first at grown
    have positive : 1 ≤ first ∧ cdb.countsSize ≤ first := by
      split at size <;> split at start <;> omega
    have more : first < pageBytes * (cdb.countsPages + 1) / countBytes := by
      simp only [pageBytes, countBytes]
      split at size <;> split at start <;> omega
    generalize wanted : pageBytes * (cdb.countsPages + 1) / countBytes - first = count at grown
    have counted : first + count - 1 + 1 - first = count := by omega
    rcases Option.map_eq_some_iff.mp grown with ⟨pushed, found, result⟩
    unfold freeCountPush at found
    rw [if_neg (by omega), counted] at found
    have nodup : (List.range' first count ++ []).Nodup := by
      rw [List.append_nil]
      exact List.nodup_range'
    rcases pushFree_foldl (List.range' first count) []
      { cdb with countsPages := cdb.countsPages + 1, countsSize := first } nodup trivial with
      ⟨counts, nextFree, folded, threaded, same, _⟩
    rw [folded] at found
    have form := (Option.some.inj found).symm
    rw [List.append_nil] at threaded
    refine ⟨counts, nextFree, cdb.countsFree + (List.range' first count).length, cdb.countsPages + 1,
      first + count, List.range' first count, ?_, ?_, ?_, ?_⟩
    · rw [← result, form]
    · rw [← result, form]
      refine ⟨threaded, ?_, List.nodup_range', ?_, ?_, notLast, ?_⟩
      · have none : cdb.countsFree = 0 := pool.length.symm
        simp [none]
      · intro c member inUse
        have bound := (pool.range c (Or.inr inUse)).2
        have inside := List.mem_range'_1.mp member
        omega
      · rintro c (member | inUse)
        · have inside := List.mem_range'_1.mp member
          dsimp only
          omega
        · have bound := pool.range c (Or.inr inUse)
          dsimp only
          omega
      · dsimp only
        rw [if_neg (by omega)]
        omega
    · intro nothing
      have length := congrArg List.length nothing
      rw [List.length_range', List.length_nil] at length
      omega
    · intro c inUse
      apply same
      intro member
      have bound := (pool.range c (Or.inr inUse)).2
      have inside := List.mem_range'_1.mp member
      omega

/-- A node handed out was free, and the others keep their contents. -/
theorem freeCountPop_pool {cdb after : Instance} {used : Nat → Prop} {free : List Nat} {c : Nat}
    (pool : Pool cdb used free) (popped : freeCountPop cdb = some (c, after)) :
    ∃ counts nextFree countsFree countsPages countsSize rest, after =
        { cdb with
          counts := counts
          countsNextFree := nextFree
          countsFree := countsFree
          countsPages := countsPages
          countsSize := countsSize } ∧
      Pool after (fun other => used other ∨ other = c) rest ∧ ¬ used c ∧
      ∀ other, used other → counts other = cdb.counts other := by
  have take : ∀ {ready : Instance} {some : List Nat}, Pool ready used some → some ≠ [] →
      ∃ rest, Pool { ready with
          countsNextFree := (ready.counts ready.countsNextFree).next
          countsFree := ready.countsFree - 1 }
        (fun other => used other ∨ other = ready.countsNextFree) rest ∧ ¬ used ready.countsNextFree := by
    intro ready some filled nonempty
    cases some with
    | nil => exact absurd rfl nonempty
    | cons head rest =>
        rcases filled.threaded with ⟨here, threaded⟩
        rcases List.nodup_cons.mp filled.nodup with ⟨fresh, nodup⟩
        rw [here]
        refine ⟨rest, ⟨threaded, ?_, nodup, ?_, ?_, filled.pages, filled.size⟩,
          filled.apart head List.mem_cons_self⟩
        · have length := filled.length
          rw [List.length_cons] at length
          dsimp only
          omega
        · rintro other member (inUse | now)
          · exact filled.apart other (List.mem_cons_of_mem _ member) inUse
          · exact fresh (now ▸ member)
        · rintro other (member | inUse | now)
          · exact filled.range other (Or.inl (List.mem_cons_of_mem _ member))
          · exact filled.range other (Or.inr inUse)
          · rw [now]
            exact filled.range head (Or.inl List.mem_cons_self)
  unfold freeCountPop at popped
  rcases Option.map_eq_some_iff.mp popped with ⟨ready, found, result⟩
  cases result
  split at found
  · rename_i empty
    have nothing : free = [] := by
      apply List.length_eq_zero_iff.mp
      rw [pool.length]
      exact empty
    subst nothing
    rcases growCounts_pool pool found with
      ⟨counts, nextFree, countsFree, countsPages, countsSize, filledWith, form, filled, nonempty, same⟩
    rcases take filled nonempty with ⟨rest, taken, fresh⟩
    refine ⟨counts, (ready.counts ready.countsNextFree).next, ready.countsFree - 1, countsPages, countsSize,
      rest, ?_, taken, fresh, same⟩
    rw [form]
  · rename_i nonempty
    have same := (Option.some.inj found).symm
    subst same
    have some : free ≠ [] := by
      intro nothing
      apply nonempty
      rw [← pool.length, nothing]
      rfl
    rcases take pool some with ⟨rest, taken, fresh⟩
    exact ⟨_, _, _, _, _, rest, rfl, taken, fresh, fun _ _ => rfl⟩

end SxeCdb
end LibKit
