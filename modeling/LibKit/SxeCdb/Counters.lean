import LibKit.SxeCdb.Linking

namespace LibKit
namespace SxeCdb

/-!
# Counting keys keeps the lists sorted

The abstract effect of `sxe_cdb_instance_inc` on a counts list is to move a
key from the bucket of its count to the next one, with buckets made and
dropped as needed.  The invariant `Counters` says that every counts list is a
strictly increasing list of non-empty buckets, which hold exactly the counters
logged for that list, each in the bucket of its tally.
-/

section

variable {cdb : Instance} {log : Log} {chains : Nat → List Bucket} {free : List Nat}

/-! ## The invariant -/

/-- A sorted list of non-empty buckets, each with the keys of its tally. -/
structure Sorted (buckets : List Bucket) (tally : Nat → Nat) : Prop where
  sorted : buckets.Pairwise (fun first second => first.count < second.count)
  nonempty : ∀ bucket ∈ buckets, bucket.keys ≠ []
  tallied : ∀ bucket ∈ buckets, ∀ pos ∈ bucket.keys, bucket.count = tally pos
  positive : ∀ bucket ∈ buckets, 1 ≤ bucket.count

/-- Every counts list is sorted and holds the counters logged for it. -/
structure Counters (cdb : Instance) (log : Log) (chains : Nat → List Bucket) (free : List Nat)
    (tally : Nat → Nat) : Prop where
  shape : Shape cdb log.links chains free
  counters : ∀ l pos, (∃ bucket ∈ chains l, pos ∈ bucket.keys) ↔
    ∃ entry, log.entries pos = some entry ∧ entry.content = .counter l
  sorted : ∀ l, Sorted (chains l) tally

theorem Counters.keyed {tally : Nat → Nat} (inv : Counters cdb log chains free tally) :
    Keyed log.entries chains := by
  intro l bucket member pos inKeys
  exact (inv.counters l pos).mp ⟨bucket, member, inKeys⟩

/-- Where a counter stands. -/
theorem Counters.locate {tally : Nat → Nat} (inv : Counters cdb log chains free tally) {l pos : Nat}
    {entry : Entry} (logged : log.entries pos = some entry) (counter : entry.content = .counter l) :
    ∃ left right c front back,
      chains l = left ++ ⟨c, tally pos, front ++ pos :: back⟩ :: right := by
  rcases (inv.counters l pos).mpr ⟨entry, logged, counter⟩ with ⟨bucket, member, inKeys⟩
  rcases List.append_of_mem member with ⟨left, right, form⟩
  rcases List.append_of_mem inKeys with ⟨front, back, keys⟩
  refine ⟨left, right, bucket.node, front, back, ?_⟩
  rw [form, ← keys, ← (inv.sorted l).tallied bucket member pos inKeys]

/-- The other lists do not notice when a counter of one list is counted. -/
theorem Counters.counted {tally : Nat → Nat} (inv : Counters cdb log chains free tally) {after : Instance}
    {links : Nat → Links} {free' : List Nat} {l pos : Nat} {entry : Entry} {buckets : List Bucket}
    (logged : log.entries pos = some entry) (counter : entry.content = .counter l)
    (shape : Shape after links (Function.update chains l buckets) free')
    (keys : ∀ other, (∃ bucket ∈ buckets, other ∈ bucket.keys) ↔ ∃ bucket ∈ chains l, other ∈ bucket.keys)
    (sorted : Sorted buckets (Function.update tally pos (tally pos + 1))) :
    Counters after { log with links := links } (Function.update chains l buckets) free'
      (Function.update tally pos (tally pos + 1)) := by
  refine ⟨shape, ?_, ?_⟩
  · intro l' other
    by_cases here : l' = l
    · subst here
      rw [Function.update_self, keys]
      exact inv.counters l' other
    · rw [Function.update_of_ne here]
      exact inv.counters l' other
  · intro l'
    by_cases here : l' = l
    · subst here
      rw [Function.update_self]
      exact sorted
    · rw [Function.update_of_ne here]
      have old := inv.sorted l'
      refine ⟨old.sorted, old.nonempty, ?_, old.positive⟩
      intro bucket member other inKeys
      have apart : other ≠ pos := by
        intro same
        subst same
        rcases (inv.counters l' other).mp ⟨bucket, member, inKeys⟩ with ⟨second, again, content⟩
        have equal : second = entry := Option.some.inj (again.symm.trans logged)
        rw [equal, counter] at content
        cases content
        exact here rfl
      rw [Function.update_of_ne apart]
      exact old.tallied bucket member other inKeys

/-! ## Moving a key to the next count, abstractly -/

section

variable {left right buckets : List Bucket} {bucket : Bucket} {tally tally' : Nat → Nat}

theorem Sorted.between (sorted : Sorted (left ++ bucket :: right) tally) :
    (∀ first ∈ left, first.count < bucket.count) ∧ ∀ second ∈ right, bucket.count < second.count := by
  rcases List.pairwise_append.mp sorted.sorted with ⟨_, rest, across⟩
  exact ⟨fun first member => across first member bucket List.mem_cons_self, (List.pairwise_cons.mp rest).1⟩

theorem Sorted.drop (sorted : Sorted (left ++ bucket :: right) tally) : Sorted (left ++ right) tally := by
  have part : (left ++ right).Sublist (left ++ bucket :: right) :=
    (List.Sublist.refl left).append (List.sublist_cons_self bucket right)
  refine ⟨sorted.sorted.sublist part, ?_, ?_, ?_⟩
  · intro other member
    exact sorted.nonempty other (part.subset member)
  · intro other member
    exact sorted.tallied other (part.subset member)
  · intro other member
    exact sorted.positive other (part.subset member)

theorem Sorted.retally (sorted : Sorted buckets tally)
    (same : ∀ bucket ∈ buckets, ∀ pos ∈ bucket.keys, tally' pos = tally pos) : Sorted buckets tally' := by
  refine ⟨sorted.sorted, sorted.nonempty, ?_, sorted.positive⟩
  intro bucket member pos inKeys
  rw [same bucket member pos inKeys]
  exact sorted.tallied bucket member pos inKeys

/-- A bucket may be put where its count belongs. -/
theorem Sorted.place (sorted : Sorted (left ++ right) tally)
    (below : ∀ first ∈ left, first.count < bucket.count) (above : ∀ second ∈ right, bucket.count < second.count)
    (nonempty : bucket.keys ≠ []) (tallied : ∀ pos ∈ bucket.keys, bucket.count = tally pos)
    (positive : 1 ≤ bucket.count) : Sorted (left ++ bucket :: right) tally := by
  have split : ∀ {other}, other ∈ left ++ bucket :: right → other = bucket ∨ other ∈ left ++ right := by
    intro other member
    simp only [List.mem_append, List.mem_cons] at member ⊢
    tauto
  rcases List.pairwise_append.mp sorted.sorted with ⟨leftSorted, rightSorted, across⟩
  refine ⟨?_, ?_, ?_, ?_⟩
  · refine List.pairwise_append.mpr ⟨leftSorted, List.pairwise_cons.mpr ⟨above, rightSorted⟩, ?_⟩
    intro first inLeft second member
    rcases List.mem_cons.mp member with now | inRight
    · rw [now]
      exact below first inLeft
    · exact across first inLeft second inRight
  · intro other member
    rcases split member with now | before
    · rw [now]
      exact nonempty
    · exact sorted.nonempty other before
  · intro other member
    rcases split member with now | before
    · rw [now]
      exact tallied
    · exact sorted.tallied other before
  · intro other member
    rcases split member with now | before
    · rw [now]
      exact positive
    · exact sorted.positive other before

theorem Sorted.join (sorted : Sorted (left ++ bucket :: right) tally) {pos : Nat} (same : bucket.count = tally pos) :
    Sorted (left ++ ⟨bucket.node, bucket.count, pos :: bucket.keys⟩ :: right) tally := by
  have member : bucket ∈ left ++ bucket :: right := List.mem_append_right _ List.mem_cons_self
  refine sorted.drop.place sorted.between.1 sorted.between.2 (List.cons_ne_nil _ _) ?_
    (sorted.positive bucket member)
  intro other inKeys
  rcases List.mem_cons.mp inKeys with now | before
  · rw [now]
    exact same
  · exact sorted.tallied bucket member other before

theorem Sorted.above (sorted : Sorted (left ++ right) tally) {bound : Nat}
    (first : ∀ second, right.head? = some second → bound < second.count) :
    ∀ second ∈ right, bound < second.count := by
  cases right with
  | nil =>
      intro second member
      cases member
  | cons head right =>
      have next := first head rfl
      intro second member
      rcases List.mem_cons.mp member with now | later
      · rw [now]
        exact next
      · exact Nat.lt_trans next (sorted.between.2 second later)

end

/-! ## Counting a key again -/

section

variable {tally : Nat → Nat} {l c pos : Nat} {left right : List Bucket} {front back : List Nat}

theorem Shape.only (shape : Shape cdb log.links chains free) {bucket : Bucket}
    (form : chains l = left ++ bucket :: right) (inKeys : pos ∈ bucket.keys) :
    (∀ other ∈ left ++ right, pos ∉ other.keys) ∧ ∀ l', l' ≠ l → ∀ other ∈ chains l', pos ∉ other.keys := by
  rcases shape.bucket_node form with ⟨member, apart⟩
  refine ⟨?_, ?_⟩
  · intro other inRest again
    have inChain : other ∈ chains l := by
      rw [form]
      simp only [List.mem_append, List.mem_cons] at inRest ⊢
      tauto
    have same := shape.same_node member inChain inKeys again
    exact apart (same ▸ mem_nodesOf inRest)
  · intro l' differ other inChain again
    exact differ (shape.same_bucket member inChain inKeys again).1.symm

theorem Shape.loose (shape : Shape cdb log.links chains free)
    (form : chains l = left ++ ⟨c, tally pos, front ++ pos :: back⟩ :: right) {bucket : Bucket}
    (keys : bucket.keys = front ++ back) :
    ∀ l', ∀ other ∈ Function.update chains l (left ++ bucket :: right) l', pos ∉ other.keys := by
  have inKeys : pos ∈ front ++ pos :: back := List.mem_append_right _ List.mem_cons_self
  have member := (shape.bucket_node form).1
  have nodup := ((shape.chained l).buckets _ member).nodup
  rcases shape.only form inKeys with ⟨inList, inOthers⟩
  intro l' other inChain
  by_cases here : l' = l
  · subst here
    rw [Function.update_self] at inChain
    have split : other = bucket ∨ other ∈ left ++ right := by
      simp only [List.mem_append, List.mem_cons] at inChain ⊢
      tauto
    rcases split with now | before
    · rw [now, keys]
      exact (List.nodup_cons.mp (List.nodup_middle.mp nodup)).1
    · exact inList other before
  · rw [Function.update_of_ne here] at inChain
    exact inOthers l' here other inChain

/-- The branches of `incOld` in terms of the chains. -/
theorem incOld_eq (inv : Counters cdb log chains free tally) (stored : Stored cdb.kvdata cdb.kvdataUsed log)
    {entry : Entry} (logged : log.entries pos = some entry) (counter : entry.content = .counter l)
    (form : chains l = left ++ ⟨c, tally pos, front ++ pos :: back⟩ :: right) (small : tally pos + 1 < 2 ^ 48) :
    incOld cdb l pos =
      if front = [] ∧ back = [] ∧ ∀ bucket, right.head? = some bucket → tally pos + 1 < bucket.count then
        some (tally pos + 1, modifyCount cdb c (fun count => { count with count := (count.count + 1) % 2 ^ 48 }))
      else
        (unlinkCount (unlinkHkv cdb pos c (back.head?.getD 0) (front.getLast?.getD 0)) l c
          ((nodesOf right).head?.getD 0) ((nodesOf left).getLast?.getD 0)).bind (fun after =>
        (linkHkv after l pos (hkvUnpack cdb.kvdata pos).val c ((nodesOf right).head?.getD 0)
          (tally pos + 1)).map (fun after => (tally pos + 1, after))) := by
  have chained := inv.shape.chained l
  rcases inv.shape.bucket_node form with ⟨member, _⟩
  have ok := chained.buckets _ member
  have inKeys : pos ∈ front ++ pos :: back := List.mem_append_right _ List.mem_cons_self
  have nodes := chained.linked
  rw [form, nodesOf_append, nodesOf_cons] at nodes
  rcases Linked.neighbours nodes with ⟨lastNode, nextNode⟩
  rcases Linked.neighbours ok.linked with ⟨lastKey, nextKey⟩
  rcases stored.countToUse logged counter with ⟨use, next, last⟩
  rcases stored.unpack logged with ⟨header, _, whole⟩
  have length : (hkvUnpack cdb.kvdata pos).valLen = hkvListBytes := by
    rw [whole]
    simp only [Entry.valLen, counter]
  have useIs := use.trans (ok.use pos inKeys)
  have inside : ¬ c ≥ cdb.countsSize :=
    Nat.not_le_of_lt (inv.shape.pool.range c (Or.inr ⟨l, mem_nodesOf member⟩)).2
  have firstIff : (cdb.counts c).hkv1 = pos ↔ front = [] := by
    rw [ok.first]
    cases front with
    | nil => simp
    | cons first front =>
        have apart : first ≠ pos := by
          intro same
          subst same
          exact (List.nodup_cons.mp ok.nodup).1 (List.mem_append_right _ List.mem_cons_self)
        simp [apart]
  have nextIff : back.head?.getD 0 = 0 ↔ back = [] := by
    cases back with
    | nil => simp
    | cons next back =>
        have nonzero : next ≠ 0 := by
          intro zero
          subst zero
          exact ok.positive (List.mem_append_right _ (List.mem_cons_of_mem _ List.mem_cons_self))
        simp [nonzero]
  have higherIff : ((nodesOf right).head?.getD 0 = 0 ∨
      (cdb.counts ((nodesOf right).head?.getD 0)).count > tally pos + 1) ↔
      ∀ bucket, right.head? = some bucket → tally pos + 1 < bucket.count := by
    cases right with
    | nil => simp
    | cons bucket right =>
        have inChain : bucket ∈ chains l := by
          rw [form]
          exact List.mem_append_right _ (List.mem_cons_of_mem _ List.mem_cons_self)
        have nonzero : bucket.node ≠ 0 := fun zero => chained.positive (zero ▸ mem_nodesOf inChain)
        simp [nonzero, (chained.buckets bucket inChain).count]
  have countIs : (cdb.counts c).count = tally pos := ok.count
  have nextIs : (cdb.counts c).next = (nodesOf right).head?.getD 0 := nextNode
  have lastIs : (cdb.counts c).last = (nodesOf left).getLast?.getD 0 := lastNode
  rw [incOld]
  simp only [useIs, length, ne_eq, not_true_eq_false, if_false, if_neg inside, countIs, nextIs, lastIs, next,
    last, nextKey, lastKey, Nat.mod_eq_of_lt small, firstIff, nextIff, higherIff]

theorem exists_key_iff {bucket : Bucket} {other : Nat} :
    (∃ found ∈ left ++ bucket :: right, other ∈ found.keys) ↔
      (∃ found ∈ left ++ right, other ∈ found.keys) ∨ other ∈ bucket.keys := by
  constructor
  · rintro ⟨found, member, inKeys⟩
    have split : found = bucket ∨ found ∈ left ++ right := by
      simp only [List.mem_append, List.mem_cons] at member ⊢
      tauto
    rcases split with now | before
    · exact Or.inr (now ▸ inKeys)
    · exact Or.inl ⟨found, before, inKeys⟩
  · rintro (⟨found, member, inKeys⟩ | inKeys)
    · refine ⟨found, ?_, inKeys⟩
      simp only [List.mem_append, List.mem_cons] at member ⊢
      tauto
    · exact ⟨bucket, List.mem_append_right _ List.mem_cons_self, inKeys⟩

theorem Keyed.update {entries : Nat → Option Entry} (keyed : Keyed entries chains) {buckets : List Bucket}
    (part : ∀ other, (∃ bucket ∈ buckets, other ∈ bucket.keys) → ∃ bucket ∈ chains l, other ∈ bucket.keys) :
    Keyed entries (Function.update chains l buckets) := by
  intro l' bucket member other inKeys
  by_cases here : l' = l
  · subst here
    rw [Function.update_self] at member
    rcases part other ⟨bucket, member, inKeys⟩ with ⟨old, inChain, oldKey⟩
    exact keyed l' old inChain other oldKey
  · rw [Function.update_of_ne here] at member
    exact keyed l' bucket member other inKeys

/-- Counting the only key of a bucket, when the next count is not in use. -/
theorem recount_counters (inv : Counters cdb log chains free tally) {entry : Entry}
    (logged : log.entries pos = some entry) (counter : entry.content = .counter l)
    (form : chains l = left ++ ⟨c, tally pos, [pos]⟩ :: right) (small : tally pos + 1 < 2 ^ 48)
    (higher : ∀ bucket, right.head? = some bucket → tally pos + 1 < bucket.count) :
    Counters (modifyCount cdb c (fun count => { count with count := (count.count + 1) % 2 ^ 48 })) log
      (Function.update chains l (left ++ ⟨c, tally pos + 1, [pos]⟩ :: right)) free
      (Function.update tally pos (tally pos + 1)) := by
  have member := (inv.shape.bucket_node form).1
  have countIs : (cdb.counts c).count = tally pos := ((inv.shape.chained l).buckets _ member).count
  have elsewhere := (inv.shape.only form List.mem_cons_self).1
  have sorted := inv.sorted l
  rw [form] at sorted
  have lists : SameLists cdb
      (modifyCount cdb c (fun count => { count with count := (count.count + 1) % 2 ^ 48 })) :=
    ⟨rfl, rfl, rfl, rfl, rfl, rfl⟩
  have shape := @Shape.recount cdb log chains free inv.shape _ lists l (tally pos + 1) left right
    ⟨c, tally pos, [pos]⟩ form (by
      rw [← Nat.mod_eq_of_lt small, ← countIs]
      rfl)
  refine inv.counted logged counter shape ?_ ?_
  · intro other
    rw [form, exists_key_iff, exists_key_iff]
  · have rest := @Sorted.retally _ tally (Function.update tally pos (tally pos + 1)) sorted.drop (by
      intro bucket inRest other inKeys
      rw [Function.update_of_ne]
      exact fun same => elsewhere bucket inRest (same ▸ inKeys))
    refine rest.place ?_ (rest.above higher) (List.cons_ne_nil _ _) ?_ (Nat.le_add_left 1 _)
    · intro first inLeft
      exact Nat.lt_succ_of_lt (sorted.between.1 first inLeft)
    · intro other inKeys
      rw [List.mem_singleton.mp inKeys, Function.update_self]

/-- Linking a loose key puts it into the bucket of its tally, an old or a new one. -/
theorem linkHkv_counters (shape : Shape cdb log.links chains free)
    (stored : Stored cdb.kvdata cdb.kvdataUsed log) (keyed : Keyed log.entries chains)
    (bound : cdb.kvdataUsed < 2 ^ 32) {entry : Entry} (logged : log.entries pos = some entry)
    (counter : entry.content = .counter l) (loose : ∀ l', ∀ other ∈ chains l', pos ∉ other.keys)
    (form : chains l = left ++ right) (sorted : Sorted (left ++ right) tally)
    (below : ∀ first ∈ left, first.count < tally pos) (above : ∀ second ∈ right, tally pos ≤ second.count)
    (positive : 1 ≤ tally pos) (small : tally pos < 2 ^ 48)
    (before : (∀ bucket, right.head? = some bucket → bucket.count ≠ tally pos) →
      (nodesOf left).getLast? = some c)
    {after : Instance}
    (done : linkHkv cdb l pos (hkvUnpack cdb.kvdata pos).val c ((nodesOf right).head?.getD 0) (tally pos) =
      some after) :
    ∃ links buckets free', Stored after.kvdata cdb.kvdataUsed { log with links := links } ∧
      Shape after links (Function.update chains l buckets) free' ∧
      (∀ other, (∃ found ∈ buckets, other ∈ found.keys) ↔
        (∃ found ∈ left ++ right, other ∈ found.keys) ∨ other = pos) ∧
      Sorted buckets tally := by
  by_cases absent : ∀ bucket, right.head? = some bucket → bucket.count ≠ tally pos
  · rcases linkHkv_insert shape stored logged counter loose form (before absent) absent done with
      ⟨new, links, rest, stored', shape'⟩
    rw [Nat.mod_eq_of_lt small] at shape'
    refine ⟨links, _, rest, stored', shape', ?_, ?_⟩
    · intro other
      rw [exists_key_iff, List.mem_singleton]
    · refine sorted.place below ?_ (List.cons_ne_nil _ _) ?_ positive
      · apply sorted.above
        intro second head
        have member := above second (List.mem_of_mem_head? head)
        have differ := absent second head
        exact Nat.lt_of_le_of_ne member (Ne.symm differ)
      · intro other inKeys
        rw [List.mem_singleton.mp inKeys]
  · push Not at absent
    rcases absent with ⟨bucket, head, equal⟩
    rcases List.head?_eq_some_iff.mp head with ⟨more, rightIs⟩
    subst rightIs
    have nonempty := sorted.nonempty bucket (List.mem_append_right _ List.mem_cons_self)
    rcases linkHkv_join shape stored keyed bound logged counter loose form nonempty c with
      ⟨after', links, joined, stored', shape'⟩
    have same : after' = after := by
      rw [equal] at joined
      exact Option.some.inj (joined.symm.trans done)
    subst same
    refine ⟨links, _, free, stored', shape', ?_, sorted.join equal⟩
    intro other
    rw [exists_key_iff, exists_key_iff, List.mem_cons, or_assoc, or_comm (a := other = pos)]

/-- Counting ends with linking the key, once it has left its old bucket. -/
theorem relink_counters (inv : Counters cdb log chains free tally)
    (stored : Stored cdb.kvdata cdb.kvdataUsed log) (bound : cdb.kvdataUsed < 2 ^ 32) {entry : Entry}
    (logged : log.entries pos = some entry) (counter : entry.content = .counter l)
    (small : tally pos + 1 < 2 ^ 48) {unlinked : Instance} {links : Nat → Links} {free' : List Nat}
    (used : unlinked.kvdataUsed = cdb.kvdataUsed)
    (stored' : Stored unlinked.kvdata cdb.kvdataUsed { log with links := links })
    (shape' : Shape unlinked links (Function.update chains l (left ++ right)) free')
    (loose : ∀ l', ∀ other ∈ Function.update chains l (left ++ right) l', pos ∉ other.keys)
    (keys : ∀ other, (∃ found ∈ chains l, other ∈ found.keys) ↔
      (∃ found ∈ left ++ right, other ∈ found.keys) ∨ other = pos)
    (sorted : Sorted (left ++ right) tally) (below : ∀ first ∈ left, first.count < tally pos + 1)
    (above : ∀ second ∈ right, tally pos + 1 ≤ second.count)
    (before : (∀ bucket, right.head? = some bucket → bucket.count ≠ tally pos + 1) →
      (nodesOf left).getLast? = some c)
    {after : Instance}
    (done : linkHkv unlinked l pos (hkvUnpack cdb.kvdata pos).val c ((nodesOf right).head?.getD 0)
      (tally pos + 1) = some after) :
    ∃ links chains' free', Stored after.kvdata cdb.kvdataUsed { log with links := links } ∧
      Counters after { log with links := links } chains' free' (Function.update tally pos (tally pos + 1)) := by
  have tallyIs : Function.update tally pos (tally pos + 1) pos = tally pos + 1 := Function.update_self _ _ _
  have looseHere := loose l
  rw [Function.update_self] at looseHere
  have sorted' := @Sorted.retally _ tally (Function.update tally pos (tally pos + 1)) sorted (by
    intro bucket inList other otherKey
    rw [Function.update_of_ne]
    exact fun same => looseHere bucket inList (same ▸ otherKey))
  have keyed' : Keyed log.entries (Function.update chains l (left ++ right)) := by
    apply inv.keyed.update
    intro other found
    exact (keys other).mpr (Or.inl found)
  have place := unpack_val_eq stored stored' logged logged
  rw [← used] at stored' bound
  rw [← place, ← tallyIs] at done
  rw [← tallyIs] at below above before small
  rcases @linkHkv_counters unlinked { log with links := links } _ free' _ l c pos left right shape' stored'
    keyed' bound entry logged counter loose (Function.update_self _ _ _) sorted' below above
    (by rw [tallyIs]; exact Nat.le_add_left 1 _) small before after done with
    ⟨links', buckets, rest, stored'', shape'', keys', sorted''⟩
  rw [used] at stored''
  rw [Function.update_idem] at shape''
  refine ⟨links', _, rest, stored'', inv.counted logged counter shape'' ?_ sorted''⟩
  intro other
  rw [keys', keys]

/-- Moving a key that is not alone or whose next count is in use. -/
theorem move_counters (inv : Counters cdb log chains free tally)
    (stored : Stored cdb.kvdata cdb.kvdataUsed log) (bound : cdb.kvdataUsed < 2 ^ 32) {entry : Entry}
    (logged : log.entries pos = some entry) (counter : entry.content = .counter l)
    (small : tally pos + 1 < 2 ^ 48)
    (form : chains l = left ++ ⟨c, tally pos, front ++ pos :: back⟩ :: right)
    (moves : ¬ (front = [] ∧ back = [] ∧ ∀ bucket, right.head? = some bucket → tally pos + 1 < bucket.count))
    {unlinked after : Instance}
    (freed : unlinkCount (unlinkHkv cdb pos c (back.head?.getD 0) (front.getLast?.getD 0)) l c
      ((nodesOf right).head?.getD 0) ((nodesOf left).getLast?.getD 0) = some unlinked)
    (done : linkHkv unlinked l pos (hkvUnpack cdb.kvdata pos).val c ((nodesOf right).head?.getD 0)
      (tally pos + 1) = some after) :
    ∃ links chains' free', Stored after.kvdata cdb.kvdataUsed { log with links := links } ∧
      Counters after { log with links := links } chains' free' (Function.update tally pos (tally pos + 1)) := by
  have inKeys : pos ∈ front ++ pos :: back := List.mem_append_right _ List.mem_cons_self
  rcases inv.shape.only form inKeys with ⟨elsewhere, otherLists⟩
  have sorted := inv.sorted l
  rw [form] at sorted
  rcases sorted.between with ⟨below, above⟩
  have sameKeys : ∀ other, other ∈ front ++ pos :: back ↔ other ∈ front ++ back ∨ other = pos := by
    intro other
    simp only [List.mem_append, List.mem_cons]
    tauto
  rcases unlinkHkv_shape inv.shape stored inv.keyed bound form with ⟨links, stored1, shape1⟩
  have same1 := SameStore.unlinkHkv cdb pos c (back.head?.getD 0) (front.getLast?.getD 0)
  have used := (same1.trans (SameStore.unlinkCount freed)).kvdataUsed
  by_cases empty : front ++ back = []
  · have gone := List.append_eq_nil_iff.mp empty
    have more : ∃ bucket, right.head? = some bucket ∧ ¬ tally pos + 1 < bucket.count := by
      by_contra nothing
      push Not at nothing
      exact moves ⟨gone.1, gone.2, nothing⟩
    rcases more with ⟨bucket, head, notHigher⟩
    have form1 : Function.update chains l (left ++ ⟨c, tally pos, front ++ back⟩ :: right) l =
        left ++ ⟨c, tally pos, []⟩ :: right := by rw [Function.update_self, empty]
    rcases @unlinkCount_shape _ { log with links := links } _ _ shape1 l c (tally pos) left right form1
      (by rintro rfl; cases head) with ⟨unlinked', freed', data, shape2⟩
    have same : unlinked' = unlinked := Option.some.inj (freed'.symm.trans freed)
    subst same
    rw [Function.update_idem] at shape2
    rw [← data] at stored1
    refine relink_counters inv stored bound logged counter small used stored1 shape2 ?_ ?_ sorted.drop ?_ above
      ?_ done
    · intro l' other inChain
      by_cases here : l' = l
      · subst here
        rw [Function.update_self] at inChain
        exact elsewhere other inChain
      · rw [Function.update_of_ne here] at inChain
        exact otherLists l' here other inChain
    · intro other
      rw [form, exists_key_iff, gone.1, gone.2]
      simp
    · intro first inLeft
      exact Nat.lt_succ_of_lt (below first inLeft)
    · intro absent
      have least : tally pos + 1 ≤ bucket.count := above bucket (List.mem_of_mem_head? head)
      have differ := absent bucket head
      omega
  · have unlinkedIs : unlinkHkv cdb pos c (back.head?.getD 0) (front.getLast?.getD 0) = unlinked := by
      have member : (⟨c, tally pos, front ++ back⟩ : Bucket) ∈
          Function.update chains l (left ++ ⟨c, tally pos, front ++ back⟩ :: right) l := by
        rw [Function.update_self]
        exact List.mem_append_right _ List.mem_cons_self
      have ok := (shape1.chained l).buckets _ member
      have busy : ¬ ((unlinkHkv cdb pos c (back.head?.getD 0) (front.getLast?.getD 0)).counts c).hkv1 = 0 := by
        rw [ok.first]
        rcases List.exists_cons_of_ne_nil empty with ⟨first, rest, keys⟩
        intro zero
        apply ok.positive
        rw [keys] at zero ⊢
        exact zero ▸ List.mem_cons_self
      rw [unlinkCount, if_neg busy] at freed
      exact Option.some.inj freed
    subst unlinkedIs
    have split : left ++ ⟨c, tally pos, front ++ back⟩ :: right =
        (left ++ [⟨c, tally pos, front ++ back⟩]) ++ right := List.append_cons _ _ _
    have loose := @Shape.loose cdb log chains free tally l c pos left right front back inv.shape form
      ⟨c, tally pos, front ++ back⟩ rfl
    have stays : Sorted (left ++ ⟨c, tally pos, front ++ back⟩ :: right) tally := by
      refine sorted.drop.place below above empty ?_ ?_
      · intro other inRest
        exact sorted.tallied _ (List.mem_append_right _ List.mem_cons_self) other
          ((sameKeys other).mpr (Or.inl inRest))
      · exact sorted.positive ⟨c, tally pos, front ++ pos :: back⟩
          (List.mem_append_right _ List.mem_cons_self)
    have keys : ∀ other, (∃ found ∈ chains l, other ∈ found.keys) ↔
        (∃ found ∈ left ++ ⟨c, tally pos, front ++ back⟩ :: right, other ∈ found.keys) ∨ other = pos := by
      intro other
      rw [form, exists_key_iff, exists_key_iff, sameKeys, or_assoc]
    rw [split] at shape1 loose stays keys
    refine relink_counters inv stored bound logged counter small used stored1 shape1 loose keys stays ?_ above
      ?_ done
    · intro first member
      rcases List.mem_append.mp member with inLeft | here
      · exact Nat.lt_succ_of_lt (below first inLeft)
      · rw [List.mem_singleton.mp here]
        exact Nat.lt_succ_self _
    · intro _
      simp

theorem incOld_counters (inv : Counters cdb log chains free tally)
    (stored : Stored cdb.kvdata cdb.kvdataUsed log) (bound : cdb.kvdataUsed < 2 ^ 32) {entry : Entry}
    (logged : log.entries pos = some entry) (counter : entry.content = .counter l)
    (small : tally pos + 1 < 2 ^ 48) {count : Nat} {after : Instance}
    (done : incOld cdb l pos = some (count, after)) :
    count = tally pos + 1 ∧ ∃ links chains' free',
      Stored after.kvdata cdb.kvdataUsed { log with links := links } ∧
      Counters after { log with links := links } chains' free' (Function.update tally pos (tally pos + 1)) := by
  rcases inv.locate logged counter with ⟨left, right, c, front, back, form⟩
  rw [incOld_eq inv stored logged counter form small] at done
  split at done
  · rename_i alone
    rcases alone with ⟨rfl, rfl, higher⟩
    cases done
    exact ⟨rfl, log.links, _, free, stored, recount_counters inv logged counter form small higher⟩
  · rename_i moves
    rcases Option.bind_eq_some_iff.mp done with ⟨unlinked, freed, rest⟩
    rcases Option.map_eq_some_iff.mp rest with ⟨linked, joined, same⟩
    cases same
    exact ⟨rfl, move_counters inv stored bound logged counter small form moves freed joined⟩

/-! ## Counting a new key -/

theorem Shape.congr (shape : Shape cdb log.links chains free) {after : Instance} (same : SameCounts cdb after)
    {links : Nat → Links}
    (keys : ∀ l, ∀ bucket ∈ chains l, ∀ pos ∈ bucket.keys, links pos = log.links pos) :
    Shape after links chains free := by
  refine ⟨?_, shape.disjoint, ?_⟩
  · intro l
    rw [same.counts, same.countsLo, same.countsHi]
    exact (shape.chained l).congr (fun _ _ => rfl) (keys l)
  · apply shape.pool.congr (fun _ => Iff.rfl)
    · intro c _
      rw [same.counts]
    · exact same.countsNextFree
    · exact same.countsFree
    · exact same.countsPages
    · exact same.countsSize

theorem Counters.enter_shape (inv : Counters cdb log chains free tally) {after : Instance}
    (same : SameCounts cdb after) (fresh : log.entries pos = none) (entry : Entry) (links : Links) :
    Shape after (log.enter pos entry links).links chains free := by
  apply inv.shape.congr same
  intro l bucket member other inKeys
  rcases inv.keyed l bucket member other inKeys with ⟨second, logged, _⟩
  have differ : other ≠ pos := by
    intro equal
    rw [equal, fresh] at logged
    cases logged
  exact Function.update_of_ne differ _ _

theorem Counters.enter_plain (inv : Counters cdb log chains free tally) {after : Instance}
    (same : SameCounts cdb after) (fresh : log.entries pos = none) (key val : List UInt8) (links : Links) :
    Counters after (log.enter pos ⟨key, .plain val⟩ links) chains free tally := by
  refine ⟨inv.enter_shape same fresh _ links, ?_, inv.sorted⟩
  intro l other
  rw [inv.counters]
  by_cases here : other = pos
  · subst here
    simp [Log.enter, fresh]
  · simp [Log.enter, here]

/-- A key counted for the first time goes into the bucket of one. -/
theorem incNew_counters (shape : Shape cdb log.links chains free)
    (stored : Stored cdb.kvdata cdb.kvdataUsed log) (bound : cdb.kvdataUsed < 2 ^ 32) {entry : Entry}
    (logged : log.entries pos = some entry) (counter : entry.content = .counter l)
    (counters : ∀ l' other, (∃ bucket ∈ chains l', other ∈ bucket.keys) ↔
      other ≠ pos ∧ ∃ entry, log.entries other = some entry ∧ entry.content = .counter l')
    (sorted : ∀ l, Sorted (chains l) tally) {count : Nat} {after : Instance}
    (done : incNew cdb l pos = some (count, after)) :
    count = 1 ∧ ∃ links chains' free', Stored after.kvdata cdb.kvdataUsed { log with links := links } ∧
      Counters after { log with links := links } chains' free' (Function.update tally pos 1) := by
  have loose : ∀ l', ∀ other ∈ chains l', pos ∉ other.keys := by
    intro l' other member inKeys
    exact ((counters l' pos).mp ⟨other, member, inKeys⟩).1 rfl
  have keyed : Keyed log.entries chains := by
    intro l' other member inner inKeys
    exact ((counters l' inner).mp ⟨other, member, inKeys⟩).2
  have retallied : ∀ l', Sorted (chains l') (Function.update tally pos 1) := by
    intro l'
    apply (sorted l').retally
    intro bucket member other inKeys
    have differ : other ≠ pos := fun same => loose l' bucket member (same ▸ inKeys)
    exact Function.update_of_ne differ _ _
  have finish : ∀ {links : Nat → Links} {buckets : List Bucket} {free' : List Nat},
      Shape after links (Function.update chains l buckets) free' →
      (∀ other, (∃ found ∈ buckets, other ∈ found.keys) ↔ (∃ found ∈ chains l, other ∈ found.keys) ∨ other = pos) →
      Sorted buckets (Function.update tally pos 1) →
      Counters after { log with links := links } (Function.update chains l buckets) free'
        (Function.update tally pos 1) := by
    intro links buckets free' shape' keys sorted'
    refine ⟨shape', ?_, ?_⟩
    · intro l' other
      by_cases here : l' = l
      · subst here
        rw [Function.update_self, keys, counters]
        constructor
        · rintro (⟨_, found⟩ | now)
          · exact found
          · exact ⟨entry, now ▸ logged, counter⟩
        · intro found
          by_cases now : other = pos
          · exact Or.inr now
          · exact Or.inl ⟨now, found⟩
      · rw [Function.update_of_ne here, counters]
        constructor
        · exact And.right
        · rintro ⟨second, again, content⟩
          refine ⟨?_, second, again, content⟩
          intro now
          rw [now, logged] at again
          cases again
          rw [counter] at content
          cases content
          exact here rfl
    · intro l'
      by_cases here : l' = l
      · subst here
        rw [Function.update_self]
        exact sorted'
      · rw [Function.update_of_ne here]
        exact retallied l'
  by_cases higher : ∀ bucket, (chains l).head? = some bucket → 1 < bucket.count
  · rcases incNew_insert shape stored logged counter loose higher done with
      ⟨one, c, links, rest, stored', shape'⟩
    refine ⟨one, links, _, rest, stored', finish shape' ?_ ?_⟩
    · intro other
      have split := @exists_key_iff [] (chains l) ⟨c, 1, [pos]⟩ other
      simpa using split
    · have all : Sorted ([] ++ chains l) (Function.update tally pos 1) := retallied l
      refine @Sorted.place [] (chains l) ⟨c, 1, [pos]⟩ _ all ?_ (all.above higher) (List.cons_ne_nil _ _) ?_
        (Nat.le_refl 1)
      · intro first member
        cases member
      · intro other inKeys
        rw [List.mem_singleton.mp inKeys, Function.update_self]
  · push Not at higher
    rcases higher with ⟨bucket, head, notAbove⟩
    have once : bucket.count ≤ 1 := by omega
    rcases List.head?_eq_some_iff.mp head with ⟨right, form⟩
    have member : bucket ∈ chains l := by
      rw [form]
      exact List.mem_cons_self
    rcases incNew_join shape stored keyed bound logged counter loose form ((sorted l).nonempty bucket member)
      once with ⟨after', links, joined, stored', shape'⟩
    have same := Option.some.inj (joined.symm.trans done)
    have oneIs : 1 = count := congrArg Prod.fst same
    have afterIs : after' = after := congrArg Prod.snd same
    subst afterIs
    refine ⟨oneIs.symm, links, _, free, stored', finish shape' ?_ ?_⟩
    · intro other
      have first := @exists_key_iff [] right ⟨bucket.node, bucket.count, pos :: bucket.keys⟩ other
      have second := @exists_key_iff [] right bucket other
      rw [List.nil_append, List.nil_append] at first second
      rw [form, first, second, List.mem_cons, or_assoc, or_comm (a := other = pos)]
    · have all := retallied l
      have least := all.positive bucket member
      rw [form] at all
      apply @Sorted.join [] right bucket _ all pos
      rw [Function.update_self]
      exact Nat.le_antisymm once least

end

end

end SxeCdb
end LibKit
