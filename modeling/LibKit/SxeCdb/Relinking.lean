import LibKit.SxeCdb.Chains
import LibKit.SxeCdb.Pool
import LibKit.SxeCdb.Sheets

namespace LibKit
namespace SxeCdb

/-!
# Relinking counters

`Shape` says that all counts lists of an instance represent buckets over
disjoint nodes, beside the pool of free nodes.  A key that is being moved may
be on no chain, and the bucket it left may be empty.  The lemmas follow the
parts of `sxe_cdb_instance_inc`: taking a key out, taking an empty count out,
and linking the key into its new count.
-/

/-- All counts lists of an instance, and its pool. -/
structure Shape (cdb : Instance) (links : Nat → Links) (chains : Nat → List Bucket) (free : List Nat) : Prop where
  chained : ∀ l, Chained cdb.counts links (cdb.countsLo l) (cdb.countsHi l) (chains l)
  disjoint : ∀ {l l' c}, c ∈ nodesOf (chains l) → c ∈ nodesOf (chains l') → l = l'
  pool : Pool cdb (fun c => ∃ l, c ∈ nodesOf (chains l)) free

/-- The keys on chains are logged as counters of their list. -/
def Keyed (entries : Nat → Option Entry) (chains : Nat → List Bucket) : Prop :=
  ∀ l, ∀ bucket ∈ chains l, ∀ pos ∈ bucket.keys,
    ∃ entry, entries pos = some entry ∧ entry.content = .counter l

theorem Pool.congr {cdb after : Instance} {used used' : Nat → Prop} {free : List Nat} (pool : Pool cdb used free)
    (same : ∀ c, used' c ↔ used c) (nexts : ∀ c ∈ free, (after.counts c).next = (cdb.counts c).next)
    (nextFree : after.countsNextFree = cdb.countsNextFree) (count : after.countsFree = cdb.countsFree)
    (pages : after.countsPages = cdb.countsPages) (size : after.countsSize = cdb.countsSize) :
    Pool after used' free := by
  refine ⟨?_, count ▸ pool.length, pool.nodup, ?_, ?_, pages ▸ pool.pages, ?_⟩
  · rw [nextFree]
    exact pool.threaded.congr nexts
  · intro c member inUse
    exact pool.apart c member ((same c).mp inUse)
  · rintro c (member | inUse)
    · rw [size]
      exact pool.range c (Or.inl member)
    · rw [size]
      exact pool.range c (Or.inr ((same c).mp inUse))
  · rw [size, pages]
    exact pool.size

section

variable {cdb : Instance} {log : Log} {chains : Nat → List Bucket} {free : List Nat}

theorem mem_nodesOf_update {l : Nat} {buckets : List Bucket} {c : Nat} :
    (∃ l', c ∈ nodesOf (Function.update chains l buckets l')) ↔
      c ∈ nodesOf buckets ∨ ∃ l', l' ≠ l ∧ c ∈ nodesOf (chains l') := by
  constructor
  · rintro ⟨l', member⟩
    by_cases same : l' = l
    · subst same
      rw [Function.update_self] at member
      exact Or.inl member
    · rw [Function.update_of_ne same] at member
      exact Or.inr ⟨l', same, member⟩
  · rintro (member | ⟨l', other, member⟩)
    · exact ⟨l, by rwa [Function.update_self]⟩
    · exact ⟨l', by rwa [Function.update_of_ne other]⟩

/-- A change to one counts list: the others keep their nodes and links. -/
theorem Shape.update (shape : Shape cdb log.links chains free) {after : Instance} {links : Nat → Links}
    {free' : List Nat} {l : Nat} {buckets : List Bucket}
    (chained : Chained after.counts links (after.countsLo l) (after.countsHi l) buckets)
    (otherNodes : ∀ l', l' ≠ l → ∀ c ∈ nodesOf (chains l'), after.counts c = cdb.counts c)
    (otherKeys : ∀ l', l' ≠ l → ∀ bucket ∈ chains l', ∀ pos ∈ bucket.keys, links pos = log.links pos)
    (low : ∀ l', l' ≠ l → after.countsLo l' = cdb.countsLo l')
    (high : ∀ l', l' ≠ l → after.countsHi l' = cdb.countsHi l')
    (nodes : ∀ c ∈ nodesOf buckets, ∀ l', l' ≠ l → c ∉ nodesOf (chains l'))
    (pool : Pool after (fun c => ∃ l', c ∈ nodesOf (Function.update chains l buckets l')) free') :
    Shape after links (Function.update chains l buckets) free' := by
  refine ⟨?_, ?_, pool⟩
  · intro l'
    by_cases same : l' = l
    · subst same
      rw [Function.update_self]
      exact chained
    · rw [Function.update_of_ne same, low l' same, high l' same]
      exact (shape.chained l').congr (otherNodes l' same) (otherKeys l' same)
  · intro first second c inFirst inSecond
    by_cases firstIs : first = l
    · subst firstIs
      rw [Function.update_self] at inFirst
      by_contra differ
      rw [Function.update_of_ne (Ne.symm differ)] at inSecond
      exact nodes c inFirst second (Ne.symm differ) inSecond
    · rw [Function.update_of_ne firstIs] at inFirst
      by_cases secondIs : second = l
      · subst secondIs
        rw [Function.update_self] at inSecond
        exact absurd inFirst (nodes c inSecond first firstIs)
      · rw [Function.update_of_ne secondIs] at inSecond
        exact shape.disjoint inFirst inSecond

theorem Shape.same_node (shape : Shape cdb log.links chains free) {l l' : Nat} {first second : Bucket}
    (inFirst : first ∈ chains l) (inSecond : second ∈ chains l') {pos : Nat} (firstKey : pos ∈ first.keys)
    (secondKey : pos ∈ second.keys) : first.node = second.node :=
  (((shape.chained l).buckets first inFirst).use pos firstKey).symm.trans
    (((shape.chained l').buckets second inSecond).use pos secondKey)

theorem Shape.same_bucket (shape : Shape cdb log.links chains free) {l l' : Nat} {first second : Bucket}
    (inFirst : first ∈ chains l) (inSecond : second ∈ chains l') {pos : Nat} (firstKey : pos ∈ first.keys)
    (secondKey : pos ∈ second.keys) : l = l' ∧ first = second := by
  have node := shape.same_node inFirst inSecond firstKey secondKey
  have list : l = l' := shape.disjoint (mem_nodesOf inFirst) (node ▸ mem_nodesOf inSecond)
  subst list
  exact ⟨rfl, (shape.chained l).bucket_eq inFirst inSecond node⟩

/-- Two instances that differ in `kvdata` and the contents of nodes at most. -/
structure SameLists (before after : Instance) : Prop where
  countsPages : after.countsPages = before.countsPages
  countsSize : after.countsSize = before.countsSize
  countsNextFree : after.countsNextFree = before.countsNextFree
  countsFree : after.countsFree = before.countsFree
  countsHi : after.countsHi = before.countsHi
  countsLo : after.countsLo = before.countsLo

theorem Shape.bucket_node (shape : Shape cdb log.links chains free) {l : Nat} {left right : List Bucket}
    {bucket : Bucket} (form : chains l = left ++ bucket :: right) :
    bucket ∈ chains l ∧ bucket.node ∉ nodesOf (left ++ right) := by
  have nodup := (shape.chained l).nodup
  rw [form, nodesOf_append, nodesOf_cons] at nodup
  refine ⟨?_, ?_⟩
  · rw [form]
    exact List.mem_append_right _ List.mem_cons_self
  · rw [nodesOf_append]
    exact (List.nodup_cons.mp (List.nodup_middle.mp nodup)).1

/-- One bucket changes in its count and keys, and all other buckets keep
their nodes and links. -/
theorem Shape.change (shape : Shape cdb log.links chains free) {after : Instance} (lists : SameLists cdb after)
    {links : Nat → Links} {l : Nat} {left right : List Bucket} {bucket changed : Bucket}
    (form : chains l = left ++ bucket :: right) (sameNode : changed.node = bucket.node)
    (otherNodes : ∀ c, c ≠ bucket.node → after.counts c = cdb.counts c)
    (here : (after.counts bucket.node).next = (cdb.counts bucket.node).next ∧
      (after.counts bucket.node).last = (cdb.counts bucket.node).last)
    (otherKeys : ∀ l', ∀ other ∈ chains l', other.node ≠ bucket.node → ∀ pos ∈ other.keys,
      links pos = log.links pos)
    (ok : BucketOk after.counts links changed) :
    Shape after links (Function.update chains l (left ++ changed :: right)) free := by
  rcases shape.bucket_node form with ⟨member, alone⟩
  have nodes : nodesOf (left ++ changed :: right) = nodesOf (chains l) := by
    rw [form, nodesOf_append, nodesOf_append, nodesOf_cons, nodesOf_cons, sameNode]
  apply shape.update
  · have chained := shape.chained l
    rw [form] at chained
    rw [lists.countsLo, lists.countsHi]
    apply chained.change sameNode
    · intro other inside
      exact otherNodes other (fun same => alone (same ▸ inside))
    · exact here
    · intro other inside pos inKeys
      have old : other ∈ chains l := by
        rw [form]
        rcases List.mem_append.mp inside with inLeft | inRight
        · exact List.mem_append_left _ inLeft
        · exact List.mem_append_right _ (List.mem_cons_of_mem _ inRight)
      exact otherKeys l other old (fun same => alone (same ▸ mem_nodesOf inside)) pos inKeys
    · exact ok
  · intro l' differ c inside
    apply otherNodes
    intro same
    exact differ (shape.disjoint inside (same ▸ mem_nodesOf member))
  · intro l' differ other inside pos inKeys
    apply otherKeys l' other inside _ pos inKeys
    intro same
    exact differ (shape.disjoint (mem_nodesOf inside) (same ▸ mem_nodesOf member))
  · intro l' _
    rw [lists.countsLo]
  · intro l' _
    rw [lists.countsHi]
  · intro c inside l' differ elsewhere
    rw [nodes] at inside
    exact differ (shape.disjoint elsewhere inside)
  · apply shape.pool.congr
    · intro c
      rw [mem_nodesOf_update, nodes]
      constructor
      · rintro (inside | ⟨l', _, inside⟩)
        · exact ⟨l, inside⟩
        · exact ⟨l', inside⟩
      · rintro ⟨l', inside⟩
        by_cases same : l' = l
        · exact Or.inl (same ▸ inside)
        · exact Or.inr ⟨l', same, inside⟩
    · intro c inFree
      have apart : c ≠ bucket.node := by
        intro same
        exact shape.pool.apart c inFree ⟨l, same ▸ mem_nodesOf member⟩
      rw [otherNodes c apart]
    · exact lists.countsNextFree
    · exact lists.countsFree
    · exact lists.countsPages
    · exact lists.countsSize

/-! ## Optional assignments to links -/

theorem Stored.pos_lt {kvdata : Nat → UInt8} {used pos : Nat} {entry : Entry} (stored : Stored kvdata used log)
    (bound : used < 2 ^ 32) (logged : log.entries pos = some entry) : pos < 2 ^ 32 := by
  rcases stored.admitted logged with ⟨header, found⟩
  have within := stored.within logged
  have positive := Stored.length_pos found
  omega

theorem setLast_maybe (stored : Stored cdb.kvdata cdb.kvdataUsed log) {target value : Nat}
    (counter : target ≠ 0 → ∃ entry l, log.entries target = some entry ∧ entry.content = .counter l)
    (small : value < 2 ^ 32) :
    ∃ kvdata links,
      (if target ≠ 0 then setLastHkvPos cdb (hkvUnpack cdb.kvdata target).val value else cdb) =
        { cdb with kvdata := kvdata } ∧
      Stored kvdata cdb.kvdataUsed { log with links := links } ∧
      ∀ pos, links pos = ⟨(log.links pos).countToUse, (log.links pos).nextHkvPos,
        if target ≠ 0 ∧ pos = target then value else (log.links pos).lastHkvPos⟩ := by
  by_cases some : target ≠ 0
  · rcases counter some with ⟨entry, l, logged, content⟩
    refine ⟨_, _, by rw [if_pos some]; rfl, setLastHkvPos_stored stored logged content small, ?_⟩
    intro pos
    by_cases here : pos = target
    · subst here
      simp [some]
    · simp [here]
  · refine ⟨cdb.kvdata, log.links, by rw [if_neg some], stored, ?_⟩
    intro pos
    rw [if_neg (fun both => some both.1)]

theorem setNext_maybe (stored : Stored cdb.kvdata cdb.kvdataUsed log) {target value : Nat}
    (counter : target ≠ 0 → ∃ entry l, log.entries target = some entry ∧ entry.content = .counter l)
    (small : value < 2 ^ 32) :
    ∃ kvdata links,
      (if target ≠ 0 then setNextHkvPos cdb (hkvUnpack cdb.kvdata target).val value else cdb) =
        { cdb with kvdata := kvdata } ∧
      Stored kvdata cdb.kvdataUsed { log with links := links } ∧
      ∀ pos, links pos = ⟨(log.links pos).countToUse,
        if target ≠ 0 ∧ pos = target then value else (log.links pos).nextHkvPos, (log.links pos).lastHkvPos⟩ := by
  by_cases some : target ≠ 0
  · rcases counter some with ⟨entry, l, logged, content⟩
    refine ⟨_, _, by rw [if_pos some]; rfl, setNextHkvPos_stored stored logged content small, ?_⟩
    intro pos
    by_cases here : pos = target
    · subst here
      simp [some]
    · simp [here]
  · refine ⟨cdb.kvdata, log.links, by rw [if_neg some], stored, ?_⟩
    intro pos
    rw [if_neg (fun both => some both.1)]

theorem head_iff {list : List Nat} (positive : 0 ∉ list) (pos : Nat) :
    (list.head?.getD 0 ≠ 0 ∧ pos = list.head?.getD 0) ↔ list.head? = some pos := by
  cases list with
  | nil => simp
  | cons head list =>
      have nonzero : head ≠ 0 := fun zero => positive (zero ▸ List.mem_cons_self)
      simp [nonzero, eq_comm]

theorem getLast_iff {list : List Nat} (positive : 0 ∉ list) (pos : Nat) :
    (list.getLast?.getD 0 ≠ 0 ∧ pos = list.getLast?.getD 0) ↔ list.getLast? = some pos := by
  cases last : list.getLast? with
  | none => simp
  | some found =>
      have nonzero : found ≠ 0 := fun zero => positive (zero ▸ List.mem_of_getLast? last)
      simp [nonzero, eq_comm]

/-! ## Taking a key out of its chain -/

theorem unlinkHkv_shape (shape : Shape cdb log.links chains free)
    (stored : Stored cdb.kvdata cdb.kvdataUsed log) (keyed : Keyed log.entries chains)
    (bound : cdb.kvdataUsed < 2 ^ 32) {l c count pos : Nat} {left right : List Bucket} {front back : List Nat}
    (form : chains l = left ++ ⟨c, count, front ++ pos :: back⟩ :: right) :
    ∃ links, Stored (unlinkHkv cdb pos c (back.head?.getD 0) (front.getLast?.getD 0)).kvdata cdb.kvdataUsed
        { log with links := links } ∧
      Shape (unlinkHkv cdb pos c (back.head?.getD 0) (front.getLast?.getD 0)) links
        (Function.update chains l (left ++ ⟨c, count, front ++ back⟩ :: right)) free := by
  have here : (⟨c, count, front ++ pos :: back⟩ : Bucket) ∈ chains l := by
    rw [form]
    exact List.mem_append_right _ List.mem_cons_self
  have ok := (shape.chained l).buckets _ here
  have zeroFront : 0 ∉ front := fun zero => ok.positive (List.mem_append_left _ zero)
  have zeroBack : 0 ∉ back := fun zero =>
    ok.positive (List.mem_append_right _ (List.mem_cons_of_mem _ zero))
  have isKey : ∀ {other}, other ∈ front ++ pos :: back →
      ∃ entry l, log.entries other = some entry ∧ entry.content = .counter l := by
    intro other member
    rcases keyed l _ here other member with ⟨entry, logged, content⟩
    exact ⟨entry, l, logged, content⟩
  have nextKey : back.head?.getD 0 ≠ 0 → back.head?.getD 0 ∈ front ++ pos :: back := by
    intro nonzero
    have found := (head_iff zeroBack _).mp ⟨nonzero, rfl⟩
    exact List.mem_append_right _ (List.mem_cons_of_mem _ (List.mem_of_mem_head? found))
  have lastKey : front.getLast?.getD 0 ≠ 0 → front.getLast?.getD 0 ∈ front ++ pos :: back := by
    intro nonzero
    have found := (getLast_iff zeroFront _).mp ⟨nonzero, rfl⟩
    exact List.mem_append_left _ (List.mem_of_getLast? found)
  have smallKey : ∀ value, (value ≠ 0 → value ∈ front ++ pos :: back) → value < 2 ^ 32 := by
    intro value member
    by_cases zero : value = 0
    · rw [zero]
      exact Nat.two_pow_pos 32
    · rcases isKey (member zero) with ⟨entry, _, logged, _⟩
      exact stored.pos_lt bound logged
  rcases setLast_maybe stored (fun nonzero => isKey (nextKey nonzero)) (smallKey _ lastKey) with
    ⟨kvdata1, links1, form1, stored1, pointwise1⟩
  rcases @setNext_maybe { cdb with kvdata := kvdata1 } { log with links := links1 } stored1
    (front.getLast?.getD 0) (back.head?.getD 0) (fun nonzero => isKey (lastKey nonzero)) (smallKey _ nextKey) with
    ⟨kvdata2, links2, form2, stored2, pointwise2⟩
  have pointwise : ∀ other, links2 other =
      { log.links other with
        nextHkvPos := if front.getLast? = some other then back.head?.getD 0 else (log.links other).nextHkvPos
        lastHkvPos := if back.head? = some other then front.getLast?.getD 0 else (log.links other).lastHkvPos } := by
    intro other
    rw [pointwise2]
    simp only [pointwise1, head_iff zeroBack, getLast_iff zeroFront]
  have sameElsewhere : ∀ other, other ∉ front ++ pos :: back → links2 other = log.links other := by
    intro other outside
    rw [pointwise]
    have notLast : front.getLast? ≠ some other := fun found =>
      outside (List.mem_append_left _ (List.mem_of_getLast? found))
    have notNext : back.head? ≠ some other := fun found =>
      outside (List.mem_append_right _ (List.mem_cons_of_mem _ (List.mem_of_mem_head? found)))
    rw [if_neg notLast, if_neg notNext]
  have headKey : (cdb.counts c).hkv1 = pos ↔ front = [] := by
    have first := ok.first
    dsimp only at first
    rw [first]
    cases front with
    | nil => simp
    | cons head front =>
        have nodup := ok.nodup
        simp only [List.cons_append, List.head?_cons, Option.getD_some, reduceCtorEq, iff_false]
        intro same
        exact (List.nodup_cons.mp nodup).1 (same ▸ List.mem_append_right _ List.mem_cons_self)
  have result : unlinkHkv cdb pos c (back.head?.getD 0) (front.getLast?.getD 0) =
      { cdb with
        kvdata := kvdata2
        counts := Function.update cdb.counts c
          { cdb.counts c with hkv1 := if front = [] then back.head?.getD 0 else (cdb.counts c).hkv1 } } := by
    unfold unlinkHkv
    dsimp only at form2 ⊢
    rw [form1]
    dsimp only
    rw [form2]
    dsimp only
    by_cases empty : front = []
    · rw [if_pos (headKey.mpr empty), if_pos empty]
      rfl
    · rw [if_neg (fun same => empty (headKey.mp same)), if_neg empty, Function.update_eq_self]
  rw [result]
  refine ⟨links2, stored2, ?_⟩
  refine shape.change ?_ form ?_ ?_ ?_ ?_ ?_
  · exact ⟨rfl, rfl, rfl, rfl, rfl, rfl⟩
  · rfl
  · intro other apart
    exact Function.update_of_ne apart _ _
  · simp only [Function.update_self, and_self]
  · intro l' bucket member differ other inKeys
    apply sameElsewhere
    intro inside
    exact differ (shape.same_node member here inKeys inside)
  · apply ok.unlink
    · simp only [Function.update_self]
    · intro other _
      exact pointwise other

/-- A key on no chain is put in front of the chain of a count. -/
theorem Shape.push (shape : Shape cdb log.links chains free) {after : Instance} (lists : SameLists cdb after)
    {links : Nat → Links} {l pos : Nat} {left right : List Bucket} {bucket : Bucket}
    (form : chains l = left ++ bucket :: right) (loose : ∀ l', ∀ other ∈ chains l', pos ∉ other.keys)
    (positive : pos ≠ 0)
    (counts : after.counts = Function.update cdb.counts bucket.node { cdb.counts bucket.node with hkv1 := pos })
    (key : links pos = ⟨bucket.node, (cdb.counts bucket.node).hkv1, 0⟩)
    (keys : ∀ other, other ≠ pos → links other =
      { log.links other with
        lastHkvPos := if bucket.keys.head? = some other then pos else (log.links other).lastHkvPos }) :
    Shape after links
      (Function.update chains l (left ++ ⟨bucket.node, bucket.count, pos :: bucket.keys⟩ :: right)) free := by
  have member := (shape.bucket_node form).1
  have ok := (shape.chained l).buckets bucket member
  apply shape.change lists form
  · rfl
  · intro other apart
    rw [counts]
    exact Function.update_of_ne apart _ _
  · rw [counts]
    simp only [Function.update_self, and_self]
  · intro l' other inside differ second inKeys
    have apart : second ≠ pos := fun same => loose l' other inside (same ▸ inKeys)
    rw [keys second apart, if_neg]
    intro first
    exact differ (shape.same_node inside member inKeys (List.mem_of_mem_head? first))
  · apply ok.push (loose l bucket member) positive
    · rw [counts]
      simp only [Function.update_self]
    · exact key
    · intro other inKeys
      exact keys other (fun same => loose l bucket member (same ▸ inKeys))

theorem Shape.recount (shape : Shape cdb log.links chains free) {after : Instance} (lists : SameLists cdb after)
    {l count : Nat} {left right : List Bucket} {bucket : Bucket} (form : chains l = left ++ bucket :: right)
    (counts : after.counts = Function.update cdb.counts bucket.node { cdb.counts bucket.node with count := count }) :
    Shape after log.links (Function.update chains l (left ++ ⟨bucket.node, count, bucket.keys⟩ :: right)) free := by
  have ok := (shape.chained l).buckets bucket (shape.bucket_node form).1
  apply shape.change lists form
  · rfl
  · intro other apart
    rw [counts]
    exact Function.update_of_ne apart _ _
  · rw [counts]
    simp only [Function.update_self, and_self]
  · intro l' other _ _ pos _
    rfl
  · refine ⟨?_, ?_, ok.linked, ok.nodup, ok.use, ok.positive⟩
    · rw [counts]
      simp only [Function.update_self]
    · rw [counts]
      simp only [Function.update_self]
      exact ok.first

/-! ## Taking an empty count out -/

theorem setLast_setNext (counts : Nat → Count) (nextC lastC nextValue lastValue c : Nat) :
    Function.update (Function.update counts nextC { counts nextC with last := lastValue }) lastC
        { Function.update counts nextC { counts nextC with last := lastValue } lastC with next := nextValue } c =
      ⟨(counts c).count, if c = lastC then nextValue else (counts c).next,
        if c = nextC then lastValue else (counts c).last, (counts c).hkv1⟩ := by
  by_cases isLast : c = lastC
  · subst isLast
    by_cases isNext : c = nextC
    · subst isNext
      simp
    · simp [isNext]
  · by_cases isNext : c = nextC
    · subst isNext
      simp [isLast]
    · simp [isLast, isNext]

theorem unlinkCount_shape (shape : Shape cdb log.links chains free) {l c count : Nat} {left right : List Bucket}
    (form : chains l = left ++ ⟨c, count, []⟩ :: right) (more : right ≠ []) :
    ∃ after, unlinkCount cdb l c ((nodesOf right).head?.getD 0) ((nodesOf left).getLast?.getD 0) = some after ∧
      after.kvdata = cdb.kvdata ∧
      Shape after log.links (Function.update chains l (left ++ right)) (c :: free) := by
  rcases shape.bucket_node form with ⟨member, alone⟩
  have inUse : ∃ l', c ∈ nodesOf (chains l') := ⟨l, mem_nodesOf member⟩
  have noKeys : (cdb.counts c).hkv1 = 0 := ((shape.chained l).buckets _ member).first
  have positive := (shape.chained l).positive
  rw [form, nodesOf_append, nodesOf_cons, List.mem_append, List.mem_cons] at positive
  have zeroLeft : 0 ∉ nodesOf left := fun zero => positive (Or.inl zero)
  have zeroRight : 0 ∉ nodesOf right := fun zero => positive (Or.inr (Or.inr zero))
  have nextNonzero : (nodesOf right).head?.getD 0 ≠ 0 := by
    cases right with
    | nil => exact absurd rfl more
    | cons head right => exact fun zero => zeroRight (zero ▸ List.mem_cons_self)
  have range := shape.pool.range c (Or.inr inUse)
  have pushes : ∃ pushed, freeCountPush cdb c c = some pushed := by
    rw [freeCountPush, if_neg (by omega)]
    exact ⟨_, rfl⟩
  rcases pushes with ⟨pushed, push⟩
  rcases freeCountPush_pool shape.pool inUse push with ⟨counts, pushedIs, pool, same⟩
  have lowIs : cdb.countsLo l = c ↔ left = [] := by
    rw [(shape.chained l).low, form, nodesOf_append, nodesOf_cons]
    cases left with
    | nil => simp
    | cons head left =>
        simp only [nodesOf_cons, List.cons_append, List.head?_cons, Option.getD_some, reduceCtorEq, iff_false]
        intro equal
        apply alone
        rw [List.cons_append, nodesOf_cons, ← equal]
        exact List.mem_cons_self
  have inOthers : ∀ {other}, other ∈ nodesOf (left ++ right) → other ∈ nodesOf (chains l) := by
    intro other inside
    rw [form, nodesOf_append, nodesOf_cons]
    rw [nodesOf_append] at inside
    rcases List.mem_append.mp inside with inLeft | inRight
    · exact List.mem_append_left _ inLeft
    · exact List.mem_append_right _ (List.mem_cons_of_mem _ inRight)
  -- The two ways in which the code ends leave the same nodes behind.
  have finish : ∀ after : Instance, after.kvdata = cdb.kvdata → after.countsNextFree = c →
      after.countsFree = cdb.countsFree + 1 → after.countsPages = cdb.countsPages →
      after.countsSize = cdb.countsSize → after.countsHi = cdb.countsHi →
      (∀ l', l' ≠ l → after.countsLo l' = cdb.countsLo l') →
      after.countsLo l = (if left = [] then (nodesOf right).head?.getD 0 else cdb.countsLo l) →
      (∀ other, after.counts other =
        ⟨(counts other).count,
          if (nodesOf left).getLast? = some other then (nodesOf right).head?.getD 0 else (counts other).next,
          if (nodesOf right).head? = some other then (nodesOf left).getLast?.getD 0 else (counts other).last,
          (counts other).hkv1⟩) →
      Shape after log.links (Function.update chains l (left ++ right)) (c :: free) := by
    intro after _ nextFree freeCount pages size high lowOthers low pointwise
    apply shape.update
    · have chained := shape.chained l
      rw [form] at chained
      rw [high]
      refine chained.remove more ?_ low
      intro other inside
      have apart : other ≠ c := fun equal => alone (equal ▸ inside)
      rw [pointwise other, same other apart]
    · intro l' differ other inside
      have apart : other ≠ c := by
        intro equal
        exact differ (shape.disjoint inside (equal ▸ mem_nodesOf member))
      have notLeft : (nodesOf left).getLast? ≠ some other := fun found =>
        differ (shape.disjoint inside (inOthers (by
          rw [nodesOf_append]
          exact List.mem_append_left _ (List.mem_of_getLast? found))))
      have notRight : (nodesOf right).head? ≠ some other := fun found =>
        differ (shape.disjoint inside (inOthers (by
          rw [nodesOf_append]
          exact List.mem_append_right _ (List.mem_of_mem_head? found))))
      rw [pointwise other, if_neg notLeft, if_neg notRight, same other apart]
    · intro l' _ bucket _ pos _
      rfl
    · exact lowOthers
    · intro l' _
      rw [high]
    · intro other inside l' differ elsewhere
      exact differ (shape.disjoint elsewhere (inOthers inside))
    · apply pool.congr
      · intro other
        rw [mem_nodesOf_update]
        constructor
        · rintro (inside | ⟨l', differ, inside⟩)
          · exact ⟨⟨l, inOthers inside⟩, fun equal => alone (equal ▸ inside)⟩
          · refine ⟨⟨l', inside⟩, ?_⟩
            intro equal
            exact differ (shape.disjoint inside (equal ▸ mem_nodesOf member))
        · rintro ⟨⟨l', inside⟩, apart⟩
          by_cases here : l' = l
          · subst here
            rw [form, nodesOf_append, nodesOf_cons] at inside
            refine Or.inl ?_
            rw [nodesOf_append]
            rcases List.mem_append.mp inside with inLeft | inRest
            · exact List.mem_append_left _ inLeft
            · rcases List.mem_cons.mp inRest with now | inRight
              · exact absurd now apart
              · exact List.mem_append_right _ inRight
          · exact Or.inr ⟨l', here, inside⟩
      · intro other inFree
        have notUsed : other ∉ nodesOf (left ++ right) := by
          intro inside
          refine pool.apart other inFree ⟨⟨l, inOthers inside⟩, ?_⟩
          intro equal
          exact alone (equal ▸ inside)
        rw [nodesOf_append, List.mem_append, not_or] at notUsed
        have notLeft : (nodesOf left).getLast? ≠ some other := fun found =>
          notUsed.1 (List.mem_of_getLast? found)
        rw [pointwise other, if_neg notLeft, pushedIs]
      · rw [nextFree, pushedIs]
      · rw [freeCount, pushedIs]
      · rw [pages, pushedIs]
      · rw [size, pushedIs]
  rw [pushedIs] at push
  by_cases first : left = []
  · refine ⟨{ cdb with
      counts := Function.update counts ((nodesOf right).head?.getD 0)
        { counts ((nodesOf right).head?.getD 0) with last := 0 }
      countsNextFree := c
      countsFree := cdb.countsFree + 1
      countsLo := Function.update cdb.countsLo l ((nodesOf right).head?.getD 0) }, ?_, rfl, ?_⟩
    · subst first
      simp only [unlinkCount, noKeys, if_true, push, Option.bind_some, if_neg nextNonzero, nodesOf_nil,
        List.getLast?_nil, Option.getD_none, ne_eq, not_true_eq_false, if_false, modifyCount, lowIs.mpr]
    · apply finish <;> try rfl
      · intro l' differ
        exact Function.update_of_ne differ _ _
      · simp only [Function.update_self, if_pos first]
      · intro other
        subst first
        simp only [nodesOf_nil, List.getLast?_nil, reduceCtorEq, if_false, Option.getD_none]
        by_cases here : other = (nodesOf right).head?.getD 0
        · rw [if_pos ((head_iff zeroRight other).mp ⟨nextNonzero, here⟩), ← here, Function.update_self]
        · have notHead : (nodesOf right).head? ≠ some other := fun found =>
            here ((head_iff zeroRight other).mpr found).2
          rw [Function.update_of_ne here, if_neg notHead]
  · have lastNonzero : (nodesOf left).getLast?.getD 0 ≠ 0 := by
      cases last : (nodesOf left).getLast? with
      | none =>
          have nothing := List.getLast?_eq_none_iff.mp last
          exact absurd (List.map_eq_nil_iff.mp nothing) first
      | some found => exact fun zero => zeroLeft (zero ▸ List.mem_of_getLast? last)
    refine ⟨{ cdb with
      counts := Function.update (Function.update counts ((nodesOf right).head?.getD 0)
          { counts ((nodesOf right).head?.getD 0) with last := (nodesOf left).getLast?.getD 0 })
        ((nodesOf left).getLast?.getD 0)
        { Function.update counts ((nodesOf right).head?.getD 0)
          { counts ((nodesOf right).head?.getD 0) with last := (nodesOf left).getLast?.getD 0 }
            ((nodesOf left).getLast?.getD 0) with next := (nodesOf right).head?.getD 0 }
      countsNextFree := c
      countsFree := cdb.countsFree + 1 }, ?_, rfl, ?_⟩
    · simp only [unlinkCount, noKeys, if_true, push, Option.bind_some, if_neg nextNonzero, ne_eq, lastNonzero,
        not_false_eq_true, modifyCount]
    · apply finish <;> try rfl
      · intro l' _
        rfl
      · simp only [if_neg first]
      · intro other
        dsimp only
        rw [setLast_setNext]
        have lastIff := getLast_iff zeroLeft other
        have nextIff := head_iff zeroRight other
        simp only [lastNonzero, ne_eq, not_false_eq_true, true_and] at lastIff
        simp only [nextNonzero, ne_eq, not_false_eq_true, true_and] at nextIff
        simp only [lastIff, nextIff]

/-! ## Linking a key into a new count -/

/-- A node from the pool becomes a bucket with one key. -/
theorem Shape.insert (shape : Shape cdb log.links chains free) {popped after : Instance} {c : Nat}
    (pop : freeCountPop cdb = some (c, popped)) {links : Nat → Links} {l count pos : Nat}
    {left right : List Bucket} (form : chains l = left ++ right)
    (loose : ∀ l', ∀ other ∈ chains l', pos ∉ other.keys) (positive : pos ≠ 0)
    (node : after.counts c = ⟨count, (nodesOf right).head?.getD 0, (nodesOf left).getLast?.getD 0, pos⟩)
    (others : ∀ other, other ≠ c → after.counts other =
      ⟨(popped.counts other).count,
        if (nodesOf left).getLast? = some other then c else (popped.counts other).next,
        if (nodesOf right).head? = some other then c else (popped.counts other).last,
        (popped.counts other).hkv1⟩)
    (key : links pos = ⟨c, 0, 0⟩) (otherKeys : ∀ other, other ≠ pos → links other = log.links other)
    (low : after.countsLo l = if left = [] then c else cdb.countsLo l)
    (lowOthers : ∀ l', l' ≠ l → after.countsLo l' = cdb.countsLo l')
    (high : after.countsHi l = if right = [] then c else cdb.countsHi l)
    (highOthers : ∀ l', l' ≠ l → after.countsHi l' = cdb.countsHi l')
    (nextFree : after.countsNextFree = popped.countsNextFree) (freeCount : after.countsFree = popped.countsFree)
    (pages : after.countsPages = popped.countsPages) (size : after.countsSize = popped.countsSize) :
    ∃ rest, Shape after links (Function.update chains l (left ++ ⟨c, count, [pos]⟩ :: right)) rest := by
  rcases freeCountPop_pool shape.pool pop with
    ⟨counts, poppedNext, poppedFree, poppedPages, poppedSize, rest, poppedIs, pool, fresh, same⟩
  have poppedCounts : popped.counts = counts := by rw [poppedIs]
  have inUse : ∀ {l' other}, other ∈ nodesOf (chains l') → other ≠ c := by
    intro l' other inside equal
    exact fresh ⟨l', equal ▸ inside⟩
  have untouched : ∀ {l' other}, l' ≠ l → other ∈ nodesOf (chains l') → after.counts other = cdb.counts other := by
    intro l' other differ inside
    have notLeft : (nodesOf left).getLast? ≠ some other := fun found =>
      differ (shape.disjoint inside (by
        rw [form, nodesOf_append]
        exact List.mem_append_left _ (List.mem_of_getLast? found)))
    have notRight : (nodesOf right).head? ≠ some other := fun found =>
      differ (shape.disjoint inside (by
        rw [form, nodesOf_append]
        exact List.mem_append_right _ (List.mem_of_mem_head? found)))
    rw [others other (inUse inside), if_neg notLeft, if_neg notRight, poppedCounts, same other ⟨l', inside⟩]
  refine ⟨rest, ?_⟩
  apply shape.update
  · have chained := shape.chained l
    rw [form] at chained
    refine chained.insert ?_ ?_ ?_ positive node ?_ key otherKeys low high
    · intro inside
      exact fresh ⟨l, by rwa [form]⟩
    · exact Nat.ne_of_gt (pool.range c (Or.inr (Or.inr rfl))).1
    · intro bucket inside
      exact loose l bucket (by rwa [form])
    · intro other inside
      have old : other ∈ nodesOf (chains l) := by rwa [form]
      rw [others other (inUse old), poppedCounts, same other ⟨l, old⟩]
  · intro l' differ other inside
    exact untouched differ inside
  · intro l' _ bucket inside other inKeys
    exact otherKeys other (fun equal => loose l' bucket inside (equal ▸ inKeys))
  · exact lowOthers
  · exact highOthers
  · intro other inside l' differ elsewhere
    rw [nodesOf_append, nodesOf_cons] at inside
    rcases List.mem_append.mp inside with inLeft | inRest
    · exact differ (shape.disjoint elsewhere (by
        rw [form, nodesOf_append]
        exact List.mem_append_left _ inLeft))
    · rcases List.mem_cons.mp inRest with now | inRight
      · exact inUse elsewhere now
      · exact differ (shape.disjoint elsewhere (by
          rw [form, nodesOf_append]
          exact List.mem_append_right _ inRight))
  · apply pool.congr
    · intro other
      rw [mem_nodesOf_update, nodesOf_append, nodesOf_cons]
      constructor
      · rintro (inside | ⟨l', _, inside⟩)
        · rcases List.mem_append.mp inside with inLeft | inRest
          · refine Or.inl ⟨l, ?_⟩
            rw [form, nodesOf_append]
            exact List.mem_append_left _ inLeft
          · rcases List.mem_cons.mp inRest with now | inRight
            · exact Or.inr now
            · refine Or.inl ⟨l, ?_⟩
              rw [form, nodesOf_append]
              exact List.mem_append_right _ inRight
        · exact Or.inl ⟨l', inside⟩
      · rintro (⟨l', inside⟩ | now)
        · by_cases here : l' = l
          · subst here
            rw [form, nodesOf_append] at inside
            refine Or.inl ?_
            rcases List.mem_append.mp inside with inLeft | inRight
            · exact List.mem_append_left _ inLeft
            · exact List.mem_append_right _ (List.mem_cons_of_mem _ inRight)
          · exact Or.inr ⟨l', here, inside⟩
        · rw [now]
          exact Or.inl (List.mem_append_right _ List.mem_cons_self)
    · intro other inFree
      have notUsed := pool.apart other inFree
      have apart : other ≠ c := fun equal => notUsed (Or.inr equal)
      have notLeft : (nodesOf left).getLast? ≠ some other := fun found => notUsed (Or.inl ⟨l, by
        rw [form, nodesOf_append]
        exact List.mem_append_left _ (List.mem_of_getLast? found)⟩)
      rw [others other apart, if_neg notLeft]
    · exact nextFree
    · exact freeCount
    · exact pages
    · exact size

theorem freeCountPop_frame (shape : Shape cdb log.links chains free) {popped : Instance} {c : Nat}
    (pop : freeCountPop cdb = some (c, popped)) :
    popped.kvdata = cdb.kvdata ∧ popped.kvdataUsed = cdb.kvdataUsed ∧ popped.countsLo = cdb.countsLo ∧
      popped.countsHi = cdb.countsHi ∧ c < 2 ^ 32 ∧
      (∀ l, c ∉ nodesOf (chains l)) ∧ ∀ l, ∀ other ∈ nodesOf (chains l), popped.counts other = cdb.counts other := by
  rcases freeCountPop_pool shape.pool pop with
    ⟨counts, poppedNext, poppedFree, poppedPages, poppedSize, rest, poppedIs, pool, fresh, same⟩
  have bound := pool.size_lt
  have range := (pool.range c (Or.inr (Or.inr rfl))).2
  rw [poppedIs]
  refine ⟨rfl, rfl, rfl, rfl, ?_, fun l inside => fresh ⟨l, inside⟩, fun l other inside => same other ⟨l, inside⟩⟩
  rw [poppedIs] at bound range
  omega

end

end SxeCdb
end LibKit
