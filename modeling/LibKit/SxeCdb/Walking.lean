import LibKit.SxeCdb.Checks
import LibKit.SxeCdb.Tallies

namespace LibKit
namespace SxeCdb

/-!
# Walking over the counters of a list

The whole state of a walk is a node and a position, which the caller hands
back.  Where the chains of an instance represent a list of buckets, a walk
stands at each key of each bucket in turn, and ends behind the last one.  With
what the history says of the chains, a walk is a sorted enumeration of the
counters of a list, in either direction.
-/

def countsListsMax : Nat := 256

/-! ## One call -/

/-- What a call of `sxe_cdb_instance_walk` leaves: the copy that it returns with
`sxe_cdb_tls_walk_count`, the positions for the next call and the buffer. -/
structure Walked where
  hkv : Option (HkvCopy × Nat)
  cntPos : Nat
  hkvPos : Nat
  tls : Tls
deriving DecidableEq

/-- The positions for moving on to a node, if there is one. -/
def atCount (cdb : Instance) (cntPos : Nat) : Nat × Nat := (cntPos, if cntPos = 0 then 0 else (cdb.counts cntPos).hkv1)

def walkStart (cdb : Instance) (direction countsList : Nat) : Nat × Nat :=
  if countsList ≥ countsListsMax then (0, 0)
  else atCount cdb (if direction ≠ 0 then cdb.countsHi countsList else cdb.countsLo countsList)

/-- If there is no new record then advance to the next count. -/
def walkOn (cdb : Instance) (direction cntPos hkvPos : Nat) : Nat × Nat :=
  if hkvPos = 0 then atCount cdb (if direction ≠ 0 then (cdb.counts cntPos).last else (cdb.counts cntPos).next)
  else (cntPos, hkvPos)

/-- `sxe_cdb_instance_walk` from a node on. -/
def walkFrom (cdb : Instance) (tls : Tls) (direction cntPos hkvPos : Nat) : Option Walked :=
  if cntPos = 0 then some ⟨none, cntPos, hkvPos, tls⟩
  else if hkvPos = 0 then
    let next := walkOn cdb direction cntPos hkvPos
    some ⟨none, next.1, next.2, tls⟩
  else
    (walkPosIsBad cdb cntPos hkvPos).bind fun bad =>
      if bad then some ⟨none, 0, 0, tls⟩
      else
        let hkvPosNew := nextHkvPos cdb.kvdata (hkvUnpack cdb.kvdata hkvPos).val
        (walkPosIsBad cdb cntPos hkvPosNew).bind fun bad =>
          if bad then some ⟨none, 0, 0, tls⟩
          else (copyHkvToTls cdb hkvPos tls).map fun tls =>
            let next := walkOn cdb direction cntPos hkvPosNew
            ⟨some (tls.part cdb hkvPos, (cdb.counts cntPos).count), next.1, next.2, tls⟩

/-- `sxe_cdb_instance_walk` -/
def walk (cdb : Instance) (tls : Tls) (direction cntPos hkvPos countsList : Nat) : Option Walked :=
  if cntPos = 0 then
    let start := walkStart cdb direction countsList
    walkFrom cdb tls direction start.1 start.2
  else walkFrom cdb tls direction cntPos hkvPos

/-- Calling `sxe_cdb_instance_walk` with the positions of the call before until
it reports the end: what the calls return, with the counts. -/
def walkAll (cdb : Instance) (direction countsList : Nat) : Nat → Tls → Nat → Nat → Option (List (HkvCopy × Nat))
  | 0, _, _, _ => none
  | fuel + 1, tls, cntPos, hkvPos =>
      (walk cdb tls direction cntPos hkvPos countsList).bind fun walked =>
        if walked.cntPos = 0 then some walked.hkv.toList
        else (walkAll cdb direction countsList fuel walked.tls walked.cntPos walked.hkvPos).map (walked.hkv.toList ++ ·)

/-! ## Where a walk stops -/

/-- The nodes and positions that a walk along buckets stands at. -/
def stops (buckets : List Bucket) : List (Nat × Nat) :=
  buckets.flatMap fun bucket => bucket.keys.map fun pos => (bucket.node, pos)

/-- The positions at the first of them, or at the end. -/
def firstStop (rest : List (Nat × Nat)) : Nat × Nat := rest.head?.getD (0, 0)

def ordered (direction : Nat) (buckets : List Bucket) : List Bucket :=
  if direction ≠ 0 then buckets.reverse else buckets

theorem ordered_perm (direction : Nat) (buckets : List Bucket) : (ordered direction buckets).Perm buckets := by
  unfold ordered
  split
  · exact List.reverse_perm buckets
  · exact List.Perm.refl buckets

/-- A buffer that is there with its length, or was not made yet. -/
structure Tls.Ready (tls : Tls) : Prop where
  sized : tls.Sized
  made : tls.hkv = none → tls.hkvLenMax = 0

section

variable {sum : List UInt8 → Fin 8 → UInt16} {cdb : Instance} {log : Log} {chains : Nat → List Bucket} {free : List Nat}
  {tally : Nat → Nat} {l direction : Nat} {bucket : Bucket} {left right : List Bucket} {pos : Nat}

theorem Kept.mem_chain (form : ordered direction (chains l) = left ++ bucket :: right) : bucket ∈ chains l := by
  rw [← (ordered_perm direction (chains l)).mem_iff, form]
  exact List.mem_append_right _ List.mem_cons_self

/-- The node behind a bucket, in the direction of the walk. -/
theorem Kept.next_node (kept : Kept sum cdb log chains free tally)
    (form : ordered direction (chains l) = left ++ bucket :: right) :
    (if direction ≠ 0 then (cdb.counts bucket.node).last else (cdb.counts bucket.node).next) =
      (nodesOf right).head?.getD 0 := by
  have linked := (kept.chained l).linked
  unfold ordered at form
  split at form
  · rename_i backwards
    rw [List.reverse_eq_iff, List.reverse_append, List.reverse_cons, List.append_assoc, List.singleton_append] at form
    rw [form, nodesOf_append, nodesOf_cons] at linked
    rw [if_pos backwards, linked.neighbours.1, nodesOf, List.map_reverse, List.getLast?_reverse]
    rfl
  · rename_i forwards
    rw [form, nodesOf_append, nodesOf_cons] at linked
    rw [if_neg forwards, linked.neighbours.2]

theorem Kept.first_node (kept : Kept sum cdb log chains free tally) (direction l : Nat) :
    (if direction ≠ 0 then cdb.countsHi l else cdb.countsLo l) =
    (nodesOf (ordered direction (chains l))).head?.getD 0 := by
  unfold ordered
  split
  · rw [(kept.chained l).high, nodesOf, nodesOf, List.map_reverse, List.head?_reverse]
  · rw [(kept.chained l).low]

theorem Kept.atCount_eq (kept : Kept sum cdb log chains free tally) {rest : List Bucket}
    (inside : ∀ bucket ∈ rest, bucket ∈ chains l) :
    atCount cdb ((nodesOf rest).head?.getD 0) = firstStop (stops rest) := by
  cases rest with
  | nil => rfl
  | cons bucket rest =>
      have member := inside bucket List.mem_cons_self
      have ok := (kept.chained l).buckets bucket member
      have nonzero : bucket.node ≠ 0 := fun zero => (kept.chained l).positive (zero ▸ mem_nodesOf member)
      have first := ok.first
      cases keys : bucket.keys with
      | nil => exact absurd keys ((kept.counters.sorted l).nonempty bucket member)
      | cons key others =>
          rw [keys] at first
          rw [nodesOf_cons, List.head?_cons, Option.getD_some, atCount, if_neg nonzero, first, stops,
            List.flatMap_cons, keys]
          rfl

/-! ## One step of a walk -/

/-- The test does not refuse the positions of a counter. -/
theorem Kept.walkPosIsBad_eq (kept : Kept sum cdb log chains free tally) (member : bucket ∈ chains l)
    (inKeys : pos ∈ bucket.keys) :
    walkPosIsBad cdb bucket.node pos = some false := by
  rcases kept.counters.keyed l bucket member pos inKeys with ⟨entry, logged, counter⟩
  rcases kept.stored.unpack logged with ⟨header, found, whole⟩
  have key := hkvUnpack_key cdb.kvdata pos
  have within := kept.stored.within logged
  have usedSize := kept.sized.used
  have size := kept.sized.bound
  have length := hkvLen_eq kept.stored (Nat.lt_of_le_of_lt usedSize size) logged
  have total : entry.length = header + entry.key.length + entry.valLen := by
    rw [Entry.length, found]
    rfl
  have valLen : entry.valLen = hkvListBytes := by rw [Entry.valLen, counter]
  have range := kept.counters.shape.pool.range bucket.node (Or.inr ⟨l, mem_nodesOf member⟩)
  have positive := kept.stored.positive logged
  have use := ((kept.chained l).buckets bucket member).use pos inKeys
  change countToUse cdb.kvdata (hkvUnpack cdb.kvdata pos).val = bucket.node at use
  have headerIs : hLen cdb.kvdata pos = header := by
    rw [whole] at key
    exact Nat.add_left_cancel key.symm
  have starts := (headerLen_bounds found).1
  have twelve : hkvListBytes = 12 := rfl
  unfold walkPosIsBad
  rw [if_pos ⟨Nat.ne_of_gt range.1, Nat.ne_of_gt positive⟩, if_neg (Nat.not_lt_of_lt range.2), headerIs, length]
  rw [if_neg (by omega), if_neg (by omega), if_neg (by omega), if_neg (by omega), if_neg (by omega)]
  dsimp only
  rw [use, whole]
  dsimp only
  rw [if_pos valLen, if_neg (by omega), decide_eq_false (not_not_intro rfl)]

theorem walkPosIsBad_end (cdb : Instance) (cntPos : Nat) : walkPosIsBad cdb cntPos 0 = some false := by
  unfold walkPosIsBad
  rw [if_neg fun both => both.2 rfl]

/-- The copy of a counter, with the number of its counts. -/
def counterOf (log : Log) (tally : Nat → Nat) (pos : Nat) : HkvCopy × Nat :=
  (((log.entries pos).map fun entry => ⟨entry.key, entry.val (log.links pos)⟩).getD ⟨[], []⟩, tally pos)

/-- A call at a key of a bucket returns it and moves on to the stop behind it. -/
theorem Kept.walkFrom_eq (kept : Kept sum cdb log chains free tally) {tls : Tls} (ready : tls.Ready)
    (form : ordered direction (chains l) = left ++ bucket :: right) {front back : List Nat}
    (keys : bucket.keys = front ++ pos :: back) :
    ∃ after : Tls, after.Ready ∧ walkFrom cdb tls direction bucket.node pos =
      some ⟨some (counterOf log tally pos), (firstStop (back.map (fun key => (bucket.node, key)) ++ stops right)).1,
        (firstStop (back.map (fun key => (bucket.node, key)) ++ stops right)).2, after⟩ := by
  have member := Kept.mem_chain form
  have inKeys : pos ∈ bucket.keys := by
    rw [keys]
    exact List.mem_append_right _ List.mem_cons_self
  have ok := (kept.chained l).buckets bucket member
  have node : bucket.node ≠ 0 := fun zero => (kept.chained l).positive (zero ▸ mem_nodesOf member)
  have nonzero : pos ≠ 0 := fun zero => ok.positive (zero ▸ inKeys)
  have next : nextHkvPos cdb.kvdata (hkvUnpack cdb.kvdata pos).val = back.head?.getD 0 := by
    have linked := ok.linked
    rw [keys] at linked
    exact linked.neighbours.2
  rcases kept.counters.keyed l bucket member pos inKeys with ⟨entry, logged, counter⟩
  have short : cdb.kvdataUsed < 2 ^ 32 := Nat.lt_of_le_of_lt kept.sized.used kept.sized.bound
  rcases copyHkvToTls_logged kept.stored short logged ready.sized (by
    intro unmade
    rw [ready.made unmade, hkvLen_eq kept.stored short logged]
    rcases kept.stored.admitted logged with ⟨header, found⟩
    exact Stored.length_pos found) with ⟨copy, copied, sized, part⟩
  have count : (cdb.counts bucket.node).count = tally pos := by
    rw [ok.count]
    exact (kept.counters.sorted l).tallied bucket member pos inKeys
  have behind : walkPosIsBad cdb bucket.node (back.head?.getD 0) = some false := by
    cases back with
    | nil => exact walkPosIsBad_end cdb bucket.node
    | cons second others =>
        apply kept.walkPosIsBad_eq member
        rw [keys]
        exact List.mem_append_right _ (List.mem_cons_of_mem _ List.mem_cons_self)
  have moves : walkOn cdb direction bucket.node (back.head?.getD 0) =
      firstStop (back.map (fun key => (bucket.node, key)) ++ stops right) := by
    unfold walkOn
    cases back with
    | nil =>
        rw [List.head?_nil, Option.getD_none, if_pos rfl, kept.next_node form, List.map_nil, List.nil_append]
        apply @Kept.atCount_eq sum cdb log chains free tally l kept
        intro other inRight
        rw [← (ordered_perm direction (chains l)).mem_iff, form]
        exact List.mem_append_right _ (List.mem_cons_of_mem _ inRight)
    | cons second others =>
        have notZero : second ≠ 0 := by
          rintro rfl
          apply ok.positive
          rw [keys]
          exact List.mem_append_right _ (List.mem_cons_of_mem _ List.mem_cons_self)
        rw [List.head?_cons, Option.getD_some, if_neg notZero]
        rfl
  refine ⟨copy, ⟨sized, ?_⟩, ?_⟩
  · -- a copy of a key is not empty
    intro unmade
    have nonempty : 1 ≤ entry.key.length := by
      rcases kept.stored.admitted logged with ⟨header, found⟩
      exact (headerLen_cases found).1
    have empty : (copy.part cdb pos).key = [] := by
      rw [Tls.part, unmade]
      simp
    rw [part] at empty
    change entry.key = [] at empty
    rw [empty] at nonempty
    cases nonempty
  · unfold walkFrom
    rw [if_neg node, if_neg nonzero, kept.walkPosIsBad_eq member inKeys, Option.bind_some, if_neg Bool.false_ne_true]
    dsimp only
    rw [next, behind, Option.bind_some, if_neg Bool.false_ne_true, copied, Option.map_some, moves, part, count,
      counterOf, logged]
    rfl

/-! ## A whole walk -/

/-- From a key of a bucket on, a walk returns this key and all behind it. -/
theorem Kept.walkAll_from (kept : Kept sum cdb log chains free tally) {tls : Tls} (ready : tls.Ready)
    (form : ordered direction (chains l) = left ++ bucket :: right) {front back : List Nat}
    (keys : bucket.keys = front ++ pos :: back) :
    ∃ fuel, walkAll cdb direction l fuel tls bucket.node pos =
      some (((bucket.node, pos) :: (back.map (fun key => (bucket.node, key)) ++ stops right)).map fun stop =>
        counterOf log tally stop.2) := by
  generalize remaining : (back.map (fun key => (bucket.node, key)) ++ stops right).length = length
  induction length generalizing tls left bucket right front pos back with
  | zero =>
      have node : bucket.node ≠ 0 := fun zero => (kept.chained l).positive (zero ▸ mem_nodesOf (Kept.mem_chain form))
      rcases kept.walkFrom_eq ready form keys with ⟨after, -, walked⟩
      rw [List.eq_nil_of_length_eq_zero remaining] at walked ⊢
      refine ⟨1, ?_⟩
      rw [walkAll, walk, if_neg node, walked, Option.bind_some]
      rfl
  | succ length ih =>
      have node : bucket.node ≠ 0 := fun zero => (kept.chained l).positive (zero ▸ mem_nodesOf (Kept.mem_chain form))
      rcases kept.walkFrom_eq ready form keys with ⟨after, readyAfter, walked⟩
      -- the walk goes on from the stop behind this one
      have continues : ∀ {other : Bucket} {next : Nat} {rest : List (Nat × Nat)}, other ∈ chains l →
          back.map (fun key => (bucket.node, key)) ++ stops right = (other.node, next) :: rest →
          (∃ fuel, walkAll cdb direction l fuel after other.node next =
            some (((other.node, next) :: rest).map fun stop => counterOf log tally stop.2)) →
          ∃ fuel, walkAll cdb direction l fuel tls bucket.node pos =
            some (((bucket.node, pos) :: (other.node, next) :: rest).map fun stop => counterOf log tally stop.2) := by
        rintro other next rest inside same ⟨fuel, found⟩
        have notEnd : other.node ≠ 0 := fun zero => (kept.chained l).positive (zero ▸ mem_nodesOf inside)
        rw [same] at walked
        change walkFrom cdb tls direction bucket.node pos = some ⟨_, other.node, next, after⟩ at walked
        refine ⟨fuel + 1, ?_⟩
        rw [walkAll, walk, if_neg node, walked, Option.bind_some, if_neg notEnd, found]
        rfl
      cases back with
      | cons second others =>
          have further : bucket.keys = (front ++ [pos]) ++ second :: others := by
            rw [keys, List.append_assoc, List.singleton_append]
          exact continues (Kept.mem_chain form) rfl (ih readyAfter form further (Nat.succ_injective remaining))
      | nil =>
          cases right with
          | nil => cases remaining
          | cons other rest =>
              have further : ordered direction (chains l) = (left ++ [bucket]) ++ other :: rest := by
                rw [form, List.append_assoc, List.singleton_append]
              have inside := Kept.mem_chain further
              cases its : other.keys with
              | nil => exact absurd its ((kept.counters.sorted l).nonempty other inside)
              | cons next others =>
                  have same : stops (other :: rest) = (other.node, next) ::
                    (others.map (fun key => (other.node, key)) ++ stops rest) := by
                    rw [stops, List.flatMap_cons, its]
                    rfl
                  rw [List.map_nil, List.nil_append, same] at remaining ⊢
                  have start : other.keys = [] ++ next :: others := its
                  refine continues inside (by rw [List.map_nil, List.nil_append, same]) ?_
                  exact ih readyAfter further start (Nat.succ_injective remaining)

/-- A walk from the start returns the keys of all buckets. -/
theorem Kept.walkAll_eq (kept : Kept sum cdb log chains free tally) {tls : Tls} (ready : tls.Ready) (direction : Nat)
    (bound : l < countsListsMax) :
    ∃ fuel, walkAll cdb direction l fuel tls 0 0 =
      some ((stops (ordered direction (chains l))).map fun stop => counterOf log tally stop.2) := by
  have inside : ∀ bucket ∈ ordered direction (chains l), bucket ∈ chains l :=
    fun bucket => (ordered_perm direction (chains l)).mem_iff.mp
  have start : walkStart cdb direction l = firstStop (stops (ordered direction (chains l))) := by
    rw [walkStart, if_neg (Nat.not_le_of_lt bound), kept.first_node, kept.atCount_eq inside]
  cases form : ordered direction (chains l) with
  | nil =>
      rw [form] at start
      refine ⟨1, ?_⟩
      rw [walkAll, walk, if_pos rfl, start]
      rfl
  | cons bucket right =>
      have member := inside bucket (by rw [form]; exact List.mem_cons_self)
      have node : bucket.node ≠ 0 := fun zero => (kept.chained l).positive (zero ▸ mem_nodesOf member)
      cases keys : bucket.keys with
      | nil => exact absurd keys ((kept.counters.sorted l).nonempty bucket member)
      | cons pos back =>
          have same : stops (bucket :: right) = (bucket.node, pos) ::
            (back.map (fun key => (bucket.node, key)) ++ stops right) := by
            rw [stops, List.flatMap_cons, keys]
            rfl
          rw [form, same] at start
          have whole : ordered direction (chains l) = [] ++ bucket :: right := form
          have front : bucket.keys = [] ++ pos :: back := keys
          rcases kept.walkAll_from ready whole front with ⟨fuel, found⟩
          refine ⟨fuel, ?_⟩
          rw [same, ← found]
          cases fuel with
          | zero => rfl
          | succ fuel =>
              rw [walkAll, walkAll, walk, walk, if_pos rfl, if_neg node, start]
              rfl

end

/-- Walking from the start ends, and returns each key counted on the list once,
with its count, by non-decreasing count or, in the other direction, by
non-increasing count. -/
def WalkComplete (history : History Call Answer) (cdb : Instance) (tls : Tls) (direction l : Nat) : Prop :=
  ∃ fuel found, walkAll cdb direction l fuel tls 0 0 = some found ∧
    (found.map fun counter => counter.1.key).Nodup ∧
    (∀ key, key ∈ found.map (fun counter => counter.1.key) ↔ Counted history key l) ∧
    (∀ counter ∈ found, counter.2 = incs history counter.1.key) ∧
    found.Pairwise fun first second => if direction ≠ 0 then second.2 ≤ first.2 else first.2 ≤ second.2

section

variable {sum : List UInt8 → Fin 8 → UInt16} {cdb : Instance} {log : Log} {chains : Nat → List Bucket} {free : List Nat}
  {tally : Nat → Nat} {history : History Call Answer}

/-- The positions that a walk along buckets stands at. -/
theorem stops_positions (buckets : List Bucket) : (stops buckets).map Prod.snd = buckets.flatMap Bucket.keys := by
  rw [stops, List.map_flatMap]
  apply congrArg (fun keys => List.flatMap keys buckets)
  funext bucket
  rw [List.map_map]
  exact List.map_id _

theorem Kept.counterOf_eq (kept : Kept sum cdb log chains free tally) {l pos : Nat}
    (inside : ∃ bucket ∈ chains l, pos ∈ bucket.keys) :
    ∃ key, log.entries pos = some ⟨key, .counter l⟩ ∧ (counterOf log tally pos).1.key = key := by
  rcases (kept.counters.counters l pos).mp inside with ⟨⟨key, content⟩, logged, counter⟩
  change content = .counter l at counter
  subst counter
  refine ⟨key, logged, ?_⟩
  rw [counterOf, logged]
  rfl

theorem Kept.positions_nodup (kept : Kept sum cdb log chains free tally) (direction l : Nat) :
    ((ordered direction (chains l)).flatMap Bucket.keys).Nodup := by
  apply ((ordered_perm direction (chains l)).flatMap_right Bucket.keys).nodup_iff.mpr
  rw [List.nodup_flatMap]
  refine ⟨fun bucket member => ((kept.chained l).buckets bucket member).nodup, ?_⟩
  apply List.Pairwise.imp_of_mem _ (kept.counters.sorted l).sorted
  intro first second isFirst isSecond less pos inFirst inSecond
  rw [(kept.counters.shape.same_bucket isFirst isSecond inFirst inSecond).2] at less
  exact Nat.lt_irrefl _ less

theorem Kept.positions_sorted (kept : Kept sum cdb log chains free tally) (direction l : Nat) :
    ((ordered direction (chains l)).flatMap Bucket.keys).Pairwise fun first second =>
      if direction ≠ 0 then tally second ≤ tally first else tally first ≤ tally second := by
  have sorted := kept.counters.sorted l
  have inside : ∀ bucket ∈ ordered direction (chains l), bucket ∈ chains l :=
    fun bucket => (ordered_perm direction (chains l)).mem_iff.mp
  have buckets : (ordered direction (chains l)).Pairwise fun first second =>
      if direction ≠ 0 then second.count < first.count else first.count < second.count := by
    unfold ordered
    split
    · exact List.pairwise_reverse.mpr sorted.sorted
    · exact sorted.sorted
  rw [List.pairwise_flatMap]
  refine ⟨?_, ?_⟩
  · intro bucket member
    apply List.pairwise_of_forall_mem_list
    intro first inFirst second inSecond
    rw [← sorted.tallied bucket (inside bucket member) first inFirst,
      ← sorted.tallied bucket (inside bucket member) second inSecond]
    split
    · exact le_refl _
    · exact le_refl _
  · apply List.Pairwise.imp_of_mem _ buckets
    intro first second isFirst isSecond less pos inFirst other inSecond
    rw [← sorted.tallied first (inside first isFirst) pos inFirst,
      ← sorted.tallied second (inside second isSecond) other inSecond]
    split
    · rename_i backwards
      rw [if_pos backwards] at less
      exact Nat.le_of_lt less
    · rename_i forwards
      rw [if_neg forwards] at less
      exact Nat.le_of_lt less

theorem Kept.walkComplete (kept : Kept sum cdb log chains free tally) (recorded : Recorded history log.entries)
    (separate : Separate history) (tallied : Tallied history log.entries tally) {tls : Tls} (ready : tls.Ready)
    (direction : Nat)
    {l : Nat} (bound : l < countsListsMax) : WalkComplete history cdb tls direction l := by
  rcases kept.walkAll_eq ready direction bound with ⟨fuel, found⟩
  have positions : (stops (ordered direction (chains l))).map (fun stop => counterOf log tally stop.2) =
      ((ordered direction (chains l)).flatMap Bucket.keys).map (counterOf log tally) := by
    rw [← stops_positions, List.map_map]
    rfl
  have inside : ∀ {pos}, pos ∈ (ordered direction (chains l)).flatMap Bucket.keys ↔
    ∃ bucket ∈ chains l, pos ∈ bucket.keys := by
    intro pos
    rw [((ordered_perm direction (chains l)).flatMap_right Bucket.keys).mem_iff]
    exact List.mem_flatMap
  rw [positions] at found
  refine ⟨fuel, _, found, ?_, ?_, ?_, ?_⟩
  · rw [List.map_map]
    refine List.Nodup.map_on ?_ (kept.positions_nodup direction l)
    intro first isFirst second isSecond same
    rcases kept.counterOf_eq (inside.mp isFirst) with ⟨key, logged, isKey⟩
    rcases kept.counterOf_eq (inside.mp isSecond) with ⟨other, again, isOther⟩
    have equal : key = other := isKey.symm.trans (same.trans isOther)
    subst equal
    exact tallied.unique logged again
  · intro key
    rw [List.map_map, List.mem_map]
    constructor
    · rintro ⟨pos, member, same⟩
      rcases kept.counterOf_eq (inside.mp member) with ⟨other, logged, isOther⟩
      have equal : other = key := isOther.symm.trans same
      subst equal
      exact recorded.sound logged
    · intro counted
      rcases kept.find_counter recorded separate counted with ⟨pos, -, logged⟩
      refine ⟨pos, inside.mpr ((kept.counters.counters l pos).mpr ⟨_, logged, rfl⟩), ?_⟩
      rw [Function.comp_apply, counterOf, logged]
      rfl
  · intro counter member
    rcases List.mem_map.mp member with ⟨pos, isPos, rfl⟩
    rcases kept.counterOf_eq (inside.mp isPos) with ⟨key, logged, isKey⟩
    rw [isKey]
    exact (tallied.tally logged).1
  · rw [List.pairwise_map]
    exact kept.positions_sorted direction l

end

/-- In every instance reached by allowed calls, a walk over a list is a sorted
enumeration of its counters, in both directions. -/
theorem counter_walk_complete (sum : List UInt8 → Fin 8 → UInt16) (keysAtStart maximum : Nat) (start : Instance)
    (created : newInit keysAtStart maximum = some start) (history : History Call Answer) (cdb : Instance)
    (run : Run (step sum) (TallyOk sum) start history cdb) {tls : Tls} (ready : tls.Ready) (direction : Nat) {l : Nat}
    (bound : l < countsListsMax) : WalkComplete history cdb tls direction l := by
  rcases exists_tallied created run with ⟨log, chains, free, tally, kept, recorded, separate, tallied⟩
  exact kept.walkComplete recorded separate tallied ready direction bound

theorem fresh_ready : (⟨none, 0⟩ : Tls).Ready := by
  refine ⟨?_, fun _ => rfl⟩
  intro buffer made
  cases made

theorem counter_walk_complete_counted : WalkComplete countedHistory (stateAfter countedHistory) ⟨none, 0⟩ 1 0 :=
  counter_walk_complete collidingHash 0 0 (fresh 0 0) rfl countedHistory _ countedHistory_run fresh_ready 1 (by decide)

/-- A walk returns the key counted until its field wrapped with a count of zero. -/
theorem walk_count_wraps :
    newInit 0 0 = some (fresh 0 0) ∧ ∃ history cdb,
      Run (step collidingHash) (fun history cdb call => SameList history call ∧ CallPutOk collidingHash cdb call)
        (fresh 0 0) history cdb ∧ (∀ event ∈ history, event.1 = .inc [97] 0 fun _ => 0) ∧
        ¬ WalkComplete history cdb ⟨none, 0⟩ 0 0 := by
  have run := lone_run (2 ^ 48 - 1) (by decide)
  have zero : (2 ^ 48 - 1 + 1) % 2 ^ 48 = 0 := by decide
  rw [zero] at run
  refine ⟨rfl, _, _, run, fun event => mem_loneHistory, ?_⟩
  rintro ⟨fuel, found, walked, -, -, counts, -⟩
  have called : walk (loneState 0) ⟨none, 0⟩ 0 0 0 0 =
      some ⟨some (⟨[97], [1, 0, 0, 0, 0, 0, 0, 0, 0, 0, 0, 0]⟩, 0), 0, 0,
        ⟨some [194, 97, 1, 0, 0, 0, 0, 0, 0, 0, 0, 0, 0, 0], 14⟩⟩ := by
    decide +kernel
  cases fuel with
  | zero => cases walked
  | succ fuel =>
      rw [walkAll, called] at walked
      cases walked
      have wrapped := counts _ List.mem_cons_self
      rw [incs_loneHistory_wraps] at wrapped
      cases wrapped

end SxeCdb
end LibKit
