import LibKit.SxeCdb.Counters

namespace LibKit
namespace SxeCdb

/-!
# What a call does to an instance

The invariants of the record log, the sheets and the counters are put
together, and each call is shown to have one of four effects: nothing is
stored, a value is put, a new key is counted, or a counter is counted again.
An `inc` that finds a record is trusted only when the record is rejected by
its length or its first word, or when it is on a chain of the given list.
-/

def linksOf (kvdata : Nat → UInt8) (pos : Nat) : Links where
  countToUse := countToUse kvdata (hkvUnpack kvdata pos).val
  nextHkvPos := nextHkvPos kvdata (hkvUnpack kvdata pos).val
  lastHkvPos := lastHkvPos kvdata (hkvUnpack kvdata pos).val

/-- A record is met on a walk along the counts of a list and then along the
keys of the count. -/
def OnList (cdb : Instance) (l c pos : Nat) : Prop :=
  Walk (fun c => (cdb.counts c).next) (cdb.countsLo l) c ∧
    Walk (fun pos => (linksOf cdb.kvdata pos).nextHkvPos) (cdb.counts c).hkv1 pos

/-- Counting the record found for a key is harmless: it has not the length of
a counter, or names no node, or is on a chain of the list below the largest
count. -/
def IncOk (cdb : Instance) (l pos : Nat) : Prop :=
  (hkvUnpack cdb.kvdata pos).valLen ≠ hkvListBytes ∨
    cdb.countsSize ≤ (linksOf cdb.kvdata pos).countToUse ∨
    ∃ c, OnList cdb l c pos ∧ (cdb.counts c).count + 1 < 2 ^ 48

/-- The condition on a call, in the state before it. -/
def CallOk (sum : List UInt8 → Fin 8 → UInt16) (cdb : Instance) (call : Call) : Prop :=
  CallPutOk sum cdb call ∧
    match call with
    | .put _ _ => True
    | .inc key l _ => ∀ pos, getHkvRaw cdb (prepare sum key) = some pos → IncOk cdb l pos

/-- An instance represents a log, chains, free nodes and tallies. -/
structure Kept (sum : List UInt8 → Fin 8 → UInt16) (cdb : Instance) (log : Log) (chains : Nat → List Bucket)
    (free : List Nat) (tally : Nat → Nat) : Prop where
  sized : Sized cdb
  stored : Stored cdb.kvdata cdb.kvdataUsed log
  indexed : Indexed sum cdb log.entries
  counters : Counters cdb log chains free tally

/-- What a call does to the entries and the tallies. -/
inductive Effect (sum : List UInt8 → Fin 8 → UInt16) (cdb : Instance) (entries : Nat → Option Entry)
    (tally : Nat → Nat) : Call → Answer → (Nat → Option Entry) → (Nat → Nat) → Prop where
  | putRefused (key val : List UInt8) : Effect sum cdb entries tally (.put key val) (.uid none) entries tally
  | incRefused (key : List UInt8) (l : Nat) (dummy : Fin 12 → UInt8) :
      (∀ pos l', getHkvRaw cdb (prepare sum key) = some pos → entries pos ≠ some ⟨key, .counter l'⟩) →
      Effect sum cdb entries tally (.inc key l dummy) (.count 0) entries tally
  | put (key val : List UInt8) (uid : Uid) (pos : Nat) : entries pos = none →
      Effect sum cdb entries tally (.put key val) (.uid (some uid))
        (Function.update entries pos (some ⟨key, .plain val⟩)) tally
  | first (key : List UInt8) (l : Nat) (dummy : Fin 12 → UInt8) (pos : Nat) : entries pos = none →
      (∀ other entry, entries other = some entry → entry.key ≠ key) →
      Effect sum cdb entries tally (.inc key l dummy) (.count 1)
        (Function.update entries pos (some ⟨key, .counter l⟩)) (Function.update tally pos 1)
  | again (key : List UInt8) (l : Nat) (dummy : Fin 12 → UInt8) (pos : Nat) :
      entries pos = some ⟨key, .counter l⟩ → getHkvRaw cdb (prepare sum key) = some pos →
      Effect sum cdb entries tally (.inc key l dummy) (.count (tally pos + 1)) entries
        (Function.update tally pos (tally pos + 1))

section

variable {sum : List UInt8 → Fin 8 → UInt16} {cdb : Instance} {log : Log} {chains : Nat → List Bucket}
  {free : List Nat} {tally : Nat → Nat}

/-! ## The chains as they are read -/

theorem Stored.linksOf_eq {kvdata : Nat → UInt8} {used pos l : Nat} {entry : Entry}
    (stored : Stored kvdata used log) (logged : log.entries pos = some entry)
    (counter : entry.content = .counter l) : linksOf kvdata pos = log.links pos := by
  rcases stored.countToUse logged counter with ⟨use, next, last⟩
  rw [linksOf, use, next, last]

/-- The chains of an instance, read from its bytes. -/
theorem Kept.chained (kept : Kept sum cdb log chains free tally) (l : Nat) :
    Chained cdb.counts (linksOf cdb.kvdata) (cdb.countsLo l) (cdb.countsHi l) (chains l) := by
  apply (kept.counters.shape.chained l).congr (fun _ _ => rfl)
  intro bucket member pos inKeys
  rcases kept.counters.keyed l bucket member pos inKeys with ⟨entry, logged, counter⟩
  exact kept.stored.linksOf_eq logged counter

/-- The records on a list are the counters logged for it, each at the node of
its tally. -/
theorem Kept.onList_iff (kept : Kept sum cdb log chains free tally) (l c pos : Nat) :
    OnList cdb l c pos ↔ ∃ bucket ∈ chains l, bucket.node = c ∧ pos ∈ bucket.keys := by
  have chained := kept.chained l
  rw [OnList, chained.linked.walk_iff chained.positive chained.low]
  constructor
  · rintro ⟨node, key⟩
    rcases List.mem_map.mp node with ⟨bucket, member, same⟩
    subst same
    have ok := chained.buckets bucket member
    exact ⟨bucket, member, rfl, (ok.linked.walk_iff ok.positive ok.first pos).mp key⟩
  · rintro ⟨bucket, member, rfl, inKeys⟩
    have ok := chained.buckets bucket member
    exact ⟨mem_nodesOf member, (ok.linked.walk_iff ok.positive ok.first pos).mpr inKeys⟩

theorem Kept.onList_tally (kept : Kept sum cdb log chains free tally) {l c pos : Nat}
    (listed : OnList cdb l c pos) :
    (∃ entry, log.entries pos = some entry ∧ entry.content = .counter l) ∧ (cdb.counts c).count = tally pos := by
  rcases (kept.onList_iff l c pos).mp listed with ⟨bucket, member, rfl, inKeys⟩
  refine ⟨(kept.counters.counters l pos).mp ⟨bucket, member, inKeys⟩, ?_⟩
  rw [((kept.chained l).buckets bucket member).count]
  exact (kept.counters.sorted l).tallied bucket member pos inKeys

theorem Kept.onList_of_logged (kept : Kept sum cdb log chains free tally) {l pos : Nat} {entry : Entry}
    (logged : log.entries pos = some entry) (counter : entry.content = .counter l) :
    ∃ c, OnList cdb l c pos ∧ (cdb.counts c).count = tally pos := by
  rcases (kept.counters.counters l pos).mpr ⟨entry, logged, counter⟩ with ⟨bucket, member, inKeys⟩
  have listed := (kept.onList_iff l bucket.node pos).mpr ⟨bucket, member, rfl, inKeys⟩
  exact ⟨bucket.node, listed, (kept.onList_tally listed).2⟩

/-! ## The effect of a call -/

theorem Indexed.sameStore {entries : Nat → Option Entry} {after : Instance} (indexed : Indexed sum cdb entries)
    (same : SameStore cdb after) : Indexed sum after entries := by
  refine ⟨?_, ?_, ?_, ?_⟩
  · rw [same.sheetsIndex, same.sheetsSize]
    exact indexed.indexes
  · rw [same.sheets, same.sheetsIndex]
    exact indexed.cells
  · rw [same.sheets]
    exact indexed.entered
  · rw [same.sheets]
    exact indexed.unique

theorem fresh_kept (sum : List UInt8 → Fin 8 → UInt16) (keysAtStart maximum : Nat) :
    Kept sum (fresh keysAtStart maximum) ⟨fun _ => none, fun _ => ⟨0, 0, 0⟩⟩ (fun _ => []) [] (fun _ => 0) := by
  refine ⟨fresh_sized _ _, empty_stored _ _, fresh_indexed _ _ _, ⟨?_, ?_, ?_⟩, ?_, ?_⟩
  · intro l
    refine ⟨trivial, List.nodup_nil, List.not_mem_nil, rfl, rfl, ?_⟩
    intro bucket member
    cases member
  · intro l l' c member
    cases member
  · apply (fresh_pool keysAtStart maximum).congr _ (fun _ _ => rfl) rfl rfl rfl rfl
    intro c
    simp
  · intro l pos
    simp
  · intro l
    exact ⟨List.Pairwise.nil, by simp, by simp, by simp⟩

theorem put_effect (kept : Kept sum cdb log chains free tally) {key val : List UInt8} {uid : Option Uid}
    {after : Instance} (ok : PutOk cdb (prepare sum key) val.length)
    (put : putVal cdb (prepare sum key) val = some (uid, after)) :
    ∃ log', Effect sum cdb log.entries tally (.put key val) (.uid uid) log'.entries tally ∧
      Kept sum after log' chains free tally := by
  have sized := (putVal_sized kept.sized ok put).1
  have counts := putVal_counts put
  rcases putVal_logged kept.sized ok kept.stored kept.indexed put with
    ⟨rfl, data, used, indexed⟩ | ⟨done, _, entered⟩
  · refine ⟨log, Effect.putRefused key val, sized, ?_, indexed, ?_, kept.counters.counters, kept.counters.sorted⟩
    · rw [data, used]
      exact kept.stored
    · exact kept.counters.shape.congr counts (fun _ _ _ _ _ => rfl)
  · have fresh := kept.stored.not_logged_at_end
    rcases Option.ne_none_iff_exists'.mp done with ⟨place, rfl⟩
    have zero : (0 : Nat) < 2 ^ 32 := by decide
    rcases entered ⟨key, .plain val⟩ ⟨0, 0, 0⟩ rfl ⟨zero, zero, zero⟩ rfl with ⟨stored, indexed⟩
    exact ⟨_, Effect.put key val place cdb.kvdataUsed fresh, sized, stored, indexed,
      kept.counters.enter_plain counts fresh key val ⟨0, 0, 0⟩⟩

theorem inc_new_effect (kept : Kept sum cdb log chains free tally) {key : List UInt8} {l : Nat}
    {dummy : Fin 12 → UInt8} (missing : getHkvRaw cdb (prepare sum key) = none)
    (ok : PutOk cdb (prepare sum key) hkvListBytes) {count : Nat} {after : Instance}
    (done : inc cdb (prepare sum key) l dummy = some (count, after)) :
    ∃ log' chains' free' tally', Effect sum cdb log.entries tally (.inc key l dummy) (.count count) log'.entries
        tally' ∧ Kept sum after log' chains' free' tally' := by
  have length : (List.ofFn dummy).length = hkvListBytes := List.length_ofFn
  rw [← length] at ok
  rcases inc_missing missing done with ⟨uid, middle, put, rest⟩
  have sized := (putVal_sized kept.sized ok put).1
  have counts := putVal_counts put
  rcases putVal_logged kept.sized ok kept.stored kept.indexed put with
    ⟨isNone, data, used, indexed⟩ | ⟨succeeded, _, entered⟩
  · rcases rest with ⟨-, rfl, rfl⟩ | ⟨isSome, -⟩
    · refine ⟨log, chains, free, tally, Effect.incRefused key l dummy ?_, sized, ?_, indexed, ?_,
        kept.counters.counters, kept.counters.sorted⟩
      · intro pos l' found
        rw [missing] at found
        cases found
      · rw [data, used]
        exact kept.stored
      · exact kept.counters.shape.congr counts (fun _ _ _ _ _ => rfl)
    · exact absurd isNone isSome
  · rcases rest with ⟨isNone, -, -⟩ | ⟨-, pos, found, counted⟩
    · exact absurd isNone succeeded
    have fresh := kept.stored.not_logged_at_end
    rcases exists_links length with ⟨links, small, bytes⟩
    rcases entered ⟨key, .counter l⟩ links rfl small bytes with ⟨stored, indexed⟩
    have shape := kept.counters.enter_shape counts fresh ⟨key, .counter l⟩ links
    have isNew : pos = cdb.kvdataUsed := by
      rcases getHkvRaw_some stored indexed found with ⟨entry, logged, keyIs⟩
      by_contra old
      have before : log.entries pos = some entry := by
        simpa [Log.enter, Function.update_of_ne old] using logged
      exact getHkvRaw_none kept.stored kept.indexed missing before keyIs
    subst isNew
    have logged : (log.enter cdb.kvdataUsed ⟨key, .counter l⟩ links).entries cdb.kvdataUsed =
        some ⟨key, .counter l⟩ := Function.update_self _ _ _
    have counters : ∀ l' other, (∃ bucket ∈ chains l', other ∈ bucket.keys) ↔
        other ≠ cdb.kvdataUsed ∧ ∃ entry,
          (log.enter cdb.kvdataUsed ⟨key, .counter l⟩ links).entries other = some entry ∧
            entry.content = .counter l' := by
      intro l' other
      rw [kept.counters.counters]
      by_cases here : other = cdb.kvdataUsed
      · subst here
        simp [fresh]
      · simp [Log.enter, here]
    have bound := Nat.lt_of_le_of_lt sized.used sized.bound
    have store := SameStore.incNew counted
    rcases incNew_counters shape stored bound logged rfl counters kept.counters.sorted counted with
      ⟨one, links', chains', free', stored', counters'⟩
    rw [← store.kvdataUsed] at stored'
    refine ⟨_, chains', free', _, ?_, sized.sameStore store, stored', indexed.sameStore store, counters'⟩
    rw [one]
    apply Effect.first key l dummy cdb.kvdataUsed fresh
    intro other entry old
    exact getHkvRaw_none kept.stored kept.indexed missing old

theorem inc_old_effect (kept : Kept sum cdb log chains free tally) {key : List UInt8} {l pos : Nat}
    {dummy : Fin 12 → UInt8} (found : getHkvRaw cdb (prepare sum key) = some pos) (ok : IncOk cdb l pos)
    {count : Nat} {after : Instance} (done : incOld cdb l pos = some (count, after)) :
    ∃ log' chains' free' tally', Effect sum cdb log.entries tally (.inc key l dummy) (.count count) log'.entries
        tally' ∧ Kept sum after log' chains' free' tally' := by
  have refused : (∀ l', log.entries pos ≠ some ⟨key, .counter l'⟩) → some (0, cdb) = some (count, after) →
      ∃ log' chains' free' tally', Effect sum cdb log.entries tally (.inc key l dummy) (.count count)
        log'.entries tally' ∧ Kept sum after log' chains' free' tally' := by
    intro plain same
    cases same
    refine ⟨log, chains, free, tally, Effect.incRefused key l dummy ?_, kept⟩
    intro other l' again
    rw [found] at again
    cases again
    exact plain l'
  by_cases length : (hkvUnpack cdb.kvdata pos).valLen ≠ hkvListBytes
  · rw [incOld] at done
    simp only [if_pos length] at done
    refine refused ?_ done
    intro l' logged
    rcases kept.stored.unpack logged with ⟨header, _, whole⟩
    rw [whole] at length
    exact length rfl
  by_cases outside : cdb.countsSize ≤ (linksOf cdb.kvdata pos).countToUse
  · have above : countToUse cdb.kvdata (hkvUnpack cdb.kvdata pos).val ≥ cdb.countsSize := outside
    rw [incOld] at done
    simp only [if_neg length, if_pos above] at done
    refine refused ?_ done
    intro l' logged
    rcases (kept.counters.counters l' pos).mpr ⟨_, logged, rfl⟩ with ⟨bucket, member, inKeys⟩
    have use := ((kept.chained l').buckets bucket member).use pos inKeys
    have range := (kept.counters.shape.pool.range bucket.node (Or.inr ⟨l', mem_nodesOf member⟩)).2
    rw [use] at outside
    exact absurd outside (Nat.not_le_of_lt range)
  rcases (ok.resolve_left length).resolve_left outside with ⟨c, listed, small⟩
  rcases kept.onList_tally listed with ⟨⟨entry, logged, counter⟩, countIs⟩
  rw [countIs] at small
  rcases getHkvRaw_some kept.stored kept.indexed found with ⟨second, again, keyIs⟩
  have same : second = entry := Option.some.inj (again.symm.trans logged)
  subst same
  have store := SameStore.incOld done
  have bound := Nat.lt_of_le_of_lt kept.sized.used kept.sized.bound
  rcases incOld_counters kept.counters kept.stored bound logged counter small done with
    ⟨counted, links, chains', free', stored, counters⟩
  rw [← store.kvdataUsed] at stored
  refine ⟨{ log with links := links }, chains', free', _, ?_, kept.sized.sameStore store, stored,
    kept.indexed.sameStore store, counters⟩
  rw [counted]
  apply Effect.again key l dummy pos _ found
  rw [logged, ← keyIs, ← counter]

theorem step_effect (kept : Kept sum cdb log chains free tally) {call : Call} (ok : CallOk sum cdb call)
    {answer : Answer} {next : Instance} (stepped : step sum cdb call = some (answer, next)) :
    ∃ log' chains' free' tally', Effect sum cdb log.entries tally call answer log'.entries tally' ∧
      Kept sum next log' chains' free' tally' := by
  cases call with
  | put key val =>
      rcases Option.map_eq_some_iff.mp stepped with ⟨⟨uid, after⟩, put, same⟩
      cases same
      rcases put_effect kept ok.1 put with ⟨log', effect, kept'⟩
      exact ⟨log', chains, free, tally, effect, kept'⟩
  | inc key l dummy =>
      rcases Option.map_eq_some_iff.mp stepped with ⟨⟨count, after⟩, done, same⟩
      cases same
      cases found : getHkvRaw cdb (prepare sum key) with
      | none => exact inc_new_effect kept found (ok.1 found) done
      | some pos =>
          rw [inc, found] at done
          exact inc_old_effect kept found (ok.2 pos found) done

end

end SxeCdb
end LibKit
