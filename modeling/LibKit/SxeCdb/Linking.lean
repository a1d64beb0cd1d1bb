import LibKit.SxeCdb.Relinking

namespace LibKit
namespace SxeCdb

/-!
# Linking a key to a count

The last part of `sxe_cdb_instance_inc` gives a key that is on no chain its
new count: it joins the chain of a count that exists, or a node from the pool
is inserted for it.  The same is true of a key counted for the first time.
-/

section

variable {cdb : Instance} {log : Log} {chains : Nat → List Bucket} {free : List Nat}

/-! ## Linking a key -/

/-- A counter that gets a node from the pool is stored with its links. -/
theorem freeCountPop_stored (shape : Shape cdb log.links chains free) (stored : Stored cdb.kvdata cdb.kvdataUsed log)
    {l pos : Nat} {entry : Entry} (logged : log.entries pos = some entry) (counter : entry.content = .counter l)
    {popped : Instance} {c : Nat} (pop : freeCountPop cdb = some (c, popped)) :
    Stored (setLinks popped (hkvUnpack cdb.kvdata pos).val c 0 0).kvdata cdb.kvdataUsed
      { log with links := Function.update log.links pos ⟨c, 0, 0⟩ } := by
  rcases freeCountPop_frame shape pop with ⟨data, used, -, -, small, -, -⟩
  have storedPopped : Stored popped.kvdata popped.kvdataUsed log := by
    rw [data, used]
    exact stored
  have linksSmall : Links.Small ⟨c, 0, 0⟩ := ⟨small, Nat.two_pow_pos 32, Nat.two_pow_pos 32⟩
  have written := setLinks_stored storedPopped logged counter linksSmall
  rw [data, used] at written
  exact written

/-- Linking a key whose next count does not exist yet inserts a bucket. -/
theorem linkHkv_insert (shape : Shape cdb log.links chains free) (stored : Stored cdb.kvdata cdb.kvdataUsed log)
    {l pos : Nat} {entry : Entry} (logged : log.entries pos = some entry) (counter : entry.content = .counter l)
    (loose : ∀ l', ∀ other ∈ chains l', pos ∉ other.keys) {left right : List Bucket}
    (form : chains l = left ++ right) {thisC : Nat} (before : (nodesOf left).getLast? = some thisC)
    {countNew : Nat} (absent : ∀ bucket, right.head? = some bucket → bucket.count ≠ countNew) {after : Instance}
    (done : linkHkv cdb l pos (hkvUnpack cdb.kvdata pos).val thisC ((nodesOf right).head?.getD 0) countNew =
      some after) :
    ∃ c links rest, Stored after.kvdata cdb.kvdataUsed { log with links := links } ∧
      Shape after links (Function.update chains l (left ++ ⟨c, countNew % 2 ^ 48, [pos]⟩ :: right)) rest := by
  have positive : pos ≠ 0 := Nat.ne_of_gt (stored.positive logged)
  have thisNode : thisC ∈ nodesOf (chains l) := by
    rw [form, nodesOf_append]
    exact List.mem_append_left _ (List.mem_of_getLast? before)
  have notEmpty : left ≠ [] := by
    intro empty
    rw [empty] at before
    cases before
  have zeroNode := (shape.chained l).positive
  rw [form, nodesOf_append, List.mem_append, not_or] at zeroNode
  have thisNext : (cdb.counts thisC).next = (nodesOf right).head?.getD 0 := by
    have linked := (shape.chained l).linked
    rw [form, nodesOf_append] at linked
    rcases List.getLast?_eq_some_iff.mp before with ⟨front, nodes⟩
    rw [nodes, List.append_assoc] at linked
    exact (Linked.neighbours linked).2
  cases right with
  | nil =>
      simp only [nodesOf_nil, List.head?_nil, Option.getD_none, linkHkv, if_true] at done
      rcases Option.map_eq_some_iff.mp done with ⟨⟨c, popped⟩, pop, result⟩
      rcases freeCountPop_frame shape pop with ⟨-, -, lowIs, highIs, -, fresh, same⟩
      have apart : thisC ≠ c := fun equal => fresh l (equal ▸ thisNode)
      have written := freeCountPop_stored shape stored logged counter pop
      have afterCounts : after.counts = Function.update
          (Function.update popped.counts c ⟨countNew % 2 ^ 48, 0, thisC, pos⟩) thisC
          { Function.update popped.counts c ⟨countNew % 2 ^ 48, 0, thisC, pos⟩ thisC with next := c } := by
        rw [← result]
        rfl
      have afterHi : after.countsHi = Function.update cdb.countsHi l c := by rw [← result, ← highIs]; rfl
      have afterLo : after.countsLo = cdb.countsLo := by rw [← result, ← lowIs]; rfl
      have shaped : ∃ rest, Shape after (Function.update log.links pos ⟨c, 0, 0⟩)
          (Function.update chains l (left ++ ⟨c, countNew % 2 ^ 48, [pos]⟩ :: [])) rest := by
        apply shape.insert pop form loose positive
        · rw [afterCounts, Function.update_of_ne (Ne.symm apart), Function.update_self, before]
          rfl
        · intro other differ
          rw [afterCounts, before]
          by_cases here : other = thisC
          · subst here
            simp [differ]
          · have notThis : thisC ≠ other := Ne.symm here
            simp [here, differ, notThis]
        · exact Function.update_self _ _ _
        · intro other differ
          exact Function.update_of_ne differ _ _
        · rw [afterLo, if_neg notEmpty]
        · intro l' _
          rw [afterLo]
        · rw [afterHi, Function.update_self, if_pos rfl]
        · intro l' differ
          rw [afterHi, Function.update_of_ne differ]
        · rw [← result]; rfl
        · rw [← result]; rfl
        · rw [← result]; rfl
        · rw [← result]; rfl
      rcases shaped with ⟨rest, shaped⟩
      refine ⟨c, _, rest, ?_, shaped⟩
      rw [← result]
      exact written
  | cons bucket right =>
      have bucketMember : bucket ∈ chains l := by
        rw [form]
        exact List.mem_append_right _ List.mem_cons_self
      have bucketOk := (shape.chained l).buckets bucket bucketMember
      have nonzero : bucket.node ≠ 0 := fun zero => zeroNode.2 (zero ▸ List.mem_cons_self)
      have differs : ¬ (cdb.counts bucket.node).count = countNew := by
        rw [bucketOk.count]
        exact absent bucket rfl
      change linkHkv cdb l pos _ thisC bucket.node countNew = some after at done
      rw [linkHkv, if_neg nonzero, if_neg differs] at done
      rcases Option.map_eq_some_iff.mp done with ⟨⟨c, popped⟩, pop, result⟩
      rcases freeCountPop_frame shape pop with ⟨-, -, lowIs, highIs, -, fresh, same⟩
      have apart : thisC ≠ c := fun equal => fresh l (equal ▸ thisNode)
      have apartNext : bucket.node ≠ c := fun equal => fresh l (equal ▸ mem_nodesOf bucketMember)
      have written := freeCountPop_stored shape stored logged counter pop
      have afterCounts : after.counts =
          let first := Function.update popped.counts c ⟨countNew % 2 ^ 48, (popped.counts thisC).next, thisC, pos⟩
          let second := Function.update first thisC { first thisC with next := c }
          Function.update second bucket.node { second bucket.node with last := c } := by
        rw [← result]
        rfl
      have afterHi : after.countsHi = cdb.countsHi := by rw [← result, ← highIs]; rfl
      have afterLo : after.countsLo = cdb.countsLo := by rw [← result, ← lowIs]; rfl
      have shaped : ∃ rest, Shape after (Function.update log.links pos ⟨c, 0, 0⟩)
          (Function.update chains l (left ++ ⟨c, countNew % 2 ^ 48, [pos]⟩ :: bucket :: right)) rest := by
        apply shape.insert pop form loose positive
        · rw [afterCounts]
          dsimp only
          rw [Function.update_of_ne (Ne.symm apartNext), Function.update_of_ne (Ne.symm apart),
            Function.update_self, before, same l thisC thisNode, thisNext]
          rfl
        · intro other differ
          rw [afterCounts, before]
          by_cases here : other = thisC
          · subst here
            by_cases there : other = bucket.node
            · subst there
              simp [differ]
            · have notNext : bucket.node ≠ other := Ne.symm there
              simp [differ, there, notNext]
          · have notThis : thisC ≠ other := Ne.symm here
            by_cases there : other = bucket.node
            · subst there
              simp [differ, here, notThis]
            · have notNext : bucket.node ≠ other := Ne.symm there
              simp [here, differ, notThis, there, notNext]
        · exact Function.update_self _ _ _
        · intro other differ
          exact Function.update_of_ne differ _ _
        · rw [afterLo, if_neg notEmpty]
        · intro l' _
          rw [afterLo]
        · rw [afterHi, if_neg (List.cons_ne_nil _ _)]
        · intro l' _
          rw [afterHi]
        · rw [← result]; rfl
        · rw [← result]; rfl
        · rw [← result]; rfl
        · rw [← result]; rfl
      rcases shaped with ⟨rest, shaped⟩
      refine ⟨c, _, rest, ?_, shaped⟩
      rw [← result]
      exact written

theorem front_links {links : Nat → Links} {bucket : Bucket} {pos next : Nat} (fresh : pos ∉ bucket.keys)
    (head : bucket.keys.head? = some next) :
    let after := Function.update (Function.update links pos ⟨bucket.node, next, 0⟩) next
      { links next with lastHkvPos := pos }
    after pos = ⟨bucket.node, next, 0⟩ ∧
      ∀ other, other ≠ pos → after other =
        { links other with
          lastHkvPos := if bucket.keys.head? = some other then pos else (links other).lastHkvPos } := by
  have apart : pos ≠ next := fun equal => fresh (equal ▸ List.mem_of_mem_head? head)
  dsimp only
  refine ⟨?_, ?_⟩
  · rw [Function.update_of_ne apart, Function.update_self]
  · intro other differ
    rw [head]
    by_cases here : other = next
    · subst here
      simp
    · have notNext : next ≠ other := Ne.symm here
      simp [here, differ, notNext]

/-- Linking a key whose next count exists puts it in front of that chain. -/
theorem linkHkv_join (shape : Shape cdb log.links chains free) (stored : Stored cdb.kvdata cdb.kvdataUsed log)
    (keyed : Keyed log.entries chains) (bound : cdb.kvdataUsed < 2 ^ 32) {l pos : Nat} {entry : Entry}
    (logged : log.entries pos = some entry) (counter : entry.content = .counter l)
    (loose : ∀ l', ∀ other ∈ chains l', pos ∉ other.keys) {left right : List Bucket} {bucket : Bucket}
    (form : chains l = left ++ bucket :: right) (nonempty : bucket.keys ≠ []) (thisC : Nat) :
    ∃ after links, linkHkv cdb l pos (hkvUnpack cdb.kvdata pos).val thisC bucket.node bucket.count = some after ∧
      Stored after.kvdata cdb.kvdataUsed { log with links := links } ∧
      Shape after links
        (Function.update chains l (left ++ ⟨bucket.node, bucket.count, pos :: bucket.keys⟩ :: right)) free := by
  have member := (shape.bucket_node form).1
  have ok := (shape.chained l).buckets bucket member
  have positive : pos ≠ 0 := Nat.ne_of_gt (stored.positive logged)
  have nodePositive : bucket.node ≠ 0 := fun zero => (shape.chained l).positive (zero ▸ mem_nodesOf member)
  have nodeSmall : bucket.node < 2 ^ 32 :=
    Nat.lt_trans (shape.pool.range _ (Or.inr ⟨l, mem_nodesOf member⟩)).2 shape.pool.size_lt
  cases head : bucket.keys.head? with
  | none => exact absurd (List.head?_eq_none_iff.mp head) nonempty
  | some next =>
      have first : (cdb.counts bucket.node).hkv1 = next := by rw [ok.first, head]; rfl
      have nextKey : next ∈ bucket.keys := List.mem_of_mem_head? head
      have apart : next ≠ pos := fun equal => loose l bucket member (equal ▸ nextKey)
      rcases keyed l bucket member next nextKey with ⟨second, nextLogged, nextCounter⟩
      have small : Links.Small ⟨bucket.node, next, 0⟩ :=
        ⟨nodeSmall, stored.pos_lt bound nextLogged, Nat.two_pow_pos 32⟩
      have stored1 := setLinks_stored stored logged counter small
      have stored2 := @setLastHkvPos_stored
        (setLinks cdb (hkvUnpack cdb.kvdata pos).val bucket.node next 0) _ next l second stored1 nextLogged
        nextCounter pos (stored.pos_lt bound logged)
      have links := @front_links log.links bucket pos next (loose l bucket member) head
      simp only [Function.update_of_ne apart] at stored2
      refine ⟨modifyCount (setLastHkvPos (setLinks cdb (hkvUnpack cdb.kvdata pos).val bucket.node next 0)
          (hkvUnpack (setLinks cdb (hkvUnpack cdb.kvdata pos).val bucket.node next 0).kvdata next).val pos)
          bucket.node (fun count => { count with hkv1 := pos }),
        Function.update (Function.update log.links pos ⟨bucket.node, next, 0⟩) next
          { log.links next with lastHkvPos := pos }, ?_, ?_, ?_⟩
      · rw [linkHkv, if_neg nodePositive, if_pos ok.count, first]
      · exact stored2
      · refine shape.push ?_ form loose positive ?_ ?_ ?_
        · exact ⟨rfl, rfl, rfl, rfl, rfl, rfl⟩
        · rfl
        · rw [first]
          exact links.1
        · exact links.2

/-! ## A new key -/

/-- A new key for which there is no count of one yet. -/
theorem incNew_insert (shape : Shape cdb log.links chains free) (stored : Stored cdb.kvdata cdb.kvdataUsed log)
    {l pos : Nat} {entry : Entry} (logged : log.entries pos = some entry) (counter : entry.content = .counter l)
    (loose : ∀ l', ∀ other ∈ chains l', pos ∉ other.keys)
    (higher : ∀ bucket, (chains l).head? = some bucket → 1 < bucket.count) {after : Instance} {count : Nat}
    (done : incNew cdb l pos = some (count, after)) :
    count = 1 ∧ ∃ c links rest, Stored after.kvdata cdb.kvdataUsed { log with links := links } ∧
      Shape after links (Function.update chains l (⟨c, 1, [pos]⟩ :: chains l)) rest := by
  have positive : pos ≠ 0 := Nat.ne_of_gt (stored.positive logged)
  have lowIs := (shape.chained l).low
  cases form : chains l with
  | nil =>
      rw [form] at lowIs
      change cdb.countsLo l = 0 at lowIs
      rw [incNew] at done
      dsimp only at done
      rw [if_pos lowIs] at done
      rcases Option.map_eq_some_iff.mp done with ⟨⟨c, popped⟩, pop, result⟩
      rcases freeCountPop_frame shape pop with ⟨-, -, popLow, popHigh, -, fresh, same⟩
      have written := freeCountPop_stored shape stored logged counter pop
      have countIs : 1 = count := congrArg Prod.fst result
      have afterIs := congrArg Prod.snd result
      dsimp only at afterIs
      refine ⟨countIs.symm, c, Function.update log.links pos ⟨c, 0, 0⟩, ?_⟩
      have shaped : ∃ rest, Shape after (Function.update log.links pos ⟨c, 0, 0⟩)
          (Function.update chains l ([] ++ ⟨c, 1, [pos]⟩ :: [])) rest := by
        apply shape.insert pop form loose positive
        · rw [← afterIs]
          exact Function.update_self _ _ _
        · intro other differ
          rw [← afterIs]
          exact Function.update_of_ne differ _ _
        · exact Function.update_self _ _ _
        · intro other differ
          exact Function.update_of_ne differ _ _
        · rw [← afterIs]
          exact Function.update_self _ _ _
        · intro l' differ
          rw [← afterIs, ← popLow]
          exact Function.update_of_ne differ _ _
        · rw [← afterIs]
          exact Function.update_self _ _ _
        · intro l' differ
          rw [← afterIs, ← popHigh]
          exact Function.update_of_ne differ _ _
        · rw [← afterIs]; rfl
        · rw [← afterIs]; rfl
        · rw [← afterIs]; rfl
        · rw [← afterIs]; rfl
      rcases shaped with ⟨rest, shaped⟩
      refine ⟨rest, ?_, shaped⟩
      rw [← afterIs]
      exact written
  | cons bucket right =>
      have member : bucket ∈ chains l := by
        rw [form]
        exact List.mem_cons_self
      have ok := (shape.chained l).buckets bucket member
      have nodePositive : bucket.node ≠ 0 := fun zero => (shape.chained l).positive (zero ▸ mem_nodesOf member)
      rw [form] at lowIs higher
      change cdb.countsLo l = bucket.node at lowIs
      have above : 1 < (cdb.counts bucket.node).count := by
        rw [ok.count]
        exact higher bucket rfl
      rw [incNew] at done
      dsimp only at done
      rw [lowIs, if_neg nodePositive, if_pos above] at done
      rcases Option.map_eq_some_iff.mp done with ⟨⟨c, popped⟩, pop, result⟩
      rcases freeCountPop_frame shape pop with ⟨-, -, popLow, popHigh, -, fresh, same⟩
      have apart : bucket.node ≠ c := fun equal => fresh l (equal ▸ mem_nodesOf member)
      have written := freeCountPop_stored shape stored logged counter pop
      have countIs : 1 = count := congrArg Prod.fst result
      have afterIs := congrArg Prod.snd result
      dsimp only at afterIs
      have afterCounts : after.counts =
          Function.update (Function.update popped.counts c ⟨1, popped.countsLo l, 0, pos⟩) bucket.node
            { Function.update popped.counts c ⟨1, popped.countsLo l, 0, pos⟩ bucket.node with last := c } := by
        rw [← afterIs]
        rfl
      refine ⟨countIs.symm, c, Function.update log.links pos ⟨c, 0, 0⟩, ?_⟩
      have shaped : ∃ rest, Shape after (Function.update log.links pos ⟨c, 0, 0⟩)
          (Function.update chains l ([] ++ ⟨c, 1, [pos]⟩ :: bucket :: right)) rest := by
        apply shape.insert pop form loose positive
        · rw [afterCounts, Function.update_of_ne (Ne.symm apart), Function.update_self, popLow, lowIs]
          rfl
        · intro other differ
          rw [afterCounts]
          by_cases here : other = bucket.node
          · subst here
            simp [differ]
          · have notNext : bucket.node ≠ other := Ne.symm here
            simp [differ, here, notNext]
        · exact Function.update_self _ _ _
        · intro other differ
          exact Function.update_of_ne differ _ _
        · rw [← afterIs]
          exact Function.update_self _ _ _
        · intro l' differ
          rw [← afterIs, ← popLow]
          exact Function.update_of_ne differ _ _
        · rw [← afterIs, if_neg (List.cons_ne_nil _ _), ← popHigh]
          rfl
        · intro l' _
          rw [← afterIs, ← popHigh]
          rfl
        · rw [← afterIs]; rfl
        · rw [← afterIs]; rfl
        · rw [← afterIs]; rfl
        · rw [← afterIs]; rfl
      rcases shaped with ⟨rest, shaped⟩
      refine ⟨rest, ?_, shaped⟩
      rw [← afterIs]
      exact written

/-- A new key that joins the keys counted once. -/
theorem incNew_join (shape : Shape cdb log.links chains free) (stored : Stored cdb.kvdata cdb.kvdataUsed log)
    (keyed : Keyed log.entries chains) (bound : cdb.kvdataUsed < 2 ^ 32) {l pos : Nat} {entry : Entry}
    (logged : log.entries pos = some entry) (counter : entry.content = .counter l)
    (loose : ∀ l', ∀ other ∈ chains l', pos ∉ other.keys) {right : List Bucket} {bucket : Bucket}
    (form : chains l = bucket :: right) (nonempty : bucket.keys ≠ []) (once : bucket.count ≤ 1) :
    ∃ after links, incNew cdb l pos = some (1, after) ∧
      Stored after.kvdata cdb.kvdataUsed { log with links := links } ∧
      Shape after links
        (Function.update chains l (⟨bucket.node, bucket.count, pos :: bucket.keys⟩ :: right)) free := by
  have form' : chains l = [] ++ bucket :: right := form
  have member := (shape.bucket_node form').1
  have ok := (shape.chained l).buckets bucket member
  have positive : pos ≠ 0 := Nat.ne_of_gt (stored.positive logged)
  have nodePositive : bucket.node ≠ 0 := fun zero => (shape.chained l).positive (zero ▸ mem_nodesOf member)
  have nodeSmall : bucket.node < 2 ^ 32 :=
    Nat.lt_trans (shape.pool.range _ (Or.inr ⟨l, mem_nodesOf member⟩)).2 shape.pool.size_lt
  have lowIs : cdb.countsLo l = bucket.node := by
    rw [(shape.chained l).low, form]
    rfl
  have notAbove : ¬ 1 < (cdb.counts bucket.node).count := by
    rw [ok.count]
    omega
  cases head : bucket.keys.head? with
  | none => exact absurd (List.head?_eq_none_iff.mp head) nonempty
  | some next =>
      have first : (cdb.counts bucket.node).hkv1 = next := by rw [ok.first, head]; rfl
      have nextKey : next ∈ bucket.keys := List.mem_of_mem_head? head
      have apart : next ≠ pos := fun equal => loose l bucket member (equal ▸ nextKey)
      rcases keyed l bucket member next nextKey with ⟨second, nextLogged, nextCounter⟩
      have small : Links.Small ⟨bucket.node, next, 0⟩ :=
        ⟨nodeSmall, stored.pos_lt bound nextLogged, Nat.two_pow_pos 32⟩
      have stored1 := setLastHkvPos_stored stored nextLogged nextCounter (stored.pos_lt bound logged)
      have place := unpack_val_eq stored stored1 logged logged
      have stored2 := @setLinks_stored (setLastHkvPos cdb (hkvUnpack cdb.kvdata next).val pos) _ pos l entry
        stored1 logged counter ⟨bucket.node, next, 0⟩ small
      have links := @front_links log.links bucket pos next (loose l bucket member) head
      rw [place, Function.update_comm apart] at stored2
      refine ⟨modifyCount (setLinks (setLastHkvPos cdb (hkvUnpack cdb.kvdata next).val pos)
          (hkvUnpack cdb.kvdata pos).val bucket.node next 0) bucket.node (fun count => { count with hkv1 := pos }),
        Function.update (Function.update log.links pos ⟨bucket.node, next, 0⟩) next
          { log.links next with lastHkvPos := pos }, ?_, ?_, ?_⟩
      · rw [incNew]
        dsimp only
        rw [lowIs, if_neg nodePositive, if_neg notAbove, first]
      · exact stored2
      · refine shape.push ?_ form' loose positive ?_ ?_ ?_
        · exact ⟨rfl, rfl, rfl, rfl, rfl, rfl⟩
        · rfl
        · rw [first]
          exact links.1
        · exact links.2

end

end SxeCdb
end LibKit
