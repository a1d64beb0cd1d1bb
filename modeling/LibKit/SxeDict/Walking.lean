import LibKit.SxeDict.Refinement

namespace LibKit
namespace SxeDict

/-!
# Walking over a dictionary

The chains of a table hold each node once, whatever calls have been made, so a walk
visits each entry once and the finalization frees each node and each copied key
once.
-/

variable {V U : Type}

/-! ## The functions -/

/-- The key that the callback of a walk can read. -/
inductive Seen where
  | bytes (key : List UInt8)
  | hash (sum : UInt64)
deriving DecidableEq

/-- The key and the length that are passed to the callback. -/
def seen (flags : Flags) (node : Node V) : Option Seen :=
  match node.key with
  | .hash sum => some (.hash sum)
  | .bytes buffer =>
      if flags.string then (CString.strlen buffer).map fun length => .bytes (buffer.take length)
      else if node.len ≤ buffer.length then some (.bytes (buffer.take node.len)) else none

/-- The loops of `sxe_dict_walk` over the nodes of the chains, with a callback that does not
change the values. -/
def walkNodes (flags : Flags) (nodes : List (Node V)) (func : Seen → Option V → U → Bool × U) :
    List Nat → U → Option (Bool × U)
  | [], user => some (true, user)
  | slot :: slots, user => do
      let node ← nodes[slot]?
      let key ← seen flags node
      let (more, user) := func key node.value user
      if more then walkNodes flags nodes func slots user else some (false, user)

/-- `sxe_dict_walk` -/
def walk (dic : Dict V) (func : Seen → Option V → U → Bool × U) (user : U) : Option (Bool × U) :=
  walkNodes dic.flags dic.nodes func (dic.table.getD []).flatten user

inductive Freed where
  | key (slot : Nat)
  | node (slot : Nat)
  | table
deriving DecidableEq

/-- One node in `sxe_dict_node_free`. -/
def nodeFree (flags : Flags) (slot : Nat) : List Freed :=
  (if flags.nocopy || flags.hashed then [] else [.key slot]) ++ [.node slot]

/-- `sxe_dict_fini`, with the chains from their first nodes on. -/
def fini (dic : Dict V) : List Freed := (dic.table.getD []).flatten.flatMap (nodeFree dic.flags) ++ [.table]

/-! ## Each node is in one place -/

/-- A chain that gets a node gives the table one node more. -/
theorem flatten_modify_perm {slot : Nat} {grow : List Nat → List Nat}
    (grown : ∀ chain, (grow chain).Perm (slot :: chain))
    {table : List (List Nat)} {index : Nat} (inside : index < table.length) :
    (table.modify index grow).flatten.Perm (slot :: table.flatten) := by
  induction table generalizing index with
  | nil => exact absurd inside (Nat.not_lt_zero _)
  | cons chain table ih =>
      cases index with
      | zero =>
          rw [List.modify_zero_cons, List.flatten_cons, List.flatten_cons, ← List.cons_append]
          exact (grown chain).append_right _
      | succ index =>
          rw [List.modify_succ_cons, List.flatten_cons, List.flatten_cons]
          exact ((ih (Nat.lt_of_succ_lt_succ inside)).append_left chain).trans List.perm_middle

structure Whole (dic : Dict V) : Prop where
  length : ∀ table, dic.table = some table → table.length = dic.size ∧ 0 < dic.size
  once : (dic.table.getD []).flatten.Perm (List.range dic.nodes.length)

theorem init_whole (initialSize load growth : Nat) (flags : Flags) :
    Whole (init (V := V) initialSize load growth flags) := by
  by_cases zero : initialSize = 0
  · refine ⟨?_, ?_⟩
    · intro table found
      rw [init, if_pos zero] at found
      cases found
    · rw [init, if_pos zero]
      exact List.Perm.refl _
  · refine ⟨?_, ?_⟩
    · intro table found
      rw [init, if_neg zero] at found
      cases found
      exact ⟨List.length_replicate, Nat.pos_of_ne_zero zero⟩
    · rw [init, if_neg zero, Option.getD_some, List.flatten_replicate_nil]
      exact List.Perm.refl _

section

variable {sum : List UInt8 → UInt64} {dic after : Dict V}

theorem Whole.ensureTable (whole : Whole dic) : Whole (ensureTable dic) := by
  unfold SxeDict.ensureTable
  split
  · rename_i missing
    have once := whole.once
    rw [missing] at once
    refine ⟨?_, once⟩
    intro table found
    cases found
    exact ⟨rfl, Nat.one_pos⟩
  · exact whole

theorem reinsert_perm {flags : Flags} {nodes : List (Node V)} {newSize : Nat} {slots : List Nat}
    {table result : List (List Nat)}
    (length : table.length = newSize)
    (folded : slots.foldlM (reinsertWhenResizing sum flags nodes newSize) table = some result) :
    result.length = newSize ∧ (slots ≠ [] → 0 < newSize) ∧ result.flatten.Perm (slots ++ table.flatten) := by
  induction slots generalizing table with
  | nil =>
      cases folded
      exact ⟨length, fun none => absurd rfl none, List.Perm.refl _⟩
  | cons slot slots ih =>
      rw [List.foldlM_cons] at folded
      rcases Option.bind_eq_some_iff.mp folded with ⟨next, inserted, rest⟩
      rcases Option.bind_eq_some_iff.mp inserted with ⟨node, -, hashed⟩
      rcases Option.bind_eq_some_iff.mp hashed with ⟨hash, -, made⟩
      split at made
      · cases made
      · rename_i nonzero
        cases made
        have positive := Nat.pos_of_ne_zero nonzero
        have inside : hash.toNat % newSize < table.length := by
          rw [length]
          exact Nat.mod_lt _ positive
        rcases ih (by rw [List.length_modify, length]) rest with ⟨newLength, -, perm⟩
        refine ⟨newLength, fun _ => positive, perm.trans ?_⟩
        have one := flatten_modify_perm (fun chain => List.Perm.refl (slot :: chain)) inside
        exact (one.append_left slots).trans List.perm_middle

theorem Whole.growIfDue (whole : Whole dic) {hash : UInt64} {fits : Bool}
    (grown : growIfDue sum dic hash = some (fits, after)) :
    Whole after ∧ after.flags = dic.flags ∧ (dic.table.isSome → after.table.isSome) := by
  rw [SxeDict.growIfDue] at grown
  split at grown
  · rename_i due
    rw [resize] at grown
    split at grown
    · cases grown
      exact ⟨whole, rfl, id⟩
    · rcases Option.bind_eq_some_iff.mp grown with ⟨table, folded, made⟩
      cases made
      rcases reinsert_perm List.length_replicate folded with ⟨length, positive, perm⟩
      rw [List.flatten_replicate_nil, List.append_nil] at perm
      -- a table is only grown where a chain has a node
      have used : (dic.table.getD []).flatten ≠ [] := by
        intro none
        have blank : bucket dic hash = [] := by
          rw [bucket, List.getD_eq_getElem?_getD]
          cases found : (dic.table.getD [])[hash.toNat % dic.size]? with
          | none => rfl
          | some chain => exact List.flatten_eq_nil_iff.mp none chain (List.mem_of_getElem? found)
        rw [resizeDue, blank] at due
        cases due
      refine ⟨⟨?_, perm.trans whole.once⟩, rfl, fun _ => rfl⟩
      intro other same
      cases same
      exact ⟨length, positive used⟩
  · cases grown
    exact ⟨whole, rfl, id⟩

theorem Whole.append (whole : Whole dic) (made : dic.table.isSome) (hash : UInt64) (key : Key) (len : Nat) :
    Whole (appendNode dic hash key len) := by
  rcases Option.isSome_iff_exists.mp made with ⟨table, found⟩
  have size := whole.length table found
  have once := whole.once
  rw [found] at once
  refine ⟨?_, ?_⟩
  · intro other same
    rw [appendNode, found] at same
    cases same
    exact ⟨by rw [List.length_modify, size.1]; rfl, size.2⟩
  · have inside : hash.toNat % dic.size < table.length := by
      rw [size.1]
      exact Nat.mod_lt _ size.2
    have one := flatten_modify_perm (fun chain => List.perm_append_singleton dic.nodes.length chain) inside
    rw [appendNode, found, List.length_append, List.length_singleton, List.range_succ]
    exact one.trans ((once.cons _).trans (List.perm_append_singleton _ _).symm)

theorem Whole.add (whole : Whole dic) {key : List UInt8} {len : Nat} {slot : Option Nat}
    (added : add sum dic key len = some (slot, after)) : Whole after ∧ after.flags = dic.flags := by
  rcases Option.bind_eq_some_iff.mp added with ⟨length, -, hashed⟩
  rcases Option.bind_eq_some_iff.mp hashed with ⟨hash, -, entered⟩
  have ensured : (SxeDict.ensureTable dic).flags = dic.flags ∧ (SxeDict.ensureTable dic).table.isSome := by
    unfold SxeDict.ensureTable
    split
    · exact ⟨rfl, rfl⟩
    · rename_i found
      exact ⟨rfl, by rw [found]; rfl⟩
  rw [addEntry] at entered
  split at entered
  · cases entered
  · rename_i bigger grown
    cases entered
    exact ⟨(whole.ensureTable.growIfDue grown).1, (whole.ensureTable.growIfDue grown).2.1.trans ensured.1⟩
  · rename_i bigger grown
    rcases whole.ensureTable.growIfDue grown with ⟨held, flags, made⟩
    dsimp only at entered
    split at entered
    · cases entered
    · cases entered
      exact ⟨held, flags.trans ensured.1⟩
    · cases entered
      exact ⟨held.append (made ensured.2) hash _ _, flags.trans ensured.1⟩

theorem Whole.step (whole : Whole dic) {op : Op V} {answers : List (Answer V)}
    (stepped : step sum dic op = some (answers, after)) :
    Whole after ∧ after.flags = dic.flags := by
  cases op with
  | add key len =>
      rcases Option.map_eq_some_iff.mp stepped with ⟨⟨slot, next⟩, added, same⟩
      cases same
      exact whole.add added
  | store slot value =>
      cases stepped
      refine ⟨⟨whole.length, ?_⟩, rfl⟩
      rw [store, List.length_modify]
      exact whole.once
  | find key len =>
      rcases Option.map_eq_some_iff.mp stepped with ⟨found, -, same⟩
      cases same
      exact ⟨whole, rfl⟩

theorem Whole.run (whole : Whole dic) {ops : List (Op V)} {answers : List (Answer V)}
    (ran : run sum dic ops = some (answers, after)) :
    Whole after ∧ after.flags = dic.flags := by
  induction ops generalizing dic answers with
  | nil =>
      cases ran
      exact ⟨whole, rfl⟩
  | cons op ops ih =>
      rcases Option.bind_eq_some_iff.mp ran with ⟨⟨now, next⟩, stepped, rest⟩
      rcases Option.bind_eq_some_iff.mp rest with ⟨⟨more, last⟩, later, same⟩
      cases same
      have held := whole.step stepped
      exact ⟨(ih held.1 later).1, (ih held.1 later).2.trans held.2⟩

end

/-! ## A walk -/

def seenAs (sum : List UInt8 → UInt64) (flags : Flags) (key : List UInt8) : Seen :=
  if flags.hashed then .hash (sum key) else .bytes key

/-- The callback is called for each entry until it returns false. -/
def visitAll (func : Seen → Option V → U → Bool × U) : List (Seen × Option V) → U → Bool × U
  | [], user => (true, user)
  | (key, value) :: entries, user =>
      let (more, user) := func key value user
      if more then visitAll func entries user else (false, user)

/-- A walk calls its callback for the entries in some order, each of them once. -/
def WalksAll (dic : Dict V) (entries : List (Seen × Option V)) : Prop :=
  ∃ order, order.Perm entries ∧
    ∀ (U : Type) (func : Seen → Option V → U → Bool × U) (user : U), walk dic func user =
      some (visitAll func order user)

theorem seen_eq {sum : List UInt8 → UInt64} {flags : Flags} {node : Node V} {key : List UInt8}
    (stores : Stores sum flags node key) :
    seen flags node = some (seenAs sum flags key) := by
  rw [Stores] at stores
  by_cases hashed : flags.hashed = true
  · rw [if_pos hashed] at stores
    rw [seen, stores, seenAs, if_pos hashed]
  · rw [if_neg hashed] at stores
    rcases stores with ⟨buffer, isKey, content⟩
    rw [seen, isKey, seenAs, if_neg hashed]
    dsimp only
    by_cases string : flags.string = true
    · rw [if_pos string] at content ⊢
      rw [CString.strlen, if_pos content.1, Option.map_some, CString.take_text_length, content.2]
    · rw [if_neg string] at content ⊢
      rw [content.1, if_pos content.2.1, content.2.2.1]

theorem filterMap_range {α : Type} (list : List α) :
    (List.range list.length).filterMap (fun index => list[index]?) = list := by
  induction list with
  | nil => rfl
  | cons a list ih =>
      rw [List.length_cons, List.range_succ_eq_map, List.filterMap_cons, List.getElem?_cons_zero, List.filterMap_map]
      exact congrArg (a :: ·) ih

section

variable {sum : List UInt8 → UInt64} {used : Set (List UInt8)} {dic : Dict V} {spec : Spec V}

/-- The entries of the map that a dictionary represents. -/
def entriesOf (sum : List UInt8 → UInt64) (flags : Flags) (spec : Spec V) : List (Seen × Option V) :=
  (spec.keys.map (seenAs sum flags)).zip spec.values

/-- The entry in a slot. -/
theorem Represents.entry (represents : Represents sum used dic spec) {slot : Nat} (inside : slot < dic.nodes.length) :
    ∃ node key, dic.nodes[slot]? = some node ∧ seen dic.flags node = some key ∧
      (entriesOf sum dic.flags spec)[slot]? = some (key, node.value) := by
  have node := List.getElem?_eq_getElem inside
  have bound : slot < spec.keys.length := by rw [← represents.inv.nodes]; exact inside
  have key := List.getElem?_eq_getElem bound
  refine ⟨_, _, node, seen_eq (represents.inv.stores slot _ _ node key), ?_⟩
  rw [entriesOf, List.getElem?_zip_eq_some, List.getElem?_map, key, ← represents.values, List.getElem?_map, node]
  exact ⟨rfl, rfl⟩

theorem walkNodes_eq (represents : Represents sum used dic spec) {slots : List Nat}
    (inside : ∀ slot ∈ slots, slot < dic.nodes.length) (func : Seen → Option V → U → Bool × U) (user : U) :
    walkNodes dic.flags dic.nodes func slots user =
      some (visitAll func (slots.filterMap fun slot => (entriesOf sum dic.flags spec)[slot]?) user) := by
  induction slots generalizing user with
  | nil => rfl
  | cons slot slots ih =>
      rcases represents.entry (inside slot List.mem_cons_self) with ⟨node, key, here, shown, entry⟩
      have rest := fun user => ih (fun other member => inside other (List.mem_cons_of_mem _ member)) user
      rw [walkNodes, here, List.filterMap_cons, entry, visitAll, Option.bind_eq_bind, Option.bind_some, shown,
        Option.bind_eq_bind, Option.bind_some]
      dsimp only
      split
      · exact rest _
      · rfl

theorem Represents.walksAll (represents : Represents sum used dic spec) (whole : Whole dic) :
    WalksAll dic (entriesOf sum dic.flags spec) := by
  have length : (entriesOf sum dic.flags spec).length = dic.nodes.length := by
    rw [entriesOf, List.length_zip, List.length_map, ← represents.values, List.length_map, represents.inv.nodes,
      Nat.min_self]
  refine ⟨_, ?_, fun U func user => walkNodes_eq represents ?_ func user⟩
  · have perm := whole.once.filterMap fun slot => (entriesOf sum dic.flags spec)[slot]?
    rwa [← length, filterMap_range] at perm
  · intro slot member
    exact List.mem_range.mp (whole.once.mem_iff.mp member)

end

/-- In every key mode, after calls that meet their conditions, a walk visits each entry of the map
once, with its latest value. -/
theorem walk_visits_once (sum : List UInt8 → UInt64)
    (used : Set (List UInt8)) (initialSize load growth : Nat) (flags : Flags)
    (injective : flags.hashed = true → Set.InjOn sum used) (ops : List (Op V))
    (ok : RunOk sum used (init initialSize load growth flags) ops) (few : (addedKeys ops).dedup.length < 2 ^ 32) :
    ∃ dic, run sum (init initialSize load growth flags) ops = some ((Spec.run Spec.empty ops).1, dic) ∧
      WalksAll dic (entriesOf sum flags (Spec.run Spec.empty ops).2) := by
  have start : Represents sum used (init (V := V) initialSize load growth flags) Spec.empty :=
    ⟨init_inv sum used initialSize load growth flags, rfl, injective⟩
  have counted := Spec.run_count ops
  rcases run_refines ops start ok (counted ▸ few) with ⟨dic, ran, represents, same⟩
  have walks := represents.walksAll ((init_whole initialSize load growth flags).run ran).1
  rw [same] at walks
  exact ⟨dic, ran, walks⟩

theorem walk_visits_once_strings :
    ∃ dic, run byteSum (init 1 100 2 ⟨false, true, false⟩)
        [.add [97, 0] 1, .store 0 (some 7), .add [98, 99, 0] 2, .store 1 (some 8), .add [97, 0] 0] =
          some ([.pointer (some 0), .pointer (some 1), .pointer (some 0)], dic) ∧
      WalksAll dic [(.bytes [97], some 7), (.bytes [98, 99], some 8)] :=
  walk_visits_once byteSum Set.univ 1 100 2 ⟨false, true,
    false⟩ (by intro hashed; cases hashed) _ (by decide) (by decide)

/-! ## The end of a dictionary -/

theorem mem_nodeFree {flags : Flags} {slot : Nat} {freed : Freed} :
    freed ∈ nodeFree flags slot ↔ freed = .node slot ∨ freed = .key slot ∧ (flags.nocopy || flags.hashed) = false := by
  rw [nodeFree]
  by_cases shared : (flags.nocopy || flags.hashed) = true
  · simp [shared]
  · simp [shared, or_comm]

theorem nodeFree_nodup (flags : Flags) (slot : Nat) : (nodeFree flags slot).Nodup := by
  rw [nodeFree]
  split
  · exact List.nodup_singleton _
  · refine List.nodup_cons.mpr ⟨?_, List.nodup_singleton _⟩
    intro member
    cases List.mem_singleton.mp member

/-- After any calls that return, the finalization frees each node, each key that was copied and the
table, and nothing twice. -/
theorem fini_frees_once (sum : List UInt8 → UInt64) (initialSize load growth : Nat) (flags : Flags)
    (ops : List (Op V)) (answers : List (Answer V)) (dic : Dict V)
    (ran : run sum (init initialSize load growth flags) ops = some (answers, dic)) :
    (fini dic).Nodup ∧ ∀ freed, freed ∈ fini dic ↔ freed = .table ∨
      ∃ slot, slot < dic.nodes.length ∧ (freed = .node slot ∨ freed = .key slot ∧
        (flags.nocopy || flags.hashed) = false) := by
  rcases (init_whole initialSize load growth flags).run ran with ⟨whole, same⟩
  have isFlags : dic.flags = flags := same
  have distinct : (dic.table.getD []).flatten.Nodup := whole.once.nodup_iff.mpr List.nodup_range
  rw [fini, isFlags]
  refine ⟨List.nodup_append.mpr ⟨?_, List.nodup_singleton _, ?_⟩, ?_⟩
  · refine List.nodup_flatMap.mpr ⟨fun slot _ => nodeFree_nodup flags slot, distinct.imp ?_⟩
    intro first second different freed inFirst inSecond
    rcases mem_nodeFree.mp inFirst with rfl | ⟨rfl, -⟩
    · rcases mem_nodeFree.mp inSecond with both | ⟨both, -⟩
      · exact different (Freed.node.inj both)
      · cases both
    · rcases mem_nodeFree.mp inSecond with both | ⟨both, -⟩
      · cases both
      · exact different (Freed.key.inj both)
  · rintro freed member other last rfl
    rcases List.mem_flatMap.mp member with ⟨slot, -, inside⟩
    rw [List.mem_singleton.mp last] at inside
    rcases mem_nodeFree.mp inside with absent | ⟨absent, -⟩
    · cases absent
    · cases absent
  · intro freed
    rw [List.mem_append, List.mem_singleton, List.mem_flatMap, or_comm]
    refine or_congr Iff.rfl (exists_congr fun slot => ?_)
    rw [whole.once.mem_iff, List.mem_range, mem_nodeFree]

theorem fini_frees_once_strings :
    ∃ answers, ∃ dic : Dict Nat,
      run byteSum (init 1 100 2 ⟨false, true, false⟩) [.add [97, 0] 1, .add [98, 99, 0] 2] = some (answers, dic) ∧
        (fini dic).Nodup := by
  have returns : (run (V := Nat) byteSum (init 1 100 2 ⟨false, true, false⟩) [.add [97, 0] 1,
    .add [98, 99, 0] 2]).isSome := by
    decide
  rcases Option.isSome_iff_exists.mp returns with ⟨⟨answers, dic⟩, ran⟩
  exact ⟨answers, dic, ran, (fini_frees_once byteSum 1 100 2 ⟨false, true, false⟩ _ answers dic ran).1⟩

end SxeDict
end LibKit
