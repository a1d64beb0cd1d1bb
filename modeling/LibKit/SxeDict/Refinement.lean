import LibKit.SxeDict.Model

namespace LibKit
namespace SxeDict

/-!
# Every key mode is a map

The abstract map lists its distinct keys in the order in which they were
first added, so that a value pointer is the position of its key.  A key is
the byte string denoted by a pointer and a length.  The invariant ties the
three places where the code computes with a key: the bucket chosen at add and
find time, the bucket recomputed from the stored key when the table grows,
and the mode-specific comparison.
-/

variable {V : Type}

/-! ## The abstract map -/

/-- The bytes denoted by a key pointer and a length, where a length of zero
asks for the C string at the pointer. -/
def denotes (key : List UInt8) (len : Nat) : List UInt8 :=
  key.take (if len = 0 then (CString.text key).length else len)

/-- Distinct keys in order of insertion, each with the value last stored. -/
structure Spec (V : Type) where
  keys : List (List UInt8)
  values : List (Option V)

namespace Spec

def empty : Spec V := ⟨[], []⟩

def add (spec : Spec V) (key : List UInt8) : Nat × Spec V :=
  if key ∈ spec.keys then (spec.keys.idxOf key, spec)
  else (spec.keys.length, ⟨spec.keys ++ [key], spec.values ++ [none]⟩)

def store (spec : Spec V) (slot : Nat) (value : Option V) : Spec V :=
  { spec with values := spec.values.set slot value }

def find (spec : Spec V) (key : List UInt8) : Option V :=
  if key ∈ spec.keys then spec.values.getD (spec.keys.idxOf key) none else none

end Spec

/-- What a caller does: add a key, assign through a value pointer that an
earlier add returned, or look a key up. -/
inductive Op (V : Type) where
  | add (key : List UInt8) (len : Nat)
  | store (slot : Nat) (value : Option V)
  | find (key : List UInt8) (len : Nat)

/-- What a call returns: a value pointer, NULL when memory ran out, or a value. -/
inductive Answer (V : Type) where
  | pointer (slot : Option Nat)
  | value (found : Option V)
deriving DecidableEq

def step (sum : List UInt8 → UInt64) (dic : Dict V) : Op V → Option (List (Answer V) × Dict V)
  | .add key len => (add sum dic key len).map (fun result => ([.pointer result.1], result.2))
  | .store slot value => some ([], store dic slot value)
  | .find key len => (find sum dic key len).map (fun found => ([.value found], dic))

def Spec.step (spec : Spec V) : Op V → List (Answer V) × Spec V
  | .add key len => ([.pointer (some (spec.add (denotes key len)).1)], (spec.add (denotes key len)).2)
  | .store slot value => ([], spec.store slot value)
  | .find key len => ([.value (spec.find (denotes key len))], spec)

def run (sum : List UInt8 → UInt64) : Dict V → List (Op V) → Option (List (Answer V) × Dict V)
  | dic, [] => some ([], dic)
  | dic, op :: ops => do
      let (answers, dic) ← step sum dic op
      let (more, dic) ← run sum dic ops
      some (answers ++ more, dic)

def Spec.run : Spec V → List (Op V) → List (Answer V) × Spec V
  | spec, [] => ([], spec)
  | spec, op :: ops =>
      let now := spec.step op
      let later := Spec.run now.2 ops
      (now.1 ++ later.1, later.2)

/-- The keys added by a sequence of calls, with repetitions. -/
def addedKeys : List (Op V) → List (List UInt8)
  | [] => []
  | .add key len :: ops => denotes key len :: addedKeys ops
  | _ :: ops => addedKeys ops

/-- A run is that of a map: each add returns the slot of its key, the old one
when the key is present, and each lookup the value last stored for the bytes
denoted, or NULL; the count is that of the distinct keys; and the slots handed
out hold the values stored there. -/
def BehavesAsMap (sum : List UInt8 → UInt64) (dic : Dict V) (ops : List (Op V)) : Prop :=
  ∃ after, run sum dic ops = some ((Spec.run Spec.empty ops).1, after) ∧
    count after = (addedKeys ops).dedup.length ∧
    after.nodes.map Node.value = (Spec.run Spec.empty ops).2.values

/-! ## When a call keeps the modes in step -/

/-- A readable key: the pointer covers the length given, or holds a C string
when none is given. -/
def Readable (key : List UInt8) (len : Nat) : Prop :=
  len ≤ key.length ∧ (len = 0 → 0 ∈ key)

/-- In the string modes the comparison and the rehash look for a NUL, so the
length given has to be the length of the C string at the pointer. -/
def KeyOk (flags : Flags) (key : List UInt8) (len : Nat) : Prop :=
  Readable key len ∧
    (flags.hashed = false → flags.string = true →
      0 ∈ key ∧ (len = 0 ∨ len = (CString.text key).length))

/-- A table can grow: the product of size and growth is a positive C `int`,
and no copied binary key is empty, since its rehash would look for a NUL. -/
def GrowthOk (dic : Dict V) : Prop :=
  0 < dic.size * dic.growth % 2 ^ 32 ∧ dic.size * dic.growth % 2 ^ 32 < 2 ^ 31 ∧
    (dic.flags = ⟨false, false, false⟩ → ∀ node ∈ dic.nodes, node.len ≠ 0)

/-- The condition on one call, in the state before it. -/
def StepOk (sum : List UInt8 → UInt64) (used : Set (List UInt8)) (dic : Dict V) : Op V → Prop
  | .add key len =>
      KeyOk dic.flags key len ∧ denotes key len ∈ used ∧
        (resizeDue (ensureTable dic) (sum (denotes key len)) = true → GrowthOk (ensureTable dic))
  | .store slot _ => slot < dic.nodes.length
  | .find key len => KeyOk dic.flags key len ∧ denotes key len ∈ used

def RunOk (sum : List UInt8 → UInt64) (used : Set (List UInt8)) : Dict V → List (Op V) → Prop
  | _, [] => True
  | dic, op :: ops =>
      StepOk sum used dic op ∧ ∀ answers next, step sum dic op = some (answers, next) →
        RunOk sum used next ops

instance (key : List UInt8) (len : Nat) : Decidable (Readable key len) :=
  inferInstanceAs (Decidable (_ ∧ _))

instance (flags : Flags) (key : List UInt8) (len : Nat) : Decidable (KeyOk flags key len) :=
  inferInstanceAs (Decidable (_ ∧ _))

instance (dic : Dict V) : Decidable (GrowthOk dic) :=
  inferInstanceAs (Decidable (_ ∧ _))

instance (sum : List UInt8 → UInt64) (used : Set (List UInt8)) [DecidablePred (· ∈ used)] (dic : Dict V)
    (op : Op V) : Decidable (StepOk sum used dic op) :=
  match op with
  | .add _ _ => inferInstanceAs (Decidable (_ ∧ _))
  | .store _ _ => inferInstanceAs (Decidable (_ < _))
  | .find _ _ => inferInstanceAs (Decidable (_ ∧ _))

/-- The condition on a run can be tested by making the calls. -/
instance decidableRunOk (sum : List UInt8 → UInt64) (used : Set (List UInt8)) [DecidablePred (· ∈ used)] :
    (dic : Dict V) → (ops : List (Op V)) → Decidable (RunOk sum used dic ops)
  | _, [] => isTrue trivial
  | dic, op :: ops =>
      match found : step sum dic op with
      | none => decidable_of_iff (StepOk sum used dic op)
          ⟨fun now => ⟨now, fun _ _ stepped => by rw [found] at stepped; cases stepped⟩, And.left⟩
      | some (answers, next) =>
          have := decidableRunOk sum used next ops
          decidable_of_iff (StepOk sum used dic op ∧ RunOk sum used next ops)
            ⟨fun both => ⟨both.1, fun _ _ stepped => by rw [found] at stepped; cases stepped; exact both.2⟩,
              fun ok => ⟨ok.1, ok.2 answers next found⟩⟩

/-! ## Lengths and hashes of readable keys -/

theorem denotes_length_le (key : List UInt8) (len : Nat) : (denotes key len).length ≤ key.length :=
  (List.length_take_le' _ _)

theorem take_denotes_length (key : List UInt8) (len : Nat) :
    key.take (denotes key len).length = denotes key len := by
  unfold denotes
  rw [List.length_take, ← List.take_eq_take_min]

theorem denotes_zero (key : List UInt8) : denotes key 0 = CString.text key := by
  simp [denotes, CString.take_text_length]

theorem denotes_length {key : List UInt8} {len : Nat} (fits : len ≤ key.length) (given : len ≠ 0) :
    (denotes key len).length = len := by
  simp [denotes, given, fits]

theorem keyLen_eq {key : List UInt8} {len : Nat} (readable : Readable key len) :
    keyLen key len = some (denotes key len).length := by
  by_cases none : len = 0
  · subst none
    simp [keyLen, CString.strlen, readable.2 rfl, denotes_zero]
  · simp [keyLen, none, denotes_length readable.1 none]

/-- Hashing over the effective length is hashing the bytes denoted, also when
that length is zero and the hash function looks for the NUL again. -/
theorem hash64_denotes (sum : List UInt8 → UInt64) {key : List UInt8} {len : Nat}
    (readable : Readable key len) :
    hash64 sum key (denotes key len).length = some (sum (denotes key len)) := by
  by_cases nothing : (denotes key len).length = 0
  · have zero : len = 0 := by
      by_contra given
      exact given ((denotes_length readable.1 given).symm.trans nothing)
    subst zero
    rw [denotes_zero] at nothing ⊢
    simp [hash64, CString.strlen, readable.2 rfl, List.length_eq_zero_iff.mp nothing]
  · simp [hash64, nothing, denotes_length_le, take_denotes_length]

/-! ## What a node stores -/

/-- The node keeps its key in the form its mode needs for both the comparison
and the rehash. -/
def Stores (sum : List UInt8 → UInt64) (flags : Flags) (node : Node V) (key : List UInt8) : Prop :=
  if flags.hashed then node.key = .hash (sum key)
  else ∃ buffer, node.key = .bytes buffer ∧
    if flags.string then 0 ∈ buffer ∧ CString.text buffer = key
    else node.len = key.length ∧ key.length ≤ buffer.length ∧ buffer.take key.length = key ∧
      (flags.nocopy = true → key = [] → 0 ∈ buffer ∧ CString.text buffer = [])

/-- The key as `add_entry` and `find_entry` pass it on. -/
def keyArg (sum : List UInt8 → UInt64) (flags : Flags) (key : List UInt8) (len : Nat) : Key :=
  if flags.hashed then .hash (sum (denotes key len)) else .bytes key

theorem text_denotes {flags : Flags} {key : List UInt8} {len : Nat} (ok : KeyOk flags key len)
    (plain : flags.hashed = false) (string : flags.string = true) :
    0 ∈ key ∧ CString.text key = denotes key len := by
  rcases ok.2 plain string with ⟨terminated, zero | whole⟩
  · exact ⟨terminated, by rw [zero, denotes_zero]⟩
  · refine ⟨terminated, ?_⟩
    rw [whole, denotes]
    split <;> exact (CString.take_text_length key).symm

theorem nodeNew_stores (sum : List UInt8 → UInt64) {flags : Flags} {key : List UInt8} {len : Nat}
    (ok : KeyOk flags key len) :
    Stores sum flags (nodeNew (V := V) flags (keyArg sum flags key len) (denotes key len).length)
      (denotes key len) := by
  unfold Stores keyArg
  by_cases hashed : flags.hashed = true
  · simp [hashed, nodeNew]
  · have plain : flags.hashed = false := by simpa using hashed
    simp only [plain, Bool.false_eq_true, if_false]
    by_cases string : flags.string = true
    · have texts := text_denotes ok plain string
      by_cases nocopy : flags.nocopy = true
      · exact ⟨key, by simp [nodeNew, nocopy], by simpa [string] using texts⟩
      · refine ⟨key.take (denotes key len).length ++ [0], by simp [nodeNew, nocopy, string], ?_⟩
        have clean : 0 ∉ denotes key len := texts.2 ▸ CString.zero_not_mem_text key
        simp [string, take_denotes_length, CString.text_append_zero clean]
    · have binary : flags.string = false := by simpa using string
      have bound := denotes_length_le key len
      by_cases nocopy : flags.nocopy = true
      · refine ⟨key, by simp [nodeNew, nocopy], ?_⟩
        simp only [binary, Bool.false_eq_true, if_false]
        refine ⟨by simp [nodeNew, nocopy, binary], bound, take_denotes_length key len, ?_⟩
        intro _ nothing
        have zero : len = 0 := by
          by_contra given
          have length := denotes_length ok.1.1 given
          rw [nothing] at length
          exact given length.symm
        subst zero
        exact ⟨ok.1.2 rfl, (denotes_zero key).symm.trans nothing⟩
      · refine ⟨denotes key len, by simp [nodeNew, nocopy, binary, take_denotes_length], ?_⟩
        simp [nodeNew, nocopy, binary]

/-- The three ways of comparing keys decide equality of the bytes denoted. -/
theorem compareKeys_eq {sum : List UInt8 → UInt64} {used : Set (List UInt8)} {flags : Flags}
    (injective : flags.hashed = true → Set.InjOn sum used) {node : Node V} {stored : List UInt8}
    (stores : Stores sum flags node stored) (storedUsed : stored ∈ used)
    {key : List UInt8} {len : Nat} (ok : KeyOk flags key len) (keyUsed : denotes key len ∈ used) :
    compareKeys flags node (keyArg sum flags key len) (denotes key len).length =
      some (decide (stored = denotes key len)) := by
  unfold Stores at stores
  unfold keyArg
  by_cases hashed : flags.hashed = true
  · simp only [hashed, if_true] at stores ⊢
    have sums : (sum stored == sum (denotes key len)) = decide (stored = denotes key len) := by
      apply Bool.eq_iff_iff.mpr
      simp only [beq_iff_eq, decide_eq_true_eq]
      exact ⟨fun equal => injective hashed storedUsed keyUsed equal, fun equal => congrArg sum equal⟩
    simp [compareKeys, stores, sums]
  · have plain : flags.hashed = false := by simpa using hashed
    simp only [plain, Bool.false_eq_true, if_false] at stores ⊢
    rcases stores with ⟨buffer, form, stores⟩
    by_cases string : flags.string = true
    · simp only [string, if_true] at stores
      have texts := text_denotes ok plain string
      rcases CString.strcmp_zero stores.1 texts.1 with ⟨sign, found, decides⟩
      rw [stores.2, texts.2] at decides
      simp only [compareKeys, form, string, if_true, found, Option.map_some]
      congr 1
      apply Bool.eq_iff_iff.mpr
      simpa using decides
    · have binary : flags.string = false := by simpa using string
      simp only [binary, Bool.false_eq_true, if_false] at stores
      simp only [compareKeys, form, binary, Bool.false_eq_true, if_false, stores.1]
      by_cases sizes : stored.length = (denotes key len).length
      · have bound := denotes_length_le key len
        have taken : buffer.take (denotes key len).length = stored := by rw [← sizes]; exact stores.2.2.1
        have covers : (denotes key len).length ≤ buffer.length := sizes ▸ stores.2.1
        rw [if_pos sizes]
        simp only [CString.memeq, covers, bound, and_self, if_true, taken, take_denotes_length]
        congr 1
        apply Bool.eq_iff_iff.mpr
        simp
      · have differ : stored ≠ denotes key len := fun equal => sizes (congrArg List.length equal)
        simp [sizes, differ]

/-- The rehash of a stored key is the hash it was added with. -/
theorem reinsertHash_eq {sum : List UInt8 → UInt64} {flags : Flags} {node : Node V} {key : List UInt8}
    (stores : Stores sum flags node key)
    (nonempty : flags = ⟨false, false, false⟩ → node.len ≠ 0) :
    reinsertHash sum flags node = some (sum key) := by
  unfold Stores at stores
  by_cases hashed : flags.hashed = true
  · simp only [hashed, if_true] at stores
    simp [reinsertHash, stores]
  · have plain : flags.hashed = false := by simpa using hashed
    simp only [plain, Bool.false_eq_true, if_false] at stores
    rcases stores with ⟨buffer, form, stores⟩
    by_cases string : flags.string = true
    · simp only [string, if_true] at stores
      simp only [reinsertHash, form, string, if_true, hash64, CString.strlen, stores.1, Option.map_some]
      rw [CString.take_text_length, stores.2]
    · have binary : flags.string = false := by simpa using string
      simp only [binary, Bool.false_eq_true, if_false] at stores
      simp only [reinsertHash, form, binary, Bool.false_eq_true, if_false]
      by_cases nothing : node.len = 0
      · have empty : key = [] := List.length_eq_zero_iff.mp (stores.1.symm.trans nothing)
        have nocopy : flags.nocopy = true := by
          by_contra copies
          apply nonempty _ nothing
          rcases flags with ⟨nocopyFlag, stringFlag, hashedFlag⟩
          simp only at copies plain binary
          simp [plain, binary, copies]
        have ends := stores.2.2.2 nocopy empty
        simp [hash64, nothing, CString.strlen, ends.1, ends.2, empty]
      · rw [hash64, if_neg nothing, stores.1, if_pos stores.2.1, stores.2.2.1]

/-! ## Chains and the table -/

/-- A slot is chained in exactly the bucket its key hashes to. -/
structure Chained (sum : List UInt8 → UInt64) (keys : List (List UInt8)) (size : Nat)
    (table : List (List Nat)) : Prop where
  length : table.length = size
  positive : 0 < size
  member : ∀ slot index : Nat, slot ∈ table.getD index [] ↔
    ∃ key, keys[slot]? = some key ∧ index = (sum key).toNat % size

/-- The invariant of a dictionary that holds the given distinct keys. -/
structure Inv (sum : List UInt8 → UInt64) (used : Set (List UInt8)) (dic : Dict V)
    (keys : List (List UInt8)) : Prop where
  nodes : dic.nodes.length = keys.length
  nodup : keys.Nodup
  keysUsed : ∀ key ∈ keys, key ∈ used
  stores : ∀ (slot : Nat) node key, dic.nodes[slot]? = some node → keys[slot]? = some key →
    Stores sum dic.flags node key
  count : dic.count = keys.length
  table : (dic.table = none ∧ keys = []) ∨
    ∃ table, dic.table = some table ∧ Chained sum keys dic.size table

theorem mem_modify_cons {table : List (List Nat)} {bucket : Nat} (inside : bucket < table.length)
    (slot other index : Nat) :
    other ∈ (table.modify bucket (fun chain => slot :: chain)).getD index [] ↔
      (other = slot ∧ index = bucket) ∨ other ∈ table.getD index [] := by
  simp only [List.getD_eq_getElem?_getD, List.getElem?_modify]
  by_cases same : bucket = index
  · subst same
    simp [List.getElem?_eq_getElem inside]
  · simp only [same, if_false, Ne.symm same, and_false, false_or]
    cases table[index]? <;> rfl

theorem mem_modify_snoc {table : List (List Nat)} {bucket : Nat} (inside : bucket < table.length)
    (slot other index : Nat) :
    other ∈ (table.modify bucket (fun chain => chain ++ [slot])).getD index [] ↔
      (other = slot ∧ index = bucket) ∨ other ∈ table.getD index [] := by
  simp only [List.getD_eq_getElem?_getD, List.getElem?_modify]
  by_cases same : bucket = index
  · subst same
    simp [List.getElem?_eq_getElem inside, or_comm]
  · simp only [same, if_false, Ne.symm same, and_false, false_or]
    cases table[index]? <;> rfl

/-- Walking a chain finds the slot of the key, if the chain has it. -/
theorem findInChain_eq {sum : List UInt8 → UInt64} {used : Set (List UInt8)} {dic : Dict V}
    {keys : List (List UInt8)} (inv : Inv sum used dic keys)
    (injective : dic.flags.hashed = true → Set.InjOn sum used)
    {key : List UInt8} {len : Nat} (ok : KeyOk dic.flags key len) (keyUsed : denotes key len ∈ used)
    (chain : List Nat) (valid : ∀ slot ∈ chain, slot < keys.length) :
    findInChain dic.flags dic.nodes (keyArg sum dic.flags key len) (denotes key len).length chain =
      some (chain.find? (fun slot => decide (keys[slot]? = some (denotes key len)))) := by
  induction chain with
  | nil => rfl
  | cons slot chain ih =>
      have bound : slot < keys.length := valid slot List.mem_cons_self
      have nodeBound : slot < dic.nodes.length := inv.nodes ▸ bound
      have node := List.getElem?_eq_getElem nodeBound
      have stored := List.getElem?_eq_getElem bound
      have compared := compareKeys_eq injective (inv.stores slot _ _ node stored)
        (inv.keysUsed _ (List.getElem_mem bound)) ok keyUsed
      have rest := ih (fun other member => valid other (List.mem_cons_of_mem _ member))
      simp only [findInChain, node, Option.bind_eq_bind, Option.bind_some, compared, rest,
        List.find?_cons, stored, Option.some.injEq]
      by_cases same : keys[slot] = denotes key len
      · simp [same]
      · simp [same]

/-- In a chained table the walk over the bucket of a key decides membership. -/
theorem find_bucket {sum : List UInt8 → UInt64} {keys : List (List UInt8)} (nodup : keys.Nodup)
    {size : Nat} {table : List (List Nat)} (chained : Chained sum keys size table)
    (wanted : List UInt8) :
    (table.getD ((sum wanted).toNat % size) []).find?
        (fun slot => decide (keys[slot]? = some wanted)) =
      if wanted ∈ keys then some (keys.idxOf wanted) else none := by
  by_cases present : wanted ∈ keys
  · rw [if_pos present]
    have bound := List.idxOf_lt_length_of_mem present
    have here : keys[keys.idxOf wanted]? = some wanted := by
      rw [List.getElem?_eq_getElem bound, List.getElem_idxOf bound]
    have member := (chained.member (keys.idxOf wanted) _).mpr ⟨wanted, here, rfl⟩
    rcases found : (table.getD ((sum wanted).toNat % size) []).find?
        (fun slot => decide (keys[slot]? = some wanted)) with _ | slot
    · have absent := List.find?_eq_none.mp found _ member
      simp [here] at absent
    · have holds := List.find?_some found
      simp only [decide_eq_true_eq] at holds
      rcases List.getElem?_eq_some_iff.mp holds with ⟨slotBound, equal⟩
      have position := List.getElem_idxOf bound
      rw [(List.Nodup.getElem_inj_iff nodup).mp (equal.trans position.symm)]
  · rw [if_neg present]
    apply List.find?_eq_none.mpr
    intro slot _
    simp only [decide_eq_true_eq]
    intro equal
    exact present (List.mem_of_getElem? equal)

/-! ## Growing the table -/

/-- The rehash loop chains every slot it visits in its new bucket. -/
theorem reinsert_all {sum : List UInt8 → UInt64} {flags : Flags} {nodes : List (Node V)}
    {keys : List (List UInt8)} {newSize : Nat} (positive : 0 < newSize)
    (rehash : ∀ (slot : Nat) key, keys[slot]? = some key →
      ∃ node, nodes[slot]? = some node ∧ reinsertHash sum flags node = some (sum key))
    (slots : List Nat) (valid : ∀ slot ∈ slots, slot < keys.length)
    (table : List (List Nat)) (length : table.length = newSize) :
    ∃ result, slots.foldlM (reinsertWhenResizing sum flags nodes newSize) table = some result ∧
      result.length = newSize ∧ ∀ other index, other ∈ result.getD index [] ↔
        (other ∈ slots ∧ ∃ key, keys[other]? = some key ∧ index = (sum key).toNat % newSize) ∨
          other ∈ table.getD index [] := by
  induction slots generalizing table with
  | nil => exact ⟨table, rfl, length, by simp⟩
  | cons slot slots ih =>
      have bound := valid slot List.mem_cons_self
      have stored := List.getElem?_eq_getElem bound
      rcases rehash slot _ stored with ⟨node, here, hash⟩
      have inside : (sum keys[slot]).toNat % newSize < table.length := by
        rw [length]
        exact Nat.mod_lt _ positive
      rcases ih (fun other member => valid other (List.mem_cons_of_mem _ member))
        (table.modify ((sum keys[slot]).toNat % newSize) (fun chain => slot :: chain))
        (by rw [List.length_modify, length]) with ⟨result, folded, resultLength, member⟩
      refine ⟨result, ?_, resultLength, ?_⟩
      · simp only [List.foldlM_cons, reinsertWhenResizing, here, hash, Option.bind_eq_bind,
          Option.bind_some, Nat.ne_of_gt positive, if_false]
        exact folded
      · intro other index
        rw [member, mem_modify_cons inside, List.mem_cons]
        constructor
        · rintro (⟨later, place⟩ | ⟨same, place⟩ | before)
          · exact Or.inl ⟨Or.inr later, place⟩
          · exact Or.inl ⟨Or.inl same, keys[slot], by rw [same, stored], place⟩
          · exact Or.inr before
        · rintro (⟨same | later, key, found, place⟩ | before)
          · have equal : key = keys[slot] := by
              rw [same, stored] at found
              exact (Option.some.inj found).symm
            exact Or.inr (Or.inl ⟨same, by rw [place, equal]⟩)
          · exact Or.inl ⟨later, key, found, place⟩
          · exact Or.inr (Or.inr before)

theorem mem_flatten_chained {sum : List UInt8 → UInt64} {keys : List (List UInt8)} {size : Nat}
    {table : List (List Nat)} (chained : Chained sum keys size table) (slot : Nat) :
    slot ∈ table.flatten ↔ slot < keys.length := by
  constructor
  · intro member
    rcases List.mem_flatten.mp member with ⟨chain, chainMember, inChain⟩
    rcases List.mem_iff_getElem.mp chainMember with ⟨index, bound, equal⟩
    have placed : slot ∈ table.getD index [] := by
      rw [List.getD_eq_getElem?_getD, List.getElem?_eq_getElem bound, equal]
      exact inChain
    rcases (chained.member slot index).mp placed with ⟨key, found, _⟩
    exact (List.getElem?_eq_some_iff.mp found).1
  · intro bound
    have placed := (chained.member slot ((sum keys[slot]).toNat % size)).mpr
      ⟨keys[slot], List.getElem?_eq_getElem bound, rfl⟩
    have inside : (sum keys[slot]).toNat % size < table.length :=
      chained.length.symm ▸ Nat.mod_lt _ chained.positive
    rw [List.getD_eq_getElem?_getD, List.getElem?_eq_getElem inside] at placed
    exact List.mem_flatten.mpr ⟨_, List.getElem_mem inside, placed⟩

theorem resize_inv {sum : List UInt8 → UInt64} {used : Set (List UInt8)} {dic : Dict V}
    {keys : List (List UInt8)} (inv : Inv sum used dic keys) {table : List (List Nat)}
    (allocated : dic.table = some table) (chained : Chained sum keys dic.size table)
    (growth : GrowthOk dic) :
    ∃ bigger, resize sum dic (dic.size * dic.growth % 2 ^ 32) = some (true, bigger) ∧
      Inv sum used bigger keys ∧ bigger.flags = dic.flags ∧ bigger.nodes = dic.nodes ∧
      bigger.table.isSome := by
  rcases growth with ⟨positive, small, nonempty⟩
  have rehash : ∀ (slot : Nat) key, keys[slot]? = some key →
      ∃ node, dic.nodes[slot]? = some node ∧ reinsertHash sum dic.flags node = some (sum key) := by
    intro slot key stored
    have bound := (List.getElem?_eq_some_iff.mp stored).1
    have here := List.getElem?_eq_getElem (inv.nodes.symm ▸ bound : slot < dic.nodes.length)
    exact ⟨_, here, reinsertHash_eq (inv.stores slot _ _ here stored)
      (fun binary => nonempty binary _ (List.getElem_mem _))⟩
  rcases reinsert_all positive rehash table.flatten
    (fun slot member => (mem_flatten_chained chained slot).mp member)
    (List.replicate _ []) List.length_replicate with ⟨result, folded, length, member⟩
  refine ⟨{ dic with table := some result, size := dic.size * dic.growth % 2 ^ 32 }, ?_, ?_⟩
  · simp only [resize, Nat.not_le.mpr small, if_false, allocated, Option.getD_some, folded,
      Option.bind_eq_bind, Option.bind_some]
  · refine ⟨⟨inv.nodes, inv.nodup, inv.keysUsed, inv.stores, inv.count, Or.inr ⟨result, rfl, ?_⟩⟩,
      rfl, rfl, rfl⟩
    refine ⟨length, positive, ?_⟩
    intro slot index
    rw [member]
    have blank : (List.replicate (dic.size * dic.growth % 2 ^ 32) ([] : List Nat)).getD index [] = [] := by
      simp only [List.getD_eq_getElem?_getD, List.getElem?_replicate]
      split <;> rfl
    rw [blank, mem_flatten_chained chained]
    constructor
    · rintro (⟨_, place⟩ | impossible)
      · exact place
      · cases impossible
    · rintro ⟨key, found, place⟩
      exact Or.inl ⟨(List.getElem?_eq_some_iff.mp found).1, key, found, place⟩

/-! ## The entry points -/

theorem ensureTable_inv {sum : List UInt8 → UInt64} {used : Set (List UInt8)} {dic : Dict V}
    {keys : List (List UInt8)} (inv : Inv sum used dic keys) :
    Inv sum used (ensureTable dic) keys ∧ (ensureTable dic).flags = dic.flags ∧
      (ensureTable dic).nodes = dic.nodes ∧
      ∃ table, (ensureTable dic).table = some table ∧ Chained sum keys (ensureTable dic).size table := by
  rcases inv.table with ⟨missing, empty⟩ | ⟨table, allocated, chained⟩
  · have chained : Chained sum keys 1 [[]] := by
      refine ⟨rfl, Nat.one_pos, ?_⟩
      intro slot index
      subst empty
      cases index <;> simp
    have form : ensureTable dic = { dic with table := some [[]], size := 1 } := by
      simp only [ensureTable, missing]
    rw [form]
    exact ⟨⟨inv.nodes, inv.nodup, inv.keysUsed, inv.stores, inv.count, Or.inr ⟨_, rfl, chained⟩⟩,
      rfl, rfl, _, rfl, chained⟩
  · have form : ensureTable dic = dic := by simp only [ensureTable, allocated]
    rw [form]
    exact ⟨inv, rfl, rfl, table, allocated, chained⟩

theorem growIfDue_inv {sum : List UInt8 → UInt64} {used : Set (List UInt8)} {dic : Dict V}
    {keys : List (List UInt8)} (inv : Inv sum used dic keys) {table : List (List Nat)}
    (allocated : dic.table = some table) (chained : Chained sum keys dic.size table)
    (hash : UInt64) (growth : resizeDue dic hash = true → GrowthOk dic) :
    ∃ after, growIfDue sum dic hash = some (true, after) ∧
      Inv sum used after keys ∧ after.flags = dic.flags ∧ after.nodes = dic.nodes ∧
      ∃ table, after.table = some table ∧ Chained sum keys after.size table := by
  by_cases due : resizeDue dic hash = true
  · rcases resize_inv inv allocated chained (growth due) with ⟨bigger, resized, after, flags, nodes, some⟩
    refine ⟨bigger, by rw [growIfDue, if_pos due]; exact resized, after, flags, nodes, ?_⟩
    rcases after.table with ⟨missing, _⟩ | found
    · rw [missing] at some
      cases some
    · exact found
  · exact ⟨dic, by rw [growIfDue, if_neg due], inv, rfl, rfl, table, allocated, chained⟩

/-- Appending a node for a new key keeps the invariant. -/
theorem append_inv {sum : List UInt8 → UInt64} {used : Set (List UInt8)} {dic : Dict V}
    {keys : List (List UInt8)} (inv : Inv sum used dic keys) {table : List (List Nat)}
    (allocated : dic.table = some table) (chained : Chained sum keys dic.size table)
    {key : List UInt8} (absent : key ∉ keys) (keyUsed : key ∈ used) (room : dic.count + 1 < 2 ^ 32)
    {arg : Key} {len : Nat} (stores : Stores sum dic.flags (nodeNew (V := V) dic.flags arg len) key) :
    Inv sum used (appendNode dic (sum key) arg len) (keys ++ [key]) := by
  have inside : (sum key).toNat % dic.size < table.length :=
    chained.length.symm ▸ Nat.mod_lt _ chained.positive
  refine ⟨by simp [appendNode, inv.nodes], ?_, ?_, ?_, ?_, Or.inr ⟨_, by rw [appendNode, allocated]; rfl, ?_⟩⟩
  · exact List.nodup_append.mpr ⟨inv.nodup, List.nodup_singleton _, by
      intro left member right single equal
      rw [List.mem_singleton.mp single] at equal
      exact absent (equal ▸ member)⟩
  · intro other member
    rcases List.mem_append.mp member with before | now
    · exact inv.keysUsed other before
    · exact List.mem_singleton.mp now ▸ keyUsed
  · intro slot other found foundNode foundKey
    simp only [appendNode, List.getElem?_append] at foundNode foundKey
    by_cases before : slot < keys.length
    · rw [if_pos (inv.nodes.symm ▸ before)] at foundNode
      rw [if_pos before] at foundKey
      exact inv.stores slot other found foundNode foundKey
    · rw [if_neg (inv.nodes.symm ▸ before)] at foundNode
      rw [if_neg before] at foundKey
      have first := List.mem_singleton.mp (List.mem_of_getElem? foundNode)
      have second := List.mem_singleton.mp (List.mem_of_getElem? foundKey)
      exact first ▸ second ▸ stores
  · simp only [appendNode, List.length_append, List.length_singleton, ← inv.count]
    exact Nat.mod_eq_of_lt room
  · refine ⟨by rw [List.length_modify, chained.length]; rfl, chained.positive, ?_⟩
    intro slot index
    change _ ↔ ∃ other, _ ∧ index = (sum other).toNat % dic.size
    rw [mem_modify_snoc inside, chained.member, inv.nodes]
    simp only [List.getElem?_append]
    constructor
    · rintro (⟨same, place⟩ | ⟨other, found, place⟩)
      · exact ⟨key, by simp [same], place⟩
      · have bound := (List.getElem?_eq_some_iff.mp found).1
        exact ⟨other, by rw [if_pos bound]; exact found, place⟩
    · rintro ⟨other, found, place⟩
      by_cases before : slot < keys.length
      · rw [if_pos before] at found
        exact Or.inr ⟨other, found, place⟩
      · rw [if_neg before] at found
        have single := List.mem_singleton.mp (List.mem_of_getElem? found)
        have last := (List.getElem?_eq_some_iff.mp found).1
        simp only [List.length_singleton] at last
        exact Or.inl ⟨by omega, single ▸ place⟩

/-- `sxe_dict_add` is the abstract add. -/
theorem add_refines {sum : List UInt8 → UInt64} {used : Set (List UInt8)} {dic : Dict V}
    {spec : Spec V} (inv : Inv sum used dic spec.keys)
    (values : dic.nodes.map Node.value = spec.values)
    (injective : dic.flags.hashed = true → Set.InjOn sum used) {key : List UInt8} {len : Nat}
    (ok : StepOk sum used dic (.add key len))
    (room : (spec.add (denotes key len)).2.keys.length < 2 ^ 32) :
    ∃ after, add sum dic key len = some (some (spec.add (denotes key len)).1, after) ∧
      Inv sum used after (spec.add (denotes key len)).2.keys ∧
      after.nodes.map Node.value = (spec.add (denotes key len)).2.values ∧ after.flags = dic.flags := by
  rcases ok with ⟨keyOk, keyUsed, growth⟩
  rcases ensureTable_inv inv with ⟨inv', flags', nodes', table', allocated', chained'⟩
  rcases growIfDue_inv inv' allocated' chained' (sum (denotes key len)) growth with
    ⟨after, tested, invAfter, flags, nodes, table, allocated, chained⟩
  rw [flags'] at flags
  rw [nodes'] at nodes
  have walk := findInChain_eq invAfter (flags ▸ injective) (flags ▸ keyOk) keyUsed
    (table.getD ((sum (denotes key len)).toNat % after.size) []) (by
      intro slot member
      rcases (chained.member slot _).mp member with ⟨_, found, _⟩
      exact (List.getElem?_eq_some_iff.mp found).1)
  rw [find_bucket invAfter.nodup chained] at walk
  have place : bucket after (sum (denotes key len)) =
      table.getD ((sum (denotes key len)).toNat % after.size) [] := by
    simp only [bucket, allocated, Option.getD_some]
  have arg : (if after.flags.hashed = true then Key.hash (sum (denotes key len)) else Key.bytes key) =
      keyArg sum after.flags key len := rfl
  have entered : add sum dic key len = addEntry sum dic (sum (denotes key len)) key (denotes key len).length := by
    simp only [add, keyLen_eq keyOk.1, hash64_denotes sum keyOk.1, Option.bind_eq_bind, Option.bind_some]
  rw [entered]
  simp only [addEntry, tested, arg, place, walk]
  by_cases present : denotes key len ∈ spec.keys
  · simp only [if_pos present, Spec.add]
    exact ⟨after, rfl, invAfter, by rw [nodes]; exact values, flags⟩
  · simp only [if_neg present, Spec.add] at room ⊢
    have roomAfter : after.count + 1 < 2 ^ 32 := by
      rw [invAfter.count]
      simpa using room
    refine ⟨_, by rw [invAfter.nodes], append_inv invAfter allocated chained present keyUsed roomAfter
      (nodeNew_stores sum (flags.symm ▸ keyOk)), ?_, flags⟩
    simp only [appendNode, List.map_append, List.map_cons, List.map_nil, nodes, values]
    congr 1
    unfold nodeNew keyArg
    split
    · rfl
    · split
      · rfl
      · split <;> rfl

theorem find_refines {sum : List UInt8 → UInt64} {used : Set (List UInt8)} {dic : Dict V}
    {spec : Spec V} (inv : Inv sum used dic spec.keys)
    (values : dic.nodes.map Node.value = spec.values)
    (injective : dic.flags.hashed = true → Set.InjOn sum used) {key : List UInt8} {len : Nat}
    (keyOk : KeyOk dic.flags key len) (keyUsed : denotes key len ∈ used) :
    find sum dic key len = some (spec.find (denotes key len)) := by
  simp only [find, keyLen_eq keyOk.1, hash64_denotes sum keyOk.1, Option.bind_eq_bind, Option.bind_some,
    findEntry]
  rcases inv.table with ⟨missing, empty⟩ | ⟨table, allocated, chained⟩
  · simp only [missing, Spec.find, empty, List.not_mem_nil, if_false]
  · have walk := findInChain_eq inv injective keyOk keyUsed
      (table.getD ((sum (denotes key len)).toNat % dic.size) []) (by
        intro slot member
        rcases (chained.member slot _).mp member with ⟨_, found, _⟩
        exact (List.getElem?_eq_some_iff.mp found).1)
    rw [find_bucket inv.nodup chained] at walk
    have arg : (if dic.flags.hashed = true then Key.hash (sum (denotes key len)) else Key.bytes key) =
        keyArg sum dic.flags key len := rfl
    simp only [allocated, arg, bucket, Option.getD_some, walk, Option.bind_some]
    by_cases present : denotes key len ∈ spec.keys
    · have bound := List.idxOf_lt_length_of_mem present
      have here := List.getElem?_eq_getElem (inv.nodes.symm ▸ bound : _ < dic.nodes.length)
      simp only [if_pos present, Spec.find, here, Option.bind_some, ← values,
        List.getD_eq_getElem?_getD, List.getElem?_map, Option.map_some, Option.getD_some]
    · simp only [if_neg present, Spec.find]

/-! ## Whole runs -/

theorem init_inv (sum : List UInt8 → UInt64) (used : Set (List UInt8)) (initialSize load growth : Nat)
    (flags : Flags) : Inv sum used (init (V := V) initialSize load growth flags) [] := by
  refine ⟨rfl, List.nodup_nil, by simp, by simp, rfl, ?_⟩
  by_cases zero : initialSize = 0
  · exact Or.inl ⟨by simp [init, zero], rfl⟩
  · refine Or.inr ⟨List.replicate initialSize [], by simp [init, zero], ?_⟩
    refine ⟨List.length_replicate, Nat.pos_of_ne_zero zero, ?_⟩
    intro slot index
    simp only [List.getD_eq_getElem?_getD, List.getElem?_replicate]
    split <;> simp

/-- The dictionary represents the abstract map, value slot by value slot. -/
structure Represents (sum : List UInt8 → UInt64) (used : Set (List UInt8)) (dic : Dict V)
    (spec : Spec V) : Prop where
  inv : Inv sum used dic spec.keys
  values : dic.nodes.map Node.value = spec.values
  injective : dic.flags.hashed = true → Set.InjOn sum used

theorem store_refines {sum : List UInt8 → UInt64} {used : Set (List UInt8)} {dic : Dict V}
    {spec : Spec V} (represents : Represents sum used dic spec) (slot : Nat) (value : Option V) :
    Represents sum used (store dic slot value) (spec.store slot value) := by
  rcases represents with ⟨inv, values, injective⟩
  refine ⟨⟨by simp [store, Spec.store, inv.nodes], inv.nodup, inv.keysUsed, ?_, inv.count, inv.table⟩,
    ?_, injective⟩
  · intro other node key foundNode foundKey
    simp only [store, List.getElem?_modify] at foundNode
    rcases Option.map_eq_some_iff.mp foundNode with ⟨before, here, changed⟩
    have stores := inv.stores other before key here foundKey
    subst changed
    by_cases same : slot = other
    · simpa [same, Stores, store] using stores
    · simpa [same, store] using stores
  · simp only [store, Spec.store, ← values]
    apply List.ext_getElem?
    intro index
    simp only [List.getElem?_map, List.getElem?_modify, List.getElem?_set, List.length_map]
    by_cases same : slot = index
    · subst same
      by_cases bound : slot < dic.nodes.length
      · simp [bound]
      · simp [bound]
    · simp [same]

theorem step_refines {sum : List UInt8 → UInt64} {used : Set (List UInt8)} {dic : Dict V}
    {spec : Spec V} (represents : Represents sum used dic spec) {op : Op V}
    (ok : StepOk sum used dic op) (room : (spec.step op).2.keys.length < 2 ^ 32) :
    ∃ after, step sum dic op = some ((spec.step op).1, after) ∧
      Represents sum used after (spec.step op).2 ∧ after.flags = dic.flags := by
  cases op with
  | add key len =>
      rcases add_refines represents.inv represents.values represents.injective ok room with
        ⟨after, added, inv, values, flags⟩
      exact ⟨after, by simp only [step, added, Option.map_some, Spec.step],
        ⟨inv, values, flags ▸ represents.injective⟩, flags⟩
  | store slot value =>
      exact ⟨store dic slot value, rfl, store_refines represents slot value, rfl⟩
  | find key len =>
      have found := find_refines represents.inv represents.values represents.injective ok.1 ok.2
      exact ⟨dic, by simp only [step, found, Option.map_some, Spec.step], represents, rfl⟩

theorem Spec.step_keys (spec : Spec V) (op : Op V) :
    ∃ more, (spec.step op).2.keys = spec.keys ++ more := by
  cases op with
  | add key len =>
      simp only [Spec.step, Spec.add]
      split
      · exact ⟨[], by simp⟩
      · exact ⟨_, rfl⟩
  | store slot value => exact ⟨[], by simp [Spec.step, Spec.store]⟩
  | find key len => exact ⟨[], by simp [Spec.step]⟩

theorem Spec.run_keys (spec : Spec V) (ops : List (Op V)) :
    spec.keys.length ≤ (Spec.run spec ops).2.keys.length := by
  induction ops generalizing spec with
  | nil => exact Nat.le_refl _
  | cons op ops ih =>
      rcases spec.step_keys op with ⟨more, grown⟩
      have later := ih (spec.step op).2
      rw [grown, List.length_append] at later
      simp only [Spec.run]
      omega

/-- A run whose calls all meet their condition goes through, returns the
pointers of the abstract run and ends in a dictionary that represents its map. -/
theorem run_refines {sum : List UInt8 → UInt64} {used : Set (List UInt8)} (ops : List (Op V))
    {dic : Dict V} {spec : Spec V} (represents : Represents sum used dic spec)
    (ok : RunOk sum used dic ops) (room : (Spec.run spec ops).2.keys.length < 2 ^ 32) :
    ∃ after, run sum dic ops = some ((Spec.run spec ops).1, after) ∧
      Represents sum used after (Spec.run spec ops).2 ∧ after.flags = dic.flags := by
  induction ops generalizing dic spec with
  | nil => exact ⟨dic, rfl, represents, rfl⟩
  | cons op ops ih =>
      rcases ok with ⟨now, later⟩
      have before := Nat.lt_of_le_of_lt (Spec.run_keys (spec.step op).2 ops) room
      rcases step_refines represents now before with ⟨next, stepped, nextRepresents, nextFlags⟩
      rcases ih nextRepresents (later _ _ stepped) room with ⟨after, ran, represented, flags⟩
      refine ⟨after, ?_, represented, flags.trans nextFlags⟩
      simp only [run, stepped, Option.bind_eq_bind, Option.bind_some, ran, Spec.run]

theorem Spec.mem_run_keys (ops : List (Op V)) (spec : Spec V) (key : List UInt8) :
    key ∈ (Spec.run spec ops).2.keys ↔ key ∈ spec.keys ∨ key ∈ addedKeys ops := by
  induction ops generalizing spec with
  | nil => simp [Spec.run, addedKeys]
  | cons op ops ih =>
      simp only [Spec.run]
      rw [ih]
      cases op with
      | add added len =>
          simp only [Spec.step, Spec.add, addedKeys, List.mem_cons]
          split
          · rename_i present
            constructor
            · rintro (old | new)
              · exact Or.inl old
              · exact Or.inr (Or.inr new)
            · rintro (old | same | new)
              · exact Or.inl old
              · exact Or.inl (same ▸ present)
              · exact Or.inr new
          · simp only [List.mem_append, List.mem_singleton]
            tauto
      | store slot value => simp only [Spec.step, Spec.store, addedKeys]
      | find found len => simp only [Spec.step, addedKeys]

theorem Spec.nodup_run_keys (ops : List (Op V)) (spec : Spec V) (nodup : spec.keys.Nodup) :
    (Spec.run spec ops).2.keys.Nodup := by
  induction ops generalizing spec with
  | nil => exact nodup
  | cons op ops ih =>
      apply ih
      cases op with
      | add key len =>
          simp only [Spec.step, Spec.add]
          split
          · exact nodup
          · rename_i absent
            exact List.nodup_append.mpr ⟨nodup, List.nodup_singleton _, by
              intro left member right single equal
              rw [List.mem_singleton.mp single] at equal
              exact absent (equal ▸ member)⟩
      | store slot value => exact nodup
      | find key len => exact nodup

theorem Spec.run_count (ops : List (Op V)) :
    (Spec.run Spec.empty ops).2.keys.length = (addedKeys ops).dedup.length := by
  apply List.Perm.length_eq
  apply (List.perm_ext_iff_of_nodup (Spec.nodup_run_keys ops _ List.nodup_nil) (List.nodup_dedup _)).mpr
  intro key
  rw [Spec.mem_run_keys, List.mem_dedup]
  simp [Spec.empty]

/-- In every key mode, a run whose calls all meet `StepOk` is that of a map. -/
theorem dict_is_map (sum : List UInt8 → UInt64) (used : Set (List UInt8))
    (initialSize load growth : Nat) (flags : Flags)
    (injective : flags.hashed = true → Set.InjOn sum used) (ops : List (Op V))
    (ok : RunOk sum used (init initialSize load growth flags) ops)
    (few : (addedKeys ops).dedup.length < 2 ^ 32) :
    BehavesAsMap sum (init initialSize load growth flags) ops := by
  have start : Represents sum used (init (V := V) initialSize load growth flags) Spec.empty :=
    ⟨init_inv sum used initialSize load growth flags, rfl, injective⟩
  have counted := Spec.run_count ops
  rcases run_refines ops start ok (counted ▸ few) with ⟨dic, ran, represents, _⟩
  exact ⟨dic, ran, represents.inv.count.trans counted, represents.values⟩

def byteSum (bytes : List UInt8) : UInt64 := bytes.foldl (fun sum byte => sum + byte.toUInt64) 0

/-- Copied C strings, added once with their length and once without it, with
a table that grows from one bucket to two in between. -/
theorem dict_is_map_strings :
    BehavesAsMap (V := Nat) byteSum (init 1 100 2 ⟨false, true, false⟩)
      [.add [97, 0] 1, .store 0 (some 7), .add [98, 99, 0] 2, .store 1 (some 8), .add [97, 0] 0,
        .find [97, 0] 0, .find [98, 0] 1] :=
  dict_is_map byteSum Set.univ 1 100 2 ⟨false, true, false⟩ (by intro hashed; cases hashed) _
    (by decide) (by decide)

/-- A string key added with an explicit length that is not its `strlen` is
copied and terminated, but compared with the whole C string at the pointer:
the same pointer and length do not find it again. -/
theorem string_key_with_length_lost :
    Readable [97, 98, 0] 1 ∧
      ¬ BehavesAsMap (V := Nat) byteSum (init 1 100 2 ⟨false, true, false⟩)
        [.add [97, 98, 0] 1, .store 0 (some 7), .find [97, 98, 0] 1] := by
  refine ⟨by decide, ?_⟩
  rintro ⟨dic, ran, _⟩
  have answers := congrArg (Option.map Prod.fst) ran
  simp only [Option.map_some] at answers
  revert answers
  decide

end SxeDict
end LibKit
