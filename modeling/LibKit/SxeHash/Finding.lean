import LibKit.SxeHash.Classic
import LibKit.SxeHash.Refinement
import LibKit.SxeHex.Conversion

namespace LibKit
namespace SxeHash

open SxeList (Heap)
open SxePool (Ages)
open SxeHex (lower unhex hexOf)

/-!
# What a classic hash finds

The entries of a classic hash are a list, from the oldest on, of keys in lower
case with their values.  A key that is not all digits is not entered, but the
code fills an element with it.  As long as that does not happen, every call has
the answer of the list.
-/

/-! ## The table -/

/-- The entries: keys as digits in lower case, and values. -/
abbrev Table := List (List UInt8 × Nat)

def IsKey (sha1AsChar : List UInt8) : Prop := ∀ digit ∈ sha1AsChar, SxeHex.isDigit digit = true

instance (sha1AsChar : List UInt8) : Decidable (IsKey sha1AsChar) :=
  inferInstanceAs (Decidable (∀ digit ∈ sha1AsChar, SxeHex.isDigit digit = true))

def Table.find (table : Table) (sha1AsChar : List UInt8) : Nat :=
  ((table.find? (·.1 = sha1AsChar.map lower)).map Prod.snd).getD noElement

def Table.step (elementCount : Nat) (table : Table) : ClassicCall → Table
  | .set sha1AsChar value =>
      if IsKey sha1AsChar ∧ table.length < elementCount then table ++ [(sha1AsChar.map lower, value.toNat)] else table
  | .get _ => table
  | .remove sha1AsChar => table.eraseP (·.1 = sha1AsChar.map lower)

def tableAfter (elementCount : Nat) : History ClassicCall Nat → Table
  | [] => []
  | entry :: history => (tableAfter elementCount history).step elementCount entry.1

def ClassicCall.key : ClassicCall → List UInt8
  | .set sha1AsChar _ => sha1AsChar
  | .get sha1AsChar => sha1AsChar
  | .remove sha1AsChar => sha1AsChar

/-- A call returns what it is to return: `set` fails, without a change, if and
only if its key is not all digits or all elements are used, and the others find
the oldest entry. -/
def Right (elementCount : Nat) (hash : Hash) (table : Table) : ClassicCall → Prop
  | .set sha1AsChar value => ∃ id after, hash.set sha1AsChar value = some (id, after) ∧
      (id = noElement ↔ ¬ IsKey sha1AsChar ∨ table.length = elementCount) ∧ (id = noElement → after = hash)
  | .get sha1AsChar => hash.action sha1AsChar false = some (table.find sha1AsChar, hash)
  | .remove sha1AsChar => ∃ after, hash.action sha1AsChar true = some (table.find sha1AsChar, after)

/-- A key that is set is all digits, unless there is no element for it. -/
def Meets (elementCount : Nat) (table : Table) : ClassicCall → Prop
  | .set sha1AsChar _ => IsKey sha1AsChar ∨ table.length = elementCount
  | _ => True

/-! ## Keys -/

section

variable {text : List UInt8}

theorem isDigit_lower : ∀ byte : UInt8, SxeHex.isDigit (lower byte) = SxeHex.isDigit byte := by
  apply Bytes.forall_bytes
  decide +kernel

theorem unhex_isKey (length : text.length = 40) : (unhex text).2 = true ↔ IsKey text :=
  SxeHex.unhex_all (by rw [length])

theorem unhex_key_length (length : text.length = 40) (isKey : IsKey text) : (unhex text).1.length = sha1Size := by
  have all := (SxeHex.unhex_length text).2 ((unhex_isKey length).mpr isKey)
  rw [length] at all
  exact all.1

/-- The digits of a key in lower case are those of its bytes. -/
theorem hexOf_key (length : text.length = 40) (isKey : IsKey text) (key : List UInt8) :
    hexOf key = text.map lower ↔ key = (unhex text).1 := by
  have whole := SxeHex.hexOf_unhex ((unhex_isKey length).mpr isKey)
  constructor
  · intro same
    have back := congrArg unhex (same.trans whole.symm)
    rw [SxeHex.unhex_hexOf, SxeHex.unhex_hexOf] at back
    exact congrArg Prod.fst back
  · rintro rfl
    exact whole

theorem hexOf_ne (noKey : ¬ IsKey text) (key : List UInt8) : hexOf key ≠ text.map lower := by
  intro same
  apply noKey
  intro digit member
  have digits := SxeHex.hexOf_digits key
  rw [same] at digits
  rw [← isDigit_lower]
  exact digits _ (List.mem_map_of_mem member)

theorem sha1FromHex_eq {sha1 : List UInt8} (length : text.length = 40) (room : sha1.length = sha1Size) :
    sha1FromHex sha1 text =
      .ok (SxeHex.converted text, (unhex text).1 ++ sha1.drop (unhex text).1.length) := by
  have all := @SxeHex.toBytes_even text sha1 sha1AsHexLength 20 rfl (Nat.le_of_eq length.symm) (Nat.le_of_eq room.symm)
  rw [show 2 * 20 = text.length from length.symm, List.take_length] at all
  exact all

theorem sha1FromHex_key {sha1 : List UInt8} (length : text.length = 40) (room : sha1.length = sha1Size)
    (isKey : IsKey text) : sha1FromHex sha1 text = .ok (.ok, (unhex text).1) := by
  have whole : sha1.length ≤ (unhex text).1.length := by rw [room, unhex_key_length length isKey]
  rw [sha1FromHex_eq length room, SxeHex.converted_ok.mpr ((unhex_isKey length).mpr isKey),
    List.drop_eq_nil_of_le whole,
    List.append_nil]

theorem sha1FromHex_noKey {sha1 : List UInt8} (length : text.length = 40) (room : sha1.length = sha1Size)
    (noKey : ¬ IsKey text) : ∃ mixed, sha1FromHex sha1 text = .ok (.errorInternal, mixed) := by
  refine ⟨(unhex text).1 ++ sha1.drop (unhex text).1.length, (sha1FromHex_eq length room).trans ?_⟩
  have failed : (unhex text).2 = false := Bool.eq_false_iff.mpr fun all => noKey ((unhex_isKey length).mp all)
  rw [SxeHex.converted, failed]
  rfl

end

/-! ## Values -/

section

variable {hash : Hash} {contents : Contents} {ages : Ages} {id other : Nat}

theorem classic_fits {elementCount : Nat} (some : 0 < elementCount) (few : (elementCount - 1) * pairSize < 2 ^ 32) :
    Fits (classicOptions elementCount) := by
  refine ⟨some, ?_, show 0 + sha1Size ≤ pairSize by decide, few⟩
  show elementCount + bucketsReserved < 2 ^ 32
  rw [pairSize] at few
  rw [bucketsReserved]
  omega

theorem value_writeValue (value : UInt32) : (hash.writeValue id value).value id = value.toNat :=
  Bytes.readWord_write value.toNat_lt

theorem value_writeValue_of_ne (value : UInt32) (differs : other ≠ id) :
    (hash.writeValue id value).value other = hash.value other := by
  apply Bytes.readWord_congr
  intro index inside
  apply Bytes.write_outside
  rw [Bytes.encodeWord_length, pairSize, sha1Size]
  rcases Nat.lt_or_gt_of_ne differs with before | after
  · exact Or.inl (by omega)
  · exact Or.inr (by omega)

theorem value_writeKey {key : List UInt8} (options : hash.size = pairSize ∧ hash.keyOffset = 0)
    (length : key.length = sha1Size) :
    (hash.writeKey id key).value other = hash.value other := by
  apply Bytes.readWord_congr
  intro index inside
  rw [writeKey_memory, options.1, options.2, pairSize, sha1Size]
  by_cases behind : id * 24 + 0 ≤ other * 24 + 20 + index
  · rw [if_pos behind, List.getElem?_eq_none (by rw [length, sha1Size]; omega)]
    rfl
  · rw [if_neg behind]

theorem Represents.writeValue (represents : Represents hash contents ages)
    (options : hash.size = pairSize ∧ hash.keyOffset = 0 ∧ hash.keySize = sha1Size) (value : UInt32) :
    Represents (hash.writeValue id value) contents ages := by
  refine ⟨represents.tracks, represents.number, represents.states, represents.fresh, represents.buckets,
    represents.nodup,
    represents.entries, fun other small => ?_⟩
  rw [← represents.keys other small]
  apply List.map_congr_left
  intro i isI
  have below : i < hash.keySize := List.mem_range.mp isI
  apply Bytes.write_outside
  show other * hash.size + hash.keyOffset + i < _ ∨ _ ≤ other * hash.size + hash.keyOffset + i
  rw [options.1, options.2.1, Bytes.encodeWord_length, pairSize, sha1Size]
  rw [options.2.2, sha1Size] at below
  rcases Nat.lt_or_ge id other with before | after
  · exact Or.inr (by omega)
  · exact Or.inl (by omega)

/-! ## Elements that are left -/

theorem length_le_of_lt {numbers : List Nat} {bound : Nat} (nodup : numbers.Nodup)
    (below : ∀ number ∈ numbers, number < bound) :
    numbers.length ≤ bound := by
  have inRange : numbers ⊆ List.range bound := fun number member => List.mem_range.mpr (below number member)
  have few := (nodup.subperm inRange).length_le
  rwa [List.length_range] at few

theorem length_eq_iff {numbers : List Nat} {bound : Nat} (nodup : numbers.Nodup)
    (below : ∀ number ∈ numbers, number < bound) :
    numbers.length = bound ↔ ∀ number, number < bound → number ∈ numbers := by
  have inRange : numbers ⊆ List.range bound := fun number member => List.mem_range.mpr (below number member)
  constructor
  · intro full number small
    have same := (nodup.subperm inRange).perm_of_length_le (by rw [List.length_range, full])
    exact same.mem_iff.mpr (List.mem_range.mpr small)
  · intro all
    have back : List.range bound ⊆ numbers := fun number member => all number (List.mem_range.mp member)
    have many := (List.nodup_range.subperm back).length_le
    rw [List.length_range] at many
    exact Nat.le_antisymm (length_le_of_lt nodup below) many

theorem Represents.ids_lt (represents : Represents hash contents ages) :
    ∀ id ∈ contents.entries.map Prod.fst, id < hash.count := by
  intro id member
  rcases List.mem_map.mp member with ⟨entry, inside, rfl⟩
  exact (represents.entries entry inside).1

theorem Represents.full_iff (represents : Represents hash contents ages) (noFresh : contents.fresh = []) :
    contents.entries.length = hash.count ↔ ∀ id, id < hash.count → ¬ contents.Unused id := by
  rw [← List.length_map Prod.fst, length_eq_iff represents.nodup represents.ids_lt]
  apply forall_congr'
  intro id
  apply imp_congr_right
  intro small
  constructor
  · rintro member ⟨_, notAdded⟩
    rcases List.mem_map.mp member with ⟨entry, inside, rfl⟩
    exact notAdded entry inside rfl
  · intro used
    apply Decidable.byContradiction
    intro absent
    apply used
    refine ⟨noFresh ▸ List.not_mem_nil, ?_⟩
    rintro entry inside rfl
    exact absent (List.mem_map_of_mem inside)

theorem filter_eq_eraseP {α β : Type} [DecidableEq α] {entries : List (α × β)} {found : α × β} {wanted : α × β → Bool}
    (nodup : (entries.map Prod.fst).Nodup) (isFound : entries.find? wanted = some found) :
    entries.filter (fun entry => entry.1 ≠ found.1) = entries.eraseP wanted := by
  induction entries with
  | nil => cases isFound
  | cons entry entries ih =>
      rw [List.map_cons, List.nodup_cons] at nodup
      by_cases here : wanted entry = true
      · rw [List.find?_cons_of_pos here] at isFound
        cases isFound
        have others : entries.filter (fun other => other.1 ≠ found.1) = entries := by
          rw [List.filter_eq_self]
          intro other inside
          rw [decide_eq_true_eq]
          intro same
          exact nodup.1 (same ▸ List.mem_map_of_mem inside)
        rw [List.filter_cons_of_neg (by simp), List.eraseP_cons_of_pos here, others]
      · rw [List.find?_cons_of_neg here] at isFound
        have differs : entry.1 ≠ found.1 := by
          intro same
          exact nodup.1 (same ▸ List.mem_map_of_mem (List.mem_of_find?_eq_some isFound))
        rw [List.filter_cons_of_pos (by simpa using differs), List.eraseP_cons_of_neg here, ih nodup.2 isFound]

end

/-! ## A hash and its table -/

/-- A hash stores the entries of a table, and no element is new between calls. -/
structure Stores (elementCount : Nat) (hash : Hash) (table : Table) (contents : Contents) (ages : Ages) : Prop where
  options : hash.toOptions = classicOptions elementCount
  represents : Represents hash contents ages
  noFresh : contents.fresh = []
  table : table = contents.entries.map fun entry => (hexOf entry.2, hash.value entry.1)

section

variable {elementCount : Nat} {hash : Hash} {table : Table} {contents : Contents} {ages : Ages} {text : List UInt8}

theorem Stores.fits (stores : Stores elementCount hash table contents ages)
    (fits : Fits (classicOptions elementCount)) :
    Fits hash.toOptions := stores.options.symm ▸ fits

theorem Stores.sizes (stores : Stores elementCount hash table contents ages) :
    hash.count = elementCount ∧ hash.size = pairSize ∧ hash.keyOffset = 0 ∧ hash.keySize = sha1Size := by
  rw [stores.options]
  exact ⟨rfl, rfl, rfl, rfl⟩

/-- All elements are used if and only if the table is full. -/
theorem Stores.full_iff (stores : Stores elementCount hash table contents ages) :
    table.length = elementCount ↔ ∀ id, id < hash.count → ¬ contents.Unused id := by
  rw [← stores.represents.full_iff stores.noFresh, stores.sizes.1, stores.table, List.length_map]

theorem Stores.length_le (stores : Stores elementCount hash table contents ages) : table.length ≤ elementCount := by
  have few := length_le_of_lt stores.represents.nodup stores.represents.ids_lt
  rw [List.length_map] at few
  rw [stores.table, List.length_map, ← stores.sizes.1]
  exact few

theorem bytesAt_length (memory : Nat → UInt8) (start length : Nat) : (bytesAt memory start length).length = length := by
  rw [bytesAt, List.length_map, List.length_range]

theorem Stores.take (stores : Stores elementCount hash table contents ages)
    (fits : Fits (classicOptions elementCount)) :
    (table.length = elementCount ∧ hash.take = some (noElement, hash)) ∨
      ∃ id, table.length ≠ elementCount ∧ id < hash.count ∧ id ≠ noElement ∧ ages.state id = unusedBucket ∧
        hash.take = some (id, { hash with pool := hash.pool.enter id unusedBucket newBucket }) := by
  rcases (stores.represents.behaves (stores.fits fits)).take with ⟨answer, after, answered, none, _⟩
  rcases stores.represents.few (stores.fits fits) with ⟨few, several⟩
  have buckets := (stores.fits fits).buckets
  rcases take_cases stores.represents.tracks few several with ⟨_, taken⟩ | ⟨id, _, _, small, unused, taken⟩
  · rw [taken] at answered
    cases answered
    exact Or.inl ⟨stores.full_iff.mpr (none.mp rfl), taken⟩
  · have inHash : id < hash.count := stores.represents.number ▸ small
    have notNone : id ≠ noElement := by
      rw [noElement]
      omega
    have isId : id = answer := congrArg Prod.fst (Option.some.inj (taken.symm.trans answered))
    rw [← isId] at none
    exact Or.inr ⟨id, fun full => notNone (none.mpr (stores.full_iff.mp full)), inHash, notNone, unused, taken⟩

/-- An element that was taken has got a key and a value. -/
def filled (hash : Hash) (id : Nat) (key : List UInt8) (value : UInt32) : Hash :=
  (Hash.writeKey { hash with pool := hash.pool.enter id unusedBucket newBucket } id key).writeValue id value

def entered (hash : Hash) (id : Nat) (key : List UInt8) (value : UInt32) : Hash :=
  { filled hash id key value with
    pool := (filled hash id key value).pool.enter id newBucket (Hash.bucketOf hash.toOptions key) }

/-- An element is filled with whatever the conversion left in it, and added. -/
theorem Stores.set_entered (stores : Stores elementCount hash table contents ages)
    (fits : Fits (classicOptions elementCount))
    {key : List UInt8} {returned : SxeHex.Return} {id : Nat} (value : UInt32) (small : id < hash.count)
    (notNone : id ≠ noElement) (unused : ages.state id = unusedBucket)
    (taken : hash.take = some (id, { hash with pool := hash.pool.enter id unusedBucket newBucket }))
    (keyLength : key.length = sha1Size)
    (sha1 : sha1FromHex (bytesAt hash.memory (id * pairSize) sha1Size) text = .ok (returned, key)) :
    hash.set text value = some (id, entered hash id key value) ∧
      Represents (entered hash id key value)
        ⟨(id :: contents.fresh).filter (· ≠ id), contents.entries ++ [(id, key)], Function.update contents.keys id key⟩
        ((ages.enter id newBucket).enter id (Hash.bucketOf hash.toOptions key)) := by
  have fits' := stores.fits fits
  rcases stores.sizes with ⟨_, size, keyOffset, keySize⟩
  have fresh := stores.represents.take small unused
  have written := fresh.writeKey fits' (List.mem_cons_self) (keyLength.trans keySize.symm)
  have valued : Represents (filled hash id key value)
      ⟨id :: contents.fresh, contents.entries, Function.update contents.keys id key⟩ (ages.enter id newBucket) :=
    written.writeValue ⟨size, keyOffset, keySize⟩ value
  have isNew : (ages.enter id newBucket).state id = newBucket := Ages.enter_state_self _ _ _
  have added := valued.add fits' small isNew
  have inPool : id < hash.pool.number := stores.represents.number ▸ small
  have isKeyOf : (filled hash id key value).addedKey id = key := by
    have ofElement : (filled hash id key value).addedKey id = (filled hash id key value).keyOf id :=
      Fits.addedKey fits' small
    rw [ofElement, valued.keys id small]
    exact Function.update_self _ _ _
  have adds : (filled hash id key value).add id = some (entered hash id key value) := by
    rw [add_eq valued.tracks inPool, if_pos isNew.symm, isKeyOf]
    rfl
  constructor
  · rw [Hash.set, taken]
    simp only [Option.bind_eq_bind, Option.bind_some, if_neg notNone, sha1]
    exact congrArg (Option.bind · fun after => some (id, after)) adds
  · simp only [Contents.step, Function.update_self] at added
    exact added

theorem Stores.set_key (stores : Stores elementCount hash table contents ages)
    (fits : Fits (classicOptions elementCount))
    (length : text.length = 40) (isKey : IsKey text) (notFull : table.length ≠ elementCount) (value : UInt32) :
    ∃ id after contents ages, id ≠ noElement ∧ hash.set text value = some (id, after) ∧
      Stores elementCount after (table ++ [(text.map lower, value.toNat)]) contents ages := by
  rcases stores.take fits with ⟨full, _⟩ | ⟨id, _, small, notNone, unused, taken⟩
  · exact absurd full notFull
  · have keyLength := unhex_key_length length isKey
    have sha1 := sha1FromHex_key length (bytesAt_length hash.memory (id * pairSize) sha1Size) isKey
    rcases stores.set_entered fits value small notNone unused taken keyLength sha1 with ⟨sets, added⟩
    have notAdded := ((stores.represents.unused_iff (stores.fits fits) small).mpr unused).2
    rcases stores.sizes with ⟨_, size, keyOffset, _⟩
    have others : ∀ entry ∈ contents.entries,
        (entered hash id (unhex text).1 value).value entry.1 = hash.value entry.1 := by
      intro entry inside
      have apart := @value_writeValue_of_ne
        (Hash.writeKey { hash with pool := hash.pool.enter id unusedBucket newBucket } id
          (unhex text).1) id entry.1 value
        (notAdded entry inside)
      exact apart.trans (value_writeKey ⟨size, keyOffset⟩ keyLength)
    have own : (entered hash id (unhex text).1 value).value id = value.toNat := value_writeValue value
    have lowered : hexOf (unhex text).1 = text.map lower := (hexOf_key length isKey _).mpr rfl
    refine ⟨id, _, _, _, notNone, sets, ⟨stores.options, added, ?_, ?_⟩⟩
    · show (id :: contents.fresh).filter (· ≠ id) = []
      rw [stores.noFresh]
      simp
    · rw [stores.table, List.map_append, List.map_singleton, own, lowered]
      congr 1
      apply List.map_congr_left
      intro entry inside
      rw [others entry inside]

theorem Stores.set_noKey (stores : Stores elementCount hash table contents ages)
    (fits : Fits (classicOptions elementCount))
    (length : text.length = 40) (notFull : table.length ≠ elementCount) (value : UInt32) :
    ∃ id after, id ≠ noElement ∧ hash.set text value = some (id, after) := by
  rcases stores.take fits with ⟨full, _⟩ | ⟨id, _, small, notNone, unused, taken⟩
  · exact absurd full notFull
  · have room := bytesAt_length hash.memory (id * pairSize) sha1Size
    have few := (SxeHex.unhex_length text).1
    have mixed : ((unhex text).1 ++
        (bytesAt hash.memory (id * pairSize) sha1Size).drop (unhex text).1.length).length = sha1Size := by
      rw [List.length_append, List.length_drop, room]
      rw [length] at few
      rw [sha1Size]
      omega
    have sets := (stores.set_entered fits value small notNone unused taken mixed (sha1FromHex_eq length room)).1
    exact ⟨id, _, notNone, sets⟩

theorem Stores.set_full (stores : Stores elementCount hash table contents ages)
    (fits : Fits (classicOptions elementCount))
    (full : table.length = elementCount) (text : List UInt8) (value : UInt32) :
    hash.set text value = some (noElement, hash) := by
  rcases stores.take fits with ⟨_, taken⟩ | ⟨_, notFull, _⟩
  · rw [Hash.set, taken]
    rfl
  · exact absurd full notFull

theorem Stores.find?_eq (stores : Stores elementCount hash table contents ages) :
    table.find? (·.1 = text.map lower) =
      (contents.entries.find? fun entry => hexOf entry.2 = text.map lower).map fun entry =>
        (hexOf entry.2, hash.value entry.1) := by
  rw [stores.table, List.find?_map]
  rfl

theorem Stores.find_of_none (stores : Stores elementCount hash table contents ages)
    (none : ∀ entry ∈ contents.entries, hexOf entry.2 ≠ text.map lower) :
    table.find text = noElement ∧ table.eraseP (·.1 = text.map lower) = table := by
  constructor
  · have missing : contents.entries.find? (fun entry => hexOf entry.2 = text.map lower) = Option.none := by
      rw [List.find?_eq_none]
      intro entry inside
      simpa using none entry inside
    rw [Table.find, stores.find?_eq, missing]
    rfl
  · apply List.eraseP_of_forall_not
    intro entry inside
    rw [stores.table] at inside
    rcases List.mem_map.mp inside with ⟨other, member, rfl⟩
    simpa using none other member

/-- The element of the oldest entry with a key is found, and given back by the
removal of the entry. -/
theorem Stores.action (stores : Stores elementCount hash table contents ages)
    (fits : Fits (classicOptions elementCount))
    (length : text.length = 40) :
    ∃ after contents ages, hash.action text false = some (table.find text, hash) ∧
      hash.action text true = some (table.find text, after) ∧
      Stores elementCount after (table.eraseP (·.1 = text.map lower)) contents ages := by
  have fits' := stores.fits fits
  have room : (List.replicate sha1Size (0 : UInt8)).length = sha1Size := List.length_replicate
  by_cases isKey : IsKey text
  · have sha1 := sha1FromHex_key length room isKey
    have looks := stores.represents.look fits' (unhex text).1
    have same : (fun entry : Nat × List UInt8 => decide (hexOf entry.2 = text.map lower)) =
        fun entry => decide (entry.2 = (unhex text).1) := by
      funext entry
      exact decide_eq_decide.mpr (hexOf_key length isKey entry.2)
    cases found : contents.entries.find? (fun entry => decide (entry.2 = (unhex text).1)) with
    | none =>
        have absent : ∀ entry ∈ contents.entries, hexOf entry.2 ≠ text.map lower := by
          intro entry inside isText
          have differs := List.find?_eq_none.mp found entry inside
          exact differs (decide_eq_true ((hexOf_key length isKey entry.2).mp isText))
        rcases stores.find_of_none absent with ⟨missing, unchanged⟩
        have look : hash.look (unhex text).1 = some noElement := by
          rw [looks, Contents.look, found]
          rfl
        have acts : ∀ remove, hash.action text remove = some (table.find text, hash) := by
          intro remove
          rw [Hash.action, sha1, missing]
          simp only [look, Option.bind_eq_bind, Option.bind_some, if_true]
        exact ⟨hash, contents, ages, acts false, acts true, unchanged.symm ▸ stores⟩
    | some entry =>
        have inside := List.mem_of_find?_eq_some found
        have small := (stores.represents.entries entry inside).1
        have notNone : entry.1 ≠ noElement := by
          have few := fits'.buckets
          rw [noElement]
          omega
        have look : hash.look (unhex text).1 = some entry.1 := by
          rw [looks, Contents.look, found]
          rfl
        have value : table.find text = hash.value entry.1 := by
          rw [Table.find, stores.find?_eq, same, found]
          rfl
        have inPool : entry.1 < hash.pool.number := stores.represents.number ▸ small
        have gives := give_eq stores.represents.tracks inPool
        have given := stores.represents.give small
        refine ⟨{ hash with pool := hash.pool.enter entry.1 (ages.state entry.1) unusedBucket },
          contents.step (.give entry.1, 0), ages.enter entry.1 unusedBucket, ?_, ?_, ⟨stores.options, given, ?_, ?_⟩⟩
        · rw [Hash.action, sha1, value]
          simp only [look, Option.bind_eq_bind, Option.bind_some, if_neg notNone]
          rfl
        · rw [Hash.action, sha1, value]
          simp only [look, Option.bind_eq_bind, Option.bind_some, if_neg notNone, if_true, gives]
        · show contents.fresh.filter (· ≠ entry.1) = []
          rw [stores.noFresh]
          rfl
        · show _ = (contents.entries.filter fun other => other.1 ≠ entry.1).map _
          rw [filter_eq_eraseP stores.represents.nodup found, stores.table, List.eraseP_map, ← same]
          rfl
  · have absent : ∀ entry ∈ contents.entries, hexOf entry.2 ≠ text.map lower := fun entry _ => hexOf_ne isKey entry.2
    rcases stores.find_of_none absent with ⟨missing, unchanged⟩
    rcases sha1FromHex_noKey length room isKey with ⟨mixed, failed⟩
    have acts : ∀ remove, hash.action text remove = some (table.find text, hash) := by
      intro remove
      rw [Hash.action, failed, missing]
    exact ⟨hash, contents, ages, acts false, acts true, unchanged.symm ▸ stores⟩

end

/-! ## Runs -/

/-- Keys have 40 characters, and those that are set are digits if there is an
element for them. -/
def Legal (elementCount : Nat) (history : History ClassicCall Nat) (_ : Hash) (call : ClassicCall) : Prop :=
  call.key.length = 40 ∧ Meets elementCount (tableAfter elementCount history) call

section

variable {elementCount : Nat} {hash after : Hash} {table : Table} {contents : Contents} {ages : Ages}
    {call : ClassicCall}

/-- One call. -/
theorem Stores.step (stores : Stores elementCount hash table contents ages) (fits : Fits (classicOptions elementCount))
    (length : call.key.length = 40) (meets : Meets elementCount table call) {answer : Nat}
    (stepped : classicStep hash call = some (answer, after)) :
    ∃ contents ages, Stores elementCount after (table.step elementCount call) contents ages := by
  cases call with
  | set text value =>
      replace length : text.length = 40 := length
      by_cases full : table.length = elementCount
      · have sets := stores.set_full fits full text value
        rw [classicStep, sets] at stepped
        cases stepped
        have same : table.step elementCount (.set text value) = table :=
          if_neg fun both => Nat.ne_of_lt both.2 full
        exact ⟨contents, ages, same.symm ▸ stores⟩
      · have isKey : IsKey text := meets.resolve_right full
        rcases stores.set_key fits length isKey full value with ⟨id, next, contents', ages', _, sets, stored⟩
        rw [classicStep, sets] at stepped
        cases stepped
        have atMost : table.length < elementCount := Nat.lt_of_le_of_ne stores.length_le full
        have grown : table.step elementCount (.set text value) = table ++ [(text.map lower, value.toNat)] :=
          if_pos ⟨isKey, atMost⟩
        exact ⟨contents', ages', grown.symm ▸ stored⟩
  | get text =>
      rcases stores.action fits length with ⟨_, _, _, gets, _, _⟩
      rw [classicStep, show hash.action text false = _ from gets] at stepped
      cases stepped
      exact ⟨contents, ages, stores⟩
  | remove text =>
      rcases stores.action fits length with ⟨next, contents', ages', _, removes, stored⟩
      rw [classicStep, show hash.action text true = _ from removes] at stepped
      cases stepped
      exact ⟨contents', ages', stored⟩

/-- A call returns what it is to return if and only if it does not set a key
that is not all digits while there is an element for it. -/
theorem Stores.right_iff (stores : Stores elementCount hash table contents ages)
    (fits : Fits (classicOptions elementCount))
    (length : call.key.length = 40) : Right elementCount hash table call ↔ Meets elementCount table call := by
  cases call with
  | set text value =>
      replace length : text.length = 40 := length
      by_cases full : table.length = elementCount
      · refine iff_of_true ⟨noElement, hash, stores.set_full fits full text value, ?_, fun _ => rfl⟩ (Or.inr full)
        exact iff_of_true rfl (Or.inr full)
      · by_cases isKey : IsKey text
        · rcases stores.set_key fits length isKey full value with ⟨id, after, _, _, notNone, sets, _⟩
          refine iff_of_true ⟨id, after, sets, ?_, fun none => absurd none notNone⟩ (Or.inl isKey)
          refine iff_of_false notNone ?_
          rintro (noKey | isFull)
          · exact noKey isKey
          · exact full isFull
        · rcases stores.set_noKey fits length full value with ⟨id, after, notNone, sets⟩
          constructor
          · rintro ⟨other, next, answered, fails, _⟩
            rw [sets] at answered
            have same : id = other := congrArg Prod.fst (Option.some.inj answered)
            exact absurd (same.trans (fails.mpr (Or.inl isKey))) notNone
          · rintro (isDigits | isFull)
            · exact absurd isDigits isKey
            · exact absurd isFull full
  | get text =>
      rcases stores.action fits length with ⟨_, _, _, gets, _, _⟩
      exact iff_of_true gets trivial
  | remove text =>
      rcases stores.action fits length with ⟨after, _, _, _, removes, _⟩
      exact iff_of_true ⟨after, removes⟩ trivial

end

section

variable {elementCount : Nat} (heap : Heap) (last : UInt64 → Nat) {base : UInt64} (memory : Nat → UInt8)

theorem hashNew_stores (fits : Fits (classicOptions elementCount)) (notNull : base ≠ 0)
    (room : base.toNat + (144 + elementCount * pairSize + (elementCount + bucketsReserved) * 40 +
      elementCount * 32) ≤ 2 ^ 64) :
    Stores elementCount (hashNew elementCount heap last base memory) []
      (startContents (hashNew elementCount heap last base memory)) (SxePool.startAges elementCount) :=
  ⟨rfl, newPlus_represents fits heap last memory notNull room, rfl, rfl⟩

/-- In a run of calls with keys of 40 characters, of which those that are set
are digits unless the hash is full, every further call is right exactly if it
is one of these. -/
theorem classic_run_right (some : 0 < elementCount) (few : (elementCount - 1) * pairSize < 2 ^ 32) (notNull : base ≠ 0)
    (room : base.toNat + (144 + elementCount * pairSize + (elementCount + bucketsReserved) * 40 +
      elementCount * 32) ≤ 2 ^ 64)
    {history : History ClassicCall Nat} {hash : Hash}
    (run : Run classicStep (Legal elementCount) (hashNew elementCount heap last base memory) history hash)
      (call : ClassicCall)
    (length : call.key.length = 40) :
    Right elementCount hash (tableAfter elementCount history) call ↔
      Meets elementCount (tableAfter elementCount history) call := by
  have fits := classic_fits some few
  have stored : ∃ contents ages, Stores elementCount hash (tableAfter elementCount history) contents ages := by
    refine run.invariant (fun history hash => ∃ contents ages,
      Stores elementCount hash (tableAfter elementCount history) contents ages)
      ⟨_, _, hashNew_stores heap last memory fits notNull room⟩ ?_
    rintro history state call answer next ⟨contents, ages, stores⟩ legal stepped
    exact stores.step fits legal.1 legal.2 stepped
  rcases stored with ⟨contents, ages, stores⟩
  exact stores.right_iff fits length

end

def newOne : Hash := hashNew 1 SxeList.blank (fun _ => 0) 4096 (fun _ => 0)

theorem newOne_stores : Stores 1 newOne [] (startContents newOne) (SxePool.startAges 1) := by
  apply hashNew_stores SxeList.blank (fun _ => 0) (fun _ => 0) (classic_fits Nat.one_pos (by decide)) (by decide)
  decide +kernel

/-- The value of a key that was set with capital digits is got with small ones. -/
theorem classic_run_right_capitals : ∃ answer hash,
    Run classicStep (Legal 1) newOne [(.set (List.replicate 40 65) 7, answer)] hash ∧
      hash.action (List.replicate 40 97) false = some (7, hash) := by
  have fits : Fits (classicOptions 1) := classic_fits Nat.one_pos (by decide)
  have isKey : IsKey (List.replicate 40 65) := by decide +kernel
  have unfull : ([] : Table).length ≠ 1 := by decide
  rcases newOne_stores.set_key fits List.length_replicate isKey unfull 7 with ⟨answer, hash, _, _, _, sets, _⟩
  have run : Run classicStep (Legal 1) newOne [(.set (List.replicate 40 65) 7, answer)] hash :=
    Run.step Run.start ⟨List.length_replicate, Or.inl isKey⟩ sets
  have gets := (classic_run_right SxeList.blank (fun _ => 0) (fun _ => 0) Nat.one_pos (by decide) (by decide)
    (by decide +kernel) run (.get (List.replicate 40 97)) List.length_replicate).mpr trivial
  have table : tableAfter 1 [(.set (List.replicate 40 65) 7, answer)] = [(List.replicate 40 97, 7)] := by
    rw [tableAfter, tableAfter, Table.step, if_pos ⟨isKey, Nat.one_pos⟩]
    decide +kernel
  have value : (tableAfter 1 [(.set (List.replicate 40 65) 7, answer)]).find (List.replicate 40 97) = 7 := by
    rw [table]
    decide +kernel
  exact ⟨answer, hash, run, gets.trans (by rw [value])⟩

/-- A key of forty letters that are no digits does not fail to be set. -/
theorem classic_set_wrong : ¬ Right 1 newOne [] (.set (List.replicate 40 103) 7) := by
  have fits : Fits (classicOptions 1) := classic_fits Nat.one_pos (by decide)
  have noKey : ¬ IsKey (List.replicate 40 103) := by decide +kernel
  intro right
  have meets := (@Stores.right_iff 1 newOne [] _ _ (.set (List.replicate 40 103) 7) newOne_stores fits
    List.length_replicate).mp right
  rcases meets with isKey | full
  · exact noKey isKey
  · cases full

end SxeHash
end LibKit
