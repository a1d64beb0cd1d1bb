import LibKit.SxeCdb.Model

namespace LibKit
namespace SxeCdb

/-!
# The records in `kvdata`

A log says at which positions records start and what they are: a key with a
value that was put, or a key that was counted, whose value holds the links of
its chain.  `Stored` connects the log with the bytes.  Writing a link of a
counter changes that record alone.
-/

/-! ## Headers -/

def record (header : Nat) (key val : List UInt8) : List UInt8 :=
  encodeHeader header key.length val.length ++ key ++ val

theorem headerLen_cases {keyLen valLen header : Nat} (found : headerLen keyLen valLen = some header) :
    1 ≤ keyLen ∧
      ((header = 1 ∧ keyLen ≤ 0x7 ∧ valLen ≤ 0xf) ∨
        (header = 3 ∧ keyLen ≤ 0x7f ∧ valLen ≤ 0xffff) ∨
        (header = 5 ∧ keyLen ≤ 0xffff ∧ valLen ≤ 0xffff) ∨
        (header = 8 ∧ keyLen ≤ 0xffffff ∧ valLen ≤ 0xffffffff)) := by
  unfold headerLen at found
  split at found
  · cases found
  · rename_i positive
    refine ⟨Nat.pos_of_ne_zero positive, ?_⟩
    split at found
    · rename_i bounds
      cases found
      exact Or.inl ⟨rfl, bounds⟩
    · split at found
      · rename_i bounds
        cases found
        exact Or.inr (Or.inl ⟨rfl, bounds⟩)
      · split at found
        · rename_i bounds
          cases found
          exact Or.inr (Or.inr (Or.inl ⟨rfl, bounds⟩))
        · split at found
          · rename_i bounds
            cases found
            exact Or.inr (Or.inr (Or.inr ⟨rfl, bounds⟩))
          · cases found

theorem encodeHeader_length {keyLen valLen header : Nat} (found : headerLen keyLen valLen = some header) :
    (encodeHeader header keyLen valLen).length = header := by
  rcases (headerLen_cases found).2 with ⟨rfl, _⟩ | ⟨rfl, _⟩ | ⟨rfl, _⟩ | ⟨rfl, _⟩ <;>
    simp [encodeHeader]

theorem record_length {header : Nat} {key val : List UInt8}
    (found : headerLen key.length val.length = some header) :
    (record header key val).length = header + key.length + val.length := by
  simp only [record, List.length_append, encodeHeader_length found]

theorem first_byte {memory : Nat → UInt8} {pos word : Nat}
    (holds : Bytes.Holds memory pos (Bytes.encodeWord 1 word)) (small : word < 256) :
    (memory pos).toNat = word := by
  have found := Bytes.readWord_of_holds holds (by simpa using small)
  simpa [Bytes.readWord] using found

/-- Unpacking a record gives the lengths and the places of its key and value,
whichever header it has. -/
theorem hkvUnpack_record {kvdata : Nat → UInt8} {pos header : Nat} {key val : List UInt8}
    (found : headerLen key.length val.length = some header)
    (holds : Bytes.Holds kvdata pos (record header key val)) :
    hkvUnpack kvdata pos = ⟨key.length, val.length, pos + header, pos + header + key.length⟩ := by
  have start := (Bytes.holds_append.mp (Bytes.holds_append.mp holds).1).1
  rcases headerLen_cases found with ⟨positive, ⟨rfl, keyBound, valBound⟩ | ⟨rfl, keyBound, valBound⟩ |
    ⟨rfl, keyBound, valBound⟩ | ⟨rfl, keyBound, valBound⟩⟩
  · have first := first_byte start (by omega)
    unfold hkvUnpack
    simp only [first]
    rw [if_neg (by omega), if_neg (by omega), if_pos (by omega)]
    congr 1 <;> omega
  · rcases Bytes.holds_append.mp start with ⟨flag, valLen⟩
    have first := first_byte flag (by omega)
    have second := Bytes.readWord_of_holds valLen (by omega)
    rw [Bytes.encodeWord_length] at second
    unfold hkvUnpack
    simp only [first, second]
    rw [if_neg (by omega), if_neg (by omega), if_neg (by omega)]
    congr 1 <;> omega
  · rcases Bytes.holds_append.mp start with ⟨front, valLen⟩
    rcases Bytes.holds_append.mp front with ⟨flag, keyLen⟩
    have first := first_byte flag (by omega)
    have second := Bytes.readWord_of_holds keyLen (by omega)
    have third := Bytes.readWord_of_holds valLen (by omega)
    simp only [List.length_append, Bytes.encodeWord_length, Nat.reduceAdd] at second third
    simp [hkvUnpack, first, second, third]
  · rcases Bytes.holds_append.mp start with ⟨front, valLen⟩
    rcases Bytes.holds_append.mp front with ⟨flag, keyLen⟩
    have first := first_byte flag (by omega)
    have second := Bytes.readWord_of_holds keyLen (by omega)
    have third := Bytes.readWord_of_holds valLen (by omega)
    simp only [List.length_append, Bytes.encodeWord_length, Nat.reduceAdd] at second third
    simp [hkvUnpack, first, second, third]

theorem record_key {kvdata : Nat → UInt8} {pos header : Nat} {key val : List UInt8}
    (found : headerLen key.length val.length = some header)
    (holds : Bytes.Holds kvdata pos (record header key val)) :
    Bytes.Holds kvdata (pos + header) key := by
  have front := (Bytes.holds_append.mp (Bytes.holds_append.mp holds).1).2
  rwa [encodeHeader_length found] at front

theorem record_val {kvdata : Nat → UInt8} {pos header : Nat} {key val : List UInt8}
    (found : headerLen key.length val.length = some header)
    (holds : Bytes.Holds kvdata pos (record header key val)) :
    Bytes.Holds kvdata (pos + header + key.length) val := by
  have back := (Bytes.holds_append.mp holds).2
  rwa [List.length_append, encodeHeader_length found, ← Nat.add_assoc] at back

/-! ## The log -/

/-- `SXE_CDB_HKV_LIST` -/
structure Links where
  countToUse : Nat
  nextHkvPos : Nat
  lastHkvPos : Nat

def Links.bytes (links : Links) : List UInt8 :=
  Bytes.encodeWord 4 links.countToUse ++ Bytes.encodeWord 4 links.nextHkvPos ++
    Bytes.encodeWord 4 links.lastHkvPos

theorem Links.bytes_length (links : Links) : links.bytes.length = hkvListBytes := by
  simp [Links.bytes, hkvListBytes]

def Links.Small (links : Links) : Prop :=
  links.countToUse < 2 ^ 32 ∧ links.nextHkvPos < 2 ^ 32 ∧ links.lastHkvPos < 2 ^ 32

/-- Any twelve bytes can be read as links. -/
theorem exists_links {block : List UInt8} (length : block.length = hkvListBytes) :
    ∃ links : Links, links.Small ∧ links.bytes = block := by
  simp only [hkvListBytes] at length
  rcases Bytes.exists_encodeWord (block.take 4) with ⟨first, smallFirst, encodedFirst⟩
  rcases Bytes.exists_encodeWord ((block.drop 4).take 4) with ⟨second, smallSecond, encodedSecond⟩
  rcases Bytes.exists_encodeWord (block.drop 8) with ⟨third, smallThird, encodedThird⟩
  have lengthFirst : (block.take 4).length = 4 := by simp [length]
  have lengthSecond : ((block.drop 4).take 4).length = 4 := by simp [length]
  have lengthThird : (block.drop 8).length = 4 := by simp [length]
  rw [lengthFirst] at smallFirst encodedFirst
  rw [lengthSecond] at smallSecond encodedSecond
  rw [lengthThird] at smallThird encodedThird
  refine ⟨⟨first, second, third⟩, ⟨smallFirst, smallSecond, smallThird⟩, ?_⟩
  have split : block.drop 4 = (block.drop 4).take 4 ++ block.drop 8 := by
    have rest : block.drop 8 = (block.drop 4).drop 4 := by rw [List.drop_drop]
    rw [rest, List.take_append_drop]
  calc Links.bytes ⟨first, second, third⟩
      = block.take 4 ++ (block.drop 4).take 4 ++ block.drop 8 := by
        rw [Links.bytes, ← encodedFirst, ← encodedSecond, ← encodedThird]
    _ = block := by rw [List.append_assoc, ← split, List.take_append_drop]

/-- What a record was made for: a value put, or a counter of a list. -/
inductive Content where
  | plain (val : List UInt8)
  | counter (countsList : Nat)

structure Entry where
  key : List UInt8
  content : Content

def Entry.val (entry : Entry) (links : Links) : List UInt8 :=
  match entry.content with
  | .plain val => val
  | .counter _ => links.bytes

def Entry.valLen (entry : Entry) : Nat :=
  match entry.content with
  | .plain val => val.length
  | .counter _ => hkvListBytes

theorem Entry.val_length (entry : Entry) (links : Links) : (entry.val links).length = entry.valLen := by
  unfold Entry.val Entry.valLen
  cases entry.content with
  | plain val => rfl
  | counter countsList => exact Links.bytes_length links

/-- The header and the whole length of a logged record. -/
def Entry.header (entry : Entry) : Option Nat := headerLen entry.key.length entry.valLen

def Entry.length (entry : Entry) : Nat := entry.header.getD 0 + entry.key.length + entry.valLen

/-- A log that maps positions to entries, with the links of the counters. -/
structure Log where
  entries : Nat → Option Entry
  links : Nat → Links

/-- The bytes of `kvdata` are those of the logged records. -/
structure Stored (kvdata : Nat → UInt8) (used : Nat) (log : Log) : Prop where
  admitted : ∀ {pos entry}, log.entries pos = some entry → ∃ header, entry.header = some header
  holds : ∀ {pos entry header}, log.entries pos = some entry → entry.header = some header →
    Bytes.Holds kvdata pos (record header entry.key (entry.val (log.links pos)))
  positive : ∀ {pos entry}, log.entries pos = some entry → 1 ≤ pos
  within : ∀ {pos entry}, log.entries pos = some entry → pos + entry.length ≤ used
  apart : ∀ {pos entry other second}, log.entries pos = some entry → log.entries other = some second →
    pos < other → pos + entry.length ≤ other
  small : ∀ pos, (log.links pos).Small

namespace Stored

variable {kvdata : Nat → UInt8} {used : Nat} {log : Log} {pos : Nat} {entry : Entry}

theorem headerLen_val {header : Nat} (found : entry.header = some header) (links : Links) :
    headerLen entry.key.length (entry.val links).length = some header := by
  rw [Entry.val_length]
  exact found

/-- What unpacking a logged record gives. -/
theorem unpack (stored : Stored kvdata used log) (logged : log.entries pos = some entry) :
    ∃ header, entry.header = some header ∧
      hkvUnpack kvdata pos =
        ⟨entry.key.length, entry.valLen, pos + header, pos + header + entry.key.length⟩ := by
  rcases stored.admitted logged with ⟨header, found⟩
  have whole := hkvUnpack_record (headerLen_val found (log.links pos)) (stored.holds logged found)
  rw [Entry.val_length] at whole
  exact ⟨header, found, whole⟩

theorem key (stored : Stored kvdata used log) (logged : log.entries pos = some entry) :
    Bytes.read kvdata (hkvUnpack kvdata pos).key entry.key.length = entry.key := by
  rcases stored.unpack logged with ⟨header, found, whole⟩
  rw [whole]
  exact Bytes.read_of_holds (record_key (headerLen_val found _) (stored.holds logged found))

theorem val (stored : Stored kvdata used log) (logged : log.entries pos = some entry) :
    Bytes.Holds kvdata (hkvUnpack kvdata pos).val (entry.val (log.links pos)) := by
  rcases stored.unpack logged with ⟨header, found, whole⟩
  rw [whole]
  exact record_val (headerLen_val found _) (stored.holds logged found)

theorem record_length_eq {header : Nat} (found : entry.header = some header) (links : Links) :
    (record header entry.key (entry.val links)).length = entry.length := by
  rw [record_length (headerLen_val found links), Entry.length, found, Entry.val_length, Option.getD_some]

theorem length_pos {header : Nat} (found : entry.header = some header) : 1 ≤ entry.length := by
  have positive := (headerLen_cases found).1
  simp only [Entry.length]
  omega

theorem not_logged_at_end (stored : Stored kvdata used log) : log.entries used = none := by
  cases logged : log.entries used with
  | none => rfl
  | some entry =>
      rcases stored.admitted logged with ⟨header, found⟩
      have within := stored.within logged
      have positive := length_pos found
      omega

theorem countToUse (stored : Stored kvdata used log) {countsList : Nat}
    (logged : log.entries pos = some entry) (counter : entry.content = .counter countsList) :
    countToUse kvdata (hkvUnpack kvdata pos).val = (log.links pos).countToUse ∧
      nextHkvPos kvdata (hkvUnpack kvdata pos).val = (log.links pos).nextHkvPos ∧
      lastHkvPos kvdata (hkvUnpack kvdata pos).val = (log.links pos).lastHkvPos := by
  have holds := stored.val logged
  have small := stored.small pos
  simp only [Entry.val, counter, Links.bytes] at holds
  rcases Bytes.holds_append.mp holds with ⟨front, last⟩
  rcases Bytes.holds_append.mp front with ⟨count, next⟩
  simp only [List.length_append, Bytes.encodeWord_length] at last next
  refine ⟨?_, ?_, ?_⟩
  · exact Bytes.readWord_of_holds count (by simpa using small.1)
  · exact Bytes.readWord_of_holds next (by simpa using small.2.1)
  · exact Bytes.readWord_of_holds last (by simpa using small.2.2)

/-- Writing inside the value of a counter changes the links of that counter. -/
theorem write_links (stored : Stored kvdata used log) {countsList : Nat}
    (logged : log.entries pos = some entry) (counter : entry.content = .counter countsList)
    {offset : Nat} {block : List UInt8} (inside : offset + block.length ≤ hkvListBytes) {links : Links}
    (small : links.Small)
    (written : Bytes.Holds (Bytes.write kvdata ((hkvUnpack kvdata pos).val + offset) block)
      (hkvUnpack kvdata pos).val links.bytes) :
    Stored (Bytes.write kvdata ((hkvUnpack kvdata pos).val + offset) block) used
      { log with links := Function.update log.links pos links } := by
  rcases stored.unpack logged with ⟨header, found, whole⟩
  have valPlace : (hkvUnpack kvdata pos).val = pos + header + entry.key.length := by rw [whole]
  have length : entry.length = header + entry.key.length + hkvListBytes := by
    simp only [Entry.length, found, Option.getD_some, Entry.valLen, counter]
  rw [valPlace] at written ⊢
  refine ⟨stored.admitted, ?_, stored.positive, stored.within, stored.apart, ?_⟩
  · intro other second otherHeader otherLogged otherFound
    by_cases same : other = pos
    · subst same
      have equal : second = entry := Option.some.inj (otherLogged.symm.trans logged)
      subst equal
      have equalHeader : otherHeader = header := Option.some.inj (otherFound.symm.trans found)
      subst equalHeader
      have before := Bytes.holds_append.mp (stored.holds logged found)
      have form : second.val (Function.update log.links other links other) = links.bytes := by
        simp only [Entry.val, counter, Function.update_self]
      have lengths : (second.val (log.links other)).length = links.bytes.length := by
        rw [Entry.val_length, Links.bytes_length, Entry.valLen, counter]
      have frontLength := encodeHeader_length (headerLen_val otherFound (log.links other))
      rw [form, record, ← lengths]
      refine Bytes.holds_append.mpr ⟨?_, ?_⟩
      · apply Bytes.holds_write_of_disjoint before.1
        rw [List.length_append, frontLength]
        omega
      · rw [List.length_append, frontLength, ← Nat.add_assoc]
        exact written
    · simp only [Function.update_of_ne same]
      apply Bytes.holds_write_of_disjoint (stored.holds otherLogged otherFound)
      rw [record_length_eq otherFound]
      rcases Nat.lt_or_gt_of_ne same with before | after
      · have gap := stored.apart otherLogged logged before
        omega
      · have gap := stored.apart logged otherLogged after
        omega
  · intro other
    by_cases same : other = pos
    · subst same
      simpa using small
    · simpa [Function.update_of_ne same] using stored.small other

end Stored

/-! ## Writing the links of a counter -/

section

variable {cdb : Instance} {log : Log} {pos countsList : Nat} {entry : Entry}

theorem links_holds {memory : Nat → UInt8} {place : Nat} {links : Links} :
    Bytes.Holds memory place links.bytes ↔
      Bytes.Holds memory place (Bytes.encodeWord 4 links.countToUse) ∧
      Bytes.Holds memory (place + 4) (Bytes.encodeWord 4 links.nextHkvPos) ∧
      Bytes.Holds memory (place + 8) (Bytes.encodeWord 4 links.lastHkvPos) := by
  simp only [Links.bytes, Bytes.holds_append, List.length_append, Bytes.encodeWord_length,
    Nat.reduceAdd, and_assoc]

theorem counter_holds (stored : Stored cdb.kvdata cdb.kvdataUsed log)
    (logged : log.entries pos = some entry) (counter : entry.content = .counter countsList) :
    Bytes.Holds cdb.kvdata (hkvUnpack cdb.kvdata pos).val (log.links pos).bytes := by
  have holds := stored.val logged
  simpa only [Entry.val, counter] using holds

theorem setCountToUse_stored (stored : Stored cdb.kvdata cdb.kvdataUsed log)
    (logged : log.entries pos = some entry) (counter : entry.content = .counter countsList)
    {c : Nat} (small : c < 2 ^ 32) :
    Stored (setCountToUse cdb (hkvUnpack cdb.kvdata pos).val c).kvdata cdb.kvdataUsed
      { log with links := Function.update log.links pos { log.links pos with countToUse := c } } := by
  have words := links_holds.mp (counter_holds stored logged counter)
  have others := stored.small pos
  refine stored.write_links logged counter (show 0 + _ ≤ _ by simp [hkvListBytes]) ⟨small, others.2⟩ ?_
  refine links_holds.mpr ⟨Bytes.holds_write _ _ _, ?_, ?_⟩
  · exact Bytes.holds_write_of_disjoint words.2.1 (by simp)
  · exact Bytes.holds_write_of_disjoint words.2.2 (by simp)

theorem setNextHkvPos_stored (stored : Stored cdb.kvdata cdb.kvdataUsed log)
    (logged : log.entries pos = some entry) (counter : entry.content = .counter countsList)
    {next : Nat} (small : next < 2 ^ 32) :
    Stored (setNextHkvPos cdb (hkvUnpack cdb.kvdata pos).val next).kvdata cdb.kvdataUsed
      { log with links := Function.update log.links pos { log.links pos with nextHkvPos := next } } := by
  have words := links_holds.mp (counter_holds stored logged counter)
  have others := stored.small pos
  refine stored.write_links logged counter (by simp [hkvListBytes]) ⟨others.1, small, others.2.2⟩ ?_
  refine links_holds.mpr ⟨?_, Bytes.holds_write _ _ _, ?_⟩
  · exact Bytes.holds_write_of_disjoint words.1 (by simp)
  · exact Bytes.holds_write_of_disjoint words.2.2 (by simp)

theorem setLastHkvPos_stored (stored : Stored cdb.kvdata cdb.kvdataUsed log)
    (logged : log.entries pos = some entry) (counter : entry.content = .counter countsList)
    {last : Nat} (small : last < 2 ^ 32) :
    Stored (setLastHkvPos cdb (hkvUnpack cdb.kvdata pos).val last).kvdata cdb.kvdataUsed
      { log with links := Function.update log.links pos { log.links pos with lastHkvPos := last } } := by
  have words := links_holds.mp (counter_holds stored logged counter)
  have others := stored.small pos
  refine stored.write_links logged counter (by simp [hkvListBytes]) ⟨others.1, others.2.1, small⟩ ?_
  refine links_holds.mpr ⟨?_, ?_, Bytes.holds_write _ _ _⟩
  · exact Bytes.holds_write_of_disjoint words.1 (by simp)
  · exact Bytes.holds_write_of_disjoint words.2.1 (by simp)

/-- Unpacking depends on the log alone, so a pointer to a value stays good
while links are written. -/
theorem unpack_val_eq {first second : Nat → UInt8} {used otherUsed : Nat} {otherLog : Log}
    (before : Stored first used log) (after : Stored second otherUsed otherLog)
    (logged : log.entries pos = some entry) (still : otherLog.entries pos = some entry) :
    hkvUnpack second pos = hkvUnpack first pos := by
  rcases before.unpack logged with ⟨header, found, whole⟩
  rcases after.unpack still with ⟨other, again, same⟩
  have equal : other = header := Option.some.inj (again.symm.trans found)
  rw [whole, same, equal]

theorem setLinks_stored (stored : Stored cdb.kvdata cdb.kvdataUsed log)
    (logged : log.entries pos = some entry) (counter : entry.content = .counter countsList)
    {links : Links} (small : links.Small) :
    Stored (setLinks cdb (hkvUnpack cdb.kvdata pos).val links.countToUse links.nextHkvPos
        links.lastHkvPos).kvdata cdb.kvdataUsed
      { log with links := Function.update log.links pos links } := by
  have first := setCountToUse_stored stored logged counter small.1
  have place := unpack_val_eq stored first logged logged
  have second := @setNextHkvPos_stored (setCountToUse cdb (hkvUnpack cdb.kvdata pos).val links.countToUse)
    _ pos countsList entry first logged counter _ small.2.1
  have place' := unpack_val_eq first second logged logged
  have third := @setLastHkvPos_stored
    (setNextHkvPos (setCountToUse cdb (hkvUnpack cdb.kvdata pos).val links.countToUse) _ links.nextHkvPos)
    _ pos countsList entry second logged counter _ small.2.2
  rw [place', place] at third
  simp only [Function.update_self, Function.update_idem] at third
  exact third

end

end SxeCdb
end LibKit
