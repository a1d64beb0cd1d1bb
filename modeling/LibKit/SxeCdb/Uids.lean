import LibKit.SxeCdb.Lookup

namespace LibKit
namespace SxeCdb

/-!
# Uids name records

A uid holds a place in the table of sheet indexes, a row and a cell.  When a
sheet is split, its cells keep their rows and cells, and the table leads to the
sheet that each of them is in then, so a uid goes on leading to its record.

A record is read through a copy in a buffer of the thread.  The length of the
buffer is kept when the buffer is freed, so that a later copy of a record that
is not longer goes to no buffer at all.
-/

/-! ## The buffer of a thread -/

/-- `sxe_cdb_tls_hkv` and `sxe_cdb_tls_hkv_len_max` -/
structure Tls where
  hkv : Option (List UInt8)
  hkvLenMax : Nat
deriving DecidableEq

/-- The field `hkv_len` that `sxe_cdb_hkv_unpack` sets. -/
def hkvLen (kvdata : Nat → UInt8) (pos : Nat) : Nat :=
  ((hkvUnpack kvdata pos).val - pos + (hkvUnpack kvdata pos).valLen) % 2 ^ 32

/-- The call of `kit_realloc` in `sxe_cdb_copy_hkv_to_tls`, which succeeds.  The
new bytes, whatever they are, are written before they are read. -/
def Tls.realloc (tls : Tls) (len : Nat) : Tls :=
  ⟨some ((tls.hkv.getD [] ++ List.replicate len 0).take len), len⟩

/-- `sxe_cdb_copy_hkv_to_tls`; there is no result of copying to a null pointer or
beyond the end of the buffer. -/
def copyHkvToTls (cdb : Instance) (hkvPos : Nat) (tls : Tls) : Option Tls :=
  let len := hkvLen cdb.kvdata hkvPos
  let tls := if len > tls.hkvLenMax then tls.realloc len else tls
  if tls.hkvLenMax ≥ len then
    tls.hkv.bind fun buffer =>
      if len ≤ buffer.length then
        some { tls with hkv := some (Bytes.read cdb.kvdata hkvPos len ++ buffer.drop len) }
      else none
  else some tls

/-- The key and the value that `sxe_cdb_tls_hkv_part` points to. -/
structure HkvCopy where
  key : List UInt8
  val : List UInt8
deriving DecidableEq

/-- The parts of the buffer after the record at a position was copied. -/
def Tls.part (tls : Tls) (cdb : Instance) (hkvPos : Nat) : HkvCopy :=
  let part := hkvUnpack cdb.kvdata hkvPos
  let len := hkvLen cdb.kvdata hkvPos
  let buffer := tls.hkv.getD []
  ⟨(buffer.drop (len - part.keyLen - part.valLen)).take part.keyLen, (buffer.drop (len - part.valLen)).take part.valLen⟩

/-- `sxe_cdb_finalize_thread` -/
def finalizeThread (tls : Tls) : Tls := { tls with hkv := none }

/-! ## Uids -/

def cellOf (cdb : Instance) (uid : Uid) : Cell := cdb.sheets (cdb.sheetsIndex uid.sheetsIndexIndex) uid.row uid.cell

/-- `sxe_cdb_instance_get_uid`: the cells of both rows, in turns. -/
def getUid (cdb : Instance) (prepared : Prepared) : Option Uid :=
  ((List.range keysPerRow).flatMap fun cell =>
    [(⟨prepared.sheetIndex, prepared.row1, cell⟩ : Uid), ⟨prepared.sheetIndex, prepared.row2, cell⟩]).find?
      fun uid => matchesCell cdb.kvdata prepared (cellOf cdb uid)

/-- `sxe_cdb_instance_get_uid_hkv`; there is no result if an assertion fails. -/
def getUidHkv (cdb : Instance) (tls : Tls) (uid : Uid) : Option (Option HkvCopy × Tls) :=
  if uid.cell < keysPerRow ∧ uid.row < rowsPerSheet ∧ uid.sheetsIndexIndex < sheetsMax ∧
      cdb.sheetsIndex uid.sheetsIndexIndex < cdb.sheetsSize then
    if (cellOf cdb uid).hkvPos ≠ 0 then
      (copyHkvToTls cdb (cellOf cdb uid).hkvPos tls).map fun tls =>
        (some (tls.part cdb (cellOf cdb uid).hkvPos), tls)
    else some (none, tls)
  else none

/-! ## Places of records -/

/-- The records of an instance are at the same rows, cells and places in the
table of sheet indexes in another one. -/
def Keeps (cdb next : Instance) : Prop :=
  ∀ s r c, (cdb.sheets s r c).hkvPos ≠ 0 →
    next.sheets (next.sheetsIndex ((cdb.sheets s r c).hashHi.toNat % sheetsMax)) r c = cdb.sheets s r c

theorem Keeps.trans {first second third : Instance} (left : Keeps first second) (right : Keeps second third) :
    Keeps first third := by
  intro s r c used
  have middle := left s r c used
  have last := right (second.sheetsIndex ((first.sheets s r c).hashHi.toNat % sheetsMax)) r c
    (by rw [middle]; exact used)
  rwa [middle] at last

theorem Keeps.congr {first second third : Instance} (keeps : Keeps first second) (sheets : third.sheets = second.sheets)
    (index : third.sheetsIndex = second.sheetsIndex) : Keeps first third := by
  rw [Keeps, sheets, index]
  exact keeps

section

variable {sum : List UInt8 → Fin 8 → UInt16} {cdb : Instance} {entries : Nat → Option Entry}

theorem Housed.keeps (housed : Housed cdb) : Keeps cdb cdb := by
  intro s r c used
  rw [housed.sheet used]

/-- A split moves cells to another sheet only. -/
theorem splitMapped_keeps (housed : Housed cdb) {sheet : Nat} (bound : sheet < cdb.sheetsSize) :
    Keeps cdb (splitMapped cdb sheet) := by
  intro s r c used
  have old : sheet ≠ cdb.sheetsSize := Nat.ne_of_lt bound
  have newIndex : (splitMapped cdb sheet).sheetsIndex = splitSheetIndex cdb sheet := by
    rw [splitMapped_eq]
  have inside := housed.bounds used
  have place := housed.sheet used
  have size : s ≠ cdb.sheetsSize := by
    rintro rfl
    exact used (housed.new_sheet r c)
  rw [newIndex, splitMapped_cell cdb old _ inside.1 inside.2]
  rcases splitSheetIndex_cases cdb sheet ((cdb.sheets s r c).hashHi.toNat % sheetsMax) with same | ⟨wasThis, isThat⟩
  · rw [same, place, if_neg size]
    by_cases this : s = sheet
    · subst this
      rw [if_neg]
      rintro ⟨-, moves⟩
      exact size (place.symm.trans (same.symm.trans moves))
    · rw [if_neg this, ite_self]
  · rw [place] at wasThis
    subst wasThis
    rw [if_pos ⟨used, isThat⟩, if_pos isThat]

theorem Retries.keeps {prepared : Prepared} {after : Instance} {place : Option Place}
    {result : Option (Option Place × Instance)} (retries : Retries prepared cdb result) (housed : Housed cdb)
    (isResult : result = some (place, after)) : Housed after ∧ Keeps cdb after := by
  induction retries with
  | found isFree =>
      cases isResult
      exact ⟨housed, housed.keeps⟩
  | most full maximum =>
      cases isResult
      exact ⟨housed, housed.keeps⟩
  | fails => cases isResult
  | split full room mapped later ih =>
      have bound := housed.indexes _ (sheetIndex_lt prepared)
      cases (splitSheet_some mapped).2
      have kept := ih (housed.splitMapped bound) isResult
      exact ⟨kept.1, (splitMapped_keeps housed bound).trans kept.2⟩

theorem setCell_keeps {next after : Instance} (keeps : Keeps cdb next) {prepared : Prepared} {place : Place}
    (free : Free next prepared place) {content : Cell} (index : after.sheetsIndex = next.sheetsIndex)
    (sheets : after.sheets = setCell next.sheets place.sheet place.row place.cell content) : Keeps cdb after := by
  intro s r c used
  have before := keeps s r c used
  rw [index, sheets, setCell, if_neg]
  · exact before
  · rintro ⟨sheet, row, cell⟩
    rw [sheet, row, cell] at before
    rw [row, cell] at used
    exact used (before ▸ free.empty)

theorem putVal_keeps (sized : Sized cdb) (indexed : Indexed sum cdb entries) {key val : List UInt8} {uid : Option Uid}
    {after : Instance} (put : putVal cdb (prepare sum key) val = some (uid, after)) :
    Keeps cdb after ∧ ∀ place, uid = some place → place.sheetsIndexIndex = (prepare sum key).sheetIndex ∧
      cellOf after place = ⟨(prepare sum key).hash1, (prepare sum key).hash0, cdb.kvdataUsed⟩ := by
  rcases putVal_some sized put with ⟨rfl, rfl⟩ | ⟨header, place, found, -, -, retries, same⟩
  · refine ⟨indexed.housed.keeps, ?_⟩
    intro place same
    cases same
  have keeps := (retries.keeps indexed.housed rfl).2
  cases place with
  | none =>
      cases same
      refine ⟨keeps, ?_⟩
      intro other isSome
      cases isSome
  | some place =>
      have free := (retries.indexed indexed rfl).2 place rfl
      have sameUsed := retries.kvdata.2.2.1
      cases same
      refine ⟨setCell_keeps keeps free rfl rfl, ?_⟩
      intro other isSome
      cases isSome
      refine ⟨rfl, ?_⟩
      simp only [cellOf, writeRecord, free.sheet, setCell, and_self, if_true, sameUsed]

theorem step_keeps (sized : Sized cdb) (indexed : Indexed sum cdb entries) {call : Call} {answer : Answer}
    {next : Instance} (stepped : step sum cdb call = some (answer, next)) : Keeps cdb next := by
  rcases step_store stepped with ⟨-, -, -, -, -, -, store⟩ | ⟨key, val, uid, after, -, put, store⟩
  · exact indexed.housed.keeps.congr store.sheets store.sheetsIndex
  · exact (putVal_keeps sized indexed put).1.congr store.sheets store.sheetsIndex

structure Names (cdb : Instance) (uid : Uid) (pos : Nat) : Prop where
  place : (cellOf cdb uid).hkvPos = pos
  used : pos ≠ 0
  index : (cellOf cdb uid).hashHi.toNat % sheetsMax = uid.sheetsIndexIndex

theorem Names.keep {next : Instance} {uid : Uid} {pos : Nat} (names : Names cdb uid pos) (keeps : Keeps cdb next) :
    Names next uid pos := by
  have used : (cellOf cdb uid).hkvPos ≠ 0 := names.place ▸ names.used
  have same : cellOf next uid = cellOf cdb uid := by
    have kept := keeps _ uid.row uid.cell used
    rw [← cellOf, names.index] at kept
    exact kept
  exact ⟨same ▸ names.place, names.used, same ▸ names.index⟩

theorem Indexed.uid_unique (indexed : Indexed sum cdb entries) {first second : Uid} {pos : Nat}
    (names : Names cdb first pos) (names' : Names cdb second pos) : first = second := by
  have used : (cellOf cdb first).hkvPos ≠ 0 := names.place ▸ names.used
  rcases indexed.unique _ _ _ _ _ _ used (names.place.trans names'.place.symm) with ⟨sheet, row, cell⟩
  have index := names.index
  rw [cellOf, sheet, row, cell, ← cellOf, names'.index] at index
  rcases first with ⟨index1, row1, cell1⟩
  rcases second with ⟨index2, row2, cell2⟩
  rw [Uid.mk.injEq]
  exact ⟨index.symm, row, cell⟩

/-! ## Lookups -/

theorem getHkvRaw_eq (prepared : Prepared) :
    getHkvRaw cdb prepared = (getUid cdb prepared).map fun uid => (cellOf cdb uid).hkvPos := by
  have cells : ((List.range keysPerRow).flatMap fun cell =>
      [cdb.sheets (cdb.sheetsIndex prepared.sheetIndex) prepared.row1 cell,
        cdb.sheets (cdb.sheetsIndex prepared.sheetIndex) prepared.row2 cell]) =
      ((List.range keysPerRow).flatMap fun cell => [(⟨prepared.sheetIndex, prepared.row1, cell⟩ : Uid),
        ⟨prepared.sheetIndex, prepared.row2, cell⟩]).map (cellOf cdb) := by
    rw [List.map_flatMap]
    rfl
  rw [getHkvRaw, getUid, cells, List.find?_map, Option.map_map]
  rfl

theorem getUid_names {log : Log} {used : Nat} {key : List UInt8} (stored : Stored cdb.kvdata used log)
    (indexed : Indexed sum cdb log.entries) {uid : Uid} (found : getUid cdb (prepare sum key) = some uid) :
    ∃ pos entry, Names cdb uid pos ∧ log.entries pos = some entry ∧ entry.key = key := by
  have raw : getHkvRaw cdb (prepare sum key) = some (cellOf cdb uid).hkvPos := by
    rw [getHkvRaw_eq, found]
    rfl
  rcases getHkvRaw_some stored indexed raw with ⟨entry, logged, same⟩
  have matched := List.find?_some found
  simp only [matchesCell, decide_eq_true_eq] at matched
  have member := List.mem_of_find?_eq_some found
  have index : uid.sheetsIndexIndex = (prepare sum key).sheetIndex := by
    rcases List.mem_flatMap.mp member with ⟨cell, _, inside⟩
    simp only [List.mem_cons, List.not_mem_nil, or_false] at inside
    rcases inside with rfl | rfl
    · rfl
    · rfl
  refine ⟨_, entry, ⟨rfl, matched.2.2.1, ?_⟩, logged, same⟩
  rw [← matched.2.1, index]
  rfl

/-! ## Copies -/

/-- The buffer has the length that is kept beside it. -/
def Tls.Sized (tls : Tls) : Prop := ∀ buffer, tls.hkv = some buffer → buffer.length = tls.hkvLenMax

theorem hkvLen_eq {log : Log} {kvdata : Nat → UInt8} {used pos : Nat} {entry : Entry} (stored : Stored kvdata used log)
    (bound : used < 2 ^ 32) (logged : log.entries pos = some entry) : hkvLen kvdata pos = entry.length := by
  rcases stored.unpack logged with ⟨header, found, whole⟩
  have within := stored.within logged
  have length : entry.length = header + entry.key.length + entry.valLen := by
    rw [Entry.length, found]
    rfl
  rw [hkvLen, whole]
  dsimp only
  omega

/-- The copy of a logged record. -/
theorem copyHkvToTls_logged {log : Log} {used pos : Nat} {entry : Entry} {tls : Tls}
    (stored : Stored cdb.kvdata used log)
    (bound : used < 2 ^ 32) (logged : log.entries pos = some entry) (sized : tls.Sized)
    (ready : tls.hkv = none → tls.hkvLenMax < hkvLen cdb.kvdata pos) :
    ∃ copy, copyHkvToTls cdb pos tls = some copy ∧ copy.Sized ∧
      copy.part cdb pos = ⟨entry.key, entry.val (log.links pos)⟩ := by
  rcases stored.unpack logged with ⟨header, found, whole⟩
  have length := hkvLen_eq stored bound logged
  have bytes := Stored.record_length_eq found (log.links pos)
  have read : Bytes.read cdb.kvdata pos entry.length = record header entry.key (entry.val (log.links pos)) := by
    rw [← bytes]
    exact Bytes.read_of_holds (stored.holds logged found)
  -- the buffer, grown if it is too short, has room for the record
  have room : ∃ buffer, (if entry.length > tls.hkvLenMax then tls.realloc entry.length else tls) =
      ⟨some buffer, buffer.length⟩ ∧ entry.length ≤ buffer.length := by
    by_cases short : entry.length > tls.hkvLenMax
    · rw [if_pos short, Tls.realloc]
      generalize made : (tls.hkv.getD [] ++ List.replicate entry.length 0).take entry.length = buffer
      have size : buffer.length = entry.length := by
        rw [← made, List.length_take, List.length_append, List.length_replicate]
        omega
      exact ⟨buffer, by rw [size], Nat.le_of_eq size.symm⟩
    · rw [if_neg short]
      cases isBuffer : tls.hkv with
      | none =>
          rw [length] at ready
          exact absurd (ready isBuffer) short
      | some buffer =>
          have size := sized buffer isBuffer
          refine ⟨buffer, ?_, by omega⟩
          rw [size, ← isBuffer]
  rcases room with ⟨buffer, grown, enough⟩
  refine ⟨⟨some (record header entry.key (entry.val (log.links pos)) ++ buffer.drop entry.length), buffer.length⟩,
    ?_, ?_, ?_⟩
  · rw [copyHkvToTls, length, grown, if_pos enough, Option.bind_some, if_pos enough, read]
  · rintro other same
    cases same
    rw [List.length_append, bytes, List.length_drop]
    dsimp only
    omega
  · have headLength : (encodeHeader header entry.key.length (entry.val (log.links pos)).length).length = header :=
      encodeHeader_length (Stored.headerLen_val found (log.links pos))
    have total : entry.length = header + entry.key.length + entry.valLen := by
      rw [Entry.length, found]
      rfl
    have valLength := entry.val_length (log.links pos)
    rw [Tls.part, length, whole, record, HkvCopy.mk.injEq]
    dsimp only
    rw [Option.getD_some, List.append_assoc, List.append_assoc]
    constructor
    · rw [List.drop_left' (by omega), List.take_left' rfl]
    · rw [← List.append_assoc, List.drop_left' (by rw [List.length_append]; omega), List.take_left' valLength]

/-- There is a buffer for the copy of the record of a uid, or the record is
longer than the buffer that was freed. -/
def BufferOk (cdb : Instance) (tls : Tls) (uid : Uid) : Prop :=
  (cellOf cdb uid).hkvPos ≠ 0 → tls.hkv = none → tls.hkvLenMax < hkvLen cdb.kvdata (cellOf cdb uid).hkvPos

/-- The copy that is returned for the uid of a logged record. -/
theorem getUidHkv_logged {log : Log} {used pos : Nat} {entry : Entry} {tls : Tls} {uid : Uid}
    (stored : Stored cdb.kvdata used log) (bound : used < 2 ^ 32) (indexed : Indexed sum cdb log.entries)
    (logged : log.entries pos = some entry) (names : Names cdb uid pos) (sized : tls.Sized)
    (ready : BufferOk cdb tls uid) :
    ∃ copy, getUidHkv cdb tls uid = some (some ⟨entry.key, entry.val (log.links pos)⟩, copy) := by
  have isUsed : (cellOf cdb uid).hkvPos ≠ 0 := names.place ▸ names.used
  have inside := indexed.housed.bounds isUsed
  have index : uid.sheetsIndexIndex < sheetsMax := by
    rw [← names.index]
    exact Nat.mod_lt _ (by decide)
  replace ready := ready isUsed
  rw [names.place] at ready
  rcases copyHkvToTls_logged stored bound logged sized ready with ⟨copy, copied, -, part⟩
  refine ⟨copy, ?_⟩
  rw [getUidHkv, if_pos ⟨inside.2, inside.1, index, indexed.indexes _ index⟩, if_pos isUsed, names.place, copied,
    Option.map_some, part]

theorem getUidHkv_sized {log : Log} {used : Nat} {tls after : Tls} {uid : Uid} {copy : Option HkvCopy}
    (stored : Stored cdb.kvdata used log) (bound : used < 2 ^ 32) (indexed : Indexed sum cdb log.entries)
    (sized : tls.Sized)
    (ready : BufferOk cdb tls uid) (got : getUidHkv cdb tls uid = some (copy, after)) : after.Sized := by
  rw [getUidHkv] at got
  split at got
  · split at got
    · rename_i isUsed
      rcases (indexed.cells _ _ _ isUsed).2 with ⟨entry, logged, -⟩
      rcases copyHkvToTls_logged stored bound logged sized (ready isUsed) with ⟨copy, copied, isSized, -⟩
      have same : copyHkvToTls cdb (cellOf cdb uid).hkvPos tls = some copy := copied
      rw [same] at got
      cases got
      exact isSized
    · cases got
      exact sized
  · cases got

end

/-! ## Requests -/

/-- A caller stores a value or counts a key, looks a key up, or finalizes the
thread. -/
inductive Request where
  | store (call : Call)
  | getHkv (key : List UInt8)
  | getUid (key : List UInt8)
  | getUidHkv (uid : Uid)
  | finalize

inductive Reply where
  | stored (answer : Answer)
  | pos (pos : Option Nat)
  | uid (uid : Option Uid)
  | hkv (hkv : Option HkvCopy)
  | done
deriving DecidableEq

/-- One request to an instance, with the buffer of the thread. -/
def serve (sum : List UInt8 → Fin 8 → UInt16) : Instance × Tls → Request → Option (Reply × (Instance × Tls))
  | (cdb, tls), .store call => (step sum cdb call).map fun (answer, cdb) => (.stored answer, (cdb, tls))
  | (cdb, tls), .getHkv key => some (.pos (getHkvRaw cdb (prepare sum key)), (cdb, tls))
  | (cdb, tls), .getUid key => some (.uid (SxeCdb.getUid cdb (prepare sum key)), (cdb, tls))
  | (cdb, tls), .getUidHkv uid => (SxeCdb.getUidHkv cdb tls uid).map fun (hkv, tls) => (.hkv hkv, (cdb, tls))
  | (cdb, tls), .finalize => some (.done, (cdb, finalizeThread tls))

/-- The condition on a request, in the state before it. -/
def RequestOk (sum : List UInt8 → Fin 8 → UInt16) : Instance × Tls → Request → Prop
  | (cdb, _), .store call => CallOk sum cdb call
  | (cdb, tls), .getUidHkv uid => BufferOk cdb tls uid
  | _, _ => True

/-- The calls that store and count, with their answers. -/
def stores (history : History Request Reply) : History Call Answer :=
  history.filterMap fun
    | (.store call, .stored answer) => some (call, answer)
    | _ => none

def PutAs (history : History Request Reply) (key val : List UInt8) (uid : Uid) : Prop :=
  (Request.store (.put key val), Reply.stored (.uid (some uid))) ∈ history

/-- The key and the uid of a put that returned one. -/
def putOf : Request × Reply → Option (List UInt8 × Uid)
  | (.store (.put key _), .stored (.uid (some uid))) => some (key, uid)
  | _ => none

/-- The puts that returned uids, the latest first. -/
def puts (history : History Request Reply) : List (List UInt8 × Uid) := history.filterMap putOf

theorem putOf_eq_some {event : Request × Reply} {key : List UInt8} {uid : Uid} :
    putOf event = some (key, uid) ↔ ∃ val, event = (.store (.put key val), .stored (.uid (some uid))) := by
  constructor
  · intro isPut
    unfold putOf at isPut
    split at isPut
    · rename_i val _
      cases isPut
      exact ⟨val, rfl⟩
    · cases isPut
  · rintro ⟨val, rfl⟩
    rfl

theorem mem_puts {history : History Request Reply} {key : List UInt8} {uid : Uid} :
    (key, uid) ∈ puts history ↔ ∃ val, PutAs history key val uid := by
  rw [puts, List.mem_filterMap]
  constructor
  · rintro ⟨event, member, isPut⟩
    rcases putOf_eq_some.mp isPut with ⟨val, rfl⟩
    exact ⟨val, member⟩
  · rintro ⟨val, member⟩
    exact ⟨_, member, rfl⟩

/-! ## Names through a run -/

/-- The uids that were returned lead to the records that they were returned
for, and different puts returned different uids. -/
structure Titled (history : History Request Reply) (cdb : Instance) (entries : Nat → Option Entry) : Prop where
  put : ∀ {key val uid}, PutAs history key val uid →
    ∃ pos, Names cdb uid pos ∧ entries pos = some ⟨key, .plain val⟩
  made : ∀ {pos key val}, entries pos = some ⟨key, .plain val⟩ → ∃ uid, PutAs history key val uid ∧ Names cdb uid pos
  got : ∀ {key uid}, (Request.getUid key, Reply.uid (some uid)) ∈ history →
    ∃ pos entry, Names cdb uid pos ∧ entries pos = some entry ∧ entry.key = key
  distinct : ((puts history).map Prod.snd).Nodup

section

variable {sum : List UInt8 → Fin 8 → UInt16} {cdb next : Instance} {entries entries' : Nat → Option Entry}
  {tally tally' : Nat → Nat} {call : Call} {answer : Answer} {history : History Request Reply}

/-- No entry is changed. -/
theorem Effect.grows (effect : Effect sum cdb entries tally call answer entries' tally') {pos : Nat} {entry : Entry}
    (logged : entries pos = some entry) : entries' pos = some entry := by
  have update : ∀ (other : Nat) (new : Entry), entries other = none →
      Function.update entries other (some new) pos = some entry := by
    intro other new fresh
    rw [Function.update_of_ne, logged]
    rintro rfl
    rw [fresh] at logged
    cases logged
  cases effect with
  | putRefused key val => exact logged
  | incRefused key l dummy _ => exact logged
  | put key val uid other fresh => exact update other _ fresh
  | first key l dummy other fresh _ => exact update other _ fresh
  | again key l dummy other _ _ => exact logged

theorem Effect.new_plain (effect : Effect sum cdb entries tally call answer entries' tally') {pos : Nat}
    {key val : List UInt8} (logged : entries' pos = some ⟨key, .plain val⟩) :
    entries pos = some ⟨key, .plain val⟩ ∨
      entries pos = none ∧ ∃ uid, call = .put key val ∧ answer = .uid (some uid) := by
  cases effect with
  | putRefused _ _ => exact Or.inl logged
  | incRefused _ _ _ _ => exact Or.inl logged
  | put _ _ uid other fresh =>
      by_cases here : pos = other
      · subst here
        rw [Function.update_self] at logged
        cases logged
        exact Or.inr ⟨fresh, uid, rfl, rfl⟩
      · rw [Function.update_of_ne here] at logged
        exact Or.inl logged
  | first _ _ _ other fresh _ =>
      by_cases here : pos = other
      · subst here
        rw [Function.update_self] at logged
        cases logged
      · rw [Function.update_of_ne here] at logged
        exact Or.inl logged
  | again _ _ _ _ _ _ => exact Or.inl logged

theorem Effect.put_entry {key val : List UInt8} {uid : Uid}
    (effect : Effect sum cdb entries tally (.put key val) (.uid (some uid)) entries' tally') :
    ∃ pos, entries' = Function.update entries pos (some ⟨key, .plain val⟩) := by
  cases effect with
  | put _ _ _ pos _ => exact ⟨pos, rfl⟩

end

section

variable {sum : List UInt8 → Fin 8 → UInt16} {cdb next : Instance} {log log' : Log} {chains chains' : Nat → List Bucket}
  {free free' : List Nat} {tally tally' : Nat → Nat} {call : Call} {answer : Answer} {history : History Request Reply}
  {tls tls' : Tls}

theorem put_names (kept : Kept sum cdb log chains free tally) {key val : List UInt8} {uid : Uid}
    (effect : Effect sum cdb log.entries tally (.put key val) (.uid (some uid)) log'.entries tally')
    (kept' : Kept sum next log' chains' free' tally')
    (stepped : step sum cdb (.put key val) = some (.uid (some uid), next)) :
    Names next uid cdb.kvdataUsed ∧
      log'.entries = Function.update log.entries cdb.kvdataUsed (some ⟨key, .plain val⟩) := by
  have positive := kept.sized.positive
  have put : putVal cdb (prepare sum key) val = some (some uid, next) := by
    rcases Option.map_eq_some_iff.mp stepped with ⟨⟨isUid, isNext⟩, put, same⟩
    cases same
    exact put
  rcases (putVal_keeps kept.sized kept.indexed put).2 uid rfl with ⟨index, cell⟩
  have names : Names next uid cdb.kvdataUsed := by
    refine ⟨by rw [cell], by omega, ?_⟩
    rw [cell, index]
    rfl
  refine ⟨names, ?_⟩
  rcases effect.put_entry with ⟨pos, entered⟩
  have isUsed : (cellOf next uid).hkvPos ≠ 0 := names.place ▸ names.used
  rcases (kept'.indexed.cells _ _ _ isUsed).2 with ⟨entry, logged, -⟩
  rw [← cellOf, names.place] at logged
  by_cases same : cdb.kvdataUsed = pos
  · rw [entered, same]
  · rw [entered, Function.update_of_ne same, kept.stored.not_logged_at_end] at logged
    cases logged

/-- Names are kept by calls that store or count. -/
theorem Titled.store (titled : Titled history cdb log.entries) (kept : Kept sum cdb log chains free tally)
    (effect : Effect sum cdb log.entries tally call answer log'.entries tally')
    (kept' : Kept sum next log' chains' free' tally') (stepped : step sum cdb call = some (answer, next)) :
    Titled ((.store call, .stored answer) :: history) next log'.entries := by
  have keeps := step_keeps kept.sized kept.indexed stepped
  have atEnd := kept.stored.not_logged_at_end
  have new : ∀ {key val uid}, call = .put key val → answer = .uid (some uid) →
      Names next uid cdb.kvdataUsed ∧
        log'.entries = Function.update log.entries cdb.kvdataUsed (some ⟨key, .plain val⟩) := by
    rintro key val uid rfl rfl
    exact put_names kept effect kept' stepped
  refine ⟨?_, ?_, ?_, ?_⟩
  · intro key val uid isPut
    rcases List.mem_cons.mp isPut with now | before
    · cases now
      rcases new rfl rfl with ⟨names, entered⟩
      exact ⟨_, names, by rw [entered, Function.update_self]⟩
    · rcases titled.put before with ⟨pos, names, logged⟩
      exact ⟨pos, names.keep keeps, effect.grows logged⟩
  · intro pos key val logged
    rcases effect.new_plain logged with old | ⟨fresh, uid, isPut, isUid⟩
    · rcases titled.made old with ⟨uid, before, names⟩
      exact ⟨uid, List.mem_cons_of_mem _ before, names.keep keeps⟩
    · rcases new isPut isUid with ⟨names, entered⟩
      subst isPut isUid
      refine ⟨uid, List.mem_cons_self, ?_⟩
      by_cases here : pos = cdb.kvdataUsed
      · rw [here]
        exact names
      · rw [entered, Function.update_of_ne here, fresh] at logged
        cases logged
  · intro key uid got
    rcases List.mem_cons.mp got with now | before
    · cases now
    · rcases titled.got before with ⟨pos, entry, names, logged, same⟩
      exact ⟨pos, entry, names.keep keeps, effect.grows logged, same⟩
  · rw [puts, List.filterMap_cons]
    cases isPut : putOf (.store call, .stored answer) with
    | none => exact titled.distinct
    | some put =>
        rcases put with ⟨key, uid⟩
        rcases putOf_eq_some.mp isPut with ⟨val, same⟩
        cases same
        refine List.nodup_cons.mpr ⟨?_, titled.distinct⟩
        intro member
        rcases List.mem_map.mp member with ⟨⟨other, second⟩, before, same⟩
        cases same
        rcases mem_puts.mp before with ⟨value, earlier⟩
        rcases titled.put earlier with ⟨pos, names, logged⟩
        have atSame := (names.keep keeps).place.symm.trans (new rfl rfl).1.place
        rw [atSame, atEnd] at logged
        cases logged

/-- What holds after any requests that are allowed. -/
structure Served (sum : List UInt8 → Fin 8 → UInt16) (history : History Request Reply) (now : Instance × Tls)
    (log : Log)
    (chains : Nat → List Bucket) (free : List Nat) (tally : Nat → Nat) : Prop where
  kept : Kept sum now.1 log chains free tally
  recorded : Recorded (stores history) log.entries
  titled : Titled history now.1 log.entries
  sized : now.2.Sized

/-- Names are kept by a request that changes no record. -/
theorem Titled.cons (titled : Titled history cdb log.entries) {request : Request} {reply : Reply}
    (other : ∀ call, request ≠ .store call)
    (got : ∀ key uid, request = .getUid key → reply = .uid (some uid) →
      ∃ pos entry, Names cdb uid pos ∧ log.entries pos = some entry ∧ entry.key = key) :
    Titled ((request, reply) :: history) cdb log.entries := by
  refine ⟨?_, ?_, ?_, ?_⟩
  · intro key val uid isPut
    rcases List.mem_cons.mp isPut with now | before
    · cases now
      exact absurd rfl (other _)
    · exact titled.put before
  · intro pos key val logged
    rcases titled.made logged with ⟨uid, before, names⟩
    exact ⟨uid, List.mem_cons_of_mem _ before, names⟩
  · intro key uid isGot
    rcases List.mem_cons.mp isGot with now | before
    · cases now
      exact got key uid rfl rfl
    · exact titled.got before
  · rw [puts, List.filterMap_cons]
    cases isPut : putOf (request, reply) with
    | none => exact titled.distinct
    | some put =>
        rcases putOf_eq_some.mp isPut with ⟨val, same⟩
        cases same
        exact absurd rfl (other _)

theorem stores_cons_of_ne {request : Request} {reply : Reply} (other : ∀ call, request ≠ .store call) :
    stores ((request, reply) :: history) = stores history := by
  cases request with
  | store call => exact absurd rfl (other call)
  | getHkv key => rfl
  | getUid key => rfl
  | getUidHkv uid => rfl
  | finalize => rfl

theorem Served.lookup (served : Served sum history (cdb, tls) log chains free tally) {request : Request} {reply : Reply}
    (other : ∀ call, request ≠ .store call) (sized : tls'.Sized)
    (got : ∀ key uid, request = .getUid key → reply = .uid (some uid) → getUid cdb (prepare sum key) = some uid) :
    Served sum ((request, reply) :: history) (cdb, tls') log chains free tally := by
  refine ⟨served.kept, ?_, served.titled.cons other ?_, sized⟩
  · rw [stores_cons_of_ne other]
    exact served.recorded
  · exact fun key uid isGet isUid => getUid_names served.kept.stored served.kept.indexed (got key uid isGet isUid)

theorem Served.serve {now next : Instance × Tls} (served : Served sum history now log chains free tally)
    {request : Request}
    (ok : RequestOk sum now request) {reply : Reply} (done : serve sum now request = some (reply, next)) :
    ∃ log chains free tally, Served sum ((request, reply) :: history) next log chains free tally := by
  rcases now with ⟨cdb, tls⟩
  have bound := Nat.lt_of_le_of_lt served.kept.sized.used served.kept.sized.bound
  cases request with
  | store call =>
      rcases Option.map_eq_some_iff.mp done with ⟨⟨answer, after⟩, stepped, same⟩
      cases same
      rcases step_effect served.kept ok stepped with ⟨log', chains', free', tally', effect, kept'⟩
      exact ⟨log', chains', free', tally', kept', effect.recorded served.recorded,
        served.titled.store served.kept effect kept' stepped, served.sized⟩
  | getHkv key =>
      cases done
      exact ⟨log, chains, free, tally, served.lookup nofun served.sized nofun⟩
  | getUid key =>
      cases done
      refine ⟨log, chains, free, tally, served.lookup nofun served.sized ?_⟩
      intro other uid same found
      cases same
      exact Reply.uid.inj found
  | getUidHkv uid =>
      rcases Option.map_eq_some_iff.mp done with ⟨⟨copy, after⟩, got, same⟩
      cases same
      exact ⟨log, chains, free, tally, served.lookup nofun
        (getUidHkv_sized served.kept.stored bound served.kept.indexed served.sized ok got) nofun⟩
  | finalize =>
      cases done
      exact ⟨log, chains, free, tally, served.lookup nofun nofun nofun⟩

end

/-! ## Uids as names -/

/-- If there is a buffer, the copy of the record of a uid is returned. -/
def Returns (cdb : Instance) (tls : Tls) (uid : Uid) (copy : HkvCopy) : Prop :=
  BufferOk cdb tls uid → ∃ tls', getUidHkv cdb tls uid = some (some copy, tls')

/-- The uids of a history name their records: those of puts have the value that
was put, and those that were found for a key lead to what a put with this uid
has stored, or to the counter of the key. -/
structure UidsOk (sum : List UInt8 → Fin 8 → UInt16) (history : History Request Reply) (cdb : Instance) (tls : Tls) :
    Prop where
  put : ∀ key val uid, PutAs history key val uid → Returns cdb tls uid ⟨key, val⟩
  got : ∀ key uid, (Request.getUid key, Reply.uid (some uid)) ∈ history →
    (∃ val, PutAs history key val uid) ∨
      (∃ l, Counted (stores history) key l) ∧ (∀ other val, ¬ PutAs history other val uid) ∧
        ∃ val, Returns cdb tls uid ⟨key, val⟩
  again : ∀ key uid, (puts history).filter (fun put => put.1 = key) = [(key, uid)] →
    (∀ l, ¬ Counted (stores history) key l) → getUid cdb (prepare sum key) = some uid
  distinct : ((puts history).map Prod.snd).Nodup

section

variable {sum : List UInt8 → Fin 8 → UInt16} {cdb : Instance} {log : Log} {chains : Nat → List Bucket}
  {free : List Nat} {tally : Nat → Nat} {history : History Request Reply} {tls : Tls}

theorem Served.returns (served : Served sum history (cdb, tls) log chains free tally) {uid : Uid} {pos : Nat}
    {entry : Entry}
    (names : Names cdb uid pos) (logged : log.entries pos = some entry) :
    Returns cdb tls uid ⟨entry.key, entry.val (log.links pos)⟩ := by
  have bound := Nat.lt_of_le_of_lt served.kept.sized.used served.kept.sized.bound
  exact fun ready =>
    getUidHkv_logged served.kept.stored bound served.kept.indexed logged names served.sized ready

/-- The uid of a key that was put once and never counted. -/
theorem Served.again (served : Served sum history (cdb, tls) log chains free tally) {key : List UInt8} {uid : Uid}
    (once : (puts history).filter (fun put => put.1 = key) = [(key, uid)])
    (uncounted : ∀ l, ¬ Counted (stores history) key l) : getUid cdb (prepare sum key) = some uid := by
  have only : ∀ {val second}, PutAs history key val second → second = uid := by
    intro val second isPut
    have member : (key, second) ∈ (puts history).filter (fun put => put.1 = key) :=
      List.mem_filter.mpr ⟨mem_puts.mpr ⟨val, isPut⟩, decide_eq_true rfl⟩
    rw [once] at member
    exact congrArg Prod.snd (List.mem_singleton.mp member)
  have isPut : (key, uid) ∈ puts history := by
    have member : (key, uid) ∈ (puts history).filter (fun put => put.1 = key) := by
      rw [once]
      exact List.mem_cons_self
    exact (List.mem_filter.mp member).1
  rcases mem_puts.mp isPut with ⟨val, put⟩
  rcases served.titled.put put with ⟨pos, names, logged⟩
  have isFound : (getHkvRaw cdb (prepare sum key)).isSome :=
    (getHkvRaw_isSome_iff served.kept.stored served.kept.indexed).mpr ⟨pos, _, logged, rfl⟩
  rw [getHkvRaw_eq, Option.isSome_map] at isFound
  rcases Option.isSome_iff_exists.mp isFound with ⟨second, found⟩
  rw [found]
  rcases getUid_names served.kept.stored served.kept.indexed found with ⟨place, ⟨keyAt, content⟩, leads, isEntry, rfl⟩
  cases content with
  | plain value =>
      rcases served.titled.made isEntry with ⟨third, isMade, leads'⟩
      rw [served.kept.indexed.uid_unique leads leads', only isMade]
  | counter l =>
      have made := served.recorded.sound isEntry
      exact absurd made (uncounted l)

theorem Served.uidsOk (served : Served sum history (cdb, tls) log chains free tally) : UidsOk sum history cdb tls := by
  refine ⟨?_, ?_, ?_, served.titled.distinct⟩
  · intro key val uid isPut
    rcases served.titled.put isPut with ⟨pos, names, logged⟩
    exact served.returns names logged
  · intro key uid got
    rcases served.titled.got got with ⟨pos, ⟨keyAt, content⟩, names, logged, rfl⟩
    cases content with
    | plain val =>
        rcases served.titled.made logged with ⟨second, isPut, names'⟩
        rw [served.kept.indexed.uid_unique names names']
        exact Or.inl ⟨val, isPut⟩
    | counter l =>
        refine Or.inr ⟨⟨l, served.recorded.sound logged⟩, ?_, _, served.returns names logged⟩
        intro other val isPut
        rcases served.titled.put isPut with ⟨place, names', logged'⟩
        rw [← names'.place, names.place, logged] at logged'
        cases logged'
  · exact fun key uid once uncounted => served.again once uncounted

end

/-- In every state reached by allowed requests the uids of the history name their
records, and an allowed request leaves the rows, the cells and the places in the
table of sheet indexes of all records as they are. -/
theorem uid_names_record (sum : List UInt8 → Fin 8 → UInt16) (keysAtStart maximum : Nat) (start : Instance)
    (created : newInit keysAtStart maximum = some start) (history : History Request Reply) (cdb : Instance) (tls : Tls)
    (run : Run (serve sum) (fun _ now request => RequestOk sum now request) (start, ⟨none, 0⟩) history (cdb, tls)) :
    UidsOk sum history cdb tls ∧
      ∀ call answer next, CallOk sum cdb call → step sum cdb call = some (answer, next) → Keeps cdb next := by
  have reached : ∃ log chains free tally, Served sum history (cdb, tls) log chains free tally := by
    rw [(newInit_eq created).2] at run
    apply run.invariant (fun history now => ∃ log chains free tally, Served sum history now log chains free tally)
    · refine ⟨_, _, _, _, fresh_kept sum keysAtStart maximum, empty_recorded, ⟨nofun, nofun, nofun, ?_⟩, nofun⟩
      exact List.nodup_nil
    · rintro history now request reply next ⟨log, chains, free, tally, served⟩ ok done
      exact served.serve ok done
  rcases reached with ⟨log, chains, free, tally, served⟩
  exact ⟨served.uidsOk, fun call answer next _ stepped => step_keeps served.kept.sized served.kept.indexed stepped⟩

/-- A value is put and its record is read by its uid. -/
def readHistory : History Request Reply :=
  [(.getUidHkv ⟨0, 0, 0⟩, .hkv (some ⟨[97], [1]⟩)), (.store (.put [97] [1]), .stored (.uid (some ⟨0, 0, 0⟩)))]

def readState : Instance := stateAfter [(.put [97] [1], .uid (some ⟨0, 0, 0⟩))]

theorem readHistory_run (allowed : History Request Reply → Instance × Tls → Request → Prop)
    (put : allowed [] (fresh 0 0, ⟨none, 0⟩) (.store (.put [97] [1])))
    (got : allowed (readHistory.drop 1) (readState, ⟨none, 0⟩) (.getUidHkv ⟨0, 0, 0⟩)) :
    Run (serve collidingHash) allowed (fresh 0 0, ⟨none, 0⟩) readHistory (readState, ⟨some [18, 97, 1], 3⟩) := by
  have copied : getUidHkv readState ⟨none, 0⟩ ⟨0, 0, 0⟩ = some (some ⟨[97], [1]⟩, ⟨some [18, 97, 1], 3⟩) := by
    decide +kernel
  refine Run.step (Run.step Run.start put ?_) got ?_
  · have stepped := @step_stateAfter [] (.put [97] [1]) (.uid (some ⟨0, 0, 0⟩)) (by decide +kernel)
    rw [serve]
    exact Option.map_eq_some_iff.mpr ⟨_, stepped, rfl⟩
  · rw [serve, copied]
    rfl

theorem uid_names_record_read : UidsOk collidingHash readHistory readState ⟨some [18, 97, 1], 3⟩ := by
  have run := readHistory_run (fun _ now request => RequestOk collidingHash now request)
    ⟨Or.inr (Or.inr ⟨1, rfl, by decide, Or.inl (by decide)⟩), trivial⟩
    (fun _ _ => by decide +kernel)
  exact (uid_names_record collidingHash 0 0 (fresh 0 0) rfl _ _ _ run).1

/-- After the thread was finalized, the record is copied to a null pointer. -/
theorem finalized_copy_fails :
    ∃ history cdb tls,
      Run (serve collidingHash) (fun _ _ _ => True) (fresh 0 0, ⟨none, 0⟩) history (cdb, tls) ∧
        PutAs history [97] [1] ⟨0, 0, 0⟩ ∧ getUidHkv cdb tls ⟨0, 0, 0⟩ = none := by
  refine ⟨(.finalize, .done) :: readHistory, readState, ⟨none, 3⟩, ?_, ?_, by decide +kernel⟩
  · exact Run.step (readHistory_run _ trivial trivial) trivial rfl
  · exact List.mem_cons_of_mem _ (List.mem_cons_of_mem _ List.mem_cons_self)

end SxeCdb
end LibKit
