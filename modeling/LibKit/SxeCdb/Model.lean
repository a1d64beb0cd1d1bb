import LibKit.Support.Bytes

namespace LibKit
namespace SxeCdb

/-!
# The instances of `lib-sxe-cdb`

The model keeps the three mapped areas of an instance as functions of a
position: `kvdata` of bytes, `sheets` of the cells of a row and `counts` of
the counter nodes.  Mapping memory succeeds if the size is one, and fresh pages
read as zero.  An assertion of level one ends the program and is `none`;
assertions of level six are absent, as in a release build.

The key and its hash, which the library keeps in thread-local variables
between `sxe_cdb_prepare` and the next call, are an explicit argument.
Statistics that no operation reads (`sheets_cells_size`, `sheets_cells_used`,
`sheets_split`, `sheets_split_keys`, `keylen_misses`, `memcmp_misses`,
`counts_used`) are left out.
-/

def keysPerRow : Nat := 16
def rowsPerSheet : Nat := 4096
def keysPerSheet : Nat := 65536
def sheetsMax : Nat := 8192
def sheetBytes : Nat := 524288
def pageBytes : Nat := 4096
def countBytes : Nat := 18
def hkvListBytes : Nat := 12

/-- One cell of a row; a position of zero means that the cell is not used. -/
structure Cell where
  hashLo : UInt16
  hashHi : UInt16
  hkvPos : Nat
deriving DecidableEq

/-- `SXE_CDB_COUNT`; the field `count` has 48 bits. -/
structure Count where
  count : Nat
  next : Nat
  last : Nat
  hkv1 : Nat
deriving DecidableEq

/-- `SXE_CDB_INSTANCE` -/
structure Instance where
  counts : Nat → Count
  sheets : Nat → Nat → Nat → Cell
  kvdata : Nat → UInt8
  kvdataSize : Nat
  kvdataUsed : Nat
  kvdataMaximum : Nat
  countsPages : Nat
  countsSize : Nat
  countsNextFree : Nat
  countsFree : Nat
  countsHi : Nat → Nat
  countsLo : Nat → Nat
  sheetsSize : Nat
  sheetsIndex : Nat → Nat

/-! ## Preparing a key -/

/-- The thread-local key with the first three words of its hash. -/
structure Prepared where
  key : List UInt8
  hash0 : UInt16
  hash1 : UInt16
  hash2 : UInt16

/-- `sxe_cdb_prepare`: the second word is changed until it differs from the third. -/
def prepare (sum : List UInt8 → Fin 8 → UInt16) (key : List UInt8) : Prepared :=
  let hash := sum key
  let hash1 :=
    if hash 1 = hash 2 then
      let first := hash 3
      let second := if first = hash 2 then hash 4 else first
      if second = hash 2 then hash 2 + 1 else second
    else hash 1
  ⟨key, hash 0, hash1, hash 2⟩

def Prepared.row1 (prepared : Prepared) : Nat := prepared.hash1.toNat % rowsPerSheet
def Prepared.row2 (prepared : Prepared) : Nat := prepared.hash2.toNat % rowsPerSheet
def Prepared.sheetIndex (prepared : Prepared) : Nat := prepared.hash0.toNat % sheetsMax

/-- The instance of the prepared key in an ensemble. -/
def instanceOf {cdbCount : Nat} [NeZero cdbCount] (sum : List UInt8 → Fin 8 → UInt16) (key : List UInt8) :
    Fin cdbCount :=
  Fin.ofNat cdbCount (sum key 3).toNat

/-! ## A fresh instance -/

/-- The loop over the sheet indexes in `sxe_cdb_instance_new_init`. -/
def initIndex (sheetIndexMax : Nat) : Nat → Nat
  | 0 => 0
  | si + 1 =>
      let sheetIndex := initIndex sheetIndexMax si + 1
      if sheetIndex ≥ sheetIndexMax then 0 else sheetIndex

/-- The fields as `sxe_cdb_instance_new_init` sets them. -/
def fresh (keysAtStart kvdataMaximum : Nat) : Instance :=
  let sheetIndexMax := keysAtStart / keysPerSheet * 2
  { counts := fun _ => ⟨0, 0, 0, 0⟩
    sheets := fun _ _ _ => ⟨0, 0, 0⟩
    kvdata := fun _ => 0
    kvdataSize := pageBytes
    kvdataUsed := 1
    kvdataMaximum := kvdataMaximum
    countsPages := 0
    countsSize := 0
    countsNextFree := 1
    countsFree := 0
    countsHi := fun _ => 0
    countsLo := fun _ => 0
    sheetsSize := if sheetIndexMax = 0 then 1 else sheetIndexMax
    sheetsIndex := initIndex sheetIndexMax }

/-- The bytes of all sheets are a product of `int`s.  From 4096 sheets on it
overflows, and no memory of the size that comes out can be mapped. -/
def CanMap (sheets : Nat) : Prop := sheetBytes * sheets < 2 ^ 31

instance (sheets : Nat) : Decidable (CanMap sheets) := inferInstanceAs (Decidable (_ < _))

/-- `sxe_cdb_instance_new_init`; the assertions on the number of keys and on the
mapped memory are `none`. -/
def newInit (keysAtStart kvdataMaximum : Nat) : Option Instance :=
  if keysAtStart / keysPerSheet * 2 ≤ sheetsMax then
    if CanMap (fresh keysAtStart kvdataMaximum).sheetsSize then some (fresh keysAtStart kvdataMaximum) else none
  else none

theorem newInit_eq {keysAtStart kvdataMaximum : Nat} {cdb : Instance}
    (created : newInit keysAtStart kvdataMaximum = some cdb) :
    CanMap cdb.sheetsSize ∧ cdb = fresh keysAtStart kvdataMaximum := by
  unfold newInit at created
  split at created
  · split at created
    · rename_i mapped
      cases created
      exact ⟨mapped, rfl⟩
    · cases created
  · cases created

/-! ## Splitting a sheet -/

/-- The toggling loop over `count` indexes from `si` on: of the indexes of a
full sheet every second one moves to the new sheet. -/
def splitIndex (thisSheet thatSheet : Nat) : Nat → Nat → Bool → (Nat → Nat) → Nat → Nat
  | 0, _, _, sheetsIndex => sheetsIndex
  | count + 1, si, toggle, sheetsIndex =>
      if sheetsIndex si = thisSheet then
        splitIndex thisSheet thatSheet count (si + 1) (!toggle)
          (Function.update sheetsIndex si (if toggle then thatSheet else thisSheet))
      else splitIndex thisSheet thatSheet count (si + 1) toggle sheetsIndex

def setCell (sheets : Nat → Nat → Nat → Cell) (sheet row cell : Nat) (content : Cell) :
    Nat → Nat → Nat → Cell :=
  fun s r c => if s = sheet ∧ r = row ∧ c = cell then content else sheets s r c

def splitCell (thisSheet thatSheet : Nat) (sheetsIndex : Nat → Nat) (sheets : Nat → Nat → Nat → Cell)
    (place : Nat × Nat) : Nat → Nat → Nat → Cell :=
  let cell := sheets thisSheet place.1 place.2
  if cell.hkvPos ≠ 0 ∧ sheetsIndex (cell.hashHi.toNat % sheetsMax) = thatSheet then
    setCell (setCell sheets thatSheet place.1 place.2 cell) thisSheet place.1 place.2 { cell with hkvPos := 0 }
  else sheets

def splitSheetIndex (cdb : Instance) (sheet : Nat) : Nat → Nat :=
  splitIndex sheet cdb.sheetsSize sheetsMax 0 false cdb.sheetsIndex

/-- The rows and cells visited by the moving loop. -/
def splitPlaces : List (Nat × Nat) := (List.range rowsPerSheet).product (List.range keysPerRow)

/-- What `sxe_cdb_instance_split_sheet` does when one sheet more is mapped. -/
@[irreducible] def splitMapped (cdb : Instance) (sheet : Nat) : Instance :=
  { cdb with
    sheetsSize := cdb.sheetsSize + 1
    sheetsIndex := splitSheetIndex cdb sheet
    sheets := splitPlaces.foldl (splitCell sheet cdb.sheetsSize (splitSheetIndex cdb sheet)) cdb.sheets }

theorem splitMapped_eq (cdb : Instance) (sheet : Nat) :
    splitMapped cdb sheet = { cdb with
      sheetsSize := cdb.sheetsSize + 1
      sheetsIndex := splitSheetIndex cdb sheet
      sheets := splitPlaces.foldl (splitCell sheet cdb.sheetsSize (splitSheetIndex cdb sheet)) cdb.sheets } := by
  rw [splitMapped]

/-- `sxe_cdb_instance_split_sheet` -/
def splitSheet (cdb : Instance) (sheet : Nat) : Option Instance :=
  if CanMap (1 + cdb.sheetsSize) then some (splitMapped cdb sheet) else none

/-! ## Putting a value -/

/-- The scan of one row: the number of used cells and the first free one. -/
def scanRow (row : Nat → Cell) : Nat → Nat × Nat
  | 0 => (0, keysPerRow)
  | cell + 1 =>
      let (used, free) := scanRow row cell
      if (row cell).hkvPos ≠ 0 then (used + 1, free)
      else (used, if free = keysPerRow then cell else free)

structure Place where
  sheet : Nat
  row : Nat
  cell : Nat
deriving DecidableEq

/-- One pass of the search: a free cell in the emptier of the two rows, unless
both are full. -/
def freeCell (cdb : Instance) (prepared : Prepared) : Option Place :=
  let sheet := cdb.sheetsIndex prepared.sheetIndex
  let (used1, cell1) := scanRow (cdb.sheets sheet prepared.row1) keysPerRow
  let (used2, cell2) := scanRow (cdb.sheets sheet prepared.row2) keysPerRow
  if used1 = keysPerRow ∧ used2 = keysPerRow then none
  else if used1 < used2 then some ⟨sheet, prepared.row1, cell1⟩
  else some ⟨sheet, prepared.row2, cell2⟩

/-- The loop that splits sheets until there is a free cell.  Each turn adds a
sheet, so `sheetsMax - sheetsSize` turns suffice. -/
def findPlace (prepared : Prepared) : Nat → Instance → Option (Option Place × Instance)
  | fuel, cdb =>
      match freeCell cdb prepared with
      | some place => some (some place, cdb)
      | none =>
          if cdb.sheetsSize ≥ sheetsMax then some (none, cdb)
          else
            match fuel with
            | 0 => some (none, cdb)
            | fuel + 1 => (splitSheet cdb (cdb.sheetsIndex prepared.sheetIndex)).bind (findPlace prepared fuel)

/-- The smallest header for a key and a value length. -/
def headerLen (keyLen valLen : Nat) : Option Nat :=
  if keyLen = 0 then none
  else if keyLen ≤ 0x7 ∧ valLen ≤ 0xf then some 1
  else if keyLen ≤ 0x7f ∧ valLen ≤ 0xffff then some 3
  else if keyLen ≤ 0xffff ∧ valLen ≤ 0xffff then some 5
  else if keyLen ≤ 0xffffff ∧ valLen ≤ 0xffffffff then some 8
  else none

/-- The bit fields of `SXE_CDB_HKV`, in the layout of a little-endian machine. -/
def encodeHeader (header keyLen valLen : Nat) : List UInt8 :=
  if header = 1 then Bytes.encodeWord 1 (2 * keyLen + 16 * valLen)
  else if header = 3 then Bytes.encodeWord 1 (1 + 2 * keyLen) ++ Bytes.encodeWord 2 valLen
  else if header = 5 then Bytes.encodeWord 1 0 ++ Bytes.encodeWord 2 keyLen ++ Bytes.encodeWord 2 valLen
  else Bytes.encodeWord 1 16 ++ Bytes.encodeWord 3 keyLen ++ Bytes.encodeWord 4 valLen

/-- The size by which `kvdata` is extended: whole pages and one page more. -/
def roundToPages (bytes : Nat) : Nat :=
  (bytes + (pageBytes - 1)) / pageBytes * pageBytes + pageBytes

/-- The growth of `kvdata`.  The wanted bytes come from a sum in 32 bits, the
test is made in 64 bits and the size is stored back into 32 bits. -/
def growKvdata (cdb : Instance) (keyBytesWant : Nat) : Option Instance :=
  let keyBytesFree := (2 ^ 32 + cdb.kvdataSize - cdb.kvdataUsed) % 2 ^ 32
  if keyBytesWant > keyBytesFree then
    let rounded := roundToPages keyBytesWant
    if (cdb.kvdataSize + rounded) % 2 ^ 64 < cdb.kvdataSize then none
    else some { cdb with kvdataSize := (cdb.kvdataSize + rounded) % 2 ^ 32 }
  else some cdb

/-- `SXE_CDB_UID` of a stored key. -/
structure Uid where
  sheetsIndexIndex : Nat
  row : Nat
  cell : Nat
deriving DecidableEq

/-- The end of `sxe_cdb_instance_put_val`: enter the cell and write the record. -/
def writeRecord (cdb : Instance) (prepared : Prepared) (val : List UInt8) (header keyBytesWant : Nat)
    (place : Place) : Instance :=
  { cdb with
    sheets := setCell cdb.sheets place.sheet place.row place.cell
      ⟨prepared.hash1, prepared.hash0, cdb.kvdataUsed⟩
    kvdata := Bytes.write cdb.kvdata cdb.kvdataUsed
      (encodeHeader header prepared.key.length val.length ++ prepared.key ++ val)
    kvdataUsed := (cdb.kvdataUsed + keyBytesWant) % 2 ^ 32 }

/-- `sxe_cdb_instance_put_val`; no uid is `SXE_CDB_UID_NONE`. -/
def putVal (cdb : Instance) (prepared : Prepared) (val : List UInt8) : Option (Option Uid × Instance) :=
  if cdb.kvdataMaximum > 0 ∧ cdb.kvdataSize > cdb.kvdataMaximum then some (none, cdb)
  else
    match headerLen prepared.key.length val.length with
    | none => some (none, cdb)
    | some header =>
        (findPlace prepared (sheetsMax - cdb.sheetsSize) cdb).map fun
          | (none, cdb) => (none, cdb)
          | (some place, cdb) =>
              let keyBytesWant := (header + prepared.key.length + val.length) % 2 ^ 32
              match growKvdata cdb keyBytesWant with
              | none => (none, cdb)
              | some cdb => (some ⟨prepared.sheetIndex, place.row, place.cell⟩,
                  writeRecord cdb prepared val header keyBytesWant place)

/-! ## Looking up -/

/-- `SXE_CDB_HKV_PART`, with the positions of key and value for the pointers. -/
structure HkvPart where
  keyLen : Nat
  valLen : Nat
  key : Nat
  val : Nat

/-- `sxe_cdb_hkv_unpack` -/
def hkvUnpack (kvdata : Nat → UInt8) (pos : Nat) : HkvPart :=
  let first := (kvdata pos).toNat
  let flag := first % 2
  let xxxLen := first / 2 % 8
  let yyyLen := first / 16
  if flag = 0 ∧ xxxLen = 0 ∧ yyyLen = 1 then
    let keyLen := Bytes.readWord kvdata (pos + 1) 3
    ⟨keyLen, Bytes.readWord kvdata (pos + 4) 4, pos + 8, pos + 8 + keyLen⟩
  else if flag = 0 ∧ xxxLen = 0 ∧ yyyLen = 0 then
    let keyLen := Bytes.readWord kvdata (pos + 1) 2
    ⟨keyLen, Bytes.readWord kvdata (pos + 3) 2, pos + 5, pos + 5 + keyLen⟩
  else if flag = 0 ∧ xxxLen ≠ 0 then ⟨xxxLen, yyyLen, pos + 1, pos + 1 + xxxLen⟩
  else
    let keyLen := first / 2
    ⟨keyLen, Bytes.readWord kvdata (pos + 1) 2, pos + 3, pos + 3 + keyLen⟩

/-- `SXE_CDB_GET_HKV_IN_CELL_IN`: does the cell lead to the prepared key? -/
def matchesCell (kvdata : Nat → UInt8) (prepared : Prepared) (cell : Cell) : Bool :=
  let part := hkvUnpack kvdata cell.hkvPos
  prepared.hash1 = cell.hashLo ∧ prepared.hash0 = cell.hashHi ∧ cell.hkvPos ≠ 0 ∧
    prepared.key.length = part.keyLen ∧ Bytes.read kvdata part.key prepared.key.length = prepared.key

/-- `sxe_cdb_instance_get_hkv_raw`: the cells of both rows, in turns. -/
def getHkvRaw (cdb : Instance) (prepared : Prepared) : Option Nat :=
  let sheet := cdb.sheetsIndex prepared.sheetIndex
  (((List.range keysPerRow).flatMap (fun cell =>
    [cdb.sheets sheet prepared.row1 cell, cdb.sheets sheet prepared.row2 cell])).find?
      (matchesCell cdb.kvdata prepared)).map Cell.hkvPos

/-! ## Counter nodes -/

def modifyCount (cdb : Instance) (c : Nat) (change : Count → Count) : Instance :=
  { cdb with counts := Function.update cdb.counts c (change (cdb.counts c)) }

/-- The body of the loop of `sxe_cdb_instance_free_count_push`. -/
def pushFree (cdb : Instance) (c : Nat) : Instance :=
  { modifyCount cdb c (fun count => { count with next := cdb.countsNextFree }) with
    countsNextFree := c
    countsFree := cdb.countsFree + 1 }

/-- `sxe_cdb_instance_free_count_push`; the loop does not end from node zero. -/
def freeCountPush (cdb : Instance) (fromC toC : Nat) : Option Instance :=
  if fromC = 0 then none
  else some ((List.range' fromC (toC + 1 - fromC)).reverse.foldl pushFree cdb)

/-- The growth of the counter nodes by a page.  A mapping whose size wraps to
zero fails. -/
def growCounts (cdb : Instance) : Option Instance :=
  let pages := (cdb.countsPages + 1) % 2 ^ 32
  let bytes := pageBytes * pages % 2 ^ 32
  if bytes = 0 then none
  else
    let size := cdb.countsSize + if pages = 1 then 1 else 0
    let sizeNew := bytes / countBytes - size
    (freeCountPush { cdb with countsPages := pages, countsSize := size } size (size + sizeNew - 1)).map
      (fun cdb => { cdb with countsSize := size + sizeNew })

/-- `sxe_cdb_instance_free_count_pop` -/
def freeCountPop (cdb : Instance) : Option (Nat × Instance) :=
  (if cdb.countsFree = 0 then growCounts cdb else some cdb).map (fun cdb =>
    (cdb.countsNextFree,
      { cdb with
        countsNextFree := (cdb.counts cdb.countsNextFree).next
        countsFree := cdb.countsFree - 1 }))

/-! ## Counting keys -/

/-- The fields of `SXE_CDB_HKV_LIST` at the position of a value. -/
def countToUse (kvdata : Nat → UInt8) (val : Nat) : Nat := Bytes.readWord kvdata val 4
def nextHkvPos (kvdata : Nat → UInt8) (val : Nat) : Nat := Bytes.readWord kvdata (val + 4) 4
def lastHkvPos (kvdata : Nat → UInt8) (val : Nat) : Nat := Bytes.readWord kvdata (val + 8) 4

def setCountToUse (cdb : Instance) (val c : Nat) : Instance :=
  { cdb with kvdata := Bytes.write cdb.kvdata val (Bytes.encodeWord 4 c) }

def setNextHkvPos (cdb : Instance) (val pos : Nat) : Instance :=
  { cdb with kvdata := Bytes.write cdb.kvdata (val + 4) (Bytes.encodeWord 4 pos) }

def setLastHkvPos (cdb : Instance) (val pos : Nat) : Instance :=
  { cdb with kvdata := Bytes.write cdb.kvdata (val + 8) (Bytes.encodeWord 4 pos) }

/-- The three assignments that every branch makes to the value of the key. -/
def setLinks (cdb : Instance) (val c next last : Nat) : Instance :=
  setLastHkvPos (setNextHkvPos (setCountToUse cdb val c) val next) val last

/-- The branch of `sxe_cdb_instance_inc` for a key just put. -/
def incNew (cdb : Instance) (countsList thisPos : Nat) : Option (Nat × Instance) :=
  let thisVal := (hkvUnpack cdb.kvdata thisPos).val
  let lowest := cdb.countsLo countsList
  if lowest = 0 then
    (freeCountPop cdb).map (fun (thisC, cdb) =>
      let cdb := setLinks cdb thisVal thisC 0 0
      let cdb := modifyCount cdb thisC (fun _ => ⟨1, 0, 0, thisPos⟩)
      (1, { cdb with
        countsLo := Function.update cdb.countsLo countsList thisC
        countsHi := Function.update cdb.countsHi countsList thisC }))
  else if 1 < (cdb.counts lowest).count then
    (freeCountPop cdb).map (fun (thisC, cdb) =>
      let cdb := setLinks cdb thisVal thisC 0 0
      let cdb := modifyCount cdb thisC (fun _ => ⟨1, cdb.countsLo countsList, 0, thisPos⟩)
      let cdb := { cdb with countsLo := Function.update cdb.countsLo countsList thisC }
      (1, modifyCount cdb lowest (fun count => { count with last := thisC })))
  else
    let lastPos := (cdb.counts lowest).hkv1
    let lastVal := (hkvUnpack cdb.kvdata lastPos).val
    let cdb := setLastHkvPos cdb lastVal thisPos
    let cdb := setLinks cdb thisVal lowest lastPos 0
    some (1, modifyCount cdb lowest (fun count => { count with hkv1 := thisPos }))

def unlinkHkv (cdb : Instance) (thisPos thisC nextPos lastPos : Nat) : Instance :=
  let cdb := if nextPos ≠ 0 then setLastHkvPos cdb (hkvUnpack cdb.kvdata nextPos).val lastPos else cdb
  let cdb := if lastPos ≠ 0 then setNextHkvPos cdb (hkvUnpack cdb.kvdata lastPos).val nextPos else cdb
  if (cdb.counts thisC).hkv1 = thisPos then modifyCount cdb thisC (fun count => { count with hkv1 := nextPos })
  else cdb

/-- Free a count without keys.  Without a next count the assertion fails. -/
def unlinkCount (cdb : Instance) (countsList thisC nextC lastC : Nat) : Option Instance :=
  if (cdb.counts thisC).hkv1 = 0 then
    (freeCountPush cdb thisC thisC).bind (fun cdb =>
      if nextC = 0 then none
      else
        let cdb := modifyCount cdb nextC (fun count => { count with last := lastC })
        some (
          if lastC ≠ 0 then modifyCount cdb lastC (fun count => { count with next := nextC })
          else if cdb.countsLo countsList = thisC then
            { cdb with countsLo := Function.update cdb.countsLo countsList nextC }
          else cdb))
  else some cdb

def linkHkv (cdb : Instance) (countsList thisPos thisVal thisC nextC countNew : Nat) : Option Instance :=
  if nextC = 0 then
    (freeCountPop cdb).map (fun (nextC, cdb) =>
      let cdb := setLinks cdb thisVal nextC 0 0
      let cdb := { cdb with countsHi := Function.update cdb.countsHi countsList nextC }
      let cdb := modifyCount cdb nextC (fun _ => ⟨countNew % 2 ^ 48, 0, thisC, thisPos⟩)
      modifyCount cdb thisC (fun count => { count with next := nextC }))
  else if (cdb.counts nextC).count = countNew then
    let nextPos := (cdb.counts nextC).hkv1
    let cdb := setLinks cdb thisVal nextC nextPos 0
    let cdb := setLastHkvPos cdb (hkvUnpack cdb.kvdata nextPos).val thisPos
    some (modifyCount cdb nextC (fun count => { count with hkv1 := thisPos }))
  else
    (freeCountPop cdb).map (fun (newC, cdb) =>
      let cdb := setLinks cdb thisVal newC 0 0
      let cdb := modifyCount cdb newC (fun _ => ⟨countNew % 2 ^ 48, (cdb.counts thisC).next, thisC, thisPos⟩)
      let cdb := modifyCount cdb thisC (fun count => { count with next := newC })
      modifyCount cdb nextC (fun count => { count with last := newC }))

/-- The branch of `sxe_cdb_instance_inc` for a key that exists.  The sum of a field
of 48 bits and one has 48 bits. -/
def incOld (cdb : Instance) (countsList thisPos : Nat) : Option (Nat × Instance) :=
  let this := hkvUnpack cdb.kvdata thisPos
  let thisC := countToUse cdb.kvdata this.val
  if this.valLen ≠ hkvListBytes then some (0, cdb)
  else if thisC ≥ cdb.countsSize then some (0, cdb)
  else
    let nextC := (cdb.counts thisC).next
    let countNew := ((cdb.counts thisC).count + 1) % 2 ^ 48
    if (cdb.counts thisC).hkv1 = thisPos ∧ nextHkvPos cdb.kvdata this.val = 0 ∧
        (nextC = 0 ∨ (cdb.counts nextC).count > countNew) then
      some (countNew, modifyCount cdb thisC (fun count => { count with count := (count.count + 1) % 2 ^ 48 }))
    else
      let lastC := (cdb.counts thisC).last
      (unlinkCount
        (unlinkHkv cdb thisPos thisC (nextHkvPos cdb.kvdata this.val) (lastHkvPos cdb.kvdata this.val))
        countsList thisC nextC lastC).bind (fun cdb =>
      (linkHkv cdb countsList thisPos this.val thisC nextC countNew).map (fun cdb => (countNew, cdb)))

/-- `sxe_cdb_instance_inc`; `dummy` is the uninitialised value put for a new
key.  The result zero means that nothing was counted. -/
def inc (cdb : Instance) (prepared : Prepared) (countsList : Nat) (dummy : Fin 12 → UInt8) :
    Option (Nat × Instance) :=
  match getHkvRaw cdb prepared with
  | some pos => incOld cdb countsList pos
  | none =>
      (putVal cdb prepared (List.ofFn dummy)).bind fun
        | (none, cdb) => some (0, cdb)
        | (some _, cdb) => (getHkvRaw cdb prepared).bind (incNew cdb countsList)

end SxeCdb
end LibKit
