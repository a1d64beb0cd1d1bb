import LibKit.Support.CString

namespace LibKit
namespace SxeDict

/-!
# The chained dictionary of `lib-sxe-dict`

A key is passed as a pointer and a length; the pointer is modelled by the
bytes that can be read from it.  Nodes live in an arena in the order of their
allocation, so that the address of a node's value, the pointer handed out by
`sxe_dict_add`, is its position in the arena.  A bucket is the list of the
nodes chained in it.

Every operation returns `none` where the C code has undefined behaviour: a
read past the end of a key, or a division by a table size of zero.  Memory
allocation succeeds, except that `kit_calloc` refuses a negative count.
-/

/-- `SXE_DICT_FLAG_KEYS_*`; all clear is `SXE_DICT_FLAG_KEYS_BINARY`. -/
structure Flags where
  nocopy : Bool
  string : Bool
  hashed : Bool
deriving DecidableEq, Repr

/-- The union in a node, which is also what `add_entry` passes as a key: a
pointer to bytes or, in hashed mode, the hash sum itself. -/
inductive Key where
  | bytes (buffer : List UInt8)
  | hash (sum : UInt64)
deriving DecidableEq, Repr

/-- `struct sxe_dict_node`, with the length of `struct sxe_dict_node_with_len`.
A NULL value is `none`. -/
structure Node (V : Type) where
  key : Key
  len : Nat
  value : Option V
deriving DecidableEq, Repr

/-- `struct sxe_dict` together with the nodes it owns. -/
structure Dict (V : Type) where
  table : Option (List (List Nat))
  flags : Flags
  size : Nat
  count : Nat
  load : Nat
  growth : Nat
  nodes : List (Node V)
deriving DecidableEq, Repr

variable {V : Type}

/-- `sxe_hash_64`, which takes the length of a C string when it is given none. -/
def hash64 (sum : List UInt8 → UInt64) (key : List UInt8) (len : Nat) : Option UInt64 :=
  if len = 0 then (CString.strlen key).map (fun found => sum (key.take found))
  else if len ≤ key.length then some (sum (key.take len)) else none

def nodeNew (flags : Flags) (key : Key) (len : Nat) : Node V :=
  match key with
  | .hash sum => ⟨.hash sum, 0, none⟩
  | .bytes buffer =>
      if flags.nocopy then ⟨.bytes buffer, if flags.string then 0 else len, none⟩
      else if flags.string then ⟨.bytes (buffer.take len ++ [0]), 0, none⟩
      else ⟨.bytes (buffer.take len), len, none⟩

def init (initialSize load growth : Nat) (flags : Flags) : Dict V where
  table := if initialSize = 0 then none else some (List.replicate initialSize [])
  flags := flags
  size := initialSize
  count := 0
  load := load
  growth := growth
  nodes := []

/-- The bucket a node is chained into when the table is resized. -/
def reinsertHash (sum : List UInt8 → UInt64) (flags : Flags) (node : Node V) : Option UInt64 :=
  match node.key with
  | .hash found => some found
  | .bytes buffer => if flags.string then hash64 sum buffer 0 else hash64 sum buffer node.len

/-- `sxe_dict_reinsert_when_resizing`: push a node onto the front of its bucket. -/
def reinsertWhenResizing (sum : List UInt8 → UInt64) (flags : Flags) (nodes : List (Node V))
    (newSize : Nat) (table : List (List Nat)) (slot : Nat) : Option (List (List Nat)) := do
  let node ← nodes[slot]?
  let hash ← reinsertHash sum flags node
  if newSize = 0 then none else some (table.modify (hash.toNat % newSize) (fun chain => slot :: chain))

/-- `sxe_dict_resize`.  The new size arrives as a C `int`: a product that does
not fit is negative and `kit_calloc` refuses it. -/
def resize (sum : List UInt8 → UInt64) (dic : Dict V) (newSize : Nat) : Option (Bool × Dict V) :=
  if 2 ^ 31 ≤ newSize then some (false, dic)
  else do
    let table ← ((dic.table.getD []).flatten).foldlM
      (reinsertWhenResizing sum dic.flags dic.nodes newSize) (List.replicate newSize [])
    some (true, { dic with table := some table, size := newSize })

def compareKeys (flags : Flags) (link : Node V) (key : Key) (len : Nat) : Option Bool :=
  match link.key, key with
  | .hash stored, .hash sum => some (stored == sum)
  | .bytes stored, .bytes buffer =>
      if flags.string then (CString.strcmp stored buffer).map (fun sign => sign == 0)
      else if link.len = len then CString.memeq stored buffer len else some false
  | _, _ => some false

/-- Walk a chain up to the first node whose key compares equal. -/
def findInChain (flags : Flags) (nodes : List (Node V)) (key : Key) (len : Nat) :
    List Nat → Option (Option Nat)
  | [] => some none
  | slot :: chain => do
      let node ← nodes[slot]?
      let same ← compareKeys flags node key len
      if same then some (some slot) else findInChain flags nodes key len chain

/-- The chain at a hash value, in an allocated table. -/
def bucket (dic : Dict V) (hash : UInt64) : List Nat :=
  (dic.table.getD []).getD (hash.toNat % dic.size) []

/-- A completely empty dictionary gets a table of one bucket. -/
def ensureTable (dic : Dict V) : Dict V :=
  match dic.table with
  | none => { dic with table := some [[]], size := 1 }
  | some _ => dic

/-- The load test of `add_entry`, made only when the bucket is in use. -/
def resizeDue (dic : Dict V) (hash : UInt64) : Bool :=
  bucket dic hash != [] && decide (dic.load ≤ dic.count * 100 % 2 ^ 32 / dic.size)

/-- The growth step of `add_entry`; `false` when memory ran out. -/
def growIfDue (sum : List UInt8 → UInt64) (dic : Dict V) (hash : UInt64) : Option (Bool × Dict V) :=
  if resizeDue dic hash then resize sum dic (dic.size * dic.growth % 2 ^ 32) else some (true, dic)

/-- The end of `add_entry`: a new node goes to the tail of its chain. -/
def appendNode (dic : Dict V) (hash : UInt64) (key : Key) (len : Nat) : Dict V :=
  { dic with
    table := dic.table.map (fun table =>
      table.modify (hash.toNat % dic.size) (fun chain => chain ++ [dic.nodes.length]))
    nodes := dic.nodes ++ [nodeNew dic.flags key len]
    count := (dic.count + 1) % 2 ^ 32 }

/-- `add_entry`: the slot is `none` when memory ran out. -/
def addEntry (sum : List UInt8 → UInt64) (dic : Dict V) (hash : UInt64) (key : List UInt8) (len : Nat) :
    Option (Option Nat × Dict V) :=
  match growIfDue sum (ensureTable dic) hash with
  | none => none
  | some (false, dic) => some (none, dic)
  | some (true, dic) =>
      let key := if dic.flags.hashed then Key.hash hash else Key.bytes key
      match findInChain dic.flags dic.nodes key len (bucket dic hash) with
      | none => none
      | some (some slot) => some (some slot, dic)
      | some none => some (some dic.nodes.length, appendNode dic hash key len)

/-- The length an entry point works with: `len ?: strlen(key)`. -/
def keyLen (key : List UInt8) (len : Nat) : Option Nat :=
  if len = 0 then CString.strlen key else some len

/-- `sxe_dict_add` -/
def add (sum : List UInt8 → UInt64) (dic : Dict V) (key : List UInt8) (len : Nat) :
    Option (Option Nat × Dict V) := do
  let len ← keyLen key len
  let hash ← hash64 sum key len
  addEntry sum dic hash key len

/-- `find_entry` -/
def findEntry (dic : Dict V) (hash : UInt64) (key : List UInt8) (len : Nat) : Option (Option V) :=
  match dic.table with
  | none => some none
  | some _ => do
      let key := if dic.flags.hashed then Key.hash hash else Key.bytes key
      match ← findInChain dic.flags dic.nodes key len (bucket dic hash) with
      | none => some none
      | some slot => some ((dic.nodes[slot]?).bind Node.value)

/-- `sxe_dict_find` -/
def find (sum : List UInt8 → UInt64) (dic : Dict V) (key : List UInt8) (len : Nat) :
    Option (Option V) := do
  let len ← keyLen key len
  let hash ← hash64 sum key len
  findEntry dic hash key len

/-- `sxe_dict_count` -/
def count (dic : Dict V) : Nat := dic.count

/-- The caller's assignment through a pointer returned by `sxe_dict_add`. -/
def store (dic : Dict V) (slot : Nat) (value : Option V) : Dict V :=
  { dic with nodes := dic.nodes.modify slot (fun node => { node with value := value }) }

end SxeDict
end LibKit
