import LibKit.Jitson.Access

namespace LibKit
namespace Jitson

/-!
# The construction stack

Values are constructed on a stack of tokens that grows as needed:
`sxe-jitson-stack.c` without its parser.  A collection that is under
construction keeps the index of the collection it is nested in, and an array
also the index of its last value.

The tokens of the model are those below `count`.  A call fails for want of
memory or on input that is not valid, with an assertion, or where its result
would be undefined.  A failed call also leaves a stack, which means something
only for the first two.  Failures to allocate the index of an array that is
accessed are not part of the model.
-/

/-- The value of a symbol: a constant, or a cast, of which there is one. -/
inductive Constant where
  | value (pointer : Pointer)
  | rangeCast

/-- The globals and the machine that the stack depends on: the operations on
doubles, whether memory for a number of tokens can be had, whether
`sxe_jitson_flags` has `SXE_JITSON_FLAG_OPTIMIZE`, whether memory for the clone
of what a value owns can be had, where in memory the arrays are that a call comes
to, the constants that were registered, and whether the parser was hooked by
`sxe_jitson_ident_register`. -/
structure Env where
  ops : FloatOps
  alloc : Nat → Bool
  optimize : Bool
  allocClone : Bool := true
  address : Nat → Nat := id
  constants : List UInt8 → Option Constant := fun _ => none
  identHook : Bool := false

inductive Fault where
  | memory
  | assertion
  | invalid
  | undefined
deriving DecidableEq

/-- `struct sxe_jitson_stack`; `allocated` says that `jitsons` is no null
pointer. -/
structure Stack where
  maximum : Nat
  jitsons : List Token
  allocated : Bool
  opened : Nat
  last : Nat
  borrow : Nat

/-- A failed call, and what it leaves on the stack. -/
structure Failure where
  fault : Fault
  stack : Stack

namespace Stack

def count (stack : Stack) : Nat := stack.jitsons.length

def truncate (stack : Stack) (count : Nat) : Stack := { stack with jitsons := stack.jitsons.take count }

/-- Change what a failed call leaves on the stack. -/
def onFailure {α : Type} (call : Except Failure α) (change : Stack → Stack) : Except Failure α :=
  call.mapError fun failure => { failure with stack := change failure.stack }

/-- The pointer `&stack->jitsons[idx]`. -/
def pointer (stack : Stack) (idx : Nat) : Pointer := stack.jitsons.drop idx

def setLast (stack : Stack) (last : Nat) : Stack := { stack with last := last }

def mapType (stack : Stack) (idx : Nat) (change : TypeWord → TypeWord) : Stack :=
  { stack with jitsons := stack.jitsons.modify idx fun
      | .head type len body => .head (change type) len body
      | .more => .more }

/-- `memcpy` to a place on the stack. -/
def write (stack : Stack) (idx : Nat) (tokens : List Token) : Stack :=
  { stack with jitsons := stack.jitsons.take idx ++ tokens ++ stack.jitsons.drop (idx + tokens.length) }

/-- The member `partial` of an open collection. -/
def noValue (stack : Stack) (idx : Nat) : Bool :=
  match bodyOf (stack.pointer idx) with
  | .part noValue _ _ => noValue
  | _ => false

def partLast (stack : Stack) (idx : Nat) : Nat :=
  match bodyOf (stack.pointer idx) with
  | .part _ last _ => last
  | _ => 0

def partCollection (stack : Stack) (idx : Nat) : Nat :=
  match bodyOf (stack.pointer idx) with
  | .part _ _ collection => collection
  | _ => 0

def mapPart (stack : Stack) (idx : Nat) (change : Bool → Nat → Nat → Body (List Token)) : Stack :=
  { stack with jitsons := stack.jitsons.modify idx fun
      | .head type len (.part noValue last collection) => .head type len (change noValue last collection)
      | token => token }

def setPartLast (stack : Stack) (idx last : Nat) : Stack :=
  stack.mapPart idx fun noValue _ collection => .part noValue last collection

def setNoValue (stack : Stack) (idx : Nat) (value : Bool) : Stack :=
  stack.mapPart idx fun _ last collection => .part value last collection

def mapLen (stack : Stack) (idx : Nat) (change : Nat → Nat) : Stack :=
  { stack with jitsons := stack.jitsons.modify idx fun
      | .head type len body => .head type (change len) body
      | .more => .more }

/-! ## Memory -/

/-- The size to which `sxe_jitson_stack_expand` grows the stack. -/
def newMaximum (stack : Stack) (expanded : Nat) : Nat :=
  if expanded < 4096 then ((expanded - 1) / stack.maximum + 1) * stack.maximum
  else ((expanded - 1) / 4096 + 1) * 4096 % 2 ^ 32

/-- `sxe_jitson_stack_expand`; the index it returns is the count before.  An
index that wraps, and a stack that is smaller than its count afterwards, lead to
writes that are undefined. -/
def expand (env : Env) (stack : Stack) (more : Nat) : Except Failure Stack :=
  let expanded := stack.count + more
  let jitsons := stack.jitsons ++ List.replicate more Token.more
  if expanded ≥ 2 ^ 32 then .error ⟨.undefined, stack⟩
  else if expanded > stack.maximum then
    let newMaximum := stack.newMaximum expanded
    if newMaximum < expanded then .error ⟨.undefined, stack⟩
    else if env.alloc newMaximum then
      .ok { stack with maximum := newMaximum, jitsons := jitsons, allocated := true }
    else .error ⟨.memory, stack⟩
  else if stack.allocated ∨ env.alloc stack.maximum then
    .ok { stack with jitsons := jitsons, allocated := true }
  else .error ⟨.memory, stack⟩

/-- A value whose head has `SXE_JITSON_TYPE_ALLOCED`. -/
def markAlloced : Pointer → Pointer
  | .head type len body :: rest => .head { type with alloced := true } len body :: rest
  | pointer => pointer

/-- `sxe_jitson_stack_get_jitson` -/
def getJitson (env : Env) (stack : Stack) : Except Failure (Pointer × Stack) :=
  if ¬ stack.allocated ∨ stack.opened ≠ 0 then .error ⟨.assertion, stack⟩
  else if stack.borrow ≠ 0 then
    if stack.count ≤ stack.borrow then .error ⟨.assertion, stack⟩
    else if env.alloc (stack.count - stack.borrow) then
      .ok (markAlloced (stack.pointer stack.borrow), { stack with jitsons := stack.jitsons.take stack.borrow })
    else .error ⟨.memory, stack⟩
  else .ok (markAlloced stack.jitsons, { stack with jitsons := [], allocated := false })

/-- `sxe_jitson_stack_borrow`; the IOU is the stack before. -/
def lend (stack : Stack) : Stack :=
  { stack with opened := 0, last := 0, borrow := stack.count }

/-- `sxe_jitson_stack_return` -/
def giveBack (stack iou : Stack) : Except Failure Stack :=
  if stack.borrow ≠ iou.count then .error ⟨.assertion, stack⟩
  else .ok { stack with
    opened := iou.opened, last := iou.last, borrow := iou.borrow, jitsons := stack.jitsons.take iou.count }

/-! ## Adding values to collections -/

/-- The first part of `sxe_jitson_stack_add_value`: an element of another size
or of another type than those before it clears `IS_UNIF` or `IS_HOMO`. -/
def checkElement (stack : Stack) (collection size : Nat) (elemType : TypeWord) (copied : Bool) :
    Except Failure Stack :=
  let type := typeOf (stack.pointer collection)
  let len := lenOf (stack.pointer collection)
  let resized : Bool := len ≠ 0 ∧ type.isUnif ∧
    size ≠ (stack.count - (if copied then 0 else size) - (collection + 1)) / len
  let retyped : Bool := len ≠ 0 ∧ type.isHomo ∧ (typeOf (stack.pointer (collection + 1))).masked ≠ elemType
  if resized ∧ type.mkSort then .error ⟨.assertion, stack⟩
  else .ok (stack.mapType collection fun type =>
    { type with isUnif := type.isUnif && !resized, isHomo := type.isHomo && !retyped })

/-- The class with which the place of an element is found in a sorted array
whose elements take that many bytes. -/
def elementClass (env : Env) (bytes : Nat) :
    KitSortedArray.ArrayClass (KitSortedArray.Address Token) (KitSortedArray.Address Token) Unit where
  size := bytes
  keyoffset := 0
  cmp key element := cmp env.ops (key.tokens 16) (element.tokens 16)
  visit := fun _ _ => none
  cmpCanFail := true

/-- The part of `sxe_jitson_stack_add_value` that makes room for an element of
an insertion sorted array: the index of the element, with those that are
greater moved up by one token. -/
def insertElement (env : Env) (stack : Stack) (collection size len : Nat) (element : Pointer) :
    Except Failure (Stack × Nat) :=
  if cmp env.ops (stack.pointer (stack.last - size)) element > 0 then
    match KitSortedArray.findKey (elementClass env (16 * size)) ⟨stack.pointer (collection + 1),
      0⟩ len ⟨element, 0⟩ with
    | none => .error ⟨.assertion, stack⟩
    | some (i, _) =>
        if i < len then
          let idx := collection + 1 + size * i
          .ok (stack.write (idx + 1) ((stack.pointer idx).take ((len - i) * size)), idx)
        else .error ⟨.assertion, stack⟩
  else .ok (stack, stack.last)

/-- The part of `sxe_jitson_stack_add_value` that clears `IS_ORD` when the
value before is greater or incomparable. -/
def checkOrder (env : Env) (stack : Stack) (collection : Nat) (value : Pointer) : Stack :=
  if cmp env.ops (stack.pointer (stack.partLast collection)) value > 0 then
    stack.mapType collection fun type => { type with isOrd := false }
  else stack

/-- The part of `sxe_jitson_stack_add_value` that runs if there is a value
already, with the type that the array had at first. -/
def placeElement (env : Env) (stack : Stack) (type : TypeWord) (collection size len : Nat)
    (element : Option Pointer) : Except Failure (Stack × Nat) :=
  if len = 0 then .ok (stack, stack.last)
  else if type.mkSort then
    match element with
    | some element => insertElement env stack collection size len element
    | none => .error ⟨.assertion, stack⟩
  else if type.isOrd then
    match element with
    | some element => .ok (checkOrder env stack collection element, stack.last)
    | none =>
        if size = 0 then .ok (stack, stack.last)
        else .ok (checkOrder env stack collection (stack.pointer stack.last), stack.last)
  else .ok (stack, stack.last)

/-- The last part of `sxe_jitson_stack_add_value`. -/
def noteElement (stack : Stack) (collection size : Nat) (isArray : Bool) : Stack :=
  (if isArray then if size = 0 then stack else stack.setPartLast collection stack.last
    else stack.setNoValue collection false).mapLen collection (· + 1)

/-- `sxe_jitson_stack_add_value`, of which the index returned is not used.
Where the stack cannot be expanded, its last value is
`SXE_JITSON_STACK_ERROR`. -/
def addValue (env : Env) (stack : Stack) (size : Nat) (elemType : TypeWord) (element : Option Pointer) :
    Except Failure Stack :=
  let collection := stack.opened - 1
  let type := typeOf (stack.pointer collection)
  let len := lenOf (stack.pointer collection)
  let isArray : Bool := type.kind = .array
  if stack.opened = 0 ∨ ¬ (isArray ∨ type.kind = .object ∧ stack.noValue collection) then .error ⟨.assertion, stack⟩
  else do
    let stack ← stack.checkElement collection size elemType element.isSome
    let stack ← match element with
      | some _ => onFailure (expand env stack size) fun stack => stack.setLast (2 ^ 32 - 1)
      | none => .ok stack
    let (stack, idx) ← placeElement env (stack.setLast (stack.count - size)) type collection size len element
    let stack := match element with
      | some element => stack.write idx (element.take size)
      | none => stack
    .ok (stack.noteElement collection size isArray)

/-- `sxe_jitson_stack_value_added` -/
def valueAdded (env : Env) (stack : Stack) (optimize : Bool) : Stack :=
  let collection := stack.opened - 1
  let type := typeOf (stack.pointer collection)
  if optimize ∧ type.kind = .array then
    (if lenOf (stack.pointer collection) > 1 ∧ type.isOrd then
      checkOrder env stack collection (stack.pointer stack.last) else stack).setPartLast collection stack.last
  else stack

/-! ## Collections -/

/-- The types that a collection can be opened with. -/
def canOpen (type : TypeWord) : Bool :=
  { type with isLocal := false } ∈
    [({ kind := .array } : TypeWord), { kind := .object }, { kind := .array, mkSort := true }]

/-- `sxe_jitson_stack_open_collection` -/
def openCollection (env : Env) (stack : Stack) (type : TypeWord) : Except Failure Stack :=
  if ¬ canOpen type then .error ⟨.assertion, stack⟩
  else do
    let stack ← if stack.opened ≠ 0 then addValue env stack 0 type none else .ok stack
    let idx := stack.count
    let stack ← expand env stack 1
    let type :=
      if type.kind = .array ∧ (env.optimize ∨ type.mkSort) then
        { type with isOrd := true, isUnif := true, isHomo := true }
      else type
    .ok { stack.write idx [.head type 0 (.part false 0 stack.opened)] with opened := idx + 1 }

/-- The body of a collection when it is closed. -/
def closedBody (type : TypeWord) (len tokens : Nat) : Body (List Token) :=
  if len ≠ 0 ∧ type.kind = .array ∧ type.isUnif then .uniform (16 * tokens / len % 2 ^ 32)
  else .integer (tokens + 1)

def closeHead (tokens : Nat) : Token → Token
  | .head type len _ => .head type len (closedBody type len tokens)
  | .more => .more

/-- `sxe_jitson_stack_close_collection`.  The assertion on a missing value
compares the whole type with that of an object. -/
def closeCollection (env : Env) (stack : Stack) : Except Failure Stack :=
  let idx := stack.opened - 1
  if stack.opened = 0 then .error ⟨.assertion, stack⟩
  else if typeOf (stack.pointer idx) = { kind := .object } ∧ stack.noValue idx then .error ⟨.assertion, stack⟩
  else if stack.opened ≤ stack.partCollection idx then .error ⟨.assertion, stack⟩
  else
    let stack : Stack := { stack with
      opened := stack.partCollection idx
      jitsons := stack.jitsons.modify idx (closeHead (stack.count - (idx + 1))) }
    .ok (if stack.opened ≠ 0 then stack.valueAdded env env.optimize else stack)

/-! ## Strings -/

/-- The loop of `sxe_jitson_stack_push_string` that adds the tokens behind the
first. -/
def pushMore (env : Env) (stack : Stack) : Nat → Except Failure Stack
  | 0 => .ok stack
  | count + 1 => do
      let stack ← expand env stack 1
      pushMore env stack count

/-- `sxe_jitson_stack_push_string`.  A string of at least eight bytes takes
one more token for every sixteen begun, counting its NUL.  A failure discards
its tokens. -/
def pushString (env : Env) (stack : Stack) (string : List UInt8) (isRef isOwn isKey : Bool) : Except Failure Stack := do
  let idx := stack.count
  let stack ← expand env stack 1
  let type : TypeWord := { kind := .string, isRef := isRef || isOwn, isOwn := isOwn, isKey := isKey }
  if type.isRef then .ok (stack.write idx [.head type 0 (.reference string)])
  else
    let text := CString.text string
    if text.length ≥ 2 ^ 32 then .error ⟨.invalid, stack.truncate idx⟩
    else
      onFailure (pushMore env (stack.write idx [.head type text.length (.string text)])
        (if text.length < 8 then 0 else (text.length - 8) / 16 + 1)) fun stack => stack.truncate idx

/-- `sxe_jitson_stack_add_member_name`; its flags are those of the string and
`IS_LOCAL`, which changes nothing. -/
def addMemberName (env : Env) (stack : Stack) (name : List UInt8) (isRef isOwn : Bool) : Except Failure Stack :=
  let object := stack.opened - 1
  let type := typeOf (stack.pointer object)
  if stack.opened = 0 ∨ { type with isLocal := false } ≠ { kind := .object } ∨ stack.noValue object then
    .error ⟨.assertion, stack⟩
  else pushString env (stack.setNoValue object true) name isRef isOwn true

/-- `sxe_jitson_stack_add_string`, which takes back the length on failure. -/
def addString (env : Env) (stack : Stack) (string : List UInt8) (isRef isOwn : Bool) : Except Failure Stack :=
  if isRef || isOwn then
    addValue env stack 1 { kind := .string }
      (some [.head { kind := .string, isRef := true, isOwn := isOwn } 0 (.reference string)])
  else do
    let stack ← addValue env stack 0 { kind := .string } none
    let stack ← onFailure (pushString env (stack.setLast stack.count) string false false false) fun stack =>
      stack.mapLen (stack.opened - 1) (· - 1)
    .ok (stack.valueAdded env env.optimize)

/-! ## Other values -/

/-- The constants `sxe_jitson_null`, `sxe_jitson_true` and `sxe_jitson_false`. -/
def nullValue : Token := .head { kind := .null } 0 .unset

def boolValue (value : Bool) : Token := .head { kind := .bool } 0 (.boolean value)

/-- `sxe_jitson_make_uint` -/
def makeUint (value : Nat) : Token := .head { kind := .number, isUint := true } 0 (.integer value)

/-- `sxe_jitson_make_number` -/
def makeNumber (bits : UInt64) : Token := .head { kind := .number } 0 (.number bits)

/-- `sxe_jitson_make_reference` -/
def makeReference (target : Pointer) : Token := .head { kind := .reference } 0 (.jitref (dereference target))

/-- `sxe_jitson_stack_add_null` -/
def addNull (env : Env) (stack : Stack) : Except Failure Stack :=
  addValue env stack 1 { kind := .null } (some [nullValue])

/-- `sxe_jitson_stack_add_bool` -/
def addBool (env : Env) (stack : Stack) (value : Bool) : Except Failure Stack :=
  addValue env stack 1 { kind := .bool } (some [boolValue value])

/-- `sxe_jitson_stack_add_number` -/
def addNumber (env : Env) (stack : Stack) (bits : UInt64) : Except Failure Stack :=
  addValue env stack 1 { kind := .number } (some [makeNumber bits])

/-- `sxe_jitson_stack_add_uint` -/
def addUint (env : Env) (stack : Stack) (value : Nat) : Except Failure Stack :=
  addValue env stack 1 { kind := .number } (some [makeUint value])

/-- `sxe_jitson_stack_add_reference`, which passes on the whole type of the
value. -/
def addReference (env : Env) (stack : Stack) (target : Pointer) : Except Failure Stack :=
  addValue env stack 1 (typeOf target) (some [makeReference target])

/-- `sxe_jitson_clone` of all values from a pointer on: the elements of an
array are accessed, so arrays are indexed, both in the value and in its
clone. -/
def clone : Pointer → Pointer
  | [] => []
  | token :: rest =>
      let type := typeOf (token :: rest)
      (if type.isArray ∧ lenOf (token :: rest) ≠ 0 ∧ ¬ type.isRef ∧ ¬ type.isUnif ∧ ¬ type.indexed then
        indexArray (token :: rest) else token :: rest).take 1 ++ clone rest

/-- Whether a value, up to a depth, owns memory that is cloned with it: strings
that it owns, and indexes.  The members of an object follow each other. -/
def ownsMemory : Nat → Pointer → Bool
  | 0, _ => false
  | depth + 1, pointer =>
      let type := typeOf pointer
      let len := lenOf pointer
      match type.kind with
      | .string => type.isOwn
      | .array | .range =>
          len ≠ 0 && (type.indexed || (List.range len).any fun i =>
            match arrayGetElement pointer i with
            | some element => ownsMemory depth element
            | none => false)
      | .object =>
          len ≠ 0 && (type.indexed || (walkOffsets pointer (2 * len) 1).any fun offset =>
            ownsMemory depth (pointer.drop offset))
      | _ => false

/-- Whether `sxe_jitson_clone`, up to a depth, finds every index that it copies.
It takes the pointers of a concatenation that owns its arrays for an index.  The
elements of all concatenations are shared with the clone, so that their indexes
are copied over themselves after their memory was replaced. -/
def findsIndexes : Nat → Bool → Pointer → Bool
  | 0, _, _ => true
  | depth + 1, shared, pointer =>
      let type := typeOf pointer
      let len := lenOf pointer
      match type.kind with
      | .array | .range =>
          len = 0 || (!(type.indexed && (type.isRef || shared)) && (List.range len).all fun i =>
            match arrayGetElement pointer i with
            | some element => findsIndexes depth (type.isRef || shared) element
            | none => true)
      | .object =>
          len = 0 || (!(type.indexed && shared) && (walkOffsets pointer (2 * len) 1).all fun offset =>
            findsIndexes depth shared (pointer.drop offset))
      | _ => true

/-- The arrays that `sxe_jitson_clone`, up to a depth, gives an index, in the order
in which it comes to them: whether they are cloned themselves or, as the arrays of
a concatenation, only their elements are. -/
def indexes : Nat → Bool → Pointer → List Bool
  | 0, _, _ => []
  | depth + 1, cloned, pointer =>
      let type := typeOf pointer
      let len := lenOf pointer
      match type.kind with
      | .array | .range =>
          if len = 0 then []
          else if type.isRef then
            match bodyOf pointer with
            | .concat first second => indexes depth false first ++ indexes depth false second
            | _ => []
          else (if type.isUnif || type.indexed then [] else [cloned]) ++ (List.range len).flatMap fun i =>
            match arrayGetElement pointer i with
            | some element => indexes depth true element
            | none => []
      | .object =>
          if len = 0 then []
          else (walkOffsets pointer (2 * len) 1).flatMap fun offset => indexes depth true (pointer.drop offset)
      | _ => []

/-- Whether no array is cloned that was given an index before, which depends on
where the arrays are: those of concatenations may be the same. -/
def apart (address : Nat → Nat) (arrays : List Bool) : Bool :=
  decide (arrays.zipIdx.Pairwise fun first second => second.1 = true → address first.2 ≠ address second.2)

def clonable (address : Nat → Nat) (value : Pointer) : Bool :=
  findsIndexes (weight value + 1) false value && apart address (indexes (weight value + 1) true value)

/-- The concatenation of `[[0]]` with itself is not cloned, that of two arrays is. -/
example :
    let nested : Pointer := [.head { kind := .array } 1 (.integer 3), .head { kind := .array } 1 (.integer 2),
      makeUint 0]
    let twice : Pointer := [.head { kind := .array, isRef := true } 2 (.concat nested nested), .more]
    clonable (fun n => n % 2) twice = false ∧ clonable id twice = true := by decide

/-- Whether `sxe_jitson_clone` succeeds. -/
def canClone (env : Env) (value : Pointer) : Bool := env.allocClone || !ownsMemory (weight value + 1) value

/-- `sxe_jitson_stack_dup_at_index` -/
def dupAtIndex (env : Env) (stack : Stack) (idx : Nat) (value : Pointer) (size : Nat) : Except Failure Stack :=
  if ¬ clonable env.address value then .error ⟨.undefined, stack⟩
  else do
    let stack ← if idx + size > stack.count then expand env stack (idx + size - stack.count) else .ok stack
    let stack := (stack.write idx ((clone value).take size)).mapType idx fun type => { type with alloced := false }
    if canClone env value then .ok stack else .error ⟨.memory, stack⟩

/-- `sxe_jitson_stack_add_dup` -/
def addDup (env : Env) (stack : Stack) (value : Pointer) : Except Failure Stack := do
  let stack ← dupAtIndex env stack stack.count value (size value)
  let stack ← addValue env stack (size value) (typeOf (clone value)) none
  .ok (stack.valueAdded env env.optimize)

/-- `sxe_jitson_stack_add_dup_members`.  The members are cloned as part of
their object. -/
def addDupMembers (env : Env) (stack : Stack) (value : Pointer) : Except Failure Stack :=
  let object := stack.opened - 1
  let type := typeOf (stack.pointer object)
  let members := dereference value
  if stack.opened = 0 ∨ { type with isLocal := false } ≠ { kind := .object } ∨ stack.noValue object ∨
      (typeOf members).kind ≠ .object then .error ⟨.assertion, stack⟩
  else if lenOf members = 0 then .ok stack
  else if ¬ clonable env.address members then .error ⟨.undefined, stack⟩
  else do
    let idx := stack.count
    let stack ← expand env stack (size members - 1)
    let stack := stack.write idx (((clone members).drop 1).take (size members - 1))
    if canClone env members then .ok (stack.mapLen object (· + lenOf members)) else .error ⟨.memory, stack⟩

end Stack

end Jitson
end LibKit
