import LibKit.Jitson.Source
import LibKit.Support.Bytes
import LibKit.Support.CString

namespace LibKit
namespace Jitson

open Bytes

/-!
# The construction stack in words and bytes

The part of `sxe-jitson-stack.c` that manages the memory of a stack, and its
writers of strings, with the words as wide as those of the source and the
tokens as the bytes that they are.  What the allocator answers is given to
each function that allocates: `none`, or the contents of a new block.

A write to a token that is not in use stops the program, as do assertions and
what is undefined: a division by zero and the use of memory that was freed.
-/

abbrev Memory := Nat → UInt8

/-- `stack->jitsons`: a null pointer, a pointer to memory that was freed, or a
block with room for a number of tokens. -/
inductive Jitsons where
  | null
  | freed
  | live (size : Nat) (bytes : Memory)

inductive Stop where
  | undefined
  | outside
  | assertion
deriving DecidableEq

/-- `struct sxe_jitson_stack` without the members `open` and `last`, of which
the first is only looked at by an assertion here. -/
structure RawStack where
  maximum : UInt32
  count : UInt32
  borrow : UInt32
  jitsons : Jitsons

/-- `SXE_JITSON_STACK_ERROR` -/
def stackError : UInt32 := 0xFFFFFFFF

/-! ## Memory -/

/-- `kit_malloc` of a number of tokens. -/
def kitMalloc (grant : Option Memory) (tokens : Nat) : Option Jitsons := grant.map (Jitsons.live tokens)

/-- `kit_realloc` to a number of tokens: the new block, or `NULL` with what has
become of the old one, which is freed if no token is wanted. -/
def kitRealloc (grant : Option Memory) (tokens : Nat) : Jitsons → Except Stop (Option Jitsons × Jitsons)
  | .null => .ok (kitMalloc grant tokens, .null)
  | .freed => .error .undefined
  | .live size bytes =>
      if tokens = 0 then .ok (none, .freed)
      else .ok (grant.map fun fresh => .live tokens fun place =>
        if place < 16 * min size tokens then bytes place else fresh place, .live size bytes)

namespace RawStack

/-- `sxe_jitson_stack_make`; if there is no memory, it returns false. -/
def make (grant : Option Memory) (initSize : UInt32) : Bool × RawStack :=
  (grant.isSome, ⟨initSize, 0, 0, (kitMalloc grant initSize.toNat).getD .null⟩)

/-- The size to which `sxe_jitson_stack_expand` grows the stack; the divisor
is the maximum of a small stack. -/
def newMaximum (maximum expanded : UInt32) : Except Stop UInt32 :=
  if expanded < 4096 then
    if maximum = 0 then .error .undefined else .ok (((expanded - 1) / maximum + 1) * maximum)
  else .ok (((expanded - 1) / 4096 + 1) * 4096)

/-- `sxe_jitson_stack_expand` -/
def expand (grant : Option Memory) (stack : RawStack) (more : UInt32) : Except Stop (UInt32 × RawStack) := do
  let expanded := stack.count + more
  if stack.maximum < expanded then
    let maximum ← newMaximum stack.maximum expanded
    match ← kitRealloc grant maximum.toNat stack.jitsons with
    | (none, jitsons) => .ok (stackError, { stack with jitsons := jitsons })
    | (some jitsons, _) =>
      .ok (expanded - more, { stack with maximum := maximum, count := expanded, jitsons := jitsons })
  else
    match stack.jitsons with
    | .null =>
        match kitMalloc grant stack.maximum.toNat with
        | none => .ok (stackError, stack)
        | some jitsons => .ok (expanded - more, { stack with count := expanded, jitsons := jitsons })
    | _ => .ok (expanded - more, { stack with count := expanded })

/-- Set `SXE_JITSON_TYPE_ALLOCED` in the first token of a block. -/
def alloced (bytes : Memory) : Memory := fun place => if place = 3 then bytes 3 ||| 0x80 else bytes place

/-- The part of `sxe_jitson_stack_get_jitson` that gives back the room that is
not used. -/
def shrink (grant : Option Memory) (stack : RawStack) : Except Stop (Option Jitsons × Jitsons) :=
  if stack.count < stack.maximum then kitRealloc grant stack.count.toNat stack.jitsons else .ok (none, stack.jitsons)

/-- `sxe_jitson_stack_get_jitson` of a stack that has no open collection.  If
there is no token, the flag is set in memory that is not there. -/
def getJitson (grant : Option Memory) (stack : RawStack) : Except Stop (Jitsons × RawStack) :=
  match stack.jitsons with
  | .null => .error .assertion
  | .freed => .error .undefined
  | .live _ bytes =>
      if stack.borrow ≠ 0 then
        if ¬ stack.borrow < stack.count then .error .assertion
        else
          let tokens := (stack.count - stack.borrow).toNat
          match grant with
          | none => .ok (.null, stack)
          | some fresh =>
              let copy := write fresh 0 (Bytes.read bytes (16 * stack.borrow.toNat) (16 * tokens))
              .ok (.live tokens (alloced copy), { stack with count := stack.borrow })
      else if stack.count = 0 then .error .undefined
      else do
        let (ret, jitsons) ← stack.shrink grant
        match ret.getD jitsons with
        | .live size bytes => .ok (.live size (alloced bytes), { stack with count := 0, jitsons := .null })
        | _ => .error .undefined

/-- `sxe_jitson_stack_clear` -/
def clear (stack : RawStack) : RawStack := { stack with count := stack.borrow }

/-- `sxe_jitson_stack_borrow`; the IOU is the stack before. -/
def lend (stack : RawStack) : RawStack := { stack with borrow := stack.count }

/-- `sxe_jitson_stack_return` -/
def giveBack (stack iou : RawStack) : Except Stop RawStack :=
  if stack.borrow ≠ iou.count then .error .assertion
  else .ok { stack with borrow := iou.borrow, count := iou.count }

/-- Discard the tokens from an index on, as the functions do that fail. -/
def unwind (stack : RawStack) (idx : UInt32) : RawStack := { stack with count := idx }

/-! ## Strings -/

/-- Write to the token at an index and those behind it. -/
def put (stack : RawStack) (idx : UInt32) (offset : Nat) (block : List UInt8) : Except Stop RawStack :=
  match stack.jitsons with
  | .live size bytes =>
      if 16 * idx.toNat + offset + block.length ≤ 16 * min size stack.count.toNat then
        .ok { stack with jitsons := .live size (write bytes (16 * idx.toNat + offset) block) }
      else .error .outside
  | _ => .error .undefined

def putType (stack : RawStack) (idx type : UInt32) : Except Stop RawStack := stack.put idx 0 (encodeWord 4 type.toNat)

def putLen (stack : RawStack) (idx len : UInt32) : Except Stop RawStack := stack.put idx 4 (encodeWord 4 len.toNat)

/-- Write to `string` in a token. -/
def putString (stack : RawStack) (idx : UInt32) (place : Nat) (block : List UInt8) : Except Stop RawStack :=
  stack.put idx (8 + place) block

def typeString : UInt32 := 4

def flagReversed : UInt32 := 0x08000000

def flagKey : UInt32 := 0x10000000

def flagRef : UInt32 := 0x20000000

def flagOwn : UInt32 := 0x40000000

/-- The part of `sxe_jitson_stack_load_string` that makes room for what is left
of a character and for a NUL: an index that is no error, and the space. -/
def reserve (grants : Nat → Option Memory) (idx : UInt32) (stack : RawStack) (space i : UInt32) :
    Except Stop (UInt32 × RawStack × UInt32 × (Nat → Option Memory)) :=
  if space - 1 < i then do
    let (first, stack) ← stack.expand (grants 0) 1
    .ok (first, stack, space - 1 + 16, fun later => grants (later + 1))
  else .ok (idx, stack, space - 1, grants)

/-- The part of `sxe_jitson_stack_load_string` that copies the bytes of a
character behind its first. -/
def copyRest (idx : UInt32) (utf8 : List UInt8) (stack : RawStack) (len space : UInt32) :
    Except Stop (RawStack × UInt32 × UInt32) :=
  let i := UInt32.ofNat utf8.length - 1
  if i > 0 then do
    let stack ← stack.putString idx len.toNat (utf8.drop 1)
    let stack ← stack.putLen idx (len + i)
    .ok (stack, len + i, space - i)
  else .ok (stack, len, space)

/-- The loop of `sxe_jitson_stack_load_string`: `space` is what is left of the
last token.  Without a source the string was not loaded. -/
def loadStringLoop (grants : Nat → Option Memory) (idx : UInt32) : Nat → Source → RawStack → UInt32 → UInt32 →
    Except Stop (Option Source × RawStack)
  | 0, _, _, _, _ => .error .undefined
  | fuel + 1, source, stack, len, space =>
      if source.peekChar = 34 then do
        let stack ← stack.putString idx len.toNat [0]
        .ok (some (source.consume 1), stack)
      else
        match source.character with
        | none => .ok (none, stack.unwind idx)
        | some (utf8, source) => do
            let i := UInt32.ofNat utf8.length
            let stack ← stack.putString idx len.toNat (utf8.take 1)
            let stack ← stack.putLen idx (len + 1)
            let (first, stack, space, grants) ← reserve grants idx stack space i
            if first = stackError then .ok (none, stack.unwind idx)
            else
              let (stack, len, space) ← copyRest idx utf8 stack (len + 1) space
              loadStringLoop grants idx fuel source stack len space

/-- `sxe_jitson_stack_load_string` -/
def loadString (grants : Nat → Option Memory) (stack : RawStack) (source : Source) :
    Except Stop (Option Source × RawStack) := do
  let (c, source) := source.getNonspace
  if c ≠ 34 then .ok (none, stack)
  else
    let (idx, stack) ← stack.expand (grants 0) 1
    if idx = stackError then .ok (none, stack)
    else
      let stack ← stack.putType idx typeString
      let stack ← stack.putLen idx 0
      loadStringLoop (fun later => grants (later + 1)) idx (source.next.length + 1) source stack 0 8

/-- The loop of `sxe_jitson_stack_push_string` that adds the tokens behind the
first, with what is left of the string. -/
def pushMore (grants : Nat → Option Memory) (idx : UInt32) : List UInt8 → RawStack → Except Stop (Bool × RawStack) :=
  fun text stack => do
    let (next, stack) ← stack.expand (grants 0) 1
    if next = stackError then .ok (false, stack.unwind idx)
    else if text.length < 16 then do
      let stack ← stack.put next 0 (text ++ [0])
      .ok (true, stack)
    else do
      let stack ← stack.put next 0 (text.take 16)
      pushMore (fun later => grants (later + 1)) idx (text.drop 16) stack
termination_by text => text.length

/-- `sxe_jitson_stack_push_string` of a string at an address. -/
def pushString (grants : Nat → Option Memory) (stack : RawStack) (string : List UInt8) (address : Nat) (type : UInt32) :
    Except Stop (Bool × RawStack) := do
  let (idx, stack) ← stack.expand (grants 0) 1
  if idx = stackError then .ok (false, stack)
  else
    let type := if type &&& flagOwn ≠ 0 then flagRef ||| type else type
    let stack ← stack.putType idx (typeString ||| type)
    if type &&& flagRef ≠ 0 then do
      let stack ← stack.putString idx 0 (encodeWord 8 address)
      let stack ← stack.putLen idx 0
      .ok (true, stack)
    else
      match CString.strlen string with
      | none => .error .undefined
      | some len =>
          if 2 ^ 32 ≤ len then .ok (false, stack.unwind idx)
          else do
            let stack ← stack.putLen idx (UInt32.ofNat len)
            if len < 8 then do
              let stack ← stack.putString idx 0 (string.take (len + 1))
              .ok (true, stack)
            else do
              let stack ← stack.putString idx 0 (string.take 8)
              pushMore (fun later => grants (later + 1)) idx ((string.take len).drop 8) stack

/-- The loop of `sxe_jitson_stack_push_string_reversed`, with what is left of
the string. -/
def reverseLoop (idx : UInt32) (len : Nat) : List UInt8 → Nat → RawStack → Except Stop RawStack
  | [], _, stack => .ok stack
  | byte :: rest, i, stack => do
      let stack ← stack.putString idx (len - i - 1) [byte]
      reverseLoop idx len rest (i + 1) stack

/-- `sxe_jitson_stack_push_string_reversed` -/
def pushStringReversed (grant : Option Memory) (stack : RawStack) (string : List UInt8) (len : Nat) :
    Except Stop (Bool × RawStack) :=
  match if len ≠ 0 then some len else CString.strlen string with
  | none => .error .undefined
  | some len =>
      if 2 ^ 32 ≤ len then .ok (false, stack)
      else do
        let (idx, stack) ← stack.expand grant (UInt32.ofNat ((len + 2 * 16 - 8) / 16))
        if idx = stackError then .ok (false, stack)
        else
          let stack ← stack.putType idx (typeString ||| flagReversed)
          let stack ← stack.putLen idx (UInt32.ofNat len)
          if string.length < len then .error .undefined
          else
            let stack ← reverseLoop idx len (string.take len) 0 stack
            let stack ← stack.putString idx len [0]
            .ok (true, stack)

/-- `sxe_jitson_ident_push_stack`, with the number under which the type of
identifiers was registered. -/
def identPushStack (typeIdent : UInt32) (grant : Option Memory) (stack : RawStack) (ident : List UInt8) (len : Nat) :
    Except Stop (Bool × RawStack) := do
  let (idx, stack) ← stack.expand grant (UInt32.ofNat ((8 + len) / 16) + 1)
  if idx = stackError then .ok (false, stack)
  else
    let stack ← stack.putType idx typeIdent
    let stack ← stack.putLen idx (UInt32.ofNat len)
    if ident.length < len then .error .undefined
    else
      let stack ← stack.putString idx 0 (ident.take len)
      let stack ← stack.putString idx len [0]
      .ok (true, stack)

/-! ## Sizes -/

/-- `sxe_jitson_string_len` of the token at an index, where the length of a
reference is what `strlen` finds. -/
def stringLen (size : Nat) (bytes : Memory) (referenceLen : Nat) (idx : Nat) : Option Nat :=
  let type := UInt32.ofNat (readWord bytes (16 * idx) 4)
  let len := readWord bytes (16 * idx + 4) 4
  if type &&& flagKey ≠ 0 then
    if type &&& flagRef ≠ 0 then some referenceLen
    else CString.strlen (Bytes.read bytes (16 * idx + 8) (16 * size - (16 * idx + 8)))
  else if len = 0 ∧ type &&& flagRef ≠ 0 then some referenceLen
  else some len

/-- `sxe_jitson_string_size` -/
def stringSize (size : Nat) (bytes : Memory) (referenceLen : Nat) (idx : Nat) : Option UInt32 :=
  if UInt32.ofNat (readWord bytes (16 * idx) 4) &&& flagRef ≠ 0 then some 1
  else (stringLen size bytes referenceLen idx).map fun len => 1 + UInt32.ofNat ((len + 16 - 8) / 16)

/-- `sxe_jitson_ident_size` -/
def identSize (bytes : Memory) (idx : Nat) : UInt32 := UInt32.ofNat (1 + (readWord bytes (16 * idx + 4) 4 + 8) / 16)

end RawStack

end Jitson
end LibKit
