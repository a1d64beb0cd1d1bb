import LibKit.Jitson.Source
import LibKit.Jitson.Stack

namespace LibKit
namespace Jitson

/-!
# The parser

`sxe_jitson_stack_load_string` and `sxe_jitson_stack_load_json`.  Values are
parsed onto the end of the stack, and the head of a collection is completed
when its elements have been parsed.  A call that fails discards what it has
added to the stack, unless it was duplicating a constant.
-/

namespace Stack

/-! ## Strings -/

/-- The bytes of a string that is parsed.  Its length has 32 bits, so what
exceeds them is written over the start of the string. -/
def wrapped (bytes : List UInt8) : List UInt8 := bytes.drop (bytes.length - bytes.length % 2 ^ 32)

/-- The loop of `sxe_jitson_stack_load_string`: the bytes so far, and the space
that is left for more of them.  The head, at `idx`, gets its length and its
bytes at the end. -/
def loadStringLoop (env : Env) (idx : Nat) : Nat → Source → Stack → List UInt8 → Nat → Except Failure (Source × Stack)
  | 0, _, stack, _, _ => .error ⟨.undefined, stack⟩
  | fuel + 1, source, stack, bytes, space =>
      if source.peekChar = 34 then
        .ok (source.consume 1, stack.write idx [.head { kind := .string } (bytes.length % 2 ^ 32)
          (.string (wrapped bytes))])
      else
        match source.character with
        | none => .error ⟨.invalid, stack.truncate idx⟩
        | some (chars, source) => do
            let (stack, space) ←
              if space - 1 < chars.length then do
                let stack ← onFailure (expand env stack 1) fun stack => stack.truncate idx
                .ok (stack, space - 1 + 16)
              else .ok (stack, space - 1)
            loadStringLoop env idx fuel source stack (bytes ++ chars) (space - (chars.length - 1))

/-- `sxe_jitson_stack_load_string` -/
def loadString (env : Env) (source : Source) (stack : Stack) : Except Failure (Source × Stack) :=
  let (c, source) := source.getNonspace
  if c ≠ 34 then .error ⟨.invalid, stack⟩
  else do
    let idx := stack.count
    let stack ← expand env stack 1
    loadStringLoop env idx (source.next.length + 1) source stack [] 8

/-! ## Values -/

/-- The classes of `jitson_class` that start a value. -/
inductive CharClass where
  | quote
  | brace
  | bracket
  | number
  | letter
  | other
deriving DecidableEq

/-- `jitson_class` -/
def charClass (byte : UInt8) : CharClass :=
  if byte = 34 then .quote
  else if byte = 123 then .brace
  else if byte = 91 then .bracket
  else if byte = 45 ∨ (48 ≤ byte ∧ byte ≤ 57) then .number
  else if (65 ≤ byte ∧ byte ≤ 90) ∨ byte = 95 ∨ (97 ≤ byte ∧ byte ≤ 122) then .letter
  else .other

/-- Write the token that was allocated for a value. -/
def setHead (stack : Stack) (idx : Nat) (type : TypeWord) (body : Body (List Token)) : Stack :=
  stack.write idx [.head type 0 body]

/-- The part of `sxe_jitson_stack_load_json` for numbers.  That a conversion
takes the whole number, and no more, is asserted in debug builds only. -/
def loadNumber (env : Env) (source : Source) (stack : Stack) (idx : Nat) : Except Failure (Source × Stack) :=
  match source.getNumber with
  | none => .error ⟨.invalid, stack⟩
  | some (isUint, behind) =>
      if isUint then
        let (value, _) := Source.strtoul source.memory source.allowHex
        .ok (behind, stack.setHead idx { kind := .number, isUint := true } (.integer value))
      else
        let (bits, _) := env.ops.strtod source.memory
        .ok (behind, stack.setHead idx { kind := .number } (.number bits))

/-! ## Symbols -/

/-- The values in `json_builtins`. -/
def builtin (name : List UInt8) : Option Token :=
  if name = [116, 114, 117, 101] then some (boolValue true)
  else if name = [102, 97, 108, 115, 101] then some (boolValue false)
  else if name = [110, 117, 108, 108] then some nullValue
  else none

/-- `sxe_jitson_const_get` -/
def constGet (env : Env) (allowConsts : Bool) (name : List UInt8) : Option Constant :=
  match if allowConsts then env.constants name else none with
  | some constant => some constant
  | none => (builtin name).map fun value => .value [value]

/-- `sxe_jitson_range_cast`: a range is an array of two elements with the type
changed. -/
def rangeCast (env : Env) (stack : Stack) (value : Pointer) : Except Failure Stack :=
  if getType value ≠ .array ∨ lenOf (dereference value) ≠ 2 then .error ⟨.invalid, stack⟩
  else
    let ordered :=
      match arrayGetElement value 0, arrayGetElement value 1 with
      | some first, some second => decide (cmp env.ops first second ≤ 0)
      | _, _ => false
    if ordered then do
      let idx := stack.count
      let stack ← dupAtIndex env stack idx value (size value)
      .ok (stack.mapType idx fun type => { type with kind := .range })
    else .error ⟨.invalid, stack⟩

/-- The part of `sxe_jitson_stack_load_json` after the argument of a cast was
parsed on the borrowed stack, which is given back. -/
def finishCast (env : Env) (iou : Stack) (parsed : Except Failure (Source × Stack)) :
    Except Failure (Source × Stack) :=
  let argument : Except Failure (Pointer × Source × Stack) := do
    let (source, stack) ← parsed
    let (value, stack) ← getJitson env stack
    .ok (value, source, stack)
  match argument with
  | .error failure => do
      let stack ← failure.stack.giveBack iou
      .error ⟨failure.fault, stack⟩
  | .ok (value, source, stack) => do
      let stack ← stack.giveBack iou
      let (c, source) := source.getNonspace
      if c ≠ 41 then .error ⟨.invalid, stack⟩
      else do
        let stack ← rangeCast env stack value
        .ok (source, stack)

/-- `sxe_jitson_ident_push_stack` -/
def pushIdent (env : Env) (stack : Stack) (name : List UInt8) : Except Failure Stack := do
  let idx := stack.count
  let stack ← expand env stack ((8 + name.length) / 16 + 1)
  .ok (stack.write idx [.head { kind := .ident } (name.length % 2 ^ 32) (.string name)])

/-! ## Collections -/

def finishObject (stack : Stack) (idx : Nat) : Stack :=
  { stack with jitsons := stack.jitsons.modify idx fun
      | .head type len _ => .head type len (.integer (stack.count - idx))
      | .more => .more }

/-- The flags of an array after its element from `current` on was parsed, with
the value parsed last before at `previous`. -/
def checkParsed (env : Env) (stack : Stack) (optimize : Bool) (idx previous current : Nat) : Stack :=
  if optimize ∧ lenOf (stack.pointer idx) > 0 then
    stack.mapType idx fun type => { type with
      isOrd := type.isOrd && !decide (cmp env.ops (stack.pointer previous) (stack.pointer current) > 0)
      isUnif := type.isUnif && decide (current - previous = stack.count - current)
      isHomo := type.isHomo && decide (typeOf (stack.pointer previous) = typeOf (stack.pointer current)) }
  else stack

def finishArray (stack : Stack) (idx : Nat) : Stack :=
  { stack with jitsons := stack.jitsons.modify idx fun
      | .head type len _ =>
          let type := { type with isOrd := type.isOrd && decide (len > 1) }
          .head type len (closedBody type len (stack.count - (idx + 1)))
      | .more => .more }

mutual

/-- `sxe_jitson_stack_load_json`.  Each value, element and member takes some
bytes, which bounds the recursion. -/
def loadJson (env : Env) : Nat → Source → Stack → Except Failure (Source × Stack)
  | 0, _, stack => .error ⟨.undefined, stack⟩
  | fuel + 1, source, stack =>
      let (c, source) := source.peekNonspace
      if c = 0 then .error ⟨.invalid, stack⟩
      else do
        let idx := stack.count
        let stack ← expand env stack 1
        let stack := stack.setLast idx
        match charClass c with
        | .quote => loadString env source (stack.truncate idx)
        | .brace =>
            let source := source.consume 1
            let stack := stack.setHead idx { kind := .object } .unset
            let (c, source) := source.peekNonspace
            if c = 125 then .ok (source.consume 1, stack.setHead idx { kind := .object } (.integer 1))
            else onFailure (loadMembers env fuel source stack idx c) fun stack => stack.truncate idx
        | .bracket =>
            let source := source.consume 1
            let optimize := source.optimize
            let type : TypeWord := { kind := .array, isOrd := optimize, isUnif := optimize, isHomo := optimize }
            let stack := stack.setHead idx type .unset
            let (c, source) := source.peekNonspace
            if c = 93 then .ok (source.consume 1, stack.setHead idx { type with isOrd := false } (.integer 1))
            else onFailure (loadElements env fuel source stack idx) fun stack => stack.truncate idx
        | .number => onFailure (loadNumber env source stack idx) fun stack => stack.truncate idx
        | .letter =>
            let (name, source) := source.getIdentifier
            match constGet env source.allowConsts name with
            | some .rangeCast =>
                let iou := stack.truncate idx
                let (c, source) := source.getNonspace
                if c ≠ 40 then .error ⟨.invalid, iou⟩
                else onFailure (finishCast env iou (loadJson env fuel source iou.lend)) fun stack => stack.truncate idx
            | some (.value value) => do
                let stack ← dupAtIndex env stack idx value (size value)
                .ok (source, stack)
            | none =>
                if env.identHook ∧ source.allowIdents then do
                  let stack ← onFailure (pushIdent env (stack.truncate idx) name) fun stack => stack.truncate idx
                  .ok (source, stack)
                else .error ⟨.invalid, stack.truncate idx⟩
        | .other => .error ⟨.invalid, stack.truncate idx⟩

/-- The loop of `sxe_jitson_stack_load_json` over the members of an object, of
which the next starts with the character `c`. -/
def loadMembers (env : Env) : Nat → Source → Stack → Nat → UInt8 → Except Failure (Source × Stack)
  | 0, _, stack, _, _ => .error ⟨.undefined, stack⟩
  | fuel + 1, source, stack, idx, c =>
      if c ≠ 34 then .error ⟨.invalid, stack⟩
      else do
        let previous := stack.count
        let (source, stack) ← loadString env source stack
        let (c, source) := source.getNonspace
        if c ≠ 58 then .error ⟨.invalid, stack⟩
        else do
          let (source, stack) ← loadJson env fuel source stack
          let stack := (stack.mapLen idx (· + 1)).mapType previous fun type => { type with isKey := true }
          let (c, source) := source.getNonspace
          if c = 44 then
            let (c, source) := source.peekNonspace
            loadMembers env fuel source stack idx c
          else if c = 125 then .ok (source, stack.finishObject idx)
          else .error ⟨.invalid, stack⟩

/-- The loop of `sxe_jitson_stack_load_json` over the elements of an array. -/
def loadElements (env : Env) : Nat → Source → Stack → Nat → Except Failure (Source × Stack)
  | 0, _, stack, _ => .error ⟨.undefined, stack⟩
  | fuel + 1, source, stack, idx => do
      let previous := stack.last
      let current := stack.count
      let (source, stack) ← loadJson env fuel source stack
      let stack := (stack.checkParsed env source.optimize idx previous current).mapLen idx (· + 1)
      let (c, source) := source.getNonspace
      if c = 44 then loadElements env fuel source stack idx
      else if c = 93 then .ok (source, stack.finishArray idx)
      else .error ⟨.invalid, stack⟩

end

/-- `sxe_jitson_stack_load_json` with enough turns for the source. -/
def load (env : Env) (source : Source) (stack : Stack) : Except Failure (Source × Stack) :=
  loadJson env (2 * source.next.length + 2) source stack

end Stack

end Jitson
end LibKit
