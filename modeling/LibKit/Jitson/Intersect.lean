import LibKit.Jitson.Stack

namespace LibKit
namespace Jitson

open KitSortedArray (Address ArrayClass)
open Stack (boolValue elementClass)

/-!
# The operators `IN` and `INTERSECT`

`sxe-jitson-in.c` and `sxe-jitson-intersect.c`.  The operators dereference
their operands and are implemented by the type on the right.  An intersection
is constructed on the stack of the thread, which is borrowed for it.
-/

/-! ## Inclusion -/

/-- The result of `IN`: a null pointer, the constant `sxe_jitson_null`, or
another value. -/
inductive Found where
  | error
  | null
  | value (pointer : Pointer)

/-- `strstr` as a test, on the bytes before the NUL. -/
def strstr (needle : List UInt8) : List UInt8 → Bool
  | [] => needle.isEmpty
  | byte :: bytes => needle.isPrefixOf (byte :: bytes) || strstr needle bytes

/-- `sxe_jitson_in_default` -/
def inDefault (sum : List UInt8 → Nat) (left right : Pointer) : Found :=
  match getType right with
  | .object =>
      if getType left ≠ .string then .error
      else
        let string := dereference left
        match objectGetMember sum right ((bytesOf string).take (stringLen string)) with
        | some member => .value member
        | none => .null
  | .string =>
      if getType left ≠ .string then .error
      else if strstr (CString.text (bytesOf (dereference left))) (CString.text (bytesOf (dereference right))) then
        .value [boolValue true]
      else .null
  | .null => .null
  | _ => .error

/-- The class with which a value is looked up in the index of an array,
`compare_value_to_element`. -/
def indexClass (env : Env) (array : Pointer) : ArrayClass (Address Token) (Address Nat) Unit where
  size := 4
  keyoffset := 0
  cmp key offset := cmp env.ops (key.tokens 16) (array.drop ((offset.tokens 4).headD 0))
  visit := fun _ _ => none
  cmpCanFail := true

/-- The loop of `sxe_jitson_in_array` over the `count` elements left. -/
def inArrayLoop (env : Env) (nested : Pointer → Pointer → Found) (left right : Pointer) : Nat → Nat → Found
  | 0, _ => .null
  | count + 1, i =>
      match arrayGetElement right i with
      | none => .error
      | some element =>
          if getType left = getType element then
            if eq env.ops left element = some true then .value [boolValue true]
            else inArrayLoop env nested left right count (i + 1)
          else
            match nested left element with
            | .value result =>
                if getType result ≠ .null then .value element else inArrayLoop env nested left right count (i + 1)
            | _ => inArrayLoop env nested left right count (i + 1)

/-- `sxe_jitson_in_array` -/
def inArray (env : Env) (nested : Pointer → Pointer → Found) (left right : Pointer) : Found :=
  let type := typeOf right
  if lenOf right = 0 then .null
  else if type.isOrd ∧ type.isHomo ∧ getType left = getType (right.drop 1) then
    let found :=
      if type.isUnif then
        KitSortedArray.findKey (elementClass env (uniformSize right)) ⟨right.drop 1, 0⟩ (lenOf right) ⟨left, 0⟩
      else
        let array := indexedArray right
        KitSortedArray.findKey (indexClass env array) ⟨indexOf array, 0⟩ (lenOf array) ⟨left, 0⟩
    match found with
    | none => .error
    | some (_, matched) => if matched then .value [boolValue true] else .null
  else inArrayLoop env nested left right (lenOf right) 0

/-- `sxe_jitson_range_in`.  The comparison with an element that is missing
fails. -/
def rangeIn (env : Env) (value range : Pointer) : Found :=
  match arrayGetElement range 0, arrayGetElement range 1 with
  | some lower, some upper =>
      if cmp env.ops lower value ≤ 0 ∧ cmp env.ops value upper ≤ 0 then .value [boolValue true] else .null
  | _, _ => .null

/-- `sxe_jitson_in` up to a depth of nested arrays. -/
def inDepth (env : Env) (sum : List UInt8 → Nat) : Nat → Pointer → Pointer → Found
  | 0, _, _ => .error
  | depth + 1, left, right =>
      let left := dereference left
      let right := dereference right
      if (typeOf right).kind = .array then inArray env (inDepth env sum depth) left right
      else if (typeOf right).kind = .range then rangeIn env left right
      else inDefault sum left right

/-- `sxe_jitson_in` -/
def jitsonIn (env : Env) (sum : List UInt8 → Nat) (left right : Pointer) : Found :=
  inDepth env sum (weight right + 1) left right

/-! ## Intersection -/

/-- A call of which it does not matter what it leaves on the stack when it
fails. -/
def faultOf {α : Type} (call : Except Failure α) : Except Fault α := call.mapError Failure.fault

/-- `jitson_stack_add` -/
def jitsonStackAdd (env : Env) (stack : Stack) (element : Pointer) : Except Fault Stack :=
  faultOf (if size element = 1 then stack.addDup env element else stack.addReference env element)

/-- `get_stack_open_array` -/
def getStackOpenArray (env : Env) (stack : Stack) : Except Fault Stack :=
  faultOf (stack.lend.openCollection env { kind := .array })

/-- `close_array_and_get`, with the stack as it was before it was borrowed. -/
def closeArrayAndGet (env : Env) (stack iou : Stack) : Except Fault (Pointer × Stack) := do
  let stack ← faultOf (stack.closeCollection env)
  let (jitson, stack) ← faultOf (stack.getJitson env)
  let stack ← faultOf (stack.giveBack iou)
  .ok (jitson, stack)

/-- The class of arrays of uniform elements, with `intersect_add_element`. -/
def uniformIntersectClass (env : Env) (bytes : Nat) : ArrayClass (Address Token) (Address Token) Stack where
  size := bytes
  keyoffset := 0
  cmp left right := cmp env.ops (left.tokens 16) (right.tokens 16)
  visit stack element := (jitsonStackAdd env stack (element.tokens 16)).toOption
  cmpCanFail := true

/-- The class of indexes, with `indexed_element_cmp` and
`intersect_add_indexed_element`. -/
def indexedIntersectClass (env : Env) (left right : Pointer) : ArrayClass (Address Nat) (Address Nat) Stack where
  size := 4
  keyoffset := 0
  cmp first second :=
    cmp env.ops (left.drop ((first.tokens 4).headD 0)) (right.drop ((second.tokens 4).headD 0))
  visit stack element := (jitsonStackAdd env stack (left.drop ((element.tokens 4).headD 0))).toOption
  cmpCanFail := true

/-- A stack from a call that returns false on failure. -/
def orInvalid : Option Stack → Except Fault Stack
  | some stack => .ok stack
  | none => .error .invalid

def intersectUniform (env : Env) (left right : Pointer) (stack : Stack) : Except Fault Stack :=
  orInvalid (KitSortedArray.intersect (uniformIntersectClass env (uniformSize left)) (lenOf left) stack
    ⟨left.drop 1, 0⟩ (lenOf left) ⟨right.drop 1, 0⟩ (lenOf right))

def intersectIndexed (env : Env) (left right : Pointer) (stack : Stack) : Except Fault Stack :=
  let left := indexedArray left
  let right := indexedArray right
  orInvalid (KitSortedArray.intersect (indexedIntersectClass env left right) (lenOf left) stack
    ⟨indexOf left, 0⟩ (lenOf left) ⟨indexOf right, 0⟩ (lenOf right))

/-- The loop of `sxe_jitson_intersect_ordered_array` over the `count` left
elements left. -/
def intersectIn (env : Env) (sum : List UInt8 → Nat) (left right : Pointer) :
    Nat → Nat → Stack → Except Fault Stack
  | 0, _, stack => .ok stack
  | count + 1, i, stack =>
      match arrayGetElement left i with
      | none => .error .undefined
      | some element =>
          match jitsonIn env sum element right with
          | .error => .error .invalid
          | .null => intersectIn env sum left right count (i + 1) stack
          | .value _ => do
              let stack ← jitsonStackAdd env stack element
              intersectIn env sum left right count (i + 1) stack

/-- `sxe_jitson_intersect_ordered_array` -/
def intersectOrderedArray (env : Env) (sum : List UInt8 → Nat) (stack : Stack) (left right : Pointer) :
    Except Fault (Pointer × Stack) :=
  let leftType := typeOf left
  let rightType := typeOf right
  if getType left ≠ .array then .error .invalid
  else do
    let opened ← getStackOpenArray env stack
    let filled ←
      if leftType.isOrd ∧ leftType.isUnif ∧ rightType.isUnif then
        if uniformSize left ≠ uniformSize right then .ok opened else intersectUniform env left right opened
      else if leftType.isOrd ∧ ¬ leftType.isUnif ∧ ¬ rightType.isUnif then intersectIndexed env left right opened
      else intersectIn env sum left right (lenOf left) 0 opened
    closeArrayAndGet env filled stack

/-- The inner loop of `sxe_jitson_intersect_array` over the `count` right
elements left. -/
def addMatches (env : Env) (element right : Pointer) : Nat → Nat → Stack → Except Fault Stack
  | 0, _, stack => .ok stack
  | count + 1, j, stack =>
      match arrayGetElement right j with
      | none => .error .undefined
      | some other =>
          match eq env.ops element other with
          | none => .error .invalid
          | some false => addMatches env element right count (j + 1) stack
          | some true => do
              let stack ← jitsonStackAdd env stack element
              addMatches env element right count (j + 1) stack

/-- The outer loop of `sxe_jitson_intersect_array` over the `count` left
elements left. -/
def intersectPlain (env : Env) (left right : Pointer) : Nat → Nat → Stack → Except Fault Stack
  | 0, _, stack => .ok stack
  | count + 1, i, stack =>
      match arrayGetElement left i with
      | none => .error .undefined
      | some element => do
          let stack ← addMatches env element right (lenOf right) 0 stack
          intersectPlain env left right count (i + 1) stack

/-- `sxe_jitson_intersect_array` -/
def intersectArray (env : Env) (sum : List UInt8 → Nat) (stack : Stack) (left right : Pointer) :
    Except Fault (Pointer × Stack) :=
  if (typeOf right).isOrd then intersectOrderedArray env sum stack left right
  else if (typeOf left).isOrd then intersectOrderedArray env sum stack right left
  else if getType left ≠ .array then .error .invalid
  else do
    let opened ← getStackOpenArray env stack
    let filled ← intersectPlain env left right (lenOf left) 0 opened
    closeArrayAndGet env filled stack

/-- `sxe_jitson_intersect` with the stack of the thread; only arrays on the
right implement it. -/
def intersect (env : Env) (sum : List UInt8 → Nat) (stack : Stack) (left right : Pointer) :
    Except Fault (Pointer × Stack) :=
  let left := dereference left
  let right := dereference right
  if (typeOf right).kind = .array then intersectArray env sum stack left right else .error .invalid

end Jitson
end LibKit
