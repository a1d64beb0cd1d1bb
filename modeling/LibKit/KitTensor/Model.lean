import Mathlib

namespace LibKit
namespace KitTensor

/-!
# `kit-tensor.c`

A tensor has three dimensions; its values are in one array, whose size and
offsets are fields of their own.  The values are of any type with the
arithmetic of `float`, and `unsigned` wraps around.  Tensors are named by
numbers, so that an operand of a call may be its output; each has an array of
its own.
-/

/-- How a call ends without returning: an assertion fails, or what it does is
not defined by the language. -/
inductive Stop where
  | assertion
  | undefined
deriving DecidableEq

/-- `KIT_TENSOR_MAX_DIMS` is not zero, so that its numerals are subscripts. -/
instance neZero_maxDims : NeZero 3 := ⟨by decide⟩

/-- `struct kit_tensor` -/
structure Tensor (α : Type) where
  numDims : UInt32
  dimension : Fin 3 → UInt32
  value : List α
  sz : UInt32
  b0 : UInt32
  b1 : UInt32

abbrev Tensors (α : Type) := Nat → Tensor α

section

variable {α : Type}

/-- `kit_tensor_sz` -/
def tensorSz (a : Tensor α) : UInt32 :=
  if a.sz = 0 then a.dimension 0 * a.dimension 1 * a.dimension 2 else a.sz

/-- `kit_tensor_matmul_sz` -/
def matmulSz (a b : Tensor α) : UInt32 := a.dimension 0 * a.dimension 1 * b.dimension 2

def Tensor.load (a : Tensor α) (position : Nat) : Except Stop α :=
  match a.value[position]? with
  | some x => .ok x
  | none => .error .undefined

/-- The position that `kit_tensor_get_k_m_n` reads. -/
def offset (a : Tensor α) (k m n : UInt32) : UInt32 := a.b0 * k + a.b1 * m + n

/-- `kit_tensor_get_k_m_n` -/
def getKMN (a : Tensor α) (k m n : UInt32) : Except Stop α := a.load (offset a k m n).toNat

/-- `kit_tensor_dimset` -/
def dimset (a : Tensor α) (dims : Fin 3 → UInt32) : Tensor α where
  numDims := if 1 < dims 0 then 3 else if 1 < dims 1 then 2 else 1
  dimension := dims
  value := a.value
  sz := dims 0 * dims 1 * dims 2
  b0 := dims 1 * dims 2
  b1 := dims 2

/-! ## Loops over the values -/

/-- Whether the assertions on the size and the offsets of an output hold. -/
def Tensor.isSet (a : Tensor α) : Bool := a.sz ≠ 0 ∧ a.b0 ≠ 0 ∧ a.b1 ≠ 0

/-- `a->value[position] = x` -/
def put (a position : Nat) (x : α) (tensors : Tensors α) : Except Stop (Tensors α) :=
  if position < (tensors a).value.length then
    .ok (Function.update tensors a { tensors a with value := (tensors a).value.set position x })
  else .error .undefined

/-- `a->dimension[0] = ...`, and so on -/
def setDimension (a : Nat) (i : Fin 3) (length : UInt32) (tensors : Tensors α) : Tensors α :=
  Function.update tensors a { tensors a with dimension := Function.update (tensors a).dimension i length }

/-- Do something for each index, with a counter. -/
def forEach {ι : Type} (body : ι → UInt32 → Tensors α → Except Stop (Tensors α)) :
    List ι → UInt32 → Tensors α → Except Stop (Tensors α)
  | [], _, tensors => .ok tensors
  | i :: rest, index, tensors => do
      let tensors ← body i index tensors
      forEach body rest (index + 1) tensors

/-- `for (k = 0; k < d0; k++) for (m = 0; m < d1; m++) for (n = 0; n < d2; n++)` -/
def cells (d0 d1 d2 : Nat) : List (Nat × Nat × Nat) :=
  (List.range d0).flatMap fun k => (List.range d1).flatMap fun m => (List.range d2).map fun n => (k, m, n)

/-- The triples of loop variables within the dimensions of a tensor. -/
def Tensor.cells (a : Tensor α) : List (Nat × Nat × Nat) :=
  KitTensor.cells (a.dimension 0).toNat (a.dimension 1).toNat (a.dimension 2).toNat

/-! ## `kit_tensor_permute` and `kit_tensor_transpose` -/

/-- A subscript of an array of `KIT_TENSOR_MAX_DIMS`. -/
def axis (i : UInt32) : Except Stop (Fin 3) := if h : i.toNat < 3 then .ok ⟨i.toNat, h⟩ else .error .undefined

/-- `base`; the dimensions are not zero. -/
def base (a : Tensor α) : Fin 3 → UInt32 :=
  let base0 := tensorSz a / a.dimension 0
  let base1 := base0 / a.dimension 1
  ![base0, base1, base1 / a.dimension 2]

/-- The position of the value that `kit_tensor_permute` copies. -/
def permuteIdx (base : Fin 3 → UInt32) (x y z : Fin 3) (cell : Nat × Nat × Nat) : UInt32 :=
  base x * UInt32.ofNat cell.1 + base y * UInt32.ofNat cell.2.1 + base z * UInt32.ofNat cell.2.2

/-- Give an output the dimensions of a permuted tensor, one after the other. -/
def permuteDimensions (a : Nat) (x y z : Fin 3) (b : Nat) (tensors : Tensors α) : Tensors α :=
  let tensors := setDimension b 0 ((tensors a).dimension x) tensors
  let tensors := setDimension b 1 ((tensors a).dimension y) tensors
  setDimension b 2 ((tensors a).dimension z) tensors

/-- `b->value[index] = a->value[idx]` -/
def permuteValue (a : Nat) (base : Fin 3 → UInt32) (x y z : Fin 3) (b : Nat) (cell : Nat × Nat × Nat) (index : UInt32)
    (tensors : Tensors α) : Except Stop (Tensors α) := do
  let value ← (tensors a).load (permuteIdx base x y z cell).toNat
  put b index.toNat value tensors

/-- `kit_tensor_permute`; a division by zero and a subscript that is not one of
the array are undefined. -/
def permute (a : Nat) (dims : Fin 3 → UInt32) (b : Nat) (tensors : Tensors α) : Except Stop (Bool × Tensors α) :=
  if tensorSz (tensors a) ≠ tensorSz (tensors b) then .ok (false, tensors)
  else if ∃ i, (tensors a).dimension i = 0 then .error .undefined
  else do
    let x ← axis (dims 0)
    let y ← axis (dims 1)
    let z ← axis (dims 2)
    let permuted := permuteDimensions a x y z b tensors
    if (permuted b).isSet then do
      let tensors ← forEach (permuteValue a (base (tensors a)) x y z b) (permuted b).cells 0 permuted
      .ok (true, tensors)
    else .error .assertion

/-- `kit_tensor_transpose` -/
def transpose (a : Nat) (i j : UInt32) (b : Nat) (tensors : Tensors α) : Except Stop (Bool × Tensors α) := do
  let i ← axis i
  let j ← axis j
  permute a (![0, 1, 2] ∘ Equiv.swap i j) b tensors

/-! ## `kit_tensor_matmul` -/

/-- An element of an array, from a pointer into it, where the subscript is an
`int`. -/
def Tensor.loadFrom (a : Tensor α) (start : Nat) (subscript : Int) : Except Stop α :=
  if -2 ^ 31 ≤ subscript ∧ subscript < 2 ^ 31 ∧ 0 ≤ start + subscript then a.load (start + subscript).toNat
  else .error .undefined

section

variable [Zero α] [Add α] [Mul α]

/-- `*c += a[i * askip] * b[i * bskip]` -/
def innerTerm (a aFrom : Nat) (aSkip : Int) (b bFrom : Nat) (bSkip : Int) (c position : Nat) (i : Nat) (_ : UInt32)
    (tensors : Tensors α) : Except Stop (Tensors α) := do
  let x ← (tensors a).loadFrom aFrom (i * aSkip)
  let y ← (tensors b).loadFrom bFrom (i * bSkip)
  let sum ← (tensors c).load position
  put c position (sum + x * y) tensors

/-- `kit_array_inner_product`, whose `len` is an `int` -/
def innerProduct (a aFrom : Nat) (aSkip : Int) (b bFrom : Nat) (bSkip : Int) (len : Int) (c position : Nat)
    (tensors : Tensors α) : Except Stop (Tensors α) := do
  let tensors ← put c position 0 tensors
  forEach (innerTerm a aFrom aSkip b bFrom bSkip c position) (List.range len.toNat) 0 tensors

/-- The inner product for an element of a product of matrices. -/
def matmulValue (a b c : Nat) (dim : UInt32) (cell : Nat × Nat × Nat) (index : UInt32) (tensors : Tensors α) :
    Except Stop (Tensors α) :=
  let k := UInt32.ofNat cell.1
  let m := UInt32.ofNat cell.2.1
  let n := UInt32.ofNat cell.2.2
  let aDimension := (tensors a).dimension
  let bDimension := (tensors b).dimension
  innerProduct a (k * aDimension 1 * aDimension 2 + m * aDimension 2).toNat 1
    b (k * bDimension 1 * bDimension 2 + n).toNat (bDimension 2).toInt32.toInt dim.toInt32.toInt c index.toNat tensors

/-- `kit_tensor_matmul` -/
def matmul (a b c : Nat) (tensors : Tensors α) : Except Stop (Bool × Tensors α) :=
  if ¬ (tensors c).isSet then .error .assertion
  else
    let dim := (tensors a).dimension 2
    if dim ≠ (tensors b).dimension 1 ∨ (tensors a).dimension 0 ≠ (tensors b).dimension 0 ∨
        matmulSz (tensors a) (tensors b) ≠ tensorSz (tensors c) then .ok (false, tensors)
    else do
      let shaped := Function.update tensors c { tensors c with
        numDims := 2
        dimension := ![(tensors a).dimension 0, (tensors a).dimension 1, (tensors b).dimension 2] }
      let tensors ← forEach (matmulValue a b c dim) (shaped c).cells 0 shaped
      .ok (true, tensors)

end

/-! ## `kit_tensor_conv1d` -/

/-- `kit_dotp2` -/
def dotp2 (b0 b1 k0 k1 : UInt32) : UInt32 := b0 * k0 + b1 * k1

/-- `for (int i = 0; i + kernel <= length; i += stride) unfolds++`, where `i` is
made an `unsigned` for each of the operators.  The loop does not end if all
values of `i` have passed. -/
def countUnfolds (kernel length stride : UInt32) : Nat → Int32 → UInt32 → Option UInt32
  | 0, _, _ => none
  | fuel + 1, i, unfolds =>
      if i.toUInt32 + kernel ≤ length then
        countUnfolds kernel length stride fuel (i.toUInt32 + stride).toInt32 (unfolds + 1)
      else some unfolds

/-- The values of `foldloc` in
`for (foldloc = 0; foldloc + kernel <= length; foldloc += stride)`. -/
def foldLocations (kernel length stride : UInt32) : Nat → UInt32 → Option (List UInt32)
  | 0, _ => none
  | fuel + 1, foldloc =>
      if foldloc + kernel ≤ length then do
        let rest ← foldLocations kernel length stride fuel (foldloc + stride)
        some (foldloc :: rest)
      else some []

/-- `c->value[position] += x` -/
def addTo [Add α] (c position : Nat) (x : α) (tensors : Tensors α) : Except Stop (Tensors α) := do
  let sum ← (tensors c).load position
  put c position (sum + x) tensors

/-- `for (m = 0; m < d1; m++) for (n = 0; n < d2; n++)` -/
def windows (d1 d2 : Nat) : List (Nat × Nat) := (List.range d1).flatMap fun m => (List.range d2).map fun n => (m, n)

section

variable [Zero α] [Add α] [Mul α]

/-- The product that is added for a place in the window. -/
def convTerm (a b c : Nat) (batchItem k foldloc index : UInt32) (window : Nat × Nat) (_ : UInt32)
    (tensors : Tensors α) :
    Except Stop (Tensors α) := do
  let m := UInt32.ofNat window.1
  let n := UInt32.ofNat window.2
  let x ← (tensors a).load (dotp2 (tensors a).b0 (tensors a).b1 k m + n).toNat
  let y ← (tensors b).load (dotp2 (tensors b).b0 (tensors b).b1 batchItem m + foldloc + n).toNat
  addTo c index.toNat (x * y) tensors

def convValue (a b c : Nat) (cell : Nat × Nat × UInt32) (index : UInt32) (tensors : Tensors α) :
    Except Stop (Tensors α) := do
  let tensors ← put c index.toNat 0 tensors
  forEach (convTerm a b c (UInt32.ofNat cell.1) (UInt32.ofNat cell.2.1) cell.2.2 index)
    (windows ((tensors a).dimension 1).toNat ((tensors a).dimension 2).toNat) 0 tensors

/-- The loops over batch items, kernels and locations. -/
def convCells (batchItems kernels : Nat) (locations : List UInt32) : List (Nat × Nat × UInt32) :=
  (List.range batchItems).flatMap fun batchItem => (List.range kernels).flatMap fun k =>
    locations.map fun foldloc => (batchItem, k, foldloc)

/-- `kit_tensor_conv1d` -/
def conv1d (a b : Nat) (stride : UInt32) (c : Nat) (tensors : Tensors α) : Except Stop (Bool × Tensors α) :=
  let aDimension := (tensors a).dimension
  let bDimension := (tensors b).dimension
  let cDimension := (tensors c).dimension
  if aDimension 0 ≠ bDimension 1 ∨ aDimension 0 ≠ aDimension 1 ∨ aDimension 0 ≠ cDimension 1 then .ok (false, tensors)
  else
    match countUnfolds (aDimension 2) (bDimension 2) stride (2 ^ 32) 0 0 with
    | none => .error .undefined
    | some unfolds =>
        if unfolds ≠ cDimension 2 ∨ bDimension 0 ≠ cDimension 0 then .ok (false, tensors)
        else
          match foldLocations (aDimension 2) (bDimension 2) stride (2 ^ 32) 0 with
          | none => .error .undefined
          | some locations => do
              let tensors ← forEach (convValue a b c)
                (convCells (bDimension 0).toNat (aDimension 0).toNat locations) 0 tensors
              .ok (true, tensors)

end

/-! ## `kit_tensor_embedding` -/

/-- `memcpy` between the arrays of tensors; it is undefined if one is too short
or if the source overlaps the destination. -/
def copy (a source out dest length : Nat) (tensors : Tensors α) : Except Stop (Tensors α) :=
  if source + length ≤ (tensors a).value.length ∧ dest + length ≤ (tensors out).value.length ∧
      (a = out → source + length ≤ dest ∨ dest + length ≤ source) then
    .ok (Function.update tensors out { tensors out with
      value := (tensors out).value.take dest ++ (((tensors a).value.drop source).take length ++
        (tensors out).value.drop (dest + length)) })
  else .error .undefined

def embedRow (a : Nat) (indices : List UInt32) (wrap : UInt32) (out : Nat) (i : Nat) (_ : UInt32)
    (tensors : Tensors α) :
    Except Stop (Tensors α) :=
  match indices[i]? with
  | none => .error .undefined
  | some index => copy a (wrap * index).toNat out (UInt32.ofNat i * wrap).toNat wrap.toNat tensors

/-- The length of a row, and the dimensions of the output. -/
def embeddingShape (a : Tensor α) (n : UInt32) : Option (UInt32 × (Fin 3 → UInt32)) :=
  if a.numDims = 2 then some (a.dimension 2, ![1, n, a.dimension 2])
  else if a.numDims = 3 then some (a.dimension 1 * a.dimension 2, ![n, a.dimension 1, a.dimension 2])
  else none

/-- `kit_tensor_embedding` -/
def embedding (a : Nat) (indices : List UInt32) (n : UInt32) (out : Nat) (tensors : Tensors α) :
    Except Stop (Bool × Tensors α) :=
  match embeddingShape (tensors a) n with
  | none => .ok (false, tensors)
  | some (wrap, shape) =>
      let shaped := Function.update tensors out { tensors out with dimension := shape, numDims := (tensors a).numDims }
      if (shaped out).isSet then do
        let tensors ← forEach (embedRow a indices wrap out) (List.range n.toNat) 0 shaped
        .ok (true, tensors)
      else .error .assertion

/-! ## `kit_tensor_sum` and `kit_tensor_flatten` -/

/-- `c->value[i] = a->value[i] + b->value[i]` -/
def sumValue [Add α] (a b c : Nat) (i : Nat) (_ : UInt32) (tensors : Tensors α) : Except Stop (Tensors α) := do
  let x ← (tensors a).load i
  let y ← (tensors b).load i
  put c i (x + y) tensors

/-- `kit_tensor_sum` -/
def sum [Add α] (a b c : Nat) (tensors : Tensors α) : Except Stop (Bool × Tensors α) :=
  if (tensors a).dimension ≠ (tensors b).dimension ∨ (tensors b).dimension ≠ (tensors c).dimension then
    .ok (false, tensors)
  else do
    let tensors ← forEach (sumValue a b c) (List.range (tensorSz (tensors a)).toNat) 0 tensors
    .ok (true, tensors)

/-- `kit_tensor_flatten` -/
def flatten (a : Nat) (tensors : Tensors α) : Except Stop (Bool × Tensors α) :=
  let dimension := (tensors a).dimension
  .ok (true, Function.update tensors a { tensors a with
    dimension := ![1, 1, dimension 2 * dimension 0 * dimension 1] })

/-! ## Calls -/

inductive Call where
  | permute (a : Nat) (dims : Fin 3 → UInt32) (b : Nat)
  | transpose (a : Nat) (i j : UInt32) (b : Nat)
  | matmul (a b c : Nat)
  | embedding (a : Nat) (indices : List UInt32) (n : UInt32) (out : Nat)
  | sum (a b c : Nat)
  | flatten (a : Nat)

/-- What a call returns, and the tensors after it. -/
def Call.run [Zero α] [Add α] [Mul α] : Call → Tensors α → Except Stop (Bool × Tensors α)
  | permute a dims b => KitTensor.permute a dims b
  | transpose a i j b => KitTensor.transpose a i j b
  | matmul a b c => KitTensor.matmul a b c
  | embedding a indices n out => KitTensor.embedding a indices n out
  | sum a b c => KitTensor.sum a b c
  | flatten a => KitTensor.flatten a

/-- A call that returns true, answered by the tensors before and after it. -/
def step [Zero α] [Add α] [Mul α] (tensors : Tensors α) (call : Call) : Option ((Tensors α × Tensors α) × Tensors α) :=
  match call.run tensors with
  | .ok (true, after) => some ((tensors, after), after)
  | _ => none

end

end KitTensor
end LibKit
