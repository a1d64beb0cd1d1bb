import LibKit.KitTensor.Shapes

namespace LibKit
namespace KitTensor

/-!
# Runs of tensor operations

The tensors of a run stay consistent as long as each operation finds its output
with the size and the offsets of the shape that it gives to it.  What an
operation has computed for an element is then read at the coordinates of the
element.
-/

variable {α : Type}

/-! ## When an operation is safe -/

/-- The output of a permutation fits the permuted dimensions. -/
def PermuteSafe (tensors : Tensors α) (a : Nat) (dims : Fin 3 → UInt32) (b : Nat) : Prop :=
  ∀ x y z, axis (dims 0) = .ok x → axis (dims 1) = .ok y → axis (dims 2) = .ok z →
    Fits (tensors b) ((permuteDimensions a x y z b tensors) b).dimension

/-- Before the call, the output has the size and the offsets of the shape that
the call gives to it. -/
def Safe (tensors : Tensors α) : Call → Prop
  | .permute a dims b => PermuteSafe tensors a dims b
  | .transpose a i j b => ∀ x y, axis i = .ok x → axis j = .ok y → PermuteSafe tensors a (![0, 1, 2] ∘ Equiv.swap x y) b
  | .matmul a b c => Fits (tensors c) ![(tensors a).dimension 0, (tensors a).dimension 1, (tensors b).dimension 2]
  | .embedding a _ n out => ∀ wrap shape, embeddingShape (tensors a) n = some (wrap, shape) → Fits (tensors out) shape
  | .sum _ _ _ => True
  | .flatten _ => True

/-! ## What an operation stores -/

/-- The inner product, computed from values that do not change. -/
def inner [Zero α] [Add α] [Mul α] (a b : Tensor α) (aFrom : Nat) (aSkip : Int) (bFrom : Nat) (bSkip : Int)
    (len : Nat) :
    Except Stop α :=
  (List.range len).foldlM (fun sum (i : Nat) => do
    let x ← a.loadFrom aFrom (i * aSkip)
    let y ← b.loadFrom bFrom (i * bSkip)
    .ok (sum + x * y)) 0

/-- The element of a product of matrices, from operands that do not change. -/
def matmulElement [Zero α] [Add α] [Mul α] (a b : Tensor α) (k m n : Nat) : Except Stop α :=
  inner a b (UInt32.ofNat k * a.dimension 1 * a.dimension 2 + UInt32.ofNat m * a.dimension 2).toNat 1
    (UInt32.ofNat k * b.dimension 1 * b.dimension 2 + UInt32.ofNat n).toNat (b.dimension 2).toInt32.toInt
    (a.dimension 2).toInt32.toInt.toNat

/-- The elements of a permuted tensor are those of the operand. -/
def PermuteStored (before after : Tensors α) (a : Nat) (dims : Fin 3 → UInt32) (b : Nat) : Prop :=
  a ≠ b → ∀ x y z, axis (dims 0) = .ok x → axis (dims 1) = .ok y → axis (dims 2) = .ok z →
    ∀ k m n, Inside (after b).dimension k m n →
      (after b).value[place (after b).dimension k m n]? =
        (before a).value[(permuteIdx (base (before a)) x y z (k, m, n)).toNat]?

/-- What an operation has stored, in the order of the elements: the results of
its computations on operands that are not its output, of a sum also on its
output, and what was there before if the tensor is flattened. -/
def Stored [Zero α] [Add α] [Mul α] (before after : Tensors α) : Call → Prop
  | .permute a dims b => PermuteStored before after a dims b
  | .transpose a i j b =>
      ∀ x y, axis i = .ok x → axis j = .ok y → PermuteStored before after a (![0, 1, 2] ∘ Equiv.swap x y) b
  | .matmul a b c => a ≠ c → b ≠ c → ∀ k m n, Inside (after c).dimension k m n →
      ∃ element, matmulElement (before a) (before b) k m n = .ok element ∧
        (after c).value[place (after c).dimension k m n]? = some element
  | .embedding a indices n out => a ≠ out → ∀ wrap shape, embeddingShape (before a) n = some (wrap, shape) →
      ∀ row column, row < n.toNat → column < wrap.toNat → ∃ index, indices[row]? = some index ∧
        (after out).value[row * wrap.toNat + column]? = (before a).value[(wrap * index).toNat + column]?
  | .sum a b c => ∀ k m n, Inside (after c).dimension k m n → ∃ x y,
      (before a).value[place (after c).dimension k m n]? = some x ∧
      (before b).value[place (after c).dimension k m n]? = some y ∧
      (after c).value[place (after c).dimension k m n]? = some (x + y)
  | .flatten a => (after a).value = (before a).value

/-! ## Permutations -/

section

variable {a b : Nat} {x y z : Fin 3} {tensors after shaped : Tensors α}

theorem cells_getElem (shape : Fin 3 → UInt32) {index : Nat} {cell : Nat × Nat × Nat}
    (isCell : (KitTensor.cells (shape 0).toNat (shape 1).toNat (shape 2).toNat)[index]? = some cell) :
    index < volume shape ∧ cell = cellAt (shape 1).toNat (shape 2).toNat index := by
  rw [cells_eq, List.getElem?_map, Option.map_eq_some_iff] at isCell
  rcases isCell with ⟨at', isAt, rfl⟩
  rw [List.getElem?_eq_some_iff] at isAt
  rcases isAt with ⟨below, rfl⟩
  rw [List.length_range] at below
  rw [List.getElem_range]
  exact ⟨below, rfl⟩

theorem cells_length (shape : Fin 3 → UInt32) :
    (KitTensor.cells (shape 0).toNat (shape 1).toNat (shape 2).toNat).length = volume shape := by
  rw [cells_eq, List.length_map, List.length_range, volume]

theorem ofNat_toNat {index limit : Nat} (below : index < limit) (few : limit < 2 ^ 32) :
    (UInt32.ofNat index).toNat = index :=
  UInt32.toNat_ofNat_of_lt (Nat.lt_trans below few)

/-- What the turns of a loop store at the positions of a shape, one after the
other, is there in the end. -/
theorem forEach_cells {body : Nat × Nat × Nat → UInt32 → Tensors α → Except Stop (Tensors α)} {out : Nat}
    {shape : Fin 3 → UInt32} (few : volume shape < 2 ^ 32) {kept : Tensors α → Prop}
    {stored : Nat × Nat × Nat → Option α → Prop} (initial : kept shaped)
    (turn : ∀ cell index tensors next, kept tensors → body cell index tensors = .ok next →
      kept next ∧ stored cell (next out).value[index.toNat]? ∧
        ∀ other, other ≠ index.toNat → (next out).value[other]? = (tensors out).value[other]?)
    (done : forEach body (KitTensor.cells (shape 0).toNat (shape 1).toNat (shape 2).toNat) 0 shaped = .ok after)
    {k m n : Nat} (inside : Inside shape k m n) : stored (k, m, n) (after out).value[place shape k m n]? := by
  have all := forEach_invariant (fun turn tensors => kept tensors ∧ ∀ index, index < turn → index < volume shape →
    stored (cellAt (shape 1).toNat (shape 2).toNat index) (tensors out).value[index]?) ?_ ⟨initial, ?_⟩ done
  · rw [← cellAt_place inside]
    apply all.2 _ _ (place_lt inside)
    rw [cells_length]
    exact place_lt inside
  · rintro index cell tensors next isCell ⟨keeps, before⟩ stepped
    rcases cells_getElem shape isCell with ⟨below, rfl⟩
    rcases turn _ _ _ _ keeps stepped with ⟨keepsNext, isStored, unchanged⟩
    rw [ofNat_toNat below few] at isStored unchanged
    refine ⟨keepsNext, fun other early bounded => ?_⟩
    rcases Nat.lt_succ_iff_lt_or_eq.mp early with earlier | rfl
    · rw [unchanged other (Nat.ne_of_lt earlier)]
      exact before other earlier bounded
    · exact isStored
  · intro index early
    exact absurd early (Nat.not_lt_zero index)

theorem permute_stored {dims : Fin 3 → UInt32} (safe : PermuteSafe tensors a dims b)
    (done : permute a dims b tensors = .ok (true, after)) : PermuteStored tensors after a dims b := by
  intro differ x y z isX isY isZ k m n inside
  rcases permute_true done with ⟨x', y', z', isX', isY', isZ', looped⟩
  cases isX.symm.trans isX'
  cases isY.symm.trans isY'
  cases isZ.symm.trans isZ'
  have few : volume ((permuteDimensions a x y z b tensors) b).dimension < 2 ^ 32 := by
    rw [← (safe x y z isX isY isZ).size]
    exact (tensors b).sz.toNat_lt
  have same := (permute_framed looped).dimension b
  rw [same] at inside ⊢
  refine @forEach_cells α after _ _ b _ few (fun now => now a = tensors a)
    (fun cell value => value = (tensors a).value[(permuteIdx (base (tensors a)) x y z cell).toNat]?)
    ?_ ?_ looped k m n inside
  · exact (permuteDimensions_reshaped a x y z b tensors).others a differ
  · intro cell index now next keeps stepped
    rcases permuteValue_ok stepped with ⟨value, isValue, stored⟩
    rw [keeps] at isValue
    refine ⟨((put_framed stored).others a differ).trans keeps, ?_, fun other unlike => ?_⟩
    · rw [put_value stored, if_pos rfl, isValue]
    · rw [put_value stored, if_neg unlike]

theorem permute_reshaped {dims : Fin 3 → UInt32} (done : permute a dims b tensors = .ok (true, after)) :
    ∃ x y z, axis (dims 0) = .ok x ∧ axis (dims 1) = .ok y ∧ axis (dims 2) = .ok z ∧
      Reshaped b ((permuteDimensions a x y z b tensors) b).dimension tensors after := by
  rcases permute_true done with ⟨x, y, z, isX, isY, isZ, looped⟩
  exact ⟨x, y, z, isX, isY, isZ, (permute_framed looped).reshaped (permuteDimensions_reshaped a x y z b tensors)⟩

theorem permute_consistent_iff {dims : Fin 3 → UInt32} (consistent : Consistent tensors)
    (done : permute a dims b tensors = .ok (true, after)) : Consistent after ↔ PermuteSafe tensors a dims b := by
  rcases permute_reshaped done with ⟨x, y, z, isX, isY, isZ, reshaped⟩
  rw [reshaped.consistent_iff consistent]
  refine ⟨fun fits x' y' z' isX' isY' isZ' => ?_, fun safe => safe x y z isX isY isZ⟩
  cases isX.symm.trans isX'
  cases isY.symm.trans isY'
  cases isZ.symm.trans isZ'
  exact fits

theorem transpose_true {i j : UInt32} (done : transpose a i j b tensors = .ok (true, after)) :
    ∃ x y, axis i = .ok x ∧ axis j = .ok y ∧ permute a (![0, 1, 2] ∘ Equiv.swap x y) b tensors = .ok (true, after) := by
  rcases bind_ok done with ⟨x, isX, done⟩
  rcases bind_ok done with ⟨y, isY, done⟩
  exact ⟨x, y, isX, isY, done⟩

end

/-! ## Products of matrices -/

section

variable [Zero α] [Add α] [Mul α] {a b c : Nat} {tensors after : Tensors α}

theorem inner_succ {first second : Tensor α} {aFrom bFrom len : Nat} {aSkip bSkip : Int} {sum x y : α}
    (isSum : inner first second aFrom aSkip bFrom bSkip len = .ok sum)
    (isX : first.loadFrom aFrom (len * aSkip) = .ok x)
    (isY : second.loadFrom bFrom (len * bSkip) = .ok y) :
    inner first second aFrom aSkip bFrom bSkip (len + 1) = .ok (sum + x * y) := by
  rw [inner] at isSum ⊢
  rw [List.range_succ, List.foldlM_append, isSum, ok_bind, List.foldlM_cons, isX, ok_bind, isY]
  rfl

/-- The inner product of values that are not in its output is stored, and the
other values of the output are unchanged. -/
theorem innerProduct_stored {aFrom bFrom position : Nat} {aSkip bSkip len : Int} (first : a ≠ c) (second : b ≠ c)
    (done : innerProduct a aFrom aSkip b bFrom bSkip len c position tensors = .ok after) :
    (∃ element, inner (tensors a) (tensors b) aFrom aSkip bFrom bSkip len.toNat = .ok element ∧
      (after c).value[position]? = some element) ∧
      ∀ other, other ≠ position → (after c).value[other]? = (tensors c).value[other]? := by
  rcases bind_ok done with ⟨cleared, stored, done⟩
  have all := forEach_invariant (fun turn now => now a = tensors a ∧ now b = tensors b ∧
    (∃ element, inner (tensors a) (tensors b) aFrom aSkip bFrom bSkip turn = .ok element ∧
      (now c).value[position]? = some element) ∧
    ∀ other, other ≠ position → (now c).value[other]? = (tensors c).value[other]?) ?_ ?_ done
  · rw [List.length_range] at all
    exact all.2.2
  · rintro turn i now next isTurn ⟨isA, isB, ⟨element, isElement, isStored⟩, unchanged⟩ stepped
    rw [List.getElem?_eq_some_iff] at isTurn
    rcases isTurn with ⟨below, rfl⟩
    rw [List.getElem_range] at stepped
    rcases innerTerm_ok stepped with ⟨x, y, sum, isX, isY, isSum, put⟩
    rw [isStored] at isSum
    cases isSum
    rw [isA] at isX
    rw [isB] at isY
    refine ⟨((put_framed put).others a first).trans isA, ((put_framed put).others b second).trans isB,
      ⟨element + x * y, inner_succ isElement isX isY, ?_⟩, fun other unlike => ?_⟩
    · rw [put_value put, if_pos rfl]
    · rw [put_value put, if_neg unlike]
      exact unchanged other unlike
  · refine ⟨(put_framed stored).others a first, (put_framed stored).others b second, ⟨0, rfl, ?_⟩,
      fun other unlike => ?_⟩
    · rw [put_value stored, if_pos rfl]
    · rw [put_value stored, if_neg unlike]

theorem matmul_reshaped (done : matmul a b c tensors = .ok (true, after)) :
    Reshaped c ![(tensors a).dimension 0, (tensors a).dimension 1, (tensors b).dimension 2] tensors after :=
  (matmul_framed (matmul_true done)).reshaped reshaped_update

theorem matmul_stored (safe : Safe tensors (.matmul a b c)) (done : matmul a b c tensors = .ok (true, after)) :
    Stored tensors after (.matmul a b c) := by
  intro first second k m n inside
  have shape := (matmul_reshaped done).dimension
  have given : Reshaped c _ tensors (matmulShaped a b c tensors) := reshaped_update
  have looped := matmul_true done
  rw [Tensor.cells, given.dimension] at looped
  have few : volume ![(tensors a).dimension 0, (tensors a).dimension 1, (tensors b).dimension 2] < 2 ^ 32 := by
    rw [← safe.size]
    exact (tensors c).sz.toNat_lt
  rw [shape] at inside ⊢
  refine @forEach_cells α after _ _ c _ few (fun now => now a = tensors a ∧ now b = tensors b)
    (fun cell value => ∃ element, matmulElement (tensors a) (tensors b) cell.1 cell.2.1 cell.2.2 = .ok element ∧
      value = some element) ?_ ?_ looped k m n inside
  · exact ⟨given.others a first, given.others b second⟩
  · rintro cell index now next ⟨isA, isB⟩ stepped
    have framed := innerProduct_framed stepped
    have element := innerProduct_stored first second stepped
    rw [isA, isB] at element
    exact ⟨⟨(framed.others a first).trans isA, (framed.others b second).trans isB⟩, element⟩

end

/-! ## Embedded rows -/

section

variable {a out : Nat} {indices : List UInt32} {tensors after : Tensors α}

theorem copy_value {source dest length : Nat} (done : copy a source out dest length tensors = .ok after)
    (position : Nat) :
    (after out).value[position]? = if dest ≤ position ∧ position < dest + length then
      (tensors a).value[source + (position - dest)]? else (tensors out).value[position]? := by
  rcases copy_ok done with ⟨sourceFits, destFits, rfl⟩
  have taken : ((tensors out).value.take dest).length = dest := by
    rw [List.length_take]
    omega
  have copied : (((tensors a).value.drop source).take length).length = length := by
    rw [List.length_take, List.length_drop]
    omega
  rw [Function.update_self]
  by_cases early : position < dest
  · rw [if_neg (by omega), List.getElem?_append_left (by omega), List.getElem?_take_of_lt early]
  · rw [List.getElem?_append_right (by omega), taken]
    by_cases late : position < dest + length
    · rw [if_pos ⟨Nat.le_of_not_lt early, late⟩, List.getElem?_append_left (by omega),
        List.getElem?_take_of_lt (by omega),
        List.getElem?_drop]
    · rw [if_neg (by omega), List.getElem?_append_right (by omega), copied, List.getElem?_drop]
      congr 1
      omega

theorem embedding_reshaped {n : UInt32} (done : embedding a indices n out tensors = .ok (true, after)) :
    ∃ wrap shape, embeddingShape (tensors a) n = some (wrap, shape) ∧ Reshaped out shape tensors after := by
  rcases embedding_true done with ⟨wrap, shape, isShape, looped⟩
  exact ⟨wrap, shape, isShape, (embedding_framed looped).reshaped reshaped_update⟩

theorem embeddingShape_volume {first : Tensor α} {n wrap : UInt32} {shape : Fin 3 → UInt32}
    (isShape : embeddingShape first n = some (wrap, shape)) (few : volume shape < 2 ^ 32) :
    n.toNat * wrap.toNat ≤ volume shape := by
  rw [embeddingShape] at isShape
  split at isShape
  · cases isShape
    rw [volume]
    show n.toNat * _ ≤ 1 * n.toNat * _
    rw [Nat.one_mul]
    exact Nat.le_refl _
  · split at isShape
    · cases isShape
      rw [volume]
      show n.toNat * _ ≤ n.toNat * _ * _
      rw [UInt32.toNat_mul, Nat.mul_assoc]
      exact Nat.mul_le_mul_left _ (Nat.mod_le _ _)
    · cases isShape

theorem embedding_stored {n : UInt32} (safe : Safe tensors (.embedding a indices n out))
    (done : embedding a indices n out tensors = .ok (true, after)) [Zero α] [Add α] [Mul α] :
    Stored tensors after (.embedding a indices n out) := by
  intro differ wrap shape isShape row column rowBelow columnBelow
  rcases embedding_true done with ⟨wrap', shape', isShape', looped⟩
  cases isShape.symm.trans isShape'
  have few : volume shape < 2 ^ 32 := by
    rw [← (safe wrap shape isShape).size]
    exact (tensors out).sz.toNat_lt
  have rows := embeddingShape_volume isShape few
  have given : Reshaped out shape tensors (embeddingShaped a shape out tensors) := reshaped_update
  have all := forEach_invariant (fun turn now => now a = tensors a ∧ ∀ row < turn, row < n.toNat →
    ∀ column < wrap.toNat,
    ∃ index, indices[row]? = some index ∧
      (now out).value[row * wrap.toNat + column]? = (tensors a).value[(wrap * index).toNat + column]?) ?_ ?_ looped
  · rw [List.length_range] at all
    exact all.2 row rowBelow rowBelow column columnBelow
  · rintro turn i now next isTurn ⟨isA, before⟩ stepped
    rw [List.getElem?_eq_some_iff] at isTurn
    rcases isTurn with ⟨below, rfl⟩
    rw [List.getElem_range] at stepped
    rw [List.length_range] at below
    rcases embedRow_ok stepped with ⟨index, isIndex, copied⟩
    have dest : (UInt32.ofNat turn * wrap).toNat = turn * wrap.toNat := by
      have turnBelow : turn * wrap.toNat < 2 ^ 32 :=
        Nat.lt_of_le_of_lt ((Nat.mul_le_mul_right _ below.le).trans rows) few
      rw [UInt32.toNat_mul, ofNat_toNat below n.toNat_lt, Nat.mod_eq_of_lt turnBelow]
    refine ⟨((copy_framed copied).others a differ).trans isA, fun row early bounded column inRow => ?_⟩
    rw [copy_value copied, dest]
    rcases Nat.lt_succ_iff_lt_or_eq.mp early with earlier | rfl
    · have notYet : row * wrap.toNat + column < turn * wrap.toNat := row_lt earlier inRow
      rw [if_neg (fun inside => absurd inside.1 (Nat.not_le_of_lt notYet))]
      exact before row earlier bounded column inRow
    · refine ⟨index, isIndex, ?_⟩
      rw [if_pos ⟨Nat.le_add_right _ _, Nat.add_lt_add_left inRow _⟩, Nat.add_sub_cancel_left, isA]
  · exact ⟨given.others a differ, fun row early => absurd early (Nat.not_lt_zero row)⟩

end

/-! ## Sums -/

section

variable [Add α] {a b c : Nat} {tensors after : Tensors α}

theorem sum_stored [Zero α] [Mul α] (consistent : Consistent tensors) (done : sum a b c tensors = .ok (true, after)) :
    Stored tensors after (.sum a b c) := by
  rcases sum_true done with ⟨isB, isC, looped⟩
  intro k m n inside
  rw [(sum_framed looped).dimension c] at inside ⊢
  have isSize : (tensorSz (tensors a)).toNat = volume (tensors c).dimension := by
    rw [tensorSz]
    split
    · rename_i empty
      have none := (consistent a).size
      rw [empty] at none
      rw [← isC, ← isB, ← none, UInt32.toNat_mul, UInt32.toNat_mul, Nat.mod_mul_mod]
      exact congrArg (· % 2 ^ 32) none.symm
    · rw [(consistent a).size, isB, isC]
  have all := forEach_invariant (fun turn now =>
    (∀ position < turn, ∃ x y, (tensors a).value[position]? = some x ∧ (tensors b).value[position]? = some y ∧
      (now c).value[position]? = some (x + y)) ∧
    ∀ t position, turn ≤ position → (now t).value[position]? = (tensors t).value[position]?) ?_ ?_ looped
  · rw [List.length_range, isSize] at all
    exact all.1 _ (place_lt inside)
  · rintro turn i now next isTurn ⟨before, later⟩ stepped
    rw [List.getElem?_eq_some_iff] at isTurn
    rcases isTurn with ⟨below, rfl⟩
    rw [List.getElem_range] at stepped
    rcases sumValue_ok stepped with ⟨x, y, isX, isY, stored⟩
    rw [later _ _ (Nat.le_refl _)] at isX isY
    refine ⟨fun position early => ?_, fun t position late => ?_⟩
    · rw [put_value stored]
      rcases Nat.lt_succ_iff_lt_or_eq.mp early with earlier | rfl
      · rw [if_neg (Nat.ne_of_lt earlier)]
        exact before position earlier
      · rw [if_pos rfl]
        exact ⟨x, y, isX, isY, rfl⟩
    · by_cases isOut : t = c
      · rw [isOut, put_value stored, if_neg (by omega)]
        exact later c position (by omega)
      · rw [(put_framed stored).others t isOut]
        exact later t position (by omega)
  · exact ⟨fun position early => absurd early (Nat.not_lt_zero position), fun _ _ _ => rfl⟩

end

/-! ## Runs -/

section

variable [Zero α] [Add α] [Mul α] {before after : Tensors α}

omit [Zero α] [Add α] [Mul α] in
theorem flatten_reshaped {a : Nat} (done : flatten a before = .ok (true, after)) :
    Reshaped a ![1, 1, (before a).dimension 2 * (before a).dimension 0 * (before a).dimension 1] before after := by
  cases done
  exact @reshaped_update α a (before a).numDims _ before

omit [Zero α] [Add α] [Mul α] in
theorem flatten_consistent {a : Nat} (consistent : Consistent before) (done : flatten a before = .ok (true, after)) :
    Consistent after := by
  rw [(flatten_reshaped done).consistent_iff consistent]
  have size := (consistent a).size
  have below : (before a).sz.toNat < 2 ^ 32 := (before a).sz.toNat_lt
  have order : ((before a).dimension 2).toNat * ((before a).dimension 0).toNat * ((before a).dimension 1).toNat =
      volume (before a).dimension := by
    rw [volume]
    ring
  refine ⟨?_, fun _ several => absurd several (Nat.lt_irrefl 1), fun _ several => absurd several (Nat.lt_irrefl 1)⟩
  rw [volume]
  show _ = 1 * 1 * _
  rw [Nat.one_mul]
  show _ = ((before a).dimension 2 * (before a).dimension 0 * (before a).dimension 1).toNat
  rw [toNat_volume (order.symm ▸ size ▸ below), order, size]

theorem call_consistent_iff {call : Call} (consistent : Consistent before)
    (done : call.run before = .ok (true, after)) :
    Consistent after ↔ Safe before call := by
  cases call with
  | permute a dims b => exact permute_consistent_iff consistent done
  | transpose a i j b =>
      rcases transpose_true done with ⟨x, y, isX, isY, done⟩
      rw [permute_consistent_iff consistent done]
      refine ⟨fun safe x' y' isX' isY' => ?_, fun safe => safe x y isX isY⟩
      cases isX.symm.trans isX'
      cases isY.symm.trans isY'
      exact safe
  | matmul a b c => exact (matmul_reshaped done).consistent_iff consistent
  | embedding a indices n out =>
      rcases embedding_reshaped done with ⟨wrap, shape, isShape, reshaped⟩
      rw [reshaped.consistent_iff consistent]
      refine ⟨fun fits wrap' shape' isShape' => ?_, fun safe => safe wrap shape isShape⟩
      cases isShape.symm.trans isShape'
      exact fits
  | sum a b c =>
      refine iff_of_true ?_ trivial
      rcases sum_true done with ⟨-, -, looped⟩
      have unchanged : Reshaped c (before c).dimension before before := ⟨fun _ _ => rfl, rfl, rfl, rfl, rfl, rfl⟩
      exact (((sum_framed looped).reshaped unchanged).consistent_iff consistent).mpr (consistent c).fits
  | flatten a => exact iff_of_true (flatten_consistent consistent done) trivial

theorem call_stored {call : Call} (consistent : Consistent before) (safe : Safe before call)
    (done : call.run before = .ok (true, after)) : Stored before after call := by
  cases call with
  | permute a dims b => exact permute_stored safe done
  | transpose a i j b =>
      rcases transpose_true done with ⟨x, y, isX, isY, done⟩
      intro x' y' isX' isY'
      cases isX.symm.trans isX'
      cases isY.symm.trans isY'
      exact permute_stored (safe x y isX isY) done
  | matmul a b c => exact matmul_stored safe done
  | embedding a indices n out => exact embedding_stored safe done
  | sum a b c => exact sum_stored consistent done
  | flatten a =>
      cases done
      show (Function.update before a _ a).value = _
      rw [Function.update_self]

theorem step_ok {call : Call} {answer : Tensors α × Tensors α} {next : Tensors α}
    (stepped : step before call = some (answer, next)) :
    answer = (before, next) ∧ call.run before = .ok (true, next) := by
  rw [step] at stepped
  split at stepped
  · rename_i after done
    cases stepped
    exact ⟨rfl, done⟩
  · cases stepped

/-- In a run of calls that return true, from tensors made by `kit_tensor_dimset`,
all tensors stay consistent, and what was stored is read, if and only if every
call finds its output with the size and the offsets of its new shape. -/
theorem tensor_run_iff {start final : Tensors α} {history : History Call (Tensors α × Tensors α)}
    (built : ∀ a, (start a).Built) (run : Run step (fun _ _ _ => True) start history final) :
    (Consistent final ∧ ∀ entry ∈ history, Consistent entry.2.1 ∧ Stored entry.2.1 entry.2.2 entry.1) ↔
      ∀ entry ∈ history, Safe entry.2.1 entry.1 := by
  induction run with
  | start =>
      refine ⟨fun _ entry member => absurd member List.not_mem_nil, fun _ => ⟨fun a => (built a).consistent, ?_⟩⟩
      exact fun entry member => absurd member List.not_mem_nil
  | @step history state next call answer before _ stepped ih =>
      rcases step_ok stepped with ⟨rfl, done⟩
      constructor
      · rintro ⟨isFinal, all⟩
        have now := all _ List.mem_cons_self
        have earlier := ih.mp ⟨now.1, fun entry member => all entry (List.mem_cons_of_mem _ member)⟩
        intro entry member
        rcases List.mem_cons.mp member with rfl | member
        · exact (call_consistent_iff now.1 done).mp isFinal
        · exact earlier entry member
      · intro safe
        have now : Safe state call := safe _ List.mem_cons_self
        rcases ih.mpr (fun entry member => safe entry (List.mem_cons_of_mem _ member)) with ⟨consistent, earlier⟩
        refine ⟨(call_consistent_iff consistent done).mpr now, fun entry member => ?_⟩
        rcases List.mem_cons.mp member with rfl | member
        · exact ⟨consistent, call_stored consistent now done⟩
        · exact earlier entry member

end

/-- A matrix of two rows and three columns, and any number of others. -/
def matrices (columns : UInt32) : Tensors Int := fun a =>
  if a = 0 then dimset ⟨0, ![0, 0, 0], [1, 2, 3, 4, 5, 6], 0, 0, 0⟩ ![1, 2, 3]
  else dimset ⟨0, ![0, 0, 0], [0, 0, 0, 0, 0, 0], 0, 0, 0⟩ ![1, 6 / columns, columns]

theorem matrices_built {columns : UInt32} (whole : volume ![1, 6 / columns, columns] = 6) (a : Nat) :
    (matrices columns a).Built := by
  rw [matrices]
  split
  · exact ⟨_, _, rfl, by decide, by decide⟩
  · refine ⟨_, _, rfl, ?_, ?_⟩
    · rw [whole]
      decide
    · rw [whole]
      exact Nat.le_refl 6

theorem matrices_safe : Safe (matrices 2) (.transpose 0 1 2 1) := by
  intro x y isX isY x' y' z' isX' isY' isZ'
  cases isX
  cases isY
  cases isX'
  cases isY'
  cases isZ'
  exact ⟨by decide, by decide, by decide⟩

/-- A matrix is transposed to one that has the transposed shape. -/
theorem tensor_run_transposed :
    ∃ history final, (∀ a, (matrices 2 a).Built) ∧ Run step (fun _ _ _ => True) (matrices 2) history final ∧
      history.map Prod.fst = [.transpose 0 1 2 1] ∧ Consistent final := by
  have returns : (step (matrices 2) (.transpose 0 1 2 1)).isSome = true := by decide
  rcases Option.isSome_iff_exists.mp returns with ⟨⟨answer, final⟩, stepped⟩
  have built : ∀ a, (matrices 2 a).Built := matrices_built (by decide)
  have run : Run step (fun _ _ _ => True) (matrices 2) [(.transpose 0 1 2 1, answer)] final :=
    Run.step Run.start trivial stepped
  refine ⟨_, final, built, run, rfl, ((tensor_run_iff built run).mpr ?_).1⟩
  intro entry member
  rw [List.mem_singleton] at member
  rcases member with rfl
  rcases step_ok stepped with ⟨rfl, -⟩
  exact matrices_safe

/-- A matrix that is transposed to one of its own shape is read with the offset
of that shape. -/
theorem tensor_run_stale :
    ∃ history final, (∀ a, (matrices 3 a).Built) ∧ Run step (fun _ _ _ => True) (matrices 3) history final ∧
      ¬ Consistent final := by
  have returns : (step (matrices 3) (.transpose 0 1 2 1)).isSome = true := by decide
  rcases Option.isSome_iff_exists.mp returns with ⟨⟨answer, final⟩, stepped⟩
  have built : ∀ a, (matrices 3 a).Built := matrices_built (by decide)
  refine ⟨_, final, built, Run.step Run.start trivial stepped, ?_⟩
  rw [call_consistent_iff (fun a => (built a).consistent) (step_ok stepped).2]
  intro safe
  have fits := safe 1 2 rfl rfl 0 2 1 rfl rfl rfl
  exact absurd (fits.b1 (by decide) (by decide)) (by decide)

end KitTensor
end LibKit
