import LibKit.KitTensor.Storing

namespace LibKit
namespace KitTensor

open Equiv (Perm)

/-!
# Permuted dimensions

The number that `kit_tensor_permute` computes from the coordinates of an element
in the output is the place of the element in the operand: a sum of coordinates,
each times the stride of its dimension, does not depend on the order of the
dimensions.
-/

/-! ## Mixed radix numbers -/

/-- The place of the element with these coordinates. -/
def placeAt (shape : Fin 3 → UInt32) (index : Fin 3 → Nat) : Nat := place shape (index 0) (index 1) (index 2)

/-- The number of elements with the same coordinate in a dimension and in those
before it. -/
def stride (shape : Fin 3 → UInt32) : Fin 3 → Nat := ![(shape 1).toNat * (shape 2).toNat, (shape 2).toNat, 1]

theorem placeAt_eq_sum (shape : Fin 3 → UInt32) (index : Fin 3 → Nat) :
    placeAt shape index = ∑ i, stride shape i * index i := by
  rw [Fin.sum_univ_three, placeAt, place]
  change _ = (shape 1).toNat * (shape 2).toNat * index 0 + (shape 2).toNat * index 1 + 1 * index 2
  ring

theorem volume_eq_prod (shape : Fin 3 → UInt32) : volume shape = ∏ i, (shape i).toNat := by
  rw [Fin.prod_univ_three, volume]

theorem volume_comp (shape : Fin 3 → UInt32) (σ : Perm (Fin 3)) : volume (shape ∘ σ) = volume shape := by
  rw [volume_eq_prod, volume_eq_prod]
  exact Equiv.prod_comp σ fun i => (shape i).toNat

theorem placeAt_lt {shape : Fin 3 → UInt32} {index : Fin 3 → Nat} (inside : ∀ i, index i < (shape i).toNat) :
    placeAt shape index < volume shape :=
  place_lt ⟨inside 0, inside 1, inside 2⟩

/-- Coordinates in a permuted shape are coordinates in the shape. -/
theorem inside_permuted {shape : Fin 3 → UInt32} {σ : Perm (Fin 3)} {k m n : Nat} (inside : Inside (shape ∘ σ) k m n)
    (i : Fin 3) :
    (![k, m, n] ∘ σ.symm) i < (shape i).toNat := by
  have coordinate : ∀ j, ![k, m, n] j < (shape (σ j)).toNat := by
    intro j
    fin_cases j
    · exact inside.1
    · exact inside.2.1
    · exact inside.2.2
  have here := coordinate (σ.symm i)
  rwa [Equiv.apply_symm_apply] at here

theorem sum_permuted (shape : Fin 3 → UInt32) (σ : Perm (Fin 3)) (index : Fin 3 → Nat) :
    ∑ i, stride shape (σ i) * index i = placeAt shape (index ∘ σ.symm) := by
  have reindexed := Equiv.sum_comp σ fun i => stride shape i * (index ∘ σ.symm) i
  simp only [Function.comp_apply, Equiv.symm_apply_apply] at reindexed
  rw [placeAt_eq_sum, reindexed]
  rfl

section

variable {α : Type}

/-! ## Tensors with elements -/

/-- A tensor with some elements, whose size is that of its dimensions or was
never set. -/
structure Tensor.Whole (a : Tensor α) : Prop where
  positive : ∀ i, 0 < (a.dimension i).toNat
  few : volume a.dimension < 2 ^ 32
  size : a.sz = 0 ∨ a.sz.toNat = volume a.dimension
  allocated : volume a.dimension ≤ a.value.length

/-- An output that was set to some shape of this size. -/
structure Tensor.Receives (b : Tensor α) (size : Nat) : Prop where
  isSet : b.isSet = true
  sized : b.sz.toNat = size
  allocated : size ≤ b.value.length

def dimsOf (σ : Perm (Fin 3)) : Fin 3 → UInt32 := fun i => UInt32.ofNat (σ i)

theorem axis_ofNat (i : Fin 3) : axis (UInt32.ofNat i) = .ok i := by
  fin_cases i <;> rfl

theorem Tensor.Whole.tensorSz {a : Tensor α} (whole : a.Whole) : (tensorSz a).toNat = volume a.dimension := by
  rw [KitTensor.tensorSz]
  split
  · exact toNat_volume whole.few
  · rename_i set
    exact whole.size.resolve_left set

theorem Tensor.Receives.tensorSz {b : Tensor α} {size : Nat} (receives : b.Receives size) :
    (tensorSz b).toNat = size := by
  have set : b.sz ≠ 0 ∧ b.b0 ≠ 0 ∧ b.b1 ≠ 0 := of_decide_eq_true receives.isSet
  rw [KitTensor.tensorSz, if_neg set.1, receives.sized]

/-- The quotients that the function computes are the strides. -/
theorem Tensor.Whole.base {a : Tensor α} (whole : a.Whole) (i : Fin 3) : (base a i).toNat = stride a.dimension i := by
  have first : (KitTensor.tensorSz a / a.dimension 0).toNat = (a.dimension 1).toNat * (a.dimension 2).toNat := by
    rw [UInt32.toNat_div, whole.tensorSz, volume, Nat.mul_assoc, Nat.mul_div_cancel_left _ (whole.positive 0)]
  have second : (KitTensor.tensorSz a / a.dimension 0 / a.dimension 1).toNat = (a.dimension 2).toNat := by
    rw [UInt32.toNat_div, first, Nat.mul_div_cancel_left _ (whole.positive 1)]
  fin_cases i
  · exact first
  · exact second
  · change (KitTensor.tensorSz a / a.dimension 0 / a.dimension 1 / a.dimension 2).toNat = 1
    rw [UInt32.toNat_div, second, Nat.div_self (whole.positive 2)]

theorem Tensor.Whole.permuteIdx {a : Tensor α} (whole : a.Whole) (σ : Perm (Fin 3)) {k m n : Nat}
    (inside : Inside (a.dimension ∘ σ) k m n) :
    (permuteIdx (KitTensor.base a) (σ 0) (σ 1) (σ 2) (k, m, n)).toNat = placeAt a.dimension (![k, m, n] ∘ σ.symm) := by
  have total : stride a.dimension (σ 0) * k + stride a.dimension (σ 1) * m + stride a.dimension (σ 2) * n =
      placeAt a.dimension (![k, m, n] ∘ σ.symm) := by
    rw [← sum_permuted, Fin.sum_univ_three]
    rfl
  have below : placeAt a.dimension (![k, m, n] ∘ σ.symm) < 2 ^ 32 :=
    Nat.lt_trans (placeAt_lt (inside_permuted inside)) whole.few
  have small : ∀ {coordinate : Nat} {i : Fin 3}, coordinate < (a.dimension i).toNat →
    (UInt32.ofNat coordinate).toNat = coordinate :=
    fun bound => ofNat_toNat bound (UInt32.toNat_lt _)
  rw [KitTensor.permuteIdx, UInt32.toNat_add, UInt32.toNat_add, UInt32.toNat_mul, UInt32.toNat_mul,
    UInt32.toNat_mul, whole.base,
    whole.base, whole.base, small inside.1, small inside.2.1, small inside.2.2]
  rw [← total] at below ⊢
  omega

/-! ## Permuting -/

/-- A tensor with the elements of another in permuted dimensions, where nothing
else changed.  They are read at their coordinates if the offsets, which are not
set anew, fit these dimensions. -/
structure Permuted (σ : Perm (Fin 3)) (a old b : Tensor α) : Prop where
  dimension : b.dimension = a.dimension ∘ σ
  element : ∀ k m n, Inside b.dimension k m n → ∃ element, b.value[place b.dimension k m n]? = some element ∧
    a.value[placeAt a.dimension (![k, m, n] ∘ σ.symm)]? = some element
  read : Fits old b.dimension → ∀ k m n : UInt32, Inside b.dimension k.toNat m.toNat n.toNat →
    getKMN b k m n = a.load (placeAt a.dimension (![k.toNat, m.toNat, n.toNat] ∘ σ.symm))
  beyond : ∀ position, volume a.dimension ≤ position → b.value[position]? = old.value[position]?
  length : b.value.length = old.value.length
  numDims : b.numDims = old.numDims
  sz : b.sz = old.sz
  b0 : b.b0 = old.b0
  b1 : b.b1 = old.b1

variable {tensors : Tensors α} {a b : Nat}

theorem permuteDimensions_fields (a : Nat) (x y z : Fin 3) (b : Nat) (tensors : Tensors α) :
    (permuteDimensions a x y z b tensors) b =
      { tensors b with dimension := ((permuteDimensions a x y z b tensors) b).dimension } := by
  simp only [permuteDimensions, setDimension, Function.update_self]

/-- The triple of loop variables at a position is one of coordinates. -/
theorem cellAt_inside {shape : Fin 3 → UInt32} {position : Nat} (below : position < volume shape) :
    Inside shape (cellAt (shape 1).toNat (shape 2).toNat position).1
      (cellAt (shape 1).toNat (shape 2).toNat position).2.1
      (cellAt (shape 1).toNat (shape 2).toNat position).2.2 := by
  have positive := volume_positive (Nat.zero_lt_of_lt below)
  refine ⟨?_, Nat.mod_lt _ (positive 1), Nat.mod_lt _ (positive 2)⟩
  apply Nat.div_lt_of_lt_mul
  apply Nat.div_lt_of_lt_mul
  rw [volume] at below
  calc
    position < (shape 0).toNat * (shape 1).toNat * (shape 2).toNat := below
    _ = (shape 2).toNat * ((shape 1).toNat * (shape 0).toNat) := by ring

theorem Tensor.Whole.source {a : Tensor α} (whole : a.Whole) (σ : Perm (Fin 3)) {shape : Fin 3 → UInt32}
    (same : shape = a.dimension ∘ σ)
    {position : Nat} (below : position < volume shape) :
    ∃ element, a.value[(KitTensor.permuteIdx (KitTensor.base a) (σ 0) (σ 1) (σ 2)
      (cellAt (shape 1).toNat (shape 2).toNat position)).toNat]? = some element := by
  have inside := cellAt_inside below
  rw [same] at inside ⊢
  have there := Nat.lt_of_lt_of_le (placeAt_lt (inside_permuted inside)) whole.allocated
  rw [← whole.permuteIdx σ inside] at there
  exact ⟨_, List.getElem?_eq_getElem there⟩

theorem permute_permutes (σ : Perm (Fin 3)) (differ : a ≠ b) (whole : (tensors a).Whole)
    (receives : (tensors b).Receives (volume (tensors a).dimension)) :
    ∃ after, permute a (dimsOf σ) b tensors = .ok (true, after) ∧ Permuted σ (tensors a) (tensors b) (after b) ∧
      ∀ other, other ≠ b → after other = tensors other := by
  have sameSize : tensorSz (tensors a) = tensorSz (tensors b) :=
    UInt32.toNat_inj.mp (whole.tensorSz.trans receives.tensorSz.symm)
  have nonzero : ¬ ∃ i, (tensors a).dimension i = 0 := by
    rintro ⟨i, zero⟩
    have positive := whole.positive i
    rw [zero] at positive
    exact Nat.lt_irrefl 0 positive
  let shaped := permuteDimensions a (σ 0) (σ 1) (σ 2) b tensors
  have given : Reshaped b (shaped b).dimension tensors shaped :=
    permuteDimensions_reshaped a (σ 0) (σ 1) (σ 2) b tensors
  have shape : (shaped b).dimension = (tensors a).dimension ∘ σ := by
    rw [show (shaped b).dimension = _ from permuteDimensions_dimension differ]
    funext i
    fin_cases i <;> rfl
  have isSet : (shaped b).isSet = true := by
    rw [Tensor.isSet, given.sz, given.b0, given.b1]
    exact receives.isSet
  have isShaped : shaped b = { tensors b with dimension := (shaped b).dimension } :=
    permuteDimensions_fields a (σ 0) (σ 1) (σ 2) b tensors
  have count : volume (shaped b).dimension = volume (tensors a).dimension := by rw [shape, volume_comp]
  have room : volume (shaped b).dimension ≤ (shaped b).value.length := by
    rw [count, given.length]
    exact receives.allocated
  have turns := @forEach_ok α _ (permuteValue a (base (tensors a)) (σ 0) (σ 1) (σ 2) b) (fun turn now =>
    Framed b shaped now ∧
      (∀ position < turn, ∃ element, (now b).value[position]? = some element ∧
        (tensors a).value[(permuteIdx (base (tensors a)) (σ 0) (σ 1) (σ 2)
          (cellAt ((shaped b).dimension 1).toNat ((shaped b).dimension 2).toNat position)).toNat]? = some element) ∧
      ∀ position, turn ≤ position → (now b).value[position]? =
        (shaped b).value[position]?) (shaped b).cells shaped ?_ ?_
  · rcases turns with ⟨after, looped, framed, stored, beyond⟩
    rw [Tensor.cells, cells_length] at stored beyond
    have reshaped := framed.reshaped given
    have element : ∀ k m n, Inside (after b).dimension k m n → ∃ element,
      (after b).value[place (after b).dimension k m n]? = some element ∧
        (tensors a).value[placeAt (tensors a).dimension (![k, m, n] ∘ σ.symm)]? = some element := by
      intro k m n inside
      rw [reshaped.dimension] at inside ⊢
      rcases stored _ (place_lt inside) with ⟨element, here, source⟩
      rw [cellAt_place inside] at source
      rw [shape] at inside
      rw [whole.permuteIdx σ inside] at source
      exact ⟨element, here, source⟩
    refine ⟨after, ?_, ⟨?_, element, ?_, ?_, reshaped.length, ?_, reshaped.sz, reshaped.b0, reshaped.b1⟩,
      reshaped.others⟩
    · rw [permute, if_neg (not_not.mpr sameSize), if_neg nonzero]
      simp only [dimsOf, axis_ofNat, ok_bind]
      rw [if_pos isSet, looped]
      rfl
    · rw [reshaped.dimension, shape]
    · intro fits k m n inside
      have fits' : Fits (after b) (after b).dimension := fits.congr reshaped.sz reshaped.b0 reshaped.b1
      rcases element _ _ _ inside with ⟨value, here, source⟩
      rw [getKMN, fits'.reads inside, load_some here, load_some source]
    · intro position outside
      rw [beyond position (count ▸ outside), isShaped]
    · rw [framed.fields, isShaped]
  · rintro turn cell now isCell ⟨framed, stored, beyond⟩
    rcases cells_getElem _ isCell with ⟨below, rfl⟩
    rcases whole.source σ shape below with ⟨element, found⟩
    have unchanged : now a = tensors a := (framed.others a differ).trans (given.others a differ)
    have index : (UInt32.ofNat turn).toNat = turn := ofNat_toNat below (count ▸ whole.few)
    rcases put_some element (show (UInt32.ofNat turn).toNat < (now b).value.length by
      rw [index, framed.length]
      exact Nat.lt_of_lt_of_le below room) with ⟨next, put⟩
    refine ⟨next, ?_, framed.trans (put_framed put), ?_, ?_⟩
    · rw [permuteValue, unchanged, load_some found]
      exact put
    · intro position early
      rw [put_value put, index]
      rcases Nat.lt_succ_iff_lt_or_eq.mp early with earlier | rfl
      · rw [if_neg (Nat.ne_of_lt earlier)]
        exact stored position earlier
      · rw [if_pos rfl]
        exact ⟨_, rfl, found⟩
    · intro position late
      rw [put_value put, index, if_neg (by omega)]
      exact beyond position (by omega)
  · exact ⟨Framed.refl b shaped, fun position early => absurd early (Nat.not_lt_zero position), fun _ _ => rfl⟩

/-! ## Permuting back -/

/-- A tensor with the dimensions and the elements of another. -/
structure Restored (a c : Tensor α) : Prop where
  dimension : c.dimension = a.dimension
  element : ∀ k m n, Inside a.dimension k m n → ∃ element, a.value[place a.dimension k m n]? = some element ∧
    c.value[place c.dimension k m n]? = some element

theorem Permuted.whole {σ : Perm (Fin 3)} {first old second : Tensor α} (permuted : Permuted σ first old second)
    (whole : first.Whole)
    (receives : old.Receives (volume first.dimension)) : second.Whole := by
  have count : volume second.dimension = volume first.dimension := by rw [permuted.dimension, volume_comp]
  refine ⟨fun i => ?_, ?_, Or.inr ?_, ?_⟩
  · rw [permuted.dimension]
    exact whole.positive (σ i)
  · rw [count]
    exact whole.few
  · rw [count, permuted.sz, receives.sized]
  · rw [count, permuted.length]
    exact receives.allocated

theorem Permuted.receives {σ : Perm (Fin 3)} {first old second : Tensor α} (permuted : Permuted σ first old second) :
    volume second.dimension = volume first.dimension := by
  rw [permuted.dimension, volume_comp]

/-- The inverse permutation moves the elements back. -/
theorem Permuted.restored {σ : Perm (Fin 3)} {first old second old' third : Tensor α}
    (moved : Permuted σ first old second)
    (back : Permuted σ⁻¹ second old' third) : Restored first third := by
  have dimension : third.dimension = first.dimension := by
    rw [back.dimension, moved.dimension]
    funext i
    exact congrArg first.dimension (Equiv.apply_symm_apply σ i)
  refine ⟨dimension, ?_⟩
  intro k m n inside
  rw [← dimension] at inside
  rcases back.element k m n inside with ⟨element, isThird, isSecond⟩
  rw [back.dimension] at inside
  have inside' := inside_permuted inside
  rcases moved.element _ _ _ ⟨inside' 0, inside' 1, inside' 2⟩ with ⟨element', isSecond', isFirst⟩
  have same : ![(![k, m, n] ∘ σ⁻¹.symm) 0, (![k, m, n] ∘ σ⁻¹.symm) 1, (![k, m, n] ∘ σ⁻¹.symm) 2] ∘ σ.symm =
    ![k, m, n] := by
    have triple : ![(![k, m, n] ∘ σ⁻¹.symm) 0, (![k, m, n] ∘ σ⁻¹.symm) 1, (![k, m, n] ∘ σ⁻¹.symm) 2] =
      ![k, m, n] ∘ σ := by
      funext i
      fin_cases i <;> rfl
    rw [triple]
    funext i
    rw [Function.comp_apply, Function.comp_apply, Equiv.apply_symm_apply]
  rw [same] at isFirst
  cases isSecond.symm.trans isSecond'
  exact ⟨element, isFirst, isThird⟩

theorem permute_inverse (σ : Perm (Fin 3)) {c : Nat} (differ : a ≠ b) (other : c ≠ b) (whole : (tensors a).Whole)
    (receives : (tensors b).Receives (volume (tensors a).dimension))
    (receives' : (tensors c).Receives (volume (tensors a).dimension)) :
    ∃ after final, permute a (dimsOf σ) b tensors = .ok (true, after) ∧
      permute b (dimsOf σ⁻¹) c after = .ok (true, final) ∧
      Restored (tensors a) (final c) := by
  rcases permute_permutes σ differ whole receives with ⟨after, done, permuted, others⟩
  have output : (after c).Receives (volume (after b).dimension) := by
    rw [others c other, permuted.receives]
    exact receives'
  rcases permute_permutes σ⁻¹ (Ne.symm other) (permuted.whole whole receives) output with ⟨final, done', back, -⟩
  exact ⟨after, final, done, done', permuted.restored back⟩

theorem transpose_eq (a : Nat) (i j : Fin 3) (b : Nat) (tensors : Tensors α) :
    transpose a (UInt32.ofNat i) (UInt32.ofNat j) b tensors = permute a (dimsOf (Equiv.swap i j)) b tensors := by
  have subscripts : (![0, 1, 2] : Fin 3 → UInt32) ∘ Equiv.swap i j = dimsOf (Equiv.swap i j) := by
    funext k
    rw [Function.comp_apply, dimsOf]
    generalize Equiv.swap i j k = axis
    fin_cases axis <;> rfl
  rw [transpose, axis_ofNat, axis_ofNat, ← subscripts]
  rfl

/-- Permuting the dimensions of a tensor moves every element to its permuted
place and touches nothing but the elements of the output; permuting back, or
transposing again, restores the tensor. -/
theorem permute_moves_elements (differ : a ≠ b) (whole : (tensors a).Whole)
    (receives : (tensors b).Receives (volume (tensors a).dimension)) :
    (∀ σ : Perm (Fin 3), ∃ after, permute a (dimsOf σ) b tensors = .ok (true, after) ∧
      Permuted σ (tensors a) (tensors b) (after b) ∧ ∀ other, other ≠ b → after other = tensors other) ∧
    ∀ c, c ≠ b → (tensors c).Receives (volume (tensors a).dimension) →
      (∀ σ : Perm (Fin 3), ∃ after final, permute a (dimsOf σ) b tensors = .ok (true, after) ∧
        permute b (dimsOf σ⁻¹) c after = .ok (true, final) ∧ Restored (tensors a) (final c)) ∧
      ∀ i j : Fin 3, ∃ after final, transpose a (UInt32.ofNat i) (UInt32.ofNat j) b tensors = .ok (true, after) ∧
        transpose b (UInt32.ofNat i) (UInt32.ofNat j) c after = .ok (true, final) ∧ Restored (tensors a) (final c) := by
  refine ⟨fun σ => permute_permutes σ differ whole receives, fun c other receives' => ⟨fun σ => ?_, fun i j => ?_⟩⟩
  · exact permute_inverse σ differ other whole receives receives'
  · rcases permute_inverse (Equiv.swap i j) differ other whole receives receives' with
      ⟨after, final, done, done', restored⟩
    rw [Equiv.swap_inv] at done'
    refine ⟨after, final, ?_, ?_, restored⟩
    · rw [transpose_eq]
      exact done
    · rw [transpose_eq]
      exact done'

/-- A matrix is transposed and transposed back. -/
theorem permute_moves_matrix : ∃ after final, transpose 0 1 2 1 (matrices 2) = .ok (true, after) ∧
    transpose 1 1 2 2 after = .ok (true, final) ∧ Restored (matrices 2 0) (final 2) := by
  have whole : (matrices 2 0).Whole := by
    refine ⟨fun i => ?_, by decide, Or.inr (by decide), by decide⟩
    fin_cases i <;> decide
  have receives : (matrices 2 1).Receives (volume (matrices 2 0).dimension) := ⟨by decide, by decide, by decide⟩
  have receives' : (matrices 2 2).Receives (volume (matrices 2 0).dimension) := ⟨by decide, by decide, by decide⟩
  exact ((permute_moves_elements Nat.zero_ne_one whole receives).2 2 (by decide) receives').2 1 2

end

end KitTensor
end LibKit
