import LibKit.KitTensor.Loops
import LibKit.Support.Runs

namespace LibKit
namespace KitTensor

/-!
# The shape of a tensor and its offsets

An operation gives its output new dimensions, but neither a new size nor new
offsets.  Elements are then read where they were stored as long as those that
the output had before fit its new dimensions.
-/

variable {α : Type}

/-! ## Tensors -/

/-- The size is that of the dimensions, there is memory for the values, and the
elements are read in the order in which operations store them. -/
structure Tensor.Consistent (a : Tensor α) : Prop where
  size : a.sz.toNat = volume a.dimension
  allocated : a.sz.toNat ≤ a.value.length
  reads : ∀ k m n : UInt32, Inside a.dimension k.toNat m.toNat n.toNat →
    (offset a k m n).toNat = place a.dimension k.toNat m.toNat n.toNat

/-- A tensor made by `kit_tensor_dimset`, with memory for its values. -/
def Tensor.Built (a : Tensor α) : Prop :=
  ∃ (old : Tensor α) (dims : Fin 3 → UInt32), a = dimset old dims ∧ volume dims < 2 ^ 32 ∧ volume dims ≤ a.value.length

/-- A tensor has the size of a shape and, along each dimension with more than
one entry, its offset. -/
structure Fits (a : Tensor α) (shape : Fin 3 → UInt32) : Prop where
  size : a.sz.toNat = volume shape
  b0 : 0 < volume shape → 1 < (shape 0).toNat → a.b0.toNat = (shape 1).toNat * (shape 2).toNat
  b1 : 0 < volume shape → 1 < (shape 1).toNat → a.b1 = shape 2

theorem inside_positive {shape : Fin 3 → UInt32} {k m n : Nat} (inside : Inside shape k m n) : 0 < volume shape :=
  Nat.zero_lt_of_lt (place_lt inside)

theorem volume_positive {shape : Fin 3 → UInt32} (positive : 0 < volume shape) (i : Fin 3) : 0 < (shape i).toNat := by
  rw [volume] at positive
  have most := Nat.pos_of_mul_pos_right positive
  fin_cases i
  · exact Nat.pos_of_mul_pos_right most
  · exact Nat.pos_of_mul_pos_left most
  · exact Nat.pos_of_mul_pos_left positive

theorem plane_le_volume {shape : Fin 3 → UInt32} (positive : 0 < volume shape) :
    (shape 1).toNat * (shape 2).toNat ≤ volume shape := by
  rw [volume, Nat.mul_assoc]
  exact Nat.le_mul_of_pos_left _ (volume_positive positive 0)

/-- An element of a tensor whose size and offsets fit is read where it is
stored. -/
theorem Fits.reads {a : Tensor α} {shape : Fin 3 → UInt32} (fits : Fits a shape) {k m n : UInt32}
    (inside : Inside shape k.toNat m.toNat n.toNat) : (offset a k m n).toNat = place shape k.toNat m.toNat n.toNat := by
  have positive := inside_positive inside
  have plane : a.b0.toNat * k.toNat = (shape 1).toNat * (shape 2).toNat * k.toNat := by
    rcases Nat.eq_zero_or_pos k.toNat with zero | nonzero
    · rw [zero, Nat.mul_zero, Nat.mul_zero]
    · rw [fits.b0 positive (Nat.lt_of_le_of_lt nonzero inside.1)]
  have row : a.b1.toNat * m.toNat = (shape 2).toNat * m.toNat := by
    rcases Nat.eq_zero_or_pos m.toNat with zero | nonzero
    · rw [zero, Nat.mul_zero, Nat.mul_zero]
    · rw [fits.b1 positive (Nat.lt_of_le_of_lt nonzero inside.2.1)]
  have sum : a.b0.toNat * k.toNat + a.b1.toNat * m.toNat + n.toNat = place shape k.toNat m.toNat n.toNat := by
    rw [plane, row, place]
    ring
  have below : place shape k.toNat m.toNat n.toNat < 2 ^ 32 := by
    have most := place_lt inside
    rw [← fits.size] at most
    exact Nat.lt_trans most a.sz.toNat_lt
  rw [offset, UInt32.toNat_add, UInt32.toNat_add, UInt32.toNat_mul, UInt32.toNat_mul]
  rw [← sum] at below ⊢
  omega

theorem Tensor.Consistent.fits {a : Tensor α} (consistent : a.Consistent) : Fits a a.dimension where
  size := consistent.size
  b0 positive several := by
    have read := consistent.reads 1 0 0 ⟨several, volume_positive positive 1, volume_positive positive 2⟩
    rw [offset, place] at read
    simpa using read
  b1 positive several := by
    have read := consistent.reads 0 1 0 ⟨volume_positive positive 0, several, volume_positive positive 2⟩
    rw [offset, place] at read
    apply UInt32.toNat_inj.mp
    simpa using read

theorem consistent_iff {a : Tensor α} (allocated : a.sz.toNat ≤ a.value.length) : a.Consistent ↔ Fits a a.dimension :=
  ⟨fun consistent => consistent.fits, fun fits => ⟨fits.size, allocated, fun _ _ _ inside => fits.reads inside⟩⟩

theorem toNat_mul_of_lt {x y : UInt32} (below : x.toNat * y.toNat < 2 ^ 32) : (x * y).toNat = x.toNat * y.toNat := by
  rw [UInt32.toNat_mul, Nat.mod_eq_of_lt below]

theorem toNat_volume {x y z : UInt32} (below : x.toNat * y.toNat * z.toNat < 2 ^ 32) :
    (x * y * z).toNat = x.toNat * y.toNat * z.toNat := by
  rw [UInt32.toNat_mul, UInt32.toNat_mul, Nat.mod_mul_mod, Nat.mod_eq_of_lt below]

theorem Tensor.Built.consistent {a : Tensor α} (built : a.Built) : a.Consistent := by
  rcases built with ⟨old, dims, rfl, below, enough⟩
  have size : (dimset old dims).sz.toNat = volume dims := toNat_volume below
  rw [consistent_iff (size.trans_le enough)]
  refine ⟨size, ?_, fun _ _ => rfl⟩
  intro positive _
  exact toNat_mul_of_lt (Nat.lt_of_le_of_lt (plane_le_volume positive) below)

/-! ## The effect of a call -/

/-- The call changes dimensions and values of its output only. -/
structure Reshaped (out : Nat) (shape : Fin 3 → UInt32) (before after : Tensors α) : Prop where
  others : ∀ a, a ≠ out → after a = before a
  dimension : (after out).dimension = shape
  sz : (after out).sz = (before out).sz
  b0 : (after out).b0 = (before out).b0
  b1 : (after out).b1 = (before out).b1
  length : (after out).value.length = (before out).value.length

def Consistent (tensors : Tensors α) : Prop := ∀ a, (tensors a).Consistent

theorem Fits.congr {a b : Tensor α} {shape : Fin 3 → UInt32} (fits : Fits a shape) (sz : b.sz = a.sz) (b0 : b.b0 = a.b0)
    (b1 : b.b1 = a.b1) : Fits b shape :=
  ⟨sz ▸ fits.size, b0 ▸ fits.b0, b1 ▸ fits.b1⟩

/-- Tensors are consistent after a call if and only if the output fits its new
dimensions. -/
theorem Reshaped.consistent_iff {out : Nat} {shape : Fin 3 → UInt32} {before after : Tensors α}
    (reshaped : Reshaped out shape before after) (consistent : Consistent before) :
    Consistent after ↔ Fits (before out) shape := by
  have allocated : (after out).sz.toNat ≤ (after out).value.length := by
    rw [reshaped.sz, reshaped.length]
    exact (consistent out).allocated
  have outFits : (after out).Consistent ↔ Fits (before out) shape := by
    rw [KitTensor.consistent_iff allocated, reshaped.dimension]
    exact ⟨fun fits => fits.congr reshaped.sz.symm reshaped.b0.symm reshaped.b1.symm,
      fun fits => fits.congr reshaped.sz reshaped.b0 reshaped.b1⟩
  rw [← outFits]
  refine ⟨fun all => all out, fun one a => ?_⟩
  by_cases isOut : a = out
  · rwa [isOut]
  · rw [reshaped.others a isOut]
    exact consistent a

theorem Framed.reshaped {out : Nat} {shape : Fin 3 → UInt32} {before shaped after : Tensors α}
    (given : Reshaped out shape before shaped) (framed : Framed out shaped after) :
    Reshaped out shape before after where
  others a other := (framed.others a other).trans (given.others a other)
  dimension := (framed.dimension out).trans given.dimension
  sz := by rw [framed.fields, given.sz]
  b0 := by rw [framed.fields, given.b0]
  b1 := by rw [framed.fields, given.b1]
  length := framed.length.trans given.length

theorem reshaped_update {out : Nat} {numDims : UInt32} {shape : Fin 3 → UInt32} {before : Tensors α} :
    Reshaped out shape before
      (Function.update before out { before out with numDims := numDims, dimension := shape }) := by
  refine ⟨fun a other => Function.update_of_ne other _ _, ?_, ?_, ?_, ?_, ?_⟩ <;> rw [Function.update_self]

/-! ## `kit_tensor_permute` -/

section

variable {a b : Nat} {x y z : Fin 3} {tensors after : Tensors α}

theorem setDimension_reshaped (b : Nat) (i : Fin 3) (length : UInt32) (tensors : Tensors α) :
    Reshaped b (Function.update (tensors b).dimension i length) tensors (setDimension b i length tensors) := by
  refine ⟨fun other differs => Function.update_of_ne differs _ _, ?_, ?_, ?_, ?_, ?_⟩ <;>
    rw [setDimension, Function.update_self]

theorem Reshaped.trans {out : Nat} {first second : Fin 3 → UInt32} {before middle after : Tensors α}
    (one : Reshaped out first before middle) (two : Reshaped out second middle after) :
    Reshaped out second before after where
  others a other := (two.others a other).trans (one.others a other)
  dimension := two.dimension
  sz := two.sz.trans one.sz
  b0 := two.b0.trans one.b0
  b1 := two.b1.trans one.b1
  length := two.length.trans one.length

theorem permuteDimensions_reshaped (a : Nat) (x y z : Fin 3) (b : Nat) (tensors : Tensors α) :
    Reshaped b ((permuteDimensions a x y z b tensors) b).dimension tensors (permuteDimensions a x y z b tensors) := by
  have assigned : ∃ shape, Reshaped b shape tensors (permuteDimensions a x y z b tensors) :=
    ⟨_, ((setDimension_reshaped b 0 _ tensors).trans (setDimension_reshaped b 1 _ _)).trans
      (setDimension_reshaped b 2 _ _)⟩
  rcases assigned with ⟨shape, reshaped⟩
  exact { reshaped with dimension := rfl }

/-- An output that is another tensor gets the dimensions of the operand in the
order asked for. -/
theorem permuteDimensions_dimension (differ : a ≠ b) :
    ((permuteDimensions a x y z b tensors) b).dimension =
      ![(tensors a).dimension x, (tensors a).dimension y, (tensors a).dimension z] := by
  rw [permuteDimensions, (setDimension_reshaped b 2 _ _).dimension, (setDimension_reshaped b 1 _ _).others a differ,
    (setDimension_reshaped b 0 _ _).others a differ, (setDimension_reshaped b 1 _ _).dimension,
    (setDimension_reshaped b 0 _ _).dimension]
  funext i
  fin_cases i <;> rfl

theorem permuteValue_ok {base : Fin 3 → UInt32} {cell : Nat × Nat × Nat} {index : UInt32}
    (done : permuteValue a base x y z b cell index tensors = .ok after) :
    ∃ value, (tensors a).value[(permuteIdx base x y z cell).toNat]? = some value ∧
      put b index.toNat value tensors = .ok after := by
  rcases bind_ok done with ⟨value, loaded, stored⟩
  exact ⟨value, load_ok loaded, stored⟩

theorem permute_true {dims : Fin 3 → UInt32} (done : permute a dims b tensors = .ok (true, after)) :
    ∃ x y z, axis (dims 0) = .ok x ∧ axis (dims 1) = .ok y ∧ axis (dims 2) = .ok z ∧
      forEach (permuteValue a (base (tensors a)) x y z b) ((permuteDimensions a x y z b tensors) b).cells 0
        (permuteDimensions a x y z b tensors) = .ok after := by
  rw [permute] at done
  split at done
  · cases done
  · split at done
    · cases done
    · rcases bind_ok done with ⟨x, isX, done⟩
      rcases bind_ok done with ⟨y, isY, done⟩
      rcases bind_ok done with ⟨z, isZ, done⟩
      refine ⟨x, y, z, isX, isY, isZ, ?_⟩
      simp only at done
      split at done
      · rcases bind_ok done with ⟨final, looped, done⟩
        cases done
        exact looped
      · cases done

theorem permute_framed {base : Fin 3 → UInt32} {list : List (Nat × Nat × Nat)} {shaped : Tensors α}
    (done : forEach (permuteValue a base x y z b) list 0 shaped = .ok after) : Framed b shaped after := by
  apply Framed.forEach _ done
  intro cell index tensors next stepped
  rcases permuteValue_ok stepped with ⟨value, -, stored⟩
  exact put_framed stored

end

/-! ## `kit_tensor_matmul` -/

section

variable [Zero α] [Add α] [Mul α] {a b c : Nat} {tensors after : Tensors α}

/-- The tensors when a product of matrices is about to be computed. -/
def matmulShaped (a b c : Nat) (tensors : Tensors α) : Tensors α :=
  Function.update tensors c { tensors c with
    numDims := 2
    dimension := ![(tensors a).dimension 0, (tensors a).dimension 1, (tensors b).dimension 2] }

theorem matmul_true (done : matmul a b c tensors = .ok (true, after)) :
    forEach (matmulValue a b c ((tensors a).dimension 2)) ((matmulShaped a b c tensors) c).cells 0
      (matmulShaped a b c tensors) = .ok after := by
  rw [matmul] at done
  split at done
  · cases done
  · simp only at done
    split at done
    · cases done
    · rcases bind_ok done with ⟨final, looped, done⟩
      cases done
      exact looped

omit [Zero α] in
theorem innerTerm_ok {aFrom bFrom position i : Nat} {aSkip bSkip : Int} {index : UInt32}
    (done : innerTerm a aFrom aSkip b bFrom bSkip c position i index tensors = .ok after) :
    ∃ x y sum, (tensors a).loadFrom aFrom (i * aSkip) = .ok x ∧ (tensors b).loadFrom bFrom (i * bSkip) = .ok y ∧
      (tensors c).value[position]? = some sum ∧ put c position (sum + x * y) tensors = .ok after := by
  rcases bind_ok done with ⟨x, isX, done⟩
  rcases bind_ok done with ⟨y, isY, done⟩
  rcases bind_ok done with ⟨sum, isSum, done⟩
  exact ⟨x, y, sum, isX, isY, load_ok isSum, done⟩

theorem innerProduct_framed {aFrom bFrom position : Nat} {aSkip bSkip len : Int}
    (done : innerProduct a aFrom aSkip b bFrom bSkip len c position tensors = .ok after) : Framed c tensors after := by
  rcases bind_ok done with ⟨cleared, stored, done⟩
  refine (put_framed stored).trans (Framed.forEach ?_ done)
  intro i index tensors next stepped
  rcases innerTerm_ok stepped with ⟨x, y, sum, -, -, -, stored⟩
  exact put_framed stored

theorem matmul_framed {dim : UInt32} {list : List (Nat × Nat × Nat)} {shaped : Tensors α}
    (done : forEach (matmulValue a b c dim) list 0 shaped = .ok after) : Framed c shaped after := by
  apply Framed.forEach _ done
  intro cell index tensors next stepped
  exact innerProduct_framed stepped

end

/-! ## `kit_tensor_embedding` -/

section

variable {a out : Nat} {indices : List UInt32} {tensors after : Tensors α}

/-- The tensors when rows are about to be embedded. -/
def embeddingShaped (a : Nat) (shape : Fin 3 → UInt32) (out : Nat) (tensors : Tensors α) : Tensors α :=
  Function.update tensors out { tensors out with numDims := (tensors a).numDims, dimension := shape }

theorem embedding_true {n : UInt32} (done : embedding a indices n out tensors = .ok (true, after)) :
    ∃ wrap shape, embeddingShape (tensors a) n = some (wrap, shape) ∧
      forEach (embedRow a indices wrap out) (List.range n.toNat) 0 (embeddingShaped a shape out tensors) =
        .ok after := by
  rw [embedding] at done
  cases shaped : embeddingShape (tensors a) n with
  | none =>
      rw [shaped] at done
      cases done
  | some found =>
      rcases found with ⟨wrap, shape⟩
      rw [shaped] at done
      simp only at done
      split at done
      · rcases bind_ok done with ⟨final, looped, done⟩
        cases done
        exact ⟨wrap, shape, rfl, looped⟩
      · cases done

/-- A copy that is defined. -/
theorem copy_ok {source dest length : Nat} (done : copy a source out dest length tensors = .ok after) :
    source + length ≤ (tensors a).value.length ∧ dest + length ≤ (tensors out).value.length ∧
      after = Function.update tensors out { tensors out with
        value := (tensors out).value.take dest ++ (((tensors a).value.drop source).take length ++
          (tensors out).value.drop (dest + length)) } := by
  rw [copy] at done
  split at done
  · rename_i defined
    cases done
    exact ⟨defined.1, defined.2.1, rfl⟩
  · cases done

theorem copy_framed {source dest length : Nat} (done : copy a source out dest length tensors = .ok after) :
    Framed out tensors after := by
  rcases copy_ok done with ⟨sourceFits, destFits, rfl⟩
  refine ⟨fun other differs => Function.update_of_ne differs _ _, ?_, ?_⟩
  · rw [Function.update_self]
  · simp only [Function.update_self, List.length_append, List.length_take, List.length_drop]
    omega

theorem embedRow_ok {wrap : UInt32} {i : Nat} {counter : UInt32}
    (done : embedRow a indices wrap out i counter tensors = .ok after) :
    ∃ index, indices[i]? = some index ∧
      copy a (wrap * index).toNat out (UInt32.ofNat i * wrap).toNat wrap.toNat tensors = .ok after := by
  rw [embedRow] at done
  cases found : indices[i]? with
  | none =>
      rw [found] at done
      cases done
  | some index =>
      rw [found] at done
      exact ⟨index, rfl, done⟩

theorem embedding_framed {wrap : UInt32} {list : List Nat} {shaped : Tensors α}
    (done : forEach (embedRow a indices wrap out) list 0 shaped = .ok after) : Framed out shaped after := by
  apply Framed.forEach _ done
  intro i index tensors next stepped
  rcases embedRow_ok stepped with ⟨index, -, copied⟩
  exact copy_framed copied

end

/-! ## `kit_tensor_sum` -/

section

variable [Add α] {a b c : Nat} {tensors after : Tensors α}

theorem sumValue_ok {i : Nat} {index : UInt32} (done : sumValue a b c i index tensors = .ok after) :
    ∃ x y, (tensors a).value[i]? = some x ∧ (tensors b).value[i]? = some y ∧ put c i (x + y) tensors = .ok after := by
  rcases bind_ok done with ⟨x, isX, done⟩
  rcases bind_ok done with ⟨y, isY, done⟩
  exact ⟨x, y, load_ok isX, load_ok isY, done⟩

theorem sum_true (done : sum a b c tensors = .ok (true, after)) :
    (tensors a).dimension = (tensors b).dimension ∧ (tensors b).dimension = (tensors c).dimension ∧
      forEach (sumValue a b c) (List.range (tensorSz (tensors a)).toNat) 0 tensors = .ok after := by
  rw [sum] at done
  split at done
  · cases done
  · rename_i same
    rw [not_or, not_not, not_not] at same
    rcases bind_ok done with ⟨final, looped, done⟩
    cases done
    exact ⟨same.1, same.2, looped⟩

theorem sum_framed {list : List Nat} (done : forEach (sumValue a b c) list 0 tensors = .ok after) :
    Framed c tensors after := by
  apply Framed.forEach _ done
  intro i index tensors next stepped
  rcases sumValue_ok stepped with ⟨x, y, -, -, stored⟩
  exact put_framed stored

end

end KitTensor
end LibKit
