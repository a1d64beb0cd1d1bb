import LibKit.KitTensor.Permuting

namespace LibKit
namespace KitTensor

/-!
# Products of matrices

`kit_tensor_matmul` computes each element of a product of prepared operands as
the sum of the definition.  The length of the sum and the distance of its last
terms are of type `int`, and the size of the product, of type `unsigned`, is
only compared with that of the output: no product is computed of operands for
which one of them is too large.
-/

/-! ## Prepared tensors -/

section

variable {α : Type}

def Prepared (shape : Nat → Fin 3 → UInt32) (tensors : Tensors α) (a : Nat) : Prop :=
  (tensors a).Built ∧ (tensors a).dimension = shape a

/-- An operation that returns true has done what it should; one that returns
false has left everything unchanged.  It may also fail an assertion. -/
def Computes (right : Tensors α → Prop) (tensors : Tensors α) (outcome : Except Stop (Bool × Tensors α)) : Prop :=
  Ensures (fun answer => (answer.1 = true → right answer.2) ∧ (answer.1 = false → answer.2 = tensors))
    (fun stop => stop = .assertion) outcome

def entry [Zero α] (a : Tensor α) (k m n : Nat) : α := (a.value[place a.dimension k m n]?).getD 0

theorem load_entry [Zero α] {a : Tensor α} (allocated : volume a.dimension ≤ a.value.length) {k m n : Nat}
    (inside : Inside a.dimension k m n) : a.load (place a.dimension k m n) = .ok (entry a k m n) := by
  have there := Nat.lt_of_lt_of_le (place_lt inside) allocated
  rw [load_some (List.getElem?_eq_getElem there), entry, List.getElem?_eq_getElem there, Option.getD_some]

/-- A load at a distance that is an `int`. -/
theorem loadFrom_ofNat (a : Tensor α) (start : Nat) {distance : Nat} (few : distance < 2 ^ 31) :
    a.loadFrom start distance = a.load (start + distance) := by
  rw [Tensor.loadFrom, if_pos (by omega), ← Int.natCast_add, Int.toNat_natCast]

theorem loadFrom_large (a : Tensor α) (start : Nat) {distance : Nat} (many : 2 ^ 31 ≤ distance) :
    a.loadFrom start distance = .error .undefined :=
  if_neg (by omega)

theorem toInt_small {x : UInt32} (small : x.toNat < 2 ^ 31) : x.toInt32.toInt = x.toNat := by
  have same : x.toInt32.toInt = x.toBitVec.toInt := rfl
  rw [same, BitVec.toInt_eq_toNat_of_lt]
  · rfl
  · change 2 * x.toNat < 2 ^ 32
    omega

theorem toInt_large {x : UInt32} (large : 2 ^ 31 ≤ x.toNat) : x.toInt32.toInt < 0 := by
  have same : x.toInt32.toInt = x.toBitVec.toInt := rfl
  have below := x.toNat_lt
  rw [same, BitVec.toInt_eq_toNat_cond, if_neg]
  · change (x.toNat : Int) - (2 ^ 32 : Nat) < 0
    omega
  · change ¬ 2 * x.toNat < 2 ^ 32
    omega

theorem Tensor.Built.size {a : Tensor α} (built : a.Built) : volume a.dimension < 2 ^ 32 := by
  rw [← built.consistent.size]
  exact a.sz.toNat_lt

theorem Tensor.Built.allocated {a : Tensor α} (built : a.Built) : volume a.dimension ≤ a.value.length := by
  rw [← built.consistent.size]
  exact built.consistent.allocated

theorem Tensor.Built.isSet_iff {a : Tensor α} (built : a.Built) : a.isSet = true ↔ 0 < volume a.dimension := by
  have size := built.consistent.size
  have fits := built.consistent.fits
  rw [← size]
  refine ⟨fun isSet => ?_, fun positive => ?_⟩
  · have set : a.sz ≠ 0 ∧ a.b0 ≠ 0 ∧ a.b1 ≠ 0 := of_decide_eq_true isSet
    exact Nat.pos_of_ne_zero fun zero => set.1 (UInt32.toNat_inj.mp zero)
  · have some' : ∀ x : UInt32, 0 < x.toNat → x ≠ 0 := by
      rintro x nonzero rfl
      exact Nat.lt_irrefl 0 nonzero
    rcases built with ⟨old, dims, rfl, below, -⟩
    rw [size] at positive
    change 0 < volume dims at positive
    have plane : (dims 1 * dims 2).toNat = (dims 1).toNat * (dims 2).toNat :=
      toNat_mul_of_lt (Nat.lt_of_le_of_lt (plane_le_volume positive) below)
    apply decide_eq_true
    refine ⟨some' _ (size ▸ positive), some' _ ?_, some' _ (volume_positive positive 2)⟩
    change 0 < (dims 1 * dims 2).toNat
    rw [plane]
    exact Nat.mul_pos (volume_positive positive 1) (volume_positive positive 2)

theorem Tensor.Built.tensorSz {a : Tensor α} (built : a.Built) : (tensorSz a).toNat = volume a.dimension := by
  rw [KitTensor.tensorSz]
  split
  · exact toNat_volume built.size
  · exact built.consistent.size

theorem rowStart {x : Tensor α} (built : x.Built) {k m : UInt32} (inside : Inside x.dimension k.toNat m.toNat 0) :
    (k * x.dimension 1 * x.dimension 2 + m * x.dimension 2).toNat = place x.dimension k.toNat m.toNat 0 := by
  have below := Nat.lt_trans (place_lt inside) built.size
  have sum : place x.dimension k.toNat m.toNat 0 =
      k.toNat * (x.dimension 1).toNat * (x.dimension 2).toNat + m.toNat * (x.dimension 2).toNat := by
    rw [place]
    ring
  rw [sum] at below ⊢
  rw [UInt32.toNat_add, toNat_volume (by omega), toNat_mul_of_lt (by omega), Nat.mod_eq_of_lt below]

theorem columnStart {x : Tensor α} (built : x.Built) {k n : UInt32} (inside : Inside x.dimension k.toNat 0 n.toNat) :
    (k * x.dimension 1 * x.dimension 2 + n).toNat = place x.dimension k.toNat 0 n.toNat := by
  have below := Nat.lt_trans (place_lt inside) built.size
  have sum : place x.dimension k.toNat 0 n.toNat = k.toNat * (x.dimension 1).toNat * (x.dimension 2).toNat +
    n.toNat := by
    rw [place]
    ring
  rw [sum] at below ⊢
  rw [UInt32.toNat_add, toNat_volume (by omega), Nat.mod_eq_of_lt below]

theorem cells_place {shape : Fin 3 → UInt32} {k m n : Nat} (inside : Inside shape k m n) :
    (KitTensor.cells (shape 0).toNat (shape 1).toNat (shape 2).toNat)[place shape k m n]? = some (k, m, n) := by
  have isTurn : (List.range (volume shape))[place shape k m n]? = some (place shape k m n) :=
    List.getElem?_range (place_lt inside)
  rw [cells_eq, List.getElem?_map, ← cellAt_place inside]
  exact congrArg (Option.map _) isTurn

end

/-! ## Failures -/

section

variable {α : Type} {a : Nat} {tensors : Tensors α}

theorem forEach_error {ι : Type} {body : ι → UInt32 → Tensors α → Except Stop (Tensors α)} {list : List ι}
    {index : UInt32} {stop : Stop}
    (failed : forEach body list index tensors = .error stop) : ∃ i index now, body i index now = .error stop := by
  induction list generalizing index tensors with
  | nil => cases failed
  | cons i rest ih =>
      rcases bind_error failed with failed | ⟨next, -, failed⟩
      · exact ⟨i, index, tensors, failed⟩
      · exact ih failed

theorem put_error {position : Nat} {x : α} {stop : Stop} (failed : put a position x tensors = .error stop) :
    stop = .undefined := by
  rw [put] at failed
  split at failed
  · cases failed
  · cases failed
    rfl

theorem load_error {first : Tensor α} {position : Nat} {stop : Stop} (failed : first.load position = .error stop) :
    stop = .undefined := by
  rw [Tensor.load] at failed
  split at failed
  · cases failed
  · cases failed
    rfl

theorem loadFrom_error {first : Tensor α} {start : Nat} {distance : Int} {stop : Stop}
    (failed : first.loadFrom start distance = .error stop) : stop = .undefined := by
  rw [Tensor.loadFrom] at failed
  split at failed
  · exact load_error failed
  · cases failed
    rfl

end

/-! ## Inner products -/

section

variable {α : Type} [CommRing α] {a b c : Nat} {tensors after : Tensors α}

theorem sum_range (len : Nat) (term : Nat → α) : ((List.range len).map term).sum = ∑ i ∈ Finset.range len, term i := rfl

theorem innerProduct_sums {aFrom bFrom position : Nat} {aSkip bSkip len : Int} {x y : Nat → α} (first : a ≠ c)
    (second : b ≠ c)
    (inside : position < (tensors c).value.length)
    (readA : ∀ i < len.toNat, (tensors a).loadFrom aFrom (i * aSkip) = .ok (x i))
    (readB : ∀ i < len.toNat, (tensors b).loadFrom bFrom (i * bSkip) = .ok (y i)) :
    ∃ after, innerProduct a aFrom aSkip b bFrom bSkip len c position tensors = .ok after ∧ Framed c tensors after ∧
      (after c).value[position]? = some (∑ i ∈ Finset.range len.toNat, x i * y i) ∧
      ∀ other, other ≠ position → (after c).value[other]? = (tensors c).value[other]? := by
  rcases put_some (0 : α) inside with ⟨cleared, stored⟩
  have here : (cleared c).value[position]? = some 0 := by rw [put_value stored, if_pos rfl]
  have summed := @forEach_sums α Nat _ (innerTerm a aFrom aSkip b bFrom bSkip c position)
    (List.range len.toNat) cleared c position
    (fun i => x i * y i) 0 here ?_
  · rcases summed with ⟨after, looped, framed, sum, others⟩
    refine ⟨after, ?_, (put_framed stored).trans framed, ?_, ?_⟩
    · rw [innerProduct, stored]
      exact looped
    · rw [sum, zero_add, sum_range]
    · intro other differs
      rw [others other differs, put_value stored, if_neg differs]
  · intro i index now isTurn framed
    have below := List.mem_range.mp isTurn
    have framed' := (put_framed stored).trans framed
    rw [innerTerm, framed'.others a first, framed'.others b second, readA i below, readB i below]
    rfl

theorem innerProduct_reads {aFrom bFrom position : Nat} {aSkip bSkip len : Int} (second : b ≠ c)
    (done : innerProduct a aFrom aSkip b bFrom bSkip len c position tensors = .ok after) (i : Nat)
    (below : i < len.toNat) :
    ∃ y, (tensors b).loadFrom bFrom (i * bSkip) = .ok y := by
  rcases bind_ok done with ⟨cleared, stored, done⟩
  have all := forEach_invariant (fun turn now => now b = tensors b ∧
    ∀ i < turn, ∃ y, (tensors b).loadFrom bFrom (i * bSkip) = .ok y) ?_ ⟨(put_framed stored).others b second, ?_⟩ done
  · rw [List.length_range] at all
    exact all.2 i below
  · rintro turn i now next isTurn ⟨isB, before⟩ stepped
    rw [List.getElem?_eq_some_iff] at isTurn
    rcases isTurn with ⟨inside, rfl⟩
    rw [List.getElem_range] at stepped
    rcases innerTerm_ok stepped with ⟨x, y, sum, -, isY, -, put⟩
    rw [isB] at isY
    refine ⟨((put_framed put).others b second).trans isB, fun i early => ?_⟩
    rcases Nat.lt_succ_iff_lt_or_eq.mp early with earlier | rfl
    · exact before i earlier
    · exact ⟨y, isY⟩
  · exact fun i early => absurd early (Nat.not_lt_zero i)

theorem innerProduct_error {aFrom bFrom position : Nat} {aSkip bSkip len : Int} {stop : Stop}
    (failed : innerProduct a aFrom aSkip b bFrom bSkip len c position tensors = .error stop) : stop = .undefined := by
  rcases bind_error failed with failed | ⟨cleared, -, failed⟩
  · exact put_error failed
  · rcases forEach_error failed with ⟨i, index, now, failed⟩
    rcases bind_error failed with failed | ⟨x, -, failed⟩
    · exact loadFrom_error failed
    · rcases bind_error failed with failed | ⟨y, -, failed⟩
      · exact loadFrom_error failed
      · rcases bind_error failed with failed | ⟨sum, -, failed⟩
        · exact load_error failed
        · exact put_error failed

end

/-! ## Products -/

/-- The shapes can be multiplied, and the output has the size that is computed
for the product. -/
structure Multiplied (a b c : Fin 3 → UInt32) : Prop where
  inner : a 2 = b 1
  batch : a 0 = b 0
  size : (a 0 * a 1 * b 2).toNat = volume c
  positive : 0 < volume c

/-- The size of the product is an `unsigned`, the number of terms and the
distance of the last one are each an `int`. -/
structure ProductFits (a b : Fin 3 → UInt32) : Prop where
  size : volume ![a 0, a 1, b 2] < 2 ^ 32
  length : (a 2).toNat < 2 ^ 31
  distance : ((a 2).toNat - 1) * (b 2).toNat < 2 ^ 31

section

variable {α : Type} [CommRing α] {a b c : Nat} {tensors after : Tensors α}

def productEntry (a b : Tensor α) (k m n : Nat) : α :=
    ∑ i ∈ Finset.range (a.dimension 2).toNat, entry a k m i * entry b k i n

structure Product (a b c : Nat) (before after : Tensors α) : Prop where
  others : ∀ t, t ≠ c → after t = before t
  dimension : (after c).dimension = ![(before a).dimension 0, (before a).dimension 1, (before b).dimension 2]
  element : ∀ k m n, Inside (after c).dimension k m n →
    (after c).value[place (after c).dimension k m n]? = some (productEntry (before a) (before b) k m n)
  read : Fits (before c) (after c).dimension → ∀ k m n : UInt32, Inside (after c).dimension k.toNat m.toNat n.toNat →
    getKMN (after c) k m n = .ok (productEntry (before a) (before b) k.toNat m.toNat n.toNat)

/-- A term of the second operand is read at its distance. -/
theorem loadFrom_column {x : Tensor α} (built : x.Built) {k n i : Nat} (inside : Inside x.dimension k i n)
    (near : ((x.dimension 1).toNat - 1) * (x.dimension 2).toNat < 2 ^ 31) :
    x.loadFrom (place x.dimension k 0 n) (i * (x.dimension 2).toInt32.toInt) = .ok (entry x k i n) := by
  have distance : i * (x.dimension 2).toNat < 2 ^ 31 :=
    Nat.lt_of_le_of_lt (Nat.mul_le_mul_right _ (Nat.le_sub_one_of_lt inside.2.1)) near
  have product : (i : Int) * (x.dimension 2).toInt32.toInt = (i * (x.dimension 2).toNat : Nat) := by
    rcases Nat.eq_zero_or_pos i with rfl | later
    · rw [Nat.zero_mul, Nat.cast_zero, Int.zero_mul]
    · have small : (x.dimension 2).toNat < 2 ^ 31 := Nat.lt_of_le_of_lt (Nat.le_mul_of_pos_left _ later) distance
      rw [toInt_small small, Nat.cast_mul]
  have sum : place x.dimension k 0 n + i * (x.dimension 2).toNat = place x.dimension k i n := by
    rw [place, place]
    ring
  rw [product, loadFrom_ofNat _ _ distance, sum]
  exact load_entry built.allocated inside

theorem loadFrom_row {x : Tensor α} (built : x.Built) {k m i : Nat} (inside : Inside x.dimension k m i)
    (few : (x.dimension 2).toNat < 2 ^ 31) : x.loadFrom (place x.dimension k m 0) (i * 1) = .ok (entry x k m i) := by
  have sum : place x.dimension k m 0 + i = place x.dimension k m i := by
    rw [place, place]
    ring
  rw [Int.mul_one, loadFrom_ofNat _ _ (Nat.lt_trans inside.2.2 few), sum]
  exact load_entry built.allocated inside

theorem matmulValue_stores {x y : Tensor α} (isX : tensors a = x) (isY : tensors b = y) (first : a ≠ c) (second : b ≠ c)
    (builtX : x.Built) (builtY : y.Built) (inner : x.dimension 2 = y.dimension 1)
    (batch : x.dimension 0 = y.dimension 0)
    (fits : ProductFits x.dimension y.dimension) {k m n : Nat}
    (inside : Inside ![x.dimension 0, x.dimension 1, y.dimension 2] k m n) {index : UInt32}
    (room : index.toNat < (tensors c).value.length) :
    ∃ next, matmulValue a b c (x.dimension 2) (k, m, n) index tensors = .ok next ∧ Framed c tensors next ∧
      (next c).value[index.toNat]? = some (productEntry x y k m n) ∧
      ∀ other, other ≠ index.toNat → (next c).value[other]? = (tensors c).value[other]? := by
  rcases inside with ⟨insideK, insideM, insideN⟩
  have isK : (UInt32.ofNat k).toNat = k := ofNat_toNat insideK (UInt32.toNat_lt _)
  have isM : (UInt32.ofNat m).toNat = m := ofNat_toNat insideM (UInt32.toNat_lt _)
  have isN : (UInt32.ofNat n).toNat = n := ofNat_toNat insideN (UInt32.toNat_lt _)
  have len : (x.dimension 2).toInt32.toInt.toNat = (x.dimension 2).toNat := by
    rw [toInt_small fits.length, Int.toNat_natCast]
  subst isX isY
  rw [productEntry, ← len]
  apply innerProduct_sums first second room
  · intro i below
    rw [len] at below
    have cell : Inside (tensors a).dimension k m i := ⟨insideK, insideM, below⟩
    have start : Inside (tensors a).dimension (UInt32.ofNat k).toNat (UInt32.ofNat m).toNat 0 := by
      rw [isK, isM]
      exact ⟨insideK, insideM, Nat.zero_lt_of_lt below⟩
    rw [rowStart builtX start, isK, isM]
    exact loadFrom_row builtX cell fits.length
  · intro i below
    rw [len, inner] at below
    have insideK' : k < ((tensors b).dimension 0).toNat := by
      rw [← batch]
      exact insideK
    have start : Inside (tensors b).dimension (UInt32.ofNat k).toNat 0 (UInt32.ofNat n).toNat := by
      rw [isK, isN]
      exact ⟨insideK', Nat.zero_lt_of_lt below, insideN⟩
    rw [columnStart builtY start, isK, isN]
    apply loadFrom_column builtY ⟨insideK', below, insideN⟩
    rw [← inner]
    exact fits.distance

theorem matmul_looped (builtC : (tensors c).Built)
    (multiplied : Multiplied (tensors a).dimension (tensors b).dimension (tensors c).dimension) :
    matmul a b c tensors = (forEach (matmulValue a b c ((tensors a).dimension 2))
      ((matmulShaped a b c tensors) c).cells 0
      (matmulShaped a b c tensors) >>= fun tensors => .ok (true, tensors)) := by
  rw [matmul, if_neg (not_not.mpr (builtC.isSet_iff.mpr multiplied.positive))]
  simp only
  rw [if_neg]
  · rfl
  · rintro (differ | differ | differ)
    · exact differ multiplied.inner
    · exact differ multiplied.batch
    · exact differ (UInt32.toNat_inj.mp (multiplied.size.trans builtC.tensorSz.symm))

theorem matmul_product (first : a ≠ c) (second : b ≠ c) (builtA : (tensors a).Built)
    (builtB : (tensors b).Built) (builtC : (tensors c).Built)
    (multiplied : Multiplied (tensors a).dimension (tensors b).dimension (tensors c).dimension)
    (fits : ProductFits (tensors a).dimension (tensors b).dimension) :
    ∃ after, matmul a b c tensors = .ok (true, after) ∧ Product a b c tensors after := by
  let shaped := matmulShaped a b c tensors
  have given : Reshaped c ![(tensors a).dimension 0, (tensors a).dimension 1,
    (tensors b).dimension 2] tensors shaped := reshaped_update
  have sameSize : volume ![(tensors a).dimension 0, (tensors a).dimension 1, (tensors b).dimension 2] = volume
    (tensors c).dimension := by
    rw [← multiplied.size]
    exact (toNat_volume fits.size).symm
  have filled := @forEach_fills α _ (matmulValue a b c ((tensors a).dimension 2)) (shaped c).cells shaped c
    (fun cell => productEntry (tensors a) (tensors b) cell.1 cell.2.1 cell.2.2) ?_
  · rcases filled with ⟨after, looped, framed, stored, -⟩
    have reshaped := framed.reshaped given
    have element : ∀ k m n, Inside (after c).dimension k m n →
        (after c).value[place (after c).dimension k m n]? = some (productEntry (tensors a) (tensors b) k m n) := by
      intro k m n inside
      rw [reshaped.dimension] at inside ⊢
      apply stored _ (k, m, n)
      rw [Tensor.cells, given.dimension]
      exact cells_place inside
    refine ⟨after, ?_, reshaped.others, reshaped.dimension, element, ?_⟩
    · rw [matmul_looped builtC multiplied, looped]
      rfl
    · intro fitting k m n inside
      have fitting' : Fits (after c) (after c).dimension := fitting.congr reshaped.sz reshaped.b0 reshaped.b1
      rw [getKMN, fitting'.reads inside]
      exact load_some (element _ _ _ inside)
  · intro turn cell now isCell framed
    rw [Tensor.cells, given.dimension] at isCell
    rcases cells_getElem _ isCell with ⟨below, rfl⟩
    have isA : now a = tensors a := (framed.others a first).trans (given.others a first)
    have isB : now b = tensors b := (framed.others b second).trans (given.others b second)
    have index : (UInt32.ofNat turn).toNat = turn := ofNat_toNat below fits.size
    have room : turn < (now c).value.length := by
      rw [framed.length, given.length]
      exact Nat.lt_of_lt_of_le (sameSize ▸ below) builtC.allocated
    have stores := @matmulValue_stores α _ a b c now _ _ isA isB first second builtA builtB
      multiplied.inner multiplied.batch fits
      _ _ _ (cellAt_inside below) (UInt32.ofNat turn)
    rw [index] at stores
    exact stores room

/-- `kit_tensor_matmul` computes the product, or refuses shapes that do not
fit together. -/
theorem matmul_computes (first : a ≠ c) (second : b ≠ c) (builtA : (tensors a).Built) (builtB : (tensors b).Built)
    (builtC : (tensors c).Built)
    (fits : Multiplied (tensors a).dimension (tensors b).dimension (tensors c).dimension →
      ProductFits (tensors a).dimension (tensors b).dimension) :
    Computes (Product a b c tensors) tensors (matmul a b c tensors) := by
  by_cases multiplied : Multiplied (tensors a).dimension (tensors b).dimension (tensors c).dimension
  · rcases matmul_product first second builtA builtB builtC multiplied (fits multiplied) with ⟨after, done, product⟩
    rw [done]
    exact Ensures.of_ok ⟨fun _ => product, fun wrong => (by cases wrong)⟩
  · rw [matmul]
    split
    · exact Ensures.of_error rfl
    · rename_i isSet
      simp only
      rw [if_pos]
      · exact Ensures.of_ok ⟨fun wrong => (by cases wrong), fun _ => rfl⟩
      · by_contra same
        rw [not_or, not_or, not_not, not_not, not_not] at same
        rcases same with ⟨inner, batch, size⟩
        have size' : (matmulSz (tensors a) (tensors b)).toNat = volume (tensors c).dimension := by
          rw [size, builtC.tensorSz]
        exact multiplied ⟨inner, batch, size', builtC.isSet_iff.mp (not_not.mp isSet)⟩

/-! ## What does not fit -/

theorem matmul_room (builtC : (tensors c).Built) (done : matmul a b c tensors = .ok (true, after))
    (tight : (tensors c).value.length = volume (tensors c).dimension) :
    volume ![(tensors a).dimension 0, (tensors a).dimension 1, (tensors b).dimension 2] < 2 ^ 32 := by
  have given : Reshaped c ![(tensors a).dimension 0, (tensors a).dimension 1, (tensors b).dimension 2] tensors
    (matmulShaped a b c tensors) := reshaped_update
  have counted := forEach_invariant (fun turn now => Framed c (matmulShaped a b c tensors) now ∧
    turn ≤ volume (tensors c).dimension) ?_
    ⟨Framed.refl _ _, Nat.zero_le _⟩ (matmul_true done)
  · rw [Tensor.cells, given.dimension, cells_length] at counted
    exact Nat.lt_of_le_of_lt counted.2 builtC.size
  · rintro turn cell now next - ⟨framed, early⟩ stepped
    have index : (UInt32.ofNat turn).toNat = turn := UInt32.toNat_ofNat_of_lt (Nat.lt_of_le_of_lt early builtC.size)
    refine ⟨framed.trans (innerProduct_framed stepped), ?_⟩
    rcases bind_ok stepped with ⟨cleared, stored, -⟩
    have inside := (put_ok stored).1
    rw [index, framed.length, given.length, tight] at inside
    exact inside

/-- The last term of a sum is not too far from the first. -/
theorem matmul_near (second : b ≠ c) (done : matmul a b c tensors = .ok (true, after))
    (positive : 0 < volume ![(tensors a).dimension 0, (tensors a).dimension 1, (tensors b).dimension 2])
    (few : ((tensors a).dimension 2).toNat < 2 ^ 31) (small : ((tensors b).dimension 2).toNat < 2 ^ 31) :
    (((tensors a).dimension 2).toNat - 1) * ((tensors b).dimension 2).toNat < 2 ^ 31 := by
  have given : Reshaped c ![(tensors a).dimension 0, (tensors a).dimension 1, (tensors b).dimension 2] tensors
    (matmulShaped a b c tensors) := reshaped_update
  have count := cells_length ((matmulShaped a b c tensors) c).dimension
  rw [given.dimension] at count
  have looped := matmul_true done
  rw [Tensor.cells, given.dimension] at looped
  cases turns : KitTensor.cells (![(tensors a).dimension 0, (tensors a).dimension 1, (tensors b).dimension 2] 0).toNat
      (![(tensors a).dimension 0, (tensors a).dimension 1, (tensors b).dimension 2] 1).toNat
      (![(tensors a).dimension 0, (tensors a).dimension 1, (tensors b).dimension 2] 2).toNat with
  | nil =>
      rw [turns] at count
      exact absurd count (Nat.ne_of_lt positive)
  | cons cell rest =>
      rw [turns] at looped
      rcases bind_ok looped with ⟨next, stepped, -⟩
      by_contra far
      have several : ((tensors a).dimension 2).toNat - 1 < ((tensors a).dimension 2).toInt32.toInt.toNat := by
        rw [toInt_small few, Int.toNat_natCast]
        apply Nat.sub_one_lt
        intro zero
        rw [zero, Nat.zero_sub, Nat.zero_mul] at far
        exact far (by decide)
      rcases innerProduct_reads second stepped _ several with ⟨y, read⟩
      have unchanged : (matmulShaped a b c tensors) b = tensors b := given.others b second
      rw [unchanged, toInt_small small, ← Nat.cast_mul, loadFrom_large _ _ (Nat.le_of_not_lt far)] at read
      cases read

/-! ## Exactly when products are computed -/

/-- Tensors of which the first element is one and the others are zero. -/
def units (shape : Nat → Fin 3 → UInt32) : Tensors α := fun a =>
  dimset
    { numDims := 0, dimension := ![0, 0, 0], value := (List.replicate (volume (shape a)) 0).set 0 1,
      sz := 0, b0 := 0, b1 := 0 }
    (shape a)

theorem units_length (shape : Nat → Fin 3 → UInt32) :
    ((units shape : Tensors α) a).value.length = volume (shape a) := by
  change ((List.replicate (volume (shape a)) (0 : α)).set 0 1).length = _
  rw [List.length_set, List.length_replicate]

theorem units_prepared {shape : Nat → Fin 3 → UInt32} (few : volume (shape a) < 2 ^ 32) :
    Prepared shape (units shape : Tensors α) a :=
  ⟨⟨_, _, rfl, few, Nat.le_of_eq (units_length shape).symm⟩, rfl⟩

theorem units_entry {shape : Nat → Fin 3 → UInt32} {k m n : Nat} (inside : Inside (shape a) k m n) :
    entry ((units shape : Tensors α) a) k m n = if place (shape a) k m n = 0 then 1 else 0 := by
  have there := place_lt inside
  have element : ((List.replicate (volume (shape a)) (0 : α)).set 0 1)[place (shape a) k m n]? =
      some (if place (shape a) k m n = 0 then 1 else 0) := by
    rw [List.getElem?_set]
    split
    · rename_i first
      rw [List.length_replicate, if_pos (Nat.lt_of_le_of_lt (Nat.zero_le _) there), if_pos first.symm]
    · rename_i later
      rw [if_neg (Ne.symm later), List.getElem?_replicate_of_lt there]
  exact congrArg (fun value : Option α => value.getD 0) element

/-- A sum of too many terms is zero. -/
theorem innerProduct_none {aFrom bFrom position : Nat} {aSkip bSkip len : Int} (negative : len < 0)
    (done : innerProduct a aFrom aSkip b bFrom bSkip len c position tensors = .ok after) :
    (after c).value[position]? = some 0 := by
  have none : len.toNat = 0 := Int.toNat_of_nonpos (Int.le_of_lt negative)
  rcases bind_ok done with ⟨cleared, stored, done⟩
  rw [none] at done
  cases done
  rw [put_value stored, if_pos rfl]

theorem Computes.product (builtC : (tensors c).Built)
    (multiplied : Multiplied (tensors a).dimension (tensors b).dimension (tensors c).dimension)
    (computes : Computes (Product a b c tensors) tensors (matmul a b c tensors)) :
    ∃ after, matmul a b c tensors = .ok (true, after) ∧ Product a b c tensors after := by
  have looped := matmul_looped builtC multiplied
  cases outcome : forEach (matmulValue a b c ((tensors a).dimension 2)) ((matmulShaped a b c tensors) c).cells 0
      (matmulShaped a b c tensors) with
  | error stop =>
      rw [outcome, error_bind] at looped
      have asserted := computes.failure stop looped
      rcases forEach_error outcome with ⟨cell, index, now, failed⟩
      have undefined := innerProduct_error failed
      rw [asserted] at undefined
      cases undefined
  | ok after =>
      rw [outcome, ok_bind] at looped
      exact ⟨after, looped, (computes.result _ looped).1 rfl⟩

theorem long_shape {x y z : Nat} (few : x * y * z < 2 ^ 32) (long : 2 ^ 31 ≤ z) (some' : 0 < x) (some'' : 0 < y) :
    x = 1 ∧ y = 1 := by
  have product : x * y = 1 := by
    have least : 0 < x * y := Nat.mul_pos some' some''
    by_contra several
    have twice : 2 * 2 ^ 31 ≤ x * y * z := Nat.mul_le_mul (by omega) long
    omega
  exact ⟨Nat.eq_one_of_mul_eq_one_right product, Nat.eq_one_of_mul_eq_one_left product⟩

theorem units_product {shape : Nat → Fin 3 → UInt32} (inner : shape a 2 = shape b 1) (positive0 : 0 < (shape a 0).toNat)
    (positive1 : 0 < (shape a 1).toNat) (positive2 : 0 < (shape a 2).toNat) (positive0' : 0 < (shape b 0).toNat)
    (positive2' : 0 < (shape b 2).toNat) :
    productEntry ((units shape : Tensors α) a) ((units shape : Tensors α) b) 0 0 0 = 1 := by
  have term : ∀ i < (shape a 2).toNat, entry ((units shape : Tensors α) a) 0 0 i * entry
    ((units shape : Tensors α) b) 0 i 0 =
      if i = 0 then 1 else 0 := by
    intro i below
    rw [units_entry ⟨positive0, positive1, below⟩, units_entry ⟨positive0', inner ▸ below, positive2'⟩, place,
      Nat.zero_mul,
      Nat.zero_add, Nat.zero_mul, Nat.zero_add]
    by_cases first : i = 0
    · have start : place (shape b) 0 i 0 = 0 := by rw [first, place, Nat.zero_mul, Nat.zero_add, Nat.zero_mul]
      rw [if_pos first, if_pos start, mul_one]
    · rw [if_neg first, zero_mul]
  change ∑ i ∈ Finset.range (shape a 2).toNat, _ = _
  rw [Finset.sum_congr rfl fun i isIn => term i (Finset.mem_range.mp isIn), Finset.sum_ite_eq']
  rw [if_pos (Finset.mem_range.mpr positive2)]

theorem matmul_long (done : matmul a b c tensors = .ok (true, after)) (long : 2 ^ 31 ≤ ((tensors a).dimension 2).toNat)
    (one0 : ((tensors a).dimension 0).toNat = 1) (one1 : ((tensors a).dimension 1).toNat = 1)
    (one2 : ((tensors b).dimension 2).toNat = 1) : (after c).value[0]? = some 0 := by
  have given : Reshaped c ![(tensors a).dimension 0, (tensors a).dimension 1, (tensors b).dimension 2] tensors
    (matmulShaped a b c tensors) := reshaped_update
  have looped := matmul_true done
  rw [Tensor.cells, given.dimension] at looped
  change forEach _ (KitTensor.cells ((tensors a).dimension 0).toNat ((tensors a).dimension 1).toNat
    ((tensors b).dimension 2).toNat) 0 _
    = _ at looped
  rw [one0, one1, one2] at looped
  rcases bind_ok looped with ⟨next, stepped, ended⟩
  cases ended
  exact innerProduct_none (toInt_large long) stepped

/-- Products of prepared tensors are computed, whatever their values are, only
if the shapes fit. -/
theorem Multiplied.fits [Nontrivial α] {shape : Nat → Fin 3 → UInt32}
    (multiplied : Multiplied (shape a) (shape b) (shape c)) (second : b ≠ c) (fewA : volume (shape a) < 2 ^ 32)
    (fewB : volume (shape b) < 2 ^ 32) (fewC : volume (shape c) < 2 ^ 32)
    (computes : Computes (Product a b c (units shape : Tensors α)) (units shape) (matmul a b c (units shape))) :
    ProductFits (shape a) (shape b) := by
  have builtC : ((units shape : Tensors α) c).Built := (units_prepared fewC).1
  rcases computes.product builtC multiplied with ⟨after, done, product⟩
  have size : volume ![shape a 0, shape a 1, shape b 2] < 2 ^ 32 := matmul_room builtC done (units_length shape)
  have positive : 0 < volume ![shape a 0, shape a 1, shape b 2] := by
    have computed : (shape a 0 * shape a 1 * shape b 2).toNat = volume ![shape a 0, shape a 1, shape b 2] :=
      toNat_volume size
    rw [← computed, multiplied.size]
    exact multiplied.positive
  have positive0 : 0 < (shape a 0).toNat := volume_positive positive 0
  have positive1 : 0 < (shape a 1).toNat := volume_positive positive 1
  have positive2 : 0 < (shape b 2).toNat := volume_positive positive 2
  have length : (shape a 2).toNat < 2 ^ 31 := by
    by_contra short
    have long := Nat.le_of_not_lt short
    rcases long_shape fewA long positive0 positive1 with ⟨one0, one1⟩
    have fewB' : (shape b 0).toNat * (shape b 2).toNat * (shape b 1).toNat < 2 ^ 32 := by
      rw [Nat.mul_right_comm]
      exact fewB
    rcases long_shape fewB' (multiplied.inner ▸ long) (multiplied.batch ▸ positive0) positive2 with ⟨-, one2⟩
    have isOne := product.element 0 0 0
    have isZero := matmul_long done long one0 one1 one2
    rw [product.dimension] at isOne
    have element := isOne ⟨positive0, positive1, positive2⟩
    rw [units_product multiplied.inner positive0 positive1 (Nat.lt_of_lt_of_le (by decide) long)
      (multiplied.batch ▸ positive0)
      positive2, place, Nat.zero_mul, Nat.zero_add, Nat.zero_mul] at element
    exact one_ne_zero (Option.some.inj (element.symm.trans isZero))
  refine ⟨size, length, ?_⟩
  by_cases small : (shape b 2).toNat < 2 ^ 31
  · exact matmul_near second done positive length small
  · have fewB' : (shape b 0).toNat * (shape b 1).toNat * (shape b 2).toNat < 2 ^ 32 := fewB
    rcases Nat.eq_zero_or_pos ((shape a 2).toNat - 1) with zero | several
    · rw [zero, Nat.zero_mul]
      decide
    · have one := (long_shape fewB' (Nat.le_of_not_lt small) (multiplied.batch ▸ positive0)
        (by rw [← multiplied.inner]; omega)).2
      rw [← multiplied.inner] at one
      omega

end

end KitTensor
end LibKit
