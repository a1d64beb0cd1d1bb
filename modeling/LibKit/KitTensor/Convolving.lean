import LibKit.KitTensor.Products

namespace LibKit
namespace KitTensor

/-!
# Convolutions

`kit_tensor_conv1d` computes each element of a convolution of prepared operands
as the sum over the window.  Its loops find the locations of the window by
adding the stride to an `unsigned`: unless the first location beyond the last
one can be told from a small number, they go on with locations that are none.
-/

/-! ## Locations -/

/-- The window fits at a location, as far as the loops can tell. -/
def Passes (kernel length stride start : UInt32) (turn : Nat) :
    Prop := start + UInt32.ofNat turn * stride + kernel ≤ length

instance (kernel length stride start : UInt32) (turn : Nat) : Decidable (Passes kernel length stride start turn) :=
  inferInstanceAs (Decidable (_ ≤ _))

section

variable {kernel length stride start : UInt32}

theorem passes_zero : Passes kernel length stride start 0 ↔ start + kernel ≤ length := by
  change start + 0 * stride + kernel ≤ length ↔ _
  rw [UInt32.zero_mul, UInt32.add_zero]

theorem passes_succ (turn : Nat) : Passes kernel length stride start (turn + 1) ↔
    Passes kernel length stride (start + stride) turn := by
  rw [Passes, Passes, UInt32.ofNat_add, UInt32.ofNat_one, UInt32.add_mul, UInt32.one_mul,
    UInt32.add_comm (UInt32.ofNat turn * stride), ← UInt32.add_assoc start]

/-- The loop that counts, and the loop that computes, take the same turns. -/
theorem countUnfolds_eq (fuel : Nat) (i : Int32) (unfolds : UInt32) :
    countUnfolds kernel length stride fuel i unfolds =
      (foldLocations kernel length stride fuel i.toUInt32).map fun locations => unfolds +
        UInt32.ofNat locations.length := by
  induction fuel generalizing i unfolds with
  | zero => rfl
  | succ fuel ih =>
      rw [countUnfolds, foldLocations]
      split
      · rw [ih, UInt32.toUInt32_toInt32]
        cases foldLocations kernel length stride fuel (i.toUInt32 + stride) with
        | none => rfl
        | some rest =>
            change some _ = some _
            apply congrArg some
            simp only [List.length_cons, UInt32.ofNat_add, UInt32.ofNat_one, UInt32.add_assoc, UInt32.add_comm 1]
      · exact congrArg some (UInt32.add_zero unfolds).symm

/-- The locations up to the first one that does not pass. -/
theorem foldLocations_some {fuel count : Nat} (passed : ∀ turn < count, Passes kernel length stride start turn)
    (ended : ¬ Passes kernel length stride start count) (enough : count < fuel) :
    foldLocations kernel length stride fuel start = some
      ((List.range count).map fun turn => start + UInt32.ofNat turn * stride) := by
  induction fuel generalizing count start with
  | zero => exact absurd enough (Nat.not_lt_zero count)
  | succ fuel ih =>
      rw [foldLocations]
      cases count with
      | zero =>
          rw [passes_zero] at ended
          rw [if_neg ended]
          rfl
      | succ count =>
          have first := passes_zero.mp (passed 0 (Nat.succ_pos count))
          have rest := @ih (start + stride) count (fun turn below => (passes_succ turn).mp
            (passed (turn + 1) (Nat.succ_lt_succ below)))
            (fun passes => ended ((passes_succ count).mpr passes)) (Nat.lt_of_succ_lt_succ enough)
          have start' : start + UInt32.ofNat 0 * stride = start := by
            change start + 0 * stride = start
            rw [UInt32.zero_mul, UInt32.add_zero]
          rw [if_pos first, rest, List.range_succ_eq_map, List.map_cons, List.map_map, start']
          apply congrArg some
          congr 1
          apply List.map_congr_left
          intro turn _
          rw [Function.comp_apply, Nat.succ_eq_add_one, UInt32.ofNat_add, UInt32.ofNat_one, UInt32.add_mul,
            UInt32.one_mul,
            UInt32.add_assoc, UInt32.add_comm stride]

theorem foldLocations_cases (fuel : Nat) (start : UInt32) :
    (∀ turn < fuel, Passes kernel length stride start turn) ∧ foldLocations kernel length stride fuel start = none ∨
      ∃ count < fuel, (∀ turn < count, Passes kernel length stride start turn) ∧
        ¬ Passes kernel length stride start count := by
  by_cases all : ∀ turn < fuel, Passes kernel length stride start turn
  · refine Or.inl ⟨all, ?_⟩
    induction fuel generalizing start with
    | zero => rfl
    | succ fuel ih =>
        have first := passes_zero.mp (all 0 (Nat.succ_pos fuel))
        rw [foldLocations, if_pos first, ih]
        · rfl
        · intro turn below
          exact (passes_succ turn).mp (all (turn + 1) (Nat.succ_lt_succ below))
  · apply Or.inr
    rw [not_forall] at all
    have first := Nat.find_spec all
    rw [Classical.not_imp] at first
    refine ⟨Nat.find all, first.1, ?_, first.2⟩
    intro turn early
    have passes := Nat.find_min all early
    rw [not_not] at passes
    exact passes (Nat.lt_trans early first.1)

/-- The number of locations of a window in a row. -/
def foldCount (kernel length stride : UInt32) : Nat :=
  if kernel.toNat ≤ length.toNat then (length.toNat - kernel.toNat) / stride.toNat + 1 else 0

/-- The end of the window at the first location beyond the last one is an
`unsigned`. -/
def FoldFits (kernel length stride : UInt32) : Prop :=
    foldCount kernel length stride * stride.toNat + kernel.toNat < 2 ^ 32

theorem lt_foldCount (positive : 0 < stride.toNat) (j : Nat) :
    j < foldCount kernel length stride ↔ j * stride.toNat + kernel.toNat ≤ length.toNat := by
  rw [foldCount]
  split
  · rw [Nat.lt_succ_iff, Nat.le_div_iff_mul_le positive]
    omega
  · omega

theorem passes_iff (turn : Nat) :
    Passes kernel length stride 0 turn ↔ (turn * stride.toNat + kernel.toNat) % 2 ^ 32 ≤ length.toNat := by
  rw [Passes, UInt32.zero_add, UInt32.le_iff_toNat_le, UInt32.toNat_add, UInt32.toNat_mul, UInt32.toNat_ofNat',
    Nat.mod_mul_mod,
    Nat.mod_add_mod]

/-- The location at which the loops stop: the window is too long there, modulo
2^32. -/
def Stops (kernel length stride : UInt32) (count : Nat) : Prop :=
  (∀ j < count, (j * stride.toNat + kernel.toNat) % 2 ^ 32 ≤ length.toNat) ∧
    length.toNat < (count * stride.toNat + kernel.toNat) % 2 ^ 32

theorem Stops.unique {count other : Nat} (stops : Stops kernel length stride count)
    (stops' : Stops kernel length stride other) :
    count = other := by
  rcases Nat.lt_trichotomy count other with below | same | above
  · exact absurd (stops'.1 count below) (Nat.not_le_of_lt stops.2)
  · exact same
  · exact absurd (stops.1 other above) (Nat.not_le_of_lt stops'.2)

/-- The locations come round after 2^32 turns. -/
theorem Stops.lt {count : Nat} (stops : Stops kernel length stride count) : count < 2 ^ 32 := by
  by_contra late
  have again : (count * stride.toNat + kernel.toNat) % 2 ^ 32 =
    ((count - 2 ^ 32) * stride.toNat + kernel.toNat) % 2 ^ 32 := by
    have split : count * stride.toNat = 2 ^ 32 * stride.toNat + (count - 2 ^ 32) * stride.toNat := by
      rw [← Nat.add_mul, Nat.add_sub_cancel' (Nat.le_of_not_lt late)]
    rw [split, Nat.add_assoc, Nat.mul_add_mod]
  have ended := stops.2
  rw [again] at ended
  exact absurd (stops.1 (count - 2 ^ 32) (by omega)) (Nat.not_le_of_lt ended)

theorem foldLocations_stops (count : Nat) : Stops kernel length stride count ↔
    ∃ locations, foldLocations kernel length stride (2 ^ 32) 0 = some locations ∧ locations.length = count := by
  have reaches {count : Nat} (stops : Stops kernel length stride count) :
      ∃ locations, foldLocations kernel length stride (2 ^ 32) 0 = some locations ∧ locations.length = count := by
    refine ⟨_, foldLocations_some (fun j early => (passes_iff j).mpr (stops.1 j early)) ?_ stops.lt, ?_⟩
    · rw [passes_iff]
      exact Nat.not_le_of_lt stops.2
    · rw [List.length_map, List.length_range]
  refine ⟨reaches, ?_⟩
  rintro ⟨locations, found, rfl⟩
  rcases foldLocations_cases (2 ^ 32) 0 with ⟨-, none⟩ | ⟨last, -, passed, ended⟩
  · rw [found] at none
    cases none
  · have stops : Stops kernel length stride last :=
      ⟨fun j early => (passes_iff j).mp (passed j early),
        Nat.lt_of_not_le fun passes => ended ((passes_iff last).mpr passes)⟩
    rcases reaches stops with ⟨others, found', length⟩
    rw [found, Option.some_inj] at found'
    rwa [found', length]

theorem FoldFits.locations (positive : 0 < stride.toNat) (fits : FoldFits kernel length stride) :
    foldLocations kernel length stride (2 ^ 32) 0 =
      some ((List.range (foldCount kernel length stride)).map fun j => UInt32.ofNat j * stride) := by
  have small : ∀ j ≤ foldCount kernel length stride, j * stride.toNat + kernel.toNat < 2 ^ 32 := by
    intro j early
    exact Nat.lt_of_le_of_lt (Nat.add_le_add_right (Nat.mul_le_mul_right _ early) _) fits
  have few : foldCount kernel length stride < 2 ^ 32 :=
    Nat.lt_of_le_of_lt (Nat.le_trans (Nat.le_mul_of_pos_right _ positive) (Nat.le_add_right _ _)) fits
  have found := @foldLocations_some kernel length stride 0 (2 ^ 32) (foldCount kernel length stride) ?_ ?_ few
  · rw [found]
    simp only [UInt32.zero_add]
  · intro j below
    rw [passes_iff, Nat.mod_eq_of_lt (small j (Nat.le_of_lt below))]
    exact (lt_foldCount positive j).mp below
  · rw [passes_iff, Nat.mod_eq_of_lt (small _ (Nat.le_refl _)), ← lt_foldCount positive]
    exact Nat.lt_irrefl _

theorem Stops.wrapped (positive : 0 < stride.toNat) (wraps : ¬ FoldFits kernel length stride) {count : Nat}
    (stops : Stops kernel length stride count) : foldCount kernel length stride < count := by
  have ended := stops.2
  by_contra early
  rcases Nat.lt_or_eq_of_le (Nat.le_of_not_lt early) with earlier | rfl
  · have inside := (lt_foldCount positive count).mp earlier
    rw [Nat.mod_eq_of_lt (Nat.lt_of_le_of_lt inside length.toNat_lt)] at ended
    exact absurd inside (Nat.not_le_of_lt ended)
  · rw [FoldFits] at wraps
    have stepped := stride.toNat_lt
    have windowed := kernel.toNat_lt
    have ranged := length.toNat_lt
    cases counted : foldCount kernel length stride with
    | zero =>
        rw [counted, Nat.zero_mul] at wraps
        omega
    | succ last =>
        have inside := (lt_foldCount positive last).mp (by rw [counted]; exact Nat.lt_succ_self last)
        rw [counted, Nat.succ_mul] at ended wraps
        omega

end

/-! ## Sums over a window -/

section

variable {α : Type} [CommRing α] {a b c : Nat} {stride : UInt32} {tensors after : Tensors α}

/-- An element of the convolution of two tensors. -/
def convEntry (a b : Tensor α) (stride : UInt32) (t k j : Nat) : α :=
  ∑ m ∈ Finset.range (a.dimension 1).toNat, ∑ n ∈ Finset.range (a.dimension 2).toNat,
    entry a k m n * entry b t m (j * stride.toNat + n)

/-- The output is the convolution of the operands; nothing but its values
changed. -/
structure Convolution (a b : Nat) (stride : UInt32) (c : Nat) (before after : Tensors α) : Prop where
  framed : Framed c before after
  positions : ∀ j, j < ((after c).dimension 2).toNat ↔
    j * stride.toNat + ((before a).dimension 2).toNat ≤ ((before b).dimension 2).toNat
  element : ∀ t k j, Inside (after c).dimension t k j →
    (after c).value[place (after c).dimension t k j]? = some (convEntry (before a) (before b) stride t k j)
  read : ∀ t k j : UInt32, Inside (after c).dimension t.toNat k.toNat j.toNat →
    getKMN (after c) t k j = .ok (convEntry (before a) (before b) stride t.toNat k.toNat j.toNat)

theorem windows_sum (d1 d2 : Nat) (term : Nat × Nat → α) :
    ((windows d1 d2).map term).sum = ∑ m ∈ Finset.range d1, ∑ n ∈ Finset.range d2, term (m, n) := by
  have row : ∀ m, ((List.map (fun n => (m, n)) (List.range d2)).map term).sum = ∑ n ∈ Finset.range d2, term (m, n) := by
    intro m
    rw [List.map_map]
    rfl
  rw [windows, List.map_flatMap, List.flatMap, List.sum_flatten, List.map_map, ← sum_range]
  congr 1
  apply List.map_congr_left
  intro m _
  exact row m

theorem mem_windows {d1 d2 : Nat} {window : Nat × Nat} : window ∈ windows d1 d2 ↔ window.1 < d1 ∧ window.2 < d2 := by
  simp only [windows, List.mem_flatMap, List.mem_map, List.mem_range, Prod.ext_iff]
  refine ⟨?_, fun inside => ⟨window.1, inside.1, window.2, inside.2, rfl, rfl⟩⟩
  rintro ⟨m, below, n, below', rfl, rfl⟩
  exact ⟨below, below'⟩

/-- An element of a convolution is stored. -/
theorem convValue_stores {x y : Tensor α} (isX : tensors a = x) (isY : tensors b = y) (first : a ≠ c)
    (second : b ≠ c) (builtX : x.Built) (builtY : y.Built) (kernels : x.dimension 1 = y.dimension 1)
    {t k j : Nat} {foldloc index : UInt32} (insideT : t < (y.dimension 0).toNat)
    (insideK : k < (x.dimension 0).toNat) (location : foldloc.toNat = j * stride.toNat)
    (insideJ : j * stride.toNat + (x.dimension 2).toNat ≤ (y.dimension 2).toNat)
    (room : index.toNat < (tensors c).value.length) :
    ∃ next, convValue a b c (t, k, foldloc) index tensors = .ok next ∧ Framed c tensors next ∧
      (next c).value[index.toNat]? = some (convEntry x y stride t k j) ∧
      ∀ other, other ≠ index.toNat → (next c).value[other]? = (tensors c).value[other]? := by
  rcases put_some (0 : α) room with ⟨cleared, stored⟩
  have framed := put_framed stored
  have here : (cleared c).value[index.toNat]? = some 0 := by rw [put_value stored, if_pos rfl]
  have isX' : cleared a = x := (framed.others a first).trans isX
  have summed := @forEach_sums α _ _ (convTerm a b c (UInt32.ofNat t) (UInt32.ofNat k) foldloc index)
    (windows (x.dimension 1).toNat (x.dimension 2).toNat) cleared c index.toNat
    (fun window => entry x k window.1 window.2 * entry y t window.1 (j * stride.toNat + window.2)) 0 here ?_
  · rcases summed with ⟨after, looped, framed', sum, others⟩
    refine ⟨after, ?_, framed.trans framed', ?_, ?_⟩
    · rw [convValue, stored, ok_bind, isX']
      exact looped
    · rw [sum, zero_add, windows_sum]
      rfl
    · intro other differs
      rw [others other differs, put_value stored, if_neg differs]
  · rintro ⟨m, n⟩ counter now isWindow framed'
    rcases mem_windows.mp isWindow with ⟨insideM, insideN⟩
    have nowX : now a = x := ((framed.trans framed').others a first).trans isX
    have nowY : now b = y := ((framed.trans framed').others b second).trans isY
    have isT : (UInt32.ofNat t).toNat = t := ofNat_toNat insideT (UInt32.toNat_lt _)
    have isK : (UInt32.ofNat k).toNat = k := ofNat_toNat insideK (UInt32.toNat_lt _)
    have isM : (UInt32.ofNat m).toNat = m := ofNat_toNat insideM (UInt32.toNat_lt _)
    have isN : (UInt32.ofNat n).toNat = n := ofNat_toNat insideN (UInt32.toNat_lt _)
    have cell : Inside x.dimension k m n := ⟨insideK, insideM, insideN⟩
    have column : j * stride.toNat + n < (y.dimension 2).toNat := by
      change n < (x.dimension 2).toNat at insideN
      omega
    have cell' : Inside y.dimension t m (j * stride.toNat + n) := ⟨insideT, kernels ▸ insideM, column⟩
    have isColumn : (foldloc + UInt32.ofNat n).toNat = j * stride.toNat + n := by
      rw [UInt32.toNat_add, location, isN, Nat.mod_eq_of_lt (Nat.lt_trans column (UInt32.toNat_lt _))]
    have readX : (dotp2 x.b0 x.b1 (UInt32.ofNat k) (UInt32.ofNat m) + UInt32.ofNat n).toNat =
      place x.dimension k m n := by
      have read := builtX.consistent.reads (UInt32.ofNat k) (UInt32.ofNat m) (UInt32.ofNat n)
      rw [isK, isM, isN] at read
      exact read cell
    have readY : (dotp2 y.b0 y.b1 (UInt32.ofNat t) (UInt32.ofNat m) + foldloc + UInt32.ofNat n).toNat =
        place y.dimension t m (j * stride.toNat + n) := by
      have read := builtY.consistent.reads (UInt32.ofNat t) (UInt32.ofNat m) (foldloc + UInt32.ofNat n)
      rw [isT, isM, isColumn] at read
      rw [UInt32.add_assoc]
      exact read cell'
    rw [convTerm, nowX, nowY]
    simp only
    rw [readX, readY, load_entry builtX.allocated cell, load_entry builtY.allocated cell']
    rfl

/-! ## `kit_tensor_conv1d` -/

/-- The shapes fit together, and the output has an element for each location. -/
structure Convolved (a b c : Fin 3 → UInt32) (locations : List UInt32) : Prop where
  channels : a 0 = b 1
  square : a 0 = a 1
  output : a 0 = c 1
  length : c 2 = UInt32.ofNat locations.length
  batch : b 0 = c 0

/-- The shapes are not refused: they fit together, and so does the output if the
loops stop. -/
structure Folded (a b c : Fin 3 → UInt32) (stride : UInt32) : Prop where
  channels : a 0 = b 1
  square : a 0 = a 1
  output : a 0 = c 1
  sizes : ∀ count, Stops (a 2) (b 2) stride count → count = (c 2).toNat ∧ b 0 = c 0

/-- What a call can do. -/
theorem conv1d_cases (a b : Nat) (stride : UInt32) (c : Nat) (tensors : Tensors α) :
    (¬ Folded (tensors a).dimension (tensors b).dimension (tensors c).dimension stride ∧
      conv1d a b stride c tensors = .ok (false, tensors)) ∨
    Folded (tensors a).dimension (tensors b).dimension (tensors c).dimension stride ∧
      (foldLocations ((tensors a).dimension 2) ((tensors b).dimension 2) stride (2 ^ 32) 0 = none ∧
        conv1d a b stride c tensors = .error .undefined ∨
      ∃ locations, foldLocations ((tensors a).dimension 2) ((tensors b).dimension 2) stride (2 ^ 32) 0 =
        some locations ∧
        Convolved (tensors a).dimension (tensors b).dimension (tensors c).dimension locations ∧
        conv1d a b stride c tensors =
          (forEach (convValue a b c) (convCells ((tensors b).dimension 0).toNat
          ((tensors a).dimension 0).toNat locations) 0 tensors >>=
            fun tensors => .ok (true, tensors))) := by
  have counted := @countUnfolds_eq ((tensors a).dimension 2) ((tensors b).dimension 2) stride (2 ^ 32) 0 0
  change _ = (foldLocations _ _ _ _ 0).map _ at counted
  rw [conv1d]
  split
  · rename_i differ
    refine Or.inl ⟨fun folded => ?_, rfl⟩
    rcases differ with channels | square | output
    · exact channels folded.channels
    · exact square folded.square
    · exact output folded.output
  · rename_i shapes
    rw [not_or, not_or, not_not, not_not, not_not] at shapes
    rcases shapes with ⟨channels, square, output⟩
    have stopped := @foldLocations_stops ((tensors a).dimension 2) ((tensors b).dimension 2) stride
    rw [counted]
    cases found : foldLocations ((tensors a).dimension 2) ((tensors b).dimension 2) stride (2 ^ 32) 0 with
    | none =>
        refine Or.inr ⟨⟨channels, square, output, fun count stops => ?_⟩, Or.inl ⟨rfl, rfl⟩⟩
        rcases (stopped count).mp stops with ⟨locations, found', -⟩
        rw [found] at found'
        cases found'
    | some locations =>
        have stops := (stopped locations.length).mpr ⟨locations, found, rfl⟩
        rw [Option.map_some]
        simp only [UInt32.zero_add]
        split
        · rename_i differ
          refine Or.inl ⟨fun folded => ?_, rfl⟩
          have sizes := folded.sizes locations.length stops
          rcases differ with length | batch
          · exact length (by rw [sizes.1, UInt32.ofNat_toNat])
          · exact batch sizes.2
        · rename_i sizes
          rw [not_or, not_not, not_not] at sizes
          refine Or.inr ⟨⟨channels, square, output, fun count stops' => ?_⟩,
            Or.inr ⟨locations, rfl, ⟨channels, square, output, sizes.1.symm, sizes.2⟩, rfl⟩⟩
          rw [stops'.unique stops, ← sizes.1, UInt32.toNat_ofNat_of_lt' stops.lt]
          exact ⟨rfl, sizes.2⟩

theorem convCells_map (batchItems kernels count : Nat) (location : Nat → UInt32) :
    convCells batchItems kernels ((List.range count).map location) =
      (KitTensor.cells batchItems kernels count).map fun cell => (cell.1, cell.2.1, location cell.2.2) := by
  simp only [convCells, KitTensor.cells, List.map_flatMap, List.map_map]
  rfl

theorem convolved_stores (first : a ≠ c) (second : b ≠ c) (builtA : (tensors a).Built) (builtB : (tensors b).Built)
    (builtC : (tensors c).Built) (positive : 0 < stride.toNat)
    (fits : FoldFits ((tensors a).dimension 2) ((tensors b).dimension 2) stride) {locations : List UInt32}
    (found : foldLocations ((tensors a).dimension 2) ((tensors b).dimension 2) stride (2 ^ 32) 0 = some locations)
    (convolved : Convolved (tensors a).dimension (tensors b).dimension (tensors c).dimension locations) :
    ∃ after, forEach (convValue a b c) (convCells ((tensors b).dimension 0).toNat
      ((tensors a).dimension 0).toNat locations) 0 tensors =
      .ok after ∧ Convolution a b stride c tensors after := by
  rw [fits.locations positive, Option.some_inj] at found
  have few : foldCount ((tensors a).dimension 2) ((tensors b).dimension 2) stride < 2 ^ 32 :=
    Nat.lt_of_le_of_lt (Nat.le_trans (Nat.le_mul_of_pos_right _ positive) (Nat.le_add_right _ _)) fits
  have count : ((tensors c).dimension 2).toNat = foldCount ((tensors a).dimension 2)
    ((tensors b).dimension 2) stride := by
    rw [convolved.length, ← found, List.length_map, List.length_range, UInt32.toNat_ofNat_of_lt' few]
  have inside : ∀ j, j < ((tensors c).dimension 2).toNat ↔
      j * stride.toNat + ((tensors a).dimension 2).toNat ≤ ((tensors b).dimension 2).toNat := by
    intro j
    rw [count]
    exact lt_foldCount positive j
  rw [← found, convCells_map, forEach_map, convolved.output, convolved.batch, ← count]
  have filled := @forEach_fills α _ (fun cell => convValue a b c (cell.1, cell.2.1, UInt32.ofNat cell.2.2 * stride))
    (tensors c).cells tensors c (fun cell => convEntry (tensors a) (tensors b) stride cell.1 cell.2.1 cell.2.2) ?_
  · rcases filled with ⟨after, looped, framed, stored, -⟩
    have element : ∀ t k j, Inside (after c).dimension t k j →
        (after c).value[place (after c).dimension t k j]? = some (convEntry (tensors a) (tensors b) stride t k j) := by
      intro t k j cell
      rw [framed.dimension] at cell ⊢
      exact stored _ (t, k, j) (cells_place cell)
    refine ⟨after, looped, framed, ?_, element, ?_⟩
    · rw [framed.dimension]
      exact inside
    · intro t k j cell
      have fits' : Fits (after c) (after c).dimension := by
        rw [framed.dimension, framed.fields]
        exact builtC.consistent.fits.congr rfl rfl rfl
      rw [getKMN, fits'.reads cell]
      exact load_some (element _ _ _ cell)
  · intro turn cell now isCell framed
    rcases cells_getElem _ isCell with ⟨below, rfl⟩
    have index : (UInt32.ofNat turn).toNat = turn := ofNat_toNat below builtC.size
    rcases cellAt_inside below with ⟨insideT, insideK, insideJ⟩
    have window := (inside _).mp insideJ
    have room : (UInt32.ofNat turn).toNat < (now c).value.length := by
      rw [index, framed.length]
      exact Nat.lt_of_lt_of_le below builtC.allocated
    have near : UInt32.toNat (UInt32.ofNat (cellAt ((tensors c).dimension 1).toNat
      ((tensors c).dimension 2).toNat turn).2.2 * stride) =
        (cellAt ((tensors c).dimension 1).toNat ((tensors c).dimension 2).toNat turn).2.2 * stride.toNat := by
      rw [UInt32.toNat_mul, UInt32.toNat_ofNat_of_lt' (Nat.lt_trans insideJ (UInt32.toNat_lt _)), Nat.mod_eq_of_lt]
      exact Nat.lt_of_le_of_lt (Nat.le_trans (Nat.le_add_right _ _) window) (UInt32.toNat_lt _)
    have batch := Nat.lt_of_lt_of_eq insideT (congrArg UInt32.toNat convolved.batch.symm)
    have kernel := Nat.lt_of_lt_of_eq insideK (congrArg UInt32.toNat convolved.output.symm)
    have stores := convValue_stores (framed.others a first) (framed.others b second) first second builtA builtB
      (convolved.square.symm.trans convolved.channels) batch kernel near window room
    rw [index] at stores
    exact stores

theorem convValue_undefined {cell : Nat × Nat × UInt32} {index : UInt32} {stop : Stop}
    (stopped : convValue a b c cell index tensors = .error stop) : stop = .undefined := by
  rw [convValue] at stopped
  rcases bind_error stopped with outside | ⟨next, -, looped⟩
  · exact put_undefined outside
  · refine forEach_undefined ?_ looped
    intro window counter now stop failed
    rw [convTerm] at failed
    rcases bind_error failed with first | ⟨x, -, failed⟩
    · exact load_undefined first
    · rcases bind_error failed with second | ⟨y, -, failed⟩
      · exact load_undefined second
      · rw [addTo] at failed
        rcases bind_error failed with sum | ⟨total, -, failed⟩
        · exact load_undefined sum
        · exact put_undefined failed

/-- `kit_tensor_conv1d` computes the convolution, or refuses shapes that do not
fit together, if and only if the loops can tell the locations of shapes that do. -/
theorem conv1d_computes (first : a ≠ c) (second : b ≠ c) (builtA : (tensors a).Built) (builtB : (tensors b).Built)
    (builtC : (tensors c).Built) (positive : 0 < stride.toNat) :
    Computes (Convolution a b stride c tensors) tensors (conv1d a b stride c tensors) ↔
      (Folded (tensors a).dimension (tensors b).dimension (tensors c).dimension stride →
        FoldFits ((tensors a).dimension 2) ((tensors b).dimension 2) stride) := by
  rcases conv1d_cases a b stride c tensors with ⟨unfit, refused⟩ |
    ⟨folded, ⟨never, stuck⟩ | ⟨locations, found, convolved, looped⟩⟩
  · rw [refused]
    exact iff_of_true (Ensures.of_ok ⟨fun wrong => (by cases wrong), fun _ => rfl⟩) fun folded => absurd folded unfit
  · rw [stuck]
    refine iff_of_false (fun computes => absurd (computes.failure _ rfl) (by decide)) fun fits => ?_
    rw [(fits folded).locations positive] at never
    cases never
  · rw [looped]
    constructor
    · intro computes _
      by_contra wraps
      have stops := (foldLocations_stops locations.length).mpr ⟨locations, found, rfl⟩
      cases done : forEach (convValue a b c) (convCells ((tensors b).dimension 0).toNat
        ((tensors a).dimension 0).toNat locations) 0 tensors with
      | error stop =>
          rw [done] at computes
          have undefined := forEach_undefined (fun _ _ _ _ => convValue_undefined) done
          exact absurd (undefined.symm.trans (computes.failure _ rfl)) (by decide)
      | ok after =>
          rw [done] at computes
          have convolution := (computes.result _ rfl).1 rfl
          have counted := convolution.positions (foldCount ((tensors a).dimension 2) ((tensors b).dimension 2) stride)
          rw [convolution.framed.dimension, convolved.length, UInt32.toNat_ofNat_of_lt' stops.lt,
            ← lt_foldCount positive] at counted
          exact Nat.lt_irrefl _ (counted.mp (stops.wrapped positive wraps))
    · intro fits
      rcases convolved_stores first second builtA builtB builtC positive (fits folded) found convolved with
        ⟨after, stored, convolution⟩
      rw [stored]
      exact Ensures.of_ok ⟨fun _ => convolution, fun wrong => (by cases wrong)⟩

end

/-! ## Matrix products and convolutions -/

section

variable (α : Type) [CommRing α]

/-- Prepared tensors are multiplied, whatever their values are, if and only if
their shapes fit when they can be multiplied; and they are convolved if and only
if the loops can tell the locations when the shapes are not refused. -/
theorem products_computed [Nontrivial α] :
    (∀ (shape : Nat → Fin 3 → UInt32) (a b c : Nat), a ≠ c → b ≠ c →
      volume (shape a) < 2 ^ 32 → volume (shape b) < 2 ^ 32 → volume (shape c) < 2 ^ 32 →
      ((∀ tensors : Tensors α, Prepared shape tensors a → Prepared shape tensors b → Prepared shape tensors c →
          Computes (Product a b c tensors) tensors (matmul a b c tensors)) ↔
        (Multiplied (shape a) (shape b) (shape c) → ProductFits (shape a) (shape b)))) ∧
    ∀ (tensors : Tensors α) (a b c : Nat) (stride : UInt32), a ≠ c → b ≠ c →
      (tensors a).Built → (tensors b).Built → (tensors c).Built → 0 < stride.toNat →
      (Computes (Convolution a b stride c tensors) tensors (conv1d a b stride c tensors) ↔
        (Folded (tensors a).dimension (tensors b).dimension (tensors c).dimension stride →
          FoldFits ((tensors a).dimension 2) ((tensors b).dimension 2) stride)) := by
  refine ⟨?_, ?_⟩
  · intro shape a b c first second fewA fewB fewC
    refine ⟨?_, ?_⟩
    · intro computes multiplied
      exact multiplied.fits second fewA fewB fewC
        (computes (units shape) (units_prepared fewA) (units_prepared fewB) (units_prepared fewC))
    · rintro fits tensors ⟨builtA, isA⟩ ⟨builtB, isB⟩ ⟨builtC, isC⟩
      apply matmul_computes first second builtA builtB builtC
      rw [isA, isB, isC]
      exact fits
  · intro tensors a b c stride first second builtA builtB builtC positive
    exact conv1d_computes first second builtA builtB builtC positive

end

/-- A matrix with two rows, one with three, and one for the product. -/
def productShape (a : Nat) : Fin 3 → UInt32 := if a = 0 then ![1, 2, 3] else if a = 1 then ![1, 3, 2] else ![1, 2, 2]

/-- A window of two, a row of five, and a row for the convolution. -/
def convolutionShape (a : Nat) : Fin 3 → UInt32 := if a = 0 then ![1, 1, 2] else if a = 1 then ![1, 1, 5]
    else ![1, 1, 2]

theorem products_computed_units :
    Computes (Product 0 1 2 (units productShape : Tensors Int)) (units productShape)
      (matmul 0 1 2 (units productShape)) ∧
      Computes (Convolution 0 1 2 2 (units convolutionShape : Tensors Int)) (units convolutionShape)
        (conv1d 0 1 2 2 (units convolutionShape)) := by
  refine ⟨?_, ?_⟩
  · apply ((products_computed Int).1 productShape 0 1 2 (by decide) (by decide) (by decide) (by decide) (by decide)).mpr
    · exact fun _ => ⟨by decide, by decide, by decide⟩
    · exact units_prepared (by decide)
    · exact units_prepared (by decide)
    · exact units_prepared (by decide)
  · apply ((products_computed Int).2 (units convolutionShape) 0 1 2 2 (by decide) (by decide)
      (units_prepared (by decide)).1
      (units_prepared (by decide)).1 (units_prepared (by decide)).1 (by decide)).mpr
    intro _
    change foldCount 2 5 2 * 2 + 2 < 2 ^ 32
    decide

/-- A row and a column with more entries than an `int` counts. -/
def longShape (a : Nat) : Fin 3 → UInt32 := if a = 0 then ![1, 1, 2 ^ 31] else if a = 1 then ![1, 2 ^ 31, 1]
    else ![1, 1, 1]

/-- The product of the row by the column is not computed. -/
theorem matmul_long_row :
    Prepared longShape (units longShape : Tensors Int) 0 ∧ Prepared longShape (units longShape : Tensors Int) 1 ∧
      Prepared longShape (units longShape : Tensors Int) 2 ∧
      ¬ Computes (Product 0 1 2 (units longShape : Tensors Int)) (units longShape)
        (matmul 0 1 2 (units longShape)) := by
  have few0 : volume (longShape 0) < 2 ^ 32 := by decide
  have few1 : volume (longShape 1) < 2 ^ 32 := by decide
  have few2 : volume (longShape 2) < 2 ^ 32 := by decide
  refine ⟨units_prepared few0, units_prepared few1, units_prepared few2, ?_⟩
  intro computes
  have multiplied : Multiplied (longShape 0) (longShape 1) (longShape 2) := ⟨by decide, by decide, by decide, by decide⟩
  exact absurd (multiplied.fits (by decide) few0 few1 few2 computes).length (by decide)

end KitTensor
end LibKit
