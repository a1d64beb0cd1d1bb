import LibKit.KitTensor.Model
import LibKit.Support.Results

namespace LibKit
namespace KitTensor

/-!
# Loops over the values of a tensor

The loops of an operation change values of its output, and nothing else.  The
triples of loop variables come in the order of the positions at which their
elements are stored.
-/

variable {α : Type}

/-! ## Loops -/

theorem forEach_invariant {ι : Type} {body : ι → UInt32 → Tensors α → Except Stop (Tensors α)}
    (inv : Nat → Tensors α → Prop) {list : List ι} {start after : Tensors α}
    (turn : ∀ turn i tensors next, list[turn]? = some i → inv turn tensors →
      body i (UInt32.ofNat turn) tensors = .ok next → inv (turn + 1) next)
    (initial : inv 0 start) (done : forEach body list 0 start = .ok after) : inv list.length after := by
  have from_turn : ∀ (rest past : List ι) (tensors : Tensors α), list = past ++ rest → inv past.length tensors →
      forEach body rest (UInt32.ofNat past.length) tensors = .ok after → inv list.length after := by
    intro rest
    induction rest with
    | nil =>
        intro past tensors split holds ended
        cases ended
        rwa [split, List.append_nil]
    | cons i rest ih =>
        intro past tensors split holds ended
        rcases bind_ok ended with ⟨next, stepped, ended⟩
        have isNext : list[past.length]? = some i := by
          rw [split, List.getElem?_append_right (Nat.le_refl _), Nat.sub_self, List.getElem?_cons_zero]
        apply ih (past ++ [i]) next
        · rw [split, List.append_assoc, List.singleton_append]
        · rw [List.length_append, List.length_singleton]
          exact turn _ _ _ _ isNext holds stepped
        · rw [List.length_append, List.length_singleton, UInt32.ofNat_add]
          exact ended
  exact from_turn list [] start rfl initial done

/-- A loop of which every turn can be taken. -/
theorem forEach_ok {ι : Type} {body : ι → UInt32 → Tensors α → Except Stop (Tensors α)} (inv : Nat → Tensors α → Prop)
    {list : List ι} {start : Tensors α}
    (turn : ∀ turn i tensors, list[turn]? = some i → inv turn tensors →
      ∃ next, body i (UInt32.ofNat turn) tensors = .ok next ∧ inv (turn + 1) next)
    (initial : inv 0 start) : ∃ after, forEach body list 0 start = .ok after ∧ inv list.length after := by
  have from_turn : ∀ (rest past : List ι) (tensors : Tensors α), list = past ++ rest → inv past.length tensors →
      ∃ after, forEach body rest (UInt32.ofNat past.length) tensors = .ok after ∧ inv list.length after := by
    intro rest
    induction rest with
    | nil =>
        intro past tensors split holds
        rw [split, List.append_nil]
        exact ⟨tensors, rfl, holds⟩
    | cons i rest ih =>
        intro past tensors split holds
        have isNext : list[past.length]? = some i := by
          rw [split, List.getElem?_append_right (Nat.le_refl _), Nat.sub_self, List.getElem?_cons_zero]
        rcases turn _ _ _ isNext holds with ⟨next, stepped, holds'⟩
        have length : (past ++ [i]).length = past.length + 1 := by rw [List.length_append, List.length_singleton]
        rcases ih (past ++ [i]) next (by rw [split, List.append_assoc, List.singleton_append])
          (by rw [length]; exact holds') with
          ⟨after, ended, holds''⟩
        rw [length, UInt32.ofNat_add] at ended
        refine ⟨after, ?_, holds''⟩
        rw [forEach, stepped]
        exact ended
  exact from_turn list [] start rfl initial

theorem forEach_map {ι κ : Type} {body : κ → UInt32 → Tensors α → Except Stop (Tensors α)} {g : ι → κ} {list : List ι}
    {index : UInt32}
    {tensors : Tensors α} : forEach body (list.map g) index tensors =
      forEach (fun i => body (g i)) list index tensors := by
  induction list generalizing index tensors with
  | nil => rfl
  | cons i rest ih =>
      rw [List.map_cons, forEach, forEach]
      apply congrArg
      funext next
      exact ih

theorem forEach_undefined {ι : Type} {body : ι → UInt32 → Tensors α → Except Stop (Tensors α)} {list : List ι}
    {index : UInt32} {tensors : Tensors α} {stop : Stop}
    (turn : ∀ i index tensors stop, body i index tensors = .error stop → stop = .undefined)
    (stopped : forEach body list index tensors = .error stop) : stop = .undefined := by
  induction list generalizing index tensors with
  | nil => cases stopped
  | cons i rest ih =>
      rw [forEach] at stopped
      rcases bind_error stopped with failed | ⟨next, -, looped⟩
      · exact turn i index tensors stop failed
      · exact ih looped

theorem load_some {a : Tensor α} {position : Nat} {x : α} (found : a.value[position]? = some x) :
    a.load position = .ok x := by
  rw [Tensor.load, found]

theorem put_some {a position : Nat} (x : α) {tensors : Tensors α} (inside : position < (tensors a).value.length) :
    ∃ after, put a position x tensors = .ok after := ⟨_, if_pos inside⟩

theorem load_undefined {a : Tensor α} {position : Nat} {stop : Stop} (stopped : a.load position = .error stop) :
    stop = .undefined := by
  rw [Tensor.load] at stopped
  split at stopped
  · cases stopped
  · cases stopped
    rfl

theorem put_undefined {a position : Nat} {x : α} {tensors : Tensors α} {stop : Stop}
    (stopped : put a position x tensors = .error stop) : stop = .undefined := by
  rw [put] at stopped
  split at stopped
  · cases stopped
  · cases stopped
    rfl

structure Framed (out : Nat) (before after : Tensors α) : Prop where
  others : ∀ a, a ≠ out → after a = before a
  fields : after out = { before out with value := (after out).value }
  length : (after out).value.length = (before out).value.length

namespace Framed

variable {out : Nat} {before middle after : Tensors α}

theorem refl (out : Nat) (tensors : Tensors α) : Framed out tensors tensors := ⟨fun _ _ => rfl, rfl, rfl⟩

theorem trans (first : Framed out before middle) (second : Framed out middle after) : Framed out before after where
  others a other := (second.others a other).trans (first.others a other)
  fields := by
    rw [second.fields, first.fields]
  length := second.length.trans first.length

theorem dimension (framed : Framed out before after) (a : Nat) : (after a).dimension = (before a).dimension := by
  by_cases isOut : a = out
  · rw [isOut, framed.fields]
  · rw [framed.others a isOut]

theorem forEach {ι : Type} {body : ι → UInt32 → Tensors α → Except Stop (Tensors α)} {list : List ι}
    (turn : ∀ i index tensors next, body i index tensors = .ok next → Framed out tensors next)
    (done : forEach body list 0 before = .ok after) : Framed out before after := by
  apply forEach_invariant (fun _ tensors => Framed out before tensors) _ (Framed.refl out before) done
  intro index i tensors next _ framed stepped
  exact framed.trans (turn i _ tensors next stepped)

end Framed

theorem put_ok {a position : Nat} {x : α} {tensors after : Tensors α} (done : put a position x tensors = .ok after) :
    position < (tensors a).value.length ∧
      after = Function.update tensors a { tensors a with value := (tensors a).value.set position x } := by
  rw [put] at done
  split at done
  · rename_i inside
    cases done
    exact ⟨inside, rfl⟩
  · cases done

theorem put_framed {a position : Nat} {x : α} {tensors after : Tensors α}
    (done : put a position x tensors = .ok after) :
    Framed a tensors after := by
  rcases put_ok done with ⟨-, rfl⟩
  refine ⟨fun other differs => Function.update_of_ne differs _ _, ?_, ?_⟩
  · rw [Function.update_self]
  · rw [Function.update_self, List.length_set]

theorem put_value {a position : Nat} {x : α} {tensors after : Tensors α} (done : put a position x tensors = .ok after)
    (other : Nat) : (after a).value[other]? = if other = position then some x else (tensors a).value[other]? := by
  rcases put_ok done with ⟨inside, rfl⟩
  rw [Function.update_self, List.getElem?_set]
  by_cases same : other = position
  · rw [if_pos same.symm, if_pos inside, if_pos same]
  · rw [if_neg (Ne.symm same), if_neg same]

theorem load_ok {a : Tensor α} {position : Nat} {x : α} (done : a.load position = .ok x) :
    a.value[position]? = some x := by
  rw [Tensor.load] at done
  cases found : a.value[position]? with
  | none =>
      rw [found] at done
      cases done
  | some y =>
      rw [found] at done
      cases done
      rfl

/-! ## Outputs -/

/-- A loop that stores an element at each position of an output, one after the
other. -/
theorem forEach_fills {ι : Type} {body : ι → UInt32 → Tensors α → Except Stop (Tensors α)} {list : List ι}
    {start : Tensors α}
    {out : Nat} {element : ι → α}
    (turn : ∀ (turn : Nat) (i : ι) now, list[turn]? = some i → Framed out start now →
      ∃ next, body i (UInt32.ofNat turn) now = .ok next ∧ Framed out now next ∧
        (next out).value[turn]? = some (element i) ∧
        ∀ other, other ≠ turn → (next out).value[other]? = (now out).value[other]?) :
    ∃ after, forEach body list 0 start = .ok after ∧ Framed out start after ∧
      (∀ (position : Nat) (i : ι), list[position]? = some i → (after out).value[position]? = some (element i)) ∧
      ∀ position, list.length ≤ position → (after out).value[position]? = (start out).value[position]? := by
  have turns := @forEach_ok α ι body (fun turn now => Framed out start now ∧
    (∀ position < turn, ∀ i : ι, list[position]? = some i → (now out).value[position]? = some (element i)) ∧
    ∀ position, turn ≤ position → (now out).value[position]? = (start out).value[position]?) list start ?_ ?_
  · rcases turns with ⟨after, done, framed, stored, beyond⟩
    refine ⟨after, done, framed, ?_, beyond⟩
    intro position i isElement
    exact stored position (List.getElem?_eq_some_iff.mp isElement).1 i isElement
  · rintro index i now isElement ⟨framed, stored, beyond⟩
    rcases turn index i now isElement framed with ⟨next, stepped, framed', here, others⟩
    refine ⟨next, stepped, framed.trans framed', ?_, ?_⟩
    · intro position early j isOther
      rcases Nat.lt_succ_iff_lt_or_eq.mp early with earlier | rfl
      · rw [others position (Nat.ne_of_lt earlier)]
        exact stored position earlier j isOther
      · cases isElement.symm.trans isOther
        exact here
    · intro position late
      rw [others position (Nat.ne_of_gt late)]
      exact beyond position (Nat.le_of_succ_le late)
  · exact ⟨Framed.refl out start, fun position early => absurd early (Nat.not_lt_zero position), fun _ _ => rfl⟩

/-- A loop that sums up in one element of an output. -/
theorem forEach_sums {ι : Type} [AddCommMonoid α] {body : ι → UInt32 → Tensors α → Except Stop (Tensors α)}
    {list : List ι}
    {start : Tensors α} {out position : Nat} {term : ι → α} {first : α}
    (here : (start out).value[position]? = some first)
    (turn : ∀ i index now, i ∈ list → Framed out start now → body i index now = addTo out position (term i) now) :
    ∃ after, forEach body list 0 start = .ok after ∧ Framed out start after ∧
      (after out).value[position]? = some (first + (list.map term).sum) ∧
      ∀ other, other ≠ position → (after out).value[other]? = (start out).value[other]? := by
  have turns := @forEach_ok α ι body (fun turn now => Framed out start now ∧
    (now out).value[position]? = some (first + ((list.take turn).map term).sum) ∧
    ∀ other, other ≠ position → (now out).value[other]? = (start out).value[other]?) list start ?_ ?_
  · rcases turns with ⟨after, done, framed, sum, others⟩
    rw [List.take_length] at sum
    exact ⟨after, done, framed, sum, others⟩
  · rintro index i now isElement ⟨framed, sum, others⟩
    have inside := (List.getElem?_eq_some_iff.mp sum).1
    rcases put_some (first + ((list.take index).map term).sum + term i) inside with ⟨next, stored⟩
    refine ⟨next, ?_, framed.trans (put_framed stored), ?_, ?_⟩
    · rw [turn i _ now (List.mem_of_getElem? isElement) framed, addTo, load_some sum]
      exact stored
    · rw [put_value stored, if_pos rfl, List.take_add_one, isElement, Option.toList_some, List.map_append,
        List.sum_append,
        List.map_singleton, List.sum_singleton, add_assoc]
    · intro other differs
      rw [put_value stored, if_neg differs]
      exact others other differs
  · refine ⟨Framed.refl out start, ?_, fun _ _ => rfl⟩
    rw [List.take_zero, List.map_nil, List.sum_nil, add_zero]
    exact here

/-! ## Triples of loop variables -/

theorem range_flatMap {β : Type} (rows columns : Nat) (f : Nat → Nat → β) :
    ((List.range rows).flatMap fun i => (List.range columns).map fun j => f i j) =
      (List.range (rows * columns)).map fun p => f (p / columns) (p % columns) := by
  induction rows with
  | zero =>
      rw [Nat.zero_mul]
      rfl
  | succ rows ih =>
      rw [List.range_succ, List.flatMap_append, ih, Nat.succ_mul, List.range_add, List.map_append,
        List.flatMap_singleton,
        List.map_map]
      congr 1
      apply List.map_congr_left
      intro j inside
      have below : j < columns := List.mem_range.mp inside
      rw [Function.comp_apply, Nat.add_comm, Nat.add_mul_div_right _ _ (Nat.zero_lt_of_lt below),
        Nat.div_eq_of_lt below,
        Nat.zero_add, Nat.add_mul_mod_self_right, Nat.mod_eq_of_lt below]

/-- The triple of loop variables at a position. -/
def cellAt (d1 d2 position : Nat) : Nat × Nat × Nat :=
  (position / d2 / d1, position / d2 % d1, position % d2)

theorem cells_eq (d0 d1 d2 : Nat) : cells d0 d1 d2 = (List.range (d0 * d1 * d2)).map (cellAt d1 d2) := by
  have flat : cells d0 d1 d2 =
      ((List.range d0).flatMap fun k => (List.range d1).map fun m => (k, m)).flatMap fun row =>
        (List.range d2).map fun n => (row.1, row.2, n) := by
    rw [cells, List.flatMap_assoc]
    apply List.flatMap_congr
    intro k _
    rw [List.flatMap_map]
  rw [flat, range_flatMap, List.flatMap_map]
  exact range_flatMap (d0 * d1) d2 fun row n => (row / d1, row % d1, n)

def place (shape : Fin 3 → UInt32) (k m n : Nat) : Nat := (k * (shape 1).toNat + m) * (shape 2).toNat + n

def volume (shape : Fin 3 → UInt32) : Nat := (shape 0).toNat * (shape 1).toNat * (shape 2).toNat

def Inside (shape : Fin 3 → UInt32) (k m n : Nat) : Prop :=
  k < (shape 0).toNat ∧ m < (shape 1).toNat ∧ n < (shape 2).toNat

theorem row_lt {i j rows columns : Nat} (row : i < rows) (column : j < columns) : i * columns + j < rows * columns :=
  calc
    i * columns + j < i * columns + columns := Nat.add_lt_add_left column _
    _ = (i + 1) * columns := (Nat.succ_mul i columns).symm
    _ ≤ rows * columns := Nat.mul_le_mul_right _ row

theorem place_lt {shape : Fin 3 → UInt32} {k m n : Nat} (inside : Inside shape k m n) :
    place shape k m n < volume shape :=
  row_lt (row_lt inside.1 inside.2.1) inside.2.2

theorem row_div {i j columns : Nat} (column : j < columns) : (i * columns + j) / columns = i := by
  rw [Nat.add_comm, Nat.add_mul_div_right _ _ (Nat.zero_lt_of_lt column), Nat.div_eq_of_lt column, Nat.zero_add]

theorem row_mod {i j columns : Nat} (column : j < columns) : (i * columns + j) % columns = j := by
  rw [Nat.add_comm, Nat.add_mul_mod_self_right, Nat.mod_eq_of_lt column]

theorem cellAt_place {shape : Fin 3 → UInt32} {k m n : Nat} (inside : Inside shape k m n) :
    cellAt (shape 1).toNat (shape 2).toNat (place shape k m n) = (k, m, n) := by
  rw [cellAt, place, row_div inside.2.2, row_mod inside.2.2, row_div inside.2.1, row_mod inside.2.1]

end KitTensor
end LibKit
