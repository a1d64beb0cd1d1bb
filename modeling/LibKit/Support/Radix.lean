import Mathlib

namespace LibKit
namespace Radix

/-!
# Regrouping digits

Digits of some bits each are read and digits of another number of bits are
written, the most significant first.  The bits that were read and not yet
written are kept as a number.
-/

/-- The number with digits of the given number of bits. -/
def number (width : Nat) (digits : List Nat) : Nat := Nat.ofDigits (2 ^ width) digits.reverse

def Small (width : Nat) (digits : List Nat) : Prop := ∀ digit ∈ digits, digit < 2 ^ width

section

variable {width : Nat}

theorem number_concat (digits : List Nat) (digit : Nat) :
    number width (digits ++ [digit]) = number width digits * 2 ^ width + digit := by
  rw [number, List.reverse_append, List.reverse_singleton, List.singleton_append, Nat.ofDigits_cons, Nat.add_comm,
    Nat.mul_comm]
  rfl

theorem number_eq_zero {digits : List Nat} : number width digits = 0 ↔ ∀ digit ∈ digits, digit = 0 := by
  induction digits using List.reverseRecOn with
  | nil => exact ⟨fun _ digit member => absurd member List.not_mem_nil, fun _ => rfl⟩
  | append_singleton digits digit ih =>
      have positive : 2 ^ width ≠ 0 := Nat.ne_of_gt (Nat.two_pow_pos width)
      rw [number_concat, Nat.add_eq_zero_iff, Nat.mul_eq_zero, or_iff_left positive, ih, List.forall_mem_append,
        List.forall_mem_singleton]

theorem Small.concat {digits : List Nat} (small : Small width digits) {digit : Nat} (bound : digit < 2 ^ width) :
    Small width (digits ++ [digit]) := by
  intro other member
  rcases List.mem_append.mp member with before | same
  · exact small other before
  · rw [List.mem_singleton.mp same]
    exact bound

/-- Digits are determined by how many they are and by their number. -/
theorem number_injective {first second : List Nat} (positive : 0 < width) (length : first.length = second.length)
    (smallFirst : Small width first) (smallSecond : Small width second)
    (same : number width first = number width second) : first = second := by
  apply List.reverse_injective
  apply Nat.ofDigits_inj_of_len_eq (Nat.one_lt_two_pow (Nat.ne_of_gt positive))
  · rw [List.length_reverse, List.length_reverse, length]
  · intro digit member
    exact smallFirst digit (List.mem_reverse.mp member)
  · intro digit member
    exact smallSecond digit (List.mem_reverse.mp member)
  · exact same

end

/-- Digits of `source` bits were read and digits of `target` bits written, and
the bits between are still to be written. -/
structure Regrouped (source target : Nat) (input output : List Nat) (bits rest : Nat) : Prop where
  length : output.length * target + bits = input.length * source
  same : number target output * 2 ^ bits + rest = number source input
  pending : rest < 2 ^ bits
  small : Small target output

/-- Digits that were written with zeros behind the last bit. -/
structure Filled (source target : Nat) (input output : List Nat) : Prop where
  fill : ∃ fill, fill < target ∧ output.length * target = input.length * source + fill ∧
    number target output = number source input * 2 ^ fill
  small : Small target output

section

variable {source target : Nat} {input output : List Nat} {bits rest : Nat}

theorem Regrouped.start : Regrouped source target [] [] 0 0 where
  length := by simp
  same := by simp [number]
  pending := by simp
  small := by simp [Small]

theorem Regrouped.read (regrouped : Regrouped source target input output bits rest) {digit : Nat}
    (bound : digit < 2 ^ source) :
    Regrouped source target (input ++ [digit]) output (bits + source) (rest * 2 ^ source + digit) where
  length := by
    rw [List.length_append, List.length_singleton, Nat.add_mul, ← regrouped.length]
    omega
  same := by
    rw [number_concat, ← regrouped.same, Nat.pow_add]
    ring
  pending := by
    have pending := regrouped.pending
    calc rest * 2 ^ source + digit < rest * 2 ^ source + 2 ^ source := by omega
      _ = (rest + 1) * 2 ^ source := by ring
      _ ≤ 2 ^ bits * 2 ^ source := Nat.mul_le_mul_right _ pending
      _ = 2 ^ (bits + source) := (Nat.pow_add 2 bits source).symm
  small := regrouped.small

theorem Regrouped.write (regrouped : Regrouped source target input output bits rest) (enough : target ≤ bits) :
    Regrouped source target input (output ++ [rest / 2 ^ (bits - target)]) (bits - target)
      (rest % 2 ^ (bits - target)) where
  length := by
    rw [List.length_append, List.length_singleton, Nat.add_mul, ← regrouped.length]
    omega
  same := by
    have split := Nat.div_add_mod rest (2 ^ (bits - target))
    have power : 2 ^ bits = 2 ^ target * 2 ^ (bits - target) := by
      rw [← Nat.pow_add, Nat.add_sub_cancel' enough]
    rw [number_concat, ← regrouped.same, power]
    nth_rewrite 3 [← split]
    ring
  pending := Nat.mod_lt _ (Nat.two_pow_pos _)
  small := by
    apply regrouped.small.concat
    rw [Nat.div_lt_iff_lt_mul (Nat.two_pow_pos _), ← Nat.pow_add, Nat.add_sub_cancel' enough]
    exact regrouped.pending

theorem Regrouped.filled (regrouped : Regrouped source target input output 0 rest) (positive : 0 < target) :
    Filled source target input output where
  fill := by
    have pending := regrouped.pending
    have same := regrouped.same
    refine ⟨0, positive, regrouped.length, ?_⟩
    rw [Nat.pow_zero, Nat.mul_one] at same ⊢
    omega
  small := regrouped.small

/-- The last bits are written as the high bits of a digit. -/
theorem Regrouped.fill (regrouped : Regrouped source target input output bits rest) (some : 0 < bits)
    (few : bits < target) :
    Filled source target input (output ++ [rest * 2 ^ (target - bits)]) where
  fill := by
    have power : 2 ^ target = 2 ^ bits * 2 ^ (target - bits) := by
      rw [← Nat.pow_add, Nat.add_sub_cancel' (Nat.le_of_lt few)]
    refine ⟨target - bits, by omega, ?_, ?_⟩
    · rw [List.length_append, List.length_singleton, Nat.add_mul, ← regrouped.length]
      omega
    · rw [number_concat, ← regrouped.same, power]
      ring
  small := by
    apply regrouped.small.concat
    calc rest * 2 ^ (target - bits) < 2 ^ bits * 2 ^ (target - bits) :=
          Nat.mul_lt_mul_of_pos_right regrouped.pending (Nat.two_pow_pos _)
      _ = 2 ^ target := by rw [← Nat.pow_add, Nat.add_sub_cancel' (Nat.le_of_lt few)]

theorem Filled.length_eq (filled : Filled source target input output) :
    output.length = (input.length * source + (target - 1)) / target := by
  rcases filled.fill with ⟨fill, few, length, -⟩
  symm
  rw [Nat.div_eq_iff (by omega)]
  omega

theorem Filled.unique {other : List Nat} (positive : 0 < target) (first : Filled source target input output)
    (second : Filled source target input other) : output = other := by
  have lengths : output.length = other.length := by rw [first.length_eq, second.length_eq]
  rcases first.fill with ⟨fill, -, length, isNumber⟩
  rcases second.fill with ⟨fill', -, length', isNumber'⟩
  have same : fill = fill' := by
    rw [lengths] at length
    omega
  apply number_injective positive lengths first.small second.small
  rw [isNumber, isNumber', same]

/-- What is written is determined by what is read, if less than a digit is kept
back. -/
theorem Regrouped.unique {other : List Nat} {bits' rest' : Nat} (first : Regrouped source target input output bits rest)
    (second : Regrouped source target input other bits' rest') (few : bits < target) (few' : bits' < target) :
    output = other ∧ bits = bits' := by
  have total := first.length.trans second.length.symm
  have lengths : output.length = other.length := by
    have quotient := congrArg (· / target) total
    simp only [Nat.mul_comm _ target, Nat.mul_add_div (Nat.lt_of_le_of_lt (Nat.zero_le bits) few), Nat.div_eq_of_lt few,
      Nat.div_eq_of_lt few', Nat.add_zero] at quotient
    exact quotient
  have same : bits = bits' := by
    rw [lengths] at total
    omega
  have numbers : number target output = number target other := by
    have sum := first.same.trans second.same.symm
    rw [← same, Nat.mul_comm, Nat.mul_comm (number target other)] at sum
    have quotient := congrArg (· / 2 ^ bits) sum
    simp only [Nat.mul_add_div (Nat.two_pow_pos bits), Nat.div_eq_of_lt first.pending] at quotient
    rw [Nat.div_eq_of_lt (same ▸ second.pending), Nat.add_zero, Nat.add_zero] at quotient
    exact quotient
  exact ⟨number_injective (by omega) lengths first.small second.small numbers, same⟩

theorem Regrouped.front {digit : Nat} (regrouped : Regrouped source target (input ++ [digit]) output bits rest)
    (bound : digit < 2 ^ source) (kept : source ≤ bits) :
      Regrouped source target input output (bits - source) (rest / 2 ^ source) where
  length := by
    have total := regrouped.length
    rw [List.length_append, List.length_singleton, Nat.add_mul] at total
    omega
  same := by
    have sum := regrouped.same
    have power : 2 ^ bits = 2 ^ (bits - source) * 2 ^ source := by rw [← Nat.pow_add, Nat.sub_add_cancel kept]
    have quotient := congrArg (· / 2 ^ source) sum
    simp only [number_concat, power] at quotient
    rw [← Nat.mul_assoc, Nat.mul_comm, Nat.mul_add_div (Nat.two_pow_pos source), Nat.mul_comm (number source input),
      Nat.mul_add_div (Nat.two_pow_pos source), Nat.div_eq_of_lt bound, Nat.add_zero] at quotient
    exact quotient
  pending := by
    rw [Nat.div_lt_iff_lt_mul (Nat.two_pow_pos source), ← Nat.pow_add, Nat.sub_add_cancel kept]
    exact regrouped.pending
  small := regrouped.small

theorem pow_split {fill width : Nat} (few : fill < width) (count : Nat) :
    count * 2 ^ width = count * 2 ^ (width - fill) * 2 ^ fill := by
  rw [Nat.mul_assoc, ← Nat.pow_add, Nat.sub_add_cancel (Nat.le_of_lt few)]

/-- The bits of the last digit that are not needed may have any value when the
digits are read back. -/
theorem Filled.regrouped {front : List Nat} {digit digit' fill : Nat}
    (filled : Filled source target input (front ++ [digit])) (small : Small source input)
    (length : (front.length + 1) * target = input.length * source + fill) (few : fill < target)
    (same : digit / 2 ^ fill = digit' / 2 ^ fill) :
    Regrouped target source (front ++ [digit']) input fill (digit' % 2 ^ fill) where
  length := by
    rw [List.length_append, List.length_singleton, length]
  same := by
    rcases filled.fill with ⟨fill', -, length', isNumber⟩
    rw [List.length_append, List.length_singleton, length] at length'
    have isFill : fill' = fill := by omega
    rw [isFill, number_concat, pow_split few] at isNumber
    have quotient := congrArg (· / 2 ^ fill) isNumber
    simp only [Nat.mul_div_cancel _ (Nat.two_pow_pos fill)] at quotient
    rw [Nat.mul_comm, Nat.mul_add_div (Nat.two_pow_pos fill), same] at quotient
    rw [number_concat, pow_split few, ← quotient, Nat.add_mul, Nat.add_assoc]
    congr 1
    rw [Nat.mul_comm]
    exact Nat.div_add_mod digit' (2 ^ fill)
  pending := Nat.mod_lt _ (Nat.two_pow_pos fill)
  small := small

/-- Without the bits that are kept back, the digits that were read are those
that are written for the result. -/
theorem Regrouped.cleared {front : List Nat} {digit : Nat}
    (regrouped : Regrouped source target (front ++ [digit]) output bits rest)
    (small : Small source (front ++ [digit])) (few : bits < source) :
    Filled target source output (front ++ [digit / 2 ^ bits * 2 ^ bits]) where
  fill := by
    have total := regrouped.length
    have sum := regrouped.same
    rw [List.length_append, List.length_singleton] at total
    rw [number_concat, pow_split few] at sum
    have quotient := congrArg (· / 2 ^ bits) sum
    simp only [Nat.mul_comm _ (2 ^ bits), Nat.mul_add_div (Nat.two_pow_pos bits),
      Nat.div_eq_of_lt regrouped.pending] at quotient
    refine ⟨bits, few, ?_, ?_⟩
    · rw [List.length_append, List.length_singleton, total]
    · rw [number_concat, pow_split few, ← Nat.add_mul, ← quotient, Nat.add_zero]
  small := by
    intro other member
    rcases List.mem_append.mp member with before | last
    · exact small other (List.mem_append_left _ before)
    · rw [List.mem_singleton.mp last]
      exact Nat.lt_of_le_of_lt (Nat.div_mul_le_self digit _)
        (small digit (List.mem_append_right _ (List.mem_singleton_self _)))

/-- Reading the digits back gives what they were made of, if they are not wider
than what is written now. -/
theorem Filled.back {back : List Nat} (filled : Filled source target input output) (small : Small source input)
    (narrow : target ≤ source) (regrouped : Regrouped target source output back bits rest) (few : bits < source) :
    back = input ∧ output.length * target = input.length * source + bits := by
  rcases filled.fill with ⟨fill, fewer, length, isNumber⟩
  have total := regrouped.length
  have lengths : back.length = input.length := by
    by_contra differs
    rcases Nat.lt_or_gt_of_ne differs with less | more
    · have bound := Nat.mul_le_mul_right source less
      rw [Nat.succ_mul] at bound
      omega
    · have bound := Nat.mul_le_mul_right source more
      rw [Nat.succ_mul] at bound
      omega
  have same : fill = bits := by
    rw [lengths] at total
    omega
  have numbers : number source back = number source input := by
    have sum := regrouped.same
    rw [isNumber, same] at sum
    have quotient := congrArg (· / 2 ^ bits) sum
    simp only [Nat.mul_div_cancel _ (Nat.two_pow_pos bits)] at quotient
    rw [Nat.mul_comm, Nat.mul_add_div (Nat.two_pow_pos bits), Nat.div_eq_of_lt regrouped.pending,
      Nat.add_zero] at quotient
    exact quotient
  exact ⟨number_injective (by omega) lengths regrouped.small small numbers, by omega⟩

end

/-! ## Shift registers -/

section

variable {bits width : Nat} (register : Nat)

theorem shift_in {digit : Nat} (fits : bits + width ≤ 32) (small : digit < 2 ^ width) :
    (((register <<< width) % 2 ^ 32) ||| digit) % 2 ^ (bits + width) = register % 2 ^ bits * 2 ^ width + digit := by
  have shifted : (register <<< width) % 2 ^ 32 = 2 ^ width * (register % 2 ^ (32 - width)) := by
    have power : 2 ^ 32 = 2 ^ width * 2 ^ (32 - width) := by
      rw [← Nat.pow_add, Nat.add_sub_cancel' (by omega)]
    rw [Nat.shiftLeft_eq, Nat.mul_comm, power, Nat.mul_mod_mul_left]
  have kept : register % 2 ^ (32 - width) % 2 ^ bits = register % 2 ^ bits :=
    Nat.mod_mod_of_dvd _ (Nat.pow_dvd_pow 2 (by omega))
  rw [shifted, ← Nat.two_pow_add_eq_or_of_lt small, Nat.add_comm bits, Nat.pow_add, Nat.mod_mul,
    Nat.mul_add_mod, Nat.mod_eq_of_lt small, Nat.mul_add_div (Nat.two_pow_pos width), Nat.div_eq_of_lt small,
      Nat.add_zero, kept]
  ring

theorem shift_out (enough : width ≤ bits) :
    (register >>> (bits - width)) &&& (2 ^ width - 1) = register % 2 ^ bits / 2 ^ (bits - width) := by
  rw [Nat.shiftRight_eq_div_pow, Nat.and_two_pow_sub_one_eq_mod, ← Nat.mod_mul_right_div_self, ← Nat.pow_add,
    Nat.sub_add_cancel enough]

theorem shift_last (few : bits ≤ width) (fits : width ≤ 32) :
    ((register <<< (width - bits)) % 2 ^ 32) &&& (2 ^ width - 1) = register % 2 ^ bits * 2 ^ (width - bits) := by
  rw [Nat.and_two_pow_sub_one_eq_mod, Nat.mod_mod_of_dvd _ (Nat.pow_dvd_pow 2 fits), Nat.shiftLeft_eq]
  nth_rewrite 2 [show width = bits + (width - bits) by omega]
  rw [Nat.pow_add, Nat.mul_mod_mul_right]

theorem mod_low (bits width : Nat) :
    register % 2 ^ (bits - width) = register % 2 ^ bits % 2 ^ (bits - width) :=
  (Nat.mod_mod_of_dvd _ (Nat.pow_dvd_pow 2 (Nat.sub_le bits width))).symm

end

end Radix
end LibKit
