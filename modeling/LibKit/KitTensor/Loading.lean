import LibKit.KitTensor.Model
import LibKit.Support.Numeral
import LibKit.Support.Results

namespace LibKit
namespace KitTensor

/-!
# Loading a tensor from text

A tensor is loaded from a line with its dimensions and from lines with its
values.  The loop over the dimensions ends before the third one is read, but
counts it.
-/

open Numeral (isDigit subject)

/-! ## The dimension line -/

/-- What `sscanf(line, "%u%n", ...)` does. -/
inductive Scan where
  | failed
  | undefined
  | read (value : UInt32) (rest : List UInt8)

/-- `sscanf(line, "%u%n", ...)`: the conversion is undefined if its result or the
number of characters is too large. -/
def scanUnsigned (line : List UInt8) : Scan :=
  match subject 10 line with
  | none => .failed
  | some number =>
      if number.magnitude < 2 ^ 32 ∧ line.length - number.rest.length < 2 ^ 31 then
        .read (if number.negative then -UInt32.ofNat number.magnitude else UInt32.ofNat number.magnitude) number.rest
      else .undefined

section

variable {α : Type}

/-- `kit_tensor_num_values` -/
def numValues (tensor : Tensor α) : UInt64 :=
  (tensor.dimension 0).toUInt64 * (if 1 < tensor.numDims then (tensor.dimension 1).toUInt64 else 1) *
    (if 2 < tensor.numDims then (tensor.dimension 2).toUInt64 else 1)

/-- `tensor->dimension[tensor->num_dims] = value` -/
def setNext (tensor : Tensor α) (value : UInt32) : Tensor α :=
  { tensor with dimension := Function.update tensor.dimension (Fin.ofNat 3 tensor.numDims.toNat) value }

/-- The loop over the dimensions, which is taken while `num_dims` is less than
two. -/
def makeDimensions : Nat → Tensor α → List UInt8 → Except Stop (Bool × Tensor α)
  | 0, tensor, _ => .ok (true, tensor)
  | turns + 1, tensor, line =>
      match scanUnsigned line with
      | .failed => .ok (false, tensor)
      | .undefined => .error .undefined
      | .read value rest =>
          let tensor := setNext tensor value
          match rest with
          | [] => .ok (true, tensor)
          | next :: rest =>
              if next = 58 then makeDimensions turns { tensor with numDims := tensor.numDims + 1 } rest
              else .ok (false, tensor)

/-- The allocation for the values; the memory is what `kit_malloc` returns for a
number of bytes. -/
def allocate (memory : UInt64 → Option (List α)) (tensor : Tensor α) : Except Stop (Bool × Tensor α × UInt64) :=
  match memory (4 * numValues tensor) with
  | none => .ok (false, tensor, 0)
  | some value => .ok (true, { tensor with value := value }, 0)

/-- `DIMS:` -/
def dimsMark : List UInt8 := [68, 73, 77, 83, 58]

/-- `kit_tensor_make_begin`: whether it succeeds, the tensor, and `*num_values`. -/
def makeBegin (memory : UInt64 → Option (List α)) (tensor : Tensor α) (dimLine : List UInt8) :
    Except Stop (Bool × Tensor α × UInt64) :=
  if dimLine.take 5 ≠ dimsMark then .ok (false, tensor, 0)
  else do
    let (accepted, tensor) ← makeDimensions 2 { tensor with numDims := 0 } (dimLine.drop 5)
    if accepted then allocate memory { tensor with numDims := tensor.numDims + 1 }
    else .ok (false, tensor, 0)

/-! ## The value lines -/

/-- `sscanf(line, "%f%n", ...)`: a value and what is behind it, where some
characters were taken. -/
structure FloatScan (α : Type) where
  scan : List UInt8 → Option (α × List UInt8)
  consumes : ∀ line x rest, scan line = some (x, rest) → ∃ taken, taken ≠ [] ∧ line = taken ++ rest

/-- `kit_tensor_make_end` -/
def makeEnd (tensor : Tensor α) (count : UInt64) : Bool := count = numValues tensor

end

/-! ## Lines with dimensions -/

structure Decimal (digits : List UInt8) (number : UInt32) : Prop where
  present : digits ≠ []
  each : ∀ byte ∈ digits, isDigit 10 byte = true
  spelled : Numeral.value 10 digits = number.toNat

/-- Unsigned integers separated by single colons. -/
inductive Dimensions : List UInt8 → List UInt32 → Prop where
  | last {digits : List UInt8} {number : UInt32} (decimal : Decimal digits number) : Dimensions digits [number]
  | more {digits rest : List UInt8} {number : UInt32} {numbers : List UInt32} (decimal : Decimal digits number)
      (further : Dimensions rest numbers) : Dimensions (digits ++ 58 :: rest) (number :: numbers)

def Plain (text : List UInt8) : Prop := ∃ byte rest, text = byte :: rest ∧ isDigit 10 byte = true

theorem colon_not_digit : isDigit 10 58 = false := by decide

theorem Decimal.plain {digits rest : List UInt8} {number : UInt32} (decimal : Decimal digits number) :
    Plain (digits ++ rest) := by
  cases digits with
  | nil => exact absurd rfl decimal.present
  | cons byte digits => exact ⟨byte, digits ++ rest, rfl, decimal.each byte List.mem_cons_self⟩

theorem Dimensions.plain {text : List UInt8} {numbers : List UInt32} (dimensions : Dimensions text numbers) :
    Plain text := by
  cases dimensions with
  | last decimal =>
      have plain := @Decimal.plain _ [] _ decimal
      rwa [List.append_nil] at plain
  | more decimal further => exact decimal.plain

/-- From a text that starts with a digit, digits are taken. -/
theorem Plain.subject {text : List UInt8} (plain : Plain text) :
    Numeral.subject 10 text =
      some ⟨false, Numeral.value 10 (text.takeWhile (isDigit 10)), text.dropWhile (isDigit 10)⟩ := by
  rcases plain with ⟨byte, rest, rfl, is_digit⟩
  have large := (Numeral.isDigit_bounds (by decide) is_digit).1
  have skipped := @Numeral.behindSign_append [] [] rest byte false
    (fun _ wrong => absurd wrong List.not_mem_nil) Numeral.Sign.none (Numeral.plain_of_ge large)
  rw [List.nil_append, List.nil_append] at skipped
  have radix : Numeral.radix 10 (byte :: rest) = (10, byte :: rest) := by
    rw [Numeral.radix, if_neg, if_neg]
    · decide
    · rintro ⟨based | based, -⟩
      · exact absurd based (by decide)
      · exact absurd based (by decide)
  rw [Numeral.subject, skipped.1, skipped.2, radix, if_neg]
  rw [List.takeWhile_cons_of_pos is_digit]
  exact List.cons_ne_nil _ _

theorem Plain.scanned {text rest : List UInt8} {number : UInt32} (plain : Plain text)
    (scanned : scanUnsigned text = .read number rest) :
    ∃ digits, Decimal digits number ∧ text = digits ++ rest := by
  rw [scanUnsigned, plain.subject] at scanned
  simp only at scanned
  split at scanned
  · rename_i small
    cases scanned
    refine ⟨text.takeWhile (isDigit 10), ⟨?_, ?_, ?_⟩, List.takeWhile_append_dropWhile.symm⟩
    · rcases plain with ⟨byte, rest, rfl, is_digit⟩
      rw [List.takeWhile_cons_of_pos is_digit]
      exact List.cons_ne_nil _ _
    · intro byte inside
      exact List.mem_takeWhile_imp inside
    · rw [if_neg Bool.false_ne_true, UInt32.toNat_ofNat_of_lt' small.1]
  · cases scanned

theorem Decimal.scan {digits rest : List UInt8} {number : UInt32} (decimal : Decimal digits number)
    (ended : ∀ byte, rest[0]? = some byte → isDigit 10 byte = false) :
    scanUnsigned (digits ++ rest) = .undefined ∨ scanUnsigned (digits ++ rest) = .read number rest := by
  have taken := Numeral.takeWhile_digits decimal.each ended
  rw [scanUnsigned, decimal.plain.subject, taken.1, taken.2, decimal.spelled]
  simp only
  split
  · rw [if_neg Bool.false_ne_true, UInt32.ofNat_toNat]
    exact Or.inr rfl
  · exact Or.inl rfl

theorem Dimensions.scan {text : List UInt8} {numbers : List UInt32} (dimensions : Dimensions text numbers) :
    scanUnsigned text = .undefined ∨
      (∃ number, numbers = [number] ∧ scanUnsigned text = .read number []) ∨
      ∃ number others rest, numbers = number :: others ∧ scanUnsigned text = .read number (58 :: rest) ∧
        Dimensions rest others := by
  cases dimensions with
  | last decimal =>
      have scanned := @Decimal.scan _ [] _ decimal (fun _ wrong => by cases wrong)
      rw [List.append_nil] at scanned
      exact scanned.imp id fun read => Or.inl ⟨_, rfl, read⟩
  | more decimal further =>
      refine (decimal.scan ?_).imp id fun read => Or.inr ⟨_, _, _, rfl, read, further⟩
      intro byte first
      cases first
      exact colon_not_digit

theorem Dimensions.not_failed {text : List UInt8} {numbers : List UInt32} (dimensions : Dimensions text numbers) :
    scanUnsigned text ≠ .failed := by
  intro failed
  rcases dimensions.scan with read | ⟨number, -, read⟩ | ⟨number, others, rest, -, read, -⟩ <;>
    cases failed.symm.trans read

theorem Dimensions.read {text rest : List UInt8} {numbers : List UInt32} {number : UInt32}
    (dimensions : Dimensions text numbers)
    (scanned : scanUnsigned text = .read number rest) :
    numbers = [number] ∧ rest = [] ∨ ∃ others rest', numbers = number :: others ∧ rest = 58 :: rest' ∧
      Dimensions rest' others := by
  rcases dimensions.scan with read | ⟨number', isNumbers, read⟩ | ⟨number', others, rest', isNumbers, read, further⟩
  · cases scanned.symm.trans read
  · cases scanned.symm.trans read
    exact Or.inl ⟨isNumbers, rfl⟩
  · cases scanned.symm.trans read
    exact Or.inr ⟨others, rest', isNumbers, rfl, further⟩

/-! ## Beginning -/

/-- The line is `DIMS:` and one to three unsigned integers. -/
def Format (line : List UInt8) (numbers : List UInt32) : Prop :=
  numbers.length ≤ 3 ∧ ∃ text, line = dimsMark ++ text ∧ Dimensions text numbers

section

variable {α : Type}

/-- The tensor has these dimensions, and there is memory for its values. -/
structure Begun (numbers : List UInt32) (tensor : Tensor α) : Prop where
  numDims : tensor.numDims.toNat = numbers.length
  dimension : ∀ i number, numbers[i]? = some number → tensor.dimension (Fin.ofNat 3 i) = number
  room : (numbers.map UInt32.toNat).prod ≤ tensor.value.length

/-- A line is accepted if and only if it has the format, and then the tensor has
its dimensions. -/
def Loads (line : List UInt8) (outcome : Except Stop (Bool × Tensor α × UInt64)) : Prop :=
  ∃ accepted tensor, outcome = .ok (accepted, tensor, 0) ∧ (accepted = true ↔ ∃ numbers, Format line numbers) ∧
    ∀ numbers, Format line numbers → Begun numbers tensor

def Gives (memory : UInt64 → Option (List α)) : Prop := ∀ size, ∃ array, memory size = some array ∧
    array.length = size.toNat / 4

/-- The integers that are read from a text can be told from their characters:
none is too large, those of an accepted text have neither blanks nor signs, their
values fit into memory, and a second one is not followed by a colon. -/
structure Readable (text : List UInt8) : Prop where
  first : scanUnsigned text ≠ .undefined
  second : ∀ number rest, scanUnsigned text = .read number (58 :: rest) → scanUnsigned rest ≠ .undefined
  one : ∀ number, scanUnsigned text = .read number [] → Plain text
  two : ∀ number rest number', scanUnsigned text = .read number (58 :: rest) → scanUnsigned rest = .read number' [] →
    Plain text ∧ Plain rest ∧ 4 * (number.toNat * number'.toNat) < 2 ^ 64
  no_more : ∀ number rest number' rest', scanUnsigned text = .read number (58 :: rest) →
    scanUnsigned rest ≠ .read number' (58 :: rest')

theorem makeBegin_mark (memory : UInt64 → Option (List α)) (tensor : Tensor α) (text : List UInt8) :
    makeBegin memory tensor (dimsMark ++ text) = (makeDimensions 2 { tensor with numDims := 0 } text >>= fun result =>
      if result.1 then allocate memory { result.2 with numDims := result.2.numDims + 1 }
        else .ok (false, result.2, 0)) := by
  rw [makeBegin, if_neg]
  · rfl
  · exact fun differ => differ rfl

/-- The values of a tensor with one dimension. -/
theorem numValues_one {tensor : Tensor α} (count : tensor.numDims = 1) :
    numValues tensor = (tensor.dimension 0).toUInt64 := by
  rw [numValues, count, if_neg (by decide), if_neg (by decide), UInt64.mul_one, UInt64.mul_one]

theorem numValues_two {tensor : Tensor α} (count : tensor.numDims = 2) :
    numValues tensor = (tensor.dimension 0).toUInt64 * (tensor.dimension 1).toUInt64 := by
  rw [numValues, count, if_pos (by decide), if_neg (by decide), UInt64.mul_one]

theorem allocate_gives {memory : UInt64 → Option (List α)} (gives : Gives memory) (tensor : Tensor α) :
    ∃ array, allocate memory tensor = .ok (true, { tensor with value := array }, 0) ∧
      array.length = (4 * numValues tensor).toNat / 4 := by
  rcases gives (4 * numValues tensor) with ⟨array, given, length⟩
  refine ⟨array, ?_, length⟩
  rw [allocate, given]

variable {memory : UInt64 → Option (List α)} {tensor : Tensor α} {text rest rest' : List UInt8}
    {number number' : UInt32}

theorem makeDimensions_failed (turns : Nat) (scanned : scanUnsigned text = .failed) :
    makeDimensions (turns + 1) tensor text = .ok (false, tensor) := by
  rw [makeDimensions, scanned]

theorem makeDimensions_last (turns : Nat) (scanned : scanUnsigned text = .read number []) :
    makeDimensions (turns + 1) tensor text = .ok (true, setNext tensor number) := by
  rw [makeDimensions, scanned]

theorem makeDimensions_colon (turns : Nat) (scanned : scanUnsigned text = .read number (58 :: rest)) :
    makeDimensions (turns + 1) tensor text =
      makeDimensions turns { setNext tensor number with numDims := (setNext tensor number).numDims + 1 } rest := by
  rw [makeDimensions, scanned]
  exact if_pos rfl

theorem makeDimensions_other (turns : Nat) {next : UInt8} (scanned : scanUnsigned text = .read number (next :: rest))
    (other : next ≠ 58) :
    makeDimensions (turns + 1) tensor text = .ok (false, setNext tensor number) := by
  rw [makeDimensions, scanned]
  exact if_neg other

/-- The tensor when the first dimension was read. -/
abbrev withOne (tensor : Tensor α) (number : UInt32) : Tensor α := setNext { tensor with numDims := 0 } number

abbrev withTwo (tensor : Tensor α) (number number' : UInt32) :
    Tensor α := setNext { withOne tensor number with numDims := 1 } number'

theorem withOne_dimension : (withOne tensor number).dimension 0 = number := by
  change Function.update tensor.dimension 0 number 0 = number
  exact Function.update_self 0 number tensor.dimension

theorem withTwo_dimension :
    (withTwo tensor number number').dimension 0 = number ∧ (withTwo tensor number number').dimension 1 = number' ∧
      (withTwo tensor number number').dimension 2 = tensor.dimension 2 := by
  change Function.update (Function.update tensor.dimension 0 number) 1 number' 0 = number ∧
    Function.update (Function.update tensor.dimension 0 number) 1 number' 1 = number' ∧
    Function.update (Function.update tensor.dimension 0 number) 1 number' 2 = tensor.dimension 2
  rw [Function.update_of_ne (by decide), Function.update_self, Function.update_self, Function.update_of_ne (by decide),
    Function.update_of_ne (by decide)]
  exact ⟨rfl, rfl, rfl⟩

/-- One dimension is loaded. -/
theorem makeBegin_one (gives : Gives memory) (tensor : Tensor α) (scanned : scanUnsigned text = .read number []) :
    ∃ after, makeBegin memory tensor (dimsMark ++ text) = .ok (true, after, 0) ∧ Begun [number] after := by
  rcases allocate_gives gives { withOne tensor number with numDims := 1 } with ⟨array, allocated, length⟩
  have below := number.toNat_lt
  refine ⟨{ withOne tensor number with numDims := 1, value := array }, ?_, ⟨rfl, ?_, ?_⟩⟩
  · rw [makeBegin_mark, makeDimensions_last 1 scanned]
    exact allocated
  · intro i dimension isDimension
    cases i with
    | zero =>
        rw [← Option.some.inj isDimension]
        exact @withOne_dimension _ tensor number
    | succ i => cases isDimension
  · change [number.toNat].prod ≤ array.length
    have values : (4 * ((withOne tensor number).dimension 0).toUInt64).toNat = 4 * number.toNat % 2 ^ 64 := by
      rw [withOne_dimension, UInt64.toNat_mul]
      rfl
    rw [length, numValues_one rfl, values, List.prod_singleton]
    omega

/-- Two dimensions are loaded; there is memory for the values if their number of
bytes is not too large. -/
theorem makeBegin_two (gives : Gives memory) (tensor : Tensor α)
    (scanned : scanUnsigned text = .read number (58 :: rest))
    (scanned' : scanUnsigned rest = .read number' []) :
    ∃ after, makeBegin memory tensor (dimsMark ++ text) = .ok (true, after, 0) ∧
      after.value.length = 4 * (number.toNat * number'.toNat) % 2 ^ 64 / 4 ∧
      (4 * (number.toNat * number'.toNat) < 2 ^ 64 → Begun [number, number'] after) := by
  rcases allocate_gives gives { withTwo tensor number number' with numDims := 2 } with ⟨array, allocated, length⟩
  have values : (4 * (((withTwo tensor number number').dimension 0).toUInt64 *
      ((withTwo tensor number number').dimension 1).toUInt64)).toNat = 4 * (number.toNat * number'.toNat) % 2 ^ 64 := by
    rw [withTwo_dimension.1, withTwo_dimension.2.1, UInt64.toNat_mul, UInt64.toNat_mul]
    change 4 * (number.toNat * number'.toNat % 2 ^ 64) % 2 ^ 64 = _
    rw [Nat.mul_mod_mod]
  rw [numValues_two rfl] at length
  change array.length = (4 * (((withTwo tensor number number').dimension 0).toUInt64 *
      ((withTwo tensor number number').dimension 1).toUInt64)).toNat / 4 at length
  rw [values] at length
  refine ⟨{ withTwo tensor number number' with numDims := 2, value := array }, ?_, length, fun small => ⟨rfl, ?_, ?_⟩⟩
  · rw [makeBegin_mark, makeDimensions_colon 1 scanned, makeDimensions_last 0 scanned']
    exact allocated
  · intro i dimension isDimension
    cases i with
    | zero =>
        rw [← Option.some.inj isDimension]
        exact (@withTwo_dimension _ tensor number number').1
    | succ i =>
        cases i with
        | zero =>
            rw [← Option.some.inj isDimension]
            exact (@withTwo_dimension _ tensor number number').2.1
        | succ i => cases isDimension
  · change [number.toNat, number'.toNat].prod ≤ array.length
    rw [length, Nat.mod_eq_of_lt small, Nat.mul_div_cancel_left _ (by decide), List.prod_cons, List.prod_singleton]

theorem format_mark {numbers : List UInt32} : Format (dimsMark ++ text) numbers ↔ numbers.length ≤ 3 ∧
    Dimensions text numbers := by
  refine ⟨?_, fun format => ⟨format.1, text, rfl, format.2⟩⟩
  rintro ⟨few, other, same, dimensions⟩
  rw [List.append_cancel_left_eq] at same
  rw [same]
  exact ⟨few, dimensions⟩

theorem loads_false {line : List UInt8} {after : Tensor α} (refused : ∀ numbers, ¬ Format line numbers) :
    Loads line (.ok (false, after, 0)) :=
  ⟨false, after, rfl, ⟨fun wrong => (by cases wrong), fun format => format.elim fun numbers format => absurd format
    (refused numbers)⟩,
    fun numbers format => absurd format (refused numbers)⟩

theorem loads_true {line : List UInt8} {after : Tensor α} {numbers : List UInt32} (format : Format line numbers)
    (only : ∀ other, Format line other → other = numbers) (begun : Begun numbers after) :
    Loads line (.ok (true, after, 0)) := by
  refine ⟨true, after, rfl, ⟨fun _ => ⟨numbers, format⟩, fun _ => rfl⟩, ?_⟩
  intro other format'
  rw [only other format']
  exact begun

theorem loads_one (gives : Gives memory) (tensor : Tensor α) (scanned : scanUnsigned text = .read number [])
    (plain : Plain text) :
    Loads (dimsMark ++ text) (makeBegin memory tensor (dimsMark ++ text)) := by
  rcases makeBegin_one gives tensor scanned with ⟨after, done, begun⟩
  rcases plain.scanned scanned with ⟨digits, decimal, whole⟩
  rw [List.append_nil] at whole
  have format : Format (dimsMark ++ text) [number] := format_mark.mpr ⟨by simp, whole ▸ Dimensions.last decimal⟩
  rw [done]
  apply loads_true format _ begun
  intro other format'
  rcases (format_mark.mp format').2.read scanned with ⟨isOther, -⟩ | ⟨others, rest', -, wrong, -⟩
  · exact isOther
  · cases wrong

theorem loads_two (gives : Gives memory) (tensor : Tensor α) (scanned : scanUnsigned text = .read number (58 :: rest))
    (scanned' : scanUnsigned rest = .read number' []) (plain : Plain text) (plain' : Plain rest)
    (small : 4 * (number.toNat * number'.toNat) < 2 ^ 64) :
    Loads (dimsMark ++ text) (makeBegin memory tensor (dimsMark ++ text)) := by
  rcases makeBegin_two gives tensor scanned scanned' with ⟨after, done, -, begun⟩
  rcases plain.scanned scanned with ⟨digits, decimal, whole⟩
  rcases plain'.scanned scanned' with ⟨digits', decimal', whole'⟩
  rw [List.append_nil] at whole'
  have format : Format (dimsMark ++ text) [number, number'] :=
    format_mark.mpr ⟨by simp, whole ▸ Dimensions.more decimal (whole' ▸ Dimensions.last decimal')⟩
  rw [done]
  apply loads_true format _ (begun small)
  intro other format'
  rcases (format_mark.mp format').2.read scanned with ⟨-, wrong⟩ | ⟨others, rest', isOther, same, further⟩
  · cases wrong
  · cases same
    rcases further.read scanned' with ⟨isOthers, -⟩ | ⟨more, behind, -, wrong, -⟩
    · rw [isOther, isOthers]
    · cases wrong

theorem Readable.loads (gives : Gives memory) (tensor : Tensor α) (readable : Readable text) :
    Loads (dimsMark ++ text) (makeBegin memory tensor (dimsMark ++ text)) := by
  cases scanned : scanUnsigned text with
  | undefined => exact absurd scanned readable.first
  | failed =>
      rw [makeBegin_mark, makeDimensions_failed 1 scanned]
      exact loads_false fun numbers format => (format_mark.mp format).2.not_failed scanned
  | read number rest =>
      cases rest with
      | nil => exact loads_one gives tensor scanned (readable.one number scanned)
      | cons next rest =>
          by_cases colon : next = 58
          · subst colon
            cases scanned' : scanUnsigned rest with
            | undefined => exact absurd scanned' (readable.second number rest scanned)
            | failed =>
                rw [makeBegin_mark, makeDimensions_colon 1 scanned, makeDimensions_failed 0 scanned']
                apply loads_false
                intro numbers format
                rcases (format_mark.mp format).2.read scanned with ⟨-, wrong⟩ | ⟨others, rest', -, same, further⟩
                · cases wrong
                · cases same
                  exact further.not_failed scanned'
            | read number' rest' =>
                cases rest' with
                | nil =>
                    rcases readable.two number rest number' scanned scanned' with ⟨plain, plain', small⟩
                    exact loads_two gives tensor scanned scanned' plain plain' small
                | cons next rest' =>
                    by_cases colon : next = 58
                    · subst colon
                      exact absurd scanned' (readable.no_more number rest number' rest' scanned)
                    · rw [makeBegin_mark, makeDimensions_colon 1 scanned, makeDimensions_other 0 scanned' colon]
                      apply loads_false
                      intro numbers format
                      rcases (format_mark.mp format).2.read scanned with ⟨-, wrong⟩ | ⟨others, rest'', -, same, further⟩
                      · cases wrong
                      · cases same
                        rcases further.read scanned' with ⟨-, wrong⟩ | ⟨more, behind, -, same, -⟩
                        · cases wrong
                        · cases same
                          exact colon rfl
          · rw [makeBegin_mark, makeDimensions_other 1 scanned colon]
            apply loads_false
            intro numbers format
            rcases (format_mark.mp format).2.read scanned with ⟨-, wrong⟩ | ⟨others, rest', -, same, -⟩
            · cases wrong
            · cases same
              exact colon rfl

def plenty [Inhabited α] (size : UInt64) : Option (List α) := some (List.replicate (size.toNat / 4) default)

theorem Loads.accepted {line : List UInt8} {after : Tensor α} {outcome : Except Stop (Bool × Tensor α × UInt64)}
    (loads : Loads line outcome) (done : outcome = .ok (true, after, 0)) :
      ∃ numbers, Format line numbers ∧ Begun numbers after := by
  rcases loads with ⟨accepted, tensor, isOutcome, formatted, begun⟩
  cases done.symm.trans isOutcome
  rcases formatted.mp rfl with ⟨numbers, format⟩
  exact ⟨numbers, format, begun numbers format⟩

theorem Loads.defined {line : List UInt8} {outcome : Except Stop (Bool × Tensor α × UInt64)}
    (loads : Loads line outcome) :
    outcome ≠ .error .undefined := by
  rcases loads with ⟨accepted, tensor, isOutcome, -, -⟩
  rw [isOutcome]
  exact fun wrong => (by cases wrong)

end

/-! ## Adding values -/

/-- Values separated by commas, of which the last may be followed by one. -/
inductive ValuesOf {α : Type} (float : FloatScan α) : List UInt8 → List α → Prop where
  | none : ValuesOf float [] []
  | last {line : List UInt8} {x : α} (scanned : float.scan line = some (x, [])) : ValuesOf float line [x]
  | more {line rest : List UInt8} {x : α} {values : List α} (scanned : float.scan line = some (x, 44 :: rest))
      (further : ValuesOf float rest values) : ValuesOf float line (x :: values)

section

variable {α : Type} {float : FloatScan α} {tensor middle after : Tensor α} {line rest : List UInt8}
    {count count' count'' : UInt64}
  {values more : List α}

theorem FloatScan.not_nil {x : α} (scanned : float.scan line = some (x, rest)) :
    line ≠ [] ∧ rest.length < line.length := by
  rcases float.consumes line x rest scanned with ⟨taken, some', rfl⟩
  refine ⟨?_, ?_⟩
  · exact List.append_ne_nil_of_left_ne_nil some' rest
  · rw [List.length_append]
    exact Nat.lt_add_of_pos_left (List.length_pos_of_ne_nil some')

def Roomy (tensor : Tensor α) : Prop := (numValues tensor).toNat ≤ tensor.value.length

instance (tensor : Tensor α) : Decidable (Roomy tensor) := inferInstanceAs (Decidable (_ ≤ _))

/-- Values were stored behind those that were there, and nothing else changed. -/
structure Added (tensor after : Tensor α) (count count' : UInt64) (values : List α) : Prop where
  fields : after = { tensor with value := after.value }
  stored : after.value = tensor.value.take count.toNat ++ (values ++ tensor.value.drop count'.toNat)
  counted : count'.toNat = count.toNat + values.length
  few : count'.toNat ≤ (numValues tensor).toNat

theorem Added.refl (few : count.toNat ≤ (numValues tensor).toNat) : Added tensor tensor count count [] :=
  ⟨rfl, by rw [List.nil_append, List.take_append_drop], rfl, few⟩

theorem Added.numValues (added : Added tensor after count count' values) :
    KitTensor.numValues after = KitTensor.numValues tensor := by
  rw [added.fields]
  rfl

/-- All that is stored, in front of what was there. -/
theorem Added.take (added : Added tensor after count count' values) (roomy : Roomy tensor) :
    after.value.take count'.toNat = tensor.value.take count.toNat ++ values := by
  have inside : count.toNat ≤ tensor.value.length := by
    have few := added.few
    rw [added.counted] at few
    exact Nat.le_trans (Nat.le_of_add_right_le few) roomy
  have length : (tensor.value.take count.toNat ++ values).length = count'.toNat := by
    rw [List.length_append, List.length_take, Nat.min_eq_left inside, added.counted]
  rw [added.stored, ← List.append_assoc, ← length, List.take_left]

theorem Added.drop (added : Added tensor after count count' values) (roomy : Roomy tensor) (further : Nat) :
    after.value.drop (count'.toNat + further) = tensor.value.drop (count'.toNat + further) := by
  have inside : count.toNat ≤ tensor.value.length := by
    have few := added.few
    rw [added.counted] at few
    exact Nat.le_trans (Nat.le_of_add_right_le few) roomy
  have length : (tensor.value.take count.toNat ++ values).length = count'.toNat := by
    rw [List.length_append, List.length_take, Nat.min_eq_left inside, added.counted]
  rw [added.stored, ← List.append_assoc, ← length, List.drop_length_add_append, List.drop_drop]

theorem Added.length (added : Added tensor after count count' values) (roomy : Roomy tensor) :
    after.value.length = tensor.value.length := by
  have few := Nat.le_trans added.few roomy
  rw [added.stored, List.length_append, List.length_append, List.length_take, List.length_drop]
  rw [added.counted] at few ⊢
  omega

theorem Added.trans (added : Added tensor middle count count' values) (added' : Added middle after count' count'' more)
    (roomy : Roomy tensor) : Added tensor after count count'' (values ++ more) where
  fields := by rw [added'.fields, added.fields]
  stored := by
    have later : count''.toNat = count'.toNat + more.length := added'.counted
    rw [added'.stored, added.take roomy, later, added.drop roomy, List.append_assoc, List.append_assoc]
  counted := by rw [added'.counted, added.counted, List.length_append, Nat.add_assoc]
  few := by
    rw [← added.numValues]
    exact added'.few

theorem ValuesOf.eq (isLine : ValuesOf float line values) (isLine' : ValuesOf float line more) : values = more := by
  induction isLine generalizing more with
  | none =>
      cases isLine' with
      | none => rfl
      | last scanned => exact absurd rfl (float.not_nil scanned).1
      | more scanned further => exact absurd rfl (float.not_nil scanned).1
  | last scanned =>
      cases isLine' with
      | none => exact absurd rfl (float.not_nil scanned).1
      | last scanned' =>
          cases scanned.symm.trans scanned'
          rfl
      | more scanned' further => cases scanned.symm.trans scanned'
  | more scanned further ih =>
      cases isLine' with
      | none => exact absurd rfl (float.not_nil scanned).1
      | last scanned' => cases scanned.symm.trans scanned'
      | more scanned' further' =>
          cases scanned.symm.trans scanned'
          rw [ih further']

structure LinesAdded (float : FloatScan α) (tensor after : Tensor α) (lines : List (List UInt8)) (count count' : UInt64)
    (accepted : Bool) (values : List α) : Prop where
  added : Added tensor after count count' values
  areLines : accepted = true → ∃ each, List.Forall₂ (ValuesOf float) lines each ∧ values = each.flatten
  fits : ∀ each, List.Forall₂ (ValuesOf float) lines each →
    count.toNat + each.flatten.length ≤ (numValues tensor).toNat →
    accepted = true

/-- What was loaded has memory for its values. -/
theorem Begun.roomy {numbers : List UInt32} (few : numbers.length ≤ 3)
    (some' : numbers ≠ []) (begun : Begun numbers tensor) :
    Roomy tensor := by
  have isCount : tensor.numDims = UInt32.ofNat numbers.length := by
    rw [← begun.numDims, UInt32.ofNat_toNat]
  apply Nat.le_trans _ begun.room
  cases numbers with
  | nil => exact absurd rfl some'
  | cons first numbers =>
      have isFirst : tensor.dimension 0 = first := begun.dimension 0 first rfl
      cases numbers with
      | nil =>
          rw [numValues_one isCount, isFirst, List.map_singleton, List.prod_singleton]
          exact Nat.le_refl _
      | cons second numbers =>
          have isSecond : tensor.dimension 1 = second := begun.dimension 1 second rfl
          cases numbers with
          | nil =>
              rw [numValues_two isCount, isFirst, isSecond, UInt64.toNat_mul, List.map_cons, List.map_singleton,
                List.prod_cons,
                List.prod_singleton]
              exact Nat.mod_le _ _
          | cons third numbers =>
              have isThird : tensor.dimension 2 = third := begun.dimension 2 third rfl
              cases numbers with
              | nil =>
                  change tensor.numDims = 3 at isCount
                  rw [numValues, isCount, if_pos (by decide), if_pos (by decide), isFirst, isSecond, isThird,
                    UInt64.toNat_mul,
                    UInt64.toNat_mul, Nat.mod_mul_mod]
                  change _ ≤ [first.toNat, second.toNat, third.toNat].prod
                  rw [List.prod_cons, List.prod_cons, List.prod_singleton, ← Nat.mul_assoc]
                  exact Nat.mod_le _ _
              | cons fourth numbers =>
                  simp only [List.length_cons] at few
                  omega

theorem LinesAdded.ended {lines : List (List UInt8)} {accepted : Bool}
    (behaves : LinesAdded float tensor after lines 0 count accepted values)
    {each : List (List α)} (areLines : List.Forall₂ (ValuesOf float) lines each) :
    accepted = true ∧ makeEnd after count = true ↔ each.flatten.length = (numValues tensor).toNat := by
  have whole : accepted = true → count.toNat = each.flatten.length := by
    intro all
    rcases behaves.areLines all with ⟨each', areLines', isFlat⟩
    have same : each = each' := List.right_unique_forall₂' (fun _ _ _ isLine isLine' =>
      isLine.eq isLine') areLines areLines'
    rw [behaves.added.counted, isFlat, same]
    exact Nat.zero_add _
  rw [makeEnd, behaves.added.numValues, decide_eq_true_iff]
  refine ⟨?_, ?_⟩
  · rintro ⟨all, ended⟩
    rw [← whole all, ended]
  · intro total
    have all := behaves.fits each areLines (by rw [total]; exact Nat.le_of_eq (Nat.zero_add _))
    exact ⟨all, UInt64.toNat_inj.mp ((whole all).trans total)⟩

end

section

variable (α : Type) [Inhabited α]

end

def pair : Tensor Int := ⟨1, ![2, 0, 0], [0, 0], 0, 0, 0⟩

end KitTensor
end LibKit
