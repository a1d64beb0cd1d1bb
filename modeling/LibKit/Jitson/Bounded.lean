import LibKit.Jitson.Unwinding
import LibKit.Jitson.Reading

namespace LibKit
namespace Jitson

open Stack

/-!
# The end of a source

The scanners stop at the end of a source.  The conversions of the C library do
not know it: the numeral that a number starts with may go on in the memory
behind the buffer, and then its value is another one.
-/

/-! ## Scanners -/

namespace Source

def facing (source : Source) (beyond : List UInt8) : Source := { source with beyond := beyond }

def readFacing {α : Type} (beyond : List UInt8) (result : α × Source) : α × Source := (result.1, result.2.facing beyond)

section

variable (source : Source) (beyond : List UInt8)

@[simp] theorem facing_next : (source.facing beyond).next = source.next := rfl

@[simp] theorem facing_flags : (source.facing beyond).toFlags = source.toFlags := rfl

@[simp] theorem facing_beyond : (source.facing beyond).beyond = beyond := rfl

@[simp] theorem facing_peekChar : (source.facing beyond).peekChar = source.peekChar := rfl

@[simp] theorem facing_consume (size : Nat) : (source.facing beyond).consume size =
    (source.consume size).facing beyond := rfl

@[simp] theorem facing_skipSpace : (source.facing beyond).skipSpace = source.skipSpace.facing beyond := rfl

@[simp] theorem facing_skipDigits : (source.facing beyond).skipDigits = source.skipDigits.facing beyond := rfl

theorem hexDigits_facing (count unicode : Nat) :
    hexDigits count unicode (source.facing beyond) = (hexDigits count unicode source).map (readFacing beyond) := by
  induction count generalizing source unicode with
  | zero => rfl
  | succ count ih =>
      simp only [hexDigits, facing_peekChar, facing_consume, ih]
      rw [apply_ite (Option.map (readFacing beyond))]
      rfl

theorem escape_facing : (source.facing beyond).escape = source.escape.map (readFacing beyond) := by
  simp only [escape, facing_peekChar, facing_consume, hexDigits_facing, Option.map_map,
    apply_ite (Option.map (readFacing beyond))]
  rfl

theorem character_facing : (source.facing beyond).character = source.character.map (readFacing beyond) := by
  simp only [character, facing_peekChar, facing_consume, escape_facing, apply_ite (Option.map (readFacing beyond))]
  rfl

theorem someDigits_facing : (source.facing beyond).someDigits = source.someDigits.map (facing · beyond) := by
  simp only [someDigits, facing_peekChar, facing_consume, facing_skipDigits, apply_ite (Option.map (facing · beyond))]
  rfl

theorem fraction_facing : (source.facing beyond).fraction = source.fraction.map (readFacing beyond) := by
  simp only [fraction, facing_peekChar, facing_consume, someDigits_facing, Option.map_map,
    apply_ite (Option.map (readFacing beyond))]
  rfl

theorem exponent_facing : (source.facing beyond).exponent = source.exponent.map (readFacing beyond) := by
  rw [exponent, exponent, facing_peekChar, facing_consume]
  by_cases letter : source.peekChar = 69 ∨ source.peekChar = 101
  · rw [if_pos letter, if_pos letter]
    dsimp only
    rw [facing_peekChar, facing_consume]
    by_cases sign : (source.consume 1).peekChar = 45 ∨ (source.consume 1).peekChar = 43
    · rw [if_pos sign, if_pos sign, someDigits_facing, Option.map_map, Option.map_map]
      rfl
    · rw [if_neg sign, if_neg sign, someDigits_facing, Option.map_map, Option.map_map]
      rfl
  · rw [if_neg letter, if_neg letter]
    rfl

theorem afterMinus_facing : (source.facing beyond).afterMinus = source.afterMinus.facing beyond := by
  rw [afterMinus, afterMinus, facing_peekChar]
  split <;> rfl

theorem hexadecimal_facing : (source.facing beyond).hexadecimal = source.hexadecimal.map (facing · beyond) := by
  simp only [hexadecimal, facing_consume, facing_next, apply_ite (Option.map (facing · beyond))]
  rfl

theorem getNumber_facing : (source.facing beyond).getNumber = source.getNumber.map (readFacing beyond) := by
  rw [getNumber, getNumber, afterMinus_facing]
  simp only [facing_peekChar, facing_consume, facing_skipDigits, hexadecimal_facing, fraction_facing, facing_flags,
    Option.map_map,
    apply_ite (Option.map (readFacing beyond)), Option.map_bind, Option.bind_map]
  refine if_congr Iff.rfl rfl (if_congr Iff.rfl rfl (congrArg _ ?_))
  funext middle
  simp only [Function.comp_apply, readFacing, exponent_facing, Option.map_map]
  rfl

end

/-! ## Numerals -/

/-- A byte of a numeral: a digit, a letter, a sign or a point. -/
def isNumeral (byte : UInt8) : Bool :=
  isDigit byte ∨ (65 ≤ byte ∧ byte ≤ 90) ∨ (97 ≤ byte ∧ byte ≤ 122) ∨ byte = 43 ∨ byte = 45 ∨ byte = 46

/-- A conversion stops at a NUL: it takes the same from memory with a NUL in
place of what is beyond, or all that is in front of the NUL is a part of the
numeral. -/
structure Stops {α : Type} (convert : List UInt8 → α × Nat) (next beyond behind : List UInt8) : Prop where
  same : (convert (next ++ beyond)).2 ≤ next.length → convert (next ++ beyond) = convert (next ++ 0 :: behind)
  numeral : next.length < (convert (next ++ beyond)).2 → ∀ byte ∈ next, isNumeral byte

/-- Taking bytes of a kind from memory stops at a NUL that is not of the kind. -/
theorem takeWhile_stops {kind : UInt8 → Bool} (notNul : kind 0 = false) (next beyond behind : List UInt8) :
    (((next ++ beyond).takeWhile kind).length ≤ next.length →
        (next ++ beyond).takeWhile kind = (next ++ 0 :: behind).takeWhile kind) ∧
      (next.length < ((next ++ beyond).takeWhile kind).length → ∀ byte ∈ next, kind byte) := by
  induction next with
  | nil =>
      refine ⟨?_, fun _ => nofun⟩
      intro short
      rw [List.nil_append, List.nil_append, List.takeWhile_cons, notNul]
      exact List.length_eq_zero_iff.mp (Nat.le_zero.mp short)
  | cons byte next ih =>
      rw [List.cons_append, List.cons_append, List.takeWhile_cons, List.takeWhile_cons]
      by_cases isKind : kind byte = true
      · rw [if_pos isKind, if_pos isKind, List.length_cons, List.length_cons]
        refine ⟨?_, ?_⟩
        · intro short
          rw [ih.1 (Nat.le_of_succ_le_succ short)]
        · intro long other member
          rcases List.mem_cons.mp member with rfl | later
          · exact isKind
          · exact ih.2 (Nat.lt_of_succ_lt_succ long) other later
      · rw [if_neg isKind, if_neg isKind]
        exact ⟨fun _ => rfl, fun long => absurd long (Nat.not_lt_zero _)⟩

theorem isNumeral_of_digit {byte : UInt8} (digit : isDigit byte = true) : isNumeral byte = true := by
  simp only [isNumeral, digit, true_or, decide_true]

theorem isNumeral_of_xdigit {byte : UInt8} (digit : isXDigit byte = true) : isNumeral byte = true := by
  simp only [isXDigit, isNumeral, Bool.decide_or, Bool.decide_and, Bool.or_eq_true, Bool.and_eq_true,
    decide_eq_true_eq] at digit ⊢
  rcases digit with isDigit | ⟨low, high⟩ | ⟨low, high⟩
  · exact Or.inl isDigit
  · exact Or.inr (Or.inl ⟨low, UInt8.le_trans high (show (70 : UInt8) ≤ 90 by decide)⟩)
  · exact Or.inr (Or.inr (Or.inl ⟨low, UInt8.le_trans high (show (102 : UInt8) ≤ 122 by decide)⟩))

/-- Memory starts with `0x` or `0X` and a hexadecimal digit. -/
def StartsHex (memory : List UInt8) : Prop :=
  (memory.getD 1 0 = 120 ∨ memory.getD 1 0 = 88) ∧ isXDigit (memory.getD 2 0)

/-- What `strtoul` takes, if the base is open and memory starts with a zero. -/
theorem strtoul_zero (others : List UInt8) :
    (StartsHex (48 :: others) → strtoul (48 :: others) true =
      (min (digitsValue 16 ((others.drop 1).takeWhile isXDigit)) (2 ^ 64 - 1),
        2 + ((others.drop 1).takeWhile isXDigit).length)) ∧
      (¬ StartsHex (48 :: others) → strtoul (48 :: others) true =
        (min (digitsValue 8 ((48 :: others).takeWhile fun byte => 48 ≤ byte ∧ byte ≤ 55)) (2 ^ 64 - 1),
          ((48 :: others).takeWhile fun byte => 48 ≤ byte ∧ byte ≤ 55).length)) := by
  have zero : true = true ∧ (48 :: others).headD 0 = 48 := ⟨rfl, rfl⟩
  refine ⟨?_, ?_⟩
  · intro hex
    rw [StartsHex] at hex
    rw [strtoul, if_pos zero, if_pos hex]
    rfl
  · intro notHex
    rw [StartsHex] at notHex
    rw [strtoul, if_pos zero, if_neg notHex]

theorem startsHex_length {memory : List UInt8} (hex : StartsHex memory) :
    1 ≤ ((memory.drop 2).takeWhile isXDigit).length := by
  rcases memory with _ | ⟨first, _ | ⟨second, _ | ⟨third, rest⟩⟩⟩
  · exact absurd (show isXDigit 0 = true from hex.2) (by decide)
  · exact absurd (show isXDigit 0 = true from hex.2) (by decide)
  · exact absurd (show isXDigit 0 = true from hex.2) (by decide)
  · have digit : isXDigit third = true := hex.2
    rw [List.drop_succ_cons, List.drop_succ_cons, List.drop_zero, List.takeWhile_cons, if_pos digit, List.length_cons]
    exact Nat.succ_pos _

theorem strtoul_stops_zero (others beyond behind : List UInt8) :
    Stops (fun memory => strtoul memory true) (48 :: others) beyond behind := by
  have octal := @takeWhile_stops (fun byte => 48 ≤ byte ∧ byte ≤ 55) (by decide) (48 :: others) beyond behind
  rw [List.cons_append, List.cons_append] at octal
  have eight : ¬ StartsHex (48 :: (others ++ beyond)) → ¬ StartsHex (48 :: (others ++ 0 :: behind)) →
      Stops (fun memory => strtoul memory true) (48 :: others) beyond behind := by
    intro notHex notHex'
    refine ⟨?_, ?_⟩
    · simp only [List.cons_append, (strtoul_zero _).2 notHex, (strtoul_zero _).2 notHex']
      intro short
      rw [octal.1 short]
    · simp only [List.cons_append, (strtoul_zero _).2 notHex]
      intro long byte member
      have digit := octal.2 long byte member
      simp only [Bool.decide_and, Bool.and_eq_true, decide_eq_true_eq] at digit
      refine isNumeral_of_digit ?_
      simp only [isDigit, Bool.decide_and, Bool.and_eq_true, decide_eq_true_eq]
      exact ⟨digit.1, UInt8.le_trans digit.2 (show (55 : UInt8) ≤ 57 by decide)⟩
  -- a hexadecimal number that starts in front of the NUL and ends behind it
  have across : StartsHex (48 :: (others ++ beyond)) → (48 :: others).length ≤ 2 → (∀ byte ∈ others, isNumeral byte) →
      Stops (fun memory => strtoul memory true) (48 :: others) beyond behind := by
    intro hex few letters
    have digits := startsHex_length hex
    rw [List.drop_succ_cons] at digits
    refine ⟨?_, ?_⟩
    · simp only [List.cons_append, (strtoul_zero _).1 hex]
      intro short
      omega
    · intro _ byte member
      rcases List.mem_cons.mp member with rfl | later
      · rfl
      · exact letters byte later
  rcases others with _ | ⟨second, _ | ⟨third, rest⟩⟩
  · by_cases hex : StartsHex (48 :: ([] ++ beyond))
    · exact across hex (by decide) fun byte member => (List.not_mem_nil member).elim
    · refine eight hex ?_
      rintro ⟨letter, -⟩
      exact absurd (show (0 : UInt8) = 120 ∨ (0 : UInt8) = 88 from letter) (by decide)
  · by_cases hex : StartsHex (48 :: ([second] ++ beyond))
    · refine across hex (Nat.le_refl 2) ?_
      intro byte member
      rw [List.mem_singleton.mp member]
      rcases hex.1 with isLetter | isLetter
      · rw [show second = 120 from isLetter]
        rfl
      · rw [show second = 88 from isLetter]
        rfl
    · refine eight hex ?_
      rintro ⟨-, digit⟩
      exact absurd (show isXDigit 0 = true from digit) (by decide)
  · by_cases hex : StartsHex (48 :: second :: third :: rest)
    · have digits := @takeWhile_stops isXDigit (by decide) (third :: rest) beyond behind
      have hex1 : StartsHex (48 :: second :: third :: (rest ++ beyond)) := hex
      have hex2 : StartsHex (48 :: second :: third :: (rest ++ 0 :: behind)) := hex
      refine ⟨?_, ?_⟩
      · simp only [List.cons_append, (strtoul_zero _).1 hex1, (strtoul_zero _).1 hex2, List.length_cons,
          List.drop_succ_cons,
          List.drop_zero]
        intro short
        rw [List.cons_append, List.cons_append, List.length_cons] at digits
        rw [digits.1 (by omega)]
      · simp only [List.cons_append, (strtoul_zero _).1 hex1, List.length_cons, List.drop_succ_cons, List.drop_zero]
        intro long byte member
        rw [List.cons_append, List.length_cons] at digits
        rcases List.mem_cons.mp member with rfl | later
        · rfl
        · rcases List.mem_cons.mp later with rfl | last
          · rcases hex.1 with isLetter | isLetter
            · rw [show byte = 120 from isLetter]
              rfl
            · rw [show byte = 88 from isLetter]
              rfl
          · exact isNumeral_of_xdigit (digits.2 (by omega) byte last)
    · exact eight hex hex

theorem strtoul_stops (anyBase : Bool) {next : List UInt8}
    (starts : isDigit (next.headD 0) = true) (beyond behind : List UInt8) :
    Stops (fun memory => strtoul memory anyBase) next beyond behind := by
  rcases next with _ | ⟨first, others⟩
  · cases starts
  by_cases anyZero : anyBase = true ∧ first = 48
  · rcases anyZero with ⟨rfl, rfl⟩
    exact strtoul_stops_zero others beyond behind
  · have isFirst : ∀ rest : List UInt8, (first :: others ++ rest).headD 0 = first := fun _ => rfl
    have digits := @takeWhile_stops isDigit (by decide) (first :: others) beyond behind
    refine ⟨?_, ?_⟩
    · simp only [strtoul, isFirst, if_neg anyZero]
      intro short
      rw [digits.1 short]
    · simp only [strtoul, isFirst, if_neg anyZero]
      exact fun long byte member => isNumeral_of_digit (digits.2 long byte member)

/-- The longest text of a kind that memory starts with. -/
structure Longest (kind : List UInt8 → Prop) (memory text : List UInt8) : Prop where
  starts : text <+: memory
  isKind : kind text
  longest : ∀ other, other <+: memory → kind other → other.length ≤ text.length

def startsNumber (memory : List UInt8) : Bool :=
  isDigit (memory.headD 0) ∨ memory.headD 0 = 45 ∧ isDigit (memory.getD 1 0)

/-- What the C standard says of `strtod`: at a number it takes the longest
numeral, whose value it returns. -/
structure ReadsNumerals (numeral : List UInt8 → Prop) (value : List UInt8 → UInt64)
    (strtod : List UInt8 → UInt64 × Nat) : Prop where
  bytes : ∀ text, numeral text → ∀ byte ∈ text, isNumeral byte
  reads : ∀ memory, startsNumber memory → ∃ text, Longest numeral memory text ∧
    strtod memory = (value text, text.length)

theorem startsNumber_append {next : List UInt8} (starts : startsNumber next = true) (rest : List UInt8) :
    startsNumber (next ++ rest) = true := by
  rcases next with _ | ⟨first, _ | ⟨second, others⟩⟩
  · cases starts
  · simp only [startsNumber, List.headD_cons, List.getD_cons_succ, List.getD_nil, List.cons_append] at starts ⊢
    simp only [show isDigit 0 = false from rfl, Bool.false_eq_true, and_false, or_false, decide_eq_true_eq] at starts
    simp only [starts, true_or, decide_true]
  · exact starts

/-- `strtod` stops at a NUL. -/
theorem ReadsNumerals.stops {numeral : List UInt8 → Prop} {value : List UInt8 → UInt64}
    {strtod : List UInt8 → UInt64 × Nat} (reads : ReadsNumerals numeral value strtod) {next : List UInt8}
    (starts : startsNumber next = true) (beyond behind : List UInt8) : Stops strtod next beyond behind := by
  rcases reads.reads _ (startsNumber_append starts beyond) with ⟨first, isFirst, converted⟩
  rcases reads.reads _ (startsNumber_append starts (0 :: behind)) with ⟨second, isSecond, converted'⟩
  have inside : second.length ≤ next.length := by
    by_contra long
    have through : next ++ [0] <+: second := by
      refine List.prefix_of_prefix_length_le ?_ isSecond.starts ?_
      · exact ⟨behind, by rw [List.append_assoc]; rfl⟩
      · rw [List.length_append, List.length_singleton]
        omega
    have nul := reads.bytes second isSecond.isKind 0 (through.subset (List.mem_append_right _ List.mem_cons_self))
    exact absurd nul (by decide)
  have within : ∀ {text rest : List UInt8}, text <+: next ++ rest → text.length ≤ next.length → text <+: next :=
    fun starts short => List.prefix_of_prefix_length_le starts (List.prefix_append _ _) short
  refine ⟨?_, ?_⟩
  · intro short
    rw [converted] at short
    have firstIn := within isFirst.starts short
    have secondIn := within isSecond.starts inside
    have notLonger := isSecond.longest first (firstIn.trans (List.prefix_append _ _)) isFirst.isKind
    have notShorter := isFirst.longest second (secondIn.trans (List.prefix_append _ _)) isSecond.isKind
    have same : first = second :=
      (List.prefix_of_prefix_length_le firstIn secondIn notLonger).eq_of_length (Nat.le_antisymm notLonger notShorter)
    rw [converted, converted', same]
  · intro long byte member
    rw [converted] at long
    have through : next <+: first :=
      List.prefix_of_prefix_length_le (List.prefix_append _ _) isFirst.starts (Nat.le_of_lt long)
    exact reads.bytes first isFirst.isKind byte (through.subset member)

end Source

/-! ## Two runs -/

abbrev loadedFacing (beyond : List UInt8) (result : Source × Stack) :
    Source × Stack := (result.1.facing beyond, result.2)

section

variable (env : Env) (source : Source) (stack : Stack) (beyond : List UInt8)

theorem loadStringLoop_facing (idx fuel : Nat) (bytes : List UInt8) (space : Nat) :
    stack.loadStringLoop env idx fuel (source.facing beyond) bytes space =
      (stack.loadStringLoop env idx fuel source bytes space).map (loadedFacing beyond) := by
  induction fuel generalizing source stack bytes space with
  | zero => rfl
  | succ fuel ih =>
      rw [loadStringLoop, loadStringLoop, Source.facing_peekChar]
      by_cases quote : source.peekChar = 34
      · rw [if_pos quote, if_pos quote]
        rfl
      rw [if_neg quote, if_neg quote, Source.character_facing]
      cases source.character with
      | none => rfl
      | some read =>
          rcases read with ⟨chars, after⟩
          dsimp only [Option.map_some, Source.readFacing]
          by_cases short : space - 1 < chars.length
          · rw [if_pos short, if_pos short]
            cases onFailure (stack.expand env 1) fun stack => stack.truncate idx with
            | error failure => rfl
            | ok grown => exact ih after grown _ _
          · rw [if_neg short, if_neg short]
            exact ih after stack _ _

theorem loadString_facing :
    stack.loadString env (source.facing beyond) = (stack.loadString env source).map (loadedFacing beyond) := by
  have peeked : (source.facing beyond).skipSpace.peekChar = source.skipSpace.peekChar := rfl
  rw [loadString, loadString]
  dsimp only
  by_cases quote : source.skipSpace.peekChar = 34
  · rw [if_neg (not_not.mpr (peeked.trans quote)), if_neg (not_not.mpr quote)]
    cases stack.expand env 1 with
    | error failure => rfl
    | ok grown => exact loadStringLoop_facing env (source.skipSpace.consume 1) grown beyond _ _ _ _
  · rw [if_pos (peeked.trans_ne quote), if_pos quote]
    rfl

end

/-- Two runs that have the same result, but for the memory behind the source,
or that fail with the same fault. -/
inductive Alike (first second : List UInt8) :
    Except Failure (Source × Stack) → Except Failure (Source × Stack) → Prop where
  | same (outcome : Except Failure (Source × Stack)) :
      Alike first second (outcome.map (loadedFacing first)) (outcome.map (loadedFacing second))
  | failed (fault : Fault) {one other : Stack} (borrow : one.borrow = other.borrow) :
      Alike first second (.error ⟨fault, one⟩) (.error ⟨fault, other⟩)

namespace Alike

variable {first second : List UInt8} {one other : Except Failure (Source × Stack)}

theorem ok (source : Source) (stack : Stack) :
    Alike first second (.ok (source.facing first, stack)) (.ok (source.facing second, stack)) :=
      same (.ok (source, stack))

theorem error (failure : Failure) : Alike first second (.error failure) (.error failure) := same (.error failure)

theorem bind {next next' : Source × Stack → Except Failure (Source × Stack)} (alike : Alike first second one other)
    (further : ∀ (source : Source) stack,
      Alike first second (next (source.facing first, stack)) (next' (source.facing second, stack))) :
    Alike first second (one >>= next) (other >>= next') := by
  cases alike with
  | failed fault borrow => exact failed fault borrow
  | same outcome =>
      cases outcome with
      | error failure => exact error failure
      | ok result => exact further result.1 result.2

theorem bind_stack {call : Except Failure Stack} {next next' : Stack → Except Failure (Source × Stack)}
    (further : ∀ stack, Alike first second (next stack) (next' stack)) :
    Alike first second (call >>= next) (call >>= next') := by
  cases call with
  | error failure => exact error failure
  | ok stack => exact further stack

theorem ite {test test' : Prop} [Decidable test] [Decidable test'] (same : test ↔ test')
    {one' other' : Except Failure (Source × Stack)} (yes : test → Alike first second one other)
    (no : ¬ test → Alike first second one' other') :
    Alike first second (if test then one else one') (if test' then other else other') := by
  by_cases passed : test
  · rw [if_pos passed, if_pos (same.mp passed)]
    exact yes passed
  · rw [if_neg passed, if_neg (mt same.mpr passed)]
    exact no passed

theorem onFailure (alike : Alike first second one other) (idx : Nat) :
    Alike first second (Stack.onFailure one fun stack => stack.truncate idx)
      (Stack.onFailure other fun stack => stack.truncate idx) := by
  cases alike with
  | failed fault borrow => exact failed fault borrow
  | same outcome =>
      cases outcome with
      | error failure => exact error _
      | ok result => exact ok result.1 result.2

end Alike

/-! ## Numbers -/

/-- The value of the number that memory starts with, and the number of bytes
that the conversion takes. -/
def convert (ops : FloatOps) (allowHex isUint : Bool) (memory : List UInt8) : Body (List Token) × Nat :=
  if isUint then
    let (value, taken) := Source.strtoul memory allowHex
    (.integer value, taken)
  else
    let (bits, taken) := ops.strtod memory
    (.number bits, taken)

theorem loadNumber_eq (env : Env) (source : Source) (stack : Stack) (idx : Nat) :
    stack.loadNumber env source idx =
      match source.getNumber with
      | none => .error ⟨.invalid, stack⟩
      | some (isUint, behind) =>
          .ok (behind, stack.setHead idx { kind := .number, isUint := isUint }
            (convert env.ops source.allowHex isUint source.memory).1) := by
  rw [loadNumber]
  cases source.getNumber with
  | none => rfl
  | some number =>
      rcases number with ⟨isUint, behind⟩
      cases isUint with
      | true => rfl
      | false => rfl

section

variable {source behind : Source}

theorem getNumber_starts {isUint : Bool} (read : source.getNumber = some (isUint, behind)) :
    Source.startsNumber source.next = true := by
  rw [Source.getNumber] at read
  split_ifs at read with digit
  all_goals
    simp only [Source.startsNumber, decide_eq_true_eq]
    rw [Source.afterMinus] at digit
    by_cases minus : source.peekChar = 45
    · rw [if_pos minus] at digit
      refine Or.inr ⟨minus, ?_⟩
      rw [← digit, Source.peekChar, Source.consume, List.headD_eq_head?_getD, List.head?_drop,
        List.getD_eq_getElem?_getD]
    · rw [if_neg minus] at digit
      exact Or.inl digit

theorem getNumber_uint_starts (read : source.getNumber = some (true, behind)) :
    Source.isDigit (source.next.headD 0) = true := by
  rw [Source.getNumber] at read
  split_ifs at read with digit hex
  · rw [← Source.peekChar, hex.2.1]
    rfl
  · rcases Option.bind_eq_some_iff.mp read with ⟨⟨noFraction, middle⟩, -, rest⟩
    rcases Option.map_eq_some_iff.mp rest with ⟨⟨noExponent, after⟩, -, same⟩
    have positive := congrArg Prod.fst same
    simp only [Bool.and_eq_true, decide_eq_true_eq] at positive
    rw [Source.afterMinus, if_neg positive.1.1] at digit
    exact digit

/-- The conversion of a number stops at a NUL. -/
theorem convert_stops {ops : FloatOps} {numeral : List UInt8 → Prop} {value : List UInt8 → UInt64}
    (standard : Source.ReadsNumerals numeral value ops.strtod) {isUint : Bool}
    (read : source.getNumber = some (isUint, behind)) (first second : List UInt8) :
    Source.Stops (convert ops source.allowHex isUint) source.next first second := by
  cases isUint with
  | true =>
      have stops := Source.strtoul_stops source.allowHex (getNumber_uint_starts read) first second
      refine ⟨?_, stops.numeral⟩
      intro short
      exact congrArg (fun converted : Nat × Nat => (Body.integer converted.1, converted.2)) (stops.same short)
  | false =>
      have stops := standard.stops (getNumber_starts read) first second
      refine ⟨?_, stops.numeral⟩
      intro short
      exact congrArg (fun converted : UInt64 × Nat => (Body.number converted.1, converted.2)) (stops.same short)

end

/-- Two runs that have loaded a number with bytes of a numeral behind it, to
the end of the source.  The numbers need not be the same. -/
inductive Ran (first second : List UInt8) :
    Except Failure (Source × Stack) → Except Failure (Source × Stack) → Prop where
  | number (left : Source) (stack : Stack) (idx : Nat) (type : TypeWord) (body body' : Body (List Token))
      (numerals : ∀ byte ∈ left.next, Source.isNumeral byte) :
      Ran first second (.ok (left.facing first, stack.setHead idx type body))
        (.ok (left.facing second, stack.setHead idx type body'))

theorem Ran.onFailure {first second : List UInt8} {one other : Except Failure (Source × Stack)}
    (ran : Ran first second one other) (change : Stack → Stack) :
    Ran first second (Stack.onFailure one change) (Stack.onFailure other change) := by
  cases ran with
  | number left stack idx type body body' numerals => exact Ran.number left stack idx type body body' numerals

/-- The numeral at which a source starts does not end a collection or a
cast. -/
theorem peekChar_of_numerals {left : Source} (numerals : ∀ byte ∈ left.next, Source.isNumeral byte) {c : UInt8}
    (nonzero : c ≠ 0) (other : Source.isNumeral c = false) : left.skipSpace.peekChar ≠ c := by
  intro same
  rw [Source.peekChar] at same
  cases rest : left.skipSpace.next with
  | nil =>
      rw [rest] at same
      exact nonzero same.symm
  | cons byte others =>
      rw [rest] at same
      have member : byte ∈ left.next := by
        refine (Behind.skipSpace left).suffix.subset ?_
        rw [rest]
        exact List.mem_cons_self
      have isNumeral := numerals byte member
      rw [show byte = c from same, other] at isNumeral
      cases isNumeral

section

variable {first second : List UInt8} {env : Env}

theorem loadNumber_alike {numeral : List UInt8 → Prop} {value : List UInt8 → UInt64}
    (standard : Source.ReadsNumerals numeral value env.ops.strtod) (source : Source) (stack : Stack) (idx : Nat) :
    Alike first (0 :: second) (stack.loadNumber env (source.facing first) idx)
        (stack.loadNumber env (source.facing (0 :: second)) idx) ∨
      Ran first (0 :: second) (stack.loadNumber env (source.facing first) idx)
        (stack.loadNumber env (source.facing (0 :: second)) idx) := by
  rw [loadNumber_eq, loadNumber_eq, Source.getNumber_facing, Source.getNumber_facing]
  cases read : source.getNumber with
  | none => exact Or.inl (Alike.error _)
  | some number =>
      rcases number with ⟨isUint, behind⟩
      have stops := convert_stops standard read first second
      by_cases short : (convert env.ops source.allowHex isUint (source.next ++ first)).2 ≤ source.next.length
      · have same := stops.same short
        refine Or.inl ?_
        dsimp only [Option.map_some, Source.readFacing, Source.memory, Source.facing_next, Source.facing_beyond,
          Source.facing]
        rw [same]
        exact Alike.ok behind _
      · have numerals := stops.numeral (Nat.lt_of_not_le short)
        have later := (getNumber_behind read).1
        exact Or.inr (Ran.number behind _ _ _ _ _ fun byte member => numerals byte (later.suffix.subset member))

/-! ## Casts -/

theorem giveBack_alike {one other iou : Stack} (borrow : one.borrow = other.borrow)
    {next next' : Stack → Except Failure (Source × Stack)}
    (further : ∀ one other : Stack, one.borrow = other.borrow → Alike first second (next one) (next' other)) :
    Alike first second (one.giveBack iou >>= next) (other.giveBack iou >>= next') := by
  rw [giveBack, giveBack, ← borrow]
  by_cases returned : one.borrow = iou.count
  · rw [if_neg (not_not.mpr returned), if_neg (not_not.mpr returned)]
    exact further _ _ rfl
  · rw [if_pos returned, if_pos returned]
    exact Alike.failed _ borrow

/-- Whether a value can be taken from a stack does not depend on the value of a
number in it. -/
theorem getJitson_setHead (env : Env) (stack : Stack) (idx : Nat) (type : TypeWord) (body body' : Body (List Token)) :
    (∃ fault one other, getJitson env (stack.setHead idx type body) = .error ⟨fault, one⟩ ∧
        getJitson env (stack.setHead idx type body') = .error ⟨fault, other⟩ ∧ one.borrow = other.borrow) ∨
      ∃ taken taken' : Pointer × Stack, getJitson env (stack.setHead idx type body) = .ok taken ∧
        getJitson env (stack.setHead idx type body') = .ok taken' ∧ taken.2.borrow = taken'.2.borrow := by
  have counted : (stack.setHead idx type body').count = (stack.setHead idx type body).count := by
    simp only [setHead, write, count, List.length_append, List.length_singleton]
  have fields : ∀ body, (stack.setHead idx type body).allocated = stack.allocated ∧
      (stack.setHead idx type body).opened = stack.opened ∧ (stack.setHead idx type body).borrow = stack.borrow :=
    fun _ => ⟨rfl, rfl, rfl⟩
  simp only [getJitson, counted, (fields _).1, (fields _).2.1, (fields _).2.2]
  split
  · exact Or.inl ⟨_, _, _, rfl, rfl, rfl⟩
  · split
    · split
      · exact Or.inl ⟨_, _, _, rfl, rfl, rfl⟩
      · split
        · exact Or.inr ⟨_, _, rfl, rfl, rfl⟩
        · exact Or.inl ⟨_, _, _, rfl, rfl, rfl⟩
    · exact Or.inr ⟨_, _, rfl, rfl, rfl⟩

theorem finishCast_ok (env : Env) (iou : Stack) (source : Source) (stack : Stack) :
    finishCast env iou (.ok (source, stack)) =
      match getJitson env stack with
      | .error failure => failure.stack.giveBack iou >>= fun stack => .error ⟨failure.fault, stack⟩
      | .ok (value, stack) => stack.giveBack iou >>= fun stack =>
          if source.skipSpace.peekChar ≠ 41 then .error ⟨.invalid, stack⟩
          else rangeCast env stack value >>= fun stack => .ok (source.skipSpace.consume 1, stack) := by
  simp only [finishCast, ok_bind]
  cases getJitson env stack with
  | error failure => rfl
  | ok taken => rfl

theorem finishCast_alike (iou : Stack) {one other : Except Failure (Source × Stack)}
    (runs : Alike first second one other ∨ Ran first second one other) :
    Alike first second (finishCast env iou one) (finishCast env iou other) := by
  have failing : ∀ {fault : Fault} {one other : Stack}, one.borrow = other.borrow →
      Alike first second (one.giveBack iou >>= fun stack => .error ⟨fault, stack⟩)
        (other.giveBack iou >>= fun stack => .error ⟨fault, stack⟩) :=
    fun borrow => giveBack_alike borrow fun _ _ same => Alike.failed _ same
  rcases runs with alike | ran
  · cases alike with
    | failed fault borrow => exact failing borrow
    | same outcome =>
        cases outcome with
        | error failure => exact failing rfl
        | ok result =>
            rcases result with ⟨source, stack⟩
            simp only [Except.map, finishCast_ok]
            cases getJitson env stack with
            | error failure => exact failing rfl
            | ok taken =>
                refine Alike.bind_stack ?_
                intro stack
                refine Alike.ite Iff.rfl (fun _ => Alike.error _) fun _ => ?_
                refine Alike.bind_stack ?_
                intro stack
                exact Alike.ok (source.skipSpace.consume 1) stack
  · cases ran with
    | number left stack idx type body body' numerals =>
        have unclosed : left.skipSpace.peekChar ≠ 41 := peekChar_of_numerals numerals (by decide) (by decide)
        rw [finishCast_ok, finishCast_ok]
        rcases getJitson_setHead env stack idx type body body' with ⟨fault, one, other, failed, failed', borrow⟩ |
          ⟨taken, taken', got, got', borrow⟩
        · rw [failed, failed']
          exact failing borrow
        · rw [got, got']
          refine giveBack_alike borrow ?_
          intro one other same
          rw [if_pos (show (left.facing first).skipSpace.peekChar ≠ 41 from unclosed),
            if_pos (show (left.facing second).skipSpace.peekChar ≠ 41 from unclosed)]
          exact Alike.failed _ same


/-! ## Values -/

/-- The two runs of the parser from a source in front of two memories. -/
def LoadsAlike (first second : List UInt8) (env : Env) (fuel : Nat) : Prop :=
  ∀ (source : Source) (stack : Stack),
    Alike first second (stack.loadJson env fuel (source.facing first))
      (stack.loadJson env fuel (source.facing second)) ∨
      Ran first second (stack.loadJson env fuel (source.facing first)) (stack.loadJson env fuel (source.facing second))

def LoadsMembersAlike (first second : List UInt8) (env : Env) (fuel : Nat) : Prop :=
  ∀ (source : Source) (stack : Stack) idx c, Alike first second (stack.loadMembers env fuel (source.facing first) idx c)
    (stack.loadMembers env fuel (source.facing second) idx c)

def LoadsElementsAlike (first second : List UInt8) (env : Env) (fuel : Nat) : Prop :=
  ∀ (source : Source) (stack : Stack) idx, Alike first second (stack.loadElements env fuel (source.facing first) idx)
    (stack.loadElements env fuel (source.facing second) idx)

theorem loadString_alike (source : Source) (stack : Stack) :
    Alike first second (stack.loadString env (source.facing first)) (stack.loadString env (source.facing second)) := by
  rw [loadString_facing, loadString_facing]
  exact Alike.same _

theorem checkParsed_borrow (stack : Stack) (optimize : Bool) (idx previous current : Nat) :
    (stack.checkParsed env optimize idx previous current).borrow = stack.borrow := by
  rw [checkParsed]
  split
  · rfl
  · rfl

theorem loadElements_alike {fuel : Nat} (values : LoadsAlike first second env fuel)
    (elements : LoadsElementsAlike first second env fuel) : LoadsElementsAlike first second env (fuel + 1) := by
  intro source stack idx
  simp only [loadElements]
  rcases values source stack with alike | ran
  · refine Alike.bind alike ?_
    intro behind after
    refine Alike.ite Iff.rfl (fun _ => ?_) fun _ => ?_
    · exact elements (behind.skipSpace.consume 1) _ idx
    · exact Alike.ite Iff.rfl (fun _ => Alike.ok (behind.skipSpace.consume 1) _) fun _ => Alike.error _
  · generalize stack.loadJson env fuel (source.facing first) = one at ran
    generalize stack.loadJson env fuel (source.facing second) = other at ran
    cases ran with
    | number left after idx' type body body' numerals =>
        have comma : left.skipSpace.peekChar ≠ 44 := peekChar_of_numerals numerals (by decide) (by decide)
        have bracket : left.skipSpace.peekChar ≠ 93 := peekChar_of_numerals numerals (by decide) (by decide)
        refine Alike.ite Iff.rfl (fun isComma => absurd isComma comma) fun _ => ?_
        refine Alike.ite Iff.rfl (fun isBracket => absurd isBracket bracket) fun _ => ?_
        refine Alike.failed _ ?_
        exact (checkParsed_borrow (after.setHead idx' type body) _ _ _ _).trans
          (checkParsed_borrow (after.setHead idx' type body') _ _ _ _).symm

theorem loadMembers_alike {fuel : Nat} (values : LoadsAlike first second env fuel)
    (members : LoadsMembersAlike first second env fuel) : LoadsMembersAlike first second env (fuel + 1) := by
  intro source stack idx c
  simp only [loadMembers]
  refine Alike.ite Iff.rfl (fun _ => Alike.error _) fun _ => ?_
  refine Alike.bind (loadString_alike source stack) ?_
  intro afterName named
  refine Alike.ite Iff.rfl (fun _ => Alike.error _) fun _ => ?_
  have value := values (afterName.skipSpace.consume 1) named
  simp only [Source.facing_skipSpace, Source.facing_consume]
  rcases value with alike | ran
  · refine Alike.bind alike ?_
    intro behind after
    refine Alike.ite Iff.rfl (fun _ => ?_) fun _ => ?_
    · exact members (behind.skipSpace.consume 1).skipSpace _ idx _
    · exact Alike.ite Iff.rfl (fun _ => Alike.ok (behind.skipSpace.consume 1) _) fun _ => Alike.error _
  · generalize named.loadJson env fuel ((afterName.skipSpace.consume 1).facing first) = one at ran
    generalize named.loadJson env fuel ((afterName.skipSpace.consume 1).facing second) = other at ran
    cases ran with
    | number left after idx' type body body' numerals =>
        have comma : left.skipSpace.peekChar ≠ 44 := peekChar_of_numerals numerals (by decide) (by decide)
        have brace : left.skipSpace.peekChar ≠ 125 := peekChar_of_numerals numerals (by decide) (by decide)
        refine Alike.ite Iff.rfl (fun isComma => absurd isComma comma) fun _ => ?_
        refine Alike.ite Iff.rfl (fun isBrace => absurd isBrace brace) fun _ => ?_
        exact Alike.failed _ rfl

/-- Values that are no numbers. -/
theorem loadJson_alike {fuel : Nat} (values : LoadsAlike first second env fuel)
    (members : LoadsMembersAlike first second env fuel) (elements : LoadsElementsAlike first second env fuel)
    (source : Source) (stack : Stack) (noNumber : charClass source.skipSpace.peekChar ≠ .number) :
    Alike first second (stack.loadJson env (fuel + 1) (source.facing first))
      (stack.loadJson env (fuel + 1) (source.facing second)) := by
  simp only [loadJson, Source.facing_skipSpace, Source.facing_peekChar]
  refine Alike.ite Iff.rfl (fun _ => Alike.error _) fun _ => ?_
  refine Alike.bind_stack ?_
  intro grown
  cases isClass : charClass source.skipSpace.peekChar with
  | number => exact absurd isClass noNumber
  | other => exact Alike.error _
  | quote => exact loadString_alike _ _
  | brace =>
      refine Alike.ite Iff.rfl (fun _ => Alike.ok ((source.skipSpace.consume 1).skipSpace.consume 1) _) fun _ => ?_
      exact (members (source.skipSpace.consume 1).skipSpace _ _ _).onFailure _
  | bracket =>
      refine Alike.ite Iff.rfl (fun _ => Alike.ok ((source.skipSpace.consume 1).skipSpace.consume 1) _) fun _ => ?_
      exact (elements (source.skipSpace.consume 1).skipSpace _ _).onFailure _
  | letter =>
      simp only [Source.facing_next, Source.facing_flags]
      cases constGet env source.skipSpace.allowConsts (source.skipSpace.next.takeWhile Source.isIdentifier) with
      | none =>
          refine Alike.ite Iff.rfl (fun _ => ?_) fun _ => Alike.error _
          refine Alike.bind_stack ?_
          intro after
          exact Alike.ok source.skipSpace.getIdentifier.2 after
      | some constant =>
          cases constant with
          | value pointer =>
              refine Alike.bind_stack ?_
              intro after
              exact Alike.ok source.skipSpace.getIdentifier.2 after
          | rangeCast =>
              refine Alike.ite Iff.rfl (fun _ => Alike.error _) fun _ => ?_
              refine (finishCast_alike _ ?_).onFailure _
              exact values (source.skipSpace.getIdentifier.2.skipSpace.consume 1) _

theorem charClass_number {byte : UInt8} (isNumber : charClass byte = .number) : byte ≠ 0 := by
  rintro rfl
  cases isNumber

theorem loadJson_number (fuel : Nat) {source : Source} (stack : Stack)
    (isNumber : charClass source.skipSpace.peekChar = .number) :
    stack.loadJson env (fuel + 1) source = stack.expand env 1 >>= fun grown =>
      onFailure (loadNumber env source.skipSpace (grown.setLast stack.count) stack.count) fun stack' =>
        stack'.truncate stack.count := by
  simp only [loadJson, if_neg (charClass_number isNumber), isNumber]

/-- The parser does not tell memory from other memory with a NUL in front, but
for a number that runs on to the end of the source. -/
theorem loads_alike {numeral : List UInt8 → Prop} {value : List UInt8 → UInt64}
    (standard : Source.ReadsNumerals numeral value env.ops.strtod) (first second : List UInt8) (fuel : Nat) :
    LoadsAlike first (0 :: second) env fuel ∧ LoadsMembersAlike first (0 :: second) env fuel ∧
      LoadsElementsAlike first (0 :: second) env fuel := by
  induction fuel with
  | zero =>
      exact ⟨fun _ _ => Or.inl (Alike.error _), fun _ _ _ _ => Alike.error _, fun _ _ _ => Alike.error _⟩
  | succ fuel ih =>
      rcases ih with ⟨values, members, elements⟩
      refine ⟨?_, loadMembers_alike values members, loadElements_alike values elements⟩
      intro source stack
      by_cases isNumber : charClass source.skipSpace.peekChar = .number
      · rw [loadJson_number fuel stack (show charClass (source.facing first).skipSpace.peekChar = _ from isNumber),
          loadJson_number fuel stack (show charClass (source.facing (0 :: second)).skipSpace.peekChar =
            _ from isNumber)]
        cases stack.expand env 1 with
        | error failure => exact Or.inl (Alike.error failure)
        | ok grown =>
            rcases loadNumber_alike standard source.skipSpace (grown.setLast stack.count) stack.count with alike | ran
            · exact Or.inl (alike.onFailure _)
            · exact Or.inr (ran.onFailure fun after => after.truncate stack.count)
      · exact Or.inl (loadJson_alike values members elements source stack isNumber)

end

/-! ## Bounded sources -/

/-- What a caller sees of a call: the bytes that are left and the stack, or the
fault. -/
def outcome : Except Failure (Source × Stack) → Except Fault (List UInt8 × Stack)
  | .ok (source, stack) => .ok (source.next, stack)
  | .error failure => .error failure.fault

theorem Alike.outcome_eq {first second : List UInt8} {one other : Except Failure (Source × Stack)}
    (alike : Alike first second one other) : outcome one = outcome other := by
  cases alike with
  | failed fault borrow => rfl
  | same result =>
      cases result with
      | error failure => rfl
      | ok loaded => rfl

/-- A source starts with a number, and the numeral there runs on in the memory
behind the source, to another value. -/
def RunsOn (ops : FloatOps) (source : Source) (beyond : List UInt8) : Prop :=
  ∃ isUint behind, source.skipSpace.getNumber = some (isUint, behind) ∧
    source.skipSpace.next.length < (convert ops source.allowHex isUint (source.skipSpace.next ++ beyond)).2 ∧
    (convert ops source.allowHex isUint (source.skipSpace.next ++ beyond)).1 ≠
      (convert ops source.allowHex isUint source.skipSpace.memory).1

theorem startsNumber_class {source : Source} (starts : Source.startsNumber source.next = true) :
    charClass source.peekChar = .number := by
  simp only [Source.startsNumber, Source.isDigit, Bool.decide_and, Bool.and_eq_true, decide_eq_true_eq] at starts
  have isNumber : source.peekChar = 45 ∨ (48 ≤ source.peekChar ∧ source.peekChar ≤ 57) := by
    rcases starts with digit | ⟨minus, -⟩
    · exact Or.inr digit
    · exact Or.inl minus
  have others : source.peekChar ≠ 34 ∧ source.peekChar ≠ 123 ∧ source.peekChar ≠ 91 := by
    rcases isNumber with minus | ⟨low, high⟩
    · rw [minus]
      decide
    · refine ⟨?_, ?_, ?_⟩
      · intro same
        rw [same] at low
        exact absurd low (by decide)
      · intro same
        rw [same] at high
        exact absurd high (by decide)
      · intro same
        rw [same] at high
        exact absurd high (by decide)
  rw [charClass, if_neg others.1, if_neg others.2.1, if_neg others.2.2, if_pos isNumber]

theorem setHead_injective {stack : Stack} {idx : Nat} {type : TypeWord} {body body' : Body (List Token)}
    (same : stack.setHead idx type body = stack.setHead idx type body') : body = body' := by
  have tokens := congrArg Stack.jitsons same
  simp only [setHead, write, List.append_assoc] at tokens
  have rest := List.append_cancel_left tokens
  cases rest
  rfl

/-- Parsing a buffer has the outcome of parsing a copy of it that ends with a
NUL, unless the buffer holds a number that runs on behind its end, to another
value. -/
theorem bounded_source_iff {env : Env} {numeral : List UInt8 → Prop} {value : List UInt8 → UInt64}
    (standard : Source.ReadsNumerals numeral value env.ops.strtod) (text beyond behind : List UInt8) (flags : Flags)
    (stack : Stack) :
    outcome (stack.load env (.fromBuffer text beyond flags)) =
      outcome (stack.load env (.fromString text behind flags)) ↔
      ¬ ((∃ grown, stack.expand env 1 = .ok grown) ∧ RunsOn env.ops (.fromString text behind flags) beyond) := by
  generalize isSource : Source.fromString text behind flags = source
  have isBuffer : Source.fromBuffer text beyond flags = source.facing beyond := by rw [← isSource]; rfl
  have isString : source = source.facing (0 :: behind) := by rw [← isSource]; rfl
  have loadBuffer : stack.load env (source.facing beyond) =
      stack.loadJson env (2 * source.next.length + 1 + 1) (source.facing beyond) := rfl
  have loadString : stack.load env source = stack.loadJson env (2 * source.next.length + 1 + 1) source := rfl
  rw [isBuffer, loadBuffer, loadString]
  by_cases isNumber : charClass source.skipSpace.peekChar = .number
  · rw [loadJson_number _ stack (show charClass (source.facing beyond).skipSpace.peekChar = _ from isNumber),
      loadJson_number _ stack isNumber]
    cases expanded : stack.expand env 1 with
    | error failure =>
        refine iff_of_true rfl ?_
        rintro ⟨⟨grown, isGrown⟩, -⟩
        cases isGrown
    | ok grown =>
        rw [ok_bind, ok_bind, loadNumber_eq, loadNumber_eq, Source.facing_skipSpace, Source.getNumber_facing]
        cases read : source.skipSpace.getNumber with
        | none =>
            refine iff_of_true rfl ?_
            rintro ⟨-, isUint, after, number, -⟩
            rw [read] at number
            cases number
        | some number =>
            rcases number with ⟨isUint, after⟩
            have stops := convert_stops standard read beyond behind
            have memory : source.skipSpace.memory = source.skipSpace.next ++ 0 :: behind :=
              congrArg (source.skipSpace.next ++ ·) (congrArg Source.beyond isString)
            constructor
            · rintro same ⟨-, isUint', after', read', -, differs⟩
              rw [read] at read'
              cases read'
              exact differs (setHead_injective (congrArg Prod.snd (Except.ok.inj same)))
            · intro bounded
              have same : (convert env.ops source.allowHex isUint (source.skipSpace.next ++ beyond)).1 =
                  (convert env.ops source.allowHex isUint source.skipSpace.memory).1 := by
                by_contra differs
                refine bounded ⟨⟨grown, rfl⟩, isUint, after, read, ?_, differs⟩
                by_contra short
                refine differs ?_
                rw [memory]
                exact congrArg Prod.fst (stops.same (Nat.le_of_not_lt short))
              exact congrArg (fun body => Except.ok (after.next, (grown.setLast stack.count).setHead stack.count
                { kind := .number, isUint := isUint } body)) same
  · refine iff_of_true ?_ ?_
    · rcases loads_alike standard beyond behind (2 * source.next.length + 1) with ⟨values, members, elements⟩
      have alike := loadJson_alike values members elements source stack isNumber
      rw [← isString] at alike
      exact alike.outcome_eq
    · rintro ⟨-, isUint, after, read, -⟩
      exact isNumber (startsNumber_class (getNumber_starts read))

/-! ## An example -/

def isWhole (text : List UInt8) : Bool :=
  let digits := if text.headD 0 = 45 then text.drop 1 else text
  !digits.isEmpty && digits.all Source.isDigit

/-- The double with the value of a whole number below `2 ^ 53`. -/
def wholeBits (text : List UInt8) : UInt64 :=
  let negative := text.headD 0 = 45
  let value := Source.digitsValue 10 (if negative then text.drop 1 else text)
  let magnitude := if value = 0 then 0
    else (1023 + value.log2) * 2 ^ 52 + (value - 2 ^ value.log2) * 2 ^ (52 - value.log2)
  UInt64.ofNat (if negative then 2 ^ 63 + magnitude else magnitude)

/-- A conversion of the longest text of a kind. -/
def longestStrtod (isKind : List UInt8 → Bool) (memory : List UInt8) : UInt64 × Nat :=
  let taken := Nat.findGreatest (fun count => isKind (memory.take count)) memory.length
  (wholeBits (memory.take taken), taken)

/-- `strtod` for whole numbers. -/
def wholeStrtod (memory : List UInt8) : UInt64 × Nat := longestStrtod isWhole memory

theorem readsNumerals_longest {isKind : List UInt8 → Bool}
    (bytes : ∀ text, isKind text = true → ∀ byte ∈ text, Source.isNumeral byte)
    (starts : ∀ memory, Source.startsNumber memory = true → ∃ count, count ≤ memory.length ∧
      isKind (memory.take count) = true) :
    Source.ReadsNumerals (fun text => isKind text = true) wholeBits (longestStrtod isKind) := by
  refine ⟨bytes, ?_⟩
  intro memory isNumber
  rcases starts memory isNumber with ⟨count, inside, whole⟩
  have found := @Nat.findGreatest_spec count (fun count => isKind (memory.take count) = true) _ _ inside whole
  have bound : (longestStrtod isKind memory).2 ≤ memory.length := Nat.findGreatest_le _
  refine ⟨memory.take (longestStrtod isKind memory).2, ⟨List.take_prefix _ _, found, ?_⟩, ?_⟩
  · intro other starts isOther
    rw [List.length_take, Nat.min_eq_left bound]
    refine @Nat.le_findGreatest _ (fun count => isKind (memory.take count) = true) _ _ starts.length_le ?_
    rw [← List.prefix_iff_eq_take.mp starts]
    exact isOther
  · rw [List.length_take, Nat.min_eq_left bound]
    rfl

theorem isWhole_bytes {text : List UInt8} (whole : isWhole text = true) : ∀ byte ∈ text, Source.isNumeral byte := by
  intro byte member
  simp only [isWhole, Bool.and_eq_true, List.all_eq_true] at whole
  rcases text with _ | ⟨first, others⟩
  · cases member
  · by_cases minus : first = 45
    · rw [if_pos (show (first :: others).headD 0 = 45 from minus)] at whole
      rcases List.mem_cons.mp member with rfl | later
      · rw [minus]
        rfl
      · exact Source.isNumeral_of_digit (whole.2 byte later)
    · rw [if_neg (show ¬ (first :: others).headD 0 = 45 from minus)] at whole
      exact Source.isNumeral_of_digit (whole.2 byte member)

theorem startsNumber_whole {memory : List UInt8} (starts : Source.startsNumber memory = true) :
    ∃ count, count ≤ memory.length ∧ isWhole (memory.take count) = true := by
  simp only [Source.startsNumber, decide_eq_true_eq] at starts
  rcases memory with _ | ⟨first, others⟩
  · exact absurd starts (by decide)
  · rcases starts with digit | ⟨minus, digit⟩
    · refine ⟨1, Nat.succ_le_succ (Nat.zero_le _), ?_⟩
      have isDigit : Source.isDigit first = true := digit
      have unsigned : first ≠ 45 := by
        rintro rfl
        exact absurd isDigit (by decide)
      simp [isWhole, unsigned, isDigit]
    · rcases others with _ | ⟨second, others⟩
      · exact absurd (show Source.isDigit 0 = true from digit) (by decide)
      · refine ⟨2, Nat.succ_le_succ (Nat.succ_le_succ (Nat.zero_le _)), ?_⟩
        have isDigit : Source.isDigit second = true := digit
        have signed : first = 45 := minus
        simp [isWhole, signed, isDigit]

theorem readsNumerals_whole : Source.ReadsNumerals (fun text => isWhole text = true) wholeBits wholeStrtod :=
  readsNumerals_longest (fun _ whole => isWhole_bytes whole) fun _ starts => startsNumber_whole starts

def wholeEnv : Env where
  ops := ⟨fun _ _ => false, fun _ _ => false, fun _ => 0, fun _ => 0, wholeStrtod⟩
  alloc _ := true
  optimize := false

def emptyStack : Stack := ⟨1, [], true, 0, 0, 0⟩

/-- The number `-1` in front of a comma. -/
theorem bounded_source_comma :
    outcome (emptyStack.load wholeEnv (.fromBuffer [45, 49] [44, 50] {})) =
      outcome (emptyStack.load wholeEnv (.fromString [45, 49] [] {})) := by
  refine (@bounded_source_iff wholeEnv _ _ readsNumerals_whole [45, 49] [44, 50] [] {} emptyStack).mpr ?_
  rintro ⟨-, isUint, behind, read, long, -⟩
  cases isUint with
  | true => cases read
  | false => exact absurd long (by decide)

/-- The number `1` in front of the byte `2` is twelve. -/
theorem bounded_source_runs_on :
    outcome (emptyStack.load wholeEnv (.fromBuffer [49] [50] {})) =
        .ok ([], ⟨1, [.head { kind := .number, isUint := true } 0 (.integer 12)], true, 0, 0, 0⟩) ∧
      outcome (emptyStack.load wholeEnv (.fromString [49] [] {})) =
        .ok ([], ⟨1, [.head { kind := .number, isUint := true } 0 (.integer 1)], true, 0, 0, 0⟩) ∧
      outcome (emptyStack.load wholeEnv (.fromBuffer [49] [50] {})) ≠
        outcome (emptyStack.load wholeEnv (.fromString [49] [] {})) := by
  refine ⟨rfl, rfl, ?_⟩
  intro same
  cases same

end Jitson
end LibKit
