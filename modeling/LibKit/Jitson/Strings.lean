import LibKit.Jitson.Completeness

namespace LibKit
namespace Jitson

open Stack

/-!
# The text of a string

What RFC 8259 says that a string means.  An escape `\uXXXX` is a code unit of
UTF-16, so two of them that are a surrogate pair are one character, and half of
a pair is none.  `sxe_jitson_stack_load_string` encodes each code unit by
itself.
-/

/-! ## Literals -/

inductive Simple where
  | quote
  | backslash
  | solidus
  | backspace
  | formFeed
  | lineFeed
  | carriageReturn
  | tab
deriving DecidableEq

def Simple.letter : Simple → UInt8
  | .quote => 34
  | .backslash => 92
  | .solidus => 47
  | .backspace => 98
  | .formFeed => 102
  | .lineFeed => 110
  | .carriageReturn => 114
  | .tab => 116

def Simple.char : Simple → Char
  | .quote => Char.ofNat 34
  | .backslash => Char.ofNat 92
  | .solidus => Char.ofNat 47
  | .backspace => Char.ofNat 8
  | .formFeed => Char.ofNat 12
  | .lineFeed => Char.ofNat 10
  | .carriageReturn => Char.ofNat 13
  | .tab => Char.ofNat 9

structure CodeUnit where
  digits : List UInt8
  four : digits.length = 4
  areDigits : ∀ byte ∈ digits, Source.isXDigit byte = true

def CodeUnit.value (unit : CodeUnit) : Nat := Source.digitsValue 16 unit.digits

/-- A character that stands for itself, or an escape. -/
inductive Part where
  | raw (char : Char) (unescaped : 32 ≤ char.toNat ∧ char.toNat ≠ 34 ∧ char.toNat ≠ 92)
  | simple (escape : Simple)
  | unicode (unit : CodeUnit)

def Part.bytes : Part → List UInt8
  | .raw char _ => String.utf8EncodeChar char
  | .simple escape => [92, escape.letter]
  | .unicode unit => 92 :: 117 :: unit.digits

def literal (parts : List Part) : List UInt8 := quoted (parts.flatMap Part.bytes)

/-! ## Meaning -/

def isHigh (unit : Nat) : Bool := 0xD800 ≤ unit ∧ unit ≤ 0xDBFF

def isLow (unit : Nat) : Bool := 0xDC00 ≤ unit ∧ unit ≤ 0xDFFF

def paired (high low : Nat) : Nat := 0x10000 + (high - 0xD800) * 0x400 + (low - 0xDC00)

/-- The characters of a literal, after the first half of a surrogate pair if
there is one, unless there is half of a pair without the other. -/
def denotes : Option Nat → List Part → Option (List Char)
  | none, [] => some []
  | some _, [] => none
  | none, .raw char _ :: rest => (denotes none rest).map (char :: ·)
  | none, .simple escape :: rest => (denotes none rest).map (escape.char :: ·)
  | none, .unicode unit :: rest =>
      if isHigh unit.value then denotes (some unit.value) rest
      else if isLow unit.value then none
      else (denotes none rest).map (Char.ofNat unit.value :: ·)
  | some high, .unicode unit :: rest =>
      if isLow unit.value then (denotes none rest).map (Char.ofNat (paired high unit.value) :: ·)
      else none
  | some _, .raw _ _ :: _ => none
  | some _, .simple _ :: _ => none

def utf8 (text : List Char) : List UInt8 := text.flatMap String.utf8EncodeChar

/-- The string was loaded onto the stack as these bytes, and their number. -/
def Holds (stack after : Stack) (bytes : List UInt8) : Prop :=
  after.jitsons = stack.jitsons ++
    .head { kind := .string } bytes.length (.string bytes) :: List.replicate ((bytes.length + 8) / 16) .more

/-- A literal is loaded as the text that it means, and the source is left
behind it.  A literal without meaning is rejected. -/
def Decodes (env : Env) (stack : Stack) (source : Source) (parts : List Part) (rest : List UInt8) : Prop :=
  match denotes none parts with
  | some text => ∃ after, stack.loadString env source = .ok (source.seek rest, after) ∧ Holds stack after (utf8 text)
  | none => ∃ failure, stack.loadString env source = .error failure

/-! ## What is stored -/

/-- The bytes that are stored for a part of a literal. -/
def Part.stored : Part → List UInt8
  | .raw char _ => String.utf8EncodeChar char
  | .simple escape => String.utf8EncodeChar escape.char
  | .unicode unit => Source.toUtf8 unit.value

theorem CodeUnit.value_lt (unit : CodeUnit) : unit.value < 2 ^ 16 := by
  have read := hexDigits_seek (.fromBuffer [] [] {}) unit.areDigits [] 0
  have small := hexDigits_lt read
  rw [unit.four] at small
  exact small

theorem surrogate_iff {unit : Nat} (small : unit < 2 ^ 16) : unit.isValidChar ↔ ¬ (isHigh unit ∨ isLow unit) := by
  simp only [Nat.isValidChar, isHigh, isLow, decide_eq_true_eq]
  omega

/-- Where a code unit is no half of a pair its character is stored. -/
theorem CodeUnit.stored {unit : CodeUnit} (high : isHigh unit.value = false) (low : isLow unit.value = false) :
    Source.toUtf8 unit.value = String.utf8EncodeChar (Char.ofNat unit.value) := by
  apply toUtf8_eq
  rw [surrogate_iff unit.value_lt, high, low]
  decide

theorem toUtf8_length_surrogate {unit : Nat} (surrogate : isHigh unit = true ∨ isLow unit = true) :
    (Source.toUtf8 unit).length = 3 := by
  simp only [isHigh, isLow, decide_eq_true_eq] at surrogate
  rw [Source.toUtf8, if_neg (by omega), if_neg (by omega), if_pos (by omega)]
  rfl

theorem utf8_length_four {point : Nat} (above : 0xFFFF < point) (atMost : point ≤ 0x10FFFF) :
    (String.utf8EncodeChar (Char.ofNat point)).length = 4 := by
  have valid : point.isValidChar := by
    rw [Nat.isValidChar]
    omega
  rw [← toUtf8_eq valid, Source.toUtf8, if_neg (by omega), if_neg (by omega), if_neg (by omega), if_pos atMost]
  rfl

theorem utf8_paired_length {high low : Nat} (areHigh : isHigh high = true) (areLow : isLow low = true) :
    (String.utf8EncodeChar (Char.ofNat (paired high low))).length = 4 := by
  simp only [isHigh, isLow, decide_eq_true_eq] at areHigh areLow
  apply utf8_length_four
  · unfold paired
    omega
  · unfold paired
    omega

theorem raw_bytes {char : Char} (unescaped : 32 ≤ char.toNat ∧ char.toNat ≠ 34 ∧ char.toNat ≠ 92) :
    ∀ byte ∈ String.utf8EncodeChar char, byte ≠ 0 ∧ byte ≠ 34 ∧ byte ≠ 92 := by
  have itself : ∀ value : Nat, value < 256 → value ≠ 0 ∧ value ≠ 34 ∧ value ≠ 92 →
      UInt8.ofNat value ≠ 0 ∧ UInt8.ofNat value ≠ 34 ∧ UInt8.ofNat value ≠ 92 := by
    intro value small differs
    simp only [ne_eq, ← UInt8.toNat_inj, UInt8.toNat_ofNat_of_lt' small]
    exact differs
  have isNat : char.val.toNat = char.toNat := rfl
  intro byte member
  simp only [String.utf8EncodeChar, isNat] at member
  split_ifs at member with one two three
  · rw [List.mem_singleton.mp member]
    exact itself _ (by omega) (by omega)
  · simp only [List.mem_cons, List.not_mem_nil, or_false] at member
    rcases member with rfl | rfl
    · exact itself _ (by omega) (by omega)
    · exact itself _ (by omega) (by omega)
  · simp only [List.mem_cons, List.not_mem_nil, or_false] at member
    rcases member with rfl | rfl | rfl
    · exact itself _ (by omega) (by omega)
    · exact itself _ (by omega) (by omega)
    · exact itself _ (by omega) (by omega)
  · simp only [List.mem_cons, List.not_mem_nil, or_false] at member
    rcases member with rfl | rfl | rfl | rfl
    · exact itself _ (by omega) (by omega)
    · exact itself _ (by omega) (by omega)
    · exact itself _ (by omega) (by omega)
    · exact itself _ (by omega) (by omega)

theorem Simple.escape (escape : Simple) : Escape .parsed [92, escape.letter] (String.utf8EncodeChar escape.char) := by
  cases escape with
  | quote => exact .itself (Or.inl rfl)
  | backslash => exact .itself (Or.inr (Or.inl rfl))
  | solidus => exact .itself (Or.inr (Or.inr rfl))
  | backspace => exact .backspace
  | formFeed => exact .formFeed
  | lineFeed => exact .lineFeed
  | carriageReturn => exact .carriageReturn
  | tab => exact .tab

theorem chars_parts (parts : List Part) : Chars .parsed (parts.flatMap Part.bytes) (parts.flatMap Part.stored) := by
  induction parts with
  | nil => exact .nil
  | cons part parts ih =>
      rw [List.flatMap_cons, List.flatMap_cons]
      cases part with
      | raw char unescaped => exact ih.bytes (raw_bytes unescaped)
      | simple escape => exact .escape escape.escape ih
      | unicode unit => exact .escape (.unicode unit.four unit.areDigits rfl) ih

/-! ## Meaning and bytes -/

def Whole (parts : List Part) : Prop := ∀ unit, Part.unicode unit ∈ parts → ¬ (isHigh unit.value ∨ isLow unit.value)

theorem Whole.tail {part : Part} {parts : List Part} (whole : Whole (part :: parts)) : Whole parts :=
  fun unit member => whole unit (List.mem_cons_of_mem _ member)

/-- A literal without halves of surrogate pairs has a meaning, and that is
stored. -/
theorem Whole.denotes {parts : List Part} (whole : Whole parts) :
    ∃ text, Jitson.denotes none parts = some text ∧ utf8 text = parts.flatMap Part.stored := by
  induction parts with
  | nil => exact ⟨[], rfl, rfl⟩
  | cons part parts ih =>
      rcases ih whole.tail with ⟨text, means, stored⟩
      cases part with
      | raw char unescaped =>
          refine ⟨char :: text, ?_, ?_⟩
          · rw [Jitson.denotes, means]
            rfl
          · rw [List.flatMap_cons, ← stored]
            rfl
      | simple escape =>
          refine ⟨escape.char :: text, ?_, ?_⟩
          · rw [Jitson.denotes, means]
            rfl
          · rw [List.flatMap_cons, ← stored]
            rfl
      | unicode unit =>
          have neither := whole unit List.mem_cons_self
          rw [not_or, Bool.not_eq_true, Bool.not_eq_true] at neither
          refine ⟨Char.ofNat unit.value :: text, ?_, ?_⟩
          · rw [Jitson.denotes, neither.1, neither.2, means]
            rfl
          · rw [List.flatMap_cons, ← stored, Part.stored, CodeUnit.stored neither.1 neither.2]
            rfl

/-- How much longer what is stored is than the UTF-8 of the meaning: each
surrogate pair takes two bytes more than it should.  Where the first half of a
pair was read before, its three bytes count. -/
structure Excess (pending : Option Nat) (parts : List Part) (text : List Char) (pairs : Nat) : Prop where
  longer : (parts.flatMap Part.stored).length + (if pending.isSome then 3 else 0) = (utf8 text).length + 2 * pairs
  atMost : 4 * pairs ≤ (utf8 text).length
  exact : pairs = 0 → pending = none ∧ Whole parts

theorem utf8_cons (char : Char) (text : List Char) : utf8 (char :: text) = String.utf8EncodeChar char ++ utf8 text :=
  List.flatMap_cons

/-- A part that is one character. -/
theorem Excess.cons {part : Part} {parts : List Part} {char : Char} {text : List Char} {pairs : Nat}
    (excess : Excess none parts text pairs) (stored : part.stored = String.utf8EncodeChar char)
    (notHalf : ∀ unit, part = .unicode unit → ¬ (isHigh unit.value ∨ isLow unit.value)) :
    Excess none (part :: parts) (char :: text) pairs := by
  rcases excess with ⟨longer, atMost, exact⟩
  refine ⟨?_, ?_, ?_⟩
  · rw [List.flatMap_cons, utf8_cons, stored, List.length_append, List.length_append]
    omega
  · rw [utf8_cons, List.length_append]
    omega
  · intro zero
    refine ⟨rfl, ?_⟩
    intro unit member
    rcases List.mem_cons.mp member with first | later
    · exact notHalf unit first.symm
    · exact (exact zero).2 unit later

theorem excess_of_denotes {parts : List Part} {pending : Option Nat} {text : List Char}
    (high : ∀ unit, pending = some unit → isHigh unit = true) (means : denotes pending parts = some text) :
    ∃ pairs, Excess pending parts text pairs := by
  induction parts generalizing pending text with
  | nil =>
      cases pending with
      | none =>
          cases means
          exact ⟨0, rfl, Nat.le_refl _, fun _ => ⟨rfl, fun _ member => absurd member List.not_mem_nil⟩⟩
      | some unit => cases means
  | cons part parts ih =>
      cases pending with
      | none =>
          cases part with
          | raw char unescaped =>
              rcases Option.map_eq_some_iff.mp means with ⟨text, others, rfl⟩
              rcases ih high others with ⟨pairs, excess⟩
              exact ⟨pairs, excess.cons rfl (by intro unit same; cases same)⟩
          | simple escape =>
              rcases Option.map_eq_some_iff.mp means with ⟨text, others, rfl⟩
              rcases ih high others with ⟨pairs, excess⟩
              exact ⟨pairs, excess.cons rfl (by intro unit same; cases same)⟩
          | unicode unit =>
              rw [denotes] at means
              split_ifs at means with isHigh isLow
              · have first : ∀ other, some unit.value = some other → Jitson.isHigh other = true := by
                  rintro _ ⟨rfl⟩
                  exact isHigh
                rcases ih first means with ⟨pairs, longer, atMost, exact⟩
                refine ⟨pairs, ?_, atMost, ?_⟩
                · rw [List.flatMap_cons, List.length_append, Part.stored, toUtf8_length_surrogate (Or.inl isHigh)]
                  rw [Option.isSome_some, if_pos rfl] at longer
                  rw [Option.isSome_none, if_neg (by decide)]
                  omega
                · intro zero
                  cases (exact zero).1
              · rcases Option.map_eq_some_iff.mp means with ⟨text, others, rfl⟩
                rcases ih high others with ⟨pairs, excess⟩
                rw [Bool.not_eq_true] at isHigh isLow
                refine ⟨pairs, excess.cons (CodeUnit.stored isHigh isLow) ?_⟩
                rintro _ ⟨rfl⟩
                rw [isHigh, isLow]
                decide
      | some first =>
          cases part with
          | raw char unescaped => cases means
          | simple escape => cases means
          | unicode unit =>
              rw [denotes] at means
              split_ifs at means with isLow
              rcases Option.map_eq_some_iff.mp means with ⟨text, others, rfl⟩
              have notPending : ∀ unit, none = some unit → isHigh unit = true := by
                intro unit same
                cases same
              rcases ih notPending others with ⟨pairs, longer, atMost, -⟩
              have four := utf8_paired_length (high first rfl) isLow
              rw [Option.isSome_none, if_neg (by decide)] at longer
              refine ⟨pairs + 1, ?_, ?_, fun zero => absurd zero (Nat.succ_ne_zero _)⟩
              · rw [List.flatMap_cons, List.length_append, Part.stored, toUtf8_length_surrogate (Or.inr isLow),
                  utf8_cons,
                  List.length_append, four, Option.isSome_some, if_pos rfl]
                omega
              · rw [utf8_cons, List.length_append, four]
                omega

/-! ## Loading -/

/-- With memory and room for its bytes, a literal is loaded as what is stored
for its parts. -/
theorem loadString_parts {env : Env} {stack : Stack} (source : Source) {spaces : List UInt8} {parts : List Part}
    {rest : List UInt8}
    (areSpaces : Dialect.json.Spaces spaces) (roomy : env.Roomy) (positive : 0 < stack.maximum)
    (room : stack.count + ((parts.flatMap Part.stored).length + 8) / 16 + 1 ≤ 2 ^ 32 - 4096) :
    ∃ after, stack.loadString env (source.seek (spaces ++ literal parts ++ rest)) = .ok (source.seek rest, after) ∧
      after.jitsons = stack.jitsons ++ stringTokens false (parts.flatMap Part.stored) := by
  have read := readString_seek source areSpaces (chars_parts parts) rest
  have takes : TakesString ⟨True, True⟩ env stack stack.count
    (readString (source.seek (spaces ++ literal parts ++ rest))) :=
    ⟨by omega, fun _ => roomy, fun _ => positive, fun _ => ⟨_, read, room⟩⟩
  have meets := loadString_takes takes
  rw [literal, read] at meets
  rcases meets with ⟨⟨behind, after⟩, loaded, same, -, maximum, -, grown⟩ | ⟨scarce, -⟩
  · dsimp only at same grown
    refine ⟨after, ?_, ?_⟩
    · rw [literal, loaded, same]
    · rw [grown]
  · exact absurd trivial scarce

theorem holds_iff {stack after : Stack} {stored bytes : List UInt8}
    (loaded : after.jitsons = stack.jitsons ++ stringTokens false stored) :
    Holds stack after bytes ↔ stored.length % 2 ^ 32 = bytes.length ∧ wrapped stored = bytes ∧
      (stored.length + 8) / 16 = (bytes.length + 8) / 16 := by
  rw [Holds, loaded, List.append_cancel_left_eq, stringTokens, List.cons.injEq]
  constructor
  · rintro ⟨head, more⟩
    injection head with same len body
    injection body with isBytes
    have count := congrArg List.length more
    rw [List.length_replicate, List.length_replicate] at count
    exact ⟨len, isBytes, count⟩
  · rintro ⟨len, isBytes, count⟩
    rw [len, isBytes, count]
    exact ⟨rfl, rfl⟩

/-- Where each literal is loaded as the text that it means: no half of a
surrogate pair is escaped, and the text has fewer than `2 ^ 32` bytes. -/
theorem string_decodes_iff {env : Env} {stack : Stack} (source : Source) {spaces : List UInt8} {parts : List Part}
    {rest : List UInt8}
    (areSpaces : Dialect.json.Spaces spaces) (roomy : env.Roomy) (positive : 0 < stack.maximum)
    (room : stack.count + ((parts.flatMap Part.stored).length + 8) / 16 + 1 ≤ 2 ^ 32 - 4096) :
    Decodes env stack (source.seek (spaces ++ literal parts ++ rest)) parts rest ↔
      Whole parts ∧ ∀ text, denotes none parts = some text → (utf8 text).length < 2 ^ 32 := by
  rcases loadString_parts source areSpaces roomy positive room with ⟨after, loaded, stored⟩
  have notPending : ∀ unit, none = some unit → isHigh unit = true := by
    intro unit same
    cases same
  unfold Decodes
  rw [loaded]
  cases means : denotes none parts with
  | none =>
      refine ⟨?_, ?_⟩
      · rintro ⟨failure, failed⟩
        cases failed
      · rintro ⟨whole, -⟩
        rcases whole.denotes with ⟨text, denoted, -⟩
        rw [means] at denoted
        cases denoted
  | some text =>
      refine ⟨?_, ?_⟩
      · rintro ⟨_, ⟨rfl⟩, holds⟩
        rcases (holds_iff stored).mp holds with ⟨len, -, -⟩
        rcases excess_of_denotes notPending means with ⟨pairs, longer, atMost, exact⟩
        rw [Option.isSome_none, if_neg (by decide), Nat.add_zero] at longer
        have small : (utf8 text).length < 2 ^ 32 := by
          rw [← len]
          exact Nat.mod_lt _ (by decide)
        rw [longer] at len
        refine ⟨(exact (by omega)).2, ?_⟩
        rintro _ ⟨rfl⟩
        exact small
      · rintro ⟨whole, short⟩
        rcases whole.denotes with ⟨text', denoted, same⟩
        rw [means] at denoted
        cases denoted
        have small := short text rfl
        refine ⟨after, rfl, (holds_iff stored).mpr ?_⟩
        rw [← same]
        refine ⟨Nat.mod_eq_of_lt small, ?_, rfl⟩
        rw [wrapped, Nat.mod_eq_of_lt small, Nat.sub_self, List.drop_zero]

/-- The parts of `a\u00e9`. -/
def accented : List Part :=
  [.raw (Char.ofNat 97) (by decide), .unicode ⟨[48, 48, 101, 57], rfl, List.all_eq_true.mp (by decide)⟩]

/-- An accented letter takes two bytes. -/
theorem string_decodes_accented :
    Decodes plainEnv freshStack ((Source.fromString [] [] {}).seek ([] ++ literal accented ++ [])) accented [] := by
  have decodes := @string_decodes_iff plainEnv freshStack (.fromString [] [] {}) [] accented [] noSpaces
    ⟨fun _ => rfl, rfl⟩ Nat.one_pos (by decide)
  refine decodes.mpr ⟨?_, ?_⟩
  · intro unit member
    rcases List.mem_cons.mp member with first | later
    · cases first
    · cases List.mem_singleton.mp later
      decide
  · rintro text ⟨rfl⟩
    decide

/-- The parts of `\ud83d\ude00`, a surrogate pair. -/
def grinning : List Part :=
  [.unicode ⟨[100, 56, 51, 100], rfl, List.all_eq_true.mp (by decide)⟩,
    .unicode ⟨[100, 101, 48, 48], rfl, List.all_eq_true.mp (by decide)⟩]

/-- The two halves of a surrogate pair are stored as three bytes each, instead
of the four bytes of one character. -/
theorem string_halves_stored : denotes none grinning = some [Char.ofNat 0x1F600] ∧
    ¬ Decodes plainEnv freshStack (.fromString (literal grinning) [] {}) grinning [] := by
  refine ⟨rfl, ?_⟩
  rintro ⟨after, loaded, holds⟩
  have stored : freshStack.loadString plainEnv (.fromString (literal grinning) [] {}) =
      .ok ((Source.fromString (literal grinning) [] {}).seek [],
        ⟨1, stringTokens false [0xED, 0xA0, 0xBD, 0xED, 0xB8, 0x80], true, 0, 0, 0⟩) := rfl
  rw [stored] at loaded
  cases loaded
  have len := ((holds_iff rfl).mp holds).1
  exact absurd len (by decide)

end Jitson
end LibKit
