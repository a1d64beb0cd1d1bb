import LibKit.SxeHex.Model
import LibKit.Support.Results
import LibKit.Support.Bytes
import LibKit.Support.CString

namespace LibKit
namespace SxeStr

open CString (text)
open SxeHex (nibble)

/-!
# `sxe-str-encode.c`

Spaces are encoded as underscores, and underscores, equal signs and what is not
printable as an equal sign with two digits.  A `char` is signed, so that the
digits of one that is negative are those of a large `unsigned`, of which the
first two are kept.  The loop ends when the last byte but one of the buffer is
written, before it counts the character that it wrote.
-/

inductive Stop where
  | assertion
  | undefined
deriving DecidableEq

/-- `isspace` -/
def isspace (c : UInt8) : Bool := c = 32 ∨ 9 ≤ c ∧ c ≤ 13

/-- `isprint`; no negative character is printable. -/
def isprint (c : UInt8) : Bool := 32 ≤ c ∧ c < 127

def hexDigit (value : Nat) : UInt8 := UInt8.ofNat (if value < 10 then 48 + value else 55 + value)

/-- The digits of a number, the most significant first. -/
def hexDigits : Nat → Nat → List UInt8
  | 0, _ => []
  | count + 1, value => hexDigits count (value / 16) ++ [hexDigit (value % 16)]

/-- What `%02X` prints for an `unsigned`. -/
def printHex (value : UInt32) : List UInt8 :=
  ((hexDigits 8 value.toNat).take 6).dropWhile (· = 48) ++ (hexDigits 8 value.toNat).drop 6

/-- What `snprintf` writes of `=%02X` to four bytes, in front of the NUL. -/
def escape (c : UInt8) : List UInt8 := (61 :: printHex c.toInt8.toInt32.toUInt32).take 3

def put (buffer : List UInt8) (i : UInt32) (bytes : List UInt8) : Except Stop (List UInt8) :=
  if i.toNat + bytes.length ≤ buffer.length then
    .ok (buffer.take i.toNat ++ (bytes ++ buffer.drop (i.toNat + bytes.length)))
  else .error .undefined

def isEscaped (c : UInt8) : Bool := c = 95 ∨ c = 61 ∨ isspace c ∨ ¬ isprint c

/-- What is written for a character, and the next position, unless there is no
room. -/
def turn (size : UInt32) (c : UInt8) (i : UInt32) (buffer : List UInt8) : Except Stop (Option (UInt32 × List UInt8)) :=
  if c = 32 then do
    let buffer ← put buffer i [95]
    .ok (some (i + 1, buffer))
  else if isEscaped c then
    if size ≤ i + 3 then .ok none
    else do
      let buffer ← put buffer i (escape c ++ [0])
      .ok (some (i + 3, buffer))
  else do
    let buffer ← put buffer i [c]
    .ok (some (i + 1, buffer))

/-- The loop of `sxe_strn_encode`. -/
def encodeFrom (size : UInt32) (string : List UInt8) (length : UInt32) :
    Nat → UInt32 → UInt32 → List UInt8 → Except Stop (UInt32 × UInt32 × List UInt8)
  | 0, _, _, _ => .error .undefined
  | turns + 1, i, j, buffer =>
      if j < length then
        match string[j.toNat]? with
        | none => .error .undefined
        | some c =>
            if c = 0 then .ok (i, j, buffer)
            else do
              let written ← turn size c i buffer
              match written with
              | none => .ok (i, j, buffer)
              | some (i, buffer) =>
                  if i = size - 1 then .ok (i, j, buffer) else encodeFrom size string length turns i (j + 1) buffer
      else .ok (i, j, buffer)

/-- `sxe_strn_encode`: whether the buffer is returned, and its bytes. -/
def strnEncode (buffer : List UInt8) (size : UInt32) (string : List UInt8) (length : UInt32) :
    Except Stop (Bool × List UInt8) := do
  let (i, j, buffer) ← encodeFrom size string length (2 ^ 32) 0 0 buffer
  if i < size then do
    let buffer ← put buffer i [0]
    if j < length then
      match string[j.toNat]? with
      | none => .error .undefined
      | some c => .ok (decide (c = 0), buffer)
    else .ok (true, buffer)
  else .error .assertion

/-! ## Encodings -/

def encodeChar (c : UInt8) : List UInt8 :=
  if c = 32 then [95] else if isEscaped c then [61, hexDigit (c.toNat / 16), hexDigit (c.toNat % 16)] else [c]

def encoding (string : List UInt8) : List UInt8 := string.flatMap encodeChar

def decodeChar (digits : List UInt8) : UInt8 := nibble (digits.getD 0 0) <<< 4 ||| nibble (digits.getD 1 0)

def decode : List UInt8 → List UInt8
  | [] => []
  | c :: rest =>
      if c = 61 then decodeChar rest :: decode (rest.drop 2) else (if c = 95 then 32 else c) :: decode rest
termination_by encoded => encoded.length
decreasing_by
  · rw [List.length_drop, List.length_cons]
    omega
  · exact Nat.lt_succ_self _

/-- The characters of a string up to a number of them. -/
def piece (string : List UInt8) (length : UInt32) : List UInt8 := text (string.take length.toNat)

/-- What is said of a call: it writes only to the buffer, and returns it if and
only if the encoding of all characters fits, which are then those encoded in it;
if not, it holds the encoding of some at the front. -/
structure Encodes (buffer : List UInt8) (size : UInt32) (string : List UInt8) (length : UInt32) (returned : Bool)
    (after : List UInt8) : Prop where
  within : after.length = buffer.length
  fits : returned = false ↔ size.toNat - 1 < (encoding (piece string length)).length
  cut : returned = false → ∃ front, front <+: piece string length ∧ text after = encoding front
  whole : returned = true → decode (text after) = piece string length

/-- Characters at the front whose encoding fits. -/
def fitting : Nat → List UInt8 → List UInt8
  | _, [] => []
  | room, c :: string => if (encodeChar c).length ≤ room then c :: fitting (room - (encodeChar c).length) string else []

/-- The position that is compared with the size wraps. -/
def Wraps (size : UInt32) (string : List UInt8) : Prop :=
  size.toNat + 1 = 2 ^ 32 ∧ (encoding (fitting (size.toNat - 1) string)).length + 2 = size.toNat ∧
    fitting (size.toNat - 1) string ≠ string

structure Encodable (size : UInt32) (string : List UInt8) : Prop where
  notExact : string ≠ [] → (encoding string).length + 1 ≠ size.toNat
  several : size.toNat = 1 → ∀ c, string.head? = some c → c ≠ 32 ∧ isEscaped c = true
  codes : ∀ c ∈ fitting (size.toNat - 1) string, c < 128 ∨ c = 255
  bounded : ¬ Wraps size string

/-! ## Characters -/

/-- The character that is read back from what is written for one. -/
def norm (c : UInt8) : UInt8 := if c < 128 then c else 255

theorem norm_eq : ∀ c : UInt8, norm c = c ↔ c < 128 ∨ c = 255 := by
  apply Bytes.forall_bytes
  decide +kernel

/-- What is written for a character that is escaped. -/
theorem escape_eq : ∀ c : UInt8, c ≠ 32 → isEscaped c = true → escape c = encodeChar (norm c) ∧
    (encodeChar c).length = 3 := by
  apply Bytes.forall_bytes
  decide +kernel

theorem encodeChar_plain : ∀ c : UInt8, c ≠ 32 → isEscaped c = false → encodeChar (norm c) = [c] ∧
    (encodeChar c).length = 1 := by
  apply Bytes.forall_bytes
  decide +kernel

theorem encodeChar_length : ∀ c : UInt8, (encodeChar (norm c)).length = (encodeChar c).length ∧
    1 ≤ (encodeChar c).length := by
  apply Bytes.forall_bytes
  decide +kernel

theorem encodeChar_clean : ∀ c : UInt8, 0 ∉ encodeChar c := by
  apply Bytes.forall_bytes
  decide +kernel

theorem digits_decoded : ∀ c : UInt8, nibble (hexDigit (c.toNat / 16)) <<< 4 ||| nibble
    (hexDigit (c.toNat % 16)) = c := by
  apply Bytes.forall_bytes
  decide +kernel

theorem isEscaped_false : ∀ c : UInt8, isEscaped c = false → c ≠ 61 ∧ c ≠ 95 := by
  apply Bytes.forall_bytes
  decide +kernel

theorem decode_encodeChar (c : UInt8) (rest : List UInt8) : decode (encodeChar c ++ rest) = c :: decode rest := by
  rw [encodeChar]
  by_cases isSpace : c = 32
  · rw [if_pos isSpace, List.singleton_append, decode, if_neg (by decide), if_pos rfl, isSpace]
  · rw [if_neg isSpace]
    by_cases escaped : isEscaped c = true
    · rw [if_pos escaped, List.cons_append, decode, if_pos rfl]
      congr 1
      exact digits_decoded c
    · have plain := isEscaped_false c (Bool.eq_false_iff.mpr escaped)
      rw [if_neg escaped, List.singleton_append, decode, if_neg plain.1, if_neg plain.2]

theorem encoding_append (first second : List UInt8) : encoding (first ++ second) = encoding first ++ encoding second :=
  List.flatMap_append

theorem encoding_singleton (c : UInt8) : encoding [c] = encodeChar c := List.flatMap_singleton _ _

theorem decode_encoding (string : List UInt8) : decode (encoding string) = string := by
  induction string with
  | nil =>
      change decode [] = []
      rw [decode]
  | cons c string ih =>
      change decode (encodeChar c ++ encoding string) = _
      rw [decode_encodeChar, ih]

theorem encoding_clean (string : List UInt8) : 0 ∉ encoding string := by
  intro inside
  rcases List.mem_flatMap.mp inside with ⟨c, -, isZero⟩
  exact encodeChar_clean c isZero

theorem encoding_eq_nil {string : List UInt8} : (encoding string).length = 0 ↔ string = [] := by
  cases string with
  | nil => exact iff_of_true rfl rfl
  | cons c string =>
      refine iff_of_false ?_ (List.cons_ne_nil c string)
      change (encodeChar c ++ encoding string).length ≠ 0
      have some := (encodeChar_length c).2
      rw [List.length_append]
      omega

theorem fitting_spec (room : Nat) (string : List UInt8) : fitting room string <+: string ∧
    (encoding (fitting room string)).length ≤ room ∧
      (fitting room string = string ↔ (encoding string).length ≤ room) := by
  induction string generalizing room with
  | nil => exact ⟨List.prefix_refl [], Nat.zero_le room, iff_of_true rfl (Nat.zero_le room)⟩
  | cons c string ih =>
      have whole : (encoding (c :: string)).length = (encodeChar c).length + (encoding string).length :=
        List.length_append
      rw [fitting]
      by_cases fits : (encodeChar c).length ≤ room
      · rcases ih (room - (encodeChar c).length) with ⟨front, few, all⟩
        rw [if_pos fits]
        refine ⟨(List.prefix_cons_inj c).mpr front, ?_, ?_⟩
        · change (encodeChar c ++ encoding (fitting _ string)).length ≤ room
          rw [List.length_append]
          omega
        · rw [List.cons_inj_right, all, whole]
          omega
      · rw [if_neg fits, whole]
        exact ⟨List.nil_prefix, Nat.zero_le room, iff_of_false (List.cons_ne_nil c string).symm (by omega)⟩

/-! ## Strings -/

section

variable {string : List UInt8} {length : UInt32}

theorem piece_at {j : Nat} {c : UInt8} (found : (piece string length)[j]? = some c) :
    string[j]? = some c ∧ c ≠ 0 ∧ j < length.toNat := by
  have inside := (List.getElem?_eq_some_iff.mp found).1
  have front : piece string length <+: string := (List.takeWhile_prefix _).trans (List.take_prefix _ _)
  refine ⟨?_, ?_, ?_⟩
  · rw [← found]
    rcases front with ⟨rest, split⟩
    rw [← List.getElem?_append_left inside, split]
  · rintro rfl
    exact CString.zero_not_mem_text _ (List.mem_of_getElem? found)
  · have few := ((List.takeWhile_prefix (fun byte => byte ≠ 0) (l := string.take length.toNat))).length_le
    rw [List.length_take] at few
    exact Nat.lt_of_lt_of_le inside (Nat.le_trans few (Nat.min_le_left _ _))

theorem piece_end (readable : 0 ∈ string ∨ length.toNat ≤ string.length)
    (early : (piece string length).length < length.toNat) :
    string[(piece string length).length]? = some 0 := by
  by_cases ends : 0 ∈ string.take length.toNat
  · have isEnd := CString.text_end ends
    change (string.take length.toNat)[(piece string length).length]? = some 0 at isEnd
    rwa [List.getElem?_take_of_lt early] at isEnd
  · have all : piece string length = string.take length.toNat := CString.text_eq_self ends
    rw [all, List.length_take] at early
    have short : string.length < length.toNat := by omega
    rw [List.take_of_length_le (Nat.le_of_lt short)] at ends
    exact absurd (readable.resolve_left ends) (Nat.not_le.mpr short)

end

/-! ## The loop -/

section

variable {size : UInt32} {buffer : List UInt8}

theorem put_ok {i : UInt32} {bytes : List UInt8} (room : i.toNat + bytes.length ≤ buffer.length) :
    ∃ after, put buffer i bytes = .ok after ∧ after.length = buffer.length ∧
      ∀ count ≤ bytes.length, after.take (i.toNat + count) = buffer.take i.toNat ++ bytes.take count := by
  have before : (buffer.take i.toNat).length = i.toNat := by
    rw [List.length_take]
    omega
  refine ⟨_, if_pos room, ?_, fun count few => ?_⟩
  · rw [List.length_append, List.length_append, before, List.length_drop]
    omega
  · have enough : i.toNat + count = (buffer.take i.toNat).length + count := by rw [before]
    rw [enough, List.take_length_add_append, List.take_append_of_le_length few]

/-- What a turn does: it writes the character, lets it be if there is no room, or
writes behind the buffer if the position wraps. -/
theorem turn_eq {c : UInt8} {k : Nat} {i : UInt32} (isIndex : i.toNat = k) (sized : buffer.length = size.toNat)
    (room : k + 1 < size.toNat) :
    ((encodeChar c).length ≤ size.toNat - 1 - k ∧ ∃ next after, turn size c i buffer = .ok (some (next, after)) ∧
      next.toNat = k + (encodeChar c).length ∧ after.length = size.toNat ∧
      after.take (k + (encodeChar c).length) = buffer.take k ++ encodeChar (norm c)) ∨
    (¬ (encodeChar c).length ≤ size.toNat - 1 - k ∧ size.toNat + 1 = 2 ^ 32 ∧ k + 2 = size.toNat ∧
      turn size c i buffer = .error .undefined) ∨
    (¬ (encodeChar c).length ≤ size.toNat - 1 - k ∧ ¬ (size.toNat + 1 = 2 ^ 32 ∧ k + 2 = size.toNat) ∧
      turn size c i buffer = .ok none) := by
  have small := size.toNat_lt
  have one : (i + 1).toNat = k + 1 := by
    rw [UInt32.toNat_add, isIndex]
    exact Nat.mod_eq_of_lt (by change k + 1 < 2 ^ 32; omega)
  have plain : ∀ written : UInt8, encodeChar (norm c) = [written] → (encodeChar c).length = 1 →
      ∃ after, put buffer i [written] = .ok after ∧ after.length = size.toNat ∧
        after.take (k + (encodeChar c).length) = buffer.take k ++ encodeChar (norm c) := by
    intro written isWritten single
    rcases @put_ok buffer i [written] (by rw [isIndex, List.length_singleton]; omega) with ⟨after, done, length, taken⟩
    refine ⟨after, done, length.trans sized, ?_⟩
    rw [single, isWritten, ← isIndex]
    exact taken 1 (Nat.le_refl 1)
  rw [turn]
  by_cases isSpace : c = 32
  · rcases plain 95 (by rw [isSpace]; rfl) (by rw [isSpace]; rfl) with ⟨after, done, length, taken⟩
    have single : (encodeChar c).length = 1 := by
      rw [isSpace]
      rfl
    left
    rw [if_pos isSpace, done, ok_bind]
    exact ⟨by omega, _, _, rfl, by rw [one, single], length, taken⟩
  · rw [if_neg isSpace]
    by_cases escaped : isEscaped c = true
    · rcases escape_eq c isSpace escaped with ⟨isEscape, three⟩
      rw [if_pos escaped, three]
      have wide : (escape c ++ [0]).length = 4 := by
        rw [isEscape, List.length_append, (encodeChar_length c).1, three]
        rfl
      rcases Nat.lt_or_ge (k + 3) (2 ^ 32) with below | wraps
      · have third : (i + 3).toNat = k + 3 := by
          rw [UInt32.toNat_add, isIndex]
          exact Nat.mod_eq_of_lt below
        by_cases full : size ≤ i + 3
        · right
          right
          rw [if_pos full]
          rw [UInt32.le_iff_toNat_le, third] at full
          exact ⟨by omega, by omega, rfl⟩
        · left
          rw [if_neg full]
          rw [UInt32.le_iff_toNat_le, third] at full
          rcases @put_ok buffer i (escape c ++ [0]) (by rw [isIndex, wide]; omega) with ⟨after, done, length, taken⟩
          rw [done, ok_bind]
          refine ⟨by omega, _, _, rfl, third, length.trans sized, ?_⟩
          have front := taken 3 (by rw [wide]; decide)
          have whole : (encodeChar (norm c)).length = 3 := (encodeChar_length c).1.trans three
          rw [isIndex, isEscape, List.take_append_of_le_length (Nat.le_of_eq whole.symm),
            List.take_of_length_le (Nat.le_of_eq whole)] at front
          exact front
      · right
        left
        have isZero : (i + 3).toNat = 0 := by
          rw [UInt32.toNat_add, isIndex]
          change (k + 3) % 2 ^ 32 = 0
          omega
        have notFull : ¬ size ≤ i + 3 := by
          rw [UInt32.le_iff_toNat_le, isZero]
          omega
        rw [if_neg notFull, put, if_neg (by rw [isIndex, wide]; omega)]
        exact ⟨by omega, by omega, by omega, rfl⟩
    · rcases encodeChar_plain c isSpace (Bool.eq_false_iff.mpr escaped) with ⟨isPlain, single⟩
      rcases plain c isPlain single with ⟨after, done, length, taken⟩
      left
      rw [if_neg escaped, done, ok_bind]
      exact ⟨by omega, _, _, rfl, by rw [one, single], length, taken⟩

theorem fitting_append {room : Nat} {done : List UInt8} (fits : (encoding done).length ≤ room) (rest : List UInt8) :
    fitting room (done ++ rest) = done ++ fitting (room - (encoding done).length) rest := by
  induction done generalizing room with
  | nil => rfl
  | cons c done ih =>
      have whole : (encoding (c :: done)).length = (encodeChar c).length + (encoding done).length := List.length_append
      rw [whole] at fits
      rw [List.cons_append, fitting, if_pos (by omega), ih (by omega), whole, Nat.sub_add_eq, List.cons_append]

/-- The loop has ended: the characters that fit are in the buffer, and counted
unless the last of them is at its end. -/
structure Stopped (size : UInt32) (whole : List UInt8) (i j : UInt32) (after : List UInt8) : Prop where
  index : i.toNat = (encoding whole).length
  counted : j.toNat = whole.length - if (encoding whole).length + 1 = size.toNat then 1 else 0
  sized : after.length = size.toNat
  written : after.take (encoding whole).length = encoding (whole.map norm)

variable {string : List UInt8} {length : UInt32}

/-- What the loop does once some characters are encoded, with room for more. -/
theorem encodeFrom_eq {turns : Nat} {done rest : List UInt8} {i j : UInt32}
    (readable : 0 ∈ string ∨ length.toNat ≤ string.length) (split : piece string length = done ++ rest)
    (isIndex : i.toNat = (encoding done).length) (counted : j.toNat = done.length)
    (sized : buffer.length = size.toNat)
    (written : buffer.take (encoding done).length = encoding (done.map norm))
    (room : (encoding done).length + 1 < size.toNat) (enough : rest.length < turns) :
    (Wraps size (piece string length) ∧ encodeFrom size string length turns i j buffer = .error .undefined) ∨
      (¬ Wraps size (piece string length) ∧ ∃ i' j' after, encodeFrom size string length turns i j buffer =
        .ok (i', j', after) ∧
        Stopped size (fitting (size.toNat - 1) (piece string length)) i' j' after) := by
  induction turns generalizing done rest i j buffer with
  | zero => exact absurd enough (Nat.not_lt_zero _)
  | succ turns ih =>
      have isFitting : fitting (size.toNat - 1) (piece string length) =
          done ++ fitting (size.toNat - 1 - (encoding done).length) rest := by
        rw [split]
        exact fitting_append (by omega) rest
      have stopped : fitting (size.toNat - 1) (piece string length) = done →
          Stopped size (fitting (size.toNat - 1) (piece string length)) i j buffer := by
        intro same
        rw [same]
        exact ⟨isIndex, by rw [if_neg (by omega)]; exact counted, sized, written⟩
      rw [encodeFrom]
      cases rest with
      | nil =>
          rw [fitting, List.append_nil] at isFitting
          rw [List.append_nil] at split
          right
          refine ⟨fun wraps => wraps.2.2 (isFitting.trans split.symm), i, j, buffer, ?_, stopped isFitting⟩
          by_cases early : j < length
          · have isEnd := piece_end readable (by rw [split, ← counted]; exact UInt32.lt_iff_toNat_lt.mp early)
            rw [split, ← counted] at isEnd
            rw [if_pos early, isEnd]
            exact if_pos rfl
          · exact if_neg early
      | cons c rest =>
          have found : (piece string length)[j.toNat]? = some c := by
            rw [split, counted, List.getElem?_append_right (Nat.le_refl _), Nat.sub_self]
            rfl
          rcases piece_at found with ⟨isChar, nonzero, early⟩
          rw [if_pos (UInt32.lt_iff_toNat_lt.mpr early), isChar]
          simp only [if_neg nonzero]
          rcases turn_eq (c := c) isIndex sized room with ⟨fits, next, after, done', isNext, length', taken⟩ |
            ⟨full, large, last, stops⟩ | ⟨full, below, stops⟩
          · have more : encoding (done ++ [c]) = encoding done ++ encodeChar c :=
              by rw [encoding_append, encoding_singleton]
            have moreLength : (encoding (done ++ [c])).length = (encoding done).length + (encodeChar c).length := by
              rw [more, List.length_append]
            have taken' : after.take (encoding (done ++ [c])).length = encoding ((done ++ [c]).map norm) := by
              rw [moreLength, taken, written, List.map_append, encoding_append]
              exact congrArg _ (encoding_singleton (norm c)).symm
            rw [done', ok_bind]
            simp only
            have lastIndex : (size - 1).toNat = size.toNat - 1 := by
              apply UInt32.toNat_sub_of_le
              rw [UInt32.le_iff_toNat_le]
              exact Nat.le_trans (Nat.le_add_left 1 _) (Nat.le_of_lt room)
            by_cases ended : next = size - 1
            · have exactly : (encoding (done ++ [c])).length + 1 = size.toNat := by
                have same := congrArg UInt32.toNat ended
                rw [lastIndex, isNext] at same
                omega
              have isWhole : fitting (size.toNat - 1) (piece string length) = done ++ [c] := by
                have none : size.toNat - 1 - (encoding done).length - (encodeChar c).length = 0 := by omega
                rw [isFitting, fitting, if_pos fits, none]
                have few := (fitting_spec 0 rest).2.1
                rw [encoding_eq_nil.mp (Nat.le_zero.mp few)]
              right
              rw [if_pos ended]
              refine ⟨fun wraps => ?_, _, _, _, rfl, ?_⟩
              · have two := wraps.2.1
                rw [isWhole] at two
                omega
              · rw [isWhole]
                refine ⟨isNext.trans moreLength.symm, ?_, length', taken'⟩
                rw [if_pos exactly, List.length_append]
                exact counted
            · rw [if_neg ended]
              have further : piece string length = (done ++ [c]) ++ rest := by
                rw [split, List.append_assoc]
                rfl
              apply ih further
              · exact isNext.trans moreLength.symm
              · have notLast := length.toNat_lt
                rw [UInt32.toNat_add, counted, List.length_append]
                exact Nat.mod_eq_of_lt (by change done.length + 1 < 2 ^ 32; omega)
              · exact length'
              · exact taken'
              · have differs : next.toNat ≠ size.toNat - 1 := by
                  intro same
                  exact ended (UInt32.toNat_inj.mp (same.trans lastIndex.symm))
                omega
              · exact Nat.lt_of_succ_lt_succ enough
          · left
            rw [fitting, if_neg full, List.append_nil] at isFitting
            rw [stops]
            refine ⟨⟨large, by rw [isFitting]; exact last, fun same => ?_⟩, rfl⟩
            have short := congrArg List.length (isFitting.symm.trans (same.trans split))
            rw [List.length_append, List.length_cons] at short
            omega
          · right
            rw [fitting, if_neg full, List.append_nil] at isFitting
            rw [stops, ok_bind]
            exact ⟨fun wraps => below ⟨wraps.1, by rw [← isFitting]; exact wraps.2.1⟩, i, j, buffer, rfl,
              stopped isFitting⟩

/-- What is read back is what was encoded if all characters are ASCII, or the
last. -/
theorem map_norm (whole : List UInt8) : whole.map norm = whole ↔ ∀ c ∈ whole, c < 128 ∨ c = 255 := by
  induction whole with
  | nil => exact iff_of_true rfl fun _ inside => absurd inside List.not_mem_nil
  | cons c whole ih => rw [List.map_cons, List.cons_eq_cons, ih, List.forall_mem_cons, norm_eq]

theorem strnEncode_eq {i j : UInt32} {whole after : List UInt8}
    (readable : 0 ∈ string ∨ length.toNat ≤ string.length) (front : whole <+: piece string length)
    (room : (encoding whole).length < size.toNat) (many : 2 ≤ size.toNat)
    (looped : encodeFrom size string length (2 ^ 32) 0 0 buffer = .ok (i, j, after))
    (stopped : Stopped size whole i j after) :
    ∃ returned ended, strnEncode buffer size string length = .ok (returned, ended) ∧ ended.length = size.toNat ∧
      text ended = encoding (whole.map norm) ∧
      (returned = false ↔ (encoding whole).length + 1 = size.toNat ∨ whole ≠ piece string length) := by
  rcases @put_ok after i [0] (by rw [stopped.index, stopped.sized]; exact room) with ⟨ended, put, ofLength, taken⟩
  have isText : text ended = encoding (whole.map norm) := by
    have upto := taken 1 (Nat.le_refl 1)
    rw [stopped.index, stopped.written] at upto
    rw [← List.take_append_drop ((encoding whole).length + 1) ended, upto, List.append_assoc]
    exact CString.text_append_zero (encoding_clean _) _
  have early : i < size := by
    rw [UInt32.lt_iff_toNat_lt, stopped.index]
    exact room
  rw [strnEncode, looped, ok_bind]
  simp only [if_pos early, put, ok_bind]
  by_cases more : (encoding whole).length + 1 = size.toNat ∨ whole ≠ piece string length
  · -- the counted character is one of the string: the last that was written, or the first that was not
    have inside : j.toNat < (piece string length).length := by
      have counted := stopped.counted
      split at counted
      · have some : whole.length ≠ 0 := by
          intro none
          rw [List.length_eq_zero_iff.mp none] at room
          rename_i isEnd
          rw [List.length_eq_zero_iff.mp none] at isEnd
          change 0 + 1 = size.toNat at isEnd
          omega
        have few := front.length_le
        omega
      · rename_i notEnd
        rw [counted]
        rcases Nat.lt_or_eq_of_le front.length_le with less | same
        · exact less
        · exact absurd (front.eq_of_length same) (more.resolve_left notEnd)
    rcases piece_at (List.getElem?_eq_getElem inside) with ⟨isChar, nonzero, below⟩
    rw [if_pos (UInt32.lt_iff_toNat_lt.mpr below), isChar]
    exact ⟨_, _, rfl, ofLength.trans stopped.sized, isText, iff_of_true (decide_eq_false nonzero) more⟩
  · rcases not_or.mp more with ⟨notEnd, all⟩
    rw [not_not] at all
    have counted := stopped.counted
    rw [if_neg notEnd, all, Nat.sub_zero] at counted
    by_cases below : j < length
    · have isEnd := piece_end readable (by rw [← counted]; exact UInt32.lt_iff_toNat_lt.mp below)
      rw [← counted] at isEnd
      rw [if_pos below, isEnd]
      exact ⟨_, _, rfl, ofLength.trans stopped.sized, isText, iff_of_false (Bool.noConfusion) more⟩
    · rw [if_neg below]
      exact ⟨_, _, rfl, ofLength.trans stopped.sized, isText, iff_of_false (Bool.noConfusion) more⟩

theorem strnEncode_several (readable : 0 ∈ string ∨ length.toNat ≤ string.length) (many : 2 ≤ size.toNat)
    (sized : buffer.length = size.toNat) :
    (Wraps size (piece string length) ∧ strnEncode buffer size string length = .error .undefined) ∨
      (¬ Wraps size (piece string length) ∧ ∃ returned ended, strnEncode buffer size string length =
        .ok (returned, ended) ∧
        ended.length = size.toNat ∧ text ended = encoding ((fitting (size.toNat - 1) (piece string length)).map norm) ∧
        (returned = false ↔ (encoding (fitting (size.toNat - 1) (piece string length))).length + 1 = size.toNat ∨
          fitting (size.toNat - 1) (piece string length) ≠ piece string length)) := by
  have few : (piece string length).length < 2 ^ 32 := by
    have upto := (List.takeWhile_prefix (fun byte => byte ≠ 0) (l := string.take length.toNat)).length_le
    rw [List.length_take] at upto
    exact Nat.lt_of_le_of_lt (Nat.le_trans upto (Nat.min_le_left _ _)) length.toNat_lt
  rcases @encodeFrom_eq _ _ _ _ _ [] _ 0 0 readable (List.nil_append _).symm rfl rfl sized rfl many few with
    ⟨wraps, fails⟩ | ⟨bounded, i, j, after, ended, stopped⟩
  · left
    rw [strnEncode, fails]
    exact ⟨wraps, rfl⟩
  · right
    rcases fitting_spec (size.toNat - 1) (piece string length) with ⟨front, room, -⟩
    exact ⟨bounded, strnEncode_eq readable front (by omega) many ended stopped⟩

/-- What a call returns encodes the string if and only if the string is one that
is encoded as it should. -/
theorem encodes_iff {returned : Bool} {ended : List UInt8} (sized : buffer.length = size.toNat) (many : 2 ≤ size.toNat)
    (bounded : ¬ Wraps size (piece string length)) (ofLength : ended.length = size.toNat)
    (isText : text ended = encoding ((fitting (size.toNat - 1) (piece string length)).map norm))
    (isReturned : returned = false ↔ (encoding (fitting (size.toNat - 1) (piece string length))).length + 1 =
      size.toNat ∨
      fitting (size.toNat - 1) (piece string length) ≠ piece string length) :
    Encodes buffer size string length returned ended ↔ Encodable size (piece string length) := by
  rcases fitting_spec (size.toNat - 1) (piece string length) with ⟨front, few, all⟩
  have decoded : decode (text ended) = (fitting (size.toNat - 1) (piece string length)).map norm := by
    rw [isText, decode_encoding]
  constructor
  · intro encodes
    refine ⟨fun some exact => ?_, fun one => by omega, ?_, bounded⟩
    · have isAll := all.mpr (by omega)
      rw [isAll] at isReturned
      have long := encodes.fits.mp (isReturned.mpr (Or.inl exact))
      omega
    · rw [← map_norm]
      cases returned with
      | false =>
          rcases encodes.cut rfl with ⟨other, isFront, holds⟩
          have same : other = (fitting (size.toNat - 1) (piece string length)).map norm := by
            rw [← decoded, holds, decode_encoding]
          rw [← same]
          apply (List.prefix_of_prefix_length_le isFront front ?_).eq_of_length
          · rw [same, List.length_map]
          · rw [same, List.length_map]
      | true =>
          have isAll : fitting (size.toNat - 1) (piece string length) = piece string length := by
            by_contra differs
            exact Bool.noConfusion (isReturned.mpr (Or.inr differs))
          rw [← decoded, encodes.whole rfl, isAll]
  · intro encodable
    have codes := (map_norm _).mpr encodable.codes
    rw [codes] at decoded isText
    have isFits : returned = false ↔ size.toNat - 1 < (encoding (piece string length)).length := by
      rw [isReturned]
      by_cases isAll : fitting (size.toNat - 1) (piece string length) = piece string length
      · have short := all.mp isAll
        refine iff_of_false (not_or.mpr ⟨fun exact => ?_, not_not_intro isAll⟩) (Nat.not_lt.mpr short)
        rw [isAll] at exact
        refine encodable.notExact (fun empty => ?_) exact
        rw [empty] at exact
        change 0 + 1 = size.toNat at exact
        omega
      · exact iff_of_true (Or.inr isAll) (Nat.not_le.mp fun short => isAll (all.mpr short))
    refine ⟨ofLength.trans sized.symm, isFits, fun _ => ⟨_, front, isText⟩, fun isTrue => ?_⟩
    rw [decoded, all]
    apply Nat.not_lt.mp
    intro long
    rw [isFits.mpr long] at isTrue
    cases isTrue

/-! ## Buffers of one byte -/

/-- Behind a buffer of one byte, the loop does not get back. -/
theorem encodeFrom_behind {turns : Nat} {j : UInt32} (single : buffer.length = 1) :
    (∃ stop, encodeFrom 1 string length turns 1 j buffer = .error stop) ∨
      ∃ j' after, encodeFrom 1 string length turns 1 j buffer = .ok (1, j', after) := by
  have full : ∀ written : UInt8, put buffer 1 [written] = .error .undefined := by
    intro written
    refine if_neg ?_
    rw [single]
    exact Nat.not_succ_le_self 1
  cases turns with
  | zero => exact Or.inl ⟨_, rfl⟩
  | succ turns =>
      rw [encodeFrom]
      by_cases early : j < length
      · rw [if_pos early]
        cases string[j.toNat]? with
        | none => exact Or.inl ⟨_, rfl⟩
        | some c =>
            simp only
            by_cases isZero : c = 0
            · rw [if_pos isZero]
              exact Or.inr ⟨_, _, rfl⟩
            · rw [if_neg isZero, turn, full, full]
              by_cases isSpace : c = 32
              · rw [if_pos isSpace]
                exact Or.inl ⟨_, rfl⟩
              · rw [if_neg isSpace]
                by_cases escaped : isEscaped c = true
                · rw [if_pos escaped, if_pos (by decide)]
                  exact Or.inr ⟨_, _, rfl⟩
                · rw [if_neg escaped]
                  exact Or.inl ⟨_, rfl⟩
      · rw [if_neg early]
        exact Or.inr ⟨_, _, rfl⟩

/-- A character that is not escaped is written to the only byte of a buffer, and
the call fails. -/
theorem strnEncode_one_plain {c : UInt8} (single : buffer.length = 1) (first : (piece string length)[0]? = some c)
    (plain : ¬ (c ≠ 32 ∧ isEscaped c = true)) : ∃ stop, strnEncode buffer 1 string length = .error stop := by
  rcases piece_at first with ⟨isChar, nonzero, early⟩
  have entered : ∃ j after, after.length = 1 ∧
      encodeFrom 1 string length (2 ^ 32) 0 0 buffer = encodeFrom 1 string length (2 ^ 32 - 1) 1 j after := by
    have written : ∃ written after, put buffer 0 [written] = .ok after ∧ after.length = 1 ∧
        turn 1 c 0 buffer = .ok (some (1, after)) := by
      rw [turn]
      by_cases isSpace : c = 32
      · rcases @put_ok buffer 0 [95] (Nat.le_of_eq single.symm) with ⟨after, done, ofLength, -⟩
        rw [if_pos isSpace, done]
        exact ⟨95, after, done, ofLength.trans single, rfl⟩
      · rcases @put_ok buffer 0 [c] (Nat.le_of_eq single.symm) with ⟨after, done, ofLength, -⟩
        rw [if_neg isSpace, if_neg fun escaped => plain ⟨isSpace, escaped⟩, done]
        exact ⟨c, after, done, ofLength.trans single, rfl⟩
    rcases written with ⟨_, after, -, ofLength, turned⟩
    refine ⟨0 + 1, after, ofLength, ?_⟩
    change encodeFrom 1 string length ((2 ^ 32 - 1) + 1) 0 0 buffer = _
    have started : 0 < length := UInt32.lt_iff_toNat_lt.mpr early
    have isFirst : string[(0 : UInt32).toNat]? = some c := isChar
    rw [encodeFrom, if_pos started, isFirst]
    simp only [if_neg nonzero, turned, ok_bind]
    exact if_neg (by decide)
  rcases entered with ⟨j, after, ofLength, same⟩
  rw [strnEncode, same]
  rcases @encodeFrom_behind _ _ _ (2 ^ 32 - 1) j ofLength with ⟨stop, fails⟩ | ⟨j', after', ends⟩
  · rw [fails]
    exact ⟨stop, rfl⟩
  · rw [ends]
    exact ⟨.assertion, rfl⟩

/-- A character that is escaped does not fit into a buffer of one byte, which is
then empty. -/
theorem strnEncode_one {c : UInt8} (single : buffer.length = 1) (first : (piece string length)[0]? = some c)
    (escaped : c ≠ 32 ∧ isEscaped c = true) : ∃ ended, strnEncode buffer 1 string length = .ok (false, ended) ∧
      ended.length = 1 ∧ text ended = [] := by
  rcases piece_at first with ⟨isChar, nonzero, early⟩
  have started : 0 < length := UInt32.lt_iff_toNat_lt.mpr early
  have isFirst : string[(0 : UInt32).toNat]? = some c := isChar
  have looped : encodeFrom 1 string length (2 ^ 32) 0 0 buffer = .ok (0, 0, buffer) := by
    change encodeFrom 1 string length ((2 ^ 32 - 1) + 1) 0 0 buffer = _
    rw [encodeFrom, if_pos started, isFirst]
    simp only [if_neg nonzero, turn, if_neg escaped.1, if_pos escaped.2]
    rw [if_pos (by decide)]
    rfl
  rcases @put_ok buffer 0 [0] (Nat.le_of_eq single.symm) with ⟨ended, done, ofLength, taken⟩
  rw [strnEncode, looped, ok_bind]
  simp only
  rw [if_pos (by decide), done, ok_bind, if_pos started, isFirst]
  refine ⟨ended, ?_, ofLength.trans single, ?_⟩
  · simp only [decide_eq_false nonzero]
  · have isZero : ended = [0] := by
      have upto := taken 1 (Nat.le_refl 1)
      rw [List.take_of_length_le (by rw [ofLength, single]; exact Nat.le_refl 1)] at upto
      exact upto
    rw [isZero]
    rfl

/-- A string without characters is encoded in any buffer. -/
theorem strnEncode_empty (readable : 0 ∈ string ∨ length.toNat ≤ string.length) (some : 0 < size)
    (sized : buffer.length = size.toNat) (empty : piece string length = []) :
    ∃ ended, strnEncode buffer size string length = .ok (true, ended) ∧ ended.length = size.toNat ∧
      text ended = [] := by
  have positive : 1 ≤ size.toNat := UInt32.lt_iff_toNat_lt.mp some
  have first : 0 < length → string[(0 : UInt32).toNat]? = Option.some 0 := by
    intro started
    have isEnd := piece_end readable (by rw [empty]; exact UInt32.lt_iff_toNat_lt.mp started)
    rwa [empty] at isEnd
  have looped : encodeFrom size string length (2 ^ 32) 0 0 buffer = .ok (0, 0, buffer) := by
    change encodeFrom size string length ((2 ^ 32 - 1) + 1) 0 0 buffer = _
    rw [encodeFrom]
    by_cases started : 0 < length
    · rw [if_pos started]
      rw [first started]
      exact if_pos rfl
    · exact if_neg started
  rcases @put_ok buffer 0 [0] (by rw [sized]; exact positive) with ⟨ended, done, ofLength, taken⟩
  refine ⟨ended, ?_, ofLength.trans sized, ?_⟩
  · rw [strnEncode, looped, ok_bind]
    simp only
    rw [if_pos some, done, ok_bind]
    by_cases started : 0 < length
    · rw [if_pos started]
      rw [first started]
      rfl
    · exact if_neg started
  · have upto := taken 1 (Nat.le_refl 1)
    change ended.take 1 = [] ++ [0] at upto
    rw [← List.take_append_drop 1 ended, upto]
    exact CString.text_append_zero List.not_mem_nil _

end

/-! ## All strings -/

/-- A call encodes a string as it should if and only if its encoding does not
fill the buffer up to the last byte but one, a buffer of one byte is not for a
string that starts with a character that is not escaped, no character that fits
is neither ASCII nor the last, and the position that is compared with the size
does not wrap. -/
theorem strn_encode_encodes {buffer string : List UInt8} {size length : UInt32} (some : 0 < size)
    (sized : buffer.length = size.toNat) (readable : 0 ∈ string ∨ length.toNat ≤ string.length) :
    (∃ returned after, strnEncode buffer size string length = .ok (returned, after) ∧
      Encodes buffer size string length returned after) ↔ Encodable size (piece string length) := by
  have positive : 1 ≤ size.toNat := UInt32.lt_iff_toNat_lt.mp some
  rcases Nat.lt_or_eq_of_le positive with many | single
  · rcases strnEncode_several readable many sized with ⟨wraps, fails⟩ |
      ⟨bounded, returned, ended, done, ofLength, isText, isReturned⟩
    · refine iff_of_false ?_ fun encodable => encodable.bounded wraps
      rintro ⟨returned, after, done, -⟩
      rw [fails] at done
      cases done
    · rw [← encodes_iff sized many bounded ofLength isText isReturned, done]
      exact ⟨fun ⟨_, _, same, encodes⟩ => (by cases same; exact encodes), fun encodes => ⟨_, _, rfl, encodes⟩⟩
  · have isOne : size = 1 := UInt32.toNat_inj.mp single.symm
    subst isOne
    have bounded : ¬ Wraps 1 (piece string length) := fun wraps => absurd wraps.1 (by decide)
    cases isPiece : piece string length with
    | nil =>
        rcases strnEncode_empty readable some sized isPiece with ⟨ended, done, ofLength, isText⟩
        refine iff_of_true ⟨_, _, done, ?_⟩ ?_
        · refine ⟨ofLength.trans sized.symm, iff_of_false Bool.noConfusion ?_,
            fun wrong => Bool.noConfusion wrong, fun _ => ?_⟩
          · rw [isPiece]
            exact Nat.not_lt_zero _
          · rw [isPiece, isText, decode]
        · rw [← isPiece]
          refine ⟨fun several => absurd isPiece several, fun _ c first => ?_, fun c inside => ?_, bounded⟩
          · rw [isPiece] at first
            cases first
          · rw [isPiece] at inside
            cases inside
    | cons c rest =>
        have first : (piece string length)[0]? = Option.some c := by
          rw [isPiece]
          rfl
        have wide : 1 ≤ (encoding (c :: rest)).length := by
          change 1 ≤ (encodeChar c ++ encoding rest).length
          rw [List.length_append]
          exact Nat.le_add_right_of_le (encodeChar_length c).2
        by_cases escaped : c ≠ 32 ∧ isEscaped c = true
        · rcases strnEncode_one sized first escaped with ⟨ended, done, ofLength, isText⟩
          have none : fitting ((1 : UInt32).toNat - 1) (c :: rest) = [] := by
            have upto := (fitting_spec 0 (c :: rest)).2.1
            exact encoding_eq_nil.mp (Nat.le_zero.mp upto)
          refine iff_of_true ⟨_, _, done, ?_⟩ ?_
          · refine ⟨ofLength.trans sized.symm, iff_of_true rfl ?_, fun _ => ⟨[], List.nil_prefix, isText⟩,
              fun wrong => Bool.noConfusion wrong⟩
            rw [isPiece]
            exact wide
          · refine ⟨fun _ exact => ?_, fun _ other isFirst => ?_, fun other inside => ?_, isPiece ▸ bounded⟩
            · change (encoding (c :: rest)).length + 1 = 1 at exact
              omega
            · cases isFirst
              exact escaped
            · rw [none] at inside
              cases inside
        · rcases strnEncode_one_plain sized first escaped with ⟨stop, fails⟩
          refine iff_of_false ?_ fun encodable => escaped (encodable.several rfl c rfl)
          rintro ⟨returned, after, done, -⟩
          rw [fails] at done
          cases done

/-- A string that is encoded as it should be. -/
theorem strn_encode_blank : ∃ returned after, strnEncode [1, 1, 1, 1] 4 [32, 98, 0] 2 = .ok (returned, after) ∧
    Encodes [1, 1, 1, 1] 4 [32, 98, 0] 2 returned after := by
  apply (strn_encode_encodes (by decide) rfl (Or.inl (by decide))).mpr
  exact ⟨fun _ => by decide, fun one => absurd one (by decide), by decide +kernel,
    fun wraps => absurd wraps.1 (by decide)⟩

/-- The encoding of three letters fits in a buffer of four bytes, but the call
returns that it does not; a letter of two bytes is read back as two other
bytes. -/
theorem strn_encode_fails :
    (∃ after, strnEncode [1, 1, 1, 1] 4 [97, 98, 99, 0] 3 = .ok (false, after) ∧ text after = [97, 98, 99]) ∧
    (¬ ∃ returned after, strnEncode [1, 1, 1, 1] 4 [97, 98, 99, 0] 3 = .ok (returned, after) ∧
      Encodes [1, 1, 1, 1] 4 [97, 98, 99, 0] 3 returned after) ∧
    ∃ after, strnEncode (List.replicate 8 1) 8 [195, 169, 0] 2 = .ok (true, after) ∧
      text after = [61, 70, 70, 61, 70, 70] := by
  have exact : ∃ after, strnEncode [1, 1, 1, 1] 4 [97, 98, 99, 0] 3 = .ok (false, after) ∧
    text after = [97, 98, 99] := by
    rcases @strnEncode_several 4 [1, 1, 1, 1] [97, 98, 99, 0] 3 (Or.inl (by decide)) (by decide) rfl with
      ⟨wraps, -⟩ | ⟨-, returned, after, done, -, isText, isReturned⟩
    · exact absurd wraps.1 (by decide)
    · rw [isReturned.mpr (Or.inl (by decide))] at done
      exact ⟨after, done, isText⟩
  refine ⟨exact, ?_, ?_⟩
  · rcases exact with ⟨after, done, -⟩
    rintro ⟨returned, ended, same, encodes⟩
    rw [done] at same
    cases same
    exact absurd (encodes.fits.mp rfl) (by decide)
  · rcases @strnEncode_several 8 (List.replicate 8 1) [195, 169, 0] 2 (Or.inl (by decide)) (by decide) rfl with
      ⟨wraps, -⟩ | ⟨-, returned, after, done, -, isText, isReturned⟩
    · exact absurd wraps.1 (by decide)
    · have isTrue : returned = true := by
        rw [← Bool.not_eq_false, isReturned]
        decide
      rw [isTrue] at done
      exact ⟨after, done, isText⟩

end SxeStr
end LibKit
