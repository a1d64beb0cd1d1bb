import LibKit.Support.Bytes

namespace LibKit
namespace SxeLog

/-!
# The lines of `sxe-log.c`

A line of the log is put together in a buffer of fixed size, and what does not fit
is cut off.  Before it is handed on, everything that is not printable is escaped,
which may make it too long again.  A text is the bytes of a C string, without the
NUL.
-/

/-- `SXE_LOG_BUFFER_SIZE` -/
def bufferSize : Nat := 1024

/-- A string in `log_buffer`, and the index where the next one goes. -/
structure LogBuffer where
  text : List UInt8
  index : Nat

/-- `snprintf` or `strlcpy` to the rest of the buffer, with the result. -/
def LogBuffer.print (log : LogBuffer) (text : List UInt8) : Int × LogBuffer :=
  (if text.length < 2 ^ 31 then text.length else -1,
    { log with text := log.text.take log.index ++ text.take (bufferSize - log.index - 1) })

/-- `"..\\n"` -/
def dots : List UInt8 := [46, 46, 10]

/-- `sxe_log_safe_append` -/
def safeAppend (log : LogBuffer) (appended : Int) : Bool × LogBuffer :=
  if appended < 0 ∨ appended.toNat ≥ bufferSize - log.index then
    (false, { log with text := log.text.take (bufferSize - 4) ++ dots })
  else (true, { log with index := log.index + appended.toNat })

/-- The texts of a line, one after the other as long as they fit. -/
def appendAll : List (List UInt8) → LogBuffer → LogBuffer
  | [], log => log
  | text :: texts, log =>
      let (result, log) := log.print text
      let (fits, log) := safeAppend log result
      if fits then appendAll texts log else log

/-! ## Escaping -/

/-- `isprint` -/
def isPrint (byte : UInt8) : Bool := 0x20 ≤ byte && byte ≤ 0x7e

/-- A digit of `%02X` -/
def hexDigit (digit : UInt8) : UInt8 := if digit < 10 then 48 + digit else 55 + digit

/-- One byte behind the first one that is not printable. -/
def escapeByte (byte : UInt8) : List UInt8 :=
  if byte = 92 then [92, 92]
  else if byte = 10 then [92, 110]
  else if byte = 13 then [92, 114]
  else if isPrint byte then [byte]
  else [92, 120, hexDigit (byte / 16), hexDigit (byte % 16)]

/-- The bytes in `line_escaped`. -/
def escaped (line : List UInt8) : List UInt8 :=
  line.takeWhile isPrint ++ (line.dropWhile isPrint).flatMap escapeByte

/-- What `sxe_log_line_out_escaped` hands on; the last two bytes make room for the newline and the NUL. -/
def lineOutEscaped (line : List UInt8) : List UInt8 :=
  if line.dropWhile isPrint = [] then line
  else if (escaped line).length > bufferSize then (escaped line).take (bufferSize - 4) ++ dots
  else (escaped line).take ((escaped line).length - 2) ++ [10]

/-! ## The calls -/

/-- A call that writes to the log; the message is what the format and its arguments make. -/
inductive LogCall where
  | log (id indent : UInt32) (func : List UInt8) (format0 : UInt8) (message : List UInt8)
  | entry (indent : UInt32) (function : List UInt8) (format0 : UInt8) (message : List UInt8) (place : List UInt8)
  | returned (indent : UInt32) (place : List UInt8)

/-- `"%*s"` of an empty string. -/
def spaces (width : UInt32) : List UInt8 := List.replicate width.toInt32.toInt.natAbs 32

/-- The texts of each line of a call behind the prefix. -/
def LogCall.texts : LogCall → List (List (List UInt8))
  | .log id indent func format0 message =>
      [[spaces (2 * indent) ++ if id = 0xfffffffe then [] else [45, 32]] ++
        (if format0 ≠ 58 ∧ format0 ≠ 40 then [] else [func]) ++ [message, [10]]]
  | .entry indent function format0 message place =>
      [[spaces (2 * indent - 2) ++ [43, 32]] ++ (if format0 ≠ 40 then [] else [function]) ++ [message, [10]],
        [spaces (2 * indent - 2) ++ [32, 32, 123, 32, 47, 47, 32] ++ place ++ [10]]]
  | .returned indent place => [[spaces (2 * indent + 2) ++ [125, 32, 47, 47, 32] ++ place ++ [10]]]

/-- Each line is made in the same buffer, from the end of the prefix on. -/
def linesOut (prefixLength : Nat) : List (List (List UInt8)) → LogBuffer → List (List UInt8)
  | [], _ => []
  | texts :: others, log =>
      let log := appendAll texts { log with index := prefixLength }
      lineOutEscaped log.text :: linesOut prefixLength others log

/-- `sxe_log`, `sxe_log_entry` and `sxe_log_return` of a level that is logged, with the prefix that
`sxe_log_buffer_prefix` puts into the buffer. -/
def LogCall.lines (start : List UInt8) (call : LogCall) : List (List UInt8) :=
  linesOut start.length call.texts ⟨start, start.length⟩

/-! ## What fits -/

def whole (start : List UInt8) (texts : List (List UInt8)) : List UInt8 := start ++ texts.flatten

/-- The line, or as much of it as there is room for. -/
def cut (line : List UInt8) : List UInt8 :=
  if line.length < bufferSize then line else line.take (bufferSize - 4) ++ dots

section

variable {text : List UInt8} {texts : List (List UInt8)} {log : LogBuffer}

/-- A text that fits. -/
theorem appendAll_fits (fits : text.length < bufferSize - log.index) :
    appendAll (text :: texts) log = appendAll texts ⟨log.text.take log.index ++ text, log.index + text.length⟩ := by
  have small : text.length < 2 ^ 31 := Nat.lt_of_lt_of_le fits (Nat.le_trans (Nat.sub_le _ _) (by decide))
  have all : text.take (bufferSize - log.index - 1) = text := List.take_of_length_le (Nat.le_sub_one_of_lt fits)
  have safe : safeAppend { log with text := log.text.take log.index ++ text } text.length =
      (true, ⟨log.text.take log.index ++ text, log.index + text.length⟩) := by
    rw [safeAppend, if_neg]
    · rfl
    · rw [Int.toNat_natCast]
      dsimp only
      omega
  rw [appendAll, LogBuffer.print, if_pos small, all]
  dsimp only
  rw [safe]
  rfl

theorem take_append_take {first second : List UInt8} {total room : Nat} (enough : total - first.length ≤ room) :
    (first ++ second.take room).take total = (first ++ second).take total := by
  rw [List.take_append, List.take_append, List.take_take, Nat.min_eq_left enough]

theorem appendAll_cut (index : log.index ≤ log.text.length) (room : log.index < bufferSize)
    (long : bufferSize - log.index ≤ text.length) :
    (appendAll (text :: texts) log).text = (log.text.take log.index ++ text).take (bufferSize - 4) ++ dots := by
  have start : (log.text.take log.index).length = log.index := List.length_take_of_le index
  have safe : ∀ content : List UInt8, safeAppend ⟨content, log.index⟩ (if text.length < 2 ^ 31 then text.length
    else -1) =
      (false, ⟨content.take (bufferSize - 4) ++ dots, log.index⟩) := by
    intro content
    rw [safeAppend, if_pos]
    by_cases small : text.length < 2 ^ 31
    · rw [if_pos small, Int.toNat_natCast]
      exact Or.inr long
    · rw [if_neg small]
      exact Or.inl (by decide)
  rw [appendAll, LogBuffer.print]
  dsimp only
  rw [safe (log.text.take log.index ++ text.take (bufferSize - log.index - 1))]
  dsimp only
  rw [if_neg Bool.false_ne_true]
  dsimp only
  rw [take_append_take]
  rw [start]
  omega

theorem take_cut {line : List UInt8} {rest : List UInt8} (long : bufferSize ≤ line.length) :
    line.take (bufferSize - 4) ++ dots = cut (line ++ rest) := by
  rw [cut, if_neg, List.take_append_of_le_length]
  · exact Nat.le_trans (Nat.sub_le _ _) long
  · rw [List.length_append]
    omega

theorem appendAll_text (index : log.index ≤ log.text.length) (room : log.index < bufferSize)
    (string : texts = [] → log.index = log.text.length) :
    (appendAll texts log).text = cut (whole (log.text.take log.index) texts) := by
  induction texts generalizing log with
  | nil =>
      rw [appendAll, whole, List.flatten_nil, List.append_nil, string rfl, List.take_length, cut, if_pos]
      rwa [← string rfl]
  | cons text texts ih =>
      have start : (log.text.take log.index).length = log.index := List.length_take_of_le index
      have joined : (log.text.take log.index ++ text).length = log.index + text.length := by
        rw [List.length_append, start]
      have same : whole (log.text.take log.index) (text :: texts) = whole (log.text.take log.index ++ text) texts := by
        rw [whole, whole, List.flatten_cons, List.append_assoc]
      rw [same]
      by_cases fits : text.length < bufferSize - log.index
      · rw [appendAll_fits fits, ih (Nat.le_of_eq joined.symm) (by dsimp only; omega) fun _ => joined.symm, ← joined,
          List.take_length]
      · rw [appendAll_cut index room (Nat.not_lt.mp fits), whole]
        exact take_cut (by omega)

end

/-! ## One printable line -/

/-- A line is printable up to the newline at its end, and shorter than the buffer. -/
structure OneLine (line : List UInt8) : Prop where
  ends : ∃ body, line = body ++ [10] ∧ ∀ byte ∈ body, isPrint byte
  length : line.length < bufferSize

theorem escapeByte_print (byte : UInt8) : (escapeByte byte).all isPrint = true := by
  revert byte
  apply Bytes.forall_bytes
  decide +kernel

theorem escapeByte_long (byte : UInt8) (special : isPrint byte = false) : 2 ≤ (escapeByte byte).length := by
  revert byte
  apply Bytes.forall_bytes
  decide +kernel

theorem escaped_print (line : List UInt8) : ∀ byte ∈ escaped line, isPrint byte = true := by
  intro byte member
  rcases List.mem_append.mp member with plain | escape
  · exact List.mem_takeWhile_imp plain
  · rcases List.mem_flatMap.mp escape with ⟨source, -, made⟩
    exact List.all_eq_true.mp (escapeByte_print source) byte made

theorem escaped_long {line : List UInt8} (special : line.dropWhile isPrint ≠ []) :
    (line.takeWhile isPrint).length + 2 ≤ (escaped line).length := by
  rw [escaped, List.length_append]
  apply Nat.add_le_add_left
  have first := List.head_dropWhile_not isPrint special
  cases rest : line.dropWhile isPrint with
  | nil => exact absurd rest special
  | cons byte bytes =>
      simp only [rest, List.head_cons] at first
      rw [List.flatMap_cons, List.length_append]
      exact Nat.le_trans (escapeByte_long byte first) (Nat.le_add_right _ _)

/-- A line that ends has a byte that is not printable. -/
theorem dropWhile_ended {body : List UInt8} : (body ++ [10]).dropWhile isPrint ≠ [] := by
  intro none
  have all := List.dropWhile_eq_nil_iff.mp none 10 (List.mem_append_right _ List.mem_cons_self)
  exact absurd all (by decide)

theorem lineOutEscaped_oneLine (body : List UInt8) : OneLine (lineOutEscaped (body ++ [10])) := by
  have printable := escaped_print (body ++ [10])
  have long := escaped_long (@dropWhile_ended body)
  rw [lineOutEscaped, if_neg dropWhile_ended]
  split
  · refine ⟨⟨(escaped (body ++ [10])).take (bufferSize - 4) ++ [46, 46], ?_, ?_⟩, ?_⟩
    · rw [List.append_assoc]
      rfl
    · intro byte member
      rcases List.mem_append.mp member with early | dot
      · exact printable byte (List.mem_of_mem_take early)
      · rw [List.eq_of_mem_replicate (n := 2) (a := 46) dot]
        rfl
    · rw [List.length_append, List.length_take]
      exact Nat.lt_of_le_of_lt (Nat.add_le_add_right (Nat.min_le_left _ _) _) (by decide)
  · rename_i short
    refine ⟨⟨_, rfl, fun byte member => printable byte (List.mem_of_mem_take member)⟩, ?_⟩
    rw [List.length_append, List.length_take, List.length_singleton]
    omega

/-! ## What is in a line -/

theorem escaped_print_cons {byte : UInt8} (printable : isPrint byte = true) (line : List UInt8) :
    escaped (byte :: line) = byte :: escaped line := by
  rw [escaped, escaped, List.takeWhile_cons_of_pos printable, List.dropWhile_cons_of_pos printable]
  rfl

theorem escaped_special_cons {byte : UInt8} (special : ¬ isPrint byte = true) (line : List UInt8) :
    escaped (byte :: line) = (byte :: line).flatMap escapeByte := by
  rw [escaped, List.takeWhile_cons_of_neg special, List.dropWhile_cons_of_neg special, List.nil_append]

theorem escaped_append {tail : List UInt8} (same : escaped tail = tail.flatMap escapeByte) (line : List UInt8) :
    escaped (line ++ tail) = escaped line ++ tail.flatMap escapeByte := by
  induction line with
  | nil => exact same
  | cons byte line ih =>
      by_cases printable : isPrint byte = true
      · rw [List.cons_append, escaped_print_cons printable, escaped_print_cons printable, ih, List.cons_append]
      · rw [List.cons_append, escaped_special_cons printable, escaped_special_cons printable, ← List.cons_append,
          List.flatMap_append]

theorem escaped_prefix (line rest : List UInt8) : escaped line <+: escaped (line ++ rest) := by
  induction line with
  | nil => exact List.nil_prefix
  | cons byte line ih =>
      by_cases printable : isPrint byte = true
      · rw [List.cons_append, escaped_print_cons printable, escaped_print_cons printable]
        exact List.prefix_cons_inj byte |>.mpr ih
      · rw [List.cons_append, escaped_special_cons printable, escaped_special_cons printable, ← List.cons_append,
          List.flatMap_append]
        exact List.prefix_append _ _

theorem escapeByte_pos (byte : UInt8) : 0 < (escapeByte byte).length := by
  revert byte
  apply Bytes.forall_bytes
  decide +kernel

theorem length_le_escaped (line : List UInt8) : line.length ≤ (escaped line).length := by
  have special : ∀ line : List UInt8, line.length ≤ (line.flatMap escapeByte).length := by
    intro line
    induction line with
    | nil => exact Nat.le_refl _
    | cons byte line ih =>
        have positive := escapeByte_pos byte
        rw [List.flatMap_cons, List.length_append, List.length_cons]
        omega
  induction line with
  | nil => exact Nat.le_refl _
  | cons byte line ih =>
      by_cases printable : isPrint byte = true
      · rw [escaped_print_cons printable]
        exact Nat.succ_le_succ ih
      · rw [escaped_special_cons printable]
        exact special _

theorem escaped_take {line : List UInt8} {room : Nat} (long : room ≤ line.length) :
    (escaped (line.take room)).take room = (escaped line).take room := by
  have enough := length_le_escaped (line.take room)
  rw [List.length_take_of_le long] at enough
  rcases escaped_prefix (line.take room) (line.drop room) with ⟨rest, same⟩
  rw [List.take_append_drop] at same
  rw [← same, List.take_append_of_le_length enough]

/-- A line is handed on escaped, as much of it as there is room for: cutting it twice is cutting
it once. -/
theorem lineOutEscaped_cut (body : List UInt8) : lineOutEscaped (cut (body ++ [10])) = cut (escaped body ++ [10]) := by
  have newline : escaped [10] = [10].flatMap escapeByte := rfl
  have out (line : List UInt8) : lineOutEscaped (line ++ [10]) = cut (escaped line ++ [10]) := by
    rw [lineOutEscaped, if_neg dropWhile_ended, escaped_append newline, cut]
    have two : ([10].flatMap escapeByte).length = 2 := rfl
    simp only [List.length_append, two, List.length_singleton, Nat.add_sub_cancel, List.take_left]
    by_cases long : (escaped line).length + 2 > bufferSize
    · have early : bufferSize - 4 ≤ (escaped line).length := by omega
      rw [if_pos long, if_neg (by omega), List.take_append_of_le_length early, List.take_append_of_le_length early]
    · rw [if_neg long, if_pos (by omega)]
  by_cases fits : (body ++ [10]).length < bufferSize
  · rw [cut, if_pos fits]
    exact out body
  · have plain : escaped [46, 46] = [46, 46].flatMap escapeByte := rfl
    have dotted : [46, 46].flatMap escapeByte = [46, 46] := rfl
    have isLong : bufferSize ≤ body.length + 1 := by
      rw [List.length_append, List.length_singleton] at fits
      omega
    have early : bufferSize - 4 ≤ body.length := by omega
    have grown := length_le_escaped body
    have taken := escaped_take early
    have length := length_le_escaped (body.take (bufferSize - 4))
    rw [List.length_take_of_le early] at length
    have split : (body ++ [10]).take (bufferSize - 4) ++ dots = (body.take (bufferSize - 4) ++ [46, 46]) ++ [10] := by
      rw [List.take_append_of_le_length early, List.append_assoc]
      rfl
    have right : cut (escaped body ++ [10]) = (escaped body).take (bufferSize - 4) ++ dots := by
      rw [cut, if_neg, List.take_append_of_le_length (by omega)]
      rw [List.length_append, List.length_singleton]
      omega
    rw [cut, if_neg fits, split, out, escaped_append plain, dotted, right, cut]
    simp only [List.length_append, List.length_cons, List.length_nil]
    split
    · -- nothing was escaped in front of the dots
      rename_i short
      have all : (escaped (body.take (bufferSize - 4))).length ≤ bufferSize - 4 := by omega
      rw [← taken, List.take_of_length_le all, List.append_assoc]
      rfl
    · rw [List.append_assoc, List.take_append_of_le_length length, taken]

/-! ## All lines -/

/-- What was handed on instead of a whole line: one printable line, which is the escaped one, or
as much of it as there is room for. -/
structure Logged (whole line : List UInt8) : Prop where
  single : OneLine line
  content : ∃ body, whole = body ++ [10] ∧ line = cut (escaped body ++ [10])

/-- A printable line that fits is handed on as it is. -/
theorem Logged.same {body line : List UInt8} (logged : Logged (body ++ [10]) line)
    (printable : ∀ byte ∈ body, isPrint byte) (fits : body.length + 1 < bufferSize) : line = body ++ [10] := by
  rcases logged.content with ⟨other, same, rfl⟩
  have plain : escaped body = body := by
    rw [escaped, List.takeWhile_eq_self_iff.mpr printable, List.dropWhile_eq_nil_iff.mpr printable]
    exact List.append_nil body
  rw [← List.append_cancel_right same, plain, cut, if_pos]
  rwa [List.length_append, List.length_singleton]

theorem cut_ended (body : List UInt8) : ∃ other, cut (body ++ [10]) = other ++ [10] := by
  rw [cut]
  split
  · exact ⟨body, rfl⟩
  · exact ⟨(body ++ [10]).take (bufferSize - 4) ++ [46, 46], by rw [List.append_assoc]; rfl⟩

theorem cut_logged (body : List UInt8) : Logged (body ++ [10]) (lineOutEscaped (cut (body ++ [10]))) := by
  refine ⟨?_, body, rfl, lineOutEscaped_cut body⟩
  rcases cut_ended body with ⟨other, ended⟩
  rw [ended]
  exact lineOutEscaped_oneLine other

theorem prefix_cut {start texts : List UInt8} (room : start.length ≤ bufferSize - 4) :
    start <+: cut (start ++ texts) := by
  rw [cut]
  split
  · exact List.prefix_append _ _
  · exact (List.prefix_take_iff.mpr ⟨List.prefix_append _ _, room⟩).trans (List.prefix_append _ _)

theorem linesOut_logged {start : List UInt8} (room : start.length ≤ bufferSize - 4)
    {lines : List (List (List UInt8))}
    (ended : ∀ texts ∈ lines, texts ≠ [] ∧ ∃ body, texts.flatten = body ++ [10]) {log : LogBuffer}
    (starts : start <+: log.text) :
    List.Forall₂ (fun texts line => Logged (whole start texts) line) lines (linesOut start.length lines log) := by
  induction lines generalizing log with
  | nil => exact List.Forall₂.nil
  | cons texts lines ih =>
      have made : (appendAll texts { log with index := start.length }).text = cut (whole start texts) := by
        have text := @appendAll_text texts { log with index := start.length } starts.length_le
          (Nat.lt_of_le_of_lt room (by decide)) fun none => absurd none (ended texts List.mem_cons_self).1
        rwa [← List.prefix_iff_eq_take.mp starts] at text
      rcases (ended texts List.mem_cons_self).2 with ⟨body, ends⟩
      have isLine : whole start texts = (start ++ body) ++ [10] := by rw [whole, ends, List.append_assoc]
      rw [linesOut, made]
      refine List.Forall₂.cons ?_ (ih (fun other member => ended other (List.mem_cons_of_mem _ member)) ?_)
      · rw [isLine]
        exact cut_logged _
      · rw [made, whole]
        exact prefix_cut room

end SxeLog
end LibKit
