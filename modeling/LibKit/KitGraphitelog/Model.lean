import LibKit.KitCounters.Reports
import LibKit.Support.Bytes

namespace LibKit
namespace KitGraphitelog

/-!
# `kit-graphitelog.c`

The counters that are reported are written to a buffer, one JSON object a line,
each with the time and some of the counters.  What is written to the log is
recorded.  The contents of the buffer, the position in it and its flag are not
initialized.
-/

/-- A counter, as `kit_counters_mib_text` reports it: its name and its value. -/
structure Entry where
  key : List UInt8
  value : List UInt8
deriving DecidableEq

/-- How a call ends without returning: an assertion fails, it does something that
is not defined, or it gets outside of the buffer. -/
inductive Stop where
  | assertion
  | undefined
  | outside
deriving DecidableEq

/-- `struct kit_graphitelog_buffer`, and what was written to the log. -/
structure Buffer where
  buf : Nat → UInt8
  pos : Int
  counter : Nat
  now : UInt64
  jsonComplete : Bool
  log : List (List UInt8)

/-- `sizeof(buffer->buf)` -/
def bufSize : Nat := 32767

/-- `snprintf` of a text: the length of it, and the bytes thereafter. -/
def snprintf (buf : Nat → UInt8) (place size : Nat) (text : List UInt8) : Except Stop (Nat × (Nat → UInt8)) :=
  if 2 ^ 31 ≤ text.length then .error .undefined
  else .ok (text.length, if size = 0 then buf else Bytes.write buf place (text.take (size - 1) ++ [0]))

/-- The text at the position is added to the buffer. -/
def Buffer.print (text : List UInt8) (buffer : Buffer) : Except Stop Buffer :=
  if buffer.pos < 0 then .error .outside
  else do
    let (length, buf) ← snprintf buffer.buf buffer.pos.toNat (bufSize - buffer.pos.toNat) text
    if 2 ^ 31 ≤ buffer.pos + length then .error .undefined
    else .ok { buffer with buf := buf, pos := buffer.pos + length }

/-- `kit_safe_write` of the buffer. -/
def Buffer.safeWrite (buffer : Buffer) : Except Stop Buffer :=
  if buffer.pos < 0 ∨ bufSize < buffer.pos then .error .outside
  else .ok { buffer with log := buffer.log ++ [Bytes.read buffer.buf 0 buffer.pos.toNat] }

/-- `"}\\n"` -/
def closing : List UInt8 := [125, 10]

/-- `kit_graphitelog_complete` -/
def complete (buffer : Buffer) : Except Stop Buffer :=
  if buffer.jsonComplete then .ok buffer
  else if buffer.pos < bufSize then do
    let buffer ← buffer.print closing
    Buffer.safeWrite { buffer with jsonComplete := true }
  else Buffer.safeWrite { buffer with jsonComplete := true }

def header (now : UInt64) : List UInt8 :=
  [123, 34, 108, 111, 103, 46, 116, 105, 109, 101, 115, 116, 97, 109, 112, 34, 58, 34] ++
    KitCounters.printed now ++ [34]

def Entry.text (entry : Entry) : List UInt8 := [44, 34] ++ entry.key ++ [34, 58, 34] ++ entry.value ++ [34]

def start (buffer : Buffer) : Except Stop Buffer := do
  let (length, buf) ← snprintf buffer.buf 0 bufSize (header buffer.now)
  if bufSize ≤ length then .error .assertion
  else .ok { buffer with buf := buf, pos := length, jsonComplete := false }

/-- The counter is added if the buffer is not full. -/
def append (entry : Entry) (buffer : Buffer) : Except Stop Buffer :=
  if buffer.pos < bufSize then do
    let buffer ← buffer.print entry.text
    if 2 ^ 31 ≤ buffer.counter + 1 then .error .undefined
    else .ok { buffer with counter := buffer.counter + 1 }
  else .ok buffer

section

variable (limit : UInt32)

/-- An object is started for the first of as many counters as the limit. -/
def startDue (buffer : Buffer) : Except Stop Buffer :=
  if buffer.counter % limit.toNat = 0 then start buffer else .ok buffer

/-- The object is sent if the limit is reached, or the buffer is full. -/
def completeDue (buffer : Buffer) : Except Stop Buffer :=
  if buffer.counter % limit.toNat = 0 ∨ bufSize ≤ buffer.pos then complete buffer else .ok buffer

/-- `kit_graphitelog_counter_callback` -/
def counterCallback (entry : Entry) (buffer : Buffer) : Except Stop Buffer :=
  if limit = 0 then .error .undefined
  else do
    let buffer ← startDue limit buffer
    let buffer ← append entry buffer
    completeDue limit buffer

/-- The callbacks for counters, and `kit_graphitelog_complete`. -/
def finish : List Entry → Buffer → Except Stop Buffer
  | [], buffer => complete buffer
  | entry :: entries, buffer => do
      let buffer ← counterCallback limit entry buffer
      finish entries buffer

end

end KitGraphitelog
end LibKit
