import Mathlib

namespace LibKit
namespace KitSafeRw

/-!
# The functions of `kit-safe-rw.c`

Both functions are loops around system calls that move fewer bytes than asked for,
fail or are interrupted.  A call of one of them is in a phase between two system
calls, and the result of a system call leads to the next phase.
-/

/-- The values of `errno` that are told apart. -/
inductive Errno where
  | again
  | intr
  | timedOut
  | other (code : Nat)
deriving DecidableEq

/-- What a system call returns: a count, or a failure with `errno`. -/
inductive Result where
  | count (count : Nat)
  | failed (errno : Errno)
deriving DecidableEq

/-! ## Writing -/

inductive WritePhase where
  | write
  | poll
  | returned (result : Nat)
deriving DecidableEq

/-- A call of `kit_safe_write`: the `tmp_count` bytes from `buf` on, and how far `buf` is behind
the beginning. -/
structure Writer where
  rest : List UInt8
  written : Nat
  errno : Errno
  phase : WritePhase
deriving DecidableEq

/-- `kit_safe_write` up to its first system call. -/
def safeWrite (buf : List UInt8) (errno : Errno) : Writer :=
  ⟨buf, 0, errno, if 0 < buf.length then .write else .returned 0⟩

/-- The tests of `errno` after `write` has moved nothing. -/
def Writer.refused (writer : Writer) : Writer :=
  if writer.errno = .again then { writer with phase := .poll }
  else if writer.errno ≠ .intr then { writer with phase := .returned writer.written }
  else { writer with phase := .write }

/-- After `write`; `errno` is only set by a failure, but it is tested after zero, too. -/
def Writer.afterWrite (writer : Writer) : Result → Writer
  | .failed errno => { writer with errno := errno }.refused
  | .count 0 => writer.refused
  | .count (count + 1) =>
      let rest := writer.rest.drop (count + 1)
      let written := writer.written + (count + 1)
      ⟨rest, written, writer.errno, if 0 < rest.length then .write else .returned written⟩

/-- After `poll`, which returns zero after the timeout. -/
def Writer.afterPoll (writer : Writer) : Result → Writer
  | .count 0 => { writer with errno := .timedOut, phase := .returned writer.written }
  | .count _ => { writer with phase := .write }
  | .failed errno => { writer with errno := errno, phase := .write }

/-! ## Reading -/

inductive ReadPhase where
  | read
  | returned (result : Int)
deriving DecidableEq

/-- A call of `kit_safe_read`: the bytes before `buf`, and how many are left to read. -/
structure Reader where
  got : List UInt8
  count : Nat
  phase : ReadPhase
deriving DecidableEq

/-- `kit_safe_read` up to its first system call, which is made in any case. -/
def safeRead (count : Nat) : Reader := ⟨[], count, .read⟩

/-- After `read` with some bytes or none. -/
def Reader.afterRead (reader : Reader) (bytes : List UInt8) : Reader :=
  if bytes = [] then { reader with phase := .returned reader.got.length }
  else
    let got := reader.got ++ bytes
    let count := reader.count - bytes.length
    ⟨got, count, if 0 < count then .read else .returned got.length⟩

/-- After `read` has failed. -/
def Reader.afterFailure (reader : Reader) (errno : Errno) : Reader :=
  if errno = .intr then reader else { reader with phase := .returned (-1) }

/-! ## A pipe -/

/-- One call writes to a pipe and another one reads from it. -/
structure Pipe where
  writer : Writer
  reader : Reader
  queue : List UInt8
  closed : Bool
deriving DecidableEq

/-- The results of one system call.  A pipe takes a part of the bytes that are written and gives
a part of those that it has; it reads as ended if it is empty and was closed. -/
inductive Step : Pipe → Pipe → Prop where
  | write {pipe : Pipe} (count : Nat) : pipe.writer.phase = .write → count ≤ pipe.writer.rest.length →
      Step pipe { pipe with
        writer := pipe.writer.afterWrite (.count count)
        queue := pipe.queue ++ pipe.writer.rest.take count }
  | writeFails {pipe : Pipe} (errno : Errno) : pipe.writer.phase = .write →
      Step pipe { pipe with writer := pipe.writer.afterWrite (.failed errno) }
  | poll {pipe : Pipe} (result : Result) : pipe.writer.phase = .poll →
      Step pipe { pipe with writer := pipe.writer.afterPoll result }
  | close {pipe : Pipe} (result : Nat) : pipe.writer.phase = .returned result → Step pipe { pipe with closed := true }
  | read {pipe : Pipe} (count : Nat) : pipe.reader.phase = .read → 0 < count → count ≤ pipe.reader.count →
      count ≤ pipe.queue.length →
      Step pipe { pipe with
        reader := pipe.reader.afterRead (pipe.queue.take count)
        queue := pipe.queue.drop count }
  | readNone {pipe : Pipe} : pipe.reader.phase = .read → pipe.reader.count = 0 ∨ pipe.queue = [] ∧ pipe.closed = true →
      Step pipe { pipe with reader := pipe.reader.afterRead [] }
  | readFails {pipe : Pipe} (errno : Errno) : pipe.reader.phase = .read →
      Step pipe { pipe with reader := pipe.reader.afterFailure errno }

/-- The states that are reached from an empty pipe. -/
def Reached (buf : List UInt8) (errno : Errno) (count : Nat) (pipe : Pipe) : Prop :=
  Relation.ReflTransGen Step ⟨safeWrite buf errno, safeRead count, [], false⟩ pipe

end KitSafeRw
end LibKit
