import LibKit.KitSafeRw.Model

namespace LibKit
namespace KitSafeRw

/-!
# Every byte moves once

Whatever the system calls return, the bytes that were read and those in the pipe are
together the bytes that were written, which are the first ones of the buffer of the
writer.  A result of the writer counts them, and a result of the reader that is not
an error counts those that were read.
-/

structure WriterOk (buf : List UInt8) (writer : Writer) : Prop where
  rest : writer.rest = buf.drop writer.written
  within : writer.written ≤ buf.length
  more : (∀ result, writer.phase ≠ .returned result) → writer.written < buf.length
  result : ∀ result, writer.phase = .returned result →
    result = writer.written ∧ (result = buf.length ∨ writer.errno ≠ .again ∧ writer.errno ≠ .intr)

variable {buf : List UInt8} {writer : Writer} {reader : Reader} {pipe after : Pipe} {size : Nat}

theorem safeWrite_ok (buf : List UInt8) (errno : Errno) : WriterOk buf (safeWrite buf errno) := by
  refine ⟨rfl, Nat.zero_le _, ?_, ?_⟩
  · intro running
    by_contra none
    exact running 0 (if_neg none)
  · intro result returned
    rw [safeWrite] at returned ⊢
    split at returned
    · cases returned
    · rename_i none
      cases returned
      exact ⟨rfl, Or.inl (Nat.eq_zero_of_not_pos none).symm⟩

theorem WriterOk.keep (ok : WriterOk buf writer) (running : ∀ result, writer.phase ≠ .returned result)
    {errno : Errno} {phase : WritePhase}
    (next : ∀ result, phase = .returned result → result = writer.written ∧ errno ≠ .again ∧ errno ≠ .intr) :
    WriterOk buf { writer with errno := errno, phase := phase } :=
  ⟨ok.rest, ok.within, fun _ => ok.more running, fun result returned =>
    ⟨(next result returned).1, Or.inr (next result returned).2⟩⟩

theorem WriterOk.refused (ok : WriterOk buf writer) (running : ∀ result, writer.phase ≠ .returned result)
    (errno : Errno) :
    WriterOk buf { writer with errno := errno }.refused := by
  rw [Writer.refused]
  split
  · refine ok.keep running ?_
    intro result returned
    cases returned
  · rename_i notAgain
    split
    · rename_i notIntr
      refine ok.keep running ?_
      intro result returned
      cases returned
      exact ⟨rfl, notAgain, notIntr⟩
    · refine ok.keep running ?_
      intro result returned
      cases returned

theorem WriterOk.moved (ok : WriterOk buf writer) {count : Nat} (enough : count + 1 ≤ writer.rest.length) :
    WriterOk buf (writer.afterWrite (.count (count + 1))) := by
  have left : writer.rest.length = buf.length - writer.written := by rw [ok.rest, List.length_drop]
  refine ⟨?_, ?_, ?_, ?_⟩
  · rw [Writer.afterWrite, ok.rest, List.drop_drop]
  · rw [Writer.afterWrite]
    dsimp only
    omega
  · intro running
    by_contra all
    refine running (writer.written + (count + 1)) (if_neg ?_)
    rw [List.length_drop]
    change ¬ writer.written + (count + 1) < buf.length at all
    omega
  · intro result returned
    rw [Writer.afterWrite] at returned ⊢
    dsimp only at returned ⊢
    split at returned
    · cases returned
    · rename_i none
      cases returned
      rw [List.length_drop] at none
      exact ⟨rfl, Or.inl (by omega)⟩

theorem WriterOk.polled (ok : WriterOk buf writer) (polling : writer.phase = .poll) (result : Result) :
    WriterOk buf (writer.afterPoll result) := by
  have running : ∀ result, writer.phase ≠ .returned result := by
    intro result returned
    rw [polling] at returned
    cases returned
  cases result with
  | count count =>
      cases count with
      | zero =>
          refine ok.keep running ?_
          intro result returned
          cases returned
          exact ⟨rfl, by decide, by decide⟩
      | succ count =>
          refine ok.keep running ?_
          intro result returned
          cases returned
  | failed errno =>
      refine ok.keep running ?_
      intro result returned
      cases returned

/-! ## Both calls -/

/-- What was read and what is in the pipe is what was written. -/
structure Flow (buf : List UInt8) (size : Nat) (pipe : Pipe) : Prop where
  writer : WriterOk buf pipe.writer
  bytes : pipe.reader.got ++ pipe.queue = buf.take pipe.writer.written
  room : pipe.reader.got.length + pipe.reader.count = size
  closed : pipe.closed = true → ∃ result, pipe.writer.phase = .returned result
  result : ∀ result, pipe.reader.phase = .returned result → result ≠ -1 →
    result = pipe.reader.got.length ∧ (pipe.reader.got.length = size ∨ pipe.queue = [] ∧ pipe.closed = true)

theorem initial_flow (buf : List UInt8) (errno : Errno) (size : Nat) :
    Flow buf size ⟨safeWrite buf errno, safeRead size, [], false⟩ := by
  refine ⟨safeWrite_ok buf errno, rfl, Nat.zero_add size, ?_, ?_⟩
  · intro absent
    cases absent
  · intro result absent
    cases absent

/-- The writer goes on, and puts some bytes into the pipe. -/
theorem Flow.wrote (flow : Flow buf size pipe) (running : ∀ result, pipe.writer.phase ≠ .returned result)
    {after : Writer}
    (ok : WriterOk buf after) {count : Nat} (moved : after.written = pipe.writer.written + count) :
    Flow buf size { pipe with writer := after, queue := pipe.queue ++ pipe.writer.rest.take count } := by
  have isOpen : pipe.closed ≠ true := by
    intro closed
    rcases flow.closed closed with ⟨result, returned⟩
    exact running result returned
  refine ⟨ok, ?_, flow.room, fun closed => absurd closed isOpen, ?_⟩
  · dsimp only
    rw [← List.append_assoc, flow.bytes, flow.writer.rest, moved, List.take_add]
  · intro result returned fine
    rcases flow.result result returned fine with ⟨same, full | ⟨-, closed⟩⟩
    · exact ⟨same, Or.inl full⟩
    · exact absurd closed isOpen

theorem Flow.waited (flow : Flow buf size pipe) (running : ∀ result, pipe.writer.phase ≠ .returned result)
    {after : Writer}
    (ok : WriterOk buf after) (same : after.written = pipe.writer.written) :
    Flow buf size { pipe with writer := after } := by
  have moved := @Flow.wrote buf pipe size flow running after ok 0 same
  rwa [List.take_zero, List.append_nil] at moved

theorem refused_written (writer : Writer) : writer.refused.written = writer.written := by
  rw [Writer.refused]
  split
  · rfl
  · split
    · rfl
    · rfl

theorem afterPoll_written (writer : Writer) (result : Result) : (writer.afterPoll result).written = writer.written := by
  cases result with
  | count count =>
      cases count with
      | zero => rfl
      | succ count => rfl
  | failed errno => rfl

theorem Flow.took (flow : Flow buf size pipe) {count : Nat} (some : 0 < count) (asked : count ≤ pipe.reader.count)
    (there : count ≤ pipe.queue.length) :
    Flow buf size { pipe with reader := pipe.reader.afterRead (pipe.queue.take count), queue := pipe.queue.drop count } := by
  have length : (pipe.queue.take count).length = count := List.length_take_of_le there
  have nonempty : pipe.queue.take count ≠ [] := by
    intro none
    rw [none] at length
    exact Nat.ne_of_lt some length
  have room := flow.room
  rw [Reader.afterRead, if_neg nonempty, length]
  refine ⟨flow.writer, ?_, ?_, flow.closed, ?_⟩
  · dsimp only
    rw [List.append_assoc, List.take_append_drop]
    exact flow.bytes
  · dsimp only
    rw [List.length_append, length]
    omega
  · intro result returned fine
    dsimp only at returned ⊢
    split at returned
    · cases returned
    · rename_i full
      cases returned
      refine ⟨rfl, Or.inl ?_⟩
      rw [List.length_append, length]
      omega

theorem Flow.next (flow : Flow buf size pipe) (stepped : Step pipe after) : Flow buf size after := by
  have running : ∀ {phase : WritePhase}, pipe.writer.phase = phase → (∀ result, phase ≠ .returned result) →
      ∀ result, pipe.writer.phase ≠ .returned result := by
    intro phase same other
    rw [same]
    exact other
  cases stepped with
  | write count writing enough =>
      have goesOn := running writing (by intro result absent; cases absent)
      cases count with
      | zero => exact flow.wrote goesOn (flow.writer.refused goesOn _) (refused_written _)
      | succ count => exact flow.wrote goesOn (flow.writer.moved enough) rfl
  | writeFails errno writing =>
      have goesOn := running writing (by intro result absent; cases absent)
      exact flow.waited goesOn (flow.writer.refused goesOn errno) (refused_written _)
  | poll result polling =>
      have goesOn := running polling (by intro result absent; cases absent)
      exact flow.waited goesOn (flow.writer.polled polling result) (afterPoll_written _ _)
  | close result returned =>
      refine ⟨flow.writer, flow.bytes, flow.room, fun _ => ⟨result, returned⟩, ?_⟩
      intro result returned fine
      rcases flow.result result returned fine with ⟨same, full | ⟨none, -⟩⟩
      · exact ⟨same, Or.inl full⟩
      · exact ⟨same, Or.inr ⟨none, rfl⟩⟩
  | read count reading some asked there => exact flow.took some asked there
  | readNone reading none =>
      rw [Reader.afterRead, if_pos rfl]
      refine ⟨flow.writer, flow.bytes, flow.room, flow.closed, ?_⟩
      intro result returned fine
      cases returned
      refine ⟨rfl, ?_⟩
      rcases none with full | ended
      · have room := flow.room
        rw [full] at room
        exact Or.inl room
      · exact Or.inr ended
  | readFails errno reading =>
      rw [Reader.afterFailure]
      split
      · exact flow
      · refine ⟨flow.writer, flow.bytes, flow.room, flow.closed, ?_⟩
        intro result returned fine
        cases returned
        exact absurd rfl fine

/-- The results of both calls are about the bytes that moved. -/
structure RwOk (buf : List UInt8) (size : Nat) (pipe : Pipe) : Prop where
  bytes : pipe.reader.got ++ pipe.queue = buf.take pipe.writer.written
  written : ∀ result, pipe.writer.phase = .returned result → pipe.reader.got ++ pipe.queue = buf.take result ∧
    result ≤ buf.length ∧ (result = buf.length ∨ pipe.writer.errno ≠ .again ∧ pipe.writer.errno ≠ .intr)
  read : ∀ result, pipe.reader.phase = .returned result → result ≠ -1 → result = pipe.reader.got.length ∧
    (pipe.reader.got = buf.take size ∨
      pipe.closed = true ∧ ∃ count, pipe.writer.phase = .returned count ∧ pipe.reader.got = buf.take count)

/-- In any order of system calls with any results, no byte is lost, doubled or moved to another place. -/
theorem safe_rw_exact (buf : List UInt8) (errno : Errno) (size : Nat) (pipe : Pipe)
    (reached : Reached buf errno size pipe) :
    RwOk buf size pipe := by
  have flow : Flow buf size pipe := by
    induction reached with
    | refl => exact initial_flow buf errno size
    | tail _ stepped ih => exact ih.next stepped
  refine ⟨flow.bytes, ?_, ?_⟩
  · intro result returned
    rcases flow.writer.result result returned with ⟨rfl, why⟩
    exact ⟨flow.bytes, flow.writer.within, why⟩
  · intro result returned fine
    rcases flow.result result returned fine with ⟨same, full | ⟨none, closed⟩⟩
    · refine ⟨same, Or.inl ?_⟩
      have taken := congrArg (List.take size) flow.bytes
      rw [List.take_left' full, List.take_take, Nat.min_eq_left ?_] at taken
      · exact taken
      · have length := congrArg List.length flow.bytes
        rw [List.length_append, List.length_take] at length
        omega
    · rcases flow.closed closed with ⟨count, ended⟩
      refine ⟨same, Or.inr ⟨closed, count, ended, ?_⟩⟩
      have bytes := flow.bytes
      rw [none, List.append_nil] at bytes
      rw [bytes, (flow.writer.result count ended).1]

theorem parts_reached :
    Reached [1, 2, 3] .intr 2 ⟨⟨[], 3, .again, .returned 3⟩, ⟨[1, 2], 0, .returned 2⟩, [3], false⟩ := by
  have first : Reached [1, 2, 3] .intr 2 _ := Relation.ReflTransGen.refl.tail (Step.write 2 rfl (by decide))
  have second := first.tail (Step.writeFails .again rfl)
  have third := second.tail (Step.poll (.count 1) rfl)
  have fourth := third.tail (Step.write 1 rfl (by decide))
  have fifth := fourth.tail (Step.readFails .intr rfl)
  exact fifth.tail (Step.read 2 rfl (by decide) (by decide) (by decide))

theorem safe_rw_exact_parts : RwOk [1, 2, 3] 2 ⟨⟨[], 3, .again, .returned 3⟩, ⟨[1, 2], 0, .returned 2⟩, [3], false⟩ :=
  safe_rw_exact [1, 2, 3] .intr 2 _ parts_reached

end KitSafeRw
end LibKit
