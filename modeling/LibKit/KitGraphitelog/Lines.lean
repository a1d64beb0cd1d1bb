import LibKit.KitGraphitelog.Model

namespace LibKit
namespace KitGraphitelog

/-!
# Lines of the graphite log

The log is written in groups of counters, one line each.  A group that does not
fit in the buffer takes those behind it with it, unless it overflows by exactly
one byte, and with the last counter of the group.
-/

/-! ## Lines -/

/-- The text of an object with some counters, but for its end. -/
def body (now : UInt64) (entries : List Entry) : List UInt8 := header now ++ entries.flatMap Entry.text

def line (now : UInt64) (entries : List Entry) : List UInt8 := body now entries ++ closing

/-- A character that stands for itself in a JSON string. -/
def PlainChar (char : UInt8) : Prop := 32 ≤ char ∧ char ≠ 34 ∧ char ≠ 92

instance (char : UInt8) : Decidable (PlainChar char) := inferInstanceAs (Decidable (32 ≤ char ∧ char ≠ 34 ∧ char ≠ 92))

/-- The name and the value of a counter need no escapes. -/
def Entry.Plain (entry : Entry) : Prop := (∀ char ∈ entry.key, PlainChar char) ∧ ∀ char ∈ entry.value, PlainChar char

/-- The object fits in the buffer, with a NUL behind it. -/
def Fits (now : UInt64) (entries : List Entry) : Prop := (line now entries).length < bufSize

/-- Bytes that were written for some counters: their object, or, if the last of
them did not fit, others, which are no more than those of the buffer. -/
def IsObject (now : UInt64) (entries : List Entry) (bytes : List UInt8) : Prop :=
  (bytes = line now entries ∧ ∀ entry ∈ entries, entry.Plain) ∨
    (¬ Fits now entries ∧ Fits now entries.dropLast ∧ bytes.length ≤ bufSize)

/-- The log has one object for each of some groups, of no more than the limit, and
every counter is in one of them. -/
def Logged (limit : UInt32) (now : UInt64) (entries : List Entry) (log : List (List UInt8)) : Prop :=
  ∃ groups : List (List Entry), groups.flatten = entries ∧ (∀ group ∈ groups, group ≠ [] ∧ group.length ≤ limit.toNat) ∧
    List.Forall₂ (IsObject now) groups log

/-- As many counters as the limit, one group after the other. -/
def groups (limit : UInt32) (entries : List Entry) : List (List Entry) :=
  if limit = 0 ∨ entries = [] then [] else entries.take limit.toNat :: groups limit (entries.drop limit.toNat)
termination_by entries.length
decreasing_by
  rename_i some
  rw [not_or] at some
  have positive : 0 < limit.toNat := Nat.pos_of_ne_zero fun zero => some.1 (UInt32.toNat_inj.mp zero)
  have more := List.length_pos_iff.mpr some.2
  rw [List.length_drop]
  omega

/-- The object of a group fits and needs no escapes, or it is too large by the
byte of the NUL, or the text in front of its end is. -/
def GroupFits (now : UInt64) (group : List Entry) : Prop :=
  ((line now group).length < bufSize ∧ ∀ entry ∈ group, entry.Plain) ∨ (line now group).length = bufSize ∨
    (body now group).length = bufSize

/-! ## Lengths -/

section

variable {now : UInt64} {entries : List Entry} {entry : Entry} {limit : UInt32}

theorem header_length (now : UInt64) : (header now).length ≤ 39 := by
  have digits : (KitCounters.printed now).length ≤ 20 := by
    rw [KitCounters.printed, List.length_map, Nat.length_toDigits_le_iff (by decide) (by decide)]
    exact (UInt64.toNat_lt now).trans (by decide)
  rw [header, List.length_append, List.length_append]
  simp only [List.length_cons, List.length_nil]
  omega

theorem body_nil (now : UInt64) : body now [] = header now := by
  rw [body, List.flatMap_nil, List.append_nil]

theorem body_append (now : UInt64) (first second : List Entry) :
    body now (first ++ second) = body now first ++ second.flatMap Entry.text := by
  rw [body, body, List.flatMap_append, List.append_assoc]

theorem text_length (entry : Entry) : 6 ≤ entry.text.length := by
  rw [Entry.text, List.length_append, List.length_append, List.length_append, List.length_append]
  simp only [List.length_cons, List.length_nil]
  omega

theorem line_length (now : UInt64) (entries : List Entry) :
    (line now entries).length = (body now entries).length + 2 := by
  rw [line, List.length_append]
  rfl

/-- Every counter takes some bytes. -/
theorem body_length_append (now : UInt64) (first second : List Entry) :
    (body now first).length + 6 * second.length ≤ (body now (first ++ second)).length := by
  rw [body_append, List.length_append]
  have each : 6 * second.length ≤ (second.flatMap Entry.text).length := by
    induction second with
    | nil => exact Nat.zero_le _
    | cons entry second ih =>
        rw [List.flatMap_cons, List.length_append, List.length_cons]
        have one := text_length entry
        omega
  omega

/-! ## The buffer -/

/-- A buffer with an object that is not complete. -/
structure Open (now : UInt64) (entries : List Entry) (count : Nat) (log : List (List UInt8)) (buffer : Buffer) :
    Prop where
  pos : buffer.pos = (body now entries).length
  fits : (body now entries).length < bufSize
  holds : Bytes.Holds buffer.buf 0 (body now entries)
  counter : buffer.counter = count
  few : count < 2 ^ 31
  time : buffer.now = now
  incomplete : buffer.jsonComplete = false
  log : buffer.log = log

structure Ready (now : UInt64) (count : Nat) (log : List (List UInt8)) (buffer : Buffer) : Prop where
  counter : buffer.counter = count
  few : count < 2 ^ 31
  time : buffer.now = now
  completed : buffer.jsonComplete = true
  log : buffer.log = log

variable {count : Nat} {log : List (List UInt8)} {buffer : Buffer}

/-- A text is printed behind what the buffer holds. -/
theorem print_eq {text : List UInt8} {pos : Nat} (isPos : buffer.pos = pos) (inside : pos < bufSize) :
    buffer.print text = if pos + text.length < 2 ^ 31 then
      .ok { buffer with
        buf := Bytes.write buffer.buf pos (text.take (bufSize - pos - 1) ++ [0])
        pos := (pos + text.length : Nat) }
    else .error .undefined := by
  unfold Buffer.print snprintf
  rw [isPos, if_neg (by omega), Int.toNat_natCast]
  by_cases small : pos + text.length < 2 ^ 31
  · rw [if_pos small, if_neg (by omega), if_neg (by omega), ok_bind]
    dsimp only
    rw [if_neg (by omega)]
    rfl
  · rw [if_neg small]
    by_cases long : 2 ^ 31 ≤ text.length
    · rw [if_pos long, error_bind]
    · rw [if_neg long, ok_bind]
      dsimp only
      rw [if_pos (by omega)]

theorem print_holds {buf : Nat → UInt8} {front text : List UInt8} (holds : Bytes.Holds buf 0 front)
    (fits : front.length + text.length < bufSize) :
    Bytes.Holds (Bytes.write buf front.length (text.take (bufSize - front.length - 1) ++ [0])) 0 (front ++ text) := by
  have whole : text.take (bufSize - front.length - 1) = text := List.take_of_length_le (by omega)
  rw [whole, Bytes.holds_append]
  refine ⟨Bytes.holds_write_of_disjoint holds (.inl (by omega)), ?_⟩
  rw [Nat.zero_add]
  exact (Bytes.holds_append.mp (Bytes.holds_write buf front.length (text ++ [0]))).1

theorem read_length (buf : Nat → UInt8) (place length : Nat) : (Bytes.read buf place length).length = length := by
  rw [Bytes.read, List.length_map, List.length_range]

structure Written (now : UInt64) (entries : List Entry) (bytes : List UInt8) : Prop where
  fits : (line now entries).length < bufSize → bytes = line now entries
  full : ¬ (line now entries).length < bufSize → bytes.length = bufSize

theorem Open.complete (isOpen : Open now entries count log buffer) :
    ((line now entries).length ≤ bufSize → ∃ bytes next, KitGraphitelog.complete buffer = .ok next ∧
      Ready now count (log ++ [bytes]) next ∧ Written now entries bytes) ∧
    (¬ (line now entries).length ≤ bufSize → ∃ stop, KitGraphitelog.complete buffer = .error stop) := by
  have length := line_length now entries
  have fits := isOpen.fits
  have size : bufSize = 32767 := rfl
  have two : closing.length = 2 := rfl
  unfold KitGraphitelog.complete
  rw [if_neg (by rw [isOpen.incomplete]; decide), isOpen.pos, if_pos (by omega), print_eq isOpen.pos fits,
    if_pos (by rw [two]; omega), ok_bind]
  unfold Buffer.safeWrite
  dsimp only
  rw [two, isOpen.log]
  constructor
  · intro room
    rw [if_neg (by omega)]
    refine ⟨_, _, rfl, ⟨isOpen.counter, isOpen.few, isOpen.time, rfl, rfl⟩, fun less => ?_, fun full => ?_⟩
    · have holds := @print_holds buffer.buf (body now entries) closing isOpen.holds (by rw [two]; omega)
      have read := Bytes.read_of_holds holds
      rw [List.length_append, two] at read
      rw [Int.toNat_natCast]
      exact read
    · rw [read_length, Int.toNat_natCast]
      omega
  · intro large
    rw [if_pos (by omega)]
    exact ⟨_, rfl⟩

theorem Ready.start (ready : Ready now count log buffer) :
    ∃ next, KitGraphitelog.start buffer = .ok next ∧ Open now [] count log next := by
  have short := header_length now
  have size : bufSize = 32767 := rfl
  unfold KitGraphitelog.start snprintf
  rw [ready.time, if_neg (by omega), if_neg (by omega), ok_bind]
  dsimp only
  rw [if_neg (by omega)]
  have holds := @print_holds buffer.buf [] (header now) (Bytes.holds_nil buffer.buf 0) (by rw [List.length_nil]; omega)
  rw [List.nil_append, List.length_nil, Nat.sub_zero] at holds
  refine ⟨_, rfl, ?_, ?_, ?_, ready.counter, ready.few, rfl, rfl, ready.log⟩
  · rw [body_nil]
  · rw [body_nil]
    omega
  · rw [body_nil]
    exact holds

/-- A counter that is added, if neither a position nor the number of counters is
one that an `int` has not. -/
theorem Open.append (isOpen : Open now entries count log buffer) (entry : Entry) :
    ((body now (entries ++ [entry])).length < 2 ^ 31 ∧ count + 1 < 2 ^ 31 ∧ ∃ next,
      KitGraphitelog.append entry buffer = .ok next ∧ next.pos = (body now (entries ++ [entry])).length ∧
      next.counter = count + 1 ∧ next.now = now ∧ next.jsonComplete = false ∧ next.log = log ∧
      ((body now (entries ++ [entry])).length < bufSize → Open now (entries ++ [entry]) (count + 1) log next)) ∨
    ((2 ^ 31 ≤ (body now (entries ++ [entry])).length ∨ 2 ^ 31 ≤ count + 1) ∧
      ∃ stop, KitGraphitelog.append entry buffer = .error stop) := by
  have isBody : body now (entries ++ [entry]) = body now entries ++ entry.text := by
    rw [body_append, List.flatMap_cons, List.flatMap_nil, List.append_nil]
  have length : (body now (entries ++ [entry])).length = (body now entries).length + entry.text.length := by
    rw [isBody, List.length_append]
  have fits := isOpen.fits
  unfold KitGraphitelog.append
  rw [isOpen.pos, if_pos (by omega), print_eq isOpen.pos fits]
  by_cases small : (body now entries).length + entry.text.length < 2 ^ 31
  · rw [if_pos small, ok_bind]
    dsimp only
    rw [isOpen.counter]
    by_cases few : 2 ^ 31 ≤ count + 1
    · rw [if_pos few]
      exact .inr ⟨.inr few, _, rfl⟩
    · rw [if_neg few]
      refine .inl ⟨by omega, by omega, _, rfl, ?_, rfl, isOpen.time, isOpen.incomplete, isOpen.log, fun room => ?_⟩
      · rw [length]
      · refine ⟨by rw [length], room, ?_, rfl, by omega, isOpen.time, isOpen.incomplete, isOpen.log⟩
        rw [isBody]
        exact print_holds isOpen.holds (by omega)
  · rw [if_neg small, error_bind]
    exact .inr ⟨.inl (by omega), _, rfl⟩

/-! ## Groups -/

theorem finish_full (notZero : limit ≠ 0) (completed : buffer.jsonComplete = true) (full : bufSize ≤ buffer.pos)
    (between : buffer.counter % limit.toNat ≠ 0) (entries : List Entry) : finish limit entries buffer = .ok buffer := by
  induction entries with
  | nil =>
      unfold finish KitGraphitelog.complete
      rw [if_pos completed]
  | cons entry entries ih =>
      unfold finish counterCallback startDue KitGraphitelog.append completeDue KitGraphitelog.complete
      rw [if_neg notZero, if_neg between, ok_bind, if_neg (by omega), ok_bind, if_pos (.inr full),
        if_pos completed, ok_bind]
      exact ih

/-- The rest of a pass, once an object was started for the next counter. -/
def proceed (limit : UInt32) : List Entry → Buffer → Except Stop Buffer
  | [], buffer => complete buffer
  | entry :: entries, buffer => KitGraphitelog.append entry buffer >>= completeDue limit >>= finish limit entries

theorem finish_eq (notZero : limit ≠ 0) (between : buffer.counter % limit.toNat ≠ 0) (entries : List Entry) :
    finish limit entries buffer = proceed limit entries buffer := by
  cases entries with
  | nil => rfl
  | cons entry entries =>
      unfold finish proceed counterCallback startDue
      rw [if_neg notZero, if_neg between, ok_bind]

theorem Ready.finish_eq (ready : Ready now count log buffer) (notZero : limit ≠ 0) (first : count % limit.toNat = 0)
    {entries : List Entry} (more : entries ≠ []) :
    ∃ next, Open now [] count log next ∧ finish limit entries buffer = proceed limit entries next := by
  cases entries with
  | nil => exact absurd rfl more
  | cons entry entries =>
      rcases ready.start with ⟨next, started, isOpen⟩
      refine ⟨next, isOpen, ?_⟩
      unfold finish proceed counterCallback startDue
      rw [if_neg notZero, ready.counter, if_pos first, started, ok_bind]

def Roomy (now : UInt64) (group : List Entry) : Prop :=
  (line now group).length ≤ bufSize ∨ (body now group).length = bufSize

/-- The pass stops, or no counter is written after one with which the buffer is
full. -/
def Lost (now : UInt64) (log : List (List UInt8)) (group entries : List Entry) (outcome : Except Stop Buffer) : Prop :=
  (∃ stop, outcome = .error stop) ∨ ∃ final bytes first rest, outcome = .ok final ∧ entries = first ++ rest ∧
    rest ≠ [] ∧
    (body now (group ++ first)).length = bufSize ∧ final.log = log ++ [bytes] ∧ bytes.length = bufSize

/-- What becomes of a group of counters, of which some were added. -/
theorem Open.group {group done rest : List Entry} {base : Nat} (notZero : limit ≠ 0)
    (isOpen : Open now done count log buffer) (isCount : count = base + done.length) (aligned : base % limit.toNat = 0)
    (before : done.length < limit.toNat) (some : done ++ group ≠ [])
    (whole : done.length + group.length = limit.toNat ∨ (done.length + group.length < limit.toNat ∧ rest = [])) :
    (count + group.length < 2 ^ 31 ∧ Roomy now (done ++ group) ∧ ∃ bytes next,
      proceed limit (group ++ rest) buffer = finish limit rest next ∧
        Ready now (count + group.length) (log ++ [bytes]) next ∧
      Written now (done ++ group) bytes) ∨
    (¬ (count + group.length < 2 ^ 31 ∧ Roomy now (done ++ group)) ∧
      Lost now log done (group ++ rest) (proceed limit (group ++ rest) buffer)) := by
  have size : bufSize = 32767 := rfl
  have modulus : ∀ extra, extra < limit.toNat → (base + extra) % limit.toNat = extra := by
    intro extra less
    rw [Nat.add_mod, aligned, Nat.zero_add, Nat.mod_mod, Nat.mod_eq_of_lt less]
  induction group generalizing done count buffer with
  | nil =>
      have noRest : rest = [] := by
        rcases whole with full | ⟨-, isNil⟩
        · rw [List.length_nil] at full
          omega
        · exact isNil
      rw [noRest, List.append_nil, List.append_nil]
      have fits := isOpen.fits
      by_cases room : (line now done).length ≤ bufSize
      · rcases isOpen.complete.1 room with ⟨bytes, next, completed, ready, written⟩
        refine .inl ⟨isOpen.few, .inl room, bytes, next, ?_, ready, written⟩
        rw [proceed, completed, finish, KitGraphitelog.complete, if_pos ready.completed]
      · refine .inr ⟨fun both => ?_, .inl (isOpen.complete.2 room)⟩
        rcases both.2 with isRoom | isFull
        · exact room isRoom
        · omega
  | cons entry group ih =>
      have lengths := body_length_append now (done ++ [entry]) group
      have lineLength := line_length now (done ++ entry :: group)
      have same : done ++ entry :: group = done ++ [entry] ++ group := by
        rw [List.append_assoc]
        rfl
      rw [← same] at lengths
      rw [List.length_cons] at whole ⊢
      rw [List.cons_append, proceed]
      rcases isOpen.append entry with ⟨small, few, next, added, pos, counter, time, incomplete, isLog, opens⟩ |
        ⟨many, stop, failed⟩
      · rw [added, ok_bind]
        have length : (done ++ [entry]).length = done.length + 1 := by
          rw [List.length_append, List.length_singleton]
        by_cases room : (body now (done ++ [entry])).length < bufSize
        · have isNext := opens room
          by_cases last : done.length + 1 = limit.toNat
          · have due : next.counter % limit.toNat = 0 := by
              rw [counter, isCount, Nat.add_assoc, last, Nat.add_mod_right, aligned]
            have isGroup : group = [] := List.length_eq_zero_iff.mp (by omega)
            rw [isGroup, List.nil_append, completeDue, if_pos (.inl due)]
            by_cases enough : (line now (done ++ [entry])).length ≤ bufSize
            · rcases isNext.complete.1 enough with ⟨bytes, after, completed, ready, written⟩
              rw [completed, ok_bind]
              exact .inl ⟨few, .inl enough, bytes, after, rfl, ready, written⟩
            · rcases isNext.complete.2 enough with ⟨stop, failed⟩
              rw [failed, error_bind]
              refine .inr ⟨fun both => ?_, .inl ⟨_, rfl⟩⟩
              rcases both.2 with isRoom | isFull
              · exact enough isRoom
              · omega
          · have within : done.length + 1 < limit.toNat := by omega
            have between : next.counter % limit.toNat ≠ 0 := by
              rw [counter, isCount, Nat.add_assoc, modulus _ within]
              omega
            have notFull : ¬ (bufSize : Int) ≤ next.pos := by
              rw [pos]
              omega
            rw [completeDue, if_neg (not_or.mpr ⟨between, notFull⟩), ok_bind, KitGraphitelog.finish_eq notZero between]
            have further := ih isNext (by omega) (by omega) (by rw [← same]; exact some)
              (whole.imp (fun full => by omega) fun ⟨less, noRest⟩ => ⟨by omega, noRest⟩)
            rw [← same, Nat.add_assoc count, Nat.add_comm 1] at further
            refine further.imp id fun ⟨never, lost⟩ => ⟨never, lost.imp id ?_⟩
            rintro ⟨final, bytes, first, behind, done', split, more, isFull, isFinal, isBytes⟩
            refine ⟨final, bytes, entry :: first, behind, done', ?_, more, ?_, isFinal, isBytes⟩
            · rw [split]
              rfl
            · rw [List.append_assoc] at isFull
              exact isFull
        · have full : (bufSize : Int) ≤ next.pos := by
            rw [pos]
            omega
          rw [completeDue, if_pos (.inr full), KitGraphitelog.complete, if_neg (by rw [incomplete]; decide),
            if_neg (by omega),
            Buffer.safeWrite]
          dsimp only
          rw [pos]
          by_cases filled : (body now (done ++ [entry])).length = bufSize
          · rw [if_neg (by omega), ok_bind]
            have filledLine := line_length now (done ++ [entry])
            cases group with
            | nil =>
                refine .inl ⟨few, .inr filled, _, _, rfl, ⟨counter, few, time, rfl, congrArg (· ++ [_]) isLog⟩,
                  ?_, fun _ => ?_⟩
                · intro less
                  omega
                · rw [read_length, Int.toNat_natCast, filled]
            | cons other group =>
                rw [List.length_cons] at lengths whole ⊢
                refine .inr ⟨fun both => ?_, .inr ⟨_, _, [entry], other :: group ++ rest,
                  finish_full notZero rfl ?_ ?_ _, rfl, ?_,
                  filled, congrArg (· ++ [_]) isLog, ?_⟩⟩
                · rcases both.2 with isRoom | isFull
                  · omega
                  · omega
                · exact (pos ▸ full : (bufSize : Int) ≤ _)
                · dsimp only
                  rw [counter, isCount, Nat.add_assoc, modulus _ (by omega)]
                  omega
                · exact List.cons_ne_nil _ _
                · rw [read_length, Int.toNat_natCast, filled]
          · rw [if_pos (by omega), error_bind]
            refine .inr ⟨fun both => ?_, .inl ⟨_, rfl⟩⟩
            rcases both.2 with isRoom | isFull
            · omega
            · omega
      · rw [failed, error_bind, error_bind]
        refine .inr ⟨fun both => ?_, .inl ⟨_, rfl⟩⟩
        rcases both.2 with isRoom | isFull
        · omega
        · omega

/-! ## Passes -/

theorem complete_log {after : Buffer} (done : complete buffer = .ok after) :
    ∃ more, after.log = buffer.log ++ more := by
  have written : ∀ {before last : Buffer}, before.safeWrite = .ok last → before.log = buffer.log → ∃ more,
    last.log = buffer.log ++ more := by
    intro before last isLast same
    unfold Buffer.safeWrite at isLast
    split at isLast
    · cases isLast
    · cases isLast
      exact ⟨_, congrArg (· ++ _) same⟩
  unfold complete at done
  split at done
  · cases done
    exact ⟨[], (List.append_nil _).symm⟩
  · split at done
    · rcases bind_ok done with ⟨printed, isPrinted, done⟩
      refine written done ?_
      unfold Buffer.print at isPrinted
      split at isPrinted
      · cases isPrinted
      · rcases bind_ok isPrinted with ⟨⟨length, buf⟩, -, isPrinted⟩
        dsimp only at isPrinted
        split at isPrinted
        · cases isPrinted
        · cases isPrinted
          rfl
    · exact written done rfl

theorem append_log {after : Buffer} (done : KitGraphitelog.append entry buffer = .ok after) :
    after.log = buffer.log := by
  unfold KitGraphitelog.append at done
  split at done
  · rcases bind_ok done with ⟨printed, isPrinted, done⟩
    split at done
    · cases done
    · cases done
      unfold Buffer.print at isPrinted
      split at isPrinted
      · cases isPrinted
      · rcases bind_ok isPrinted with ⟨⟨length, buf⟩, -, isPrinted⟩
        dsimp only at isPrinted
        split at isPrinted
        · cases isPrinted
        · cases isPrinted
          rfl
  · cases done
    rfl

theorem startDue_log {after : Buffer} (done : startDue limit buffer = .ok after) : after.log = buffer.log := by
  unfold startDue start at done
  split at done
  · rcases bind_ok done with ⟨⟨length, buf⟩, -, done⟩
    dsimp only at done
    split at done
    · cases done
    · cases done
      rfl
  · cases done
    rfl

theorem finish_log {after : Buffer} (done : finish limit entries buffer = .ok after) :
    ∃ more, after.log = buffer.log ++ more := by
  induction entries generalizing buffer with
  | nil => exact complete_log done
  | cons entry entries ih =>
      unfold finish counterCallback at done
      rcases bind_ok done with ⟨next, called, done⟩
      split at called
      · cases called
      · rcases bind_ok called with ⟨started, isStarted, called⟩
        rcases bind_ok called with ⟨added, isAdded, called⟩
        rcases ih done with ⟨more, isMore⟩
        have same : added.log = buffer.log := (append_log isAdded).trans (startDue_log isStarted)
        unfold completeDue at called
        split at called
        · rcases complete_log called with ⟨first, isFirst⟩
          exact ⟨first ++ more, by rw [isMore, isFirst, same, List.append_assoc]⟩
        · cases called
          exact ⟨more, by rw [isMore, same]⟩

theorem GroupFits.roomy {group : List Entry} (fits : GroupFits now group) : Roomy now group := by
  rcases fits with ⟨less, -⟩ | isSize | isSize
  · exact .inl less.le
  · exact .inl isSize.le
  · exact .inr isSize

theorem GroupFits.isObject {group : List Entry} {bytes : List UInt8} (fits : GroupFits now group) (some : group ≠ [])
    (written : Written now group bytes) : IsObject now group bytes := by
  have length := line_length now group
  by_cases less : (line now group).length < bufSize
  · refine .inl ⟨written.fits less, ?_⟩
    rcases fits with ⟨-, plain⟩ | isSize | isSize
    · exact plain
    · omega
    · omega
  · have isFull := written.full less
    refine .inr ⟨less, ?_, isFull.le⟩
    have shorter := body_length_append now group.dropLast [group.getLast some]
    rw [List.dropLast_append_getLast, List.length_singleton] at shorter
    have before := line_length now group.dropLast
    rw [Fits]
    rcases fits with ⟨wrong, -⟩ | isSize | isSize
    · exact absurd wrong less
    · omega
    · omega

/-- Bytes that are an object of some counters of a group that is not too large are
one of them all. -/
theorem IsObject.whole {first second : List Entry} {bytes : List UInt8} (isObject : IsObject now first bytes)
    (roomy : Roomy now (first ++ second)) (written : Written now (first ++ second) bytes) : second = [] := by
  by_contra some
  have more := body_length_append now first second
  have positive := List.length_pos_iff.mpr some
  have firstLine := line_length now first
  have wholeLine := line_length now (first ++ second)
  have size : bufSize = 32767 := rfl
  have few : (body now (first ++ second)).length ≤ bufSize := by
    rcases roomy with isLess | isSame
    · omega
    · exact isSame.le
  rcases isObject with ⟨isLine, -⟩ | ⟨large, -⟩
  · by_cases less : (line now (first ++ second)).length < bufSize
    · have same := congrArg List.length ((written.fits less).symm.trans isLine)
      omega
    · have isFull := written.full less
      rw [isLine] at isFull
      omega
  · apply large
    rw [Fits]
    omega

theorem IsObject.groupFits {group : List Entry} {bytes : List UInt8} (isObject : IsObject now group bytes)
    (roomy : Roomy now group) : GroupFits now group := by
  by_cases less : (line now group).length < bufSize
  · rcases isObject with ⟨-, plain⟩ | ⟨large, -⟩
    · exact .inl ⟨less, plain⟩
    · exact absurd less large
  · rcases roomy with room | isSame
    · exact .inr (.inl (Nat.le_antisymm room (Nat.le_of_not_lt less)))
    · exact .inr (.inr isSame)

theorem lost_not_logged {first rest : List Entry} {bytes : List UInt8} (some : rest ≠ [])
    (isFull : (body now first).length = bufSize) (length : bytes.length = bufSize) :
    ¬ Logged limit now (first ++ rest) [bytes] := by
  rintro ⟨parts, isFlat, -, objects⟩
  have lineLength := line_length now (first ++ rest)
  have more := body_length_append now first rest
  rcases List.forall₂_cons_right_iff.mp objects with ⟨part, others, isObject, none, isParts⟩
  rw [List.forall₂_nil_right_iff.mp none] at isParts
  rw [isParts, List.flatten_cons, List.flatten_nil, List.append_nil] at isFlat
  rw [isFlat] at isObject
  rcases isObject with ⟨isLine, -⟩ | ⟨-, fits, -⟩
  · rw [isLine] at length
    omega
  · rw [Fits, List.dropLast_append_of_ne_nil some] at fits
    have before := line_length now (first ++ rest.dropLast)
    have enough := body_length_append now first rest.dropLast
    omega

theorem groups_nil (limit : UInt32) : groups limit [] = [] := by
  rw [groups, if_pos (.inr rfl)]

theorem groups_cons (notZero : limit ≠ 0) (some : entries ≠ []) :
    groups limit entries = entries.take limit.toNat :: groups limit (entries.drop limit.toNat) := by
  rw [groups, if_neg (not_or.mpr ⟨notZero, some⟩)]

/-- The first object is one of some first counters, and the others are of those
behind them. -/
theorem logged_cons {out : List (List UInt8)} {bytes : List UInt8} (logged : Logged limit now entries (bytes :: out)) :
    ∃ part rest, entries = part ++ rest ∧ part.length ≤ limit.toNat ∧ IsObject now part bytes ∧
      Logged limit now rest out := by
  rcases logged with ⟨parts, isFlat, sizes, objects⟩
  rcases List.forall₂_cons_right_iff.mp objects with ⟨part, others, isObject, further, isParts⟩
  subst isParts
  exact ⟨part, others.flatten, isFlat.symm, (sizes part List.mem_cons_self).2, isObject, others, rfl,
    fun group member => sizes group (List.mem_cons_of_mem _ member), further⟩

theorem Logged.cons {out : List (List UInt8)} {bytes : List UInt8} {group rest : List Entry} (some : group ≠ [])
    (few : group.length ≤ limit.toNat) (isObject : IsObject now group bytes) (logged : Logged limit now rest out) :
    Logged limit now (group ++ rest) (bytes :: out) := by
  rcases logged with ⟨parts, isFlat, sizes, objects⟩
  refine ⟨group :: parts, by rw [List.flatten_cons, isFlat], ?_, .cons isObject objects⟩
  intro part member
  rcases List.mem_cons.mp member with same | others
  · rw [same]
    exact ⟨some, few⟩
  · exact sizes part others

/-- A pass adds a sequence of objects to the log. -/
def Adds (limit : UInt32) (now : UInt64) (log : List (List UInt8)) (entries : List Entry)
    (outcome : Except Stop Buffer) : Prop :=
  ∃ final out, outcome = .ok final ∧ final.log = log ++ out ∧ Logged limit now entries out

theorem Lost.not_adds {outcome : Except Stop Buffer} (lost : Lost now log [] entries outcome) :
    ¬ Adds limit now log entries outcome := by
  rintro ⟨final, out, isOk, isLog, logged⟩
  rcases lost with ⟨stop, isStop⟩ | ⟨other, bytes, first, rest, isOther, split, more, isFull, isOut, length⟩
  · rw [isOk] at isStop
    cases isStop
  · rw [isOk] at isOther
    cases isOther
    rw [isLog] at isOut
    rw [List.append_cancel_left isOut, split] at logged
    exact lost_not_logged more isFull length logged

/-- A first part of no more counters than the limit is one of the first group. -/
theorem front_of_group {group rest part behind : List Entry} (split : group ++ rest = part ++ behind)
    (whole : group.length = limit.toNat ∨ (group.length < limit.toNat ∧ rest = [])) (few : part.length ≤ limit.toNat) :
    ∃ second, group = part ++ second ∧ behind = second ++ rest := by
  rcases List.append_eq_append_iff.mp split with ⟨second, isPart, isRest⟩ | ⟨second, isGroup, isBehind⟩
  · have none : second = [] := by
      rcases whole with isLimit | ⟨-, isNil⟩
      · rw [isPart, List.length_append] at few
        exact List.length_eq_zero_iff.mp (by omega)
      · rw [isNil] at isRest
        exact (List.append_eq_nil_iff.mp isRest.symm).1
    subst none
    rw [List.append_nil] at isPart
    exact ⟨[], by rw [isPart, List.append_nil], isRest.symm⟩
  · exact ⟨second, isGroup, isBehind⟩

/-- The counters that remain are all logged, exactly if each group of them is small
enough, and an `int` can count them. -/
theorem Ready.adds (ready : Ready now count log buffer) (notZero : limit ≠ 0) (entries : List Entry)
    (aligned : entries ≠ [] → count % limit.toNat = 0) :
    Adds limit now log entries (finish limit entries buffer) ↔
      count + entries.length < 2 ^ 31 ∧ ∀ group ∈ groups limit entries, GroupFits now group := by
  have positive : 0 < limit.toNat := Nat.pos_of_ne_zero fun zero => notZero (UInt32.toNat_inj.mp zero)
  induction length : entries.length using Nat.strong_induction_on generalizing entries count log buffer with
  | _ total ih =>
      by_cases isNil : entries = []
      · subst isNil
        rw [groups_nil, finish, KitGraphitelog.complete, if_pos ready.completed, ← length]
        refine ⟨fun _ => ⟨ready.few, fun group member => absurd member List.not_mem_nil⟩, fun _ => ?_⟩
        exact ⟨buffer, [], rfl, by rw [ready.log, List.append_nil], [], rfl,
          fun group member => absurd member List.not_mem_nil, .nil⟩
      · rcases ready.finish_eq notZero (aligned isNil) isNil with ⟨next, isOpen, same⟩
        have split := List.take_append_drop limit.toNat entries
        have some : entries.take limit.toNat ≠ [] := fun isEmpty =>
          (List.take_eq_nil_iff.mp isEmpty).elim (fun zero => positive.ne' zero) isNil
        have few := List.length_take_le limit.toNat entries
        have whole : (entries.take limit.toNat).length = limit.toNat ∨
            ((entries.take limit.toNat).length < limit.toNat ∧ entries.drop limit.toNat = []) := by
          rw [List.length_take, List.drop_eq_nil_iff]
          omega
        have lengths := congrArg List.length split
        rw [List.length_append] at lengths
        have shorter : (entries.drop limit.toNat).length < total := by
          have notNone := List.length_pos_iff.mpr some
          omega
        rw [groups_cons notZero isNil, List.forall_mem_cons, same]
        generalize entries.take limit.toNat = group at split some few whole lengths shorter ⊢
        generalize entries.drop limit.toNat = rest at split whole lengths shorter ⊢
        subst split
        rcases isOpen.group notZero (by rw [List.length_nil, Nat.add_zero]) (aligned isNil) positive some
          (by rw [List.length_nil, Nat.zero_add]; exact whole) with
            ⟨small, roomy, bytes, after, further, isReady, written⟩ | ⟨never, lost⟩
        · have nextAligned : rest ≠ [] → (count + group.length) % limit.toNat = 0 := by
            intro more
            rcases whole with isLimit | ⟨-, none⟩
            · rw [isLimit, Nat.add_mod_right, aligned isNil]
            · exact absurd none more
          have others := ih rest.length shorter isReady rest nextAligned rfl
          rw [further]
          constructor
          · rintro ⟨final, out, isOk, isLog, logged⟩
            rcases finish_log isOk with ⟨more, isMore⟩
            rw [isReady.log] at isMore
            have isOut := isLog.symm.trans (isMore.trans (List.append_assoc log [bytes] more))
            rw [List.append_cancel_left isOut, List.singleton_append] at logged
            rcases logged_cons logged with ⟨part, behind, isSplit, short, isObject, loggedMore⟩
            rcases front_of_group isSplit whole short with ⟨second, isGroup, isBehind⟩
            have none := isObject.whole (isGroup ▸ roomy) (isGroup ▸ written)
            rw [none, List.append_nil] at isGroup
            rw [none, List.nil_append] at isBehind
            subst isGroup isBehind
            have isRest := others.mp ⟨final, more, isOk, isMore, loggedMore⟩
            exact ⟨by omega, isObject.groupFits roomy, isRest.2⟩
          · rintro ⟨isCount, fits, fitMore⟩
            rcases others.mpr ⟨by omega, fitMore⟩ with ⟨final, out, isOk, isLog, logged⟩
            refine ⟨final, bytes :: out, isOk, ?_, .cons some few (fits.isObject some written) logged⟩
            rw [isLog, List.append_assoc]
            rfl
        · refine ⟨fun adds => absurd adds lost.not_adds, fun ⟨isCount, fits, _⟩ => absurd ⟨?_, fits.roomy⟩ never⟩
          omega

end

end KitGraphitelog
end LibKit
