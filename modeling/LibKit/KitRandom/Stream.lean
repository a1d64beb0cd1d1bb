import LibKit.KitRandom.Erasing

namespace LibKit
namespace KitRandom

/-!
# The stream of the random generator

A refill of the buffer gives nine hundred and eighty-four bytes and the context
of the next refill.  Requests that need no new seed hand out the bytes of these
refills in their order, without leaving one out and without giving one twice,
and so it does not matter into which requests a number of bytes is divided.
-/

/-! ## Refills -/

/-- The bytes of a refill and the context after it. -/
def refill (rs : Context) : List UInt8 × Context :=
  let block := encryptBytes rs (List.replicate 1024 0)
  (block.1.drop 40, rsInit block.2 block.1)

/-- The bytes of some refills one after the other. -/
def streamed (rs : Context) : Nat → List UInt8 × Context
  | 0 => ([], rs)
  | count + 1 => ((refill rs).1 ++ (streamed (refill rs).2 count).1, (streamed (refill rs).2 count).2)

theorem streamed_length (rs : Context) (count : Nat) : (streamed rs count).1.length = 984 * count := by
  induction count generalizing rs with
  | zero => rfl
  | succ count ih =>
      have one : (refill rs).1.length = 984 := by
        rw [refill, List.length_drop, encryptBytes_length, List.length_replicate]
      rw [streamed, List.length_append, ih, one]
      omega

theorem streamed_add (rs : Context) (first second : Nat) :
    streamed rs (first + second) =
      ((streamed rs first).1 ++ (streamed (streamed rs first).2 second).1,
        (streamed (streamed rs first).2 second).2) := by
  induction first generalizing rs with
  | zero => rw [Nat.zero_add, streamed, List.nil_append]
  | succ first ih =>
      rw [Nat.add_right_comm, streamed, ih, streamed, List.append_assoc]

theorem rekey_empty {g : Generator} (clean : Clean g) (empty : g.rsHave = 0) :
    pending (rekey g []) = (refill g.rs).1 ∧ (rekey g []).rs = (refill g.rs).2 := by
  have nothing : pending g = [] := List.length_eq_zero_iff.mp (clean.pending_length.trans empty)
  have zeros : g.rsBuf = List.replicate 1024 0 := by
    rw [clean.buffer, nothing, empty, List.append_nil]
  refine ⟨?_, ?_⟩
  · rw [(rekey_clean clean []).2, mixIn_nil, zeros, refill]
  · rw [rekey, mixIn_nil, zeros, refill]

/-! ## What is handed out -/

/-- Between two states some bytes of the stream were handed out, in the order of the stream. -/
def Serves (g : Generator) (out : List UInt8) (later : Generator) : Prop :=
  ∃ count, pending g ++ (streamed g.rs count).1 = out ++ pending later ∧ later.rs = (streamed g.rs count).2

theorem Serves.append {g middle later : Generator} {first second : List UInt8} (before : Serves g first middle)
    (after : Serves middle second later) : Serves g (first ++ second) later := by
  rcases before with ⟨early, bytes, context⟩
  rcases after with ⟨late, further, last⟩
  refine ⟨early + late, ?_, ?_⟩
  · rw [streamed_add, ← List.append_assoc, bytes, List.append_assoc, ← context, further, List.append_assoc]
  · rw [streamed_add, last, context]

theorem serves_take {g : Generator} (clean : Clean g) {m : Nat} (inside : m ≤ g.rsHave) :
    Serves g (take g m).1 (take g m).2 := by
  have taken := take_clean clean inside
  refine ⟨0, ?_, rfl⟩
  rw [taken.1, taken.2.2, List.take_append_drop, streamed, List.append_nil]

theorem serves_rekey {g : Generator} (clean : Clean g) (empty : g.rsHave = 0) : Serves g [] (rekey g []) := by
  have filled := rekey_empty clean empty
  have nothing : pending g = [] := List.length_eq_zero_iff.mp (clean.pending_length.trans empty)
  refine ⟨1, ?_, ?_⟩
  · rw [nothing, filled.1, streamed, streamed, List.append_nil]
  · rw [filled.2, streamed, streamed]

theorem serves_nothing (g : Generator) : Serves g [] g := by
  refine ⟨0, ?_, ?_⟩
  · rw [streamed, List.append_nil, List.nil_append]
  · rw [streamed]

structure Steady (g later : Generator) : Prop where
  initialized : later.rsInitialized = g.rsInitialized
  count : later.rsCount = g.rsCount

theorem steady_take (g : Generator) (m : Nat) : Steady g (take g m).2 := ⟨rfl, rfl⟩

@[simp] theorem rekey_rsHave (g : Generator) (dat : List UInt8) : (rekey g dat).rsHave = 984 := rfl

@[simp] theorem rekey_rsInitialized (g : Generator) (dat : List UInt8) :
  (rekey g dat).rsInitialized = g.rsInitialized := by
  simp only [rekey]

@[simp] theorem rekey_rsCount (g : Generator) (dat : List UInt8) : (rekey g dat).rsCount = g.rsCount := by
  simp only [rekey]

theorem steady_rekey (g : Generator) (dat : List UInt8) : Steady g (rekey g dat) :=
  ⟨rekey_rsInitialized g dat, rekey_rsCount g dat⟩

theorem Steady.append {g middle later : Generator} (before : Steady g middle) (after : Steady middle later) :
    Steady g later :=
  ⟨after.initialized.trans before.initialized, after.count.trans before.count⟩

/-- The bytes that are taken, and the refill where that empties the buffer. -/
theorem next_serves {g : Generator} (clean : Clean g) {m : Nat} (inside : m ≤ g.rsHave) :
    Clean (if (take g m).2.rsHave = 0 then rekey (take g m).2 [] else (take g m).2) ∧
      Serves g (take g m).1 (if (take g m).2.rsHave = 0 then rekey (take g m).2 [] else (take g m).2) ∧
      Steady g (if (take g m).2.rsHave = 0 then rekey (take g m).2 [] else (take g m).2) := by
  have kept := take_clean clean inside
  have served := serves_take clean inside
  split
  · next empty =>
      have both := served.append (serves_rekey kept.2.1 empty)
      rw [List.append_nil] at both
      exact ⟨(rekey_clean kept.2.1 []).1, both, (steady_take g m).append (steady_rekey (take g m).2 [])⟩
  · exact ⟨kept.2.1, served, steady_take g m⟩

theorem fill_serves {g : Generator} (clean : Clean g) (n : Nat) :
    Serves g (fill g n).1 (fill g n).2 ∧ Steady g (fill g n).2 := by
  induction g, n using fill.induct with
  | case1 g =>
      rw [fill, if_pos rfl]
      exact ⟨serves_nothing g, rfl, rfl⟩
  | case2 g n some left m taken next ih =>
      have within : m ≤ g.rsHave := Nat.min_le_right n g.rsHave
      have onward := next_serves clean within
      have rest := ih onward.1
      rw [fill, if_neg some, if_pos left]
      exact ⟨onward.2.1.append rest.1, onward.2.2.append rest.2⟩
  | case3 g n some none ih =>
      have empty : g.rsHave = 0 := by omega
      have rest := ih (rekey_clean clean []).1
      rw [fill, if_neg some, if_neg none]
      exact ⟨(serves_rekey clean empty).append rest.1, (steady_rekey g []).append rest.2⟩

theorem split_word {bytes : List UInt8} (four : bytes.length = 4) : Words.split (u8To32Little bytes 0) = bytes := by
  rcases bytes with _ | ⟨first, _ | ⟨second, _ | ⟨third, _ | ⟨fourth, _ | ⟨fifth, rest⟩⟩⟩⟩⟩
  · cases four
  · cases four
  · cases four
  · cases four
  · exact Words.split_join first second third fourth
  · simp only [List.length_cons] at four
    omega

theorem word_serves {g : Generator} (clean : Clean g) (whole : g.rsHave = 0 ∨ 4 ≤ g.rsHave) :
    let ready := if g.rsHave < 4 then rekey g [] else g
    Serves g (Words.split (u8To32Little (take ready 4).1 0)) (take ready 4).2 ∧ Steady g (take ready 4).2 := by
  by_cases low : g.rsHave < 4
  · have empty : g.rsHave = 0 := by omega
    have filled := (rekey_clean clean []).1
    have inside : 4 ≤ (rekey g []).rsHave := by rw [rekey_rsHave]; decide
    have width : (take (rekey g []) 4).1.length = 4 := by
      rw [(take_clean filled inside).1, List.length_take, filled.pending_length, Nat.min_eq_left inside]
    simp only [if_pos low]
    rw [split_word width]
    exact ⟨(serves_rekey clean empty).append (serves_take filled inside),
      (steady_rekey g []).append (steady_take (rekey g []) 4)⟩
  · have inside : 4 ≤ g.rsHave := by omega
    have width : (take g 4).1.length = 4 := by
      rw [(take_clean clean inside).1, List.length_take, clean.pending_length, Nat.min_eq_left inside]
    simp only [if_neg low]
    rw [split_word width]
    exact ⟨serves_take clean inside, steady_take g 4⟩

theorem call_serves {g : Generator} {request : Call} (clean : Clean g) (ready : g.rsInitialized = true)
    (enough : request.size < g.rsCount) (kind : request = .word ∨ ∃ n, request = .buf n)
    (whole : request = .word → g.rsHave = 0 ∨ 4 ≤ g.rsHave) :
    ∃ out later, call g request = some (out, later) ∧ Serves g out later ∧ later.rsInitialized = true ∧
      later.rsCount = g.rsCount - request.size := by
  have counted : stirIfNeeded g request.size = some { g with rsCount := g.rsCount - request.size } := by
    rw [stirIfNeeded, if_neg]
    rintro (low | absent)
    · omega
    · rw [ready] at absent
      cases absent
  have kept : Clean { g with rsCount := g.rsCount - request.size } := ⟨clean.size, clean.bound, clean.zero⟩
  rcases kind with word | ⟨n, buf⟩
  · subst word
    have served := word_serves kept (whole rfl)
    refine ⟨_, _, ?_, served.1, served.2.initialized.trans ready, served.2.count⟩
    have four : Call.word.size = 4 := rfl
    rw [call, arc4random, ← four, counted]
    rfl
  · subst buf
    have served := fill_serves kept n
    have size : (Call.buf n).size = n := rfl
    refine ⟨_, _, ?_, served.1, served.2.initialized.trans ready, served.2.count⟩
    rw [call, arc4randomBuf, ← size, counted]
    rfl

/-! ## Many requests -/

/-- The bytes that a list of requests gets together. -/
def handOut (g : Generator) : List Call → Option (List UInt8 × Generator)
  | [] => some ([], g)
  | request :: requests =>
      (call g request).bind fun first => (handOut first.2 requests).map fun rest => (first.1 ++ rest.1, rest.2)

def total (requests : List Call) : Nat := (requests.map Call.size).sum

/-- A number is only asked for where none or all of its bytes are left. -/
def Whole (g : Generator) : List Call → Prop
  | [] => True
  | request :: requests =>
      (request = .word → g.rsHave = 0 ∨ 4 ≤ g.rsHave) ∧ ∀ out later, call g request = some (out, later) →
        Whole later requests

theorem handOut_serves {g : Generator} (clean : Clean g) (ready : g.rsInitialized = true) (requests : List Call)
    (kinds : ∀ request ∈ requests, request = .word ∨ ∃ n, request = .buf n) (enough : total requests < g.rsCount)
    (whole : Whole g requests) :
    ∃ out later, handOut g requests = some (out, later) ∧ Serves g out later ∧ out.length = total requests := by
  induction requests generalizing g with
  | nil => exact ⟨[], g, rfl, serves_nothing g, rfl⟩
  | cons request requests ih =>
      have split : total (request :: requests) = request.size + total requests := List.sum_cons
      rw [split] at enough
      rcases call_serves clean ready (by omega) (kinds request (List.mem_cons_self ..)) whole.1 with
        ⟨out, later, answered, served, initialized, count⟩
      have kept := call_clean clean answered
      rcases ih kept.2 initialized (fun other inside => kinds other (List.mem_cons_of_mem _ inside)) (by omega)
        (whole.2 out later answered) with ⟨rest, last, further, serves, length⟩
      refine ⟨out ++ rest, last, ?_, served.append serves, ?_⟩
      · rw [handOut, answered, Option.bind_some, further, Option.map_some]
      · rw [List.length_append, length, kept.1, split]

/-- What was handed out is in front of the stream, however far that is computed. -/
theorem Serves.front {g later : Generator} {out : List UInt8} (served : Serves g out later) {count : Nat}
    (enough : out.length ≤ (pending g).length + 984 * count) :
    out = (pending g ++ (streamed g.rs count).1).take out.length := by
  rcases served with ⟨used, bytes, _⟩
  have found : out = (pending g ++ (streamed g.rs used).1).take out.length := by
    rw [bytes, List.take_left' rfl]
  have same : (pending g ++ (streamed g.rs count).1).take out.length =
      (pending g ++ (streamed g.rs used).1).take out.length := by
    have length := congrArg List.length bytes
    rw [List.length_append, List.length_append, streamed_length] at length
    rcases Nat.le_total count used with less | more
    · rcases Nat.exists_eq_add_of_le less with ⟨rest, rfl⟩
      rw [streamed_add, ← List.append_assoc]
      refine (List.take_append_of_le_length ?_).symm
      rw [List.length_append, streamed_length]
      exact enough
    · rcases Nat.exists_eq_add_of_le more with ⟨rest, rfl⟩
      rw [streamed_add, ← List.append_assoc]
      refine List.take_append_of_le_length ?_
      rw [List.length_append, streamed_length]
      omega
  rw [same]
  exact found

/-- Requests that need no seed, and that do not ask for a number where only a part of one is left,
get the next bytes of the stream, however their number is divided. -/
theorem requests_share_stream {source : List (List UInt8)} {history : History Call (List UInt8)} {g : Generator}
    (run : Run call (fun _ _ _ => True) (fresh source) history g) (ready : g.rsInitialized = true)
    (requests : List Call) (kinds : ∀ request ∈ requests, request = .word ∨ ∃ n, request = .buf n)
    (enough : total requests < g.rsCount) (whole : Whole g requests) :
    ∃ out later, handOut g requests = some (out, later) ∧
      ∀ count, total requests ≤ g.rsHave + 984 * count →
        out = (pending g ++ (streamed g.rs count).1).take (total requests) := by
  have clean := (run_clean run).1
  rcases handOut_serves clean ready requests kinds enough whole with ⟨out, later, found, served, length⟩
  refine ⟨out, later, found, ?_⟩
  intro count much
  rw [← length]
  apply served.front
  rwa [length, clean.pending_length]

/-- Two numbers and three bytes after the first seed. -/
theorem requests_share_stream_two :
    let ready := { fresh [] with
      rsInitialized := true, rs := rsInit (Vector.replicate 16 0) (List.replicate 40 5), rsCount := 1600000 }
    ∃ out later, handOut ready [.word, .word, .buf 3] = some (out, later) ∧
      ∀ count, 11 ≤ 0 + 984 * count → out = (pending ready ++ (streamed ready.rs count).1).take 11 := by
  refine @requests_share_stream [List.replicate 40 5] [(Call.stir, [])] _ (Run.step Run.start trivial rfl) rfl
    [.word, .word, .buf 3] (by simp) (by decide) ⟨fun _ => Or.inl rfl, ?_⟩
  rintro out later given
  cases given
  refine ⟨fun _ => Or.inr (by decide), fun _ _ _ => ⟨fun isWord => (by cases isWord), fun _ _ _ => trivial⟩⟩

end KitRandom
end LibKit
