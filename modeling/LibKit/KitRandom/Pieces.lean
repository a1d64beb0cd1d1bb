import LibKit.KitRandom.Uniform

namespace LibKit
namespace KitRandom

/-!
# Random numbers of 16 and 8 bits

Small random numbers are cut from numbers of 32 bits, the high end first, and
each size has a number of its own that it cuts from.  Whatever sizes a thread
asks for, each number of 32 bits that was drawn serves one size only, and no bit
of it is given twice.
-/

/-- The static variables of `kit_random16` or `kit_random8`. -/
structure Cache where
  outleft : Nat
  rnd : Word

/-- The functions `kit_random16` and `kit_random8`, which differ in the number of bits. -/
def random (bits : Nat) (cache : Cache) (gen : Generator) : Option (BitVec bits × Cache × Generator) :=
  let drawn := if cache.outleft = 0 then (arc4random gen).map fun answer => (Cache.mk (32 / bits) answer.1, answer.2)
    else some (cache, gen)
  drawn.map fun (ready : Cache × Generator) =>
    let outleft := ready.1.outleft - 1
    ((ready.1.rnd >>> (outleft * bits)).setWidth bits, { ready.1 with outleft := outleft }, ready.2)

/-- `kit_random16`. -/
def random16 (cache : Cache) (gen : Generator) : Option (BitVec 16 × Cache × Generator) := random 16 cache gen

/-- `kit_random8`. -/
def random8 (cache : Cache) (gen : Generator) : Option (BitVec 8 × Cache × Generator) := random 8 cache gen

structure Pool where
  gen : Generator
  cache16 : Cache
  cache8 : Cache

inductive Request where
  | random32
  | random16
  | random8
  deriving DecidableEq, Repr

inductive Number where
  | word (value : Word)
  | half (value : BitVec 16)
  | byte (value : BitVec 8)
  deriving DecidableEq

def ask (pool : Pool) : Request → Option (Number × Pool)
  | .random32 => (arc4random pool.gen).map fun answer => (.word answer.1, { pool with gen := answer.2 })
  | .random16 => (random16 pool.cache16 pool.gen).map fun answer =>
      (.half answer.1, { pool with cache16 := answer.2.1, gen := answer.2.2 })
  | .random8 => (random8 pool.cache8 pool.gen).map fun answer =>
      (.byte answer.1, { pool with cache8 := answer.2.1, gen := answer.2.2 })

def Pool.start (gen : Generator) : Pool := ⟨gen, ⟨0, 0⟩, ⟨0, 0⟩⟩

/-! ## The pieces of a number -/

/-- The pieces at the low end of a number, the higher ones first. -/
def pieces (bits : Nat) (word : Word) : Nat → List (BitVec bits)
  | 0 => []
  | count + 1 => (word >>> (count * bits)).setWidth bits :: pieces bits word count

/-- A piece of the number at hand, or the first piece of a new one. -/
theorem random_some {bits : Nat} (divides : 0 < 32 / bits) {cache later : Cache} {gen after : Generator}
    {value : BitVec bits}
    (found : random bits cache gen = some (value, later, after)) :
    (pieces bits cache.rnd cache.outleft = value :: pieces bits later.rnd later.outleft ∧ after = gen) ∨
      (cache.outleft = 0 ∧ ∃ word, arc4random gen = some (word, after) ∧
        pieces bits word (32 / bits) = value :: pieces bits later.rnd later.outleft) := by
  rw [random] at found
  by_cases empty : cache.outleft = 0
  · rw [if_pos empty] at found
    rcases Option.map_eq_some_iff.mp found with ⟨ready, drawn, same⟩
    rcases Option.map_eq_some_iff.mp drawn with ⟨answer, taken, rfl⟩
    injection same with first rest
    injection rest with second third
    refine Or.inr ⟨empty, answer.1, ?_, ?_⟩
    · rw [taken, ← third]
    · rcases Nat.exists_eq_succ_of_ne_zero (Nat.ne_of_gt divides) with ⟨count, many⟩
      rw [← first, ← second]
      dsimp only
      rw [many, pieces, Nat.succ_eq_add_one, Nat.add_sub_cancel]
  · rw [if_neg empty] at found
    rcases Option.map_eq_some_iff.mp found with ⟨ready, kept, same⟩
    injection kept with here
    subst here
    injection same with first rest
    injection rest with second third
    refine Or.inl ⟨?_, third.symm⟩
    rcases Nat.exists_eq_succ_of_ne_zero empty with ⟨count, many⟩
    rw [← first, ← second]
    dsimp only
    rw [many, pieces, Nat.succ_eq_add_one, Nat.add_sub_cancel]

/-! ## All numbers of a thread -/

def Number.word? : Number → Option Word
  | .word value => some value
  | _ => none

def Number.half? : Number → Option (BitVec 16)
  | .half value => some value
  | _ => none

def Number.byte? : Number → Option (BitVec 8)
  | .byte value => some value
  | _ => none

/-- The numbers that were drawn for one of the functions. -/
def drawnFor (request : Request) (drawn : List (Request × Word)) : List Word :=
  (drawn.filter fun entry => entry.1 = request).map Prod.snd

theorem drawnFor_append (request : Request) (drawn : List (Request × Word)) (other : Request) (word : Word) :
    drawnFor request (drawn ++ [(other, word)]) = drawnFor request drawn ++ (if other = request then [word]
      else []) := by
  rw [drawnFor, drawnFor, List.filter_append, List.map_append]
  by_cases same : other = request
  · simp [same]
  · simp [same]

theorem words_snoc {start gen after : Generator} {early : List Word} {word : Word} {count : Nat}
    (before : words count start = some (early, gen)) (drawn : arc4random gen = some (word, after)) :
    words (count + 1) start = some (early ++ [word], after) := by
  induction count generalizing start early with
  | zero =>
      injection before with both
      injection both with none same
      subst same
      subst none
      rw [words, drawn, Option.bind_some, words, Option.map_some, List.nil_append]
  | succ count ih =>
      rw [words] at before
      rcases Option.bind_eq_some_iff.mp before with ⟨first, taken, rest⟩
      rcases Option.map_eq_some_iff.mp rest with ⟨others, read, same⟩
      injection same with list state
      subst list
      subst state
      rw [words, taken, Option.bind_some, ih read, Option.map_some, List.cons_append]

/-- The numbers that were given are the pieces of the numbers that were drawn, apart from the
pieces that are still there. -/
structure Accounted (start : Generator) (history : History Request Number) (pool : Pool)
    (drawn : List (Request × Word)) :
    Prop where
  reads : words drawn.length start = some (drawn.map Prod.snd, pool.gen)
  numbers : history.reverse.filterMap (fun entry => entry.2.word?) = drawnFor .random32 drawn
  halves : history.reverse.filterMap (fun entry => entry.2.half?) ++ pieces 16 pool.cache16.rnd pool.cache16.outleft =
    (drawnFor .random16 drawn).flatMap fun word => pieces 16 word 2
  bytes : history.reverse.filterMap (fun entry => entry.2.byte?) ++ pieces 8 pool.cache8.rnd pool.cache8.outleft =
    (drawnFor .random8 drawn).flatMap fun word => pieces 8 word 4

theorem start_accounted (gen : Generator) : Accounted gen [] (Pool.start gen) [] :=
  ⟨rfl, rfl, rfl, rfl⟩

/-- A drawn number is noted for the function that drew it. -/
theorem drawn_snoc {start : Generator} {drawn : List (Request × Word)} {gen after : Generator} {word : Word}
    (before : words drawn.length start = some (drawn.map Prod.snd, gen)) (taken : arc4random gen = some (word, after))
    (request : Request) :
    words (drawn ++ [(request, word)]).length start = some ((drawn ++ [(request, word)]).map Prod.snd, after) := by
  rw [List.length_append, List.length_singleton, List.map_append]
  exact words_snoc before taken

theorem Accounted.step {start : Generator} {history : History Request Number} {pool later : Pool}
    {drawn : List (Request × Word)} (account : Accounted start history pool drawn) {request : Request} {number : Number}
    (answered : ask pool request = some (number, later)) :
    ∃ more, Accounted start ((request, number) :: history) later more := by
  have halves := account.halves
  have bytes := account.bytes
  have whole := account.numbers
  cases request with
  | random32 =>
      rcases Option.map_eq_some_iff.mp answered with ⟨answer, taken, same⟩
      injection same with first second
      subst first
      subst second
      refine ⟨drawn ++ [(.random32, answer.1)], drawn_snoc account.reads taken _, ?_, ?_, ?_⟩
      · rw [List.reverse_cons, List.filterMap_append, drawnFor_append, whole]
        rfl
      · rw [List.reverse_cons, List.filterMap_append, drawnFor_append, if_neg (by decide), List.append_nil, ← halves]
        exact congrArg (fun list => list ++ _) (List.append_nil _)
      · rw [List.reverse_cons, List.filterMap_append, drawnFor_append, if_neg (by decide), List.append_nil, ← bytes]
        exact congrArg (fun list => list ++ _) (List.append_nil _)
  | random16 =>
      rcases Option.map_eq_some_iff.mp answered with ⟨answer, given, same⟩
      injection same with first second
      subst first
      subst second
      have sole : [((.random16, .half answer.1) : Request × Number)].filterMap (fun entry => entry.2.half?) =
        [answer.1] := rfl
      rcases random_some (by decide) given with ⟨cut, kept⟩ | ⟨empty, word, taken, cut⟩
      · refine ⟨drawn, ?_, ?_, ?_, ?_⟩
        · rw [kept]
          exact account.reads
        · rw [List.reverse_cons, List.filterMap_append, ← whole]
          exact List.append_nil _
        · rw [List.reverse_cons, List.filterMap_append, ← halves, cut, sole, List.append_assoc, List.singleton_append]
        · rw [List.reverse_cons, List.filterMap_append, ← bytes]
          exact congrArg (fun list => list ++ _) (List.append_nil _)
      · refine ⟨drawn ++ [(.random16, word)], drawn_snoc account.reads taken _, ?_, ?_, ?_⟩
        · rw [List.reverse_cons, List.filterMap_append, drawnFor_append, if_neg (by decide), List.append_nil, ← whole]
          exact List.append_nil _
        · change pieces 16 word 2 = _ at cut
          rw [empty, pieces, List.append_nil] at halves
          rw [List.reverse_cons, List.filterMap_append, drawnFor_append, if_pos rfl, List.flatMap_append, ← halves,
            List.flatMap_singleton, cut, sole, List.append_assoc, List.singleton_append]
        · rw [List.reverse_cons, List.filterMap_append, drawnFor_append, if_neg (by decide), List.append_nil, ← bytes]
          exact congrArg (fun list => list ++ _) (List.append_nil _)
  | random8 =>
      rcases Option.map_eq_some_iff.mp answered with ⟨answer, given, same⟩
      injection same with first second
      subst first
      subst second
      have sole : [((.random8, .byte answer.1) : Request × Number)].filterMap (fun entry => entry.2.byte?) =
        [answer.1] := rfl
      rcases random_some (by decide) given with ⟨cut, kept⟩ | ⟨empty, word, taken, cut⟩
      · refine ⟨drawn, ?_, ?_, ?_, ?_⟩
        · rw [kept]
          exact account.reads
        · rw [List.reverse_cons, List.filterMap_append, ← whole]
          exact List.append_nil _
        · rw [List.reverse_cons, List.filterMap_append, ← halves]
          exact congrArg (fun list => list ++ _) (List.append_nil _)
        · rw [List.reverse_cons, List.filterMap_append, ← bytes, cut, sole, List.append_assoc, List.singleton_append]
      · refine ⟨drawn ++ [(.random8, word)], drawn_snoc account.reads taken _, ?_, ?_, ?_⟩
        · rw [List.reverse_cons, List.filterMap_append, drawnFor_append, if_neg (by decide), List.append_nil, ← whole]
          exact List.append_nil _
        · rw [List.reverse_cons, List.filterMap_append, drawnFor_append, if_neg (by decide), List.append_nil, ← halves]
          exact congrArg (fun list => list ++ _) (List.append_nil _)
        · change pieces 8 word 4 = _ at cut
          rw [empty, pieces, List.append_nil] at bytes
          rw [List.reverse_cons, List.filterMap_append, drawnFor_append, if_pos rfl, List.flatMap_append, ← bytes,
            List.flatMap_singleton, cut, sole, List.append_assoc, List.singleton_append]

/-- Whatever sizes a thread asks for in whatever order, the numbers of one size are the pieces of the
numbers of 32 bits that were drawn for it, the high ones first, up to the pieces that are still there;
and the numbers that were drawn are those that the generator gives one after the other. -/
theorem numbers_accounted {start : Generator} {history : History Request Number} {pool : Pool}
    (run : Run ask (fun _ _ _ => True) (Pool.start start) history pool) :
    ∃ drawn : List (Request × Word),
      words drawn.length start = some (drawn.map Prod.snd, pool.gen) ∧
      history.reverse.filterMap (fun entry => entry.2.word?) = drawnFor .random32 drawn ∧
      history.reverse.filterMap (fun entry => entry.2.half?) ++ pieces 16 pool.cache16.rnd pool.cache16.outleft =
        (drawnFor .random16 drawn).flatMap (fun word => pieces 16 word 2) ∧
      history.reverse.filterMap (fun entry => entry.2.byte?) ++ pieces 8 pool.cache8.rnd pool.cache8.outleft =
        (drawnFor .random8 drawn).flatMap fun word => pieces 8 word 4 := by
  have known := Run.invariant (fun history pool => ∃ drawn, Accounted start history pool drawn) ⟨[],
    start_accounted start⟩
    (fun _ _ _ _ _ before _ answered => before.elim fun _ account => account.step answered) run
  rcases known with ⟨drawn, account⟩
  exact ⟨drawn, account.reads, account.numbers, account.halves, account.bytes⟩

/-- A thread with four bytes left that asks for one number of 16 bits. -/
theorem numbers_accounted_half :
    let ready := { fresh [] with
      rsInitialized := true, rsBuf := List.replicate 1020 0 ++ [1, 2, 3, 4], rsHave := 4, rsCount := 100 }
    ∃ drawn : List (Request × Word), words drawn.length ready = some
      (drawn.map Prod.snd, (take { ready with rsCount := 96 } 4).2) ∧
      [(0x0403 : BitVec 16)] ++ pieces 16 0x04030201 1 =
      (drawnFor .random16 drawn).flatMap fun word => pieces 16 word 2 := by
  intro ready
  have bytes : (take { ready with rsCount := 96 } 4).1 = [1, 2, 3, 4] := by
    have width : (List.replicate 1020 (0 : UInt8)).length = 1020 := List.length_replicate
    have offset : 1024 - 4 = 1020 := rfl
    simp only [take, ready, offset, List.drop_left' width]
    rfl
  have drawn : arc4random ready = some (0x04030201, (take { ready with rsCount := 96 } 4).2) := by
    have counted : stirIfNeeded ready 4 = some { ready with rsCount := 96 } := rfl
    have enough : ¬({ ready with rsCount := 96 } : Generator).rsHave < 4 := by decide
    rw [arc4random, counted, Option.map_some, if_neg enough]
    exact congrArg (fun list => some (u8To32Little list 0, (take { ready with rsCount := 96 } 4).2)) bytes
  have asked : ask (Pool.start ready) .random16 =
      some (.half 0x0403, ⟨(take { ready with rsCount := 96 } 4).2, ⟨1, 0x04030201⟩, ⟨0, 0⟩⟩) := by
    have empty : (Pool.start ready).cache16.outleft = 0 := rfl
    have piece : BitVec.setWidth 16 ((0x04030201 : Word) >>> ((32 / 16 - 1) * 16)) = 0x0403 := by decide
    rw [ask, random16, random, if_pos empty, Pool.start, drawn, Option.map_some, Option.map_some, Option.map_some]
    dsimp only
    rw [piece]
  rcases numbers_accounted (Run.step Run.start trivial asked) with ⟨drawn, reads, _, halves, _⟩
  exact ⟨drawn, reads, halves⟩

end KitRandom
end LibKit
