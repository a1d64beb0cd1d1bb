import LibKit.KitRandom.Chacha
import LibKit.Support.Runs

namespace LibKit
namespace KitRandom

/-!
# Random bytes

A thread keeps a buffer of key stream and hands out what is at its end.  When
the buffer is used up it is filled again, and the first bytes of the new stream
become the next key.  Now and then the key is mixed with bytes that are read
from a descriptor.
-/

/-- The thread's variables, and what the reads of the descriptor will give. -/
structure Generator where
  rsInitialized : Bool
  rs : Context
  rsBuf : List UInt8
  rsHave : Nat
  rsCount : Nat
  source : List (List UInt8)

def fresh (source : List (List UInt8)) : Generator :=
  { rsInitialized := false, rs := Vector.replicate 16 0, rsBuf := List.replicate 1024 0, rsHave := 0,
    rsCount := 0, source := source }

/-- `_rs_init` for at least forty bytes. -/
def rsInit (rs : Context) (buf : List UInt8) : Context := ivsetup (keysetup rs buf 256) (buf.drop 32)

/-- The bytes of the buffer combined with at most forty bytes of data. -/
def mixIn (buf dat : List UInt8) : List UInt8 :=
  List.zipWith (fun old new => old ^^^ new) (buf.take (min dat.length 40)) dat ++ buf.drop (min dat.length 40)

/-- `_rs_rekey`; without data it is given the empty list. -/
def rekey (g : Generator) (dat : List UInt8) : Generator :=
  let filled := encryptBytes g.rs g.rsBuf
  let mixed := mixIn filled.1 dat
  { g with rs := rsInit filled.2 mixed, rsBuf := List.replicate 40 0 ++ mixed.drop 40, rsHave := 984 }

/-- `kit_arc4random_stir`; it aborts where the descriptor does not give forty bytes. -/
def stir (g : Generator) : Option Generator :=
  match g.source with
  | [] => none
  | rdat :: source =>
      if rdat.length = 40 then
        let keyed := if g.rsInitialized then rekey g rdat else { g with rs := rsInit g.rs rdat, rsInitialized := true }
        some { keyed with source := source, rsBuf := List.replicate 1024 0, rsHave := 0, rsCount := 1600000 }
      else none

/-- `_rs_stir_if_needed`. -/
def stirIfNeeded (g : Generator) (len : Nat) : Option Generator :=
  if g.rsCount ≤ len ∨ g.rsInitialized = false then stir g else some { g with rsCount := g.rsCount - len }

/-- Some bytes at the end of the buffer are handed out and overwritten. -/
def take (g : Generator) (m : Nat) : List UInt8 × Generator :=
  let offset := 1024 - g.rsHave
  ((g.rsBuf.drop offset).take m,
    { g with rsBuf := g.rsBuf.take offset ++ List.replicate m 0 ++ g.rsBuf.drop (offset + m), rsHave := g.rsHave - m })

/-- The loop of `kit_arc4random_buf`. -/
def fill (g : Generator) (n : Nat) : List UInt8 × Generator :=
  if n = 0 then ([], g)
  else if g.rsHave > 0 then
    let m := min n g.rsHave
    let taken := take g m
    let next := if taken.2.rsHave = 0 then rekey taken.2 [] else taken.2
    let rest := fill next (n - m)
    (taken.1 ++ rest.1, rest.2)
  else fill (rekey g []) n
termination_by (n, if g.rsHave = 0 then 1 else 0)
decreasing_by
  · apply Prod.Lex.left
    omega
  · apply Prod.Lex.right
    have none : g.rsHave = 0 := by omega
    rw [if_pos none]
    exact Nat.zero_lt_one

/-- `kit_arc4random_buf`. -/
def arc4randomBuf (g : Generator) (n : Nat) : Option (List UInt8 × Generator) :=
  (stirIfNeeded g n).map fun g => fill g n

/-- `kit_arc4random`: the bytes of the number, the least significant first. -/
def arc4random (g : Generator) : Option (Word × Generator) :=
  (stirIfNeeded g 4).map fun g =>
    let g := if g.rsHave < 4 then rekey g [] else g
    (u8To32Little (take g 4).1 0, (take g 4).2)

/-! ## Runs of a thread -/

/-- The calls of a thread; `needInit` is the handler in the child of a fork. -/
inductive Call where
  | buf (n : Nat)
  | word
  | stir
  | needInit
  deriving DecidableEq, Repr

def call (g : Generator) : Call → Option (List UInt8 × Generator)
  | .buf n => arc4randomBuf g n
  | .word => (arc4random g).map fun answer => (Words.split answer.1, answer.2)
  | .stir => (stir g).map fun g => ([], g)
  | .needInit => some ([], { g with rsInitialized := false })

/-! ## Numbers below a bound -/

/-- The numbers that are not used, `min` in the source: the negation of the bound
modulo the bound.  The source negates it as a signed number, which is undefined
for the bound `2 ^ 31`. -/
def rejected (bound : Word) : Word := (0 - bound) % bound

/-- The loop of `kit_arc4random_uniform`, for at most as many numbers as there is fuel. -/
def uniformLoop (bound : Word) : Nat → Generator → Option (Word × Generator)
  | 0, _ => none
  | fuel + 1, g =>
      match arc4random g with
      | none => none
      | some (r, g) => if r < rejected bound then uniformLoop bound fuel g else some (r % bound, g)

/-- `kit_arc4random_uniform`, which aborts for bounds below two. -/
def uniform (bound : Word) (fuel : Nat) (g : Generator) : Option (Word × Generator) :=
  if 2 ≤ bound then uniformLoop bound fuel g else none

end KitRandom
end LibKit
