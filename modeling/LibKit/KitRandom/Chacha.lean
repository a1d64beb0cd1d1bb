import LibKit.Support.Words
import LibKit.Support.Keystream

namespace LibKit
namespace KitRandom

/-!
# The ChaCha cipher

A context of sixteen words holds constants, a key, a counter of blocks and a
nonce.  Twenty rounds turn it into a block of the key stream.  The cipher works
in counter mode: every byte of a text is combined with the byte of the key
stream at its place, and the counter goes on with the blocks.
-/

abbrev Word := BitVec 32

/-- The struct `chacha_ctx`. -/
abbrev Context := Vector Word 16

/-! ## Blocks of the key stream -/

/-- The macro `ROTATE`. -/
def rotate (word : Word) (count : Nat) : Word := (word <<< count) ||| (word >>> (32 - count))

/-- The macro `QUARTERROUND`. -/
def quarterRound (a b c d : Fin 16) (x : Context) : Context :=
  let x := x.set a (x[a] + x[b])
  let x := x.set d (rotate (x[d] ^^^ x[a]) 16)
  let x := x.set c (x[c] + x[d])
  let x := x.set b (rotate (x[b] ^^^ x[c]) 12)
  let x := x.set a (x[a] + x[b])
  let x := x.set d (rotate (x[d] ^^^ x[a]) 8)
  let x := x.set c (x[c] + x[d])
  x.set b (rotate (x[b] ^^^ x[c]) 7)

def doubleRound (x : Context) : Context :=
  x
    |> quarterRound 0 4 8 12
    |> quarterRound 1 5 9 13
    |> quarterRound 2 6 10 14
    |> quarterRound 3 7 11 15
    |> quarterRound 0 5 10 15
    |> quarterRound 1 6 11 12
    |> quarterRound 2 7 8 13
    |> quarterRound 3 4 9 14

/-- The words `x0` to `x15` before they are combined with the text. -/
def blockWords (j : Context) : Context := Vector.zipWith (fun x j => x + j) (Nat.repeat doubleRound 10 j) j

/-- The macro `U8TO32_LITTLE` at an offset of the text. -/
def u8To32Little (m : List UInt8) (offset : Nat) : Word :=
  Words.join (m.getD offset 0) (m.getD (offset + 1) 0) (m.getD (offset + 2) 0) (m.getD (offset + 3) 0)

/-- A block of output.  Where the text is shorter, the words are taken from `tmp`, of which nothing
behind the text reaches the output. -/
def outputBlock (j : Context) (m : List UInt8) : List UInt8 :=
  (List.range 16).flatMap fun word => Words.split ((blockWords j).toList.getD word 0 ^^^ u8To32Little m (4 * word))

/-- The counter is the pair of `j12` and `j13`. -/
def nextCounter (j : Context) : Context :=
  let j := j.set 12 (j[12] + 1)
  if j[12] = 0 then j.set 13 (j[13] + 1) else j

/-- The two words of the counter as one number. -/
def counter (j : Context) : Nat := j[12].toNat + 2 ^ 32 * j[13].toNat

/-- The context with another counter, modulo 2 ^ 64. -/
def withCounter (j : Context) (count : Nat) : Context :=
  (j.set 12 (BitVec.ofNat 32 count)).set 13 (BitVec.ofNat 32 (count / 2 ^ 32))

/-! ## The functions -/

def encryptLoop (j : Context) (m : List UInt8) : List UInt8 × Context :=
  if 64 < m.length then
    let rest := encryptLoop (nextCounter j) (m.drop 64)
    (outputBlock j m ++ rest.1, rest.2)
  else ((outputBlock j m).take m.length, nextCounter j)
termination_by m.length
decreasing_by
  rw [List.length_drop]
  omega

/-- `chacha_encrypt_bytes`: the output, and the context with the counter behind the last block. -/
def encryptBytes (x : Context) (m : List UInt8) : List UInt8 × Context :=
  if m.length = 0 then ([], x) else encryptLoop x m

/-- The constant `sigma`: the text "expand 32-byte k". -/
def sigma : List UInt8 := [101, 120, 112, 97, 110, 100, 32, 51, 50, 45, 98, 121, 116, 101, 32, 107]

/-- The constant `tau`: the text "expand 16-byte k". -/
def tau : List UInt8 := [101, 120, 112, 97, 110, 100, 32, 49, 54, 45, 98, 121, 116, 101, 32, 107]

/-- `chacha_keysetup`. -/
def keysetup (x : Context) (k : List UInt8) (kbits : Nat) : Context :=
  let constants := if kbits = 256 then sigma else tau
  let second := if kbits = 256 then k.drop 16 else k
  x
    |>.set 4 (u8To32Little k 0) |>.set 5 (u8To32Little k 4) |>.set 6 (u8To32Little k 8) |>.set 7 (u8To32Little k 12)
    |>.set 8 (u8To32Little second 0) |>.set 9 (u8To32Little second 4)
    |>.set 10 (u8To32Little second 8) |>.set 11 (u8To32Little second 12)
    |>.set 0 (u8To32Little constants 0) |>.set 1 (u8To32Little constants 4)
    |>.set 2 (u8To32Little constants 8) |>.set 3 (u8To32Little constants 12)

/-- `chacha_ivsetup`. -/
def ivsetup (x : Context) (iv : List UInt8) : Context :=
  x |>.set 12 0 |>.set 13 0 |>.set 14 (u8To32Little iv 0) |>.set 15 (u8To32Little iv 4)

end KitRandom
end LibKit
