import LibKit.Support.CString

namespace LibKit
namespace SxeStr

open CString (text)

/-!
# `sxe-str.c`

Characters and strings are searched for in the bytes of a buffer up to a number
of them.  Positions, and the pointers that bound the loops, are told from the
start of the buffer: what a pointer in front of it or behind it leads to is a
byte of whatever object is there.  Each search is kept with the positions of the
bytes of the buffer that it reads.
-/

abbrev Buffer := Int → UInt8

/-- What a search returns, and the positions that it reads. -/
structure Search where
  found : Option Int
  reads : List Int
deriving DecidableEq

def Search.after (search : Search) (reads : List Int) : Search := ⟨search.found, reads ++ search.reads⟩

/-- A test of a position, with the positions that it reads. -/
abbrev Test := Int → Bool × List Int

/-! ## Tests -/

/-- `*buf == c` -/
def isChar (buf : Buffer) (c : UInt8) : Test := fun pos => (decide (buf pos = c), [pos])

/-- The loop of `sxe_strncspn` over the characters of a set. -/
def isOneOf (buf : Buffer) (pos : Int) : List UInt8 → Bool × List Int
  | [] => (false, [])
  | c :: reject =>
      if buf pos = c then (true, [pos])
      else ((isOneOf buf pos reject).1, pos :: (isOneOf buf pos reject).2)

def span (pos : Int) (length : Nat) : List Int := (List.range length).map fun (i : Nat) => pos + (i : Int)

/-- `memcmp` with a string, which may read all of its bytes. -/
def isText (buf : Buffer) (string : List UInt8) : Test := fun pos =>
  (decide ((span pos string.length).map buf = string), span pos string.length)

/-- `tolower` -/
def tolower (c : UInt8) : UInt8 := if 65 ≤ c ∧ c ≤ 90 then c + 32 else c

/-- `strncasecmp` with all of a string, up to the first difference. -/
def isTextNocase (buf : Buffer) (pos : Int) : List UInt8 → Bool × List Int
  | [] => (true, [])
  | c :: string =>
      if tolower (buf pos) = tolower c then
        ((isTextNocase buf (pos + 1) string).1, pos :: (isTextNocase buf (pos + 1) string).2)
      else (false, [pos])

/-! ## Loops -/

/-- The loops from a position on to one that is not reached, which stop at a
NUL. -/
def scanUp (buf : Buffer) (test : Test) (bound pos : Int) : Search :=
  if pos < bound then
    if buf pos = 0 then ⟨none, [pos]⟩
    else if (test pos).1 then ⟨some pos, pos :: (test pos).2⟩
    else (scanUp buf test bound (pos + 1)).after (pos :: (test pos).2)
  else ⟨none, []⟩
termination_by (bound - pos).toNat

/-- The loops from a position back to the start. -/
def scanDown (test : Test) (pos : Int) : Search :=
  if 0 ≤ pos then
    if (test pos).1 then ⟨some pos, (test pos).2⟩ else (scanDown test (pos - 1)).after (test pos).2
  else ⟨none, []⟩
termination_by (pos + 1).toNat

/-! ## Searches -/

/-- `sxe_strnchr`: the last position is `n - 1`, an `unsigned`. -/
def strnchr (buf : Buffer) (c : UInt8) (n : UInt32) : Search :=
  scanUp buf (isChar buf c) ((n - 1).toNat + 1) 0

/-- `sxe_rstrnchr` -/
def rstrnchr (buf : Buffer) (c : UInt8) (n : UInt32) : Search :=
  scanDown (isChar buf c) (n - 1).toNat

/-- `sxe_strncspn` -/
def strncspn (buf : Buffer) (reject : List UInt8) (n : UInt32) : Search :=
  scanUp buf (fun pos => isOneOf buf pos (text reject)) n.toNat 0

/-- `sxe_rstrnstr` -/
def rstrnstr (haystack : Buffer) (needle : List UInt8) (haystackLen : UInt32) : Search :=
  scanDown (isText haystack (text needle)) (haystackLen.toNat - (text needle).length)

/-- `sxe_strncasestr` -/
def strncasestr (buf : Buffer) (str : List UInt8) (n : UInt32) : Search :=
  if n.toNat < (text str).length then ⟨none, []⟩
  else scanUp buf (fun pos => isTextNocase buf pos (text str)) (n.toNat - (text str).length + 1) 0

end SxeStr
end LibKit
