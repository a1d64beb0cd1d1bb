import LibKit.Support.Numeral

namespace LibKit
namespace KitStrto

open Numeral (isSpace subject)

/-!
# `kit-strto.c`

The functions of the C library that convert numbers are called with `errno`
cleared, and a result of zero is checked.  A string is the list of its bytes
without the NUL, which is read behind them.  Characters from 128 on are no
spaces.
-/

/-- What `errno` is set to. -/
inductive Errno where
  | none
  | einval
  | erange
deriving DecidableEq

/-- The result of a conversion, `errno`, and how many characters are in front of
`*endptr`. -/
structure Parsed (α : Type) where
  value : α
  errno : Errno
  consumed : Nat
deriving DecidableEq

/-! ## The C library -/

/-- `ULONG_MAX` and `ULLONG_MAX` -/
def ulongMax : Int := 2 ^ 64 - 1

/-- `LONG_MAX` and `LLONG_MAX` -/
def longMax : Int := 2 ^ 63 - 1

/-- `LONG_MIN` and `LLONG_MIN` -/
def longMin : Int := -2 ^ 63

/-- The integer that a text begins with, if it does. -/
def signed (numeral : Numeral.Subject) : Int := if numeral.negative then -numeral.magnitude else numeral.magnitude

/-- How many characters are in front of what is behind an integer. -/
def consumed (str : List UInt8) (numeral : Numeral.Subject) : Nat := str.length - numeral.rest.length

/-- `strtoul`: the magnitude has to fit, and is negated in the unsigned type. -/
def strtoul (str : List UInt8) (base : Nat) : Parsed Int :=
  match subject base str with
  | none => ⟨0, .none, 0⟩
  | some numeral =>
      if (numeral.magnitude : Int) > ulongMax then ⟨ulongMax, .erange, consumed str numeral⟩
      else ⟨signed numeral % 2 ^ 64, .none, consumed str numeral⟩

/-- `strtoull`, for a type as wide as that of `strtoul`. -/
def strtoull (str : List UInt8) (base : Nat) : Parsed Int := strtoul str base

/-- `strtol` -/
def strtol (str : List UInt8) (base : Nat) : Parsed Int :=
  match subject base str with
  | none => ⟨0, .none, 0⟩
  | some numeral =>
      if signed numeral > longMax then ⟨longMax, .erange, consumed str numeral⟩
      else if signed numeral < longMin then ⟨longMin, .erange, consumed str numeral⟩
      else ⟨signed numeral, .none, consumed str numeral⟩

/-- `strtoll`, for a type as wide as that of `strtol`. -/
def strtoll (str : List UInt8) (base : Nat) : Parsed Int := strtol str base

/-! ## `kit-strto.c` -/

/-- The character at an index, with the NUL behind the string. -/
def charAt (str : List UInt8) (index : Nat) : UInt8 := str.getD index 0

/-- `check_zero_result`, where `endptr` is null or points to where the conversion
ended: what `errno` is after it. -/
def checkZeroResult (str : List UInt8) (endptr : Option Nat) (base : Nat) (errno : Errno) : Errno :=
  if endptr = some 0 then .einval
  else
    let str := str.dropWhile isSpace
    let str := if charAt str 0 = 45 ∨ charAt str 0 = 43 then str.drop 1 else str
    if charAt str 0 ≠ 48 then .einval
    else if (base = 0 ∨ base = 16) ∧ charAt str 1 = 120 then
      if charAt str 2 ≠ 48 then .einval else errno
    else errno

/-- A conversion whose result is checked if it is zero. -/
def checked {α : Type} (isZero : α → Bool) (convert : List UInt8 → Nat → Parsed α) (str : List UInt8) (endptr : Bool)
    (base : Nat) : Parsed α :=
  let ret := convert str base
  if isZero ret.value ∧ ret.errno = .none then
    { ret with errno := checkZeroResult str (if endptr then some ret.consumed else none) base ret.errno }
  else ret

/-- `kit_strtoul` -/
def kitStrtoul (str : List UInt8) (endptr : Bool) (base : Nat) : Parsed Int := checked (· = 0) strtoul str endptr base

/-- `kit_strtoull` -/
def kitStrtoull (str : List UInt8) (endptr : Bool) (base : Nat) : Parsed Int := checked (· = 0) strtoull str endptr base

/-- `kit_strtol` -/
def kitStrtol (str : List UInt8) (endptr : Bool) (base : Nat) : Parsed Int := checked (· = 0) strtol str endptr base

/-- `kit_strtoll` -/
def kitStrtoll (str : List UInt8) (endptr : Bool) (base : Nat) : Parsed Int := checked (· = 0) strtoll str endptr base

/-- `kit_strtod`, with the library's `strtod` and the comparison of its result
with zero. -/
def kitStrtod {α : Type} (isZero : α → Bool) (strtod : List UInt8 → Parsed α) (str : List UInt8) (endptr : Bool) :
    Parsed α :=
  checked isZero (fun str _ => strtod str) str endptr 10

/-- `UINT32_MAX` -/
def uint32Max : Int := 2 ^ 32 - 1

/-- `kit_strtou32`, whose cast keeps the low bits. -/
def kitStrtou32 (str : List UInt8) (endptr : Bool) (base : Nat) : Parsed Int :=
  let ret := checked (· = 0) strtoul str endptr base
  if ret.value ≠ ret.value % 2 ^ 32 then ⟨uint32Max, .erange, ret.consumed⟩ else ret

end KitStrto
end LibKit
