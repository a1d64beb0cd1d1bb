import Mathlib

namespace LibKit
namespace KitBaseEncode

/-!
# `kit-base-encode.c`

One loop encodes bytes and one decodes them, for five alphabets.  A buffer is
the list of its bytes, of which the first `olen` may be written.  The assertions
about the configurations are left out of release builds, and hold for all of
them.
-/

/-- `struct basecfg`; the characters that are not in the encoding have one of
the values `ws`, `eq` and `invalid`. -/
structure BaseCfg where
  bits : Nat
  wantpadding : Bool
  txtmap : List Nat
  binmap : List UInt8

/-! ## Alphabets -/

/-- `WS`, for white space. -/
def ws : Nat := 64

/-- `EQ`, for the equals sign. -/
def eq : Nat := 65

/-- `IN`, for what is invalid in the encoding. -/
def invalid : Nat := 66

def invalidRow : List Nat := List.replicate 16 invalid

/-- The control characters, of which two are spaces. -/
def controls : List Nat := List.replicate 9 invalid ++ [ws, ws] ++ List.replicate 5 invalid ++ invalidRow

def highRows : List Nat := List.replicate 128 invalid

def values (first count : Nat) : List Nat := (List.range count).map (first + ·)

def chars (first count : Nat) : List UInt8 := (values first count).map UInt8.ofNat

def base16txtmap : List Nat :=
  controls ++ ([ws] ++ List.replicate 15 invalid) ++
    (values 0 10 ++ [invalid, invalid, invalid, eq, invalid, invalid]) ++
    ([invalid] ++ values 10 6 ++ List.replicate 9 invalid) ++
    ([15] ++ List.replicate 15 invalid) ++
    ([invalid] ++ values 10 6 ++ List.replicate 9 invalid) ++ invalidRow ++ highRows

/-- The configuration for decoding, with lower case letters. -/
def base16cfg : BaseCfg := ⟨16, false, base16txtmap, chars 48 10 ++ chars 97 6⟩

/-- `BASE16CFG`, the configuration for encoding, with upper case letters. -/
def base16CFG : BaseCfg := ⟨16, false, base16txtmap, chars 48 10 ++ chars 65 6⟩

def base32txtmap : List Nat :=
  controls ++ ([ws] ++ List.replicate 15 invalid) ++
    ([invalid, invalid] ++ values 26 6 ++ [invalid, invalid, invalid, invalid, invalid, eq, invalid, invalid]) ++
    ([invalid] ++ values 0 26 ++ List.replicate 5 invalid) ++ invalidRow ++ invalidRow ++ highRows

def base32cfg : BaseCfg := ⟨32, false, base32txtmap, chars 65 26 ++ chars 50 6⟩

def base32hextxtmap : List Nat :=
  controls ++ ([ws] ++ List.replicate 15 invalid) ++
    (values 0 10 ++ [invalid, invalid, invalid, eq, invalid, invalid]) ++
    ([invalid] ++ values 10 22 ++ List.replicate 9 invalid) ++
    ([invalid] ++ values 10 22 ++ List.replicate 9 invalid) ++ highRows

def base32hexcfg : BaseCfg := ⟨32, false, base32hextxtmap, chars 48 10 ++ chars 65 22⟩

def base64txtmap : List Nat :=
  controls ++ ([ws] ++ List.replicate 10 invalid ++ [62, invalid, invalid, invalid, 63]) ++
    (values 52 10 ++ [invalid, invalid, invalid, eq, invalid, invalid]) ++
    ([invalid] ++ values 0 26 ++ List.replicate 5 invalid) ++
    ([invalid] ++ values 26 26 ++ List.replicate 5 invalid) ++ highRows

def base64cfg : BaseCfg := ⟨64, true, base64txtmap, chars 65 26 ++ chars 97 26 ++ chars 48 10 ++ [43, 47]⟩

def base64urltxtmap : List Nat :=
  controls ++ ([ws] ++ List.replicate 12 invalid ++ [62, invalid, invalid]) ++
    (values 52 10 ++ [invalid, invalid, invalid, eq, invalid, invalid]) ++
    ([invalid] ++ values 0 26 ++ [invalid, invalid, invalid, invalid, 63]) ++
    ([invalid] ++ values 26 26 ++ List.replicate 5 invalid) ++ highRows

def base64urlcfg : BaseCfg := ⟨64, false, base64urltxtmap, chars 65 26 ++ chars 97 26 ++ chars 48 10 ++ [45, 95]⟩

/-- The loop that finds `shval`. -/
def findShift (bits : Nat) : Nat → Nat → Nat
  | 0, shval => shval
  | fuel + 1, shval => if 1 <<< shval ≠ bits then findShift bits fuel (shval + 1) else shval

def BaseCfg.shval (cfg : BaseCfg) : Nat := findShift cfg.bits 7 1

/-! ## Results -/

def outputOverflow : String := "Output overflow"

def paddingMissing : String := "Padding characters missing"

/-- The error that is returned, the buffer, and what is left in `*olen` and in
`*ilen`. -/
structure Result where
  error : Option String
  out : List UInt8
  olen : Nat
  ilen : Nat
deriving DecidableEq

/-! ## Encoding -/

/-- The variables of `encode`. -/
structure Encoding where
  out : List UInt8
  olen : Nat
  ilen : Nat
  bits : Nat
  buf : Nat

namespace Encoding

def push (maxolen : Nat) (c : UInt8) (state : Encoding) : Except Encoding Encoding :=
  if state.olen ≥ maxolen - 1 then .error state
  else .ok { state with out := (state.out.set state.olen c).set (state.olen + 1) 0, olen := state.olen + 1 }

/-- The loop of `encode` that writes characters while there are enough bits. -/
def pushBits (cfg : BaseCfg) (maxolen : Nat) : Nat → Encoding → Except Encoding Encoding
  | 0, state => .ok state
  | fuel + 1, state =>
      if state.bits ≥ cfg.shval then do
        let c := cfg.binmap.getD ((state.buf >>> (state.bits - cfg.shval)) &&& (cfg.bits - 1)) 0
        let state ← state.push maxolen c
        pushBits cfg maxolen fuel { state with bits := state.bits - cfg.shval }
      else .ok state

/-- The loop of `encode` over its input. -/
def readAll (cfg : BaseCfg) (maxolen : Nat) : List UInt8 → Encoding → Except Encoding Encoding
  | [], state => .ok state
  | byte :: input, state => do
      let state := { state with
        buf := ((state.buf <<< 8) % 2 ^ 32) ||| byte.toNat, ilen := state.ilen + 1, bits := state.bits + 8 }
      let state ← pushBits cfg maxolen state.bits state
      readAll cfg maxolen input state

/-- Push the remaining bits as the high bits of a character. -/
def pushLast (cfg : BaseCfg) (maxolen : Nat) (state : Encoding) : Except Encoding Encoding :=
  if state.bits ≠ 0 then do
    let c := cfg.binmap.getD (((state.buf <<< (cfg.shval - state.bits)) % 2 ^ 32) &&& (cfg.bits - 1)) 0
    let state ← state.push maxolen c
    .ok { state with bits := state.bits + (8 - cfg.shval) }
  else .ok state

/-- The loop of `encode` that writes padding. -/
def pad (cfg : BaseCfg) (maxolen : Nat) : Nat → Encoding → Except Encoding Encoding
  | 0, state => .ok state
  | fuel + 1, state =>
      if state.bits % 8 ≠ 0 then do
        let state ← state.push maxolen 61
        pad cfg maxolen fuel { state with bits := state.bits + (8 - cfg.shval) }
      else .ok state

/-- The rest of `encode`; each turn of the last loop writes a character. -/
def finish (cfg : BaseCfg) (maxolen : Nat) (state : Encoding) : Except Encoding Encoding := do
  let state ← state.pushLast cfg maxolen
  if cfg.wantpadding then pad cfg maxolen maxolen state else .ok state

end Encoding

/-- `encode` -/
def encode (cfg : BaseCfg) (out : List UInt8) (olen : Nat) (input : List UInt8) : Result :=
  if olen = 0 then ⟨some outputOverflow, out, olen, input.length⟩
  else if input.length = 0 then ⟨none, out.set 0 0, 0, 0⟩
  else
    match Encoding.readAll cfg olen input ⟨out, 0, 0, 0, 0⟩ >>= Encoding.finish cfg olen with
    | .error state => ⟨some outputOverflow, state.out, state.olen, state.ilen⟩
    | .ok state => ⟨none, state.out, state.olen, state.ilen⟩

/-! ## Decoding -/

/-- The variables of `decode`. -/
structure Decoding where
  out : List UInt8
  olen : Nat
  ilen : Nat
  bits : Nat
  padding : Nat
  buf : Nat

namespace Decoding

/-- The case of a character that stands for bits. -/
def readBits (cfg : BaseCfg) (maxolen : Nat) (c : Nat) (state : Decoding) : Except Decoding Decoding :=
  let state := { state with
    bits := state.bits + cfg.shval, buf := ((state.buf <<< cfg.shval) % 2 ^ 32) ||| c, ilen := state.ilen + 1 }
  if state.bits ≥ 8 then
    if state.olen ≥ maxolen then .error state
    else .ok { state with
      out := state.out.set state.olen (UInt8.ofNat ((state.buf >>> (state.bits - 8)) &&& 255))
      olen := state.olen + 1
      bits := state.bits - 8 }
  else .ok state

/-- The loop of `decode`, which ends when it is done or at the end of the
input. -/
def loop (cfg : BaseCfg) (skipWhitespace : Bool) (maxolen : Nat) : List UInt8 → Decoding → Except Decoding Decoding
  | [], state => .ok state
  | byte :: input, state =>
      let c := cfg.txtmap.getD byte.toNat invalid
      if c = ws ∧ skipWhitespace then loop cfg skipWhitespace maxolen input { state with ilen := state.ilen + 1 }
      else if c = ws ∨ c = invalid then .ok state
      else if c = eq then
        if cfg.wantpadding ∧ (state.bits + state.padding) % 8 ≠ 0 then
          if state.padding = 0 ∧ state.bits ≥ cfg.shval ∧ state.bits < 8 then .ok state
          else
            let state := { state with ilen := state.ilen + 1, padding := state.padding + cfg.shval }
            if (state.bits + state.padding) % 8 = 0 then .ok state
            else loop cfg skipWhitespace maxolen input state
        else .ok state
      else if state.padding ≠ 0 then .ok state
      else do
        let state ← state.readBits cfg maxolen c
        loop cfg skipWhitespace maxolen input state

end Decoding

/-- `decode`; a last character that is worth less than a byte is not taken. -/
def decode (cfg : BaseCfg) (skipWhitespace : Bool) (out : List UInt8) (olen : Nat) (input : List UInt8) : Result :=
  match Decoding.loop cfg skipWhitespace olen input ⟨out, 0, 0, 0, 0, 0⟩ with
  | .error state => ⟨some outputOverflow, state.out, state.olen, state.ilen⟩
  | .ok state =>
      if (state.bits + state.padding) % 8 ≠ 0 then
        if cfg.wantpadding then ⟨some paddingMissing, state.out, state.olen, state.ilen⟩
        else if state.padding = 0 ∧ state.bits ≥ cfg.shval ∧ state.bits < 8 then
          ⟨none, state.out, state.olen, state.ilen - 1⟩
        else ⟨none, state.out, state.olen, state.ilen⟩
      else ⟨none, state.out, state.olen, state.ilen⟩

/-! ## The interface -/

inductive Base where
  | base16
  | base32
  | base32hex
  | base64
  | base64url
deriving DecidableEq

/-- The configuration that `kit_base16encode` and the like encode with. -/
def Base.encoder : Base → BaseCfg
  | .base16 => base16CFG
  | .base32 => base32cfg
  | .base32hex => base32hexcfg
  | .base64 => base64cfg
  | .base64url => base64urlcfg

/-- The configuration that `kit_base16decode` and the like decode with. -/
def Base.decoder : Base → BaseCfg
  | .base16 => base16cfg
  | .base32 => base32cfg
  | .base32hex => base32hexcfg
  | .base64 => base64cfg
  | .base64url => base64urlcfg

/-- `kit_base16encode`, `kit_base32encode`, `kit_base32hexencode`,
`kit_base64encode` and `kit_base64urlencode` -/
def baseEncode (base : Base) (out : List UInt8) (olen : Nat) (input : List UInt8) : Result :=
  encode base.encoder out olen input

/-- `kit_base16decode` and the like, of which `kit_base64urldecode` has no
flags. -/
def baseDecode (base : Base) (skipWhitespace : Bool) (out : List UInt8) (olen : Nat) (input : List UInt8) : Result :=
  match base with
  | .base64url => decode base.decoder false out olen input
  | _ => decode base.decoder skipWhitespace out olen input

/-- `enum kit_bin2hex_fmt` -/
inductive Bin2hexFmt where
  | upper
  | lower
deriving DecidableEq

/-- `kit_bin2hex`: the text that was written, and its length. -/
def bin2hex (ohex ibin : List UInt8) (fmt : Bin2hexFmt) : List UInt8 × Nat :=
  let result := encode (if fmt = .upper then base16CFG else base16cfg) ohex (ibin.length * 2 + 1) ibin
  (result.out, result.olen)

/-- `kit_hex2bin`: the bytes that were written, and how many they are. -/
def hex2bin (obin ihex : List UInt8) : List UInt8 × Nat :=
  let result := decode base16cfg false obin ((ihex.length + 1) / 2) ihex
  (result.out, result.olen)

end KitBaseEncode
end LibKit
