import LibKit.KitBaseEncode.Model
import LibKit.Support.Radix

namespace LibKit
namespace KitBaseEncode

open Radix (Regrouped Filled)

/-!
# Decoding what was encoded

Both loops regroup bits, so the characters are the digits of the number that
the bytes are, and decoding regroups them back.
-/

/-- What the proofs need of an alphabet: characters have some bits, there is
padding only where there are six, and the decoder knows each character of the
encoder. -/
structure Alphabet (encoder decoder : BaseCfg) (shval : Nat) : Prop where
  bits : encoder.bits = 2 ^ shval
  encodes : encoder.shval = shval
  decodes : decoder.shval = shval
  positive : 0 < shval
  narrow : shval ≤ 6
  padding : decoder.wantpadding = encoder.wantpadding
  six : encoder.wantpadding = true → shval = 6 ∧ decoder.txtmap.getD 61 invalid = eq
  inverse : ∀ digit, digit < 2 ^ shval → decoder.txtmap.getD (encoder.binmap.getD digit 0).toNat invalid = digit ∧
    encoder.binmap.getD digit 0 ≠ 0

/-! ## Writing -/

/-- A buffer after a text and its NUL were written to it. -/
def written (out text : List UInt8) : List UInt8 := if text = [] then out else text ++ 0 :: out.drop (text.length + 1)

theorem written_push {out text : List UInt8} (room : text.length + 1 < out.length) (c : UInt8) :
    ((written out text).set text.length c).set (text.length + 1) 0 = written out (text ++ [c]) := by
  have after : written out (text ++ [c]) = text ++ c :: 0 :: out.drop (text.length + 2) := by
    rw [written, if_neg (by simp), List.length_append, List.length_singleton, List.append_assoc]
    rfl
  have next : ∃ byte, out.drop (text.length + 1) = byte :: out.drop (text.length + 2) :=
    ⟨out[text.length + 1], List.drop_eq_getElem_cons room⟩
  rcases next with ⟨byte, next⟩
  rw [after]
  by_cases empty : text = []
  · rw [written, if_pos empty]
    rw [empty] at room next ⊢
    rcases out with _ | ⟨first, _ | ⟨second, others⟩⟩
    · simp at room
    · simp at room
    · rfl
  · rw [written, if_neg empty, next]
    simp

namespace Encoding

structure Wrote (out : List UInt8) (maxolen : Nat) (text : List UInt8) (state : Encoding) : Prop where
  olen : state.olen = text.length
  out : state.out = written out text
  room : text.length < maxolen

/-- A part of `encode` goes on with a property, or the output overflows. -/
def Ends (result : Except Encoding Encoding) (overflow : Prop) (holds : Encoding → Prop) : Prop :=
  (∃ after, result = .ok after ∧ holds after) ∨ ∃ after, result = .error after ∧ overflow

theorem Ends.bind {result : Except Encoding Encoding} {overflow : Prop} {holds holds' : Encoding → Prop}
    {next : Encoding → Except Encoding Encoding} (ends : Ends result overflow holds)
    (further : ∀ after, holds after → Ends (next after) overflow holds') : Ends (result >>= next) overflow holds' := by
  rcases ends with ⟨after, rfl, isAfter⟩ | ⟨after, rfl, overflows⟩
  · exact further after isAfter
  · exact Or.inr ⟨after, rfl, overflows⟩

theorem Ends.weaken {result : Except Encoding Encoding} {overflow overflow' : Prop} {holds : Encoding → Prop}
    (ends : Ends result overflow holds) (further : overflow → overflow') : Ends result overflow' holds := by
  rcases ends with done | ⟨after, failed, overflows⟩
  · exact Or.inl done
  · exact Or.inr ⟨after, failed, further overflows⟩

section

variable {out : List UInt8} {maxolen : Nat} {text : List UInt8} {state : Encoding}

theorem Wrote.push (wrote : Wrote out maxolen text state) (fits : maxolen ≤ out.length) (c : UInt8) :
    Ends (state.push maxolen c) (maxolen ≤ text.length + 1) fun after => Wrote out maxolen (text ++ [c]) after ∧
      after.ilen = state.ilen ∧ after.bits = state.bits ∧ after.buf = state.buf := by
  have room := wrote.room
  rw [Encoding.push]
  by_cases full : state.olen ≥ maxolen - 1
  · rw [if_pos full]
    refine Or.inr ⟨_, rfl, ?_⟩
    rw [wrote.olen] at full
    omega
  · rw [if_neg full]
    rw [wrote.olen] at full
    refine Or.inl ⟨_, rfl, ⟨?_, ?_, ?_⟩, rfl, rfl, rfl⟩
    · rw [List.length_append, wrote.olen]
      rfl
    · dsimp only
      rw [wrote.out, wrote.olen]
      exact written_push (by omega) c
    · rw [List.length_append, List.length_singleton]
      omega

end

end Encoding

/-! ## Encoding -/

def BaseCfg.char (cfg : BaseCfg) (digit : Nat) : UInt8 := cfg.binmap.getD digit 0

namespace Encoding

/-- The bytes that were read are regrouped to the digits that were written. -/
structure Encodes (cfg : BaseCfg) (out : List UInt8) (maxolen : Nat) (taken : List UInt8) (digits : List Nat)
    (state : Encoding) : Prop where
  wrote : Wrote out maxolen (digits.map cfg.char) state
  ilen : state.ilen = taken.length
  regrouped : Regrouped 8 cfg.shval (taken.map UInt8.toNat) digits state.bits (state.buf % 2 ^ state.bits)

section

variable {encoder decoder : BaseCfg} {shval : Nat} {out : List UInt8} {maxolen : Nat} {taken : List UInt8}

theorem Encodes.pushBits (alphabet : Alphabet encoder decoder shval) (fits : maxolen ≤ out.length) {fuel : Nat}
    {digits : List Nat} {state : Encoding} (encodes : Encodes encoder out maxolen taken digits state)
    (enough : state.bits ≤ fuel) :
    Ends (Encoding.pushBits encoder maxolen fuel state) (maxolen * shval ≤ taken.length * 8) fun after =>
      ∃ digits, Encodes encoder out maxolen taken digits after ∧ after.bits < shval := by
  have positive := alphabet.positive
  have isShval := alphabet.encodes
  induction fuel generalizing digits state with
  | zero => exact Or.inl ⟨state, rfl, digits, encodes, by omega⟩
  | succ fuel ih =>
      rw [Encoding.pushBits]
      by_cases more : state.bits ≥ encoder.shval
      · rw [if_pos more]
        have regrouped := encodes.regrouped.write more
        have digit : (state.buf >>> (state.bits - encoder.shval)) &&& (encoder.bits - 1) =
            state.buf % 2 ^ state.bits / 2 ^ (state.bits - encoder.shval) := by
          rw [alphabet.bits, ← isShval]
          exact Radix.shift_out _ more
        have total := encodes.regrouped.length
        have overflows : maxolen ≤ (digits.map encoder.char).length + 1 → maxolen * shval ≤ taken.length * 8 := by
          intro full
          rw [List.length_map] at full total
          have product := Nat.mul_le_mul_right shval full
          rw [Nat.add_mul, Nat.one_mul] at product
          rw [isShval] at total more
          omega
        dsimp only
        rw [digit]
        refine Ends.bind ((encodes.wrote.push fits _).weaken overflows) ?_
        rintro after ⟨wrote, ilen, bits, buf⟩
        have rest : after.buf % 2 ^ (after.bits - encoder.shval) =
            state.buf % 2 ^ state.bits % 2 ^ (state.bits - encoder.shval) := by
          rw [bits, buf]
          exact Radix.mod_low _ _ _
        have next : Encodes encoder out maxolen taken
            (digits ++ [state.buf % 2 ^ state.bits / 2 ^ (state.bits - encoder.shval)])
            { after with bits := after.bits - encoder.shval } := by
          refine ⟨?_, ilen.trans encodes.ilen, ?_⟩
          · rw [List.map_append]
            exact ⟨wrote.olen, wrote.out, wrote.room⟩
          · dsimp only
            rw [rest, bits]
            exact regrouped
        apply ih next
        dsimp only
        omega
      · rw [if_neg more]
        exact Or.inl ⟨state, rfl, digits, encodes, by omega⟩

theorem Encodes.readAll (alphabet : Alphabet encoder decoder shval) (fits : maxolen ≤ out.length) {input : List UInt8}
    {digits : List Nat} {state : Encoding} (encodes : Encodes encoder out maxolen taken digits state)
    (few : state.bits < shval) :
    Ends (Encoding.readAll encoder maxolen input state) (maxolen * shval ≤ (taken ++ input).length * 8) fun after =>
      ∃ digits, Encodes encoder out maxolen (taken ++ input) digits after ∧ after.bits < shval := by
  have narrow := alphabet.narrow
  induction input generalizing taken digits state with
  | nil =>
      rw [List.append_nil]
      exact Or.inl ⟨state, rfl, digits, encodes, few⟩
  | cons byte input ih =>
      have small : byte.toNat < 2 ^ 8 := byte.toNat_lt
      have read := encodes.regrouped.read small
      have buffered := @Radix.shift_in state.bits 8 state.buf byte.toNat (by omega) small
      have loaded : Encodes encoder out maxolen (taken ++ [byte]) digits { state with
          buf := ((state.buf <<< 8) % 2 ^ 32) ||| byte.toNat, ilen := state.ilen + 1, bits := state.bits + 8 } := by
        refine ⟨⟨encodes.wrote.olen, encodes.wrote.out, encodes.wrote.room⟩, ?_, ?_⟩
        · rw [List.length_append, encodes.ilen]
          rfl
        · dsimp only
          rw [List.map_append, buffered]
          exact read
      rw [Encoding.readAll]
      refine Ends.bind ((loaded.pushBits alphabet fits (Nat.le_refl _)).weaken ?_) ?_
      · intro overflow
        rw [List.length_append] at overflow ⊢
        rw [List.length_cons]
        rw [List.length_singleton] at overflow
        omega
      · rintro after ⟨digits, isAfter, few⟩
        have further := ih isAfter few
        rw [List.append_assoc] at further
        exact further

end

end Encoding

/-- The number of characters for the bits of some bytes. -/
def digitCount (shval bytes : Nat) : Nat := (bytes * 8 + (shval - 1)) / shval

/-- How many equals signs are behind some characters. -/
def BaseCfg.padCount (cfg : BaseCfg) (digits : Nat) : Nat := if cfg.wantpadding then (4 - digits % 4) % 4 else 0

def BaseCfg.text (cfg : BaseCfg) (digits : List Nat) : List UInt8 :=
  digits.map cfg.char ++ List.replicate (cfg.padCount digits.length) 61

theorem BaseCfg.text_length (cfg : BaseCfg) (digits : List Nat) :
    (cfg.text digits).length = digits.length + cfg.padCount digits.length := by
  rw [text, List.length_append, List.length_map, List.length_replicate]

theorem filled_length {shval : Nat} {input : List UInt8} {digits : List Nat}
    (filled : Filled 8 shval (input.map UInt8.toNat) digits) : digits.length = digitCount shval input.length := by
  rw [filled.length_eq, List.length_map]
  rfl

namespace Encoding

section

variable {encoder decoder : BaseCfg} {shval : Nat} {out : List UInt8} {maxolen : Nat} {input : List UInt8}

/-- All bytes are regrouped, and the last character is filled with zeros. -/
structure Finished (cfg : BaseCfg) (out : List UInt8) (maxolen : Nat) (input : List UInt8) (digits : List Nat)
    (state : Encoding) : Prop where
  wrote : Wrote out maxolen (digits.map cfg.char) state
  ilen : state.ilen = input.length
  filled : Filled 8 cfg.shval (input.map UInt8.toNat) digits
  left : (state.bits + (digits.length * cfg.shval - input.length * 8)) % 8 = 0

theorem Encodes.pushLast (alphabet : Alphabet encoder decoder shval) (fits : maxolen ≤ out.length) {digits : List Nat}
    {state : Encoding} (encodes : Encodes encoder out maxolen input digits state) (few : state.bits < shval) :
    Ends (state.pushLast encoder maxolen) (maxolen ≤ digitCount shval input.length) fun after =>
      ∃ digits, Finished encoder out maxolen input digits after := by
  have positive := alphabet.positive
  have narrow := alphabet.narrow
  have isShval := alphabet.encodes
  have total := encodes.regrouped.length
  rw [List.length_map] at total
  rw [Encoding.pushLast]
  by_cases some : state.bits ≠ 0
  · rw [if_pos some]
    have filled := encodes.regrouped.fill (Nat.pos_of_ne_zero some) (by omega)
    have count := filled_length filled
    rw [List.length_append, List.length_singleton, isShval] at count
    have digit : ((state.buf <<< (encoder.shval - state.bits)) % 2 ^ 32) &&& (encoder.bits - 1) =
        state.buf % 2 ^ state.bits * 2 ^ (encoder.shval - state.bits) := by
      rw [alphabet.bits, ← isShval]
      exact Radix.shift_last _ (by omega) (by omega)
    dsimp only
    rw [digit]
    refine Ends.bind ((encodes.wrote.push fits _).weaken ?_) ?_
    · intro full
      rw [List.length_map] at full
      omega
    · rintro after ⟨wrote, ilen, bits, -⟩
      refine Or.inl ⟨_, rfl, digits ++ [state.buf % 2 ^ state.bits * 2 ^ (encoder.shval - state.bits)], ?_, ?_,
        filled, ?_⟩
      · rw [List.map_append]
        exact ⟨wrote.olen, wrote.out, wrote.room⟩
      · exact ilen.trans encodes.ilen
      · dsimp only
        rw [List.length_append, List.length_singleton, Nat.add_mul, ← total]
        omega
  · rw [if_neg some]
    have none := not_not.mp some
    have regrouped := encodes.regrouped
    rw [none] at regrouped total
    refine Or.inl ⟨state, rfl, digits, encodes.wrote, encodes.ilen, regrouped.filled (by omega), ?_⟩
    rw [none, ← total]
    omega

/-- The loop writes the equals signs that are missing. -/
theorem Wrote.pad (six : encoder.shval = 6) (fits : maxolen ≤ out.length) {text : List UInt8} {count fuel : Nat}
    {state : Encoding}
    (wrote : Wrote out maxolen text state) (few : count ≤ 3) (left : (state.bits + 2 * count) % 8 = 0)
    (enough : maxolen ≤ text.length + fuel) :
    Ends (Encoding.pad encoder maxolen fuel state) (maxolen ≤ text.length + count) fun after =>
      Wrote out maxolen (text ++ List.replicate count 61) after ∧ after.ilen = state.ilen := by
  have room := wrote.room
  induction count generalizing text fuel state with
  | zero =>
      rcases fuel with _ | fuel
      · omega
      rw [Encoding.pad, if_neg (by omega), List.replicate_zero, List.append_nil]
      exact Or.inl ⟨state, rfl, wrote, rfl⟩
  | succ count ih =>
      rcases fuel with _ | fuel
      · omega
      rw [Encoding.pad, if_pos (by omega)]
      refine Ends.bind ((wrote.push fits 61).weaken ?_) ?_
      · intro full
        omega
      · rintro after ⟨wrote, ilen, bits, -⟩
        have longer : (text ++ [61]).length = text.length + 1 := List.length_append
        have further := @ih (text ++ [61]) fuel { after with bits := after.bits + (8 - encoder.shval) }
          ⟨wrote.olen, wrote.out, wrote.room⟩ (by omega) (by dsimp only; omega) (by omega) wrote.room
        rw [List.append_assoc, List.singleton_append, ← List.replicate_succ, longer, Nat.add_assoc,
          Nat.add_comm 1] at further
        rw [← ilen]
        exact further

/-- The whole of `encode` for some bytes. -/
theorem encodes_all (alphabet : Alphabet encoder decoder shval) (fits : maxolen ≤ out.length) (some : 0 < maxolen)
    (input : List UInt8) :
    Ends (Encoding.readAll encoder maxolen input ⟨out, 0, 0, 0, 0⟩ >>= Encoding.finish encoder maxolen)
      (maxolen ≤ digitCount shval input.length + encoder.padCount (digitCount shval input.length)) fun after =>
      ∃ digits, Filled 8 encoder.shval (input.map UInt8.toNat) digits ∧ Wrote out maxolen (encoder.text digits) after ∧
        after.ilen = input.length := by
  have positive := alphabet.positive
  have isShval := alphabet.encodes
  have start : Encodes encoder out maxolen [] [] ⟨out, 0, 0, 0, 0⟩ :=
    ⟨⟨rfl, rfl, some⟩, rfl, Regrouped.start⟩
  have read := @Encodes.readAll encoder decoder shval out maxolen [] alphabet fits input [] _ start positive
  rw [List.nil_append] at read
  refine Ends.bind (read.weaken ?_) ?_
  · intro overflow
    have bound : maxolen ≤ digitCount shval input.length := by
      rw [digitCount, Nat.le_div_iff_mul_le positive]
      omega
    omega
  · rintro middle ⟨digits, isMiddle, few⟩
    rw [Encoding.finish]
    refine Ends.bind ((isMiddle.pushLast alphabet fits few).weaken fun full => by omega) ?_
    rintro last ⟨digits, finished⟩
    have count := filled_length finished.filled
    rw [isShval] at count
    by_cases padded : encoder.wantpadding = true
    · rw [if_pos padded]
      have six := (alphabet.six padded).1
      rcases finished.filled.fill with ⟨fill, less, total, -⟩
      have left := finished.left
      rw [List.length_map] at total
      rw [isShval, six] at total less left
      have isPad : encoder.padCount digits.length = fill / 2 := by
        rw [BaseCfg.padCount, if_pos padded]
        omega
      have pads := @Wrote.pad encoder out maxolen (isShval.trans six) fits _ (fill / 2) maxolen _ finished.wrote
        (by omega)
        (by omega) (Nat.le_add_left _ _)
      rw [List.length_map, ← isPad, count] at pads
      rcases pads with ⟨after, done, wrote, ilen⟩ | failed
      · refine Or.inl ⟨after, done, digits, finished.filled, ?_, ilen.trans finished.ilen⟩
        rw [BaseCfg.text, count]
        exact wrote
      · exact Or.inr failed
    · rw [if_neg padded]
      have noPad : encoder.padCount digits.length = 0 := if_neg padded
      refine Or.inl ⟨last, rfl, digits, finished.filled, ?_, finished.ilen⟩
      rw [BaseCfg.text, noPad, List.replicate_zero, List.append_nil]
      exact finished.wrote

end

end Encoding

section

variable {encoder decoder : BaseCfg} {shval : Nat}

theorem exists_filled (alphabet : Alphabet encoder decoder shval) (input : List UInt8) :
    ∃ digits, Filled 8 shval (input.map UInt8.toNat) digits := by
  have ends := @Encoding.encodes_all encoder decoder shval
    (List.replicate (digitCount shval input.length + encoder.padCount (digitCount shval input.length) + 1) 0) _ alphabet
    (Nat.le_of_eq List.length_replicate.symm) (Nat.succ_pos _) input
  rcases ends with ⟨after, -, digits, filled, -⟩ | ⟨after, -, overflow⟩
  · rw [alphabet.encodes] at filled
    exact ⟨digits, filled⟩
  · omega

/-- Encoding writes the text, or reports that there is no room for it and its
NUL. -/
theorem encode_eq (alphabet : Alphabet encoder decoder shval) {input : List UInt8} {digits : List Nat}
    (filled : Filled 8 shval (input.map UInt8.toNat) digits) {out : List UInt8} {olen : Nat}
    (fits : olen ≤ out.length) :
    (olen < (encoder.text digits).length + 1 ∧ (encode encoder out olen input).error = some outputOverflow) ∨
      ((encoder.text digits).length + 1 ≤ olen ∧ encode encoder out olen input =
        ⟨none, encoder.text digits ++ 0 :: out.drop ((encoder.text digits).length + 1), (encoder.text digits).length,
          input.length⟩) := by
  have positive := alphabet.positive
  have count := filled_length filled
  rw [encode]
  by_cases zero : olen = 0
  · rw [if_pos zero]
    exact Or.inl ⟨by omega, rfl⟩
  rw [if_neg zero]
  by_cases empty : input.length = 0
  · rw [if_pos empty]
    have noDigits : digits = [] := by
      apply List.eq_nil_of_length_eq_zero
      rw [count, empty, digitCount, Nat.zero_mul, Nat.zero_add]
      exact Nat.div_eq_of_lt (by omega)
    have noText : encoder.text digits = [] := by
      apply List.eq_nil_of_length_eq_zero
      rw [BaseCfg.text_length, noDigits, BaseCfg.padCount]
      cases encoder.wantpadding with
      | false => rfl
      | true => rfl
    refine Or.inr ⟨by rw [noText]; exact Nat.pos_of_ne_zero zero, ?_⟩
    rw [noText, empty]
    rcases out with _ | ⟨first, out⟩
    · simp at fits
      omega
    · rfl
  · rw [if_neg empty]
    have length := encoder.text_length digits
    rcases Encoding.encodes_all alphabet fits (Nat.pos_of_ne_zero zero) input with
      ⟨after, done, digits', filled', wrote, ilen⟩ | ⟨after, failed, overflow⟩
    · rw [alphabet.encodes] at filled'
      have same := filled.unique positive filled'
      rw [← same] at wrote
      refine Or.inr ⟨wrote.room, ?_⟩
      have some : encoder.text digits ≠ [] := by
        intro none
        have noDigits : digits.length = 0 := by
          rw [none, List.length_nil] at length
          omega
        rw [count, digitCount, Nat.div_eq_zero_iff] at noDigits
        omega
      rw [done]
      dsimp only
      rw [wrote.out, wrote.olen, ilen, written, if_neg some]
    · rw [failed]
      refine Or.inl ⟨?_, rfl⟩
      rw [length, count]
      omega

end

/-! ## Decoding -/

namespace Decoding

/-- The digits that were read are regrouped to the bytes that were written. -/
structure Decodes (cfg : BaseCfg) (out : List UInt8) (maxolen : Nat) (taken : List Nat) (back : List UInt8)
    (state : Decoding) : Prop where
  ilen : state.ilen = taken.length
  padding : state.padding = 0
  olen : state.olen = back.length
  out : state.out = back ++ out.drop back.length
  room : back.length ≤ maxolen
  few : state.bits < 8
  regrouped : Regrouped cfg.shval 8 taken (back.map UInt8.toNat) state.bits (state.buf % 2 ^ state.bits)

section

variable {encoder decoder : BaseCfg} {shval : Nat} {out : List UInt8} {maxolen : Nat} {taken : List Nat}
    {back : List UInt8}
  {state : Decoding}

theorem Decodes.readBits (alphabet : Alphabet encoder decoder shval) (fits : maxolen ≤ out.length)
    (decodes : Decodes decoder out maxolen taken back state) {digit : Nat} (small : digit < 2 ^ shval) :
    (∃ after back, state.readBits decoder maxolen digit = .ok after ∧
      Decodes decoder out maxolen (taken ++ [digit]) back after) ∨
      ∃ after, state.readBits decoder maxolen digit = .error after ∧
        (maxolen + 1) * 8 ≤ (taken.length + 1) * shval := by
  have narrow := alphabet.narrow
  have isShval := alphabet.decodes
  have few := decodes.few
  have total := decodes.regrouped.length
  rw [List.length_map] at total
  have read := decodes.regrouped.read (isShval.symm ▸ small)
  have buffered := @Radix.shift_in state.bits decoder.shval state.buf digit (by omega) (isShval.symm ▸ small)
  rw [Decoding.readBits]
  dsimp only
  by_cases byte : state.bits + decoder.shval ≥ 8
  · rw [if_pos byte]
    by_cases full : state.olen ≥ maxolen
    · rw [if_pos full]
      refine Or.inr ⟨_, rfl, ?_⟩
      rw [decodes.olen] at full
      rw [isShval] at total byte
      rw [Nat.add_mul, Nat.add_mul, ← total]
      omega
    · rw [if_neg full]
      rw [decodes.olen] at full
      have write := read.write byte
      have isByte := Radix.shift_out (((state.buf <<< decoder.shval) % 2 ^ 32) ||| digit) byte
      rw [buffered] at isByte
      have bound : (state.buf % 2 ^ state.bits * 2 ^ decoder.shval + digit) / 2 ^ (state.bits +
        decoder.shval - 8) < 2 ^ 8 :=
        write.small _ (List.mem_append_right _ (List.mem_singleton_self _))
      have next : out.drop back.length = out[back.length] :: out.drop (back.length + 1) :=
        List.drop_eq_getElem_cons (by omega)
      refine Or.inl ⟨_, back ++ [UInt8.ofNat ((((state.buf <<< decoder.shval) % 2 ^ 32) ||| digit) >>>
        (state.bits + decoder.shval - 8) &&& 255)], rfl, ?_, decodes.padding, ?_, ?_, ?_, ?_, ?_⟩
      · rw [List.length_append, decodes.ilen]
        rfl
      · rw [List.length_append, decodes.olen]
        rfl
      · dsimp only
        rw [decodes.out, decodes.olen, List.set_append_right _ _ (Nat.le_refl _), Nat.sub_self, next,
          List.set_cons_zero,
          List.length_append, List.length_singleton, List.append_assoc]
        rfl
      · rw [List.length_append, List.length_singleton]
        omega
      · dsimp only
        omega
      · dsimp only
        rw [List.map_append, List.map_singleton, show (255 : Nat) = 2 ^ 8 - 1 from rfl, isByte,
          UInt8.toNat_ofNat_of_lt' bound,
          Radix.mod_low _ (state.bits + decoder.shval) 8, buffered]
        exact write
  · rw [if_neg byte]
    refine Or.inl ⟨_, back, rfl, ?_, decodes.padding, decodes.olen, decodes.out, decodes.room, ?_, ?_⟩
    · rw [List.length_append, decodes.ilen]
      rfl
    · dsimp only
      omega
    · dsimp only
      rw [buffered]
      exact read

/-- The characters of an encoding are read one after another. -/
theorem Decodes.loop (alphabet : Alphabet encoder decoder shval) (fits : maxolen ≤ out.length) (skip : Bool)
    (decodes : Decodes decoder out maxolen taken back state) {digits : List Nat} (small : Radix.Small shval digits)
    (rest : List UInt8) :
    (∃ after back, Decoding.loop decoder skip maxolen (digits.map encoder.char ++ rest) state =
        Decoding.loop decoder skip maxolen rest after ∧ Decodes decoder out maxolen (taken ++ digits) back after) ∨
      ∃ after, Decoding.loop decoder skip maxolen (digits.map encoder.char ++ rest) state = .error after ∧
        (maxolen + 1) * 8 ≤ (taken ++ digits).length * shval := by
  induction digits generalizing taken back state with
  | nil =>
      rw [List.append_nil]
      exact Or.inl ⟨state, back, rfl, decodes⟩
  | cons digit digits ih =>
      have bound := small digit List.mem_cons_self
      have under : digit < 64 :=
        Nat.lt_of_lt_of_le bound (Nat.pow_le_pow_right (by decide) alphabet.narrow)
      have known : decoder.txtmap.getD (encoder.char digit).toNat invalid = digit := (alphabet.inverse digit bound).1
      have step : Decoding.loop decoder skip maxolen (encoder.char digit :: (digits.map encoder.char ++ rest)) state =
          (state.readBits decoder maxolen digit >>= Decoding.loop decoder skip maxolen (digits.map encoder.char ++
            rest)) := by
        rw [Decoding.loop]
        dsimp only
        rw [if_neg (fun is => absurd (known.symm.trans is.1) (by unfold ws; omega)),
          if_neg (by rw [known]; unfold ws invalid; omega), if_neg (by rw [known]; unfold eq; omega),
          if_neg (not_not.mpr decodes.padding), known]
      rw [List.map_cons, List.cons_append, step]
      rcases decodes.readBits alphabet fits bound with ⟨after, back, done, isAfter⟩ | ⟨after, failed, overflow⟩
      · have further := ih isAfter fun other member => small other (List.mem_cons_of_mem _ member)
        rw [List.append_assoc, List.singleton_append] at further
        rw [done]
        exact further
      · rw [failed]
        refine Or.inr ⟨after, rfl, ?_⟩
        refine Nat.le_trans overflow (Nat.mul_le_mul_right _ ?_)
        rw [List.length_append, List.length_cons]
        omega

theorem loop_pad (alphabet : Alphabet encoder decoder shval) (padded : encoder.wantpadding = true) (skip : Bool)
    {count : Nat}
    (few : count ≤ 3) (left : (state.bits + state.padding + 6 * count) % 8 = 0) (short : state.bits < 6) :
    Decoding.loop decoder skip maxolen (List.replicate count 61) state =
      .ok { state with ilen := state.ilen + count, padding := state.padding + 6 * count } := by
  have known : decoder.txtmap.getD (61 : UInt8).toNat invalid = eq := (alphabet.six padded).2
  have six : decoder.shval = 6 := alphabet.decodes.trans (alphabet.six padded).1
  have wanted := alphabet.padding.trans padded
  induction count generalizing state with
  | zero => rfl
  | succ count ih =>
      rw [List.replicate_succ, Decoding.loop]
      dsimp only
      rw [if_neg (fun is => absurd (known.symm.trans is.1) (by decide)), if_neg (by rw [known]; decide), if_pos known,
        if_pos ⟨wanted, by omega⟩, if_neg (by omega), six]
      by_cases last : count = 0
      · rw [if_pos (by omega), last]
      · have further := @ih { state with ilen := state.ilen + 1, padding := state.padding + 6 } (by omega)
          (by dsimp only; omega) short
        rw [if_neg (by omega), further]
        simp only [Except.ok.injEq, Decoding.mk.injEq, and_true, true_and]
        omega

end

end Decoding

theorem toNat_injective : Function.Injective (List.map UInt8.toNat) :=
  List.map_injective_iff.mpr fun _ _ => UInt8.toNat_inj.mp

section

variable {encoder decoder : BaseCfg} {shval : Nat}

/-- Decoding the text writes the bytes, or reports that there is no room for
them. -/
theorem decode_eq (alphabet : Alphabet encoder decoder shval) {input : List UInt8} {digits : List Nat}
    (filled : Filled 8 shval (input.map UInt8.toNat) digits) (skip : Bool) {out : List UInt8} {olen : Nat}
    (fits : olen ≤ out.length) :
    (olen < input.length ∧ (decode decoder skip out olen (encoder.text digits)).error = some outputOverflow) ∨
      (input.length ≤ olen ∧ decode decoder skip out olen (encoder.text digits) =
        ⟨none, input ++ out.drop input.length, input.length, (encoder.text digits).length⟩) := by
  have narrow := alphabet.narrow
  have start : Decoding.Decodes decoder out olen [] [] ⟨out, 0, 0, 0, 0, 0⟩ :=
    ⟨rfl, rfl, rfl, rfl, Nat.zero_le _, Nat.zero_lt_succ 7, Regrouped.start⟩
  rcases filled.fill with ⟨fill, less, total, -⟩
  rw [List.length_map] at total
  have length := encoder.text_length digits
  rw [decode, BaseCfg.text]
  rcases start.loop alphabet fits skip filled.small (List.replicate (encoder.padCount digits.length) 61) with
    ⟨after, back, read, isAfter⟩ | ⟨after, failed, overflow⟩
  · rw [List.nil_append] at isAfter
    rw [read]
    have regrouped := isAfter.regrouped
    rw [alphabet.decodes] at regrouped
    have small : Radix.Small 8 (input.map UInt8.toNat) := by
      intro digit member
      rcases List.mem_map.mp member with ⟨byte, -, rfl⟩
      exact byte.toNat_lt
    have result := filled.back small (by omega) regrouped isAfter.few
    have same : back = input := toNat_injective result.1
    have bits : after.bits = fill := by
      rw [List.length_map] at result
      omega
    have padding := isAfter.padding
    have room := isAfter.room
    have olen := isAfter.olen
    have written := isAfter.out
    rw [same] at room olen written
    refine Or.inr ⟨room, ?_⟩
    by_cases padded : encoder.wantpadding = true
    · have six := (alphabet.six padded).1
      rw [six] at total less
      have isPad : encoder.padCount digits.length = fill / 2 := by
        rw [BaseCfg.padCount, if_pos padded]
        omega
      rw [isPad, Decoding.loop_pad alphabet padded skip (by omega) (by omega) (by omega)]
      dsimp only
      rw [if_neg (by omega), List.length_append, List.length_map, List.length_replicate, isAfter.ilen, olen, written]
    · have noPad : encoder.padCount digits.length = 0 := if_neg padded
      have unwanted : ¬ decoder.wantpadding = true := by
        rw [alphabet.padding]
        exact padded
      have short : ¬ (after.padding = 0 ∧ after.bits ≥ decoder.shval ∧ after.bits < 8) := by
        rw [alphabet.decodes]
        omega
      rw [noPad, List.replicate_zero, List.append_nil, List.length_map, Decoding.loop]
      dsimp only
      rw [if_neg unwanted, if_neg short, ite_self, isAfter.ilen, olen, written]
  · rw [failed]
    refine Or.inl ⟨?_, rfl⟩
    rw [List.nil_append] at overflow
    omega

end

/-! ## The alphabets -/

def Base.shval : Base → Nat
  | .base16 => 4
  | .base32 => 5
  | .base32hex => 5
  | .base64 => 6
  | .base64url => 6

theorem Base.alphabet (base : Base) : Alphabet base.encoder base.decoder base.shval := by
  cases base with
  | base16 => exact ⟨rfl, rfl, rfl, by decide, by decide, rfl, fun padded => Bool.noConfusion padded, by decide⟩
  | base32 => exact ⟨rfl, rfl, rfl, by decide, by decide, rfl, fun padded => Bool.noConfusion padded, by decide⟩
  | base32hex => exact ⟨rfl, rfl, rfl, by decide, by decide, rfl, fun padded => Bool.noConfusion padded, by decide⟩
  | base64 => exact ⟨rfl, rfl, rfl, by decide, by decide, rfl, fun _ => ⟨rfl, rfl⟩, by decide⟩
  | base64url => exact ⟨rfl, rfl, rfl, by decide, by decide, rfl, fun padded => Bool.noConfusion padded, by decide⟩

/-- The length of the text for some bytes in RFC 4648: two characters for each
byte, eight for five bytes, or four for three bytes; only base64 is padded. -/
def Base.textLength (base : Base) (bytes : Nat) : Nat :=
  match base with
  | .base16 => 2 * bytes
  | .base32 | .base32hex => (8 * bytes + 4) / 5
  | .base64 => 4 * ((bytes + 2) / 3)
  | .base64url => (4 * bytes + 2) / 3

theorem Base.text_length (base : Base) {input : List UInt8} {digits : List Nat}
    (filled : Filled 8 base.shval (input.map UInt8.toNat) digits) :
    (base.encoder.text digits).length = base.textLength input.length := by
  rw [BaseCfg.text_length, filled_length filled]
  cases base with
  | base16 =>
      change (input.length * 8 + 3) / 4 + 0 = 2 * input.length
      omega
  | base32 =>
      change (input.length * 8 + 4) / 5 + 0 = (8 * input.length + 4) / 5
      omega
  | base32hex =>
      change (input.length * 8 + 4) / 5 + 0 = (8 * input.length + 4) / 5
      omega
  | base64 =>
      change (input.length * 8 + 5) / 6 + (4 - (input.length * 8 + 5) / 6 % 4) % 4 = 4 * ((input.length + 2) / 3)
      omega
  | base64url =>
      change (input.length * 8 + 5) / 6 + 0 = (4 * input.length + 2) / 3
      omega

/-- The bytes that are encoded come back from decoding, and either direction
overflows exactly when its buffer is too small. -/
theorem base_round_trip (base : Base) (input : List UInt8) :
    ∃ text, text.length = base.textLength input.length ∧ 0 ∉ text ∧
    (∀ out olen, olen ≤ out.length →
      ((baseEncode base out olen input).error = some outputOverflow ↔ olen < text.length + 1) ∧
      (text.length + 1 ≤ olen → baseEncode base out olen input =
        ⟨none, text ++ 0 :: out.drop (text.length + 1), text.length, input.length⟩)) ∧
    ∀ skipWhitespace out olen, olen ≤ out.length →
      ((baseDecode base skipWhitespace out olen text).error = some outputOverflow ↔ olen < input.length) ∧
      (input.length ≤ olen → baseDecode base skipWhitespace out olen text =
        ⟨none, input ++ out.drop input.length, input.length, text.length⟩) := by
  have alphabet := base.alphabet
  rcases exists_filled alphabet input with ⟨digits, filled⟩
  refine ⟨base.encoder.text digits, base.text_length filled, ?_, ?_, ?_⟩
  · intro zero
    rcases List.mem_append.mp zero with char | pad
    · rcases List.mem_map.mp char with ⟨digit, member, isZero⟩
      exact (alphabet.inverse digit (filled.small digit member)).2 isZero
    · exact absurd (List.eq_of_mem_replicate pad) (by decide)
  · intro out olen fits
    rw [baseEncode]
    rcases encode_eq alphabet filled fits with ⟨small, failed⟩ | ⟨large, done⟩
    · exact ⟨iff_of_true failed small, fun large => absurd large (by omega)⟩
    · refine ⟨iff_of_false ?_ (by omega), fun _ => done⟩
      rw [done]
      intro error
      cases error
  · intro skipWhitespace out olen fits
    have flags : ∃ skip, baseDecode base skipWhitespace out olen (base.encoder.text digits) =
        decode base.decoder skip out olen (base.encoder.text digits) := by
      cases base with
      | base64url => exact ⟨false, rfl⟩
      | _ => exact ⟨skipWhitespace, rfl⟩
    rcases flags with ⟨skip, isDecode⟩
    rw [isDecode]
    rcases decode_eq alphabet filled skip fits with ⟨small, failed⟩ | ⟨large, done⟩
    · exact ⟨iff_of_true failed small, fun large => absurd large (by omega)⟩
    · refine ⟨iff_of_false ?_ (by omega), fun _ => done⟩
      rw [done]
      intro error
      cases error

example : baseEncode .base64 (List.replicate 9 7) 9 [77, 97, 110, 1] =
  ⟨none, [84, 87, 70, 117, 65, 81, 61, 61, 0], 8, 4⟩ := by
  decide

end KitBaseEncode
end LibKit
