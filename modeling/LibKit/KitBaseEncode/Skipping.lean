import LibKit.KitBaseEncode.Reading

namespace LibKit
namespace KitBaseEncode

open Radix (Regrouped)

/-!
# Skipping white space

Decoding with white space skipped writes what decoding without it writes, and
what was read can be decoded alone.  The character that is given back at the end
is the last one that was read, which need not be the last digit.
-/

/-! ## Removing white space -/

/-- The text without its tabs, newlines and spaces. -/
def removed (text : List UInt8) : List UInt8 := text.filter fun c => ¬ (c = 9 ∨ c = 10 ∨ c = 32)

theorem Base.isSpace_iff (base : Base) : ∀ c, base.decoder.isSpace c = true ↔ c = 9 ∨ c = 10 ∨ c = 32 := by
  cases base with
  | _ =>
      apply Bytes.forall_bytes
      decide +kernel

namespace Decoding

/-- A state but for the number of characters that were read. -/
def strip : Except Decoding Decoding → Except Decoding Decoding
  | .ok state => .ok { state with ilen := 0 }
  | .error state => .error { state with ilen := 0 }

section

variable {decoder : BaseCfg} {skip : Bool} {maxolen : Nat}

theorem strip_readBits {first second : Decoding → Except Decoding Decoding} (state : Decoding) (ilen digit : Nat)
    (same : ∀ after ilen, strip (first { after with ilen := ilen }) = strip (second after)) :
    strip ({ state with ilen := ilen }.readBits decoder maxolen digit >>= first) =
      strip (state.readBits decoder maxolen digit >>= second) := by
  rcases @readBits_ilen decoder maxolen state ilen digit with ⟨ok, error⟩
  cases read : { state with ilen := ilen }.readBits decoder maxolen digit with
  | ok after =>
      rw [ok after read]
      exact same { after with ilen := state.ilen + 1 } after.ilen
  | error after =>
      rw [error after read]
      rfl

theorem readBits_counts {state after : Decoding} {digit : Nat}
    (read : state.readBits decoder maxolen digit = .ok after) :
    after.ilen = state.ilen + 1 := by
  have again := (readBits_ilen state state.ilen digit).1 after read
  have same := Except.ok.inj (read.symm.trans again)
  exact congrArg Decoding.ilen same

/-- White space changes nothing but the number of characters that are read. -/
theorem strip_loop {isRemoved : UInt8 → Bool} (spaces : ∀ c, isRemoved c = decoder.isSpace c) (text : List UInt8)
    (state : Decoding) (ilen : Nat) :
    strip (Decoding.loop decoder skip maxolen (text.filter fun c => !isRemoved c) { state with ilen := ilen }) =
      strip (Decoding.loop decoder true maxolen text state) := by
  induction text generalizing state ilen with
  | nil => rfl
  | cons c text ih =>
      by_cases space : decoder.isSpace c = true
      · rw [List.filter_cons_of_neg (by rw [spaces, space]; exact Bool.false_ne_true), loop_space space]
        exact ih { state with ilen := state.ilen + 1 } ilen
      · have notWs : decoder.value c ≠ ws := fun isWs => space (decide_eq_true isWs)
        have first := @loop_cons decoder skip maxolen c (text.filter fun c => !isRemoved c) { state with ilen := ilen }
        have second := @loop_cons decoder true maxolen c text state
        rw [if_neg fun is => notWs is.1] at first second
        rw [List.filter_cons_of_pos (by rw [spaces, Bool.eq_false_iff.mpr space]; rfl), first, second]
        by_cases bad : decoder.value c = ws ∨ decoder.value c = invalid
        · rw [if_pos bad, if_pos bad]
          rfl
        rw [if_neg bad, if_neg bad]
        by_cases equals : decoder.value c = eq
        · rw [if_pos equals, if_pos equals]
          dsimp only
          by_cases needed : decoder.wantpadding = true ∧ (state.bits + state.padding) % 8 ≠ 0
          · rw [if_pos needed, if_pos needed]
            by_cases single : state.padding = 0 ∧ state.bits ≥ decoder.shval ∧ state.bits < 8
            · rw [if_pos single, if_pos single]
              rfl
            rw [if_neg single, if_neg single]
            by_cases complete : (state.bits + (state.padding + decoder.shval)) % 8 = 0
            · rw [if_pos complete, if_pos complete]
              rfl
            · rw [if_neg complete, if_neg complete]
              exact ih { state with ilen := state.ilen + 1, padding := state.padding + decoder.shval } _
          · rw [if_neg needed, if_neg needed]
            rfl
        · rw [if_neg equals, if_neg equals]
          by_cases padding : state.padding ≠ 0
          · rw [if_pos padding, if_pos padding]
            rfl
          · rw [if_neg padding, if_neg padding]
            exact strip_readBits state ilen _ ih

/-- The characters that are read decide what happens. -/
theorem loop_front {text : List UInt8} {state after : Decoding}
    (done : Decoding.loop decoder skip maxolen text state = .ok after) :
    ∃ front behind, text = front ++ behind ∧ after.ilen = state.ilen + front.length ∧
      Decoding.loop decoder skip maxolen front state = .ok after := by
  induction text generalizing state with
  | nil =>
      cases done
      exact ⟨[], [], rfl, rfl, rfl⟩
  | cons c text ih =>
      have nothing (same : after = state) : ∃ front behind, c :: text = front ++ behind ∧
          after.ilen = state.ilen + front.length ∧ Decoding.loop decoder skip maxolen front state = .ok after := by
        rw [same]
        exact ⟨[], c :: text, rfl, rfl, rfl⟩
      have further {next : Decoding} (read : next.ilen = state.ilen + 1)
          (turn : ∀ rest, Decoding.loop decoder skip maxolen (c :: rest) state =
            Decoding.loop decoder skip maxolen rest next) :
          ∃ front behind, c :: text = front ++ behind ∧
            after.ilen = state.ilen + front.length ∧ Decoding.loop decoder skip maxolen front state = .ok after := by
        rw [turn] at done
        rcases ih done with ⟨front, behind, rfl, ilen, result⟩
        refine ⟨c :: front, behind, rfl, ?_, (turn front).trans result⟩
        rw [ilen, read, List.length_cons]
        omega
      rw [loop_cons] at done
      by_cases skipped : decoder.value c = ws ∧ skip = true
      · exact further rfl fun rest => by rw [loop_cons, if_pos skipped]
      have turn (rest : List UInt8) := @loop_cons decoder skip maxolen c rest state
      simp only [if_neg skipped] at done turn
      by_cases bad : decoder.value c = ws ∨ decoder.value c = invalid
      · rw [if_pos bad] at done
        cases done
        exact nothing rfl
      simp only [if_neg bad] at done turn
      by_cases equals : decoder.value c = eq
      · simp only [if_pos equals] at done turn
        by_cases needed : decoder.wantpadding = true ∧ (state.bits + state.padding) % 8 ≠ 0
        · simp only [if_pos needed] at done turn
          by_cases single : state.padding = 0 ∧ state.bits ≥ decoder.shval ∧ state.bits < 8
          · rw [if_pos single] at done
            cases done
            exact nothing rfl
          simp only [if_neg single] at done turn
          by_cases complete : (state.bits + (state.padding + decoder.shval)) % 8 = 0
          · simp only [if_pos complete] at done turn
            cases done
            exact ⟨[c], text, rfl, rfl, turn []⟩
          · simp only [if_neg complete] at turn
            exact further rfl turn
        · rw [if_neg needed] at done
          cases done
          exact nothing rfl
      · simp only [if_neg equals] at done turn
        by_cases padding : state.padding ≠ 0
        · rw [if_pos padding] at done
          cases done
          exact nothing rfl
        · simp only [if_neg padding] at done turn
          cases read : state.readBits decoder maxolen (decoder.value c) with
          | error failed =>
              rw [read] at done
              cases done
          | ok next =>
              rw [read] at turn
              exact further (readBits_counts read) turn

end

end Decoding

theorem Decoding.strip_eq {first second : Except Decoding Decoding} (same : strip first = strip second) :
    (∃ state state', first = .ok state ∧ second = .ok state' ∧ state.out = state'.out ∧ state.olen = state'.olen ∧
        state.bits = state'.bits ∧ state.padding = state'.padding) ∨
      ∃ state state', first = .error state ∧ second = .error state' ∧ state.out = state'.out ∧
        state.olen = state'.olen := by
  cases first with
  | ok state =>
      cases second with
      | ok state' =>
          rcases Decoding.mk.inj (Except.ok.inj same) with ⟨outs, olens, -, bits, padding, -⟩
          exact Or.inl ⟨state, state', rfl, rfl, outs, olens, bits, padding⟩
      | error state' => cases same
  | error state =>
      cases second with
      | ok state' => cases same
      | error state' =>
          rcases Decoding.mk.inj (Except.error.inj same) with ⟨outs, olens, -⟩
          exact Or.inr ⟨state, state', rfl, rfl, outs, olens⟩

/-- What is written and the error are those for the text without white
space. -/
theorem decode_removed (base : Base) (skip : Bool) (out : List UInt8) (olen : Nat) (text : List UInt8) :
    (decode base.decoder skip out olen (removed text)).out = (decode base.decoder true out olen text).out ∧
      (decode base.decoder skip out olen (removed text)).olen = (decode base.decoder true out olen text).olen ∧
      (decode base.decoder skip out olen (removed text)).error = (decode base.decoder true out olen text).error := by
  have spaces : ∀ c : UInt8, decide (c = 9 ∨ c = 10 ∨ c = 32) = base.decoder.isSpace c := by
    intro c
    rw [Bool.eq_iff_iff, decide_eq_true_eq, base.isSpace_iff]
  have isRemoved : removed text = text.filter fun c => !decide (c = 9 ∨ c = 10 ∨ c = 32) := by
    apply List.filter_congr
    intro c _
    exact decide_not
  have same := @Decoding.strip_loop base.decoder skip olen _ spaces text ⟨out, 0, 0, 0, 0, 0⟩ 0
  rw [← isRemoved] at same
  rw [decode, decode]
  rcases Decoding.strip_eq same with ⟨state, state', first, second, outs, olens, bits, padding⟩ |
    ⟨state, state', first, second, outs, olens⟩
  · rw [first, second]
    dsimp only
    rw [outs, olens, bits, padding]
    by_cases left : (state'.bits + state'.padding) % 8 ≠ 0
    · rw [if_pos left, if_pos left]
      by_cases padded : base.decoder.wantpadding = true
      · rw [if_pos padded, if_pos padded]
        exact ⟨rfl, rfl, rfl⟩
      · rw [if_neg padded, if_neg padded]
        by_cases dangling : state'.padding = 0 ∧ state'.bits ≥ base.decoder.shval ∧ state'.bits < 8
        · rw [if_pos dangling, if_pos dangling]
          exact ⟨rfl, rfl, rfl⟩
        · rw [if_neg dangling, if_neg dangling]
          exact ⟨rfl, rfl, rfl⟩
    · rw [if_neg left, if_neg left]
      exact ⟨rfl, rfl, rfl⟩
  · rw [first, second]
    exact ⟨outs, olens, rfl⟩

/-! ## What was read -/

def Base.takesFlags : Base → Bool
  | .base64url => false
  | _ => true

/-- White space is skipped as if it were not there, and the characters that were
read are what is decoded: alone they give the same bytes, and even the last of
their digits has a bit in these. -/
structure Transparent (base : Base) (out : List UInt8) (olen : Nat) (text : List UInt8) : Prop where
  outs : ∀ skip, (baseDecode base skip out olen (removed text)).out = (baseDecode base true out olen text).out
  olens : ∀ skip, (baseDecode base skip out olen (removed text)).olen = (baseDecode base true out olen text).olen
  errors : ∀ skip, (baseDecode base skip out olen (removed text)).error = (baseDecode base true out olen text).error
  inside : (baseDecode base true out olen text).error = none → (baseDecode base true out olen text).ilen ≤ text.length
  alone : (baseDecode base true out olen text).error = none →
    (baseDecode base true out olen (text.take (baseDecode base true out olen text).ilen)).error = none ∧
    (baseDecode base true out olen (text.take (baseDecode base true out olen text).ilen)).olen =
      (baseDecode base true out olen text).olen ∧
    (baseDecode base true out olen (text.take (baseDecode base true out olen text).ilen)).out =
      (baseDecode base true out olen text).out
  contributes : (baseDecode base true out olen text).error = none →
    (base.decoder.digits (text.take (baseDecode base true out olen text).ilen)).length * base.shval <
      (baseDecode base true out olen text).olen * 8 + base.shval

/-- White space is between the last digit, which adds no byte, and the end of
the digits. -/
def SpaceBehindDigit (base : Base) (olen : Nat) (text : List UInt8) : Prop :=
  base.decoder.wantpadding = false ∧
    (base.decoder.digits (base.decoder.run true text)).length * base.shval / 8 ≤ olen ∧
    base.shval ≤ (base.decoder.digits (base.decoder.run true text)).length * base.shval % 8 ∧
    ∃ c ∈ (base.decoder.run true text).getLast?, base.decoder.isSpace c = true

theorem baseDecode_flags {base : Base} (flags : base.takesFlags = true) (skip : Bool) (out : List UInt8) (olen : Nat)
    (text : List UInt8) : baseDecode base skip out olen text = decode base.decoder skip out olen text := by
  cases base with
  | base64url => cases flags
  | _ => rfl

section

variable {encoder decoder : BaseCfg} {shval : Nat} {out : List UInt8} {olen : Nat}

/-- Decoding digits and white space alone writes the bytes of the digits. -/
theorem decode_front (alphabet : Alphabet encoder decoder shval) (table : Table decoder shval)
    (plain : decoder.wantpadding = false) (fits : olen ≤ out.length) {front back : List UInt8} {bits rest : Nat}
    (more : ∀ c ∈ front, decoder.goesOn true c = true)
    (regrouped : Regrouped shval 8 (decoder.digits front) (back.map UInt8.toNat) bits rest) (few : bits < 8)
    (room : back.length ≤ olen) : ∃ ilen, decode decoder true out olen front =
      ⟨none, back ++ out.drop back.length, back.length, ilen⟩ := by
  have whole : decoder.run true front = front := List.takeWhile_eq_self_iff.mpr more
  have total := regrouped.length
  rw [List.length_map] at total
  have outcome := decode_plain alphabet table plain fits true front
  rw [whole] at outcome
  rcases outcome with ⟨-, overflow⟩ | ⟨back', bits', rest', regrouped', few', -, done⟩
  · rw [Nat.add_mul, ← total] at overflow
    omega
  · have same := toNat_injective (regrouped'.unique regrouped few' few).1
    rw [same] at done
    exact ⟨_, done⟩

/-- Without padding, what was read is not transparent when the character that is
given back is a space. -/
theorem plain_alone (alphabet : Alphabet encoder decoder shval) (table : Table decoder shval) (half : 4 ≤ shval)
    (plain : decoder.wantpadding = false) (fits : olen ≤ out.length) (text : List UInt8)
    (success : (decode decoder true out olen text).error = none) :
    (decoder.digits (decoder.run true text)).length * shval / 8 ≤ olen ∧
      (decode decoder true out olen text).ilen ≤ text.length ∧
      (∃ ilen, decode decoder true out olen (text.take (decode decoder true out olen text).ilen) =
        ⟨none, (decode decoder true out olen text).out, (decode decoder true out olen text).olen, ilen⟩) ∧
      ((decoder.digits (text.take (decode decoder true out olen text).ilen)).length * shval <
          (decode decoder true out olen text).olen * 8 + shval ↔
        ¬ (shval ≤ (decoder.digits (decoder.run true text)).length * shval % 8 ∧
          ∃ c ∈ (decoder.run true text).getLast?, decoder.isSpace c = true)) := by
  rcases @run_beyond decoder true text with ⟨beyond, split, -⟩
  have more := @run_goesOn decoder true text
  rcases decode_plain alphabet table plain fits true text with
    ⟨failed, -⟩ | ⟨back, bits, rest, regrouped, few, room, done⟩
  · rw [failed] at success
    cases success
  have total := regrouped.length
  rw [List.length_map] at total
  rw [done, ← total]
  dsimp only
  by_cases dangling : bits ≥ shval
  · rw [if_pos dangling]
    rcases List.eq_nil_or_concat (decoder.run true text) with none | ⟨front, c, isRun⟩
    · rw [none] at total
      change back.length * 8 + bits = 0 * shval at total
      omega
    rw [List.concat_eq_append] at isRun
    rw [isRun] at regrouped split more total ⊢
    have taken : text.take ((front ++ [c]).length - 1) = front := by
      rw [split, List.length_append, List.length_singleton, Nat.add_sub_cancel, List.append_assoc, List.take_left]
    have inside : (front ++ [c]).length ≤ text.length := by
      have lengths := congrArg List.length split
      rw [List.length_append] at lengths
      omega
    have moreFront : ∀ c ∈ front, decoder.goesOn true c = true :=
      fun other member => more other (List.mem_append_left _ member)
    rw [taken, List.getLast?_concat]
    refine ⟨by omega, by omega, ?_, ?_⟩
    · by_cases space : decoder.isSpace c = true
      · rw [digits_append, digits_cons_other (space_is_no_digit space), BaseCfg.digits_nil,
          List.append_nil] at regrouped
        exact decode_front alphabet table plain fits moreFront regrouped few room
      · have digit := digit_of_goesOn (more c (List.mem_append_right _ (List.mem_singleton_self c))) space
        rw [digits_append, digits_cons_digit digit] at regrouped
        exact decode_front alphabet table plain fits moreFront (regrouped.front (table.small c digit) dangling)
          (by omega) room
    · by_cases space : decoder.isSpace c = true
      · have same : decoder.digits (front ++ [c]) = decoder.digits front := by
          rw [digits_append, digits_cons_other (space_is_no_digit space), BaseCfg.digits_nil, List.append_nil]
        rw [← same, ← total]
        exact iff_of_false (by omega) (not_not.mpr ⟨by omega, c, rfl, space⟩)
      · have digit := digit_of_goesOn (more c (List.mem_append_right _ (List.mem_singleton_self c))) space
        rw [digits_append, digits_cons_digit digit, BaseCfg.digits_nil, List.length_append, List.length_singleton,
          Nat.add_mul] at total
        refine iff_of_true (by omega) ?_
        rintro ⟨-, other, last, isSpace⟩
        cases last
        exact space isSpace
  · rw [if_neg dangling]
    have taken : text.take (decoder.run true text).length = decoder.run true text :=
      (congrArg (List.take _) split).trans List.take_left
    rw [taken, ← total]
    refine ⟨by omega, ?_, decode_front alphabet table plain fits more regrouped few room, ?_⟩
    · exact (List.takeWhile_prefix _).length_le
    · refine iff_of_true (by omega) fun bad => ?_
      have residue := bad.1
      omega

end

theorem decode_alone {decoder : BaseCfg} {out : List UInt8} {olen : Nat} {text : List UInt8} {after : Decoding}
    (loop : Decoding.loop decoder true olen text ⟨out, 0, 0, 0, 0, 0⟩ = .ok after) :
    after.ilen ≤ text.length ∧ decode decoder true out olen (text.take after.ilen) =
      decode decoder true out olen text := by
  rcases Decoding.loop_front loop with ⟨front, behind, rfl, ilen, again⟩
  rw [Nat.zero_add] at ilen
  have taken : (front ++ behind).take after.ilen = front := by
    rw [ilen]
    exact List.take_left
  refine ⟨?_, ?_⟩
  · rw [ilen, List.length_append]
    exact Nat.le_add_right _ _
  · rw [taken, decode, again, decode, loop]

theorem padded_alone {encoder decoder : BaseCfg} {out : List UInt8} {olen : Nat} (alphabet : Alphabet encoder decoder 6)
    (table : Table decoder 6) (padded : decoder.wantpadding = true) (fits : olen ≤ out.length) (text : List UInt8)
    (success : (decode decoder true out olen text).error = none) :
    (decode decoder true out olen text).ilen ≤ text.length ∧
      decode decoder true out olen (text.take (decode decoder true out olen text).ilen) =
        decode decoder true out olen text ∧
      (decoder.digits (text.take (decode decoder true out olen text).ilen)).length * 6 <
        (decode decoder true out olen text).olen * 8 + 6 := by
  rcases decode_padded alphabet table padded fits true text success with
    ⟨back, bits, rest, front, behind, pads, regrouped, few, -, split, noDigits, -, -, -, done⟩
  have total := regrouped.length
  rw [List.length_map] at total
  have taken : text.take ((decoder.run true text).length + front.length) = decoder.run true text ++ front := by
    rw [← List.append_assoc] at split
    rw [← List.length_append]
    exact (congrArg (List.take _) split).trans List.take_left
  have contributes : (decoder.digits (text.take (decode decoder true out olen text).ilen)).length * 6 <
      (decode decoder true out olen text).olen * 8 + 6 := by
    rw [done, taken, digits_append, noDigits, List.append_nil]
    dsimp only
    omega
  cases loop : Decoding.loop decoder true olen text ⟨out, 0, 0, 0, 0, 0⟩ with
  | error after =>
      rw [decode, loop] at success
      cases success
  | ok after =>
      have ilen : (decode decoder true out olen text).ilen = after.ilen := by
        rw [decode, loop] at success ⊢
        dsimp only at success ⊢
        by_cases left : (after.bits + after.padding) % 8 ≠ 0
        · rw [if_pos left, if_pos padded] at success
          cases success
        · rw [if_neg left]
      rw [ilen] at contributes ⊢
      rcases decode_alone loop with ⟨inside, same⟩
      exact ⟨inside, same, contributes⟩

/-- White space is transparent unless it is behind a last digit that adds no
byte. -/
theorem skipping_transparent {base : Base} (flags : base.takesFlags = true) {out : List UInt8} {olen : Nat}
    (fits : olen ≤ out.length) (text : List UInt8) :
    Transparent base out olen text ↔ ¬ SpaceBehindDigit base olen text := by
  have alphabet := base.alphabet
  have table := base.table
  have half : 4 ≤ base.shval := by
    cases base with
    | _ => decide
  have isDecode (skip : Bool) (text : List UInt8) := baseDecode_flags flags skip out olen text
  have same (skip : Bool) := decode_removed base skip out olen text
  constructor
  · rintro transparent ⟨plain, room, single, behind⟩
    have contributes := transparent.contributes
    rw [isDecode] at contributes
    rcases decode_plain alphabet table plain fits true text with ⟨-, overflow⟩ | ⟨back, bits, rest, -, -, -, done⟩
    · omega
    · have success : (decode base.decoder true out olen text).error = none := by rw [done]
      rcases plain_alone alphabet table half plain fits text success with ⟨-, -, -, clean⟩
      exact clean.mp (contributes success) ⟨single, behind⟩
  · intro clean
    have alone : (decode base.decoder true out olen text).error = none →
        (decode base.decoder true out olen text).ilen ≤ text.length ∧
        (∃ ilen, decode base.decoder true out olen (text.take (decode base.decoder true out olen text).ilen) =
          ⟨none, (decode base.decoder true out olen text).out, (decode base.decoder true out olen text).olen, ilen⟩) ∧
        (base.decoder.digits (text.take (decode base.decoder true out olen text).ilen)).length * base.shval <
          (decode base.decoder true out olen text).olen * 8 + base.shval := by
      intro success
      by_cases padded : base.decoder.wantpadding = true
      · have isBase64 : base = .base64 := by
          cases base with
          | base64 => rfl
          | _ => cases padded
        subst isBase64
        rcases padded_alone alphabet table padded fits text success with ⟨inside, again, contributes⟩
        refine ⟨inside, ⟨(decode Base.base64.decoder true out olen text).ilen, ?_⟩, contributes⟩
        rw [again, ← success]
      · rcases plain_alone alphabet table half (Bool.eq_false_iff.mpr padded) fits text success with
          ⟨room, inside, again, isClean⟩
        refine ⟨inside, again, isClean.mpr ?_⟩
        rintro ⟨single, behind⟩
        exact clean ⟨Bool.eq_false_iff.mpr padded, room, single, behind⟩
    refine ⟨?_, ?_, ?_, ?_, ?_, ?_⟩
    · intro skip
      rw [isDecode, isDecode]
      exact (same skip).1
    · intro skip
      rw [isDecode, isDecode]
      exact (same skip).2.1
    · intro skip
      rw [isDecode, isDecode]
      exact (same skip).2.2
    · rw [isDecode]
      exact fun success => (alone success).1
    · rw [isDecode, isDecode]
      intro success
      rcases (alone success).2.1 with ⟨ilen, again⟩
      rw [again]
      exact ⟨rfl, rfl, rfl⟩
    · rw [isDecode]
      exact fun success => (alone success).2.2

theorem skipping_transparent_hex : Transparent .base16 [0, 0] 2 [52, 32, 49, 32] :=
  (skipping_transparent rfl (by decide) [52, 32, 49, 32]).mpr fun bad => absurd bad.2.2.1 (by decide)

/-- The space behind the last digit is given back in its place. -/
theorem last_digit_lost : ¬ Transparent .base16 [0] 1 [52, 49, 52, 32] := by
  intro transparent
  exact absurd (transparent.contributes (by decide)) (by decide)

end KitBaseEncode
end LibKit
