import LibKit.KitBaseEncode.RoundTrip
import LibKit.Support.Bytes

namespace LibKit
namespace KitBaseEncode

open Radix (Regrouped)

/-!
# Decoding any text

The decoder takes the digits at the front of a text, with the spaces between
them if these are skipped.  With padding it goes on with equals signs, of which
it takes no more than the group still needs; without, it gives a character back
when the last digit adds no byte.
-/

/-! ## Characters -/

def BaseCfg.value (cfg : BaseCfg) (c : UInt8) : Nat := cfg.txtmap.getD c.toNat invalid

def BaseCfg.isDigit (cfg : BaseCfg) (c : UInt8) : Bool := cfg.value c < 64

def BaseCfg.isSpace (cfg : BaseCfg) (c : UInt8) : Bool := cfg.value c = ws

def BaseCfg.goesOn (cfg : BaseCfg) (skip : Bool) (c : UInt8) : Bool := cfg.isDigit c || (skip && cfg.isSpace c)

def BaseCfg.digits (cfg : BaseCfg) (text : List UInt8) : List Nat := (text.filter cfg.isDigit).map cfg.value

/-- The front of a text that is read as digits. -/
def BaseCfg.run (cfg : BaseCfg) (skip : Bool) (text : List UInt8) : List UInt8 := text.takeWhile (cfg.goesOn skip)

/-- What the proofs need of a table: a digit has its bits, and other characters
stand for white space or for padding, which is the equals sign, or are
invalid. -/
structure Table (decoder : BaseCfg) (shval : Nat) : Prop where
  small : ∀ c, decoder.isDigit c = true → decoder.value c < 2 ^ shval
  others : ∀ c, decoder.isDigit c = false → decoder.value c = ws ∨ decoder.value c = eq ∨ decoder.value c = invalid
  equals : ∀ c, decoder.value c = eq → c = 61

theorem Base.table (base : Base) : Table base.decoder base.shval := by
  cases base with
  | _ =>
      refine ⟨?_, ?_, ?_⟩
      · apply Bytes.forall_bytes
        decide +kernel
      · apply Bytes.forall_bytes
        decide +kernel
      · apply Bytes.forall_bytes
        decide +kernel

section

variable {decoder : BaseCfg} {shval : Nat}

theorem BaseCfg.digits_nil : decoder.digits [] = [] := rfl

theorem digits_append (first second : List UInt8) :
    decoder.digits (first ++ second) = decoder.digits first ++ decoder.digits second := by
  rw [BaseCfg.digits, List.filter_append, List.map_append]
  rfl

theorem digits_cons_digit {c : UInt8} (digit : decoder.isDigit c = true) (text : List UInt8) :
    decoder.digits (c :: text) = decoder.value c :: decoder.digits text := by
  rw [BaseCfg.digits, List.filter_cons_of_pos digit]
  rfl

theorem digits_cons_other {c : UInt8} (other : decoder.isDigit c = false) (text : List UInt8) :
    decoder.digits (c :: text) = decoder.digits text := by
  rw [BaseCfg.digits, List.filter_cons_of_neg (by rw [other]; exact Bool.false_ne_true)]
  rfl

theorem digit_of_goesOn {skip : Bool} {c : UInt8} (more : decoder.goesOn skip c = true)
    (noSpace : ¬ decoder.isSpace c = true) :
    decoder.isDigit c = true := by
  rcases Bool.or_eq_true_iff.mp more with digit | spaces
  · exact digit
  · exact absurd (Bool.and_eq_true_iff.mp spaces).2 noSpace

theorem space_is_no_digit {c : UInt8} (space : decoder.isSpace c = true) : decoder.isDigit c = false := by
  have isWs : decoder.value c = ws := of_decide_eq_true space
  rw [BaseCfg.isDigit, isWs]
  rfl

end

/-! ## One turn of the loop -/

namespace Decoding

section

variable {decoder : BaseCfg} {shval : Nat} {skip : Bool} {maxolen : Nat} {c : UInt8} {text : List UInt8}
    {state : Decoding}

theorem loop_cons (skip : Bool) (maxolen : Nat) (c : UInt8) (text : List UInt8) (state : Decoding) :
    Decoding.loop decoder skip maxolen (c :: text) state =
      if decoder.value c = ws ∧ skip = true then
        Decoding.loop decoder skip maxolen text { state with ilen := state.ilen + 1 }
      else if decoder.value c = ws ∨ decoder.value c = invalid then .ok state
      else if decoder.value c = eq then
        if decoder.wantpadding = true ∧ (state.bits + state.padding) % 8 ≠ 0 then
          if state.padding = 0 ∧ state.bits ≥ decoder.shval ∧ state.bits < 8 then .ok state
          else if (state.bits + (state.padding + decoder.shval)) % 8 = 0 then
            .ok { state with ilen := state.ilen + 1, padding := state.padding + decoder.shval }
          else Decoding.loop decoder skip maxolen text
            { state with ilen := state.ilen + 1, padding := state.padding + decoder.shval }
        else .ok state
      else if state.padding ≠ 0 then .ok state
      else state.readBits decoder maxolen (decoder.value c) >>= Decoding.loop decoder skip maxolen text :=
  rfl

theorem loop_space (space : decoder.isSpace c = true) :
    Decoding.loop decoder true maxolen (c :: text) state =
      Decoding.loop decoder true maxolen text { state with ilen := state.ilen + 1 } := by
  have isWs : decoder.value c = ws := of_decide_eq_true space
  rw [loop_cons, if_pos ⟨isWs, rfl⟩]

theorem loop_digit (digit : decoder.isDigit c = true) (unpadded : state.padding = 0) :
    Decoding.loop decoder skip maxolen (c :: text) state =
      (state.readBits decoder maxolen (decoder.value c) >>= Decoding.loop decoder skip maxolen text) := by
  have under : decoder.value c < 64 := of_decide_eq_true digit
  rw [loop_cons, if_neg (by unfold ws; omega), if_neg (by unfold ws invalid; omega), if_neg (by unfold eq; omega),
    if_neg (not_not.mpr unpadded)]

theorem loop_digit_padded (digit : decoder.isDigit c = true) (padded : state.padding ≠ 0) :
    Decoding.loop decoder skip maxolen (c :: text) state = .ok state := by
  have under : decoder.value c < 64 := of_decide_eq_true digit
  rw [loop_cons, if_neg (by unfold ws; omega), if_neg (by unfold ws invalid; omega), if_neg (by unfold eq; omega),
    if_pos padded]

/-- A character that is neither a digit nor padding, nor skipped. -/
theorem loop_stop (table : Table decoder shval) (ends : decoder.goesOn skip c = false) (other : decoder.value c ≠ eq) :
    Decoding.loop decoder skip maxolen (c :: text) state = .ok state := by
  rcases Bool.or_eq_false_iff.mp ends with ⟨noDigit, noSpace⟩
  have unskipped : ¬ (decoder.value c = ws ∧ skip = true) := by
    rintro ⟨space, skips⟩
    rw [BaseCfg.isSpace, space, skips] at noSpace
    cases noSpace
  have stops : decoder.value c = ws ∨ decoder.value c = invalid := by
    rcases table.others c noDigit with space | equals | bad
    · exact Or.inl space
    · exact absurd equals other
    · exact Or.inr bad
  rw [loop_cons, if_neg unskipped, if_pos stops]

/-- What a digit does does not depend on how many characters were read. -/
theorem readBits_ilen (state : Decoding) (ilen digit : Nat) :
    (∀ after, { state with ilen := ilen }.readBits decoder maxolen digit = .ok after →
      state.readBits decoder maxolen digit = .ok { after with ilen := state.ilen + 1 }) ∧
    ∀ after, { state with ilen := ilen }.readBits decoder maxolen digit = .error after →
      state.readBits decoder maxolen digit = .error { after with ilen := state.ilen + 1 } := by
  unfold Decoding.readBits
  dsimp only
  by_cases byte : state.bits + decoder.shval ≥ 8
  · rw [if_pos byte, if_pos byte]
    by_cases full : state.olen ≥ maxolen
    · rw [if_pos full, if_pos full]
      constructor
      · intro after done
        cases done
      · intro after failed
        cases failed
        rfl
    · rw [if_neg full, if_neg full]
      constructor
      · intro after done
        cases done
        rfl
      · intro after failed
        cases failed
  · rw [if_neg byte, if_neg byte]
    constructor
    · intro after done
      cases done
      rfl
    · intro after failed
      cases failed

end

/-- A text was read whose digits are regrouped to the bytes that were
written. -/
structure Reads (cfg : BaseCfg) (out : List UInt8) (maxolen : Nat) (text back : List UInt8) (state : Decoding) :
    Prop where
  ilen : state.ilen = text.length
  decodes : Decodes cfg out maxolen (cfg.digits text) back { state with ilen := (cfg.digits text).length }

section

variable {encoder decoder : BaseCfg} {shval : Nat} {out : List UInt8} {maxolen : Nat} {taken back : List UInt8}
  {state : Decoding} {skip : Bool}

theorem Reads.start : Reads decoder out maxolen [] [] ⟨out, 0, 0, 0, 0, 0⟩ :=
  ⟨rfl, rfl, rfl, rfl, rfl, Nat.zero_le _, Nat.zero_lt_succ 7, Regrouped.start⟩

/-- One more digit or space. -/
theorem Reads.one (alphabet : Alphabet encoder decoder shval) (table : Table decoder shval)
    (fits : maxolen ≤ out.length)
    (reads : Reads decoder out maxolen taken back state) {c : UInt8} (more : decoder.goesOn skip c = true) :
    (∃ after back, (∀ rest, Decoding.loop decoder skip maxolen
    (c :: rest) state = Decoding.loop decoder skip maxolen rest after) ∧
        Reads decoder out maxolen (taken ++ [c]) back after) ∨
      ∃ after, (∀ rest, Decoding.loop decoder skip maxolen (c :: rest) state = .error after) ∧
        (maxolen + 1) * 8 ≤ (decoder.digits (taken ++ [c])).length * shval := by
  by_cases digit : decoder.isDigit c = true
  · have added : decoder.digits (taken ++ [c]) = decoder.digits taken ++ [decoder.value c] := by
      rw [digits_append, digits_cons_digit digit]
      rfl
    have turn (rest : List UInt8) := @loop_digit decoder skip maxolen c rest state digit reads.decodes.padding
    rcases reads.decodes.readBits alphabet fits (table.small c digit) with ⟨after, back, done, isAfter⟩ |
      ⟨after, failed, overflow⟩
    · refine Or.inl ⟨{ after with ilen := state.ilen + 1 }, back, ?_, ?_, ?_⟩
      · intro rest
        rw [turn, (readBits_ilen state _ _).1 after done]
        rfl
      · rw [List.length_append, ← reads.ilen]
        rfl
      · have ilen := isAfter.ilen
        rw [added, ← ilen]
        exact isAfter
    · refine Or.inr ⟨{ after with ilen := state.ilen + 1 }, ?_, ?_⟩
      · intro rest
        rw [turn, (readBits_ilen state _ _).2 after failed]
        rfl
      · rw [added, List.length_append]
        exact overflow
  · have noDigit := Bool.eq_false_iff.mpr digit
    rcases Bool.or_eq_true_iff.mp more with isDigit | spaces
    · exact absurd isDigit digit
    rcases Bool.and_eq_true_iff.mp spaces with ⟨rfl, space⟩
    have added : decoder.digits (taken ++ [c]) = decoder.digits taken := by
      rw [digits_append, digits_cons_other noDigit]
      exact List.append_nil _
    refine Or.inl ⟨{ state with ilen := state.ilen + 1 }, back, fun rest => loop_space space, ?_, ?_⟩
    · rw [List.length_append, ← reads.ilen]
      rfl
    · rw [added]
      exact reads.decodes

theorem Reads.loop (alphabet : Alphabet encoder decoder shval) (table : Table decoder shval)
    (fits : maxolen ≤ out.length)
    (reads : Reads decoder out maxolen taken back state) {text : List UInt8}
    (more : ∀ c ∈ text, decoder.goesOn skip c = true) :
    (∃ after back, (∀ rest, Decoding.loop decoder skip maxolen (text ++ rest) state =
        Decoding.loop decoder skip maxolen rest after) ∧ Reads decoder out maxolen (taken ++ text) back after) ∨
      ∃ after, (∀ rest, Decoding.loop decoder skip maxolen (text ++ rest) state = .error after) ∧
        (maxolen + 1) * 8 ≤ (decoder.digits (taken ++ text)).length * shval := by
  induction text generalizing taken back state with
  | nil =>
      rw [List.append_nil]
      exact Or.inl ⟨state, back, fun rest => rfl, reads⟩
  | cons c text ih =>
      have together : taken ++ [c] ++ text = taken ++ c :: text := by rw [List.append_assoc, List.singleton_append]
      rcases reads.one alphabet table fits (more c List.mem_cons_self) with
        ⟨after, back, turn, isAfter⟩ | ⟨after, turn, overflow⟩
      · have further := ih isAfter fun other member => more other (List.mem_cons_of_mem _ member)
        rw [together] at further
        rcases further with ⟨last, back, turns, isLast⟩ | ⟨last, turns, overflow⟩
        · exact Or.inl ⟨last, back, fun rest => (turn _).trans (turns rest), isLast⟩
        · exact Or.inr ⟨last, fun rest => (turn _).trans (turns rest), overflow⟩
      · refine Or.inr ⟨after, fun rest => turn _, Nat.le_trans overflow (Nat.mul_le_mul_right _ ?_)⟩
        rw [← together, digits_append (taken ++ [c]), List.length_append]
        exact Nat.le_add_right _ _

theorem loop_end (table : Table decoder shval) (plain : decoder.wantpadding = false) {text : List UInt8}
    (stopped : ∀ c ∈ text.head?, decoder.goesOn skip c = false) :
    Decoding.loop decoder skip maxolen text state = .ok state := by
  rcases text with _ | ⟨c, text⟩
  · rfl
  · by_cases equals : decoder.value c = eq
    · have unwanted : ¬ (decoder.wantpadding = true ∧ (state.bits + state.padding) % 8 ≠ 0) := by
        rw [plain]
        exact fun wanted => Bool.false_ne_true wanted.1
      rw [loop_cons, equals, if_neg (fun is => absurd is.1 (by decide)), if_neg (by decide), if_pos rfl,
        if_neg unwanted]
    · exact loop_stop table (stopped c rfl) equals

/-- The equals signs behind the digits, with spaces if these are skipped: no
more than the group needs, and none behind a single digit. -/
structure Tail (cfg : BaseCfg) (skip : Bool) (state : Decoding) (front : List UInt8) (pads : Nat) : Prop where
  noDigits : cfg.digits front = []
  equals : skip = false → front = List.replicate pads 61
  few : pads ≤ (state.bits + state.padding) / 2 % 4
  single : state.padding = 0 → 6 ≤ state.bits → state.bits < 8 → pads = 0

theorem Tail.none : Tail decoder skip state [] 0 :=
  ⟨rfl, fun _ => rfl, Nat.zero_le _, fun _ _ _ => rfl⟩

/-- With padding the digits are followed by equals signs. -/
theorem loop_tail (table : Table decoder shval) (padded : decoder.wantpadding = true) (six : decoder.shval = 6)
    {text : List UInt8} (stopped : state.padding ≠ 0 ∨ ∀ c ∈ text.head?, decoder.goesOn skip c = false)
    (even : (state.bits + state.padding) % 2 = 0) :
    ∃ front behind pads, text = front ++ behind ∧ Tail decoder skip state front pads ∧
      Decoding.loop decoder skip maxolen text state =
        .ok { state with ilen := state.ilen + front.length, padding := state.padding + 6 * pads } := by
  induction text generalizing state with
  | nil => exact ⟨[], [], 0, rfl, Tail.none, rfl⟩
  | cons c text ih =>
      have nothing (same : Decoding.loop decoder skip maxolen (c :: text) state = .ok state) :
          ∃ front behind pads, c :: text = front ++ behind ∧ Tail decoder skip state front pads ∧
            Decoding.loop decoder skip maxolen (c :: text) state =
              .ok { state with ilen := state.ilen + front.length, padding := state.padding + 6 * pads } :=
        ⟨[], c :: text, 0, rfl, Tail.none, same⟩
      by_cases equals : decoder.value c = eq
      · have noDigit : decoder.isDigit c = false := by
          rw [BaseCfg.isDigit, equals]
          rfl
        have turn := @loop_cons decoder skip maxolen c text state
        rw [equals, if_neg (fun is => absurd is.1 (by decide)), if_neg (by decide), if_pos rfl] at turn
        by_cases needed : (state.bits + state.padding) % 8 ≠ 0
        · rw [if_pos ⟨padded, needed⟩, six] at turn
          by_cases single : state.padding = 0 ∧ state.bits ≥ 6 ∧ state.bits < 8
          · rw [if_pos single] at turn
            exact nothing turn
          · rw [if_neg single] at turn
            by_cases complete : (state.bits + (state.padding + 6)) % 8 = 0
            · rw [if_pos complete] at turn
              refine ⟨[c], text, 1, rfl, ⟨digits_cons_other noDigit [], ?_, by omega, by omega⟩, turn⟩
              intro
              rw [table.equals c equals]
              rfl
            · rw [if_neg complete] at turn
              rcases @ih { state with ilen := state.ilen + 1, padding := state.padding + 6 }
                (Or.inl (Nat.succ_ne_zero _))
                (by dsimp only; omega) with ⟨front, behind, pads, rfl, tail, result⟩
              have few := tail.few
              dsimp only at few
              refine ⟨c :: front, behind, pads + 1, rfl, ⟨?_, ?_, by omega, by omega⟩, ?_⟩
              · exact (digits_cons_other noDigit front).trans tail.noDigits
              · intro plain
                rw [table.equals c equals, tail.equals plain]
                rfl
              · rw [turn, result]
                simp only [List.length_cons, Except.ok.injEq, Decoding.mk.injEq, true_and, and_true]
                omega
        · rw [if_neg fun wanted => needed wanted.2] at turn
          exact nothing turn
      · by_cases more : decoder.goesOn skip c = true
        · have begun : state.padding ≠ 0 := by
            rcases stopped with padding | ends
            · exact padding
            · exact absurd more (Bool.eq_false_iff.mp (ends c rfl))
          rcases Bool.or_eq_true_iff.mp more with digit | spaces
          · exact nothing (loop_digit_padded digit begun)
          · rcases Bool.and_eq_true_iff.mp spaces with ⟨rfl, space⟩
            rcases @ih { state with ilen := state.ilen + 1 } (Or.inl begun) even with
              ⟨front, behind, pads, rfl, tail, result⟩
            refine ⟨c :: front, behind, pads, rfl, ⟨?_, fun plain => Bool.noConfusion plain, tail.few,
              fun none => absurd none begun⟩, ?_⟩
            · exact (digits_cons_other (space_is_no_digit space) front).trans tail.noDigits
            · rw [loop_space space, result, List.length_cons]
              simp only [Except.ok.injEq, Decoding.mk.injEq, true_and, and_true]
              omega
        · exact nothing (loop_stop table (Bool.eq_false_iff.mpr more) equals)

end

end Decoding

/-! ## The whole text -/

section

variable {encoder decoder : BaseCfg} {shval : Nat} {out : List UInt8} {olen : Nat}

theorem run_beyond (skip : Bool) (text : List UInt8) : ∃ beyond, text = decoder.run skip text ++ beyond ∧
    ∀ c ∈ beyond.head?, decoder.goesOn skip c = false := by
  refine ⟨text.dropWhile (decoder.goesOn skip), List.takeWhile_append_dropWhile.symm, ?_⟩
  intro c first
  have stops := List.head?_dropWhile_not (decoder.goesOn skip) text
  rw [Option.mem_def.mp first] at stops
  exact Bool.eq_false_iff.mpr (by simpa using stops)

theorem run_goesOn (skip : Bool) (text : List UInt8) : ∀ c ∈ decoder.run skip text, decoder.goesOn skip c = true :=
  fun _ member => List.mem_takeWhile_imp member

theorem goesOn_plain (decoder : BaseCfg) : decoder.goesOn false = decoder.isDigit := by
  funext c
  exact Bool.or_false _

theorem digits_run (decoder : BaseCfg) (text : List UInt8) :
    decoder.digits (decoder.run false text) = (decoder.run false text).map decoder.value := by
  rw [BaseCfg.digits, List.filter_eq_self.mpr]
  intro c member
  have more := @run_goesOn decoder false text c member
  rwa [goesOn_plain] at more

/-- Without padding, decoding writes the bytes of the digits, or reports that
there is no room for them. -/
theorem decode_plain (alphabet : Alphabet encoder decoder shval) (table : Table decoder shval)
    (plain : decoder.wantpadding = false) (fits : olen ≤ out.length) (skip : Bool) (text : List UInt8) :
    ((decode decoder skip out olen text).error = some outputOverflow ∧
        (olen + 1) * 8 ≤ (decoder.digits (decoder.run skip text)).length * shval) ∨
      ∃ back bits rest, Regrouped shval 8 (decoder.digits (decoder.run skip text)) (back.map UInt8.toNat) bits rest ∧
        bits < 8 ∧ back.length ≤ olen ∧ decode decoder skip out olen text =
          ⟨none, back ++ out.drop back.length, back.length,
            if bits ≥ shval then (decoder.run skip text).length - 1 else (decoder.run skip text).length⟩ := by
  have isShval := alphabet.decodes
  have positive := alphabet.positive
  rcases @run_beyond decoder skip text with ⟨beyond, split, stopped⟩
  rcases Decoding.Reads.start.loop alphabet table fits (run_goesOn skip text) with
    ⟨after, back, turns, reads⟩ | ⟨after, failed, overflow⟩
  · rw [List.nil_append] at reads
    have regrouped := reads.decodes.regrouped
    have few := reads.decodes.few
    have padding := reads.decodes.padding
    have olen := reads.decodes.olen
    have written := reads.decodes.out
    dsimp only at regrouped few padding olen written
    rw [isShval] at regrouped
    refine Or.inr ⟨back, after.bits, _, regrouped, few, reads.decodes.room, ?_⟩
    have loop := turns beyond
    rw [← split, Decoding.loop_end table plain stopped] at loop
    rw [decode, loop]
    dsimp only
    rw [plain, padding, isShval, reads.ilen, olen, written, Nat.add_zero]
    by_cases dangling : after.bits ≥ shval
    · rw [if_pos (by omega), if_neg Bool.false_ne_true, if_pos ⟨rfl, dangling, few⟩, if_pos dangling]
    · have kept : ¬ (0 = 0 ∧ after.bits ≥ shval ∧ after.bits < 8) := fun all => dangling all.2.1
      rw [if_neg Bool.false_ne_true, if_neg kept, if_neg dangling, ite_self]
  · rw [List.nil_append] at overflow
    have loop := failed beyond
    rw [← split] at loop
    rw [decode, loop]
    exact Or.inl ⟨rfl, overflow⟩

/-- With padding, decoding succeeds when the equals signs complete the last
group. -/
theorem decode_padded (alphabet : Alphabet encoder decoder 6) (table : Table decoder 6)
    (padded : decoder.wantpadding = true) (fits : olen ≤ out.length) (skip : Bool) (text : List UInt8)
    (success : (decode decoder skip out olen text).error = none) :
    ∃ back bits rest front behind pads,
      Regrouped 6 8 (decoder.digits (decoder.run skip text)) (back.map UInt8.toNat) bits rest ∧ bits < 6 ∧
        back.length ≤ olen ∧ text = decoder.run skip text ++ (front ++ behind) ∧ decoder.digits front = [] ∧
        (skip = false → front = List.replicate pads 61) ∧ pads = bits / 2 ∧
        (∀ c ∈ (front ++ behind).head?, decoder.goesOn skip c = false) ∧
        decode decoder skip out olen text =
          ⟨none, back ++ out.drop back.length, back.length, (decoder.run skip text).length + front.length⟩ := by
  have six := alphabet.decodes
  rcases @run_beyond decoder skip text with ⟨beyond, split, stopped⟩
  rcases Decoding.Reads.start.loop alphabet table fits (run_goesOn skip text) with
    ⟨after, back, turns, reads⟩ | ⟨after, failed, overflow⟩
  · rw [List.nil_append] at reads
    have regrouped := reads.decodes.regrouped
    have few := reads.decodes.few
    have padding := reads.decodes.padding
    have olen := reads.decodes.olen
    have written := reads.decodes.out
    have total := regrouped.length
    dsimp only at regrouped few padding olen written total
    rw [six] at regrouped total
    rcases @Decoding.loop_tail decoder 6 _ after skip table padded six beyond (Or.inr stopped) (by omega) with
      ⟨front, behind, pads, isBeyond, tail, result⟩
    have loop := (turns beyond).trans result
    rw [← split] at loop
    have few' := tail.few
    rw [decode, loop] at success
    dsimp only at success
    rw [padding, Nat.zero_add] at success
    rw [padding, Nat.add_zero] at few'
    by_cases complete : (after.bits + 6 * pads) % 8 = 0
    · have notSingle : after.bits < 6 := by
        by_contra single
        have none := tail.single padding (by omega) few
        omega
      refine ⟨back, after.bits, _, front, behind, pads, regrouped, notSingle, reads.decodes.room, ?_, tail.noDigits,
        tail.equals, by omega, ?_, ?_⟩
      · rw [← isBeyond]
        exact split
      · rw [← isBeyond]
        exact stopped
      · rw [decode, loop]
        dsimp only
        rw [padding, Nat.zero_add, if_neg (not_not.mpr complete), reads.ilen, olen, written]
    · rw [if_pos complete, padded, if_pos rfl] at success
      cases success
  · have loop := failed beyond
    rw [← split] at loop
    rw [decode, loop] at success
    cases success

end

end KitBaseEncode
end LibKit
