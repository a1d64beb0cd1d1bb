import LibKit.Jitson.Completeness
import LibKit.Jitson.Expanding

namespace LibKit
namespace Jitson

open Bytes

/-!
# Writing strings to tokens

A writer of strings adds tokens to a stack, and bytes to the tokens that it
added.  Each of the writers ends with the same block in the same number of
tokens, or with the tokens that there were if there is no memory for more.
-/

namespace RawStack

/-- The tokens of a string: eight bytes in the first, sixteen in each of the
others, and a NUL. -/
def tokensFor (length : Nat) : Nat := 1 + (length + 8) / 16

theorem tokensFor_pos (length : Nat) : 0 < tokensFor length := by
  rw [tokensFor]
  omega

/-- The tokens that `sxe_jitson_stack_push_string_reversed` asks for. -/
theorem reversed_tokens {length : Nat} (small : length < 2 ^ 32 - 32) :
    (UInt32.ofNat ((length + 2 * 16 - 8) / 16)).toNat = tokensFor length := by
  have bound : (length + 2 * 16 - 8) / 16 < UInt32.size := by
    have size : UInt32.size = 2 ^ 32 := rfl
    omega
  rw [UInt32.toNat_ofNat_of_lt' bound, tokensFor]
  omega

theorem ident_tokens {length : Nat} (small : length < 2 ^ 32 - 32) :
    (UInt32.ofNat ((8 + length) / 16) + 1).toNat = tokensFor length := by
  have bound : (8 + length) / 16 < UInt32.size := by
    have size : UInt32.size = 2 ^ 32 := rfl
    omega
  have one : (1 : UInt32).toNat = 1 := rfl
  rw [UInt32.toNat_add, UInt32.toNat_ofNat_of_lt' bound, tokensFor, one]
  omega

def header (type : UInt32) (length : Nat) : List UInt8 := encodeWord 4 type.toNat ++ encodeWord 4 length

@[simp] theorem header_length (type : UInt32) (length : Nat) : (header type length).length = 8 := by
  rw [header, List.length_append, encodeWord_length, encodeWord_length]

/-! ## Tokens that are written -/

/-- The tokens of a stack are there in the memory of another one. -/
def Unchanged (before : RawStack) (bytes : Memory) : Prop :=
  ∀ size old, before.jitsons = .live size old → ∀ place, place < 16 * before.count.toNat → bytes place = old place

/-- A stack has a number of tokens more than another one, and they start with
a block. -/
structure Holding (before stack : RawStack) (tokens : Nat) (block : List UInt8) : Prop where
  sound : Sound stack
  count : stack.count.toNat = before.count.toNat + tokens
  fits : block.length ≤ 16 * tokens
  memory : ∃ bytes, stack.jitsons = .live stack.maximum.toNat bytes ∧
    Bytes.Holds bytes (16 * before.count.toNat) block ∧ Unchanged before bytes

section

variable {before stack after : RawStack} {tokens : Nat} {block : List UInt8}

/-- A write inside of the tokens in use. -/
theorem put_inside (idx : UInt32) {offset : Nat} {written : List UInt8} {bytes : Memory} (sound : Sound stack)
    (live : stack.jitsons = .live stack.maximum.toNat bytes)
    (inside : 16 * idx.toNat + offset + written.length ≤ 16 * stack.count.toNat) :
    stack.put idx offset written =
      .ok { stack with jitsons := .live stack.maximum.toNat (write bytes (16 * idx.toNat + offset) written) } := by
  rw [RawStack.put, live]
  have least : min stack.maximum.toNat stack.count.toNat = stack.count.toNat := Nat.min_eq_right sound.count
  exact if_pos (least.symm ▸ inside)

theorem Holding.append (holding : Holding before stack tokens block) {idx : UInt32} {offset : Nat}
    {written : List UInt8} (place : 16 * idx.toNat + offset = 16 * before.count.toNat + block.length)
    (room : block.length + written.length ≤ 16 * tokens) :
    ∃ after, stack.put idx offset written = .ok after ∧ Holding before after tokens (block ++ written) ∧
      after.count = stack.count ∧ after.maximum = stack.maximum := by
  rcases holding.memory with ⟨bytes, live, holds, unchanged⟩
  have count := holding.count
  refine ⟨_, put_inside idx holding.sound live (by omega), ⟨?_, count, ?_, ?_⟩, rfl, rfl⟩
  · exact ⟨holding.sound.count, holding.sound.borrow, Or.inr ⟨_, rfl⟩⟩
  · rw [List.length_append]
    exact room
  · refine ⟨_, rfl, holds_write_behind holds place, fun size old isLive spot earlier => ?_⟩
    rw [write_outside (Or.inl (by omega))]
    exact unchanged size old isLive spot earlier

theorem Holding.overwrite {first old last : List UInt8} (holding : Holding before stack tokens (first ++ old ++ last))
    {idx : UInt32} {offset : Nat} {written : List UInt8}
    (place : 16 * idx.toNat + offset = 16 * before.count.toNat + first.length) (same : written.length = old.length) :
    ∃ after, stack.put idx offset written = .ok after ∧ Holding before after tokens (first ++ written ++ last) ∧
      after.count = stack.count ∧ after.maximum = stack.maximum := by
  rcases holding.memory with ⟨bytes, live, holds, unchanged⟩
  have count := holding.count
  have fits := holding.fits
  have length : (first ++ old ++ last).length = first.length + old.length + last.length := by
    rw [List.length_append, List.length_append]
  refine ⟨_, put_inside idx holding.sound live (by omega), ⟨?_, count, ?_, ?_⟩, rfl, rfl⟩
  · exact ⟨holding.sound.count, holding.sound.borrow, Or.inr ⟨_, rfl⟩⟩
  · rw [List.length_append, List.length_append]
    omega
  · refine ⟨_, rfl, holds_write_within holds place same, fun size old isLive spot earlier => ?_⟩
    rw [write_outside (Or.inl (by omega))]
    exact unchanged size old isLive spot earlier

theorem Holding.extend (holding : Holding before stack tokens block) {more : Nat}
    (room : block.length + more ≤ 16 * tokens) :
    ∃ filler : List UInt8, filler.length = more ∧ Holding before stack tokens (block ++ filler) := by
  rcases holding.memory with ⟨bytes, live, holds, unchanged⟩
  refine ⟨Bytes.read bytes (16 * before.count.toNat + block.length) more, read_length _ _ _, holding.sound,
    holding.count, ?_,
    bytes, live, ?_, unchanged⟩
  · rw [List.length_append, read_length]
    exact room
  · exact holds_append.mpr ⟨holds, holds_read bytes _ more⟩

theorem count_ne_error {more : UInt32} (some : 0 < more.toNat) (canGrow : CanGrow stack more.toNat) :
    stack.count ≠ stackError := by
  intro last
  have bound := canGrow.fits
  have error : stackError.toNat = 2 ^ 32 - 1 := rfl
  rw [last] at bound
  omega

theorem Sound.begin (sound : Sound before) (grant : Option Memory) {more : UInt32} (some : 0 < more.toNat)
    (canGrow : CanGrow before more.toNat) :
    (grant = none ∧ before.expand grant more = .ok (stackError, before)) ∨
      ∃ after, before.expand grant more = .ok (before.count, after) ∧ before.count ≠ stackError ∧
        Holding before after more.toNat [] ∧ before.maximum.toNat ≤ after.maximum.toNat := by
  have sum := toNat_expanded canGrow.fits
  rcases expand_met grant sound canGrow with ⟨noMemory, _, failed⟩ | ⟨_, maximum, bytes, grew, known⟩
  · exact Or.inl ⟨noMemory, failed⟩
  · have higher := sound.expand canGrow grew
    refine Or.inr ⟨_, grew, count_ne_error some canGrow, ⟨higher.1, sum, Nat.zero_le _, ?_⟩, higher.2⟩
    refine ⟨bytes, rfl, holds_nil _ _, fun size old live place earlier => known.keeps size old live place ?_⟩
    have size_eq : size = before.maximum.toNat := by
      rcases sound.block with null | ⟨held, here⟩
      · rw [null] at live
        cases live
      · rw [here] at live
        cases live
        rfl
    have count := sound.count
    omega

theorem Holding.expand (holding : Holding before stack tokens block) (grant : Option Memory)
    (canGrow : CanGrow stack 1) :
    (grant = none ∧ stack.expand grant 1 = .ok (stackError, stack)) ∨
      ∃ after, stack.expand grant 1 = .ok (stack.count, after) ∧ stack.count ≠ stackError ∧
        Holding before after (tokens + 1) block ∧ stack.maximum.toNat ≤ after.maximum.toNat := by
  have canGrow : CanGrow stack (1 : UInt32).toNat := canGrow
  have sum := toNat_expanded canGrow.fits
  have one : (1 : UInt32).toNat = 1 := rfl
  have count := holding.count
  have fits := holding.fits
  have within := holding.sound.count
  rcases expand_met grant holding.sound canGrow with ⟨noMemory, _, failed⟩ | ⟨_, maximum, bytes, grew, known⟩
  · exact Or.inl ⟨noMemory, failed⟩
  · have higher := holding.sound.expand canGrow grew
    rcases holding.memory with ⟨held, live, holds, unchanged⟩
    refine Or.inr ⟨_, grew, count_ne_error (show 0 < (1 : UInt32).toNat from Nat.one_pos) canGrow,
      ⟨higher.1, ?_, by omega, ?_⟩, higher.2⟩
    · calc
        (stack.count + 1).toNat = stack.count.toNat + 1 := sum
        _ = before.count.toNat + (tokens + 1) := by rw [count, Nat.add_assoc]
    · refine ⟨bytes, rfl, fun index inside => ?_, fun size old isLive place earlier => ?_⟩
      · rw [known.keeps _ _ live _ (by omega)]
        exact holds index inside
      · rw [known.keeps _ _ live _ (by omega)]
        exact unchanged size old isLive place earlier

theorem Holding.head (holding : Holding before stack tokens []) (some : 0 < tokens) (type len : UInt32) :
    ∃ middle after, stack.putType before.count type = .ok middle ∧ middle.putLen before.count len = .ok after ∧
      Holding before after tokens (header type len.toNat ++ []) ∧ after.count = stack.count ∧
      after.maximum = stack.maximum := by
  have typed := @Holding.append before stack tokens [] holding before.count 0 (encodeWord 4 type.toNat) rfl
    (by rw [encodeWord_length, List.length_nil]; omega)
  rcases typed with ⟨middle, putType, typed, count, maximum⟩
  have measured := @Holding.append before middle tokens _ typed before.count 4 (encodeWord 4 len.toNat)
    (by rw [List.nil_append, encodeWord_length]) (by rw [List.nil_append, encodeWord_length, encodeWord_length]; omega)
  rcases measured with ⟨after, putLen, measured, count', maximum'⟩
  rw [List.nil_append] at measured
  refine ⟨middle, after, putType, putLen, ?_, count'.trans count, maximum'.trans maximum⟩
  rw [List.append_nil]
  exact measured

theorem Holding.setLen {type : UInt32} {length : Nat} {text : List UInt8}
    (holding : Holding before stack tokens (header type length ++ text)) (len : UInt32) :
    ∃ after, stack.putLen before.count len = .ok after ∧ Holding before after tokens (header type len.toNat ++ text) ∧
      after.count = stack.count ∧ after.maximum = stack.maximum := by
  apply holding.overwrite
  · rw [encodeWord_length]
  · rw [encodeWord_length, encodeWord_length]

theorem Holding.addText {type : UInt32} {length place : Nat} {text written : List UInt8}
    (holding : Holding before stack tokens (header type length ++ text)) (behind : place = text.length)
    (room : 8 + text.length + written.length ≤ 16 * tokens) :
    ∃ after, stack.putString before.count place written = .ok after ∧
      Holding before after tokens (header type length ++ (text ++ written)) ∧ after.count = stack.count ∧
      after.maximum = stack.maximum := by
  subst behind
  have added := @Holding.append before stack tokens _ holding before.count (8 + text.length) written
    (by rw [List.length_append, header_length]) (by rw [List.length_append, header_length]; exact room)
  rwa [List.append_assoc] at added

end

/-! ## Tokens that are added one by one -/

/-- A number of tokens can be added to a stack one at a time. -/
def CanGrowSingly (stack : RawStack) (more : Nat) : Prop :=
  stack.count.toNat + more ≤ stack.maximum.toNat ∨
    stack.maximum ≠ 0 ∧ stack.count.toNat + more ≤ 2 ^ 32 - 4096

instance (stack : RawStack) (more : Nat) : Decidable (CanGrowSingly stack more) := inferInstanceAs (Decidable (_ ∨ _))

/-- How a writer ends: it fails for want of memory with the tokens that there
were, or it has added tokens that start with a block. -/
def Ends {α : Type} (before : RawStack) (grants : Nat → Option Memory) (tokens : Nat) (block : List UInt8)
    (failed done : α) (outcome : Except Stop (α × RawStack)) : Prop :=
  (∃ after, outcome = .ok (failed, after) ∧ after.count = before.count ∧ ∃ turn, grants turn = none) ∨
    ∃ after, outcome = .ok (done, after) ∧ Holding before after tokens block

section

variable {before stack after : RawStack} {tokens more : Nat} {block : List UInt8} {grants : Nat → Option Memory}

theorem CanGrowSingly.first (canGrow : CanGrowSingly stack more) (some : 0 < more) : CanGrow stack 1 := by
  rcases canGrow with already | ⟨positive, below⟩
  · exact Or.inl (by omega)
  · exact Or.inr ⟨by omega, fun zero => absurd zero positive⟩

/-- What is left can be added after the first tokens. -/
theorem CanGrowSingly.next {added : Nat} (canGrow : CanGrowSingly stack (added + more))
    (count : after.count.toNat = stack.count.toNat + added) (higher : stack.maximum.toNat ≤ after.maximum.toNat) :
    CanGrowSingly after more := by
  rcases canGrow with already | ⟨positive, below⟩
  · exact Or.inl (by omega)
  · refine Or.inr ⟨fun zero => positive ?_, by omega⟩
    rw [zero] at higher
    exact UInt32.toNat_inj.mp (Nat.le_zero.mp higher)

theorem Ends.shift {α : Type} {failed done : α} {outcome : Except Stop (α × RawStack)}
    (ends : Ends before (fun later => grants (later + 1)) tokens block failed done outcome) :
    Ends before grants tokens block failed done outcome := by
  rcases ends with ⟨after, failed, same, turn, refused⟩ | succeeded
  · exact Or.inl ⟨after, failed, same, turn + 1, refused⟩
  · exact Or.inr succeeded

end

/-! ## Loading a string -/

section

variable {before stack : RawStack} {tokens : Nat} {grants : Nat → Option Memory}

/-- There is space for what is left of a character and for a NUL. -/
theorem reserve_spec {block : List UInt8} (holding : Holding before stack tokens block)
    (started : before.count ≠ stackError)
    {space i : UInt32} {used : Nat} (spaceIs : space.toNat + used = 16 * tokens) (some : 1 ≤ space.toNat)
    (few : space.toNat ≤ 16) (positive : 1 ≤ i.toNat) (short : i.toNat ≤ 3)
    (canGrow : space.toNat ≤ i.toNat → CanGrow stack 1) :
    (∃ other others, reserve grants before.count stack space i = .ok (stackError, stack, other, others) ∧
      grants 0 = none) ∨
      ∃ first after left tokens' others, reserve grants before.count stack space i = .ok (first, after, left, others) ∧
        first ≠ stackError ∧ Holding before after tokens' block ∧ left.toNat + (used + 1) = 16 * tokens' ∧
        i.toNat ≤ left.toNat ∧ left.toNat ≤ 15 + i.toNat ∧ stack.maximum.toNat ≤ after.maximum.toNat ∧
        (tokens' = tokens ∧ others = grants ∧ i.toNat < space.toNat ∨
          tokens' = tokens + 1 ∧ (others = fun later => grants (later + 1)) ∧ space.toNat ≤ i.toNat) := by
  have one : (1 : UInt32).toNat = 1 := rfl
  have less : (space - 1).toNat = space.toNat - 1 := by
    rw [UInt32.toNat_sub_of_le space 1 (UInt32.le_iff_toNat_le.mpr some), one]
  by_cases short : space - 1 < i
  · have below : space.toNat ≤ i.toNat := by
      have here := UInt32.lt_iff_toNat_lt.mp short
      omega
    have sum : (space - 1 + 16).toNat = space.toNat - 1 + 16 := by
      have sixteen : (16 : UInt32).toNat = 16 := rfl
      rw [UInt32.toNat_add, less, sixteen]
      omega
    rcases holding.expand (grants 0) (canGrow below) with ⟨refused, failed⟩ | ⟨after, expanded, noError, held, higher⟩
    · refine Or.inl ⟨space - 1 + 16, fun later => grants (later + 1), ?_, refused⟩
      rw [reserve, if_pos short, failed]
      rfl
    · refine Or.inr ⟨stack.count, after, space - 1 + 16, tokens + 1, fun later => grants (later + 1), ?_, noError,
        held, ?_, ?_,
        ?_, higher, Or.inr ⟨rfl, rfl, below⟩⟩
      · rw [reserve, if_pos short, expanded]
        rfl
      · omega
      · omega
      · omega
  · have above : i.toNat < space.toNat := by
      have here := Nat.le_of_not_lt fun less => short (UInt32.lt_iff_toNat_lt.mpr less)
      omega
    refine Or.inr ⟨before.count, stack, space - 1, tokens, grants, if_neg short, started, holding, ?_, ?_, ?_,
      Nat.le_refl _,
      Or.inl ⟨rfl, rfl, above⟩⟩
    · omega
    · omega
    · omega

/-- A part of a string is loaded, and `space` bytes are left of its last
token. -/
structure Loading (before stack : RawStack) (tokens : Nat) (text : List UInt8) (len space : UInt32) : Prop where
  holding : Holding before stack tokens (header typeString text.length ++ text)
  lenIs : len.toNat = text.length
  spaceIs : space.toNat + (text.length + 8) = 16 * tokens
  nonzero : 1 ≤ space.toNat
  few : space.toNat ≤ 16

/-- The first byte of a character is copied. -/
theorem Loading.first {text chars : List UInt8} {len space : UInt32}
    (loading : Loading before stack tokens text len space)
    (positive : 0 < chars.length) (small : text.length + chars.length < 2 ^ 32) :
    ∃ added measured, stack.putString before.count len.toNat (chars.take 1) = .ok added ∧
      added.putLen before.count (len + 1) = .ok measured ∧
      Holding before measured tokens (header typeString (text.length + 1) ++ (text ++ chars.take 1)) ∧
      (len + 1).toNat = text.length + 1 ∧ measured.count = stack.count ∧ measured.maximum = stack.maximum := by
  have single : (chars.take 1).length = 1 := by
    rw [List.length_take]
    omega
  have lenNext : (len + 1).toNat = text.length + 1 := by
    have one : (1 : UInt32).toNat = 1 := rfl
    rw [UInt32.toNat_add, loading.lenIs, one]
    exact Nat.mod_eq_of_lt (by omega)
  have room : 8 + text.length + (chars.take 1).length ≤ 16 * tokens := by
    have spaceIs := loading.spaceIs
    have nonzero := loading.nonzero
    omega
  rcases loading.holding.addText loading.lenIs room with ⟨added, put, held, count, maximum⟩
  rcases held.setLen (len + 1) with ⟨measured, putLen, heldNext, countNext, maximumNext⟩
  rw [lenNext] at heldNext
  exact ⟨added, measured, put, putLen, heldNext, lenNext, countNext.trans count, maximumNext.trans maximum⟩

/-- The other bytes of the character are copied, if there are any. -/
theorem copyRest_spec {text chars : List UInt8} {len space : UInt32}
    (holding : Holding before stack tokens (header typeString (text.length + 1) ++ (text ++ chars.take 1)))
    (lenIs : len.toNat = text.length + 1) (spaceIs : space.toNat + (text.length + 8 + 1) = 16 * tokens)
    (enough : chars.length ≤ space.toNat) (limit : space.toNat ≤ 15 + chars.length) (positive : 0 < chars.length)
    (short : chars.length ≤ 3) (small : text.length + chars.length < 2 ^ 32) :
    ∃ ready len' space', copyRest before.count chars stack len space = .ok (ready, len', space') ∧
      Loading before ready tokens (text ++ chars) len' space' ∧ ready.count = stack.count ∧
      ready.maximum = stack.maximum := by
  have one : (1 : UInt32).toNat = 1 := rfl
  have zero : (0 : UInt32).toNat = 0 := rfl
  have charsIs : (UInt32.ofNat chars.length).toNat = chars.length :=
    UInt32.toNat_ofNat_of_lt' (Nat.lt_of_le_of_lt short (by decide))
  have restIs : (UInt32.ofNat chars.length - 1).toNat = chars.length - 1 := by
    rw [UInt32.toNat_sub_of_le _ _ (UInt32.le_iff_toNat_le.mpr (by omega)), charsIs, one]
  have single : (chars.take 1).length = 1 := by
    rw [List.length_take]
    omega
  by_cases several : UInt32.ofNat chars.length - 1 > 0
  · have dropped : (chars.drop 1).length = chars.length - 1 := List.length_drop
    have place : len.toNat = (text ++ chars.take 1).length := by rw [List.length_append, lenIs, single]
    have room : 8 + (text ++ chars.take 1).length + (chars.drop 1).length ≤ 16 * tokens := by
      rw [List.length_append]
      omega
    rcases holding.addText place room with ⟨longer, put, held, count, maximum⟩
    rcases held.setLen (len + (UInt32.ofNat chars.length - 1)) with ⟨ready, putLen, whole, countLast, maximumLast⟩
    have lenLast : (len + (UInt32.ofNat chars.length - 1)).toNat = (text ++ chars).length := by
      rw [UInt32.toNat_add, lenIs, restIs, List.length_append]
      omega
    have spaceLast : (space - (UInt32.ofNat chars.length - 1)).toNat = space.toNat - (chars.length - 1) := by
      rw [UInt32.toNat_sub_of_le _ _ (UInt32.le_iff_toNat_le.mpr (by omega)), restIs]
    rw [List.append_assoc, List.take_append_drop, lenLast] at whole
    refine ⟨ready, len + (UInt32.ofNat chars.length - 1), space - (UInt32.ofNat chars.length - 1), ?_,
      ⟨whole, lenLast, ?_, ?_, ?_⟩,
      countLast.trans count, maximumLast.trans maximum⟩
    · rw [copyRest, if_pos several, put]
      simp only [ok_bind, putLen]
    · rw [spaceLast, List.length_append]
      omega
    · omega
    · omega
  · have alone : chars.length = 1 := by
      have none := UInt32.lt_iff_toNat_lt.not.mp several
      omega
    have lenLast : len.toNat = (text ++ chars).length := by rw [lenIs, List.length_append, alone]
    rw [List.take_of_length_le (Nat.le_of_eq alone), ← lenIs, lenLast] at holding
    refine ⟨stack, len, space, if_neg several, ⟨holding, lenLast, ?_, ?_, ?_⟩, rfl, rfl⟩
    · rw [List.length_append]
      omega
    · omega
    · omega

/-- The loop adds what is left of the string, and the tokens that are left. -/
theorem loadStringLoop_ends {fuel : Nat} {source behind : Source} {text whole : List UInt8} {len space : UInt32}
    (loading : Loading before stack tokens text len space) (started : before.count ≠ stackError)
    (reads : readChars fuel source text = some (whole, behind)) (small : whole.length < 2 ^ 32 - 32) {left : Nat}
    (rest : tokens + left = tokensFor whole.length) (canGrow : CanGrowSingly stack left) :
    Ends before grants (tokensFor whole.length) (header typeString whole.length ++ (whole ++ [0])) none (some behind)
      (loadStringLoop grants before.count fuel source stack len space) := by
  have spaceIs := loading.spaceIs
  have positive := loading.nonzero
  have few := loading.few
  induction fuel generalizing source text stack tokens len space grants left with
  | zero => cases reads
  | succ fuel ih =>
      rw [readChars] at reads
      rw [loadStringLoop]
      by_cases quote : source.peekChar = 34
      · rw [if_pos quote] at reads
        cases reads
        have room : 8 + whole.length + [(0 : UInt8)].length ≤ 16 * tokens := by
          rw [List.length_singleton]
          omega
        rcases loading.holding.addText loading.lenIs room with ⟨after, put, ended, _⟩
        have all : tokens = tokensFor whole.length := by
          rw [tokensFor]
          omega
        rw [if_pos quote, put]
        exact Or.inr ⟨after, rfl, all ▸ ended⟩
      · rw [if_neg quote] at reads
        rcases Option.bind_eq_some_iff.mp reads with ⟨⟨chars, next⟩, character, others⟩
        have longer : (text ++ chars).length ≤ whole.length := readChars_length others
        rcases character_behind character with ⟨_, _, nonempty, short⟩
        rw [List.length_append] at longer
        have charsIs : (UInt32.ofNat chars.length).toNat = chars.length :=
          UInt32.toNat_ofNat_of_lt' (Nat.lt_of_le_of_lt short (by decide))
        rcases loading.first nonempty (by omega) with ⟨added, measured, put, putLen, held, lenNext, same, sameMaximum⟩
        have canGrowNow : CanGrowSingly measured left := by
          rw [CanGrowSingly, same, sameMaximum]
          exact canGrow
        have canGrowFirst : space.toNat ≤ (UInt32.ofNat chars.length).toNat → CanGrow measured 1 := by
          intro full
          apply canGrowNow.first
          rw [tokensFor] at rest
          omega
        rw [if_neg quote, character]
        simp only [put, ok_bind, putLen]
        rcases @reserve_spec before measured tokens grants _ held started space (UInt32.ofNat chars.length)
          (text.length + 8)
            spaceIs positive few (by omega) (by omega) canGrowFirst with
          ⟨other, later, failed, refused⟩ |
            ⟨index, after, room, tokens', later, reserved, noError, heldAfter, roomIs, enough, limit, higher, how⟩
        · rw [failed]
          exact Or.inl ⟨_, rfl, rfl, 0, refused⟩
        · rw [charsIs] at enough limit
          rcases copyRest_spec heldAfter lenNext roomIs enough limit nonempty short (by omega) with
            ⟨ready, len', space', copied, loading', sameReady, sameReadyMaximum⟩
          have tokensLeft : tokens' + (tokensFor whole.length - tokens') = tokensFor whole.length := by
            rw [tokensFor] at rest ⊢
            omega
          have canGrowReady : CanGrowSingly ready (tokensFor whole.length - tokens') := by
            have split : left = tokens' - tokens + (tokensFor whole.length - tokens') := by omega
            refine CanGrowSingly.next (split ▸ canGrowNow) ?_ (sameReadyMaximum ▸ higher)
            rw [sameReady, heldAfter.count, held.count]
            omega
          have ends : Ends before later (tokensFor whole.length) (header typeString whole.length ++ (whole ++ [0])) none
              (some behind) (loadStringLoop later before.count fuel next ready len' space') :=
            ih loading' others tokensLeft canGrowReady loading'.spaceIs loading'.nonzero loading'.few
          rw [reserved]
          simp only [ok_bind, if_neg noError, copied]
          rcases how with ⟨_, rfl, _⟩ | ⟨_, rfl, _⟩
          · exact ends
          · exact ends.shift

theorem loadString_ends (sound : Sound before) {source behind : Source} {bytes : List UInt8}
    (reads : readString source = some (bytes, behind)) (small : bytes.length < 2 ^ 32 - 32)
    (canGrow : CanGrowSingly before (tokensFor bytes.length)) :
    Ends before grants (tokensFor bytes.length) (header typeString bytes.length ++ (bytes ++ [0])) none (some behind)
      (loadString grants before source) := by
  have positive : tokensFor bytes.length = 1 + (tokensFor bytes.length - 1) := by
    rw [tokensFor]
    omega
  have canGrowFirst : CanGrow before (1 : UInt32).toNat := canGrow.first (by omega)
  simp only [readString] at reads
  by_cases quote : source.skipSpace.peekChar = 34
  · rw [if_neg (not_not.mpr quote)] at reads
    simp only [loadString]
    rw [if_neg (not_not.mpr quote)]
    rcases sound.begin (grants 0) (show 0 < (1 : UInt32).toNat from Nat.one_pos) canGrowFirst with
      ⟨refused, failed⟩ | ⟨after, expanded, started, held, higher⟩
    · rw [failed]
      exact Or.inl ⟨before, rfl, rfl, 0, refused⟩
    · rcases held.head Nat.one_pos typeString 0 with ⟨middle, ready, putType, putLen, headed, count, maximum⟩
      have canGrowReady : CanGrowSingly ready (tokensFor bytes.length - 1) := by
        refine CanGrowSingly.next (positive ▸ canGrow) ?_ (maximum ▸ higher)
        rw [count]
        exact held.count
      rw [expanded]
      simp only [ok_bind, if_neg started, putType, putLen]
      apply Ends.shift
      exact loadStringLoop_ends ⟨headed, rfl, rfl, by decide, by decide⟩ started reads small positive.symm canGrowReady
  · rw [if_pos quote] at reads
    cases reads

end

/-! ## Copying a string -/

section

variable {before stack : RawStack} {tokens : Nat} {block : List UInt8} {grants : Nat → Option Memory}

/-- The loop adds what is left of the string to tokens that are full. -/
theorem pushMore_ends {text : List UInt8} (holding : Holding before stack tokens block)
    (full : block.length = 16 * tokens)
    (canGrow : CanGrowSingly stack (text.length / 16 + 1)) :
    Ends before grants (tokens + (text.length / 16 + 1)) (block ++ (text ++ [0])) false true
      (pushMore grants before.count text stack) := by
  induction size : text.length using Nat.strongRecOn generalizing text stack tokens block grants with
  | ind length ih =>
      subst size
      rw [pushMore]
      rcases holding.expand (grants 0) (canGrow.first (Nat.succ_pos _)) with
        ⟨refused, failed⟩ | ⟨after, expanded, noError, held, higher⟩
      · rw [failed]
        exact Or.inl ⟨_, rfl, rfl, 0, refused⟩
      · have place : 16 * stack.count.toNat + 0 = 16 * before.count.toNat + block.length := by
          have count := holding.count
          omega
        rw [expanded]
        simp only [ok_bind, if_neg noError]
        by_cases last : text.length < 16
        · have room : block.length + (text ++ [0]).length ≤ 16 * (tokens + 1) := by
            rw [List.length_append, List.length_singleton]
            omega
          rcases held.append place room with ⟨ended, put, whole, _⟩
          rw [if_pos last, put, Nat.div_eq_of_lt last]
          exact Or.inr ⟨ended, rfl, whole⟩
        · have sixteen : (text.take 16).length = 16 := by
            rw [List.length_take]
            omega
          have room : block.length + (text.take 16).length ≤ 16 * (tokens + 1) := by omega
          rcases held.append place room with ⟨longer, put, whole, count, maximum⟩
          have shorter : (text.drop 16).length = text.length - 16 := List.length_drop
          have split : text.length / 16 + 1 = 1 + ((text.drop 16).length / 16 + 1) := by omega
          have canGrowRest : CanGrowSingly longer ((text.drop 16).length / 16 + 1) := by
            refine CanGrowSingly.next (split ▸ canGrow) ?_ (maximum ▸ higher)
            rw [count, held.count, holding.count, Nat.add_assoc]
          have ends := @ih (text.drop 16).length (by omega) longer (tokens + 1) (block ++ text.take 16)
            (fun later => grants (later + 1)) (text.drop 16) whole (by rw [List.length_append]; omega) canGrowRest rfl
          have rejoin : block ++ text.take 16 ++ (text.drop 16 ++ [0]) = block ++ (text ++ [0]) := by
            rw [List.append_assoc, ← List.append_assoc (text.take 16), List.take_append_drop]
          rw [rejoin, Nat.add_assoc, ← split] at ends
          rw [if_neg last, put]
          exact ends.shift

theorem pushString_ends (sound : Sound before) {string bytes : List UInt8} {address : Nat} {type : UInt32}
    (clean : 0 ∉ bytes) (terminated : bytes ++ [0] <+: string) (noRef : type &&& flagRef = 0)
    (noOwn : type &&& flagOwn = 0) (small : bytes.length < 2 ^ 32 - 32)
    (canGrow : CanGrowSingly before (tokensFor bytes.length)) :
    Ends before grants (tokensFor bytes.length) (header (typeString ||| type) bytes.length ++ (bytes ++ [0])) false true
      (pushString grants before string address type) := by
  have strlen := CString.strlen_of_prefix clean terminated
  rcases terminated with ⟨rest, rfl⟩
  have canGrowFirst : CanGrow before (1 : UInt32).toNat := canGrow.first (tokensFor_pos _)
  have lenIs : (UInt32.ofNat bytes.length).toNat = bytes.length :=
    UInt32.toNat_ofNat_of_lt' (Nat.lt_of_lt_of_le small (by decide))
  rw [pushString]
  rcases sound.begin (grants 0) (show 0 < (1 : UInt32).toNat from Nat.one_pos) canGrowFirst with
    ⟨refused, failed⟩ | ⟨after, expanded, started, held, higher⟩
  · rw [failed]
    exact Or.inl ⟨before, rfl, rfl, 0, refused⟩
  · rcases held.head Nat.one_pos (typeString ||| type) (UInt32.ofNat bytes.length) with
      ⟨middle, ready, putType, putLen, headed, count, maximum⟩
    rw [lenIs] at headed
    have notLong : ¬ 2 ^ 32 ≤ bytes.length := by omega
    rw [expanded]
    simp only [ok_bind, if_neg started, noOwn, ne_eq, not_true_eq_false, if_false, putType, noRef, strlen,
      if_neg notLong,
      putLen]
    by_cases short : bytes.length < 8
    · have taken : (bytes ++ [0] ++ rest).take (bytes.length + 1) = bytes ++ [0] :=
        List.take_left' (by rw [List.length_append, List.length_singleton])
      have room : 8 + ([] : List UInt8).length + (bytes ++ [0]).length ≤ 16 * 1 := by
        rw [List.length_append, List.length_singleton, List.length_nil]
        omega
      have one : tokensFor bytes.length = 1 := by
        rw [tokensFor]
        omega
      rcases headed.addText rfl room with ⟨ended, put, whole, _⟩
      rw [List.nil_append] at whole
      rw [if_pos short, taken, one]
      exact Or.inr ⟨ended, by rw [show ready.putString before.count 0 (bytes ++ [0]) = .ok ended from put]; rfl, whole⟩
    · have taken : (bytes ++ [0] ++ rest).take 8 = bytes.take 8 := by
        rw [List.append_assoc]
        exact List.take_append_of_le_length (by omega)
      have rest' : ((bytes ++ [0] ++ rest).take bytes.length).drop 8 = bytes.drop 8 := by
        rw [List.append_assoc, List.take_left]
      have eight : (bytes.take 8).length = 8 := by
        rw [List.length_take]
        omega
      have room : 8 + ([] : List UInt8).length + (bytes.take 8).length ≤ 16 * 1 := by
        rw [eight]
        exact Nat.le_refl _
      rcases headed.addText rfl room with ⟨begun, put, front, countBegun, maximumBegun⟩
      rw [List.nil_append] at front
      have left : (bytes.drop 8).length = bytes.length - 8 := List.length_drop
      have all : 1 + ((bytes.drop 8).length / 16 + 1) = tokensFor bytes.length := by
        rw [tokensFor]
        omega
      have canGrowRest : CanGrowSingly begun ((bytes.drop 8).length / 16 + 1) := by
        refine CanGrowSingly.next (all.symm ▸ canGrow) ?_ ?_
        · rw [countBegun, count]
          exact held.count
        · rw [maximumBegun, maximum]
          exact higher
      have ends := @pushMore_ends before begun 1 _ (fun later => grants (later + 1)) (bytes.drop 8) front
        (by rw [List.length_append, header_length, eight]) canGrowRest
      have rejoin : header (typeString ||| type) bytes.length ++ bytes.take 8 ++ (bytes.drop 8 ++ [0]) =
          header (typeString ||| type) bytes.length ++ (bytes ++ [0]) := by
        rw [List.append_assoc, ← List.append_assoc (bytes.take 8), List.take_append_drop]
      rw [rejoin] at ends
      rw [if_neg short, taken, rest', ← all, show ready.putString before.count 0 (bytes.take 8) = .ok begun from put]
      exact ends.shift

end

/-! ## Reversing a string -/

section

variable {before stack : RawStack} {tokens : Nat} {grants : Nat → Option Memory}

/-- The bytes that are left replace those that are still in front. -/
theorem reverseLoop_spec {type : UInt32} {length i : Nat} {string filler done : List UInt8}
    (holding : Holding before stack tokens (header type length ++ (filler ++ done)))
    (left : filler.length = string.length) {len : Nat} (index : len = i + string.length) :
    ∃ after, reverseLoop before.count len string i stack = .ok after ∧
      Holding before after tokens (header type length ++ (string.reverse ++ done)) := by
  induction string generalizing filler done i stack with
  | nil =>
      rw [List.length_eq_zero_iff.mp left] at holding
      exact ⟨stack, rfl, holding⟩
  | cons byte string ih =>
      rcases List.eq_nil_or_concat filler with rfl | ⟨front, last, rfl⟩
      · cases left
      · rw [List.concat_eq_append] at holding left
        rw [List.length_append, List.length_singleton, List.length_cons] at left
        rw [List.length_cons] at index
        have frontLength : front.length = string.length := Nat.succ.inj left
        have split : header type length ++ (front ++ [last] ++ done) =
          header type length ++ front ++ [last] ++ done := by
          simp only [List.append_assoc]
        rw [split] at holding
        have place : 16 * before.count.toNat + (8 + (len - i - 1)) =
            16 * before.count.toNat + (header type length ++ front).length := by
          rw [List.length_append, header_length]
          omega
        have replaced : [byte].length = [last].length := rfl
        rcases holding.overwrite place replaced with ⟨written, put, held, _⟩
        have regroup : header type length ++ front ++ [byte] ++ done =
          header type length ++ (front ++ (byte :: done)) := by
          simp only [List.append_assoc, List.singleton_append]
        rw [regroup] at held
        rcases ih held frontLength (i := i + 1) (by omega) with ⟨after, loop, whole⟩
        refine ⟨after, ?_, ?_⟩
        · rw [reverseLoop, show stack.putString before.count (len - i - 1) [byte] = .ok written from put]
          exact loop
        · rw [List.reverse_cons, List.append_assoc, List.singleton_append]
          exact whole

/-- The bytes of a string and its length are passed, or a C string and 0. -/
def Passes (string : List UInt8) (len : Nat) (bytes : List UInt8) : Prop :=
  len ≠ 0 ∧ len = bytes.length ∧ bytes <+: string ∨ len = 0 ∧ 0 ∉ bytes ∧ bytes ++ [0] <+: string

theorem Passes.taken {string bytes : List UInt8} {len : Nat} (passes : Passes string len bytes) :
    (if len ≠ 0 then some len else CString.strlen string) = some bytes.length ∧ bytes <+: string := by
  rcases passes with ⟨nonzero, rfl, isPrefix⟩ | ⟨rfl, clean, terminated⟩
  · exact ⟨if_pos nonzero, isPrefix⟩
  · exact ⟨CString.strlen_of_prefix clean terminated, (List.prefix_append _ _).trans terminated⟩

theorem pushStringReversed_ends (sound : Sound before) {string bytes : List UInt8} {len : Nat}
    (passes : Passes string len bytes) (small : bytes.length < 2 ^ 32 - 32)
    (canGrow : CanGrow before (tokensFor bytes.length)) :
    Ends before grants (tokensFor bytes.length) (header (typeString ||| flagReversed) bytes.length ++
      (bytes.reverse ++ [0]))
      false true (pushStringReversed (grants 0) before string len) := by
  rcases passes.taken with ⟨length, isPrefix⟩
  have within := isPrefix.length_le
  have taken : string.take bytes.length = bytes := (List.prefix_iff_eq_take.mp isPrefix).symm
  have lenIs : (UInt32.ofNat bytes.length).toNat = bytes.length :=
    UInt32.toNat_ofNat_of_lt' (Nat.lt_of_lt_of_le small (by decide))
  have moreIs := reversed_tokens small
  have some := tokensFor_pos bytes.length
  have notLong : ¬ 2 ^ 32 ≤ bytes.length := by omega
  rw [pushStringReversed, length]
  simp only [if_neg notLong]
  rcases sound.begin (grants 0) (moreIs.symm ▸ some) (moreIs.symm ▸ canGrow) with
    ⟨refused, failed⟩ | ⟨after, expanded, started, held, _⟩
  · rw [failed]
    exact Or.inl ⟨before, rfl, rfl, 0, refused⟩
  · rw [moreIs] at held
    rcases held.head some (typeString ||| flagReversed) (UInt32.ofNat bytes.length) with
      ⟨middle, ready, putType, putLen, headed, _⟩
    rw [lenIs, List.append_nil] at headed
    have room : (header (typeString ||| flagReversed) bytes.length).length + bytes.length ≤
      16 * tokensFor bytes.length := by
      rw [header_length, tokensFor]
      omega
    rcases headed.extend room with ⟨filler, fillerLength, filled⟩
    rw [← List.append_nil filler] at filled
    rcases reverseLoop_spec filled fillerLength (Nat.zero_add _).symm with ⟨reversed, loop, whole⟩
    have last : 8 + (bytes.reverse ++ []).length + [(0 : UInt8)].length ≤ 16 * tokensFor bytes.length := by
      rw [List.append_nil, List.length_reverse, List.length_singleton, tokensFor]
      omega
    have place : bytes.length = (bytes.reverse ++ []).length := by rw [List.append_nil, List.length_reverse]
    rcases whole.addText place last with ⟨ended, put, done, _⟩
    rw [List.append_nil] at done
    rw [expanded]
    simp only [ok_bind, if_neg started, putType, putLen, if_neg (Nat.not_lt_of_le within), taken, loop, put]
    exact Or.inr ⟨ended, rfl, done⟩

/-! ## Identifiers -/

theorem identPushStack_ends (sound : Sound before) {typeIdent : UInt32} {ident bytes : List UInt8}
    (isPrefix : bytes <+: ident)
    (small : bytes.length < 2 ^ 32 - 32) (canGrow : CanGrow before (tokensFor bytes.length)) :
    Ends before grants (tokensFor bytes.length) (header typeIdent bytes.length ++ (bytes ++ [0])) false true
      (identPushStack typeIdent (grants 0) before ident bytes.length) := by
  have within := isPrefix.length_le
  have taken : ident.take bytes.length = bytes := (List.prefix_iff_eq_take.mp isPrefix).symm
  have lenIs : (UInt32.ofNat bytes.length).toNat = bytes.length :=
    UInt32.toNat_ofNat_of_lt' (Nat.lt_of_lt_of_le small (by decide))
  have moreIs := ident_tokens small
  have some := tokensFor_pos bytes.length
  rw [identPushStack]
  rcases sound.begin (grants 0) (moreIs.symm ▸ some) (moreIs.symm ▸ canGrow) with
    ⟨refused, failed⟩ | ⟨after, expanded, started, held, _⟩
  · rw [failed]
    exact Or.inl ⟨before, rfl, rfl, 0, refused⟩
  · rw [moreIs] at held
    rcases held.head some typeIdent (UInt32.ofNat bytes.length) with ⟨middle, ready, putType, putLen, headed, _⟩
    rw [lenIs] at headed
    have room : 8 + ([] : List UInt8).length + bytes.length ≤ 16 * tokensFor bytes.length := by
      rw [List.length_nil, tokensFor]
      omega
    rcases headed.addText rfl room with ⟨copied, putText, text, _⟩
    rw [List.nil_append] at text
    have last : 8 + bytes.length + [(0 : UInt8)].length ≤ 16 * tokensFor bytes.length := by
      rw [List.length_singleton, tokensFor]
      omega
    rcases text.addText rfl last with ⟨ended, put, done, _⟩
    rw [expanded]
    simp only [ok_bind, if_neg started, putType, putLen, if_neg (Nat.not_lt_of_le within), taken]
    rw [show ready.putString before.count 0 bytes = .ok copied from putText]
    simp only [ok_bind, put]
    exact Or.inr ⟨ended, rfl, done⟩

end

end RawStack

end Jitson
end LibKit
