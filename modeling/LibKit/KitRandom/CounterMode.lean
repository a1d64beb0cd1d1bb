import LibKit.KitRandom.Chacha

namespace LibKit
namespace KitRandom

/-!
# ChaCha in counter mode

The key stream of a context is a function of the place in it.  Encryption masks
a text with the stream and moves the counter behind the last block, so it undoes
itself, and a text may be cut wherever a block ends.
-/

/-! ## The counter -/

theorem withCounter_get (j : Context) (count place : Nat) (inside : place < 16) :
    (withCounter j count)[place] =
      if place = 12 then BitVec.ofNat 32 count else if place = 13 then BitVec.ofNat 32 (count / 2 ^ 32)
        else j[place] := by
  rw [withCounter]
  by_cases low : place = 12
  · subst low
    rw [Vector.getElem_set_ne _ _ (by decide), Vector.getElem_set_self, if_pos rfl]
  · rw [if_neg low]
    by_cases high : place = 13
    · subst high
      rw [Vector.getElem_set_self, if_pos rfl]
    · rw [Vector.getElem_set_ne _ _ (fun same => high same.symm), Vector.getElem_set_ne _ _ (fun same => low same.symm),
        if_neg high]

theorem counter_withCounter (j : Context) (count : Nat) : counter (withCounter j count) = count % 2 ^ 64 := by
  rw [counter, withCounter_get, withCounter_get, if_pos rfl, if_neg (by decide), if_pos rfl, BitVec.toNat_ofNat,
    BitVec.toNat_ofNat]
  omega

theorem withCounter_withCounter (j : Context) (first second : Nat) :
    withCounter (withCounter j first) second = withCounter j second := by
  apply Vector.ext
  intro place inside
  rw [withCounter_get, withCounter_get, withCounter_get]
  split
  · rfl
  · split <;> rfl

theorem withCounter_counter (j : Context) : withCounter j (counter j) = j := by
  have low := j[12].isLt
  apply Vector.ext
  intro place inside
  rw [withCounter_get]
  split
  · next here =>
      subst here
      apply BitVec.eq_of_toNat_eq
      rw [BitVec.toNat_ofNat, counter]
      omega
  · split
    · next here =>
        subst here
        apply BitVec.eq_of_toNat_eq
        rw [BitVec.toNat_ofNat, counter]
        omega
    · rfl

theorem withCounter_congr (j : Context) {first second : Nat} (same : first % 2 ^ 64 = second % 2 ^ 64) :
    withCounter j first = withCounter j second := by
  have low : BitVec.ofNat 32 first = BitVec.ofNat 32 second := by
    apply BitVec.eq_of_toNat_eq
    rw [BitVec.toNat_ofNat, BitVec.toNat_ofNat]
    omega
  have high : BitVec.ofNat 32 (first / 2 ^ 32) = BitVec.ofNat 32 (second / 2 ^ 32) := by
    apply BitVec.eq_of_toNat_eq
    rw [BitVec.toNat_ofNat, BitVec.toNat_ofNat]
    omega
  rw [withCounter, withCounter, low, high]

/-- The carry from `j12` to `j13` makes one counter of 64 bits of them. -/
theorem nextCounter_eq (j : Context) : nextCounter j = withCounter j (counter j + 1) := by
  have low := j[12].isLt
  have bumped : (j.set 12 (j[12] + 1))[12] = j[12] + 1 := Vector.getElem_set_self ..
  have added : (j[12] + 1).toNat = (j[12].toNat + 1) % 2 ^ 32 := by
    rw [BitVec.toNat_add]
    rfl
  have first : j[12] + 1 = BitVec.ofNat 32 (counter j + 1) := by
    apply BitVec.eq_of_toNat_eq
    rw [added, BitVec.toNat_ofNat, counter]
    omega
  have kept : (j.set 12 (j[12] + 1))[13] = j[13] := Vector.getElem_set_ne _ _ (by decide)
  rw [nextCounter, bumped, kept]
  by_cases wrapped : j[12] + 1 = 0
  · have full : j[12].toNat = 2 ^ 32 - 1 := by
      have zero := congrArg BitVec.toNat wrapped
      rw [added] at zero
      change (j[12].toNat + 1) % 2 ^ 32 = 0 at zero
      omega
    have second : j[13] + 1 = BitVec.ofNat 32 ((counter j + 1) / 2 ^ 32) := by
      apply BitVec.eq_of_toNat_eq
      have one : (1 : Word).toNat = 1 := rfl
      rw [BitVec.toNat_add, BitVec.toNat_ofNat, counter, full, one]
      omega
    rw [if_pos wrapped, second, first, withCounter]
  · have room : j[12].toNat + 1 < 2 ^ 32 := by
      refine Classical.byContradiction fun much => wrapped (BitVec.eq_of_toNat_eq ?_)
      rw [added]
      change (j[12].toNat + 1) % 2 ^ 32 = 0
      omega
    have second : j[13] = BitVec.ofNat 32 ((counter j + 1) / 2 ^ 32) := by
      apply BitVec.eq_of_toNat_eq
      have high := j[13].isLt
      rw [BitVec.toNat_ofNat, counter]
      omega
    rw [if_neg wrapped, first, withCounter, ← second]
    apply Vector.ext
    intro place inside
    by_cases here : place = 13
    · subst here
      rw [Vector.getElem_set_self, Vector.getElem_set_ne _ _ (by decide)]
    · rw [Vector.getElem_set_ne (i := 13) _ _ fun same => here same.symm]

/-! ## The key stream -/

/-- The byte at a place of the key stream that begins with the counter. -/
def keyByte (x : Context) (place : Nat) : UInt8 :=
  Words.part ((blockWords (withCounter x (counter x + place / 64))).toList.getD (place % 64 / 4) 0) (8 * (place % 4))

theorem keyByte_withCounter (x : Context) (blocks place : Nat) :
    keyByte (withCounter x (counter x + blocks)) place = keyByte x (64 * blocks + place) := by
  have same : withCounter (withCounter x (counter x + blocks)) (counter (withCounter x (counter x + blocks)) +
    place / 64) =
      withCounter x (counter x + (64 * blocks + place) / 64) := by
    rw [withCounter_withCounter, counter_withCounter]
    apply withCounter_congr
    omega
  have word : (64 * blocks + place) % 64 = place % 64 := by omega
  have byte : (64 * blocks + place) % 4 = place % 4 := by omega
  rw [keyByte, keyByte, same, word, byte]

/-- Groups of four make a list together. -/
theorem flatMap_four (f : Nat → UInt8) (count : Nat) :
    ((List.range count).flatMap fun word => [f (4 * word), f (4 * word + 1), f (4 * word + 2), f (4 * word + 3)]) =
      (List.range (4 * count)).map f := by
  induction count with
  | zero => rfl
  | succ count ih =>
      rw [List.range_succ, List.flatMap_append, List.flatMap_singleton, ih, Nat.mul_succ, List.range_add,
        List.map_append,
        List.map_map]
      rfl

theorem split_xor (word : Word) (m : List UInt8) (offset : Nat) :
    Words.split (word ^^^ u8To32Little m offset) =
      [Words.part word 0 ^^^ m.getD offset 0, Words.part word 8 ^^^ m.getD (offset + 1) 0,
        Words.part word 16 ^^^ m.getD (offset + 2) 0, Words.part word 24 ^^^ m.getD (offset + 3) 0] := by
  have parts := Words.split_join (m.getD offset 0) (m.getD (offset + 1) 0) (m.getD (offset + 2) 0)
    (m.getD (offset + 3) 0)
  rw [← u8To32Little, Words.split] at parts
  injection parts with first parts
  injection parts with second parts
  injection parts with third parts
  injection parts with fourth _
  rw [Words.split, Words.part_xor, Words.part_xor, Words.part_xor, Words.part_xor, first, second, third, fourth]

theorem outputBlock_eq (j : Context) (m : List UInt8) :
    outputBlock j m = (List.range 64).map fun place => keyByte j place ^^^ m.getD place 0 := by
  have group : ∀ word ∈ List.range 16,
      Words.split ((blockWords j).toList.getD word 0 ^^^ u8To32Little m (4 * word)) =
        [keyByte j (4 * word) ^^^ m.getD (4 * word) 0, keyByte j (4 * word + 1) ^^^ m.getD (4 * word + 1) 0,
          keyByte j (4 * word + 2) ^^^ m.getD (4 * word + 2) 0,
            keyByte j (4 * word + 3) ^^^ m.getD (4 * word + 3) 0] := by
    intro word inside
    have bound := List.mem_range.mp inside
    have byte : ∀ index < 4, keyByte j (4 * word + index) =
      Words.part ((blockWords j).toList.getD word 0) (8 * index) := by
      intro index small
      have block : (4 * word + index) / 64 = 0 := by omega
      have place : (4 * word + index) % 64 / 4 = word := by omega
      have shift : (4 * word + index) % 4 = index := by omega
      rw [keyByte, block, place, shift, Nat.add_zero, withCounter_counter]
    rw [split_xor, byte 1 (by decide), byte 2 (by decide), byte 3 (by decide)]
    have zero := byte 0 (by decide)
    rw [Nat.add_zero] at zero
    rw [zero]
  have joined := flatMap_four (fun place => keyByte j place ^^^ m.getD place 0) 16
  rw [outputBlock, List.flatMap_congr group]
  exact joined

theorem outputBlock_full (j : Context) {m : List UInt8} (full : 64 ≤ m.length) :
    outputBlock j m = Keystream.mask (keyByte j) 0 (m.take 64) := by
  have width : (m.take 64).length = 64 := by
    rw [List.length_take]
    omega
  rw [outputBlock_eq, Keystream.mask_eq_map, width]
  apply List.map_congr_left
  intro place inside
  have bound := List.mem_range.mp inside
  rw [Nat.zero_add, List.getD_eq_getElem?_getD, List.getD_eq_getElem?_getD, List.getElem?_take_of_lt bound]

theorem outputBlock_partial (j : Context) {m : List UInt8} (short : m.length ≤ 64) :
    (outputBlock j m).take m.length = Keystream.mask (keyByte j) 0 m := by
  rw [outputBlock_eq, Keystream.mask_eq_map, ← List.map_take, List.take_range, Nat.min_eq_left short]
  apply List.map_congr_left
  intro place _
  rw [Nat.zero_add]

/-! ## Encryption -/

theorem encryptLoop_eq (j : Context) (m : List UInt8) (some : 0 < m.length) :
    encryptLoop j m = (Keystream.mask (keyByte j) 0 m, withCounter j (counter j + (m.length + 63) / 64)) := by
  induction m using (measure List.length).wf.induction generalizing j with
  | h m ih =>
      rw [encryptLoop]
      by_cases more : 64 < m.length
      · have shorter : (m.drop 64).length = m.length - 64 := List.length_drop
        have rest := ih (m.drop 64) (by change (m.drop 64).length < m.length; omega) (nextCounter j) (by omega)
        have stream : Keystream.mask (keyByte (nextCounter j)) 0 (m.drop 64) =
          Keystream.mask (keyByte j) 64 (m.drop 64) := by
          apply Keystream.mask_congr
          intro place _
          rw [nextCounter_eq, keyByte_withCounter, Nat.zero_add, Nat.mul_one]
        have width : (m.take 64).length = 64 := by
          rw [List.length_take]
          omega
        have count : withCounter (nextCounter j) (counter (nextCounter j) + ((m.drop 64).length + 63) / 64) =
            withCounter j (counter j + (m.length + 63) / 64) := by
          rw [nextCounter_eq, withCounter_withCounter, counter_withCounter, shorter]
          apply withCounter_congr
          omega
        rw [if_pos more, rest]
        dsimp only
        rw [count, stream, outputBlock_full j (by omega)]
        conv_rhs => rw [← List.take_append_drop 64 m, Keystream.mask_append, width, Nat.zero_add, List.take_append_drop]
      · have one : (m.length + 63) / 64 = 1 := by omega
        rw [if_neg more, outputBlock_partial j (by omega), nextCounter_eq, one]

/-- Every byte of the text is combined with the key stream at its place, and the counter goes on
with the blocks that were begun. -/
theorem encryptBytes_eq (x : Context) (m : List UInt8) :
    encryptBytes x m = (Keystream.mask (keyByte x) 0 m, withCounter x (counter x + (m.length + 63) / 64)) := by
  rw [encryptBytes]
  by_cases none : m.length = 0
  · have same : counter x + (([] : List UInt8).length + 63) / 64 = counter x := rfl
    rw [if_pos none, List.length_eq_zero_iff.mp none, same, withCounter_counter, Keystream.mask]
  · rw [if_neg none, encryptLoop_eq x m (Nat.pos_of_ne_zero none)]

/-- The cipher undoes itself, with the same counter behind it, and a text may be cut where a block
ends: the second part goes on with the counter that the first one left. -/
theorem encryptBytes_counterMode (x : Context) (m : List UInt8) :
    encryptBytes x (encryptBytes x m).1 = (m, (encryptBytes x m).2) ∧
      ∀ blocks, 64 * blocks ≤ m.length →
        encryptBytes x m =
          ((encryptBytes x (m.take (64 * blocks))).1 ++
              (encryptBytes (encryptBytes x (m.take (64 * blocks))).2 (m.drop (64 * blocks))).1,
            (encryptBytes (encryptBytes x (m.take (64 * blocks))).2 (m.drop (64 * blocks))).2) := by
  refine ⟨?_, ?_⟩
  · simp only [encryptBytes_eq, Keystream.mask_mask, Keystream.mask_length]
  · intro blocks inside
    have width : (m.take (64 * blocks)).length = 64 * blocks := by
      rw [List.length_take]
      omega
    have count : (64 * blocks + 63) / 64 = blocks := by omega
    have stream : Keystream.mask (keyByte (withCounter x (counter x + blocks))) 0 (m.drop (64 * blocks)) =
        Keystream.mask (keyByte x) (64 * blocks) (m.drop (64 * blocks)) := by
      apply Keystream.mask_congr
      intro place _
      rw [keyByte_withCounter, Nat.zero_add]
    have behind : withCounter (withCounter x (counter x + blocks))
        (counter (withCounter x (counter x + blocks)) + ((m.drop (64 * blocks)).length + 63) / 64) =
          withCounter x (counter x + (m.length + 63) / 64) := by
      rw [withCounter_withCounter, counter_withCounter, List.length_drop]
      apply withCounter_congr
      omega
    simp only [encryptBytes_eq, width, count]
    rw [stream, behind]
    conv_lhs => rw [← List.take_append_drop (64 * blocks) m, Keystream.mask_append, width, Nat.zero_add,
      List.take_append_drop]

end KitRandom
end LibKit
