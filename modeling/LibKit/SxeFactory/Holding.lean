import LibKit.SxeFactory.Model

namespace LibKit
namespace SxeFactory

/-!
# What a factory holds

The block of a factory starts with the data that was committed since the last
was removed, and a NUL behind it, and is as large as the size that is kept also
when there is no block.  Removing what is not there allocates it.
-/

/-! ## What was added -/

/-- The bytes that `sxe_factory_add` adds. -/
def taken (data : List UInt8) (len : UInt64) : List UInt8 :=
  if len ≠ 0 then data.take len.toNat else CString.text data

/-- The data after a call, if any was allocated since the last was removed. -/
def Call.content (content : Option (List UInt8)) (answer : Answer) : Call → Option (List UInt8)
  | .add data len _ => if answer = .added (-1) then content else some (content.getD [] ++ taken data len)
  | .reserve _ written count _ =>
      if answer = .reserved none then content else some (content.getD [] ++ written.take count.toNat)
  | .look => content
  | .remove _ => none

def content : History Call Answer → Option (List UInt8)
  | [] => none
  | (call, answer) :: history => call.content (content history) answer

/-- What is added can be read, no more is written than was reserved, and no more
committed than was written.  The data has less than 2^63 bytes. -/
def Call.Allowed (content : Option (List UInt8)) : Call → Prop
  | .add data len _ => (len = 0 → 0 ∈ data) ∧ len.toNat ≤ data.length ∧
      (content.getD []).length + (taken data len).length < 2 ^ 63
  | .reserve len written count _ => (content.getD []).length + len.toNat < 2 ^ 63 ∧ written.length ≤ len.toNat ∧
      count.toNat ≤ written.length
  | _ => True

/-! ## What is seen -/

/-- A pointer to the data, which ends with a NUL, and its length, or `NULL` if
there is none. -/
def Holds (data : Option (List UInt8)) (len : UInt64) : Option (List UInt8) → Prop
  | none => data = none ∧ len = 0
  | some bytes => ∃ block, data = some block ∧ len.toNat = bytes.length ∧ block.take bytes.length = bytes ∧
      block[bytes.length]? = some 0

/-- What a call returns: nothing changes if it fails, which it does only if the
allocation does. -/
def Call.Right (content : Option (List UInt8)) (factory : Factory) (answer : Answer) (next : Factory) : Call → Prop
  | .add data len grant => (answer = .added (-1) ∧ next = factory ∧ grant = none) ∨
      ∃ result, answer = .added result ∧ result.toInt = (taken data len).length
  | .reserve _ _ _ grant => (answer = .reserved none ∧ next = factory ∧ grant = none) ∨
      ∃ place, answer = .reserved (some place) ∧ place.toNat = (content.getD []).length
  | .look => (∃ data len, answer = .seen data len ∧ Holds data len content) ∧ next = factory
  | .remove _ => (∃ data len, answer = .seen data len ∧ Holds data len content) ∧
      next = { factory with data := none, len := 0 }

/-- A call returns, what it returns is right, and the factory holds the data. -/
def Call.Behaves (content : Option (List UInt8)) (factory : Factory) (call : Call) : Prop :=
  ∃ answer next, call.run factory = .ok (answer, next) ∧ call.Right content factory answer next ∧
    Holds next.data next.len (call.content content answer)

/-- There is data to remove, or no block for it can be allocated, or none is
asked for. -/
def Call.Meets (factory : Factory) : Call → Prop
  | .remove answer => factory.data ≠ none ∨ factory.size ≤ 1 ∨ answer = none
  | _ => True

/-! ## Growing -/

theorem shiftLeft_one_toNat (size : UInt64) : (size <<< 1).toNat = 2 * size.toNat % 2 ^ 64 := by
  have one : (1 : UInt64).toNat = 1 := rfl
  rw [UInt64.toNat_shiftLeft, one, Nat.shiftLeft_eq]
  norm_num [Nat.mul_comm]

/-- The loop ends, since every round makes the size larger. -/
theorem grow_ends {needed maxincr newsize : UInt64} {fuel : Nat} (few : needed.toNat ≤ 2 ^ 63)
    (positive : 0 < newsize.toNat)
    (grows : 0 < maxincr.toNat) (enough : needed.toNat ≤ newsize.toNat + fuel) :
    ∃ size, grow needed maxincr fuel newsize = some size ∧ needed.toNat ≤ size.toNat ∧ newsize.toNat ≤ size.toNat := by
  induction fuel generalizing newsize with
  | zero =>
      refine ⟨newsize, ?_, enough, le_rfl⟩
      rw [grow, if_neg]
      rw [UInt64.lt_iff_toNat_lt]
      omega
  | succ fuel ih =>
      by_cases less : newsize < needed
      · have isLess := UInt64.lt_iff_toNat_lt.mp less
        have larger : newsize.toNat < (if maxincr ≤ newsize then newsize + maxincr else newsize <<< 1).toNat := by
          split
          · rename_i large
            have isLarge := UInt64.le_iff_toNat_le.mp large
            rw [UInt64.toNat_add]
            omega
          · rw [shiftLeft_one_toNat]
            omega
        rcases ih (positive.trans larger) (by omega) with ⟨size, grown, isEnough, isLarger⟩
        refine ⟨size, ?_, isEnough, by omega⟩
        rw [grow, if_pos less]
        exact grown
      · refine ⟨newsize, ?_, ?_, le_rfl⟩
        · rw [grow, if_neg less]
        · have isEnough := mt UInt64.lt_iff_toNat_lt.mpr less
          omega

/-! ## Blocks -/

theorem take_congr {first second : List UInt8} {count : Nat}
    (same : ∀ index, index < count → first[index]? = second[index]?) :
    first.take count = second.take count := by
  apply List.ext_getElem?
  intro index
  rw [List.getElem?_take, List.getElem?_take]
  split
  · rename_i inside
    exact same index inside
  · rfl

theorem kitRealloc_length {block : Option (List UInt8)} {size : UInt64} {answer : Option (Nat → UInt8)}
    {after : List UInt8}
    (given : kitRealloc block size answer = some after) : after.length = size.toNat := by
  rcases Option.map_eq_some_iff.mp given with ⟨fresh, -, rfl⟩
  rw [List.length_map, List.length_range]

theorem kitRealloc_keeps {old : List UInt8} {size : UInt64} {answer : Option (Nat → UInt8)} {after : List UInt8}
    (given : kitRealloc (some old) size answer = some after) {index : Nat} (inside : index < old.length)
    (below : index < size.toNat) : after[index]? = old[index]? := by
  rcases Option.map_eq_some_iff.mp given with ⟨fresh, -, rfl⟩
  rw [List.getElem?_map, List.getElem?_range below, Option.map_some, Option.getD_some, List.getElem?_eq_getElem inside]
  rfl

theorem kitRealloc_none {block : Option (List UInt8)} {size : UInt64} {answer : Option (Nat → UInt8)} :
    kitRealloc block size answer = none ↔ answer = none := Option.map_eq_none_iff

section

variable {data bytes : List UInt8} {place : Nat}

theorem splice_length (inside : place + bytes.length ≤ data.length) :
    (data.take place ++ bytes ++ data.drop (place + bytes.length)).length = data.length := by
  rw [List.length_append, List.length_append, List.length_take, List.length_drop]
  omega

theorem splice_take {count : Nat} (inside : place + bytes.length ≤ data.length) (few : count ≤ bytes.length) :
    (data.take place ++ bytes ++ data.drop (place + bytes.length)).take
    (place + count) = data.take place ++ bytes.take count := by
  have length : (data.take place).length = place := by
    rw [List.length_take]
    omega
  rw [List.append_assoc, List.take_append, length, Nat.add_sub_cancel_left, List.take_append_of_le_length few,
    List.take_of_length_le (by omega)]

theorem splice_get (inside : place + 1 ≤ data.length) (byte : UInt8) :
    (data.take place ++ [byte] ++ data.drop (place + 1))[place]? = some byte := by
  have length : (data.take place).length = place := by
    rw [List.length_take]
    omega
  rw [List.append_assoc, List.getElem?_append_right (by omega), length, Nat.sub_self]
  rfl

end

/-! ## Factories -/

section

variable {held : Option (List UInt8)} {factory : Factory}

/-- A factory that holds data; its size is that of its block. -/
structure Sound (held : Option (List UInt8)) (factory : Factory) : Prop where
  holds : Holds factory.data factory.len held
  size : 0 < factory.size.toNat
  incr : 0 < factory.maxincr.toNat
  fits : ∀ data, factory.data = some data → data.length = factory.size.toNat

theorem Sound.len (sound : Sound held factory) : factory.len.toNat = (held.getD []).length := by
  have holds := sound.holds
  cases held with
  | none =>
      rw [holds.2]
      rfl
  | some bytes =>
      rcases holds with ⟨block, -, length, -⟩
      exact length

theorem allocMake_sound (minsize maxincr : UInt64) : Sound none (allocMake minsize maxincr) := by
  have positive : ∀ (value other : UInt64), other ≠ 0 → 0 < (if value ≠ 0 then value else other).toNat := by
    intro value other isOther
    apply Nat.pos_of_ne_zero
    intro zero
    split at zero
    · rename_i notZero
      exact notZero (UInt64.toNat_inj.mp zero)
    · exact isOther (UInt64.toNat_inj.mp zero)
  refine ⟨⟨rfl, rfl⟩, positive minsize 8 (by decide), positive maxincr 4096 (by decide), ?_⟩
  rintro data ⟨⟩

/-- A factory with as much space as was reserved. -/
structure Spacious (held : Option (List UInt8)) (factory : Factory) (len : Nat) (next : Factory)
    (data : List UInt8) : Prop where
  block : next.data = some data
  same : next.len = factory.len
  size : data.length = next.size.toNat
  incr : next.maxincr = factory.maxincr
  starts : data.take (held.getD []).length = held.getD []
  space : (held.getD []).length + len + 1 ≤ data.length

/-- `sxe_factory_reserve` changes nothing, or finds the space. -/
theorem Sound.reserve {len : UInt64} {answer : Option (Nat → UInt8)} (sound : Sound held factory)
    (few : (held.getD []).length + len.toNat < 2 ^ 63) :
    (SxeFactory.reserve len answer factory = .ok (none, factory) ∧ answer = none) ∨
      ∃ next data, SxeFactory.reserve len answer factory = .ok (some factory.len, next) ∧
        Spacious held factory len.toNat next data := by
  have isLen := sound.len
  have isNeeded : (factory.len + len + 1).toNat = (held.getD []).length + len.toNat + 1 := by
    have one : (1 : UInt64).toNat = 1 := rfl
    rw [UInt64.toNat_add, UInt64.toNat_add, isLen]
    omega
  unfold SxeFactory.reserve
  dsimp only
  by_cases full : factory.size < factory.len + len + 1 ∨ factory.data = none
  · rw [if_pos full]
    rcases @grow_ends (factory.len + len + 1) factory.maxincr factory.size (2 ^ 64)
      (by omega) sound.size sound.incr (by omega)
      with ⟨size, grown, enough, -⟩
    rw [grown]
    dsimp only
    cases given : kitRealloc factory.data size answer with
    | none => exact .inl ⟨rfl, kitRealloc_none.mp given⟩
    | some data =>
        refine .inr ⟨_, data, rfl, rfl, rfl, kitRealloc_length given, rfl, ?_, ?_⟩
        · have holds := sound.holds
          cases held with
          | none => rfl
          | some bytes =>
              rcases holds with ⟨block, isBlock, length, starts, ends⟩
              have inside : bytes.length < block.length := (List.getElem?_eq_some_iff.mp ends).1
              rw [isBlock] at given
              rw [Option.getD_some] at isNeeded ⊢
              refine (take_congr fun index below => ?_).trans starts
              exact kitRealloc_keeps given (below.trans inside) (by omega)
        · rw [kitRealloc_length given]
          omega
  · rw [if_neg full]
    rw [not_or] at full
    rcases Option.ne_none_iff_exists'.mp full.2 with ⟨data, isData⟩
    have enough := mt UInt64.lt_iff_toNat_lt.mpr full.1
    have length := sound.fits data isData
    refine .inr ⟨factory, data, rfl, isData, rfl, length, rfl, ?_, by omega⟩
    have holds := sound.holds
    cases held with
    | none => rfl
    | some bytes =>
        rcases holds with ⟨block, isBlock, -, starts, -⟩
        cases isData.symm.trans isBlock
        exact starts

/-- What is written to the space, and committed, is added to the data. -/
theorem Spacious.fill {len : Nat} {next : Factory} {data written : List UInt8} {count : UInt64}
    (spacious : Spacious held factory len next data) (sound : Sound held factory) (few : written.length ≤ len)
    (committed : count.toNat ≤ written.length) :
    ∃ middle after, store factory.len written next = .ok middle ∧ commit count middle = .ok after ∧
      Sound (some (held.getD [] ++ written.take count.toNat)) after := by
  have isLen := sound.len
  have space := spacious.space
  have starts := spacious.starts
  have below := UInt64.toNat_lt next.size
  have size := spacious.size
  have isCount : (next.len + count).toNat = (held.getD []).length + count.toNat := by
    rw [spacious.same, UInt64.toNat_add, isLen]
    omega
  have stored : store factory.len written next = .ok { next with
      data := some (data.take (held.getD []).length ++ written ++
        data.drop ((held.getD []).length + written.length)) } := by
    unfold store
    rw [spacious.block, isLen]
    dsimp only
    rw [if_pos (by omega)]
  have inside : (held.getD []).length + written.length ≤ data.length := by omega
  have length := splice_length inside
  have front := splice_take inside committed
  generalize data.take (held.getD []).length ++ written ++ data.drop ((held.getD []).length + written.length) =
    block at *
  have room : (held.getD []).length + count.toNat + 1 ≤ block.length := by omega
  refine ⟨_, { next with
    data := some (block.take ((held.getD []).length + count.toNat) ++ [0] ++
      block.drop ((held.getD []).length + count.toNat + 1))
    len := next.len + count }, stored, ?_, ?_⟩
  · unfold commit store
    dsimp only
    rw [isCount, List.length_singleton, if_pos room]
  · have isLength : (held.getD [] ++ written.take count.toNat).length = (held.getD []).length + count.toNat := by
      rw [List.length_append, List.length_take]
      omega
    refine ⟨⟨_, rfl, ?_, ?_, ?_⟩, ?_, ?_, ?_⟩
    · rw [isLength]
      exact isCount
    · have first := @splice_take block [0] ((held.getD []).length + count.toNat) 0 room (Nat.zero_le _)
      rw [List.take_zero, List.append_nil, Nat.add_zero, List.length_singleton] at first
      rw [isLength, first, front, starts]
    · rw [isLength]
      exact splice_get room 0
    · dsimp only
      omega
    · rw [spacious.incr]
      exact sound.incr
    · rintro _ ⟨⟩
      have second := @splice_length block [0] ((held.getD []).length + count.toNat) room
      rw [List.length_singleton] at second
      rw [second, length]
      exact size

/-! ## Calls -/

theorem taken_length {data : List UInt8} {len : UInt64} (inside : len.toNat ≤ data.length) (notZero : len ≠ 0) :
    taken data len = data.take len.toNat ∧ (taken data len).length = len.toNat := by
  rw [taken, if_pos notZero, List.length_take]
  exact ⟨rfl, min_eq_left inside⟩

theorem taken_eq {data : List UInt8} {len : UInt64} (allowed : (len = 0 → 0 ∈ data) ∧ len.toNat ≤ data.length)
    (few : (taken data len).length < 2 ^ 63) : ∃ count : UInt64,
      (if len ≠ 0 then some len else (CString.strlen data).map UInt64.ofNat) = some count ∧
      count.toNat = (taken data len).length ∧ data.take count.toNat = taken data len ∧ count.toNat ≤ data.length := by
  by_cases zero : len = 0
  · have ends := allowed.1 zero
    have isTaken : taken data len = CString.text data := by
      rw [taken, if_neg (not_not.mpr zero)]
    rw [isTaken] at few ⊢
    have isCount : (UInt64.ofNat (CString.text data).length).toNat = (CString.text data).length :=
      UInt64.toNat_ofNat_of_lt' (few.trans (by decide))
    refine ⟨UInt64.ofNat (CString.text data).length, ?_, isCount, ?_, ?_⟩
    · rw [if_neg (not_not.mpr zero), CString.strlen, if_pos ends]
      rfl
    · rw [isCount]
      exact CString.take_text_length data
    · rw [isCount]
      exact (CString.text_length_lt ends).le
  · rcases taken_length allowed.2 zero with ⟨isTaken, length⟩
    exact ⟨len, if_pos zero, length.symm, isTaken.symm, allowed.2⟩

theorem add_behaves {data : List UInt8} {len : UInt64} {grant : Option (Nat → UInt8)} (sound : Sound held factory)
    (allowed : (Call.add data len grant).Allowed held) :
    ∃ answer next, (Call.add data len grant).run factory = .ok (answer, next) ∧
      (Call.add data len grant).Right held factory answer next ∧ Sound
      ((Call.add data len grant).content held answer) next := by
  rcases allowed with ⟨ends, inside, few⟩
  have fewTaken : (taken data len).length < 2 ^ 63 := by omega
  rcases taken_eq ⟨ends, inside⟩ fewTaken with ⟨count, isCount, length, isTaken, readable⟩
  have isInt : count.toInt64.toInt = (taken data len).length := by
    rw [← length, ← UInt64.ofNat_toNat (x := count), UInt64.toInt64_ofNat', UInt64.ofNat_toNat]
    exact Int64.toInt_ofNat_of_lt (by omega)
  have isRun : (Call.add data len grant).run factory =
      (SxeFactory.add data len grant factory >>= fun done => .ok (.added done.1, done.2)) := rfl
  rcases @Sound.reserve held factory count grant sound (by omega) with
    ⟨failed, isNone⟩ | ⟨next, block, reserved, spacious⟩
  · have isAdd : SxeFactory.add data len grant factory = .ok (-1, factory) := by
      unfold SxeFactory.add
      rewrite [isCount]
      dsimp only
      rewrite [failed]
      rfl
    rw [isRun, isAdd]
    refine ⟨.added (-1), factory, rfl, .inl ⟨rfl, rfl, isNone⟩, ?_⟩
    rw [Call.content, if_pos rfl]
    exact sound
  · rcases @Spacious.fill held factory count.toNat next block (data.take count.toNat) count spacious sound
      (by rw [List.length_take]; omega) (by rw [List.length_take]; omega) with
      ⟨middle, after, stored, committed, isSound⟩
    have isAdd : SxeFactory.add data len grant factory = .ok (count.toInt64, after) := by
      unfold SxeFactory.add
      rewrite [isCount]
      dsimp only
      rewrite [reserved]
      rewrite [ok_bind]
      dsimp only
      rewrite [if_neg (by omega), stored, ok_bind, committed]
      rfl
    rw [isRun, isAdd]
    refine ⟨.added count.toInt64, after, rfl, .inr ⟨_, rfl, isInt⟩, ?_⟩
    have differs : Answer.added count.toInt64 ≠ .added (-1) := by
      intro same
      have isMinus := congrArg Int64.toInt (Answer.added.inj same)
      rw [isInt] at isMinus
      have minus : (-1 : Int64).toInt = -1 := by decide
      omega
    rw [Call.content, if_neg differs, ← isTaken]
    rw [List.take_take, min_self] at isSound
    exact isSound

theorem reserve_behaves {len count : UInt64} {written : List UInt8}
    {grant : Option (Nat → UInt8)} (sound : Sound held factory)
    (allowed : (Call.reserve len written count grant).Allowed held) :
    ∃ answer next, (Call.reserve len written count grant).run factory = .ok (answer, next) ∧
      (Call.reserve len written count grant).Right held factory answer next ∧
      Sound ((Call.reserve len written count grant).content held answer) next := by
  rcases allowed with ⟨few, fits, committed⟩
  rcases @Sound.reserve held factory len grant sound few with ⟨failed, isNone⟩ | ⟨next, block, reserved, spacious⟩
  · have isRun : (Call.reserve len written count grant).run factory = .ok (.reserved none, factory) := by
      unfold Call.run
      dsimp only
      rewrite [failed]
      rfl
    refine ⟨.reserved none, factory, isRun, .inl ⟨rfl, rfl, isNone⟩, ?_⟩
    rw [Call.content, if_pos rfl]
    exact sound
  · rcases spacious.fill sound fits committed with ⟨middle, after, stored, isCommitted, isSound⟩
    have isRun : (Call.reserve len written count grant).run factory = .ok (.reserved (some factory.len), after) := by
      unfold Call.run
      dsimp only
      rewrite [reserved]
      rewrite [ok_bind]
      dsimp only
      rewrite [stored, ok_bind, isCommitted]
      rfl
    refine ⟨.reserved (some factory.len), after, isRun, .inr ⟨_, rfl, sound.len⟩, ?_⟩
    rw [Call.content, if_neg fun same => Option.some_ne_none _ (Answer.reserved.inj same)]
    exact isSound

theorem Sound.removed (sound : Sound held factory) : Sound none { factory with data := none, len := 0 } := by
  refine ⟨⟨rfl, rfl⟩, sound.size, sound.incr, ?_⟩
  rintro data ⟨⟩

theorem remove_holds {bytes : List UInt8} {grant : Option (Nat → UInt8)} (sound : Sound (some bytes) factory) :
    Holds (remove grant factory).1.1 (remove grant factory).1.2 (some bytes) := by
  rcases sound.holds with ⟨block, isBlock, length, starts, ends⟩
  have inside : bytes.length < block.length := (List.getElem?_eq_some_iff.mp ends).1
  have fits := sound.fits block isBlock
  have below := UInt64.toNat_lt factory.size
  have isNext : (factory.len + 1).toNat = bytes.length + 1 := by
    have one : (1 : UInt64).toNat = 1 := rfl
    rw [UInt64.toNat_add, length]
    omega
  unfold remove look
  dsimp only
  split
  · cases given : kitRealloc factory.data (factory.len + 1) grant with
    | none => exact ⟨block, isBlock, length, starts, ends⟩
    | some shrunk =>
        rw [isBlock] at given
        refine ⟨shrunk, rfl, length, ?_, ?_⟩
        · refine (take_congr fun index below => ?_).trans starts
          exact kitRealloc_keeps given (below.trans inside) (by omega)
        · rw [kitRealloc_keeps given inside (by omega)]
          exact ends
  · exact ⟨block, isBlock, length, starts, ends⟩

theorem remove_nothing {grant : Option (Nat → UInt8)} (sound : Sound none factory) :
    Holds (remove grant factory).1.1 (remove grant factory).1.2 none ↔ factory.size ≤ 1 ∨ grant = none := by
  rcases sound.holds with ⟨isNone, isZero⟩
  unfold remove look
  dsimp only
  rw [isNone, isZero, zero_add]
  by_cases more : 1 < factory.size
  · rw [if_pos more]
    have isMore := UInt64.lt_iff_toNat_lt.mp more
    cases grant with
    | none => exact ⟨fun _ => .inr rfl, fun _ => ⟨rfl, rfl⟩⟩
    | some fresh =>
        refine ⟨fun holds => absurd holds.1 (Option.some_ne_none _), ?_⟩
        rintro (few | wrong)
        · exact absurd (UInt64.le_iff_toNat_le.mp few) (Nat.not_le.mpr isMore)
        · cases wrong
  · rw [if_neg more]
    have few := mt UInt64.lt_iff_toNat_lt.mpr more
    exact ⟨fun _ => .inl (UInt64.le_iff_toNat_le.mpr (Nat.le_of_not_lt few)), fun _ => ⟨rfl, rfl⟩⟩

theorem remove_right_iff {grant : Option (Nat → UInt8)} (sound : Sound held factory) :
    Holds (remove grant factory).1.1 (remove grant factory).1.2 held ↔ (Call.remove grant).Meets factory := by
  cases held with
  | none =>
      have isNone := sound.holds.1
      rw [remove_nothing sound]
      exact ⟨.inr, fun meets => meets.resolve_left (not_not.mpr isNone)⟩
  | some bytes =>
      rcases sound.holds with ⟨block, isBlock, -⟩
      refine ⟨fun _ => .inl ?_, fun _ => remove_holds sound⟩
      rw [isBlock]
      exact Option.some_ne_none block

theorem Sound.call {call : Call} (sound : Sound held factory) (allowed : call.Allowed held) :
    ∃ answer next, call.run factory = .ok (answer, next) ∧ Sound (call.content held answer) next ∧
      (call.Right held factory answer next ↔ call.Meets factory) := by
  cases call with
  | add data len grant =>
      rcases add_behaves sound allowed with ⟨answer, next, done, right, isSound⟩
      exact ⟨answer, next, done, isSound, fun _ => trivial, fun _ => right⟩
  | reserve len written count grant =>
      rcases reserve_behaves sound allowed with ⟨answer, next, done, right, isSound⟩
      exact ⟨answer, next, done, isSound, fun _ => trivial, fun _ => right⟩
  | look => exact ⟨_, _, rfl, sound, fun _ => trivial, fun _ => ⟨⟨_, _, rfl, sound.holds⟩, rfl⟩⟩
  | remove grant =>
      refine ⟨.seen (SxeFactory.remove grant factory).1.1 (SxeFactory.remove grant factory).1.2,
        { factory with data := none, len := 0 }, rfl, sound.removed, ?_⟩
      rw [← remove_right_iff sound]
      constructor
      · rintro ⟨⟨data, len, ⟨⟩, holds⟩, -⟩
        exact holds
      · exact fun holds => ⟨⟨_, _, rfl, holds⟩, rfl⟩

end

/-! ## Runs -/

theorem content_sound {minsize maxincr : UInt64} {history : History Call Answer} {factory : Factory}
    (run : Run step (fun history _ call => call.Allowed (content history))
      (allocMake minsize maxincr) history factory) :
    Sound (content history) factory := by
  refine run.invariant (fun history factory => Sound (content history) factory) (allocMake_sound minsize maxincr) ?_
  intro history factory call answer next sound allowed stepped
  rcases sound.call allowed with ⟨isAnswer, isNext, done, isSound, -⟩
  unfold step at stepped
  rw [done] at stepped
  cases stepped
  exact isSound

/-- After any calls, a factory holds the data that was added since the last was
removed, and the next call behaves if and only if it does not remove what is not
there. -/
theorem factory_holds {minsize maxincr : UInt64} {history : History Call Answer} {factory : Factory} {call : Call}
    (run : Run step (fun history _ call => call.Allowed (content history)) (allocMake minsize maxincr) history factory)
    (allowed : call.Allowed (content history)) :
    Holds factory.data factory.len (content history) ∧
      (call.Behaves (content history) factory ↔ call.Meets factory) := by
  have sound := content_sound run
  refine ⟨sound.holds, ?_⟩
  rcases sound.call allowed with ⟨answer, next, done, isSound, right⟩
  rw [← right]
  constructor
  · rintro ⟨other, after, isOther, isRight, -⟩
    cases done.symm.trans isOther
    exact isRight
  · exact fun isRight => ⟨answer, next, done, isRight, isSound.holds⟩

/-- Data is added to a new factory. -/
theorem factory_holds_added : (Call.add [104, 105, 0] 0 (some fun _ => 0)).Behaves none (allocMake 0 0) :=
  (@factory_holds 0 0 [] _ (.add [104, 105, 0] 0 (some fun _ => 0)) .start ⟨fun _ => by decide, by decide,
    by decide⟩).2.mpr
    trivial

/-- A block is removed from a factory in which nothing was allocated. -/
theorem removes_nothing : (Call.remove (some fun _ => 170)).run (allocMake 0 0) =
      .ok (.seen (some [170]) 0, ⟨0, 8, 4096, none⟩) ∧
    ¬ (Call.remove (some fun _ => 170)).Behaves none (allocMake 0 0) := by
  refine ⟨rfl, ?_⟩
  rintro ⟨answer, next, done, ⟨⟨data, len, isSeen, holds⟩, -⟩, -⟩
  cases done
  cases isSeen
  exact absurd holds.1 (Option.some_ne_none _)

end SxeFactory
end LibKit
