import LibKit.KitId.Model
import LibKit.KitBaseEncode.Reading
import LibKit.SxeHex.Conversion

namespace LibKit
namespace KitId

open KitBaseEncode (Alphabet base16cfg)
open Radix (Regrouped Filled)

/-!
# Identifiers and their texts

The digits of a GUID are not followed by a NUL, and either conversion keeps
bytes of the identifier when the text has another character in it.
-/

/-! ## GUIDs -/

section

variable {guid old buf str : List UInt8}

theorem guidToBuf_eq (sized : guid.length = guidSize) (room : guidStrLen + 1 ≤ buf.length) :
    guidToBuf (some guid) buf = .ok (SxeHex.hexOf guid ++ buf.drop guidStrLen) := by
  have printed := @SxeHex.fromBytes_eq buf guid 16 (UInt32.ofNat guidSize) rfl (by decide) (Nat.le_of_eq sized.symm)
    (Nat.le_of_lt room)
  have whole : guid.take 16 = guid := List.take_of_length_le (Nat.le_of_eq sized)
  rw [whole] at printed
  exact printed

/-- Reading a text of another length gives the nil GUID, and else the digits at
its front are converted. -/
theorem guidFromStr_eq (sized : old.length = guidSize) (terminated : 0 ∈ str) :
    guidFromStr old str = .ok (if (CString.text str).length ≠ guidStrLen then guidNil
      else (SxeHex.unhex (CString.text str)).1 ++ old.drop (SxeHex.unhex (CString.text str)).1.length) := by
  rw [guidFromStr, CString.strlen, if_pos terminated]
  dsimp only
  by_cases other : (CString.text str).length ≠ guidStrLen
  · rw [if_pos other, if_pos other]
  · rw [if_neg other, if_neg other]
    have length : (CString.text str).length = 2 * 16 := not_not.mp other
    have inside := CString.text_length_lt terminated
    have isText : str.take (2 * 16) = CString.text str := by
      rw [← length]
      exact CString.take_text_length str
    have read := @SxeHex.toBytes_even str old (UInt32.ofNat guidStrLen) 16 rfl (by omega) (Nat.le_of_eq sized.symm)
    rw [isText] at read
    rw [read]
    rfl

theorem hexOf_clean (bytes : List UInt8) : 0 ∉ SxeHex.hexOf bytes := by
  intro zero
  exact absurd (SxeHex.hexOf_digits bytes 0 zero) (by decide)

/-- A GUID is recovered from its text, which is terminated. -/
def GuidReturns (guid buf old : List UInt8) : Prop :=
  ∃ written, guidToBuf (some guid) buf = .ok written ∧ 0 ∈ written ∧ guidFromStr old written = .ok guid

theorem guid_returns_iff (sized : guid.length = guidSize) (room : guidStrLen + 1 ≤ buf.length)
    (old_sized : old.length = guidSize) :
    GuidReturns guid buf old ↔ buf[guidStrLen]? = some 0 ∨ guid = guidNil ∧ 0 ∈ buf.drop guidStrLen := by
  have digits : (SxeHex.hexOf guid).length = guidStrLen := by
    rw [SxeHex.hexOf_length, sized]
    rfl
  have clean := hexOf_clean guid
  have text := CString.text_append_clean clean (buf.drop guidStrLen)
  have rest : buf.drop guidStrLen = buf[guidStrLen] :: buf.drop (guidStrLen + 1) := List.drop_eq_getElem_cons room
  rw [List.getElem?_eq_getElem room]
  constructor
  · rintro ⟨written, printed, terminated, read⟩
    rw [guidToBuf_eq sized room] at printed
    cases printed
    rw [guidFromStr_eq old_sized terminated, text] at read
    by_cases zero : buf[guidStrLen] = 0
    · exact Or.inl (congrArg some zero)
    · have longer : (SxeHex.hexOf guid ++ CString.text (buf.drop guidStrLen)).length ≠ guidStrLen := by
        rw [rest, CString.text_cons, if_neg zero, List.length_append, digits, List.length_cons]
        omega
      rw [if_pos longer] at read
      have behind := (List.mem_append.mp terminated).resolve_left clean
      exact Or.inr ⟨(Except.ok.inj read).symm, behind⟩
  · intro ends
    have behind : 0 ∈ buf.drop guidStrLen := by
      rcases ends with zero | ⟨-, behind⟩
      · rw [rest, Option.some.inj zero]
        exact List.mem_cons_self
      · exact behind
    have terminated : 0 ∈ SxeHex.hexOf guid ++ buf.drop guidStrLen := List.mem_append_right _ behind
    refine ⟨_, guidToBuf_eq sized room, terminated, ?_⟩
    rw [guidFromStr_eq old_sized terminated, text]
    by_cases zero : buf[guidStrLen] = 0
    · rw [rest, CString.text_cons, if_pos zero, List.append_nil, if_neg (not_not.mpr digits), SxeHex.unhex_hexOf, sized,
        List.drop_eq_nil_of_le (Nat.le_of_eq old_sized), List.append_nil]
    · have longer : (SxeHex.hexOf guid ++ CString.text (buf.drop guidStrLen)).length ≠ guidStrLen := by
        rw [rest, CString.text_cons, if_neg zero, List.length_append, digits, List.length_cons]
        omega
      rw [if_pos longer]
      rcases ends with same | ⟨isNil, -⟩
      · exact absurd (Option.some.inj same) zero
      · rw [isNil]

/-- The characters that are converted are zeros, and so are the bytes of the
identifier that are kept. -/
def LeavesNil (isDigit : UInt8 → Bool) (old text : List UInt8) : Prop :=
  (∀ c ∈ text.take ((text.takeWhile isDigit).length / 2 * 2), c = 48) ∧
    ∀ byte ∈ old.drop ((text.takeWhile isDigit).length / 2), byte = 0

theorem kept_nil {front old : List UInt8} (less : front.length ≤ old.length) :
    front ++ old.drop front.length = List.replicate old.length 0 ↔
      (∀ byte ∈ front, byte = 0) ∧ ∀ byte ∈ old.drop front.length, byte = 0 := by
  have length : (front ++ old.drop front.length).length = old.length := by
    rw [List.length_append, List.length_drop]
    omega
  rw [List.eq_replicate_iff, List.forall_mem_append]
  exact and_iff_right length

/-- A text is read as the nil GUID if its length is another one, or if all that
is converted and kept is zero. -/
theorem guidFromStr_nil (sized : old.length = guidSize) (terminated : 0 ∈ str) :
    guidFromStr old str = .ok guidNil ↔
      ((CString.text str).length = guidStrLen → LeavesNil SxeHex.isDigit old (CString.text str)) := by
  rw [guidFromStr_eq sized terminated, Except.ok.injEq]
  by_cases other : (CString.text str).length ≠ guidStrLen
  · rw [if_pos other]
    exact iff_of_true rfl fun length => absurd length other
  · rw [if_neg other]
    rcases SxeHex.unhex_front (CString.text str) with ⟨count, zeros⟩
    have less : (SxeHex.unhex (CString.text str)).1.length ≤ old.length := by
      have bound := (SxeHex.unhex_length (CString.text str)).1
      have length : (CString.text str).length = 32 := not_not.mp other
      have sized' : old.length = 16 := sized
      omega
    have kept := kept_nil less
    rw [sized] at kept
    rw [guidNil, kept, zeros, count, LeavesNil]
    exact ⟨fun both _ => both, fun holds => holds (not_not.mp other)⟩

/-! ## Device identifiers -/

theorem lowerAlphabet : Alphabet base16cfg base16cfg 4 :=
  ⟨rfl, rfl, rfl, by decide, by decide, rfl, fun padded => Bool.noConfusion padded, by decide⟩

theorem deviceidToBuf_eq {deviceid : List UInt8} (sized : deviceid.length = deviceidSize)
    (room : deviceidStrLen + 1 ≤ buf.length) :
    ∃ digits, Filled 8 4 (deviceid.map UInt8.toNat) digits ∧ (base16cfg.text digits).length = deviceidStrLen ∧
      0 ∉ base16cfg.text digits ∧
      deviceidToBuf (some deviceid) buf = base16cfg.text digits ++ 0 :: buf.drop (deviceidStrLen + 1) := by
  rcases KitBaseEncode.exists_filled lowerAlphabet deviceid with ⟨digits, filled⟩
  have length : (base16cfg.text digits).length = deviceidStrLen := by
    rw [KitBaseEncode.BaseCfg.text_length, KitBaseEncode.filled_length filled, sized]
    rfl
  refine ⟨digits, filled, length, ?_, ?_⟩
  · intro zero
    rcases List.mem_append.mp zero with char | pad
    · rcases List.mem_map.mp char with ⟨digit, member, isZero⟩
      exact (lowerAlphabet.inverse digit (filled.small digit member)).2 isZero
    · exact absurd (List.eq_of_mem_replicate pad) (by decide)
  · have fits : deviceid.length * 2 + 1 ≤ buf.length := by
      rw [sized]
      exact room
    rcases KitBaseEncode.encode_eq lowerAlphabet filled fits with ⟨small, -⟩ | ⟨-, done⟩
    · rw [length, sized] at small
      exact absurd small (Nat.lt_irrefl _)
    · rw [length] at done
      exact congrArg KitBaseEncode.Result.out done

/-- A device identifier is recovered from its text, which is terminated. -/
def DeviceidReturns (deviceid buf old : List UInt8) : Prop :=
  0 ∈ deviceidToBuf (some deviceid) buf ∧ deviceidFromStr old (deviceidToBuf (some deviceid) buf) = .ok deviceid

theorem deviceid_returns {deviceid : List UInt8} (sized : deviceid.length = deviceidSize)
    (room : deviceidStrLen + 1 ≤ buf.length)
    (old_sized : old.length = deviceidSize) : DeviceidReturns deviceid buf old := by
  rcases deviceidToBuf_eq sized room with ⟨digits, filled, length, clean, printed⟩
  have terminated : 0 ∈ base16cfg.text digits ++ 0 :: buf.drop (deviceidStrLen + 1) :=
    List.mem_append_right _ List.mem_cons_self
  rw [DeviceidReturns, printed]
  refine ⟨terminated, ?_⟩
  have taken : (base16cfg.text digits ++ 0 :: buf.drop (deviceidStrLen + 1)).take deviceidStrLen =
    base16cfg.text digits := by
    rw [← length]
    exact List.take_left
  rw [deviceidFromStr, CString.strlen, if_pos terminated, CString.text_append_zero clean]
  dsimp only
  rw [if_neg (not_not.mpr length), taken, KitBaseEncode.hex2bin, length]
  have fits : (deviceidStrLen + 1) / 2 ≤ old.length := Nat.le_of_eq old_sized.symm
  rcases KitBaseEncode.decode_eq lowerAlphabet filled false fits with ⟨small, -⟩ | ⟨-, done⟩
  · rw [sized] at small
    exact absurd small (Nat.lt_irrefl _)
  · rw [done]
    dsimp only
    rw [sized, List.drop_eq_nil_of_le (Nat.le_of_eq old_sized), List.append_nil]

/-- Digits that are regrouped to bytes, with nothing left, are zeros if the bytes
are. -/
theorem zeros_regrouped {digits back : List Nat} {rest : Nat} (regrouped : Regrouped 4 8 digits back 0 rest) :
    (∀ byte ∈ back, byte = 0) ↔ ∀ digit ∈ digits, digit = 0 := by
  have same := regrouped.same
  have pending := regrouped.pending
  rw [Nat.pow_zero] at same pending
  rw [← @Radix.number_eq_zero 8, ← @Radix.number_eq_zero 4]
  omega

/-- The pairs of digits at the front are converted, to zeros if they are. -/
theorem hex2bin_front {text : List UInt8} (length : text.length = deviceidStrLen) (sized : old.length = deviceidSize) :
    ∃ back : List UInt8, (KitBaseEncode.hex2bin old text).1 = back ++ old.drop back.length ∧
      back.length = (text.takeWhile base16cfg.isDigit).length / 2 ∧
      ((∀ byte ∈ back, byte = 0) ↔ ∀ c ∈ text.take ((text.takeWhile base16cfg.isDigit).length / 2 * 2), c = 48) := by
  have value : ∀ c : UInt8, base16cfg.value c = 0 ↔ c = 48 := by
    apply Bytes.forall_bytes
    decide +kernel
  have fits : (deviceidStrLen + 1) / 2 ≤ old.length := Nat.le_of_eq sized.symm
  have isRun : base16cfg.run false text = text.takeWhile base16cfg.isDigit := by
    rw [KitBaseEncode.BaseCfg.run, KitBaseEncode.goesOn_plain]
  have bound : (base16cfg.run false text).length ≤ text.length := (List.takeWhile_prefix _).length_le
  rcases @KitBaseEncode.run_beyond base16cfg false text with ⟨rest, beyond, -⟩
  rw [KitBaseEncode.hex2bin, length]
  rcases KitBaseEncode.decode_plain lowerAlphabet KitBaseEncode.Base.base16.table rfl fits false text with
    ⟨-, overflow⟩ | ⟨back, bits, rest, regrouped, few, -, done⟩
  · rw [KitBaseEncode.digits_run, List.length_map] at overflow
    change (8 + 1) * 8 ≤ _ * 4 at overflow
    have length' : text.length = 16 := length
    omega
  · have total := regrouped.length
    rw [KitBaseEncode.digits_run, List.length_map, List.length_map] at total
    rw [KitBaseEncode.digits_run] at regrouped
    have count : back.length = (base16cfg.run false text).length / 2 := by omega
    have isZero (values : List Nat) (isValues : values = back.map UInt8.toNat) :
      (∀ value ∈ values, value = 0) ↔ ∀ byte ∈ back, byte = 0 := by
      rw [isValues, List.forall_mem_map]
      exact forall₂_congr fun byte _ => UInt8.toNat_inj (b := 0)
    have digitZero (front : List UInt8) : (∀ digit ∈ front.map base16cfg.value, digit = 0) ↔ ∀ c ∈ front, c = 48 := by
      rw [List.forall_mem_map]
      exact forall₂_congr fun c _ => value c
    have taken (n : Nat) (short : n ≤ (base16cfg.run false text).length) :
      text.take n = (base16cfg.run false text).take n := by
      have split := congrArg (List.take n) beyond
      rwa [List.take_append_of_le_length short] at split
    refine ⟨back, congrArg KitBaseEncode.Result.out done, by rw [← isRun]; exact count, ?_⟩
    rw [← isRun, ← isZero _ rfl, taken _ (by omega), ← digitZero]
    by_cases dangling : bits = 0
    · rw [dangling] at regrouped total
      rw [zeros_regrouped regrouped, List.take_of_length_le (by omega)]
    · rcases List.eq_nil_or_concat (base16cfg.run false text) with none | ⟨front, c, isFront⟩
      · rw [none] at total
        change _ = 0 * 4 at total
        omega
      · rw [List.concat_eq_append] at isFront
        have digit := KitBaseEncode.run_goesOn false text c
          (isFront ▸ List.mem_append_right front (List.mem_singleton_self c))
        rw [KitBaseEncode.goesOn_plain] at digit
        have lengths := congrArg List.length isFront
        rw [List.length_append, List.length_singleton] at lengths
        rw [isFront, List.map_append, List.map_singleton] at regrouped
        have whole := regrouped.front (KitBaseEncode.Base.base16.table.small c digit) (by omega)
        have noBits : bits - 4 = 0 := by omega
        rw [noBits] at whole
        have isEven : (base16cfg.run false text).length / 2 * 2 = front.length := by omega
        rw [zeros_regrouped whole, isEven, isFront, List.take_left]

/-- A text is read as the nil device identifier if its length is another one, or
if all that is converted and kept is zero. -/
theorem deviceidFromStr_nil (sized : old.length = deviceidSize) (terminated : 0 ∈ str) :
    deviceidFromStr old str = .ok deviceidNil ↔
      ((CString.text str).length = deviceidStrLen → LeavesNil base16cfg.isDigit old (CString.text str)) := by
  rw [deviceidFromStr, CString.strlen, if_pos terminated]
  dsimp only
  by_cases other : (CString.text str).length ≠ deviceidStrLen
  · rw [if_pos other]
    exact iff_of_true rfl fun length => absurd length other
  · rw [if_neg other]
    have length := not_not.mp other
    have isText : str.take deviceidStrLen = CString.text str := by
      rw [← length]
      exact CString.take_text_length str
    rcases hex2bin_front length sized with ⟨back, written, count, zeros⟩
    have less : back.length ≤ old.length := by
      have bound : ((CString.text str).takeWhile base16cfg.isDigit).length ≤ (CString.text str).length :=
        (List.takeWhile_prefix _).length_le
      have length' : (CString.text str).length = 16 := length
      have sized' : old.length = 8 := sized
      omega
    have kept := kept_nil less
    rw [sized] at kept
    rw [isText, written, Except.ok.injEq, deviceidNil, kept, zeros, count, LeavesNil]
    exact ⟨fun both _ => both, fun holds => holds length⟩

end

/-! ## Both -/

/-- The text is of the given length and has only hexadecimal digits. -/
def IsHex (length : Nat) (text : List UInt8) : Prop := text.length = length ∧ ∀ c ∈ text, SxeHex.isDigit c = true

theorem nil_unless {isHex isNil other leaves : Prop} (reads : isNil ↔ (¬ other → leaves)) :
    (¬ isHex → isNil) ↔ isHex ∨ other ∨ leaves := by
  rw [reads]
  by_cases hex : isHex
  · exact iff_of_true (fun bad => absurd hex bad) (Or.inl hex)
  · rw [or_iff_right hex, or_iff_not_imp_left]
    exact ⟨fun holds => holds hex, fun holds _ => holds⟩

/-- When texts of identifiers round-trip and bad texts are read as nil: device
identifiers are recovered, GUIDs if a NUL was behind their digits before, and a
text of the right length that has another character in it leaves what is
neither converted nor cleared. -/
theorem id_texts (buf str : List UInt8) :
    (∀ guid old : List UInt8, guid.length = guidSize → guidStrLen + 1 ≤ buf.length → old.length = guidSize →
      (GuidReturns guid buf old ↔ buf[guidStrLen]? = some 0 ∨ guid = guidNil ∧ 0 ∈ buf.drop guidStrLen)) ∧
    (∀ deviceid old : List UInt8, deviceid.length = deviceidSize → deviceidStrLen + 1 ≤ buf.length →
      old.length = deviceidSize → DeviceidReturns deviceid buf old) ∧
    (∀ old : List UInt8, old.length = guidSize → 0 ∈ str →
      ((¬ IsHex guidStrLen (CString.text str) → guidFromStr old str = .ok guidNil) ↔
        IsHex guidStrLen (CString.text str) ∨ (CString.text str).length ≠ guidStrLen ∨
          LeavesNil SxeHex.isDigit old (CString.text str))) ∧
    ∀ old : List UInt8, old.length = deviceidSize → 0 ∈ str →
      ((¬ IsHex deviceidStrLen (CString.text str) → deviceidFromStr old str = .ok deviceidNil) ↔
        IsHex deviceidStrLen (CString.text str) ∨ (CString.text str).length ≠ deviceidStrLen ∨
          LeavesNil base16cfg.isDigit old (CString.text str)) := by
  refine ⟨fun guid old sized room old_sized => guid_returns_iff sized room old_sized,
    fun deviceid old sized room old_sized => deviceid_returns sized room old_sized, ?_, ?_⟩
  · intro old sized terminated
    apply nil_unless
    rw [not_not]
    exact guidFromStr_nil sized terminated
  · intro old sized terminated
    apply nil_unless
    rw [not_not]
    exact deviceidFromStr_nil sized terminated

/-- A buffer without a NUL behind the digits, and texts that are all but
digits, which leave an identifier as it was. -/
theorem id_texts_fail :
    ¬ GuidReturns (List.replicate 16 1) (List.replicate 33 1) (List.replicate 16 0) ∧
    guidFromStr (List.replicate 16 1) (List.replicate 32 120 ++ [0]) ≠ .ok guidNil ∧
    deviceidFromStr (List.replicate 8 1) (List.replicate 16 120 ++ [0]) ≠ .ok deviceidNil := by
  refine ⟨?_, ?_, ?_⟩
  · rw [guid_returns_iff rfl (by decide) rfl]
    rintro (zero | ⟨isNil, -⟩)
    · exact absurd zero (by decide)
    · exact absurd isNil (by decide)
  · intro isNil
    have leaves := (guidFromStr_nil rfl (by decide)).mp isNil (by decide)
    exact absurd (leaves.2 1 (by decide)) (by decide)
  · intro isNil
    have leaves := (deviceidFromStr_nil rfl (by decide)).mp isNil (by decide)
    exact absurd (leaves.2 1 (by decide)) (by decide)

end KitId
end LibKit
