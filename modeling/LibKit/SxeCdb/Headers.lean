import LibKit.SxeCdb.Uids

namespace LibKit
namespace SxeCdb

/-!
# The headers of records

A put chooses the shortest of four headers that holds both lengths.  The
headers share their first byte, by whose bits `sxe_cdb_hkv_unpack` and
`sxe_cdb_h_len` tell them apart.  Whatever the key and the value are, what is
unpacked from the record of a put is what was put.
-/

/-- `sxe_cdb_h_len` -/
def hLen (kvdata : Nat → UInt8) (pos : Nat) : Nat :=
  let first := (kvdata pos).toNat
  let flag := first % 2
  let xxxLen := first / 2 % 8
  let yyyLen := first / 16
  if flag = 0 ∧ xxxLen = 0 ∧ yyyLen = 1 then 8
  else if flag = 0 ∧ xxxLen = 0 ∧ yyyLen = 0 then 5
  else if flag = 0 ∧ xxxLen ≠ 0 then 1
  else 3

/-- Both cascades recognise the same header. -/
theorem hkvUnpack_key (kvdata : Nat → UInt8) (pos : Nat) : (hkvUnpack kvdata pos).key = pos + hLen kvdata pos := by
  unfold hkvUnpack hLen
  dsimp only
  split
  · rfl
  · split
    · rfl
    · split <;> rfl

theorem hkvUnpack_val (kvdata : Nat → UInt8) (pos : Nat) :
    (hkvUnpack kvdata pos).val = (hkvUnpack kvdata pos).key + (hkvUnpack kvdata pos).keyLen := by
  unfold hkvUnpack
  dsimp only
  split
  · rfl
  · split
    · rfl
    · split <;> rfl

theorem exists_headerLen {keyLen valLen : Nat} (nonempty : 1 ≤ keyLen) (key : keyLen < 2 ^ 24) (val : valLen < 2 ^ 32) :
    ∃ header, headerLen keyLen valLen = some header := by
  unfold headerLen
  rw [if_neg (Nat.ne_of_gt nonempty)]
  split
  · exact ⟨_, rfl⟩
  · split
    · exact ⟨_, rfl⟩
    · split
      · exact ⟨_, rfl⟩
      · rw [if_pos ⟨Nat.le_of_lt_succ key, Nat.le_of_lt_succ val⟩]
        exact ⟨_, rfl⟩

structure Unpacks (kvdata : Nat → UInt8) (pos header : Nat) (key val : List UInt8) : Prop where
  hLen : hLen kvdata pos = header
  hkvLen : hkvLen kvdata pos = recordBytes header key.length val.length
  keyLen : (hkvUnpack kvdata pos).keyLen = key.length
  valLen : (hkvUnpack kvdata pos).valLen = val.length
  key : Bytes.read kvdata (hkvUnpack kvdata pos).key key.length = key
  val : Bytes.read kvdata (hkvUnpack kvdata pos).val val.length = val

theorem unpacks_record {kvdata : Nat → UInt8} {pos header : Nat} {key val : List UInt8}
    (chosen : headerLen key.length val.length = some header) (short : recordBytes header key.length val.length < 2 ^ 32)
    (holds : Bytes.Holds kvdata pos (record header key val)) : Unpacks kvdata pos header key val := by
  have whole := hkvUnpack_record chosen holds
  refine ⟨?_, ?_, ?_, ?_, ?_, ?_⟩
  · have start := hkvUnpack_key kvdata pos
    rw [whole] at start
    exact Nat.add_left_cancel start.symm
  · rw [hkvLen, whole]
    dsimp only
    rw [Nat.add_assoc pos, Nat.add_sub_cancel_left]
    exact Nat.mod_eq_of_lt short
  · rw [whole]
  · rw [whole]
  · rw [whole]
    exact Bytes.read_of_holds (record_key chosen holds)
  · rw [whole]
    exact Bytes.read_of_holds (record_val chosen holds)

theorem putVal_writes {cdb after : Instance} {prepared : Prepared} {val : List UInt8} {uid : Uid}
    (put : putVal cdb prepared val = some (some uid, after)) :
    ∃ header, headerLen prepared.key.length val.length = some header ∧
      after.kvdata = Bytes.write cdb.kvdata cdb.kvdataUsed (record header prepared.key val) := by
  unfold putVal at put
  split at put
  · cases put
  cases chosen : headerLen prepared.key.length val.length with
  | none =>
      rw [chosen] at put
      cases put
  | some header =>
      rw [chosen] at put
      rcases Option.map_eq_some_iff.mp put with ⟨⟨place, found⟩, searched, made⟩
      have kept := (retries_of_found searched).kvdata
      cases place with
      | none => cases made
      | some place =>
          dsimp only at made
          cases grows : growKvdata found ((header + prepared.key.length + val.length) % 2 ^ 32) with
          | none =>
              rw [grows] at made
              cases made
          | some grown =>
              rw [grows] at made
              have same : grown.kvdata = found.kvdata ∧ grown.kvdataUsed = found.kvdataUsed := by
                unfold growKvdata at grows
                dsimp only at grows
                split at grows
                · split at grows
                  · cases grows
                  · cases grows
                    exact ⟨rfl, rfl⟩
                · cases grows
                  exact ⟨rfl, rfl⟩
              cases made
              refine ⟨header, rfl, ?_⟩
              rw [writeRecord, same.1, same.2, kept.1, kept.2.2.1, record]

/-- Unpacking the record that a put writes gives back what was put, whichever
header was chosen. -/
theorem header_round_trip {prepared : Prepared} {val : List UInt8} (nonempty : 1 ≤ prepared.key.length)
    (key : prepared.key.length < 2 ^ 24)
    (short : recordBytes ((headerLen prepared.key.length val.length).getD 0) prepared.key.length val.length < 2 ^ 32) :
    ∃ header, header ∈ [1, 3, 5, 8] ∧ headerLen prepared.key.length val.length = some header ∧
      ∀ (cdb after : Instance) (uid : Uid), putVal cdb prepared val = some (some uid, after) →
        Unpacks after.kvdata cdb.kvdataUsed header prepared.key val := by
  have valBound : val.length < 2 ^ 32 := Nat.lt_of_le_of_lt (Nat.le_add_left _ _) short
  rcases exists_headerLen nonempty key valBound with ⟨header, chosen⟩
  rw [chosen, Option.getD_some] at short
  refine ⟨header, ?_, chosen, ?_⟩
  · rcases (headerLen_cases chosen).2 with ⟨rfl, -⟩ | ⟨rfl, -⟩ | ⟨rfl, -⟩ | ⟨rfl, -⟩ <;> decide
  · intro cdb after uid put
    rcases putVal_writes put with ⟨other, again, written⟩
    rw [chosen] at again
    cases again
    rw [written]
    exact unpacks_record chosen short (Bytes.holds_write _ _ _)

theorem header_round_trip_short :
    ∃ header, header ∈ [1, 3, 5, 8] ∧ headerLen 1 1 = some header ∧
      ∀ (cdb after : Instance) (uid : Uid), putVal cdb (prepare collidingHash [97]) [1] = some (some uid, after) →
        Unpacks after.kvdata cdb.kvdataUsed header [97] [1] :=
  @header_round_trip (prepare collidingHash [97]) [1] (by decide) (by decide) (by decide)

end SxeCdb
end LibKit
