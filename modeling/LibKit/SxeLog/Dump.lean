import LibKit.SxeLog.Lines

namespace LibKit
namespace SxeLog

/-!
# Memory in the log

Memory is logged in lines of sixteen bytes, in hexadecimal and as characters, and
the last line has as many as are left, which may be none.
-/

/-- A digit of `%02x` -/
def hexLower (digit : Nat) : UInt8 := UInt8.ofNat (if digit < 10 then 48 + digit else 87 + digit)

/-- `"%016lx"` -/
def addressText (address : UInt64) : List UInt8 :=
  (List.range 16).map fun place => hexLower (address.toNat / 16 ^ (15 - place) % 16)

/-- `" %02x"`, or blanks behind the end. -/
def column (byte : Option UInt8) : List UInt8 :=
  byte.elim [32, 32, 32] fun byte => [32, hexLower (byte.toNat / 16), hexLower (byte.toNat % 16)]

def shown (byte : UInt8) : UInt8 := if byte < 0x20 then 46 else if byte > 0x7e then 46 else byte

/-- The texts of a line of `sxe_log_dump_memory`. -/
def dumpTexts (indent : UInt32) (pointer : UInt64) (memory : List UInt8) (k : Nat) : List (List UInt8) :=
  [spaces (2 * indent) ++ [45, 32], addressText (pointer + UInt64.ofNat (k * 16))] ++
    ((List.range 16).map fun j => column memory[k * 16 + j]?) ++ [[32]] ++
    (((memory.drop (k * 16)).take 16).map fun byte => [shown byte]) ++ [[10]]

/-- `sxe_log_dump_memory` at a level that is logged. -/
def dumpMemory (start : List UInt8) (indent : UInt32) (pointer : UInt64) (memory : List UInt8) : List (List UInt8) :=
  linesOut start.length ((List.range (memory.length / 16 + 1)).map (dumpTexts indent pointer memory)) ⟨start,
    start.length⟩

/-! ## Reading a dump -/

def unhex (digit : UInt8) : UInt8 := if digit < 58 then digit - 48 else digit - 87

/-- The bytes in the columns of a line, up to the first blank one. -/
def readColumns : List UInt8 → List UInt8
  | _ :: high :: low :: rest => if high = 32 then [] else (unhex high * 16 + unhex low) :: readColumns rest
  | _ => []

/-- The bytes in the columns of a line whose prefix and indent have a length. -/
def readLine (skipped : Nat) (line : List UInt8) : List UInt8 := readColumns ((line.drop (skipped + 18)).take 48)

theorem column_some (byte : UInt8) (rest : List UInt8) :
    readColumns (column (some byte) ++ rest) = byte :: readColumns rest := by
  have digits : hexLower (byte.toNat / 16) ≠ 32 ∧
      unhex (hexLower (byte.toNat / 16)) * 16 + unhex (hexLower (byte.toNat % 16)) = byte := by
    revert byte
    apply Bytes.forall_bytes
    decide +kernel
  rw [column, Option.elim_some]
  change (if hexLower (byte.toNat / 16) = 32 then [] else
    (unhex (hexLower (byte.toNat / 16)) * 16 + unhex (hexLower (byte.toNat % 16))) :: readColumns rest) = _
  rw [if_neg digits.1, digits.2]

theorem column_none (rest : List UInt8) : readColumns (column none ++ rest) = [] := rfl

/-- The columns of a line hold its bytes. -/
theorem readColumns_eq (chunk : List UInt8) (count : Nat) :
    readColumns (((List.range count).map fun j => column chunk[j]?).flatten) = chunk.take count := by
  induction count generalizing chunk with
  | zero => rfl
  | succ count ih =>
      rw [List.range_succ_eq_map, List.map_cons, List.map_map, List.flatten_cons]
      cases chunk with
      | nil => exact column_none _
      | cons byte chunk =>
          rw [List.getElem?_cons_zero, column_some, List.take_succ_cons, ← ih chunk]
          rfl

theorem column_length (byte : Option UInt8) : (column byte).length = 3 := by
  cases byte with
  | none => rfl
  | some byte => rfl

theorem columns_length (chunk : List UInt8) (count : Nat) :
    (((List.range count).map fun j => column chunk[j]?).flatten).length = count * 3 := by
  rw [List.length_flatten, List.map_map]
  have all : (List.length ∘ fun j : Nat => column chunk[j]?) = fun _ => 3 := funext fun j => column_length _
  rw [all, List.map_const', List.sum_replicate, List.length_range, smul_eq_mul]

/-! ## One line -/

def chunk (memory : List UInt8) (k : Nat) : List UInt8 := (memory.drop (k * 16)).take 16

theorem getElem_chunk (memory : List UInt8) (k : Nat) :
    ((List.range 16).map fun j => column memory[k * 16 + j]?) = (List.range 16).map fun j => column
    (chunk memory k)[j]? := by
  refine List.map_congr_left fun j inside => ?_
  rw [chunk, List.getElem?_take_of_lt (List.mem_range.mp inside), List.getElem?_drop]

def dumpBody (indent : UInt32) (pointer : UInt64) (memory : List UInt8) (k : Nat) : List UInt8 :=
  (spaces (2 * indent) ++ [45, 32] ++ addressText (pointer + UInt64.ofNat (k * 16))) ++
    (((List.range 16).map fun j => column (chunk memory k)[j]?).flatten ++ ([32] ++ (chunk memory k).map shown))

theorem dumpTexts_flatten (indent : UInt32) (pointer : UInt64) (memory : List UInt8) (k : Nat) :
    (dumpTexts indent pointer memory k).flatten = dumpBody indent pointer memory k ++ [10] := by
  have characters : ∀ bytes : List UInt8, (bytes.map fun byte => [shown byte]).flatten = bytes.map shown := by
    intro bytes
    induction bytes with
    | nil => rfl
    | cons byte bytes ih => rw [List.map_cons, List.flatten_cons, ih, List.map_cons, List.singleton_append]
  rw [dumpTexts, getElem_chunk]
  simp only [List.flatten_append, List.flatten_cons, List.flatten_nil, List.append_nil]
  rw [characters]
  simp only [dumpBody, chunk, List.append_assoc]

theorem addressText_length (address : UInt64) : (addressText address).length = 16 := by
  rw [addressText, List.length_map, List.length_range]

theorem dumpBody_length (indent : UInt32) (pointer : UInt64) (memory : List UInt8) (k : Nat) :
    (dumpBody indent pointer memory k).length ≤ (spaces (2 * indent)).length + 83 := by
  have few : (chunk memory k).length ≤ 16 := List.length_take_le _ _
  simp only [dumpBody, List.length_append, List.length_cons, List.length_nil, List.length_map, addressText_length]
  rw [columns_length]
  omega

theorem hexLower_print {digit : Nat} (small : digit < 16) : isPrint (hexLower digit) = true := by
  revert digit
  decide

theorem dumpBody_print (indent : UInt32) (pointer : UInt64) (memory : List UInt8) (k : Nat) :
    ∀ byte ∈ dumpBody indent pointer memory k, isPrint byte = true := by
  have columns : ∀ content byte, byte ∈ column content → isPrint byte = true := by
    intro content byte member
    cases content with
    | none =>
        rw [List.eq_of_mem_replicate (n := 3) (a := 32) member]
        rfl
    | some content =>
        rcases List.mem_cons.mp member with rfl | digits
        · rfl
        · rcases List.mem_cons.mp digits with rfl | digit
          · exact hexLower_print (Nat.div_lt_of_lt_mul content.toNat_lt)
          · rw [List.mem_singleton.mp digit]
            exact hexLower_print (Nat.mod_lt _ (by decide))
  have characters : ∀ byte : UInt8, isPrint (shown byte) = true := by
    apply Bytes.forall_bytes
    decide +kernel
  intro byte member
  simp only [dumpBody, List.mem_append, List.mem_flatten, List.mem_map] at member
  rcases member with (((space | dash) | address) | ⟨texts, ⟨j, -, rfl⟩, inside⟩ | (space | ⟨source, -, rfl⟩))
  · rw [List.eq_of_mem_replicate space]
    rfl
  · rcases List.mem_cons.mp dash with rfl | space
    · rfl
    · rw [List.mem_singleton.mp space]
      rfl
  · rcases List.mem_map.mp address with ⟨place, -, rfl⟩
    exact hexLower_print (Nat.mod_lt _ (by decide))
  · exact columns _ byte inside
  · rw [List.mem_singleton.mp space]
    rfl
  · exact characters source

theorem readLine_eq (start : List UInt8) (indent : UInt32) (pointer : UInt64) (memory : List UInt8) (k : Nat) :
    readLine (start.length + (spaces (2 * indent)).length)
      (whole start (dumpTexts indent pointer memory k)) = chunk memory k := by
  rw [readLine, whole, dumpTexts_flatten, dumpBody, List.append_assoc, ← List.append_assoc start, List.drop_left',
    List.append_assoc, List.take_left', readColumns_eq, chunk, List.take_take, Nat.min_self]
  · exact columns_length _ 16
  · simp only [List.length_append, List.length_cons, List.length_nil, addressText_length]
    omega

/-! ## All lines -/

theorem chunks_eq (memory : List UInt8) (count : Nat) :
    (List.range count).flatMap (chunk memory) = memory.take (count * 16) := by
  induction count with
  | zero => rw [Nat.zero_mul, List.take_zero, List.range_zero, List.flatMap_nil]
  | succ count ih =>
      rw [List.range_succ, List.flatMap_append, ih, List.flatMap_singleton, chunk, Nat.succ_mul, List.take_add]

/-- Lines that fit show all of the memory: each is whole, and reading their columns gives the bytes. -/
theorem dump_round_trip (start : List UInt8) (indent : UInt32) (pointer : UInt64) (memory : List UInt8)
    (printable : ∀ byte ∈ start, isPrint byte = true)
    (fits : start.length + (spaces (2 * indent)).length + 84 < bufferSize) :
    dumpMemory start indent pointer memory =
        (List.range (memory.length / 16 + 1)).map (fun k => whole start (dumpTexts indent pointer memory k)) ∧
      (dumpMemory start indent pointer memory).flatMap
      (readLine (start.length + (spaces (2 * indent)).length)) = memory := by
  have lines : dumpMemory start indent pointer memory =
      (List.range (memory.length / 16 + 1)).map (fun k => whole start (dumpTexts indent pointer memory k)) := by
    have logged : List.Forall₂ (fun texts line => whole start texts = line)
        ((List.range (memory.length / 16 + 1)).map (dumpTexts indent pointer memory))
        (dumpMemory start indent pointer memory) := by
      have room : start.length ≤ bufferSize - 4 := by omega
      have ended : ∀ texts ∈ (List.range (memory.length / 16 + 1)).map (dumpTexts indent pointer memory),
          texts ≠ [] ∧ ∃ body, texts.flatten = body ++ [10] := by
        intro texts member
        rcases List.mem_map.mp member with ⟨k, -, rfl⟩
        exact ⟨List.cons_ne_nil _ _, _, dumpTexts_flatten indent pointer memory k⟩
      have out := @linesOut_logged start room _ ended ⟨start, start.length⟩ List.prefix_rfl
      rw [List.forall₂_map_left_iff] at out ⊢
      refine out.imp fun k line logged => ?_
      have ends : whole start (dumpTexts indent pointer memory k) =
        (start ++ dumpBody indent pointer memory k) ++ [10] := by
        rw [whole, dumpTexts_flatten, List.append_assoc]
      rw [ends] at logged ⊢
      refine (logged.same ?_ ?_).symm
      · intro byte member
        exact (List.mem_append.mp member).elim (printable byte) (dumpBody_print indent pointer memory k byte)
      · have length := dumpBody_length indent pointer memory k
        rw [List.length_append]
        omega
    rw [← List.forall₂_map_left_iff, List.forall₂_eq_eq_eq, List.map_map] at logged
    exact logged.symm
  refine ⟨lines, ?_⟩
  rw [lines, List.flatMap_map]
  have each : (fun k => readLine (start.length + (spaces (2 * indent)).length)
    (whole start (dumpTexts indent pointer memory k))) =
      chunk memory := funext fun k => readLine_eq start indent pointer memory k
  rw [each, chunks_eq, List.take_of_length_le]
  omega

/-- Three bytes take one line. -/
theorem dump_round_trip_three :
    dumpMemory [83, 32] 0 0x1000 [0, 65, 255] = [[83, 32, 45, 32] ++ addressText 0x1000 ++
        [32, 48, 48, 32, 52, 49, 32, 102, 102] ++ List.replicate 39 32 ++ [32, 46, 65, 46, 10]] ∧
      (dumpMemory [83, 32] 0 0x1000 [0, 65, 255]).flatMap (readLine 2) = [0, 65, 255] := by
  have blank : (spaces (2 * 0)).length = 0 := rfl
  refine ⟨by decide +kernel, ?_⟩
  exact (dump_round_trip [83, 32] 0 0x1000 [0, 65, 255] (List.all_eq_true.mp rfl) (by rw [blank]; decide)).2

end SxeLog
end LibKit
