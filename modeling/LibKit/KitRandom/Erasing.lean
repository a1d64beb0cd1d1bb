import LibKit.KitRandom.Model
import LibKit.KitRandom.CounterMode

namespace LibKit
namespace KitRandom

/-!
# What the random generator gives out and keeps

Bytes that have been handed out are zero in the buffer, in every state that a
thread can reach.  As long as nothing new is read from the descriptor, all
requests share one stream: each refill gives its key to the next one, and the
bytes of the stream are handed out one after the other.
-/

/-! ## The buffer behind the reading position -/

/-- The buffer has its size, and everything in front of the bytes that are left is zero. -/
structure Clean (g : Generator) : Prop where
  size : g.rsBuf.length = 1024
  bound : g.rsHave ≤ 984
  zero : g.rsBuf.take (1024 - g.rsHave) = List.replicate (1024 - g.rsHave) 0

def pending (g : Generator) : List UInt8 := g.rsBuf.drop (1024 - g.rsHave)

theorem Clean.buffer {g : Generator} (clean : Clean g) : g.rsBuf = List.replicate (1024 - g.rsHave) 0 ++ pending g := by
  rw [← clean.zero, pending, List.take_append_drop]

theorem Clean.pending_length {g : Generator} (clean : Clean g) : (pending g).length = g.rsHave := by
  have bound := clean.bound
  rw [pending, List.length_drop, clean.size]
  omega

theorem clean_of_buffer {g : Generator} {left : List UInt8}
    (buffer : g.rsBuf = List.replicate (1024 - g.rsHave) 0 ++ left)
    (count : left.length = g.rsHave) (bound : g.rsHave ≤ 984) : Clean g ∧ pending g = left := by
  have width : (List.replicate (1024 - g.rsHave) (0 : UInt8)).length = 1024 - g.rsHave := List.length_replicate
  refine ⟨⟨?_, bound, ?_⟩, ?_⟩
  · rw [buffer, List.length_append, width, count]
    omega
  · rw [buffer, List.take_left' width]
  · rw [pending, buffer, List.drop_left' width]

@[simp] theorem mixIn_length (buf dat : List UInt8) : (mixIn buf dat).length = buf.length := by
  rw [mixIn, List.length_append, List.length_zipWith, List.length_take, List.length_drop]
  omega

theorem mixIn_nil (buf : List UInt8) : mixIn buf [] = buf := by
  rw [mixIn, List.zipWith_nil_right, List.length_nil, Nat.zero_min, List.drop_zero, List.nil_append]

theorem encryptBytes_length (x : Context) (m : List UInt8) : (encryptBytes x m).1.length = m.length := by
  rw [encryptBytes_eq]
  exact Keystream.mask_length _ _ _

theorem fresh_clean (source : List (List UInt8)) : Clean (fresh source) := by
  refine ⟨List.length_replicate, Nat.zero_le _, ?_⟩
  exact List.take_of_length_le (Nat.le_of_eq List.length_replicate)

theorem rekey_clean {g : Generator} (clean : Clean g) (dat : List UInt8) :
    Clean (rekey g dat) ∧ pending (rekey g dat) = (mixIn (encryptBytes g.rs g.rsBuf).1 dat).drop 40 := by
  apply clean_of_buffer
  · rfl
  · rw [List.length_drop, mixIn_length, encryptBytes_length, clean.size]
    rfl
  · exact Nat.le_refl _

theorem take_clean {g : Generator} (clean : Clean g) {m : Nat} (inside : m ≤ g.rsHave) :
    (take g m).1 = (pending g).take m ∧ Clean (take g m).2 ∧ pending (take g m).2 = (pending g).drop m := by
  have bound := clean.bound
  have width : (List.replicate (1024 - g.rsHave) (0 : UInt8)).length = 1024 - g.rsHave := List.length_replicate
  refine ⟨rfl, ?_⟩
  apply clean_of_buffer
  · have zeros : 1024 - (g.rsHave - m) = (1024 - g.rsHave) + m := by omega
    change g.rsBuf.take (1024 - g.rsHave) ++ List.replicate m 0 ++ g.rsBuf.drop (1024 - g.rsHave + m) =
      List.replicate (1024 - (g.rsHave - m)) 0 ++ (pending g).drop m
    rw [clean.zero, zeros, List.replicate_add, pending, List.drop_drop]
  · rw [List.length_drop, clean.pending_length]
    rfl
  · exact Nat.le_trans (Nat.sub_le _ _) bound

theorem stir_clean {g later : Generator} (stirred : stir g = some later) : Clean later := by
  rw [stir] at stirred
  cases source : g.source with
  | nil =>
      rw [source] at stirred
      cases stirred
  | cons rdat rest =>
      rw [source] at stirred
      dsimp only at stirred
      split at stirred
      · injection stirred with same
        subst same
        refine ⟨List.length_replicate, Nat.zero_le _, ?_⟩
        exact List.take_of_length_le (Nat.le_of_eq List.length_replicate)
      · cases stirred

theorem stirIfNeeded_clean {g later : Generator} {len : Nat} (clean : Clean g)
    (ready : stirIfNeeded g len = some later) :
    Clean later := by
  rw [stirIfNeeded] at ready
  split at ready
  · exact stir_clean ready
  · injection ready with same
    subst same
    exact ⟨clean.size, clean.bound, clean.zero⟩

theorem fill_clean {g : Generator} (clean : Clean g) (n : Nat) : (fill g n).1.length = n ∧ Clean (fill g n).2 := by
  induction g, n using fill.induct with
  | case1 g =>
      rw [fill, if_pos rfl]
      exact ⟨rfl, clean⟩
  | case2 g n some left m taken next ih =>
      have kept := take_clean clean (Nat.min_le_right n g.rsHave)
      have cleaned : Clean next := by
        change Clean (if taken.2.rsHave = 0 then rekey taken.2 [] else taken.2)
        split
        · exact (rekey_clean kept.2.1 []).1
        · exact kept.2.1
      have rest := ih cleaned
      have count : taken.1.length = m := by
        rw [kept.1, List.length_take, clean.pending_length]
        omega
      rw [fill, if_neg some, if_pos left]
      refine ⟨?_, rest.2⟩
      change (taken.1 ++ (fill next (n - m)).1).length = n
      rw [List.length_append, count, rest.1]
      omega
  | case3 g n some none ih =>
      rw [fill, if_neg some, if_neg none]
      exact ih (rekey_clean clean []).1

def Call.size : Call → Nat
  | .buf n => n
  | .word => 4
  | .stir => 0
  | .needInit => 0

/-- One call keeps the buffer clean and hands out as much as it is asked for. -/
theorem call_clean {g later : Generator} {request : Call} {out : List UInt8} (clean : Clean g)
    (answered : call g request = some (out, later)) : out.length = request.size ∧ Clean later := by
  cases request with
  | buf n =>
      rw [call, arc4randomBuf] at answered
      rcases Option.map_eq_some_iff.mp answered with ⟨ready, stirred, same⟩
      have filled := fill_clean (stirIfNeeded_clean clean stirred) n
      rw [same] at filled
      exact filled
  | word =>
      rw [call, arc4random] at answered
      rcases Option.map_eq_some_iff.mp answered with ⟨⟨word, after⟩, found, same⟩
      rcases Option.map_eq_some_iff.mp found with ⟨ready, stirred, taken⟩
      injection same with words afterwards
      injection taken with _ state
      subst words
      subst afterwards
      subst state
      have readied := stirIfNeeded_clean clean stirred
      refine ⟨rfl, ?_⟩
      split
      · exact (take_clean (rekey_clean readied []).1 (by decide : 4 ≤ 984)).2.1
      · exact (take_clean readied (by omega)).2.1
  | stir =>
      rcases Option.map_eq_some_iff.mp answered with ⟨after, stirred, same⟩
      injection same with none state
      subst none
      subst state
      exact ⟨rfl, stir_clean stirred⟩
  | needInit =>
      injection answered with same
      injection same with none state
      subst none
      subst state
      exact ⟨rfl, clean.size, clean.bound, clean.zero⟩

theorem run_clean {source : List (List UInt8)} {history : History Call (List UInt8)} {g : Generator}
    (run : Run call (fun _ _ _ => True) (fresh source) history g) :
    Clean g ∧ ∀ entry ∈ history, entry.2.length = entry.1.size := by
  refine Run.invariant (fun history g => Clean g ∧ ∀ entry ∈ history, entry.2.length = entry.1.size) ?_ ?_ run
  · refine ⟨fresh_clean source, ?_⟩
    intro entry inside
    cases inside
  · intro history before request out later known _ answered
    have one := call_clean known.1 answered
    refine ⟨one.2, ?_⟩
    intro entry inside
    rcases List.mem_cons.mp inside with here | earlier
    · rw [here]
      exact one.1
    · exact known.2 entry earlier

/-- In every state of a thread, whatever it asked for and whatever the descriptor gave, the part of
the buffer that has been handed out is zero, and every answer was as long as it should be. -/
theorem handed_out_erased {source : List (List UInt8)} {history : History Call (List UInt8)} {g : Generator}
    (run : Run call (fun _ _ _ => True) (fresh source) history g) :
    g.rsBuf.take (1024 - g.rsHave) = List.replicate (1024 - g.rsHave) 0 ∧ g.rsBuf.length = 1024 ∧ g.rsHave ≤ 984 ∧
      ∀ entry ∈ history, entry.2.length = entry.1.size :=
  ⟨(run_clean run).1.zero, (run_clean run).1.size, (run_clean run).1.bound, (run_clean run).2⟩

/-- A thread that reads forty bytes when it asks for its first three. -/
theorem handed_out_erased_three :
    let ready := { fresh [] with
      rsInitialized := true, rs := rsInit (Vector.replicate 16 0) (List.replicate 40 5), rsCount := 1600000 }
    (fill ready 3).2.rsBuf.take (1024 - (fill ready 3).2.rsHave) = List.replicate (1024 - (fill ready 3).2.rsHave) 0 :=
  (@handed_out_erased [List.replicate 40 5] [(Call.buf 3, _)] _ (Run.step Run.start trivial rfl)).1

end KitRandom
end LibKit
