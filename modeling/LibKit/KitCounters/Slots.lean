import LibKit.KitCounters.Model

namespace LibKit
namespace KitCounters

/-!
# Slots and what is counted

A count moves from the block of a slot to that of the ended threads when the
slot is given up.  It is neither lost nor counted twice, since no two slots have
the same block, a static slot that is not in use has an empty block, and a
dynamic one gets an empty block when it is used.
-/

/-! ## Sums over the slots in use -/

def Slot.worth (slot : Slot) (blocks : Nat → Block) (counter : Nat) : UInt64 :=
  if slot.isUsed then blocks slot.block counter else 0

section

variable {slots : List Slot} {blocks blocks' : Nat → Block} {counter : Nat}

theorem usedSum_cons (slot : Slot) (slots : List Slot) (blocks : Nat → Block) (counter : Nat) :
    usedSum (slot :: slots) blocks counter = slot.worth blocks counter + usedSum slots blocks counter := by
  rw [usedSum, List.map_cons, List.sum_cons]
  rfl

theorem usedSum_append (first second : List Slot) (blocks : Nat → Block) (counter : Nat) :
    usedSum (first ++ second) blocks counter = usedSum first blocks counter + usedSum second blocks counter := by
  rw [usedSum, List.map_append, List.sum_append]
  rfl

theorem usedSum_set {index : Nat} {slot : Slot} (found : slots[index]? = some slot) (other : Slot) :
    usedSum (slots.set index other) blocks counter + slot.worth blocks counter =
      usedSum slots blocks counter + other.worth blocks counter := by
  induction slots generalizing index with
  | nil => cases found
  | cons first slots ih =>
      cases index with
      | zero =>
          rw [List.getElem?_cons_zero] at found
          cases found
          rw [List.set_cons_zero, usedSum_cons, usedSum_cons]
          abel
      | succ index =>
          rw [List.getElem?_cons_succ] at found
          rw [List.set_cons_succ, usedSum_cons, usedSum_cons, add_assoc, ih found, add_assoc]

theorem usedSum_congr
    (same : ∀ slot ∈ slots, slot.isUsed = true → blocks' slot.block counter = blocks slot.block counter) :
    usedSum slots blocks' counter = usedSum slots blocks counter := by
  induction slots with
  | nil => rfl
  | cons slot slots ih =>
      rw [usedSum_cons, usedSum_cons, ih fun other inside => same other (List.mem_cons_of_mem _ inside)]
      congr 1
      rw [Slot.worth, Slot.worth]
      split
      · rename_i used
        exact same slot List.mem_cons_self used
      · rfl

def Distinct (slots : List Slot) : Prop := (slots.map Slot.block).Nodup

theorem Distinct.unique (distinct : Distinct slots) {i j : Nat} {first second : Slot} (isFirst : slots[i]? = some first)
    (isSecond : slots[j]? = some second) (same : first.block = second.block) : i = j := by
  have below : i < (slots.map Slot.block).length := by
    rw [List.length_map]
    exact (List.getElem?_eq_some_iff.mp isFirst).1
  apply (List.getElem?_inj below distinct).mp
  rw [List.getElem?_map, List.getElem?_map, isFirst, isSecond]
  exact congrArg some same

theorem Distinct.set (distinct : Distinct slots) {index : Nat} {slot : Slot} (found : slots[index]? = some slot)
    {other : Slot} (same : other.block = slot.block) : Distinct (slots.set index other) := by
  have unchanged : (slots.set index other).map Slot.block = slots.map Slot.block := by
    rcases List.getElem?_eq_some_iff.mp found with ⟨below, rfl⟩
    have mapped : index < (slots.map Slot.block).length := by rwa [List.length_map]
    rw [List.map_set, same, ← List.getElem_map (h := mapped) Slot.block, List.set_getElem_self]
  rw [Distinct, unchanged]
  exact distinct

/-- A block that is changed at one counter adds to the sum what it gains, if its
slot is in use. -/
theorem usedSum_update (distinct : Distinct slots) {slot : Slot} (inside : slot ∈ slots) (used : slot.isUsed = true)
    (value : UInt64) :
    usedSum slots (Function.update blocks slot.block
      (Function.update (blocks slot.block) counter (blocks slot.block counter + value))) counter =
        usedSum slots blocks counter + value := by
  induction slots with
  | nil => cases inside
  | cons first slots ih =>
      have split := List.nodup_cons.mp (show (first.block :: slots.map Slot.block).Nodup from distinct)
      rw [usedSum_cons, usedSum_cons]
      rcases List.mem_cons.mp inside with rfl | later
      · have unchanged : usedSum slots (Function.update blocks slot.block
            (Function.update (blocks slot.block) counter (blocks slot.block counter + value))) counter =
              usedSum slots blocks counter := by
          apply usedSum_congr
          intro other isOther _
          rw [Function.update_of_ne]
          intro same
          exact split.1 (List.mem_map.mpr ⟨other, isOther, same⟩)
        rw [unchanged, Slot.worth, Slot.worth, if_pos used, if_pos used, Function.update_self, Function.update_self]
        abel
      · have differ : first.block ≠ slot.block := fun same => split.1 (List.mem_map.mpr ⟨slot, later, same.symm⟩)
        rw [ih split.2 later, Slot.worth, Slot.worth, Function.update_of_ne differ]
        abel

end

/-! ## The state between calls -/

/-- Blocks are those of one slot each, and are empty if the slot is static and
not in use. -/
structure Sound (state : Counters) : Prop where
  distinct : Distinct state.slots
  allocated : ∀ slot ∈ state.slots, slot.block < state.size
  zeroed : ∀ slot ∈ state.slots, slot.isStatic = true → slot.isUsed = false → state.blocks slot.block = fun _ => 0

/-- The sum of a counter over all that is counted. -/
def tally (state : Counters) (counter : Nat) : UInt64 :=
  usedSum state.slots state.blocks counter + state.dead counter + state.shared counter

def addedTo (counter : Nat) (counts : List (Nat × UInt64)) : UInt64 :=
  (counts.map fun count => if count.1 = counter then count.2 else 0).sum

theorem addedTo_cons (counter : Nat) (count : Nat × UInt64) (counts : List (Nat × UInt64)) :
    addedTo counter (count :: counts) = (if count.1 = counter then count.2 else 0) + addedTo counter counts := by
  rw [addedTo, List.map_cons, List.sum_cons]
  rfl

theorem addedTo_append (counter : Nat) (first second : List (Nat × UInt64)) :
    addedTo counter (first ++ second) = addedTo counter first + addedTo counter second := by
  rw [addedTo, List.map_append, List.sum_append]
  rfl

/-- The thread counts in what is shared, in the block of the ended threads, or
in that of a slot in use. -/
def Counts (state : Counters) (thread : Nat) : Prop :=
  ∀ block, state.thread thread = some (.own block) → ∃ slot ∈ state.slots, slot.isUsed = true ∧ slot.block = block

section

variable {setup : Setup} {state after : Counters} {thread counter : Nat} {value : UInt64}

/-- Only the contents of blocks differ, and no count was moved. -/
structure Counted (setup : Setup) (counts : List (Nat × UInt64)) (state after : Counters) : Prop where
  slots : after.slots = state.slots
  thread : after.thread = state.thread
  size : after.size = state.size
  sound : Sound after
  tally : ∀ counter, counter ≤ setup.numCounters → tally after counter = tally state counter + addedTo counter counts

theorem Counted.counts {counts : List (Nat × UInt64)} (counted : Counted setup counts state after)
    (ok : Counts state thread) :
    Counts after thread := by
  rw [Counts, counted.slots, counted.thread]
  exact ok

/-- A count by a thread whose block is counted. -/
theorem counterAdd_counted (sound : Sound state) (counts : Counts state thread)
    (done : counterAdd setup thread counter value state = .ok after) :
    Counted setup [(counter, value)] state after := by
  have one : ∀ other, addedTo other [(counter, value)] = if counter = other then value else 0 := by
    intro other
    rw [addedTo_cons]
    exact add_zero _
  rw [counterAdd] at done
  split at done
  · rename_i unknown
    cases done
    refine ⟨rfl, rfl, rfl, sound, fun other known => ?_⟩
    rw [one, if_neg (by omega), add_zero]
  · cases pointer : state.thread thread with
    | none =>
        rw [pointer] at done
        simp only at done
        split at done
        · cases done
          refine ⟨rfl, rfl, rfl, ⟨sound.distinct, sound.allocated, sound.zeroed⟩, fun other _ => ?_⟩
          rw [one, tally, tally]
          dsimp only
          rw [Function.update_apply]
          by_cases same : counter = other
          · rw [if_pos same.symm, if_pos same, same]
            abel
          · rw [if_neg (Ne.symm same), if_neg same, add_zero]
        · cases done
    | some leads =>
        rw [pointer] at done
        cases leads with
        | dead =>
            cases done
            refine ⟨rfl, rfl, rfl, ⟨sound.distinct, sound.allocated, sound.zeroed⟩, fun other _ => ?_⟩
            rw [one, tally, tally]
            dsimp only
            rw [Function.update_apply]
            by_cases same : counter = other
            · rw [if_pos same.symm, if_pos same, same]
              abel
            · rw [if_neg (Ne.symm same), if_neg same, add_zero]
        | own block =>
            cases done
            rcases counts block pointer with ⟨slot, inside, used, rfl⟩
            refine ⟨rfl, rfl, rfl, ⟨sound.distinct, sound.allocated, ?_⟩, fun other _ => ?_⟩
            · intro idle isIdle isStatic unused
              have differ : idle.block ≠ slot.block := by
                intro same
                rcases List.getElem?_of_mem isIdle with ⟨i, atIdle⟩
                rcases List.getElem?_of_mem inside with ⟨j, atSlot⟩
                cases sound.distinct.unique atIdle atSlot same
                cases atIdle.symm.trans atSlot
                rw [unused] at used
                cases used
              show Function.update state.blocks slot.block _ idle.block = _
              rw [Function.update_of_ne differ]
              exact sound.zeroed idle isIdle isStatic unused
            · rw [one, tally, tally]
              by_cases same : counter = other
              · rw [if_pos same, ← same, usedSum_update sound.distinct inside used]
                abel
              · rw [if_neg same, add_zero]
                congr 2
                apply usedSum_congr
                intro counted _ _
                dsimp only
                by_cases isSlot : counted.block = slot.block
                · rw [isSlot, Function.update_self, Function.update_of_ne (Ne.symm same)]
                · rw [Function.update_of_ne isSlot]

theorem Counted.trans {first second : List (Nat × UInt64)} {middle : Counters} (one : Counted setup first state middle)
    (two : Counted setup second middle after) : Counted setup (first ++ second) state after where
  slots := two.slots.trans one.slots
  thread := two.thread.trans one.thread
  size := two.size.trans one.size
  sound := two.sound
  tally counter known := by
    rw [two.tally counter known, one.tally counter known, addedTo_append, add_assoc]

theorem counterIncrs_counted {times : Nat} (sound : Sound state) (counts : Counts state thread)
    (done : counterIncrs setup thread counter times state = .ok after) :
    Counted setup (List.replicate times (counter, 1)) state after := by
  induction times generalizing state with
  | zero =>
      cases done
      exact ⟨rfl, rfl, rfl, sound, fun other _ => (add_zero _).symm⟩
  | succ times ih =>
      rcases bind_ok done with ⟨middle, first, done⟩
      have one := counterAdd_counted sound counts first
      exact one.trans (ih one.sound (one.counts counts) done)

/-! ## Slots that change -/

theorem mem_set {slots : List Slot} {index : Nat} {slot other member : Slot} (distinct : Distinct slots)
    (found : slots[index]? = some slot) (inside : member ∈ slots.set index other) :
    member = other ∨ (member ∈ slots ∧ member.block ≠ slot.block) := by
  rcases List.getElem?_of_mem inside with ⟨i, isMember⟩
  rw [List.getElem?_set] at isMember
  split at isMember
  · split at isMember
    · cases isMember
      exact Or.inl rfl
    · cases isMember
  · rename_i differ
    refine Or.inr ⟨List.mem_of_getElem? isMember, fun same => differ ?_⟩
    exact distinct.unique found isMember same.symm

theorem Sound.setSlot (sound : Sound state) {index : Nat} {slot : Slot} (found : state.slots[index]? = some slot)
    (other : Slot) (same : other.block = slot.block) {blocks : Nat → Block} {dead : Block}
    {threads : Nat → Option Pointer}
    (elsewhere : ∀ block, block ≠ slot.block → blocks block = state.blocks block)
    (empty : other.isStatic = true → other.isUsed = false → blocks slot.block = fun _ => 0) :
    Sound { state with slots := state.slots.set index other, blocks := blocks, dead := dead, thread := threads } where
  distinct := sound.distinct.set found same
  allocated member inside := by
    rcases mem_set sound.distinct found inside with rfl | ⟨old, -⟩
    · rw [same]
      exact sound.allocated slot (List.mem_of_getElem? found)
    · exact sound.allocated member old
  zeroed member inside isStatic unused := by
    rcases mem_set sound.distinct found inside with rfl | ⟨old, differs⟩
    · rw [same]
      exact empty isStatic unused
    · exact (elsewhere _ differs).trans (sound.zeroed member old isStatic unused)

/-- The sum when the slot of a block is replaced, and nothing but that block has
changed. -/
theorem usedSum_setSlot (sound : Sound state) {index : Nat} {slot : Slot} (found : state.slots[index]? = some slot)
    (other : Slot) {blocks : Nat → Block} (elsewhere : ∀ block, block ≠ slot.block → blocks block = state.blocks block)
    (counter : Nat) :
    usedSum (state.slots.set index other) blocks counter + slot.worth state.blocks counter =
      usedSum state.slots state.blocks counter + other.worth blocks counter := by
  have unused : ∀ some' : Nat → Block, (Slot.mk false false false slot.block).worth some' counter = 0 := fun _ => rfl
  have without : usedSum (state.slots.set index ⟨false, false, false, slot.block⟩) blocks counter =
      usedSum (state.slots.set index ⟨false, false, false, slot.block⟩) state.blocks counter := by
    apply usedSum_congr
    intro member inside used
    rcases mem_set sound.distinct found inside with rfl | ⟨-, differs⟩
    · cases used
    · rw [elsewhere _ differs]
  have removed := @usedSum_set state.slots state.blocks counter index slot found ⟨false, false, false, slot.block⟩
  rw [unused, add_zero] at removed
  have isThere : (state.slots.set index ⟨false, false, false, slot.block⟩)[index]? =
      some ⟨false, false, false, slot.block⟩ := by
    rw [List.getElem?_set_self (List.getElem?_eq_some_iff.mp found).1]
  have added := @usedSum_set _ blocks counter index _ isThere other
  rw [unused, add_zero, List.set_set] at added
  rw [added, without, ← removed]
  abel

end

/-! ## Threads that begin and end -/

section

variable {setup : Setup} {state after : Counters} {thread : Nat}

def Plain (setup : Setup) (counter : Nat) : Prop := ∀ handler ∈ setup.combineHandlers, handler.1 ≠ counter

/-- A call that moves counts keeps the state sound and every count. -/
structure Kept (setup : Setup) (state after : Counters) : Prop where
  length : after.slots.length = state.slots.length
  sound : Sound after
  tally : ∀ counter, counter ≤ setup.numCounters → Plain setup counter → tally after counter = tally state counter

/-- `kit_counters_init_thread` that returns. -/
theorem initThread_ok {index : Nat} (done : countersInitThread thread index state = .ok after) :
    ∃ slot, state.slots[index]? = some slot ∧ slot.isUsed = false ∧
      after = (state.setThread thread (.own slot.block)).setSlot index { slot with isUsed := true } := by
  rw [countersInitThread] at done
  cases found : state.slots[index]? with
  | none =>
      rw [found] at done
      cases done
  | some slot =>
      rw [found] at done
      simp only at done
      split at done
      · cases done
      · rename_i unused
        cases done
        exact ⟨slot, rfl, (Bool.not_eq_true _).mp unused, rfl⟩

theorem finiThread_ok {index : Nat} (done : countersFiniThread setup thread index state = .ok after) :
    ∃ slot, state.slots[index]? = some slot ∧ slot.isUsed = true ∧ state.thread thread = some (.own slot.block) ∧
      after = ((Counters.clear { state with dead := countersCombine setup state.dead state index slot }
        slot.block).setThread thread .dead).setSlot index { slot with isUsed := false } := by
  rw [countersFiniThread] at done
  cases found : state.slots[index]? with
  | none =>
      rw [found] at done
      cases done
  | some slot =>
      rw [found] at done
      simp only at done
      split at done
      · rename_i inUse
        cases done
        exact ⟨slot, rfl, inUse.1, inUse.2, rfl⟩
      · cases done

theorem initDynamicThread_ok {index : Nat} (done : countersInitDynamicThread thread state = .ok (index, after)) :
    ∃ slot, state.slots[index]? = some slot ∧ slot.isUsed = false ∧
      after = ((state.setThread thread (.own slot.block)).setSlot index
        { slot with isUsed := true }).clear slot.block := by
  rw [countersInitDynamicThread] at done
  cases isIndex : state.slots.findIdx? Slot.isFree with
  | none =>
      rw [isIndex] at done
      cases done
  | some first =>
      rw [isIndex] at done
      simp only at done
      cases found : state.slots[first]? with
      | none =>
          rw [found] at done
          cases done
      | some slot =>
          rw [found] at done
          cases done
          refine ⟨slot, found, ?_, rfl⟩
          rcases List.findIdx?_eq_some_iff_getElem.mp isIndex with ⟨below, isFree, -⟩
          rw [List.getElem?_eq_getElem below] at found
          cases found
          rw [Slot.isFree, Bool.and_eq_true, Bool.not_eq_true'] at isFree
          exact isFree.2

theorem finiDynamicThread_ok {index : Nat} (done : countersFiniDynamicThread setup thread index state = .ok after) :
    ∃ slot, state.slots[index]? = some slot ∧ slot.isUsed = true ∧
      after = (Counters.setThread { state with dead := countersCombine setup state.dead state index slot }
        thread .dead).setSlot index ⟨false, false, false, slot.block⟩ := by
  rw [countersFiniDynamicThread] at done
  cases found : state.slots[index]? with
  | none =>
      rw [found] at done
      cases done
  | some slot =>
      rw [found] at done
      simp only at done
      split at done
      · rename_i inUse
        cases done
        exact ⟨slot, rfl, inUse.1, rfl⟩
      · cases done

theorem initThread_kept {index : Nat} (sound : Sound state)
    (isStatic : ∀ slot, state.slots[index]? = some slot → slot.isStatic = true)
    (done : countersInitThread thread index state = .ok after) : Kept setup state after := by
  rcases initThread_ok done with ⟨slot, found, unused, rfl⟩
  have empty := sound.zeroed slot (List.mem_of_getElem? found) (isStatic slot found) unused
  refine ⟨List.length_set, sound.setSlot found { slot with isUsed := true } rfl (fun _ _ => rfl) (fun _ _ => empty),
    fun counter _ _ => ?_⟩
  have moved := @usedSum_setSlot state sound index slot found { slot with isUsed := true } state.blocks
    (fun _ _ => rfl) counter
  rw [Slot.worth, if_neg (Bool.not_eq_true _ ▸ unused), add_zero, Slot.worth, if_pos rfl, empty, add_zero] at moved
  exact congrArg (· + state.dead counter + state.shared counter) moved

theorem countersCombine_plain {out : Block} {index : Nat} {slot : Slot} {counter : Nat}
    (known : counter ≤ setup.numCounters)
    (plain : Plain setup counter) (used : slot.isUsed = true) :
    countersCombine setup out state index slot counter = out counter + state.blocks slot.block counter := by
  have handlers : ∀ (list : List (Nat × (Int → UInt64))) (block : Block), (∀ handler ∈ list, handler.1 ≠ counter) →
      list.foldl (fun block handler => Function.update block handler.1
        (handler.2 (UInt32.ofNat index).toInt32.toInt)) block
        counter = block counter := by
    intro list
    induction list with
    | nil => exact fun _ _ => rfl
    | cons handler list ih =>
        intro block others
        rw [List.foldl_cons, ih _ fun other inside => others other (List.mem_cons_of_mem _ inside),
          Function.update_of_ne (Ne.symm (others handler List.mem_cons_self))]
  rw [countersCombine, handlers _ _ plain, if_pos ⟨known, used⟩]

theorem given_up {index : Nat} {slot : Slot} (sound : Sound state) (found : state.slots[index]? = some slot)
    (used : slot.isUsed = true) (other : Slot) (same : other.block = slot.block) (unused : other.isUsed = false)
    {blocks : Nat → Block}
    {threads : Nat → Option Pointer} (elsewhere : ∀ block, block ≠ slot.block → blocks block = state.blocks block)
    (empty : other.isStatic = true → blocks slot.block = fun _ => 0) :
    Kept setup state { state with
      slots := state.slots.set index other, blocks := blocks, thread := threads
      dead := countersCombine setup state.dead state index slot } := by
  refine ⟨List.length_set, sound.setSlot found other same elsewhere (fun isStatic _ => empty isStatic),
    fun counter known plain => ?_⟩
  have moved := usedSum_setSlot sound found other elsewhere counter
  rw [Slot.worth, if_pos used, Slot.worth, if_neg (Bool.not_eq_true _ ▸ unused), add_zero] at moved
  rw [tally, tally]
  dsimp only
  rw [countersCombine_plain known plain used, ← moved]
  abel

theorem finiThread_kept {index : Nat} (sound : Sound state)
    (done : countersFiniThread setup thread index state = .ok after) :
    Kept setup state after := by
  rcases finiThread_ok done with ⟨slot, found, used, -, rfl⟩
  exact given_up sound found used { slot with isUsed := false } rfl rfl
    (fun block differs => Function.update_of_ne differs _ _) (fun _ => Function.update_self _ _ _)

theorem finiDynamicThread_kept {index : Nat} (sound : Sound state)
    (done : countersFiniDynamicThread setup thread index state = .ok after) : Kept setup state after := by
  rcases finiDynamicThread_ok done with ⟨slot, found, used, rfl⟩
  exact given_up sound found used ⟨false, false, false, slot.block⟩ rfl rfl (fun _ _ => rfl)
    (fun isStatic => Bool.noConfusion isStatic)

theorem initDynamicThread_kept {index : Nat} (sound : Sound state)
    (done : countersInitDynamicThread thread state = .ok (index, after)) : Kept setup state after := by
  rcases initDynamicThread_ok done with ⟨slot, found, unused, rfl⟩
  have elsewhere : ∀ block, block ≠ slot.block →
      Function.update state.blocks slot.block (fun _ => 0) block = state.blocks block :=
    fun block differs => Function.update_of_ne differs _ _
  refine ⟨List.length_set, sound.setSlot found { slot with isUsed := true } rfl elsewhere
    (fun _ _ => Function.update_self _ _ _), fun counter _ _ => ?_⟩
  have moved := usedSum_setSlot sound found { slot with isUsed := true } elsewhere counter
  rw [Slot.worth, if_neg (Bool.not_eq_true _ ▸ unused), add_zero, Slot.worth, if_pos rfl, Function.update_self,
    add_zero] at moved
  exact congrArg (· + state.dead counter + state.shared counter) moved

end

/-! ## Slots that are prepared -/

/-- A slot differs at most in whether it is dynamic. -/
structure Alike (old new : Slot) : Prop where
  block : new.block = old.block
  isStatic : new.isStatic = old.isStatic
  isUsed : new.isUsed = old.isUsed

theorem reuse_alike (count : Nat) (slots : List Slot) : List.Forall₂ Alike slots (reuse count slots).1 := by
  induction slots generalizing count with
  | nil =>
      rw [reuse]
      exact List.Forall₂.nil
  | cons slot slots ih =>
      cases count with
      | zero =>
          rw [reuse]
          · exact List.forall₂_same.mpr fun _ _ => ⟨rfl, rfl, rfl⟩
          · intro none
            cases none
      | succ count =>
          rw [reuse]
          split
          · exact List.Forall₂.cons ⟨rfl, rfl, rfl⟩ (ih count)
          · exact List.Forall₂.cons ⟨rfl, rfl, rfl⟩ (ih (count + 1))

section

variable {setup : Setup} {state after : Counters} {thread : Nat}

theorem alike_blocks {old new : List Slot} (alike : List.Forall₂ Alike old new) :
    new.map Slot.block = old.map Slot.block := by
  induction alike with
  | nil => rfl
  | cons first _ ih => rw [List.map_cons, List.map_cons, first.block, ih]

theorem alike_usedSum {old new : List Slot} (alike : List.Forall₂ Alike old new) (blocks : Nat → Block)
    (counter : Nat) :
    usedSum new blocks counter = usedSum old blocks counter := by
  induction alike with
  | nil => rfl
  | cons first _ ih => rw [usedSum_cons, usedSum_cons, ih, Slot.worth, Slot.worth, first.isUsed, first.block]

theorem alike_mem {old new : List Slot} (alike : List.Forall₂ Alike old new) :
    (∀ slot ∈ new, ∃ other ∈ old, Alike other slot) ∧ ∀ slot ∈ old, ∃ other ∈ new, Alike slot other := by
  induction alike with
  | nil => exact ⟨fun _ inside => absurd inside List.not_mem_nil, fun _ inside => absurd inside List.not_mem_nil⟩
  | cons first _ ih =>
      constructor
      · intro slot inside
        rcases List.mem_cons.mp inside with rfl | inside
        · exact ⟨_, List.mem_cons_self, first⟩
        · rcases ih.1 slot inside with ⟨other, isOther, alike⟩
          exact ⟨other, List.mem_cons_of_mem _ isOther, alike⟩
      · intro slot inside
        rcases List.mem_cons.mp inside with rfl | inside
        · exact ⟨_, List.mem_cons_self, first⟩
        · rcases ih.2 slot inside with ⟨other, isOther, alike⟩
          exact ⟨other, List.mem_cons_of_mem _ isOther, alike⟩

/-- Making slots dynamic changes no count. -/
theorem reuse_kept (sound : Sound state) (count : Nat) :
    Kept setup state { state with slots := (reuse count state.slots).1 } := by
  have alike := reuse_alike count state.slots
  refine ⟨alike.length_eq.symm, ⟨?_, ?_, ?_⟩, fun counter _ _ => ?_⟩
  · rw [Distinct, alike_blocks alike]
    exact sound.distinct
  · intro slot inside
    rcases (alike_mem alike).1 slot inside with ⟨other, isOther, like⟩
    rw [like.block]
    exact sound.allocated other isOther
  · intro slot inside isStatic unused
    rcases (alike_mem alike).1 slot inside with ⟨other, isOther, like⟩
    rw [like.block]
    exact sound.zeroed other isOther (like.isStatic ▸ isStatic) (like.isUsed ▸ unused)
  · rw [tally, tally]
    dsimp only
    rw [alike_usedSum alike]

theorem reuse_counts (counts : Counts state thread) (count : Nat) :
    Counts { state with slots := (reuse count state.slots).1 } thread := by
  intro block leads
  rcases counts block leads with ⟨slot, inside, used, isBlock⟩
  rcases (alike_mem (reuse_alike count state.slots)).2 slot inside with ⟨other, isOther, like⟩
  exact ⟨other, isOther, like.isUsed.trans used, like.block.trans isBlock⟩

section

variable (state) (more : Nat) (contents : Nat → Block)

theorem grow_blocks {block : Nat} (old : block < state.size) :
    (state.grow more contents).blocks block = state.blocks block :=
  if_neg fun inside => absurd inside.1 (Nat.not_le_of_lt old)

theorem mem_grow {slot : Slot} (inside : slot ∈ (state.grow more contents).slots) :
    slot ∈ state.slots ∨ ∃ i < more, slot = ⟨true, false, false, state.size + i⟩ := by
  rcases List.mem_append.mp inside with old | new
  · exact Or.inl old
  · rcases List.mem_map.mp new with ⟨i, isI, rfl⟩
    exact Or.inr ⟨i, List.mem_range.mp isI, rfl⟩

theorem grow_kept (sound : Sound state) :
    Sound (state.grow more contents) ∧ ∀ counter, tally (state.grow more contents) counter = tally state counter := by
  refine ⟨⟨?_, ?_, ?_⟩, fun counter => ?_⟩
  · have blocks : ((List.range more).map fun i => Slot.mk true false false (state.size + i)).map Slot.block =
        (List.range more).map fun i => state.size + i := by
      rw [List.map_map]
      rfl
    show ((state.slots ++ _).map Slot.block).Nodup
    rw [List.map_append, blocks]
    refine sound.distinct.append (List.nodup_range.map fun i j same => Nat.add_left_cancel same) ?_
    intro block old new
    rcases List.mem_map.mp old with ⟨slot, isSlot, rfl⟩
    rcases List.mem_map.mp new with ⟨i, -, same⟩
    have below := sound.allocated slot isSlot
    omega
  · intro slot inside
    show slot.block < state.size + more
    rcases mem_grow state more contents inside with old | ⟨i, few, rfl⟩
    · exact Nat.lt_add_right more (sound.allocated slot old)
    · exact Nat.add_lt_add_left few _
  · intro slot inside isStatic unused
    rcases mem_grow state more contents inside with old | ⟨i, -, rfl⟩
    · rw [grow_blocks state more contents (sound.allocated slot old)]
      exact sound.zeroed slot old isStatic unused
    · cases isStatic
  · have none : usedSum ((List.range more).map fun i => Slot.mk true false false (state.size + i))
        (state.grow more contents).blocks counter = 0 := by
      rw [usedSum, List.map_map]
      apply List.sum_eq_zero
      intro value inside
      rcases List.mem_map.mp inside with ⟨i, -, rfl⟩
      rfl
    have same : usedSum state.slots (state.grow more contents).blocks counter =
      usedSum state.slots state.blocks counter := by
      apply usedSum_congr
      intro slot inside _
      rw [grow_blocks state more contents (sound.allocated slot inside)]
    show usedSum (state.slots ++ _) _ counter + state.dead counter + state.shared counter = _
    rw [usedSum_append, none, add_zero, same]
    rfl

theorem grow_counts (counts : Counts state thread) : Counts (state.grow more contents) thread := by
  intro block leads
  rcases counts block leads with ⟨slot, inside, used⟩
  exact ⟨slot, List.mem_append_left _ inside, used⟩

end

/-- The number of slots after a number of them was prepared. -/
def preparedSlots (state : Counters) (count : Nat) : Nat := state.slots.length + (reuse count state.slots).2

/-- `kit_counters_prepare_dynamic_threads` adds the counts of its allocations,
and no others. -/
theorem prepare_kept {count : Nat} {contents : Nat → Block} (sound : Sound state)
    (counts : (reuse count state.slots).2 ≠ 0 → Counts state thread)
    (done : countersPrepareDynamicThreads setup thread count contents state = .ok after) :
    after.slots.length = preparedSlots state count ∧ Sound after ∧
      ∀ counter, counter ≤ setup.numCounters → Plain setup counter → tally after counter =
        tally state counter + addedTo counter ((Call.prepareDynamicThreads count contents).counts setup state) := by
  have reused := @reuse_kept setup state sound count
  rw [countersPrepareDynamicThreads] at done
  rw [preparedSlots, Call.counts]
  simp only at done ⊢
  split at done
  · rename_i all
    cases done
    rw [if_pos all]
    refine ⟨?_, reused.sound, fun counter known plain => ?_⟩
    · rw [reused.length, all]
      rfl
    · rw [reused.tally counter known plain]
      exact (add_zero _).symm
  · rename_i some
    rw [if_neg some]
    split at done
    · cases done
    · rcases bind_ok done with ⟨allocated, first, done⟩
      have reusedCounts := reuse_counts (counts some) count
      have mallocs := counterIncrs_counted reused.sound reusedCounts first
      rcases grow_kept allocated (reuse count state.slots).2 contents mallocs.sound with ⟨grownSound, grownTally⟩
      have frees := counterIncrs_counted grownSound
        (grow_counts allocated _ contents (mallocs.counts reusedCounts)) done
      refine ⟨?_, frees.sound, fun counter known plain => ?_⟩
      · rw [frees.slots, Counters.grow, List.length_append, List.length_map, List.length_range, mallocs.slots,
          reused.length]
      · rw [frees.tally counter known, grownTally, mallocs.tally counter known, reused.tally counter known plain,
          addedTo_append, add_assoc]

end

end KitCounters
end LibKit
