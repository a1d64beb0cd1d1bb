import LibKit.KitCounters.Model

namespace LibKit
namespace KitCounters

/-!
# Registering counters and reporting them

Counters are numbered from one as they are registered, and an index keeps their
numbers in the order of their names.  `kit_counters_mib_text` goes through the
index, and calls back for the counters of a subtree, or calls their own functions.
Names are the characters in front of the NUL.
-/

/-! ## Registration -/

/-- What is registered: a name, and a combine handler or a mib function, if there
are any. -/
structure Registration where
  txt : List UInt8
  combineHandler : Option (Int → UInt64)
  mibfn : Bool

/-- The number of counters, and the tables `counter_txt`, `sorted_index`,
`combine_handlers` and `mibfns`. -/
structure Registry where
  numCounters : Nat
  counterTxt : Nat → Option (List UInt8)
  sortedIndex : Nat → Nat
  combineHandlers : List (Nat × (Int → UInt64))
  mibfns : Nat → Bool

def Registry.start : Registry := ⟨0, fun _ => none, fun _ => 0, [], fun _ => false⟩

/-- `strcmp`, with its result cut down to a sign. -/
def strcmp : List UInt8 → List UInt8 → Int
  | [], [] => 0
  | [], _ :: _ => -1
  | _ :: _, [] => 1
  | first :: firsts, second :: seconds =>
      if first = second then strcmp firsts seconds else if first < second then -1 else 1

/-- The first loop of `add_to_sorted_index`, from a place with some left. -/
def findPlace (registry : Registry) (txt : List UInt8) : Nat → Nat → Except Stop Nat
  | 0, x => .ok x
  | left + 1, x =>
      match registry.counterTxt (registry.sortedIndex x) with
      | none => .error .undefined
      | some other => if 0 ≤ strcmp txt other then findPlace registry txt left (x + 1) else .ok x

/-- Its second loop, from a place down to that of the counter. -/
def shift (x : Nat) : Nat → (Nat → Nat) → Nat → Nat
  | 0, index => index
  | i + 1, index => if x < i + 1 then shift x i (Function.update index (i + 1) (index i)) else index

/-- `add_to_sorted_index` -/
def addToSortedIndex (counter : Nat) (txt : List UInt8) (registry : Registry) : Except Stop Registry := do
  let x ← findPlace registry txt (registry.numCounters - 1) 0
  let index := shift x (registry.numCounters - 1) registry.sortedIndex
  .ok { registry with sortedIndex := Function.update index x counter }

/-- `KIT_COUNTERS_MAX` -/
def countersMax : Nat := 600

/-- `add_counter` -/
def addCounter (registration : Registration) (registry : Registry) : Except Stop Registry :=
  let counter := registry.numCounters + 1
  if ¬ counter < countersMax then .error .assertion
  else if (registry.counterTxt counter).isSome then .error .assertion
  else do
    let registry ← addToSortedIndex counter registration.txt { registry with
      numCounters := counter
      counterTxt := Function.update registry.counterTxt counter (some registration.txt) }
    .ok { registry with
      combineHandlers := registry.combineHandlers ++
        (registration.combineHandler.map fun handler => (counter, handler)).toList
      mibfns := Function.update registry.mibfns counter registration.mibfn }

/-- Counters are registered one after the other. -/
def addCounters : List Registration → Registry → Except Stop Registry
  | [], registry => .ok registry
  | registration :: registrations, registry => do
      let registry ← addCounter registration registry
      addCounters registrations registry

/-! ## Reports -/

/-- The slots that `kit_counters_combine` goes through. -/
def chosen (threadnum : Int32) (slots : List Slot) : List Slot :=
  if threadnum = -1 then slots else (slots[threadnum.toUInt32.toNat]?).toList

/-- The sum of a counter in `kit_counters_combine`. -/
def combinedSum (state : Counters) (threadnum : Int32) (counter : Nat) : UInt64 :=
  usedSum (chosen threadnum state.slots) state.blocks counter +
    if threadnum = -1 then state.dead counter + state.shared counter else 0

/-- `kit_counters_combine` of counters that are zero. -/
def countersCombineAll (registry : Registry) (state : Counters) (threadnum : Int32) : Block :=
  registry.combineHandlers.foldl (fun block handler => Function.update block handler.1 (handler.2 threadnum.toInt))
    fun counter => if counter ≤ registry.numCounters then combinedSum state threadnum counter else 0

/-- `kit_counter_txt` -/
def kitCounterTxt (registry : Registry) (counter : Nat) : Option (List UInt8) :=
  if counter ≠ 0 ∧ counter ≤ registry.numCounters then registry.counterTxt counter else none

/-- `kit_mibintree`; the character behind a name is a NUL. -/
def kitMibintree (tree mib : List UInt8) : Bool :=
  tree.take tree.length == mib.take tree.length &&
    (tree.length == 0 || mib[tree.length]? == none || mib[tree.length]? == some 46)

/-- `snprintf` of `"%llu"` -/
def printed (value : UInt64) : List UInt8 := (Nat.toDigits 10 value.toNat).map fun digit => UInt8.ofNat digit.toNat

/-- The calls of `kit_counters_mib_text`: of the callback, and of mib functions. -/
inductive Event where
  | callback (name value : List UInt8)
  | mibfn (counter : Nat)
deriving DecidableEq

def report (registry : Registry) (totals : Block) (subtree : List UInt8) (counter : Nat) : Except Stop (List Event) :=
  match kitCounterTxt registry counter with
  | none => .error .undefined
  | some name =>
      if registry.mibfns counter then
        if kitMibintree subtree name || kitMibintree name subtree then .ok [.mibfn counter] else .ok []
      else if kitMibintree subtree name then .ok [.callback name (printed (totals counter))]
      else .ok []

def reports (registry : Registry) (totals : Block) (subtree : List UInt8) : List Nat → Except Stop (List Event)
  | [] => .ok []
  | i :: rest => do
      let first ← report registry totals subtree (registry.sortedIndex i)
      let events ← reports registry totals subtree rest
      .ok (first ++ events)

/-- `kit_counters_mib_text` -/
def mibText (registry : Registry) (state : Counters) (subtree : List UInt8) (threadnum : Int32) :
    Except Stop (List Event) :=
  reports registry (countersCombineAll registry state threadnum) subtree (List.range registry.numCounters)

/-! ## What is to be reported -/

def InTree (subtree name : List UInt8) : Prop := subtree = [] ∨ name = subtree ∨ subtree ++ [46] <+: name

instance (subtree name : List UInt8) : Decidable (InTree subtree name) := inferInstanceAs (Decidable (_ ∨ _ ∨ _))

def combined (state : Counters) (threadnum : Int32) (counter : Nat) (registration : Registration) : UInt64 :=
  match registration.combineHandler with
  | none => combinedSum state threadnum counter
  | some handler => handler threadnum.toInt

def registered (registrations : List Registration) : Nat → Option Registration
  | 0 => none
  | counter + 1 => registrations[counter]?

/-- The name and the value of a counter without a mib function, if it is in the
subtree. -/
def expected (registrations : List Registration) (state : Counters) (subtree : List UInt8) (threadnum : Int32)
    (counter : Nat) :
    Option (List UInt8 × List UInt8) :=
  (registered registrations counter).bind fun registration =>
    if registration.mibfn = false ∧ InTree subtree registration.txt then
      some (registration.txt, printed (combined state threadnum counter registration))
    else none

/-- The names and values with which the callback is called. -/
def called (events : List Event) : List (List UInt8 × List UInt8) :=
  events.filterMap fun event =>
    match event with
    | .callback name value => some (name, value)
    | .mibfn _ => none

/-! ## Names in order -/

theorem strcmp_nonpos {first second : List UInt8} : strcmp first second ≤ 0 ↔ first ≤ second := by
  induction first generalizing second with
  | nil =>
      cases second with
      | nil => simp [strcmp]
      | cons other others => simp [strcmp]
  | cons byte bytes ih =>
      cases second with
      | nil => simp [strcmp]
      | cons other others =>
          rw [strcmp, List.cons_le_cons_iff]
          split
          · rename_i same
            simp [same, ih]
          · rename_i differs
            split
            · simp [*]
            · simp [*]

theorem strcmp_nonneg {first second : List UInt8} : 0 ≤ strcmp first second ↔ second ≤ first := by
  induction first generalizing second with
  | nil =>
      cases second with
      | nil => simp [strcmp]
      | cons other others => simp [strcmp]
  | cons byte bytes ih =>
      cases second with
      | nil => simp [strcmp]
      | cons other others =>
          rw [strcmp, List.cons_le_cons_iff]
          split
          · rename_i same
            simp [same, ih]
          · rename_i differs
            split
            · rename_i less
              simp [Ne.symm differs, UInt8.not_lt.mpr (UInt8.le_of_lt less)]
            · rename_i notLess
              simp [UInt8.lt_of_le_of_ne (UInt8.not_lt.mp notLess) (Ne.symm differs)]

/-! ## The index -/

/-- Entries behind a place move up by one. -/
theorem shift_apply {x i j : Nat} {index : Nat → Nat} :
    shift x i index j = if x < j ∧ j ≤ i then index (j - 1) else index j := by
  induction i generalizing index with
  | zero =>
      rw [shift, if_neg]
      omega
  | succ i ih =>
      rw [shift]
      split
      · rename_i below
        rw [ih]
        by_cases last : j = i + 1
        · rw [if_neg (by omega), if_pos (by omega), last, Function.update_self, Nat.add_sub_cancel]
        · by_cases moved : x < j ∧ j ≤ i
          · rw [if_pos moved, if_pos (by omega), Function.update_of_ne (by omega)]
          · rw [if_neg moved, if_neg (by omega), Function.update_of_ne last]
      · rw [if_neg]
        omega

def inserted (x counter : Nat) (index : Nat → Nat) (j : Nat) : Nat :=
  if j < x then index j else if j = x then counter else index (j - 1)

theorem inserted_eq {x n counter j : Nat} {index : Nat → Nat} (inside : j ≤ n) :
    Function.update (shift x n index) x counter j = inserted x counter index j := by
  rw [inserted, Function.update_apply, shift_apply]
  by_cases here : j = x
  · rw [if_pos here, if_neg (by omega), if_pos here]
  · rw [if_neg here]
    by_cases before : j < x
    · rw [if_neg (by omega), if_pos before]
    · rw [if_pos (by omega), if_neg before, if_neg here]

theorem inserted_perm {x n counter : Nat} {index : Nat → Nat} (inside : x ≤ n) :
    ((List.range (n + 1)).map (inserted x counter index)).Perm (counter :: (List.range n).map index) := by
  have split : (List.range (n + 1)).map (inserted x counter index) =
      ((List.range n).map index).take x ++ counter :: ((List.range n).map index).drop x := by
    apply List.ext_getElem
    · rw [List.length_append, List.length_cons, List.length_take, List.length_drop, List.length_map, List.length_map,
        List.length_range, List.length_range]
      omega
    · intro j isFirst isSecond
      rw [List.length_map, List.length_range] at isFirst
      rw [List.getElem_map, List.getElem_range, inserted]
      have length : (((List.range n).map index).take x).length = x := by
        rw [List.length_take, List.length_map, List.length_range]
        omega
      by_cases before : j < x
      · rw [if_pos before, List.getElem_append_left (by omega), List.getElem_take, List.getElem_map, List.getElem_range]
      · rw [if_neg before, List.getElem_append_right (by omega)]
        by_cases here : j = x
        · simp only [here, length, Nat.sub_self, List.getElem_cons_zero, if_true]
        · have place : j - (((List.range n).map index).take x).length = (j - x - 1) + 1 := by omega
          simp only [place, List.getElem_cons_succ, List.getElem_drop, List.getElem_map, List.getElem_range]
          rw [if_neg here]
          congr 1
          omega
  rw [split]
  refine List.perm_middle.trans ?_
  rw [List.take_append_drop]

/-- The place of a name is behind those that are not greater, and in front of the
others. -/
theorem findPlace_ok {registry : Registry} {txt : List UInt8} {names : Nat → List UInt8} {left x : Nat}
    (known : ∀ j, j < x + left → registry.counterTxt (registry.sortedIndex j) = some (names j))
    (before : ∀ j, j < x → names j ≤ txt) :
    ∃ place, findPlace registry txt left x = .ok place ∧ place ≤ x + left ∧ (∀ j, j < place → names j ≤ txt) ∧
      (place < x + left → txt ≤ names place) := by
  induction left generalizing x with
  | zero => exact ⟨x, rfl, le_rfl, before, fun wrong => absurd wrong (Nat.lt_irrefl x)⟩
  | succ left ih =>
      rw [findPlace, known x (by omega)]
      dsimp only
      by_cases greater : 0 ≤ strcmp txt (names x)
      · rw [if_pos greater]
        rcases @ih (x + 1) (fun j below => known j (by omega)) fun j below => by
          rcases Nat.lt_succ_iff_lt_or_eq.mp below with earlier | rfl
          · exact before j earlier
          · exact strcmp_nonneg.mp greater with ⟨place, found, inside, notGreater, less⟩
        exact ⟨place, found, by omega, notGreater, fun below => less (by omega)⟩
      · rw [if_neg greater]
        exact ⟨x, rfl, by omega, before, fun _ => Std.le_of_not_ge (mt strcmp_nonneg.mpr greater)⟩

/-! ## Registries -/

section

variable {registrations : List Registration} {registry : Registry}

theorem registered_of_gt {counter : Nat} (more : registrations.length < counter) :
    registered registrations counter = none := by
  cases counter with
  | zero => rfl
  | succ counter => exact List.getElem?_eq_none (by omega)

theorem registered_append (registration : Registration) (counter : Nat) :
    registered (registrations ++ [registration]) counter =
      if counter = registrations.length + 1 then some registration else registered registrations counter := by
  cases counter with
  | zero => rfl
  | succ counter =>
      rw [registered, registered]
      split
      · rename_i last
        cases Nat.succ.inj last
        rw [List.getElem?_append_right le_rfl, Nat.sub_self]
        rfl
      · rename_i differs
        rcases Nat.lt_or_gt_of_ne (fun same => differs (congrArg (· + 1) same)) with less | more
        · exact List.getElem?_append_left less
        · rw [List.getElem?_eq_none (by rw [List.length_append, List.length_singleton]; omega),
            List.getElem?_eq_none (by omega)]

theorem registered_isSome {counter : Nat} (inside : counter ∈ List.range' 1 registrations.length) :
    ∃ registration, registered registrations counter = some registration := by
  rw [List.mem_range'_1] at inside
  cases counter with
  | zero => exact absurd inside.1 (Nat.not_lt_zero 0)
  | succ counter => exact ⟨_, List.getElem?_eq_getElem (by omega)⟩

def nameOf (registrations : List Registration) (counter : Nat) : List UInt8 :=
  ((registered registrations counter).map Registration.txt).getD []

/-- The tables are those of what was registered, and the index has every counter
once, with their names in order. -/
structure Indexed (registrations : List Registration) (registry : Registry) : Prop where
  count : registry.numCounters = registrations.length
  txt : ∀ counter, registry.counterTxt counter = (registered registrations counter).map Registration.txt
  mibfn : ∀ counter, registry.mibfns counter = ((registered registrations counter).map Registration.mibfn).getD false
  handlers : ∀ (sums : Block) (arg : Int) counter,
    registry.combineHandlers.foldl (fun block handler => Function.update block handler.1 (handler.2 arg)) sums counter =
      (((registered registrations counter).bind Registration.combineHandler).map fun handler => handler arg).getD
      (sums counter)
  entries : ((List.range registrations.length).map registry.sortedIndex).Perm (List.range' 1 registrations.length)
  sorted : ∀ i j, i < j → j < registrations.length →
    nameOf registrations (registry.sortedIndex i) ≤ nameOf registrations (registry.sortedIndex j)

theorem start_indexed : Indexed [] Registry.start where
  count := rfl
  txt counter := by
    rw [registered.eq_def]
    cases counter <;> rfl
  mibfn counter := by
    rw [registered.eq_def]
    cases counter <;> rfl
  handlers sums arg counter := by
    rw [registered.eq_def]
    cases counter <;> rfl
  entries := List.Perm.nil
  sorted i j _ below := absurd below (Nat.not_lt_zero j)

theorem Indexed.entry (indexed : Indexed registrations registry) {i : Nat} (inside : i < registrations.length) :
    registry.sortedIndex i ∈ List.range' 1 registrations.length :=
  indexed.entries.mem_iff.mp (List.mem_map.mpr ⟨i, List.mem_range.mpr inside, rfl⟩)

/-- One more counter. -/
theorem Indexed.add (indexed : Indexed registrations registry) (registration : Registration)
    (few : registrations.length + 1 < countersMax) :
    ∃ after, addCounter registration registry = .ok after ∧ Indexed (registrations ++ [registration]) after := by
  have count := indexed.count
  have fresh : registered registrations (registrations.length + 1) = none := registered_of_gt (Nat.lt_succ_self _)
  have old : ∀ {i}, i < registrations.length → registry.sortedIndex i ≠ registrations.length + 1 := by
    intro i inside same
    have range := List.mem_range'_1.mp (indexed.entry inside)
    omega
  have name : ∀ {i}, i < registrations.length →
      nameOf (registrations ++ [registration]) (registry.sortedIndex i) =
        nameOf registrations (registry.sortedIndex i) := by
    intro i inside
    rw [nameOf, nameOf, registered_append, if_neg (old inside)]
  have newName : nameOf (registrations ++ [registration]) (registrations.length + 1) = registration.txt := by
    rw [nameOf, registered_append, if_pos rfl]
    rfl
  rcases @findPlace_ok { registry with
      numCounters := registrations.length + 1
      counterTxt := Function.update registry.counterTxt (registrations.length + 1) (some registration.txt) }
    registration.txt (fun i => nameOf registrations (registry.sortedIndex i)) registrations.length 0 (fun i inside => by
      rw [Nat.zero_add] at inside
      dsimp only
      rw [Function.update_of_ne (old inside), indexed.txt]
      rcases registered_isSome (indexed.entry inside) with ⟨other, isOther⟩
      rw [nameOf, isOther]
      rfl) (fun i below => absurd below (Nat.not_lt_zero i)) with ⟨x, found, inside, notGreater, less⟩
  rw [Nat.zero_add] at inside less
  have entriesAre : ∀ j, j < registrations.length + 1 →
      Function.update (shift x registrations.length registry.sortedIndex) x (registrations.length + 1) j =
        inserted x (registrations.length + 1) registry.sortedIndex j :=
    fun j below => inserted_eq (Nat.le_of_lt_succ below)
  refine ⟨{
    numCounters := registrations.length + 1
    counterTxt := Function.update registry.counterTxt (registrations.length + 1) (some registration.txt)
    sortedIndex := Function.update (shift x registrations.length registry.sortedIndex) x (registrations.length + 1)
    combineHandlers := registry.combineHandlers ++
      (registration.combineHandler.map fun handler => (registrations.length + 1, handler)).toList
    mibfns := Function.update registry.mibfns (registrations.length + 1) registration.mibfn }, ?_, ?_⟩
  · unfold addCounter addToSortedIndex
    dsimp only
    rw [count, if_neg (not_not.mpr few), indexed.txt, fresh, if_neg (by decide), Nat.add_sub_cancel, found]
    rfl
  · have length : (registrations ++ [registration]).length = registrations.length + 1 := by
      rw [List.length_append, List.length_singleton]
    constructor
    · exact length.symm
    · intro counter
      dsimp only
      rw [registered_append, Function.update_apply]
      split
      · rfl
      · exact indexed.txt counter
    · intro counter
      dsimp only
      rw [registered_append, Function.update_apply]
      split
      · rfl
      · exact indexed.mibfn counter
    · intro sums arg counter
      dsimp only
      rw [List.foldl_append, registered_append]
      cases handled : registration.combineHandler with
      | none =>
          rw [Option.map_none, Option.toList_none, List.foldl_nil, indexed.handlers]
          split
          · rename_i last
            rw [last, fresh, Option.bind_some, handled]
            rfl
          · rfl
      | some handler =>
          rw [Option.map_some, Option.toList_some, List.foldl_cons, List.foldl_nil, Function.update_apply]
          split
          · rw [Option.bind_some, handled]
            rfl
          · exact indexed.handlers sums arg counter
    · dsimp only
      rw [length, List.range'_1_concat]
      have same : (List.range (registrations.length + 1)).map
          (Function.update (shift x registrations.length registry.sortedIndex) x (registrations.length + 1)) =
            (List.range (registrations.length + 1)).map (inserted x (registrations.length + 1) registry.sortedIndex) :=
        List.map_congr_left fun j isJ => entriesAre j (List.mem_range.mp isJ)
      rw [same]
      refine (inserted_perm inside).trans ?_
      refine ((indexed.entries.cons _).trans (List.perm_append_singleton _ _).symm).trans ?_
      rw [Nat.add_comm]
    · intro i j before below
      dsimp only
      rw [length] at below
      rw [entriesAre i (by omega), entriesAre j below, inserted, inserted]
      rcases Nat.lt_trichotomy j x with jBefore | rfl | jBehind
      · rw [if_pos (before.trans jBefore), if_pos jBefore, name (by omega), name (by omega)]
        exact indexed.sorted i j before (by omega)
      · rw [if_pos before, if_neg (Nat.lt_irrefl j), if_pos rfl, name (by omega), newName]
        exact notGreater i before
      · have jNot : ¬ j < x := Nat.not_lt.mpr (Nat.le_of_lt jBehind)
        rw [if_neg jNot, if_neg (Nat.ne_of_gt jBehind), name (by omega : j - 1 < registrations.length)]
        rcases Nat.lt_trichotomy i x with iBefore | rfl | iBehind
        · rw [if_pos iBefore, name (by omega)]
          exact indexed.sorted i (j - 1) (by omega) (by omega)
        · rw [if_neg (Nat.lt_irrefl i), if_pos rfl, newName]
          rcases Nat.eq_or_lt_of_le (Nat.le_sub_one_of_lt jBehind) with same | more
          · rw [← same]
            exact less (by omega)
          · exact List.le_trans (less (by omega)) (indexed.sorted i (j - 1) more (by omega))
        · have iNot : ¬ i < x := Nat.not_lt.mpr (Nat.le_of_lt iBehind)
          rw [if_neg iNot, if_neg (Nat.ne_of_gt iBehind), name (by omega)]
          exact indexed.sorted (i - 1) (j - 1) (by omega) (by omega)

theorem Indexed.addAll {more : List Registration} (indexed : Indexed registrations registry)
    (few : registrations.length + more.length < countersMax) :
    ∃ after, addCounters more registry = .ok after ∧ Indexed (registrations ++ more) after := by
  induction more generalizing registrations registry with
  | nil =>
      refine ⟨registry, rfl, ?_⟩
      rw [List.append_nil]
      exact indexed
  | cons registration more ih =>
      rw [List.length_cons] at few
      rcases indexed.add registration (by omega) with ⟨next, added, isNext⟩
      rcases ih isNext (by rw [List.length_append, List.length_singleton]; omega) with ⟨after, addedAll, isAfter⟩
      refine ⟨after, ?_, ?_⟩
      · rw [addCounters, added]
        exact addedAll
      · rwa [List.append_assoc] at isAfter

/-! ## What is reported -/

theorem kitMibintree_iff {tree mib : List UInt8} : kitMibintree tree mib = true ↔ InTree tree mib := by
  rw [kitMibintree, InTree, List.take_length]
  simp only [Bool.and_eq_true, beq_iff_eq, Bool.or_eq_true, List.length_eq_zero_iff]
  constructor
  · rintro ⟨same, (isEmpty | ends) | dot⟩
    · exact .inl isEmpty
    · refine .inr (.inl ?_)
      rw [same]
      exact (List.take_of_length_le (List.getElem?_eq_none_iff.mp ends)).symm
    · refine .inr (.inr ?_)
      rcases List.getElem?_eq_some_iff.mp dot with ⟨inside, isDot⟩
      refine ⟨mib.drop (tree.length + 1), ?_⟩
      have split := List.take_append_drop tree.length mib
      rw [← same, List.drop_eq_getElem_cons inside, isDot] at split
      rw [List.append_assoc]
      exact split
  · rintro (rfl | rfl | ⟨rest, rfl⟩)
    · exact ⟨rfl, .inl (.inl rfl)⟩
    · exact ⟨(List.take_length).symm, .inl (.inr (List.getElem?_eq_none le_rfl))⟩
    · refine ⟨?_, .inr ?_⟩
      · rw [List.append_assoc, List.take_left]
      · rw [List.append_assoc, List.getElem?_append_right le_rfl, Nat.sub_self]
        rfl

theorem combineAll_eq (indexed : Indexed registrations registry) (state : Counters) (threadnum : Int32) {counter : Nat}
    {registration : Registration} (isRegistered : registered registrations counter = some registration) :
    countersCombineAll registry state threadnum counter = combined state threadnum counter registration := by
  have known : counter ≤ registry.numCounters := by
    rw [indexed.count]
    by_contra more
    rw [registered_of_gt (Nat.lt_of_not_le more)] at isRegistered
    cases isRegistered
  rw [countersCombineAll, indexed.handlers, isRegistered, Option.bind_some, combined]
  cases registration.combineHandler with
  | none => exact if_pos known
  | some handler => rfl

/-- One round reports what is expected of its counter. -/
theorem report_called (indexed : Indexed registrations registry) (state : Counters) (threadnum : Int32)
    (subtree : List UInt8)
    {counter : Nat} (inside : counter ∈ List.range' 1 registrations.length) :
    ∃ events, report registry (countersCombineAll registry state threadnum) subtree counter = .ok events ∧
      called events = (expected registrations state subtree threadnum counter).toList := by
  rcases registered_isSome inside with ⟨registration, isRegistered⟩
  have range := List.mem_range'_1.mp inside
  have isName : kitCounterTxt registry counter = some registration.txt := by
    rw [kitCounterTxt, if_pos (by rw [indexed.count]; omega), indexed.txt, isRegistered]
    rfl
  have isMib : registry.mibfns counter = registration.mibfn := by
    rw [indexed.mibfn, isRegistered]
    rfl
  rw [expected, isRegistered, report, isName, Option.bind_some]
  dsimp only
  rw [isMib]
  cases registration.mibfn with
  | true =>
      have never : ¬ (true = false ∧ InTree subtree registration.txt) := fun both => absurd both.1 (by decide)
      rw [if_pos rfl, if_neg never]
      split
      · exact ⟨_, rfl, rfl⟩
      · exact ⟨_, rfl, rfl⟩
  | false =>
      rw [if_neg (by decide)]
      by_cases within : InTree subtree registration.txt
      · rw [if_pos (kitMibintree_iff.mpr within), if_pos ⟨rfl, within⟩,
          combineAll_eq indexed state threadnum isRegistered]
        exact ⟨_, rfl, rfl⟩
      · rw [if_neg (mt kitMibintree_iff.mp within), if_neg (fun both => within both.2)]
        exact ⟨_, rfl, rfl⟩

theorem called_append (first second : List Event) : called (first ++ second) = called first ++ called second :=
  List.filterMap_append

theorem reports_called (indexed : Indexed registrations registry) (state : Counters) (threadnum : Int32)
    (subtree : List UInt8)
    {places : List Nat} (inside : ∀ i ∈ places, i < registrations.length) :
    ∃ events, reports registry (countersCombineAll registry state threadnum) subtree places = .ok events ∧
      called events = (places.map registry.sortedIndex).filterMap (expected registrations state subtree threadnum) := by
  induction places with
  | nil => exact ⟨[], rfl, rfl⟩
  | cons i places ih =>
      rcases report_called indexed state threadnum subtree (indexed.entry (inside i List.mem_cons_self)) with
        ⟨first, isFirst, calledFirst⟩
      rcases ih fun j isJ => inside j (List.mem_cons_of_mem i isJ) with ⟨events, isEvents, calledRest⟩
      refine ⟨first ++ events, ?_, ?_⟩
      · rw [reports, isFirst, ok_bind, isEvents, ok_bind]
      · rw [called_append, calledFirst, calledRest, List.map_cons]
        cases isExpected : expected registrations state subtree threadnum (registry.sortedIndex i) with
        | none =>
            rw [List.filterMap_cons_none isExpected]
            rfl
        | some call =>
            rw [List.filterMap_cons_some isExpected]
            rfl

theorem expected_name {state : Counters} {subtree : List UInt8} {threadnum : Int32} {counter : Nat}
    {call : List UInt8 × List UInt8} (isExpected : expected registrations state subtree threadnum counter = some call) :
    call.1 = nameOf registrations counter := by
  rcases Option.bind_eq_some_iff.mp isExpected with ⟨registration, isRegistered, isCall⟩
  rw [nameOf, isRegistered]
  split at isCall
  · cases isCall
    rfl
  · cases isCall

end

/-- Whatever is registered, `kit_counters_mib_text` calls back for every counter
of the subtree without a mib function once, in the order of their names. -/
theorem mib_text_reports {registrations : List Registration} (few : registrations.length < countersMax)
    (state : Counters)
    (subtree : List UInt8) (threadnum : Int32) :
    ∃ registry events, addCounters registrations Registry.start = .ok registry ∧
      mibText registry state subtree threadnum = .ok events ∧
      (called events).Perm ((List.range' 1 registrations.length).filterMap
        (expected registrations state subtree threadnum)) ∧
      (called events).Pairwise fun first second => strcmp first.1 second.1 ≤ 0 := by
  rcases start_indexed.addAll (by rw [List.length_nil]; omega : ([] : List Registration).length +
    registrations.length < countersMax)
    with ⟨registry, added, indexed⟩
  rw [List.nil_append] at indexed
  rcases @reports_called _ _ indexed state threadnum subtree (List.range registrations.length)
    (fun i isI => List.mem_range.mp isI) with ⟨events, isEvents, isCalled⟩
  refine ⟨registry, events, added, ?_, ?_, ?_⟩
  · rw [mibText, indexed.count]
    exact isEvents
  · rw [isCalled]
    exact indexed.entries.filterMap _
  · rw [isCalled]
    rw [List.pairwise_filterMap, List.pairwise_map]
    refine List.Pairwise.imp_of_mem ?_ List.pairwise_lt_range
    intro i j _ isJ less first isFirst second isSecond
    rw [strcmp_nonpos, expected_name isFirst, expected_name isSecond]
    exact indexed.sorted i j less (List.mem_range.mp isJ)

/-- A counter whose name begins with that of another. -/
theorem mib_text_reports_nested : ∃ registry events,
    addCounters [⟨[98], none, false⟩, ⟨[97, 46, 98], none, false⟩, ⟨[97], none, false⟩] Registry.start = .ok registry ∧
      mibText registry ⟨[], fun _ _ => 0, 0, fun _ => 5, fun _ => 2, fun _ => none⟩ [97] (-1) = .ok events ∧
      (called events).Perm [([97, 46, 98], [55]), ([97], [55])] ∧
      (called events).Pairwise fun first second => strcmp first.1 second.1 ≤ 0 :=
  @mib_text_reports [⟨[98], none, false⟩, ⟨[97, 46, 98], none, false⟩, ⟨[97], none, false⟩] (by decide)
    ⟨[], fun _ _ => 0, 0, fun _ => 5, fun _ => 2, fun _ => none⟩ [97] (-1)

end KitCounters
end LibKit
