import LibKit.Support.Results
import LibKit.Support.Runs

namespace LibKit
namespace Jitson
namespace Operators

/-!
# Operators and the types that implement them

`sxe-jitson-oper.c` keeps a table of operators and, for each type of values, a
table of the functions that the type has for operators.  The tables are made and
grow when types and operators are registered and functions are added.

The functions are of any kind, and values of any kind have types.
-/

/-! ## The tables -/

/-- `struct sxe_jitson_oper` -/
structure Oper (Func : Type) where
  name : Option String
  flags : Nat
  defFunc : Option Func

/-- `struct sxe_jitson_oper_per_type` -/
structure OperPerType (Func : Type) where
  numOpers : Nat
  opers : List (Option Func)

/-- The variables of the module, with the number of types that
`sxe_jitson_type_register` counts.  A table that is not allocated is empty. -/
structure Tables (Func : Type) where
  numOpers : Nat := 0
  opers : List (Oper Func) := []
  numTypes : Nat := 0
  typeOpers : List (OperPerType Func) := []
  typeCount : Nat := 0

/-- What a call runs into: an assertion, an access outside of a table, or no
function, which is the error `EOPNOTSUPP`. -/
inductive Fault where
  | assertion
  | undefined
  | notSupported
  deriving DecidableEq

variable {Func : Type}

/-- The assertion that `kit_realloc` or `kit_calloc` returns memory.  It does not
for no bytes. -/
def allocate (memory : Nat → Bool) (bytes : Nat) : Except Fault Unit :=
  if bytes ≠ 0 ∧ memory bytes = true then .ok () else .error .assertion

/-- `sxe_jitson_oper_increase_num_types` -/
def increaseNumTypes (memory : Nat → Bool) (tables : Tables Func) (type : Nat) : Except Fault (Tables Func) :=
  if type ≥ tables.numTypes then
    if tables.numOpers ≠ 0 then
      allocate memory ((type + 1) % 2 ^ 32 * 16) >>= fun _ =>
        .ok { tables with
          numTypes := type + 1
          typeOpers := tables.typeOpers.take tables.numTypes ++ List.replicate (type + 1 - tables.numTypes) ⟨0, []⟩ }
    else .ok { tables with numTypes := (type + 1) % 2 ^ 32 }
  else .ok tables

/-- The part of `sxe_jitson_type_register` that numbers a type.  The table of
the types themselves ends before the last number of 32 bits. -/
def registerType (memory : Nat → Bool) (tables : Tables Func) : Except Fault (Nat × Tables Func) :=
  if tables.typeCount + 1 < 2 ^ 32 then
    increaseNumTypes memory { tables with typeCount := tables.typeCount + 1 } tables.typeCount >>= fun next =>
      .ok (tables.typeCount, next)
  else .error .undefined

/-- An operator with this name is in the table, in which operator 0 is
invalid. -/
def Tables.Named (tables : Tables Func) (name : String) : Prop :=
  ∃ oper ∈ (tables.opers.drop 1).take tables.numOpers, oper.name = some name

instance (tables : Tables Func) (name : String) : Decidable (tables.Named name) :=
  inferInstanceAs (Decidable (∃ oper ∈ (tables.opers.drop 1).take tables.numOpers, oper.name = some name))

/-- The last part of `sxe_jitson_oper_register`, which writes the new entry. -/
def writeOper (tables : Tables Func) (name : String) (flags : Nat) (defFunc : Option Func) : Nat × Tables Func :=
  (tables.numOpers, { tables with opers := tables.opers.set tables.numOpers ⟨some name, flags, defFunc⟩ })

/-- `sxe_jitson_oper_register` -/
def register (memory : Nat → Bool) (tables : Tables Func) (name : String) (flags : Nat) (defFunc : Option Func) :
    Except Fault (Nat × Tables Func) :=
  if tables.numOpers = 0 then
    allocate memory (2 * 24) >>= fun _ =>
      let first := { tables with opers := [⟨none, 0, none⟩, ⟨none, 0, none⟩], numOpers := 1 }
      (if tables.numTypes ≠ 0 then increaseNumTypes memory { first with numTypes := 0 } (tables.numTypes - 1)
        else .ok first) >>= fun next => .ok (writeOper next name flags defFunc)
  else if tables.Named name then .error .assertion
  else
    allocate memory (((tables.numOpers + 1) % 2 ^ 32 + 1) % 2 ^ 32 * 24) >>= fun _ =>
      .ok (writeOper { tables with
        opers := tables.opers.take (tables.numOpers + 1) ++ [⟨none, 0, none⟩]
        numOpers := (tables.numOpers + 1) % 2 ^ 32 } name flags defFunc)

/-- The functions of a type with a place for that of an operator. -/
def OperPerType.grow (entry : OperPerType Func) (op : Nat) : OperPerType Func where
  numOpers := op + 1
  opers := entry.opers.take entry.numOpers ++ List.replicate (op + 1 - entry.numOpers) none

/-- `sxe_jitson_oper_add_to_type` -/
def addToType (memory : Nat → Bool) (tables : Tables Func) (op type : Nat) (func : Option Func) :
    Except Fault (Tables Func) :=
  if op ≤ tables.numOpers ∧ type < tables.numTypes then
    match tables.typeOpers[type]? with
    | none => .error .undefined
    | some entry =>
        (if op ≥ entry.numOpers then allocate memory ((op + 1) % 2 ^ 32 * 8) >>= fun _ => .ok (entry.grow op)
          else .ok entry) >>= fun entry =>
            .ok { tables with typeOpers := tables.typeOpers.set type { entry with opers := entry.opers.set op func } }
  else .error .assertion

/-! ## Applying operators -/

/-- The function that a type has for an operator. -/
def typeFunc (tables : Tables Func) (op type : Nat) : Except Fault (Option Func) :=
  match tables.typeOpers[type]? with
  | none => .error .undefined
  | some entry =>
      if op < entry.numOpers then
        match entry.opers[op]? with
        | none => .error .undefined
        | some func => .ok func
      else .ok none

/-- A function, else another one, else the error. -/
def orElse : Option Func → Option Func → Except Fault Func
  | some func, _ => .ok func
  | none, some func => .ok func
  | none, none => .error .notSupported

/-- The function that is called for an operator on a value of a type. -/
def select (tables : Tables Func) (op type : Nat) : Except Fault Func :=
  typeFunc tables op type >>= fun func =>
    match func with
    | some func => .ok func
    | none =>
        match tables.opers[op]? with
        | none => .error .undefined
        | some oper => orElse none oper.defFunc

section

variable {Value Result : Type} (dereference : Value → Value) (typeOf : Value → Nat)

/-- `sxe_jitson_oper_apply_unary` -/
def applyUnary (call : Func → Value → Result) (tables : Tables Func) (op : Nat) (arg : Value) : Except Fault Result :=
  select tables op (typeOf (dereference arg)) >>= fun func => .ok (call func (dereference arg))

/-- The operand that decides about the function, which is the right one if the
flag `SXE_JITSON_OPER_TYPE_RIGHT` is set. -/
def deciding (flags : Nat) (left right : Value) : Value :=
  if flags.testBit 1 then dereference right else dereference left

/-- `sxe_jitson_oper_apply_binary` -/
def applyBinary (call : Func → Value → Value → Result) (tables : Tables Func) (left : Value) (op : Nat)
    (right : Value) :
    Except Fault Result :=
  match tables.opers[op]? with
  | none => .error .undefined
  | some oper =>
      select tables op (typeOf (deciding dereference oper.flags left right)) >>= fun func =>
        .ok (call func (dereference left) (dereference right))

end

/-! ## Runs -/

inductive Call (Func : Type) where
  | registerType (memory : Nat → Bool)
  | register (memory : Nat → Bool) (name : String) (flags : Nat) (defFunc : Option Func)
  | addToType (memory : Nat → Bool) (op type : Nat) (func : Option Func)

inductive Answer where
  | type (id : Nat)
  | oper (id : Nat)
  | done
  deriving DecidableEq

def step (tables : Tables Func) : Call Func → Option (Answer × Tables Func)
  | .registerType memory => (registerType memory tables).toOption.map fun (id, next) => (.type id, next)
  | .register memory name flags defFunc =>
      (register memory tables name flags defFunc).toOption.map fun (id, next) => (.oper id, next)
  | .addToType memory op type func => (addToType memory tables op type func).toOption.map fun next => (.done, next)

/-- The function that was added last for an operator and a type. -/
def mostRecent : History (Call Func) Answer → Nat → Nat → Option Func
  | [], _, _ => none
  | (.addToType _ op' type' func, _) :: history, op, type =>
      if op' = op ∧ type' = type then func else mostRecent history op type
  | _ :: history, op, type => mostRecent history op type

/-- The numbers of the types that were registered. -/
def typeIds (history : History (Call Func) Answer) : List Nat :=
  history.filterMap fun entry => match entry.2 with | .type id => some id | _ => none

/-- The numbers of the operators that were registered. -/
def operIds (history : History (Call Func) Answer) : List Nat :=
  history.filterMap fun entry => match entry.2 with | .oper id => some id | _ => none

/-! ## The functions in the tables -/

/-- The function in the table of a type, if there is one. -/
def lookup (typeOpers : List (OperPerType Func)) (op type : Nat) : Option Func :=
  ((typeOpers[type]?).bind fun entry => entry.opers[op]?).join

/-- The tables are as long as they say they are. -/
structure Tables.Formed (tables : Tables Func) : Prop where
  types : tables.typeCount = tables.numTypes
  fewTypes : tables.numTypes < 2 ^ 32
  fewOpers : tables.numOpers + 1 < 2 ^ 32
  opers : tables.numOpers ≠ 0 → tables.opers.length = tables.numOpers + 1
  perType : tables.typeOpers.length = if tables.numOpers = 0 then 0 else tables.numTypes
  sized : ∀ entry ∈ tables.typeOpers, entry.opers.length = entry.numOpers

/-- New types have no functions. -/
theorem lookup_append_empty (typeOpers : List (OperPerType Func)) (count op type : Nat) :
    lookup (typeOpers ++ List.replicate count ⟨0, []⟩) op type = lookup typeOpers op type := by
  rw [lookup, lookup]
  rcases Nat.lt_or_ge type typeOpers.length with inside | outside
  · rw [List.getElem?_append_left inside]
  · rw [List.getElem?_append_right outside, List.getElem?_eq_none outside, List.getElem?_replicate]
    split <;> rfl

theorem OperPerType.grow_opers {entry : OperPerType Func} (sized : entry.opers.length = entry.numOpers)
    (op op' : Nat) : ((entry.grow op).opers[op']?).join = (entry.opers[op']?).join := by
  rw [OperPerType.grow, ← sized, List.take_length]
  rcases Nat.lt_or_ge op' entry.opers.length with inside | outside
  · rw [List.getElem?_append_left inside]
  · rw [List.getElem?_append_right outside, List.getElem?_eq_none outside, List.getElem?_replicate]
    split <;> rfl

theorem OperPerType.grow_sized {entry : OperPerType Func} (sized : entry.opers.length = entry.numOpers) {op : Nat}
    (behind : entry.numOpers ≤ op) : (entry.grow op).opers.length = op + 1 := by
  rw [OperPerType.grow, ← sized, List.take_length, List.length_append, List.length_replicate]
  omega

theorem Tables.Formed.typeFunc_eq {tables : Tables Func} (formed : tables.Formed) {op type : Nat}
    (inside : type < tables.typeOpers.length) : typeFunc tables op type = .ok (lookup tables.typeOpers op type) := by
  have entryIs := List.getElem?_eq_getElem inside
  have sized := formed.sized _ (List.getElem_mem inside)
  rw [typeFunc, lookup, entryIs, Option.bind_some]
  dsimp only
  by_cases has : op < tables.typeOpers[type].numOpers
  · rw [if_pos has, List.getElem?_eq_getElem (by omega)]
    rfl
  · rw [if_neg has, List.getElem?_eq_none (by omega)]
    rfl

/-! ## What the calls do -/

theorem allocate_ok {memory : Nat → Bool} {bytes : Nat} (done : allocate memory bytes = .ok ()) : bytes ≠ 0 := by
  unfold allocate at done
  split at done
  · rename_i granted
    exact granted.1
  · cases done

theorem increaseNumTypes_ok {memory : Nat → Bool} {tables next : Tables Func} {type : Nat}
    (new : tables.numTypes ≤ type)
    (few : type + 1 < 2 ^ 32) (done : increaseNumTypes memory tables type = .ok next) :
    next = { tables with
      numTypes := type + 1
      typeOpers := if tables.numOpers = 0 then tables.typeOpers
        else tables.typeOpers.take tables.numTypes ++ List.replicate (type + 1 - tables.numTypes) ⟨0, []⟩ } := by
  rw [increaseNumTypes, if_pos new] at done
  by_cases none : tables.numOpers = 0
  · rw [if_neg (not_not.mpr none), Nat.mod_eq_of_lt few] at done
    cases done
    rw [if_pos none]
  · rw [if_pos none] at done
    rcases bind_ok done with ⟨_, -, same⟩
    cases same
    rw [if_neg none]

theorem registerType_ok {memory : Nat → Bool} {tables next : Tables Func} (formed : tables.Formed) {id : Nat}
    (done : registerType memory tables = .ok (id, next)) :
    next.Formed ∧ id = tables.numTypes ∧ next.numTypes = tables.numTypes + 1 ∧ next.numOpers = tables.numOpers ∧
      next.opers = tables.opers ∧ ∃ count, next.typeOpers = tables.typeOpers ++ List.replicate count ⟨0, []⟩ := by
  unfold registerType at done
  split at done
  · rename_i few
    rcases bind_ok done with ⟨grown, increased, same⟩
    cases same
    have new : ({ tables with typeCount := tables.typeCount + 1 } : Tables Func).numTypes ≤ tables.typeCount :=
      Nat.le_of_eq formed.types.symm
    have is := increaseNumTypes_ok new few increased
    have perType := formed.perType
    dsimp only at is
    by_cases none : tables.numOpers = 0
    · rw [if_pos none] at is perType
      subst is
      refine ⟨⟨rfl, few, formed.fewOpers, formed.opers, ?_, formed.sized⟩, formed.types, by rw [formed.types],
        rfl, rfl, 0, ?_⟩
      · dsimp only
        rw [if_pos none, perType]
      · rw [List.replicate_zero, List.append_nil]
    · rw [if_neg none] at is perType
      rw [List.take_of_length_le (Nat.le_of_eq perType), formed.types, Nat.add_sub_cancel_left] at is
      subst is
      refine ⟨⟨rfl, by dsimp only; rw [← formed.types]; exact few, formed.fewOpers, formed.opers, ?_, ?_⟩,
        formed.types, rfl, rfl, rfl, 1, rfl⟩
      · dsimp only
        rw [if_neg none, List.length_append, perType, List.length_replicate]
      · intro entry member
        rcases List.mem_append.mp member with old | new
        · exact formed.sized entry old
        · rw [(List.mem_replicate.mp new).2]
          rfl
  · cases done

theorem register_ok {memory : Nat → Bool} {tables next : Tables Func} (formed : tables.Formed) {name : String}
    {flags id : Nat}
    {defFunc : Option Func} (done : register memory tables name flags defFunc = .ok (id, next)) :
    next.Formed ∧ id = tables.numOpers + 1 ∧ next.numTypes = tables.numTypes ∧ next.numOpers = id ∧
      next.opers[id]? = some ⟨some name, flags, defFunc⟩ ∧
      (∀ op, 0 < op → op ≤ tables.numOpers → next.opers[op]? = tables.opers[op]?) ∧
      ∃ count, next.typeOpers = tables.typeOpers ++ List.replicate count ⟨0, []⟩ := by
  have perType := formed.perType
  unfold register at done
  split at done
  · rename_i first
    rw [if_pos first] at perType
    have empty : tables.typeOpers = [] := List.eq_nil_of_length_eq_zero perType
    rcases bind_ok done with ⟨_, -, rest⟩
    rcases bind_ok rest with ⟨grown, made, same⟩
    have is : grown = { tables with
        opers := [⟨none, 0, none⟩, ⟨none, 0, none⟩]
        numOpers := 1
        typeOpers := List.replicate tables.numTypes ⟨0, []⟩ } := by
      split at made
      · rename_i some
        have new : ({ tables with opers := [⟨none, 0, none⟩, ⟨none, 0, none⟩], numOpers := 1, numTypes := 0 } :
          Tables Func).numTypes ≤ tables.numTypes - 1 := Nat.zero_le _
        have whole : tables.numTypes - 1 + 1 = tables.numTypes := by omega
        have few := formed.fewTypes
        have increased := increaseNumTypes_ok new (by omega) made
        simpa [whole] using increased
      · rename_i none
        have zero : tables.numTypes = 0 := not_not.mp none
        cases made
        rw [zero, List.replicate_zero, empty]
    subst is
    cases same
    refine ⟨⟨formed.types, formed.fewTypes, (by norm_num : 1 + 1 < 2 ^ 32), fun _ => rfl, ?_, ?_⟩, ?_, rfl, rfl, rfl,
      ?_, tables.numTypes, ?_⟩
    · exact List.length_replicate
    · intro entry member
      rw [(List.mem_replicate.mp member).2]
      rfl
    · rw [first]
    · intro op positive bound
      omega
    · rw [empty]
      rfl
  · rename_i some
    rw [if_neg some] at perType
    split at done
    · cases done
    · rcases bind_ok done with ⟨_, allocated, same⟩
      have few := formed.fewOpers
      rw [Nat.mod_eq_of_lt few] at allocated same
      have room : tables.numOpers + 1 + 1 < 2 ^ 32 := by
        by_contra many
        have wraps : tables.numOpers + 1 + 1 = 2 ^ 32 := by omega
        rw [wraps] at allocated
        exact allocate_ok allocated rfl
      have length := formed.opers some
      cases same
      refine ⟨⟨formed.types, formed.fewTypes, room, fun _ => ?_, ?_, formed.sized⟩, rfl, rfl, rfl, ?_, ?_, 0, ?_⟩
      · simp [length]
      · simp [perType]
      · simp [length]
      · intro op positive bound
        dsimp only
        rw [List.getElem?_set_ne (by omega), List.take_of_length_le (by omega), List.getElem?_append_left (by omega)]
      · rw [List.replicate_zero, List.append_nil]

theorem addToType_ok {memory : Nat → Bool} {tables next : Tables Func} (formed : tables.Formed) {op type : Nat}
    {func : Option Func} (done : addToType memory tables op type func = .ok next) :
    next.Formed ∧ next.numTypes = tables.numTypes ∧ next.numOpers = tables.numOpers ∧ next.opers = tables.opers ∧
      next.typeOpers.length = tables.typeOpers.length ∧
      ∀ op' type', lookup next.typeOpers op' type' = if op = op' ∧
        type = type' then func else lookup tables.typeOpers op' type' := by
  unfold addToType at done
  split at done
  · cases found : tables.typeOpers[type]? with
    | none =>
        rw [found] at done
        cases done
    | some entry =>
        rw [found] at done
        have inside := (List.getElem?_eq_some_iff.mp found).1
        have member := List.mem_of_getElem? found
        have sized := formed.sized entry member
        rcases bind_ok done with ⟨roomy, made, same⟩
        cases same
        -- the entry with a place for the function has the same functions
        have grown : roomy.opers.length = roomy.numOpers ∧ op < roomy.numOpers ∧
            ∀ op' : Nat, (roomy.opers[op']?).join = (entry.opers[op']?).join := by
          split at made
          · rename_i behind
            rcases bind_ok made with ⟨_, -, same⟩
            cases same
            exact ⟨OperPerType.grow_sized sized behind, Nat.lt_succ_self op, OperPerType.grow_opers sized op⟩
          · rename_i has
            cases made
            exact ⟨sized, by omega, fun _ => rfl⟩
        rcases grown with ⟨sized', has, functions⟩
        refine ⟨⟨formed.types, formed.fewTypes, formed.fewOpers, formed.opers, ?_, ?_⟩, rfl, rfl, rfl,
          List.length_set, ?_⟩
        · rw [List.length_set]
          exact formed.perType
        · intro other otherIn
          rcases List.mem_or_eq_of_mem_set otherIn with old | new
          · exact formed.sized other old
          · rw [new, List.length_set]
            exact sized'
        · intro op' type'
          rw [lookup, lookup]
          dsimp only
          by_cases sameType : type = type'
          · subst sameType
            rw [List.getElem?_set_self inside, found, Option.bind_some, Option.bind_some]
            by_cases sameOp : op = op'
            · subst sameOp
              rw [if_pos ⟨rfl, rfl⟩, List.getElem?_set_self (by omega)]
              rfl
            · rw [if_neg (fun both => sameOp both.1), List.getElem?_set_ne sameOp, functions]
          · rw [if_neg (fun both => sameType both.2), List.getElem?_set_ne sameType]
  · cases done

/-! ## Any order of registrations -/

structure Holds (history : History (Call Func) Answer) (tables : Tables Func) : Prop where
  formed : tables.Formed
  types : ∀ id ∈ typeIds history, id < tables.numTypes
  opers : ∀ id ∈ operIds history, 0 < id ∧ id ≤ tables.numOpers
  distinct : (operIds history).Nodup
  registered : ∀ memory name flags defFunc id, (Call.register memory name flags defFunc, Answer.oper id) ∈ history →
    tables.opers[id]? = some ⟨some name, flags, defFunc⟩
  functions : ∀ op type, lookup tables.typeOpers op type = mostRecent history op type

theorem mem_operIds {history : History (Call Func) Answer} {call : Call Func} {id : Nat}
    (member : (call, Answer.oper id) ∈ history) : id ∈ operIds history :=
  List.mem_filterMap.mpr ⟨_, member, rfl⟩

/-- Each call keeps what the tables hold, and adds to it. -/
theorem Holds.step {history : History (Call Func) Answer} {tables next : Tables Func} (holds : Holds history tables)
    {call : Call Func} {answer : Answer} (stepped : Operators.step tables call = some (answer, next)) :
    Holds ((call, answer) :: history) next := by
  cases call with
  | registerType memory =>
      cases done : registerType memory tables with
      | error fault => simp [Operators.step, done, Except.toOption] at stepped
      | ok result =>
          simp only [Operators.step, done, Except.toOption, Option.map_some, Option.some.injEq,
            Prod.mk.injEq] at stepped
          rcases stepped with ⟨rfl, rfl⟩
          rcases registerType_ok holds.formed done with ⟨formed, number, types, opers, same, count, grown⟩
          refine ⟨formed, ?_, ?_, holds.distinct, ?_, ?_⟩
          · intro id member
            rw [types]
            rcases List.mem_cons.mp member with rfl | old
            · omega
            · exact Nat.lt_succ_of_lt (holds.types id old)
          · intro id member
            rw [opers]
            exact holds.opers id member
          · intro memory name flags defFunc id member
            rw [same]
            rcases List.mem_cons.mp member with wrong | old
            · cases wrong
            · exact holds.registered memory name flags defFunc id old
          · intro op type
            rw [grown, lookup_append_empty]
            exact holds.functions op type
  | register memory name flags defFunc =>
      cases done : register memory tables name flags defFunc with
      | error fault => simp [Operators.step, done, Except.toOption] at stepped
      | ok result =>
          simp only [Operators.step, done, Except.toOption, Option.map_some, Option.some.injEq,
            Prod.mk.injEq] at stepped
          rcases stepped with ⟨rfl, rfl⟩
          rcases register_ok holds.formed done with ⟨formed, number, types, opers, entry, others, count, grown⟩
          refine ⟨formed, ?_, ?_, ?_, ?_, ?_⟩
          · intro id member
            rw [types]
            exact holds.types id member
          · intro id member
            rw [opers, number]
            rcases List.mem_cons.mp member with rfl | old
            · omega
            · have bounds := holds.opers id old
              omega
          · refine List.nodup_cons.mpr ⟨fun old => ?_, holds.distinct⟩
            have bounds := holds.opers _ old
            omega
          · intro memory name flags defFunc id member
            rcases List.mem_cons.mp member with new | old
            · cases new
              exact entry
            · have bounds := holds.opers id (mem_operIds old)
              rw [others id bounds.1 bounds.2]
              exact holds.registered memory name flags defFunc id old
          · intro op type
            rw [grown, lookup_append_empty]
            exact holds.functions op type
  | addToType memory op type func =>
      cases done : addToType memory tables op type func with
      | error fault => simp [Operators.step, done, Except.toOption] at stepped
      | ok result =>
          simp only [Operators.step, done, Except.toOption, Option.map_some, Option.some.injEq,
            Prod.mk.injEq] at stepped
          rcases stepped with ⟨rfl, rfl⟩
          rcases addToType_ok holds.formed done with ⟨formed, types, opers, same, -, functions⟩
          refine ⟨formed, ?_, ?_, holds.distinct, ?_, ?_⟩
          · intro id member
            rw [types]
            exact holds.types id member
          · intro id member
            rw [opers]
            exact holds.opers id member
          · intro memory name flags defFunc id member
            rw [same]
            rcases List.mem_cons.mp member with wrong | old
            · cases wrong
            · exact holds.registered memory name flags defFunc id old
          · intro op' type'
            rw [functions, mostRecent, holds.functions]

theorem holds_start : Holds [] ({} : Tables Func) := by
  refine ⟨⟨rfl, ?_, ?_, ?_, rfl, ?_⟩, ?_, ?_, List.nodup_nil, ?_, fun _ _ => rfl⟩
  · exact Nat.two_pow_pos 32
  · exact Nat.one_lt_two_pow (by decide)
  · exact fun wrong => absurd rfl wrong
  all_goals simp [typeIds, operIds]

def Anytime (_ : History (Call Func) Answer) (_ : Tables Func) (_ : Call Func) : Prop := True

theorem Holds.of_run {history : History (Call Func) Answer} {tables : Tables Func}
    (run : LibKit.Run Operators.step Anytime {} history tables) : Holds history tables :=
  run.invariant Holds holds_start fun _ _ _ _ _ holds _ stepped => holds.step stepped

section

variable {Value Result : Type}

/-- Operators are dispatched exactly: they have different numbers, every
registered type takes functions for them, and applying one calls the function
that was added last for it and the type of the deciding operand, else its
default, else fails.  Adding a function changes nothing for other operators and
types. -/
structure Dispatches (dereference : Value → Value) (typeOf : Value → Nat) (callUnary : Func → Value → Result)
    (callBinary : Func → Value → Value → Result) (history : History (Call Func) Answer) (tables : Tables Func) :
    Prop where
  distinct : (operIds history).Nodup
  accepted : ∀ op ∈ operIds history, ∀ type ∈ typeIds history, ∀ func,
    ∃ next, addToType (fun _ => true) tables op type func = .ok next
  unary : ∀ memory name flags defFunc op, (Call.register memory name flags defFunc, Answer.oper op) ∈ history →
    ∀ arg, typeOf (dereference arg) ∈ typeIds history →
      applyUnary dereference typeOf callUnary tables op arg =
        orElse (mostRecent history op (typeOf (dereference arg))) defFunc >>= fun func =>
          .ok (callUnary func (dereference arg))
  binary : ∀ memory name flags defFunc op, (Call.register memory name flags defFunc, Answer.oper op) ∈ history →
    ∀ left right, typeOf (deciding dereference flags left right) ∈ typeIds history →
      applyBinary dereference typeOf callBinary tables left op right =
        orElse (mostRecent history op (typeOf (deciding dereference flags left right))) defFunc >>= fun func =>
          .ok (callBinary func (dereference left) (dereference right))
  undisturbed : ∀ memory op type func next, addToType memory tables op type func = .ok next →
    ∀ op' type', ¬ (op = op' ∧ type = type') → select next op' type' = select tables op' type'

/-- The function for a registered operator and a registered type. -/
theorem Holds.select {history : History (Call Func) Answer} {tables : Tables Func}
    (holds : Holds history tables) {memory : Nat → Bool} {name : String} {flags op type : Nat}
    {defFunc : Option Func} (registered : (Call.register memory name flags defFunc, Answer.oper op) ∈ history)
    (known : type ∈ typeIds history) :
    Operators.select tables op type = orElse (mostRecent history op type) defFunc := by
  have some := holds.opers op (mem_operIds registered)
  have inside : type < tables.typeOpers.length := by
    rw [holds.formed.perType, if_neg (by omega)]
    exact holds.types type known
  rw [Operators.select, holds.formed.typeFunc_eq inside, holds.functions, ok_bind,
    holds.registered memory name flags defFunc op registered]
  cases mostRecent history op type <;> rfl

theorem Holds.dispatches {history : History (Call Func) Answer} {tables : Tables Func} (holds : Holds history tables)
    (dereference : Value → Value) (typeOf : Value → Nat) (callUnary : Func → Value → Result)
    (callBinary : Func → Value → Value → Result) :
    Dispatches dereference typeOf callUnary callBinary history tables := by
  refine ⟨holds.distinct, ?_, ?_, ?_, ?_⟩
  · intro op operator type known func
    have bounds := holds.opers op operator
    have few := holds.formed.fewOpers
    have isType := holds.types type known
    have inside : type < tables.typeOpers.length := by
      rw [holds.formed.perType, if_neg (by omega)]
      exact isType
    rw [addToType, if_pos ⟨bounds.2, isType⟩, List.getElem?_eq_getElem inside]
    dsimp only
    split
    · rw [Nat.mod_eq_of_lt (by omega), allocate, if_pos ⟨by omega, rfl⟩]
      exact ⟨_, rfl⟩
    · exact ⟨_, rfl⟩
  · intro memory name flags defFunc op registered arg known
    rw [applyUnary, holds.select registered known]
  · intro memory name flags defFunc op registered left right known
    rw [applyBinary, holds.registered memory name flags defFunc op registered]
    dsimp only
    rw [holds.select registered known]
  · intro memory op type func next added op' type' other
    rcases addToType_ok holds.formed added with ⟨formed, -, -, same, length, functions⟩
    have typeFuncs : typeFunc next op' type' = typeFunc tables op' type' := by
      rcases Nat.lt_or_ge type' tables.typeOpers.length with inside | outside
      · rw [formed.typeFunc_eq (by omega), holds.formed.typeFunc_eq inside, functions, if_neg other]
      · rw [typeFunc, typeFunc, List.getElem?_eq_none outside, List.getElem?_eq_none (by omega)]
    rw [Operators.select, Operators.select, typeFuncs, same]

/-- Operators are dispatched exactly after any interleaving of registrations of
types and operators and of functions that are added. -/
theorem dispatches_run (dereference : Value → Value) (typeOf : Value → Nat) (callUnary : Func → Value → Result)
    (callBinary : Func → Value → Value → Result) {history : History (Call Func) Answer} {tables : Tables Func}
    (run : LibKit.Run Operators.step Anytime {} history tables) :
    Dispatches dereference typeOf callUnary callBinary history tables :=
  (Holds.of_run run).dispatches dereference typeOf callUnary callBinary

end

/-- A type is registered before an operator, whose default is 3, and another one
after it, for which 5 is added. -/
theorem dispatches_run_mixed : ∃ tables : Tables Nat,
    Dispatches id (fun value => value) (fun func value => func + value) (fun func left right => func + left + right)
      [(.addToType (fun _ => true) 1 1 (some 5), .done), (.registerType fun _ => true, .type 1),
        (.register (fun _ => true) "len" 0 (some 3), .oper 1), (.registerType fun _ => true, .type 0)] tables ∧
      applyUnary id (fun value => value) (fun func value => func + value) tables 1 0 = .ok 3 ∧
      applyUnary id (fun value => value) (fun func value => func + value) tables 1 1 = .ok 6 := by
  have registered : LibKit.Run Operators.step Anytime ({} : Tables Nat)
      [(.register (fun _ => true) "len" 0 (some 3), .oper 1), (.registerType fun _ => true, .type 0)] _ :=
    .step (.step .start trivial rfl) trivial rfl
  have added : LibKit.Run Operators.step Anytime ({} : Tables Nat)
      [(.addToType (fun _ => true) 1 1 (some 5), .done), (.registerType fun _ => true, .type 1),
        (.register (fun _ => true) "len" 0 (some 3), .oper 1), (.registerType fun _ => true, .type 0)] _ :=
    .step (.step registered trivial rfl) trivial rfl
  exact ⟨_, dispatches_run id (fun value => value) _ _ added, rfl, rfl⟩

end Operators
end Jitson
end LibKit
