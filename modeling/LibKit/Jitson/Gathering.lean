import LibKit.Jitson.Frames
import LibKit.Jitson.Operands

namespace LibKit
namespace Jitson

/-!
# Gathering scalars in an array

`INTERSECT` adds a copy of each common element that fits a token and a
reference to each other one, so that its result is an array of scalars that
take one token each.
-/

/-- An open array of scalars that take one token each. -/
structure Gathering (frame : Frame) (scalars : List Scalar) : Prop where
  kind : frame.type.kind = .array
  plain : frame.type.mkSort = false
  whole : frame.type.isRef = false
  unindexed : frame.type.isOwn = false
  outermost : frame.collection = 0
  len : frame.len = scalars.length
  tokens : frame.tokens.length = scalars.length
  stored : ∀ i scalar, scalars[i]? = some scalar → Stored scalar (frame.tokens.drop i)
  single : ∀ i, i < scalars.length → size (frame.tokens.drop i) = 1
  last : scalars ≠ [] → frame.last = frame.start + (scalars.length - 1)
  ordered : frame.type.isOrd = true → scalars.Pairwise fun first second => first.rank ≤ second.rank

/-- What follows a scalar does not matter. -/
theorem Stored.append {scalar : Scalar} {pointer : Pointer} (stored : Stored scalar pointer) (more : List Token) :
    Stored scalar (pointer ++ more) := by
  cases stored with
  | reference kind target => exact .reference kind target
  | here here =>
      cases here with
      | uint number isUint => exact .here (.uint number isUint)
      | copy string copied value clean => exact .here (.copy string copied value clean)
      | stringRef string isRef value clean len => exact .here (.stringRef string isRef value clean len)

theorem size_append {pointer : Pointer} (some : pointer ≠ []) (more : List Token) :
    size (pointer ++ more) = size pointer := by
  match pointer with
  | .head _ _ _ :: _ => rfl
  | .more :: _ => rfl
  | [] => exact absurd rfl some

theorem rank_le_of_not_greater {first second : Scalar} {left right : Pointer} (ops : FloatOps)
    (storedLeft : Stored first left) (storedRight : Stored second right) (notGreater : ¬ cmp ops left right > 0) :
    first.rank ≤ second.rank := by
  by_cases same : first.kind = second.kind
  · have agrees := storedLeft.cmp_agrees ops storedRight same
    exact le_of_not_gt fun greater => notGreater (agrees.gt_iff.mpr greater)
  · exfalso
    rw [storedLeft.cmp_eq ops storedRight] at notGreater
    cases first <;> cases second <;> simp [Scalar.kind] at same
    · exact notGreater (show cmpError > 0 by decide)
    · exact notGreater (show cmpError > 0 by decide)

theorem pairwise_concat {scalars : List Scalar} {scalar : Scalar}
    (sorted : scalars.Pairwise fun first second => first.rank ≤ second.rank)
    (largest : ∀ last, scalars.getLast? = some last → last.rank ≤ scalar.rank) :
    (scalars ++ [scalar]).Pairwise fun first second => first.rank ≤ second.rank := by
  rw [List.pairwise_append]
  refine ⟨sorted, List.pairwise_singleton _ _, ?_⟩
  intro first member second isScalar
  rw [List.mem_singleton.mp isScalar]
  have some : scalars ≠ [] := List.ne_nil_of_mem member
  have final := largest _ (List.getLast?_eq_getLast_of_ne_nil some)
  rw [← List.dropLast_append_getLast some] at member sorted
  rcases List.mem_append.mp member with before | last
  · exact le_trans ((List.pairwise_append.mp sorted).2.2 first before _ (List.mem_singleton_self _)) final
  · rw [List.mem_singleton.mp last]
    exact final

section

variable {frame : Frame} {scalars : List Scalar}

theorem Gathering.stored_last (gathering : Gathering frame scalars) {last : Scalar} (more : List Token)
    (found : scalars.getLast? = some last) : Stored last ((frame.pushed more).value frame.last) := by
  rw [List.getLast?_eq_getElem?] at found
  have bound := (List.getElem?_eq_some_iff.mp found).1
  have some : scalars ≠ [] := List.ne_nil_of_length_pos (by omega)
  have offset : frame.last - frame.start = scalars.length - 1 := by
    rw [gathering.last some]
    omega
  show Stored last ((frame.tokens ++ more).drop (frame.last - frame.start))
  rw [offset, List.drop_append_of_le_length (by rw [gathering.tokens]; omega)]
  exact (gathering.stored _ _ found).append more

theorem Gathering.len_ne_zero (gathering : Gathering frame scalars) {last : Scalar}
    (found : scalars.getLast? = some last) : frame.len ≠ 0 := by
  intro empty
  rw [gathering.len] at empty
  rw [List.eq_nil_of_length_eq_zero empty] at found
  cases found

theorem Gathering.last_above (gathering : Gathering frame scalars) (nonempty : frame.len ≠ 0) :
    frame.start ≤ frame.last := by
  rw [gathering.len] at nonempty
  rw [gathering.last (List.ne_nil_of_length_pos (by omega))]
  omega

theorem Gathering.grow (gathering : Gathering frame scalars) {scalar : Scalar} {token : Token} {after : Frame}
    (stored : Stored scalar [token]) (single : size [token] = 1) (base : after.base = frame.base)
    (tokens : after.tokens = frame.tokens ++ [token]) (len : after.len = frame.len + 1)
    (last : after.last = frame.start + frame.tokens.length) (collection : after.collection = frame.collection)
    (type : after.type.unflagged = frame.type.unflagged)
    (ordered : after.type.isOrd = true → frame.type.isOrd = true ∧
      ∀ before, scalars.getLast? = some before → before.rank ≤ scalar.rank) :
    Gathering after (scalars ++ [scalar]) := by
  have sameKind : after.type.unflagged.kind = frame.type.unflagged.kind := congrArg TypeWord.kind type
  have sameSort : after.type.unflagged.mkSort = frame.type.unflagged.mkSort := congrArg TypeWord.mkSort type
  have sameRef : after.type.unflagged.isRef = frame.type.unflagged.isRef := congrArg TypeWord.isRef type
  have sameOwn : after.type.unflagged.isOwn = frame.type.unflagged.isOwn := congrArg TypeWord.isOwn type
  have elements : ∀ i, i < scalars.length → after.tokens.drop i = frame.tokens.drop i ++ [token] := by
    intro i inside
    rw [tokens, List.drop_append_of_le_length (by rw [gathering.tokens]; omega)]
  have newest : after.tokens.drop scalars.length = [token] := by
    rw [tokens, ← gathering.tokens, List.drop_left]
  constructor
  · exact sameKind.trans gathering.kind
  · exact sameSort.trans gathering.plain
  · exact sameRef.trans gathering.whole
  · exact sameOwn.trans gathering.unindexed
  · exact collection.trans gathering.outermost
  · rw [len, gathering.len, List.length_append]
    rfl
  · rw [tokens, List.length_append, gathering.tokens, List.length_append]
    rfl
  · intro i other found
    rcases Nat.lt_or_ge i scalars.length with before | behind
    · rw [List.getElem?_append_left before] at found
      rw [elements i before]
      exact (gathering.stored i other found).append _
    · have bound := (List.getElem?_eq_some_iff.mp found).1
      rw [List.length_append, List.length_singleton] at bound
      have here : i = scalars.length := by omega
      subst here
      rw [List.getElem?_concat_length] at found
      rw [newest, ← Option.some.inj found]
      exact stored
  · intro i inside
    rw [List.length_append, List.length_singleton] at inside
    rcases Nat.lt_or_ge i scalars.length with before | behind
    · have some : frame.tokens.drop i ≠ [] := (gathering.stored i _ (List.getElem?_eq_getElem before)).ne_nil
      rw [elements i before, size_append some]
      exact gathering.single i before
    · rw [show i = scalars.length by omega, newest]
      exact single
  · intro _
    rw [last, gathering.tokens, Frame.start, Frame.start, base, List.length_append, List.length_singleton,
      Nat.add_sub_cancel]
  · intro isOrd
    rcases ordered isOrd with ⟨before, largest⟩
    exact pairwise_concat (gathering.ordered before) largest

/-! ## Adding a common element -/

variable {env : Env} {maximum last borrow : Nat}

def Frame.Fits (frame : Frame) (more : Nat) : Prop :=
  frame.start + frame.tokens.length + more ≤ 2 ^ 32 - 4096

theorem Gathering.addReference (gathering : Gathering frame scalars) (roomy : env.Roomy) (positive : 0 < maximum)
    (fits : frame.Fits 1) {scalar : Scalar} {element : Pointer} (stored : Stored scalar element) :
    ∃ after maximum' last', 0 < maximum' ∧
      (frame.stack maximum last borrow).addReference env element = .ok (after.stack maximum' last' borrow) ∧
      after.base = frame.base ∧ Gathering after (scalars ++ [scalar]) := by
  rcases (frame.checked 1 (typeOf element) true).expand_ok maximum last borrow roomy 1 positive fits with
    ⟨maximum', positive', expanded⟩
  have added := frame.addValue_some env maximum last borrow (typeOf element) [Stack.makeReference element]
    gathering.kind gathering.plain (Nat.le_refl 1) gathering.last_above expanded
  refine ⟨_, maximum', _, positive', added, rfl, ?_⟩
  have referred : Stored scalar [Stack.makeReference element] := stored.makeReference rfl
  refine gathering.grow referred rfl rfl rfl rfl rfl rfl rfl ?_
  intro isOrd
  rcases (Frame.ordered_isOrd env _ _ _ _).mp isOrd with ⟨before, notGreater⟩
  refine ⟨before, ?_⟩
  intro before found
  have nonempty := gathering.len_ne_zero found
  exact rank_le_of_not_greater env.ops (gathering.stored_last _ found) referred
    (notGreater (decide_eq_true nonempty))

/-- A token without the flag `ALLOCED`. -/
def unalloced : Token → Token
  | .head type len body => .head { type with alloced := false } len body
  | .more => .more

theorem Stored.unalloced {scalar : Scalar} {token : Token} {rest : List Token}
    (stored : Stored scalar (token :: rest)) :
    Stored scalar [Jitson.unalloced token] := by
  cases stored with
  | reference kind target => exact .reference kind target
  | here here =>
      cases here with
      | uint number isUint => exact .here (.uint number isUint)
      | copy string copied value clean => exact .here (.copy string copied value clean)
      | stringRef string isRef value clean len => exact .here (.stringRef string isRef value clean len)

theorem size_unalloced (token : Token) (rest : List Token) : size [unalloced token] = size (token :: rest) := by
  cases token <;> rfl

theorem Stored.not_array {scalar : Scalar} {pointer : Pointer} (stored : Stored scalar pointer) :
    (typeOf pointer).isArray = false := by
  cases stored with
  | reference kind => simp [TypeWord.isArray, kind]
  | here here =>
      rw [TypeWord.isArray, here.kind_eq]
      cases scalar <;> simp [Scalar.kind]

theorem Stored.not_object {scalar : Scalar} {pointer : Pointer} (stored : Stored scalar pointer) :
    (typeOf pointer).kind ≠ .object := by
  cases stored with
  | reference kind => exact fun isObject => by cases kind.symm.trans isObject
  | here here =>
      rw [here.kind_eq]
      cases scalar <;> simp [Scalar.kind]

/-- A value is duplicated at the end of the stack. -/
theorem dupAtIndex_copied (roomy : env.Roomy) (positive : 0 < maximum) {value : Pointer} {token : Token}
    {more : List Token}
    (finds : Stack.clonable env.address value = true)
    (copied : (Stack.clone value).take (more.length + 1) = token :: more)
    (fits : frame.Fits (more.length + 1)) :
    ∃ maximum', 0 < maximum' ∧ (frame.stack maximum last borrow).dupAtIndex env
        (frame.stack maximum last borrow).count value (more.length + 1) =
      .ok ((frame.pushed (unalloced token :: more)).stack maximum' last borrow) := by
  rcases frame.expand_ok maximum last borrow roomy (more.length + 1) positive fits with ⟨maximum', positive', expanded⟩
  refine ⟨maximum', positive', ?_⟩
  have long : more.length + 1 ≤ (Stack.clone value).length := by
    have taken := congrArg List.length copied
    rw [List.length_take, List.length_cons] at taken
    omega
  have written := frame.write_pushed maximum' last borrow (more.length + 1) (Stack.clone value) long
  have counted : (frame.stack maximum last borrow).count = frame.start + frame.tokens.length :=
    frame.stack_count maximum last borrow
  have above : frame.start + frame.tokens.length + (more.length + 1) > frame.start + frame.tokens.length := by omega
  have room : frame.start + frame.tokens.length + (more.length + 1) -
    (frame.start + frame.tokens.length) = more.length + 1 := by omega
  have cloneable : Stack.canClone env value = true := by
    rw [Stack.canClone, roomy.allocClone, Bool.true_or]
  rw [copied] at written
  simp only [Stack.dupAtIndex, finds, not_true, if_false, counted, above, if_true, room, expanded, ok_bind,
    copied, cloneable]
  refine congrArg Except.ok ?_
  refine (congrArg (fun stack => Stack.mapType stack (frame.start + frame.tokens.length)
    fun type => { type with alloced := false }) written).trans ?_
  have place : frame.start + frame.tokens.length = (frame.base ++ frame.head :: frame.tokens).length := by
    simp only [Frame.start, List.length_append, List.length_cons]
    omega
  have split : (frame.pushed (token :: more)).base ++ (frame.pushed (token :: more)).head ::
    (frame.pushed (token :: more)).tokens =
      (frame.base ++ frame.head :: frame.tokens) ++ token :: more := by
    simp [Frame.pushed, Frame.head]
  simp only [Stack.mapType, Frame.stack, split, place, Frame.modify_middle]
  cases token <;> simp [Frame.pushed, Frame.head, unalloced]

theorem dupAtIndex_scalar (roomy : env.Roomy) (positive : 0 < maximum) (fits : frame.Fits 1) {scalar : Scalar}
    {token : Token} {rest : List Token} (stored : Stored scalar (token :: rest)) :
    ∃ maximum', 0 < maximum' ∧ (frame.stack maximum last borrow).dupAtIndex env
        (frame.stack maximum last borrow).count (token :: rest) 1 =
      .ok ((frame.pushed [unalloced token]).stack maximum' last borrow) := by
  have notArray := stored.not_array
  have cloned : (Stack.clone (token :: rest)).take 1 = [token] := by
    simp [Stack.clone, notArray]
  exact @dupAtIndex_copied frame env maximum last borrow roomy positive (token :: rest) token []
    (Stack.clonable_of_kind notArray stored.not_object env.address) cloned fits

theorem Gathering.reordered (gathering : Gathering frame scalars) (compared : Bool) (first second : Pointer) :
    Gathering (frame.ordered env compared first second) scalars :=
  { gathering with
    ordered := fun isOrd => gathering.ordered ((Frame.ordered_isOrd env _ _ _ _).mp isOrd).1 }

theorem Gathering.addDup (gathering : Gathering frame scalars) (roomy : env.Roomy) (positive : 0 < maximum)
    (fits : frame.Fits 1) {scalar : Scalar} {element : Pointer} (stored : Stored scalar element)
    (single : size element = 1) :
    ∃ after maximum' last', 0 < maximum' ∧
      (frame.stack maximum last borrow).addDup env element = .ok (after.stack maximum' last' borrow) ∧
      after.base = frame.base ∧ Gathering after (scalars ++ [scalar]) := by
  match element with
  | [] => exact absurd rfl stored.ne_nil
  | token :: rest =>
      rcases @dupAtIndex_scalar frame env maximum last borrow roomy positive fits scalar token rest stored with
        ⟨maximum', positive', duplicated⟩
      have pushedLength : (frame.pushed [unalloced token]).tokens.length - 1 = frame.tokens.length := by
        simp [Frame.pushed]
      have newest : (frame.pushed [unalloced token]).tokens.drop frame.tokens.length = [unalloced token] :=
        List.drop_left
      have added := (frame.pushed [unalloced token]).addValue_none env maximum' last borrow 1
        (typeOf (Stack.clone (token :: rest))) gathering.kind gathering.plain (by simp [Frame.pushed])
        gathering.last_above
      rw [pushedLength, newest] at added
      let grown : Frame := (((frame.pushed [unalloced token]).checked 1
        (typeOf (Stack.clone (token :: rest))) false).ordered
        env (decide (frame.len ≠ 0 ∧ 1 ≠ 0)) ((frame.pushed [unalloced token]).value frame.last)
        [unalloced token]).noted 1 (frame.start + frame.tokens.length)
      have gathered : Gathering grown (scalars ++ [scalar]) := by
        refine gathering.grow stored.unalloced ((size_unalloced token rest).trans single) rfl rfl rfl rfl rfl rfl ?_
        intro isOrd
        rcases (Frame.ordered_isOrd env _ _ _ _).mp isOrd with ⟨before, notGreater⟩
        refine ⟨before, ?_⟩
        intro before found
        exact rank_le_of_not_greater env.ops (gathering.stored_last _ found) stored.unalloced
          (notGreater (decide_eq_true ⟨gathering.len_ne_zero found, Nat.one_ne_zero⟩))
      have above : frame.start ≤ frame.start + frame.tokens.length := Nat.le_add_right _ _
      have noticed := grown.valueAdded_eq env maximum' (frame.start + frame.tokens.length) borrow env.optimize
        gathered.kind (fun _ => above) above
      have result : (frame.stack maximum last borrow).addDup env (token :: rest) =
          .ok ((grown.stack maximum' (frame.start + frame.tokens.length) borrow).valueAdded env env.optimize) := by
        rw [Stack.addDup, single, duplicated, ok_bind]
        exact congrArg (fun result => result >>= fun stack =>
          Except.ok (Stack.valueAdded env stack env.optimize)) added
      rw [noticed] at result
      refine ⟨_, maximum', _, positive', result, ?_, ?_⟩
      · split <;> rfl
      · split
        · exact gathered.reordered _ _ _
        · exact gathered

theorem Gathering.add (gathering : Gathering frame scalars) (roomy : env.Roomy) (positive : 0 < maximum)
    (fits : frame.Fits 1) {scalar : Scalar} {element : Pointer} (stored : Stored scalar element) :
    ∃ after maximum' last', 0 < maximum' ∧
      jitsonStackAdd env (frame.stack maximum last borrow) element = .ok (after.stack maximum' last' borrow) ∧
      after.base = frame.base ∧ Gathering after (scalars ++ [scalar]) := by
  rw [jitsonStackAdd]
  split
  · rename_i single
    rcases gathering.addDup roomy positive fits stored single with ⟨after, maximum', last', positive', added, rest⟩
    exact ⟨after, maximum', last', positive', congrArg faultOf added, rest⟩
  · rcases gathering.addReference roomy positive fits stored with ⟨after, maximum', last', positive', added, rest⟩
    exact ⟨after, maximum', last', positive', congrArg faultOf added, rest⟩

end

/-! ## The finished array -/

section

variable {frame : Frame} {scalars : List Scalar}

theorem markAlloced_closed :
    Stack.markAlloced frame.closed = .head { frame.type with alloced := true } frame.len
      (Stack.closedBody frame.type frame.len frame.tokens.length) :: frame.tokens := rfl

theorem Gathering.offsetAt (gathering : Gathering frame scalars) (head : Token) (i : Nat)
    (inside : i ≤ scalars.length) : Jitson.offsetAt (head :: frame.tokens) i = 1 + i := by
  induction i with
  | zero => rfl
  | succ i ih =>
      rw [Jitson.offsetAt, ih (by omega), Nat.add_comm 1 i, List.drop_succ_cons, gathering.single i inside]
      omega

/-- A finished array of scalars of one kind is an operand again. -/
theorem Gathering.laid (gathering : Gathering frame scalars)
    (same : ∀ first ∈ scalars, ∀ second ∈ scalars, first.kind = second.kind) :
    Laid scalars (Stack.markAlloced frame.closed) := by
  rw [markAlloced_closed]
  have elements : ∀ (head : Token) i, i < scalars.length →
    elementAt (head :: frame.tokens) i = frame.tokens.drop i := by
    intro head i inside
    rw [elementAt, gathering.offsetAt head i (by omega), Nat.add_comm, List.drop_succ_cons]
  constructor
  · exact gathering.kind
  · exact gathering.whole
  · exact gathering.len
  · intro i scalar found
    rw [elements _ i (List.getElem?_eq_some_iff.mp found).1]
    exact gathering.stored i scalar found
  · intro uniform
    refine ⟨1, ?_, ?_⟩
    · intro some
      have positive := List.length_pos_of_ne_nil some
      have width : Stack.closedBody frame.type frame.len frame.tokens.length = .uniform 16 := by
        rw [Stack.closedBody, if_pos ⟨by rw [gathering.len]; omega, gathering.kind, uniform⟩, gathering.len,
          gathering.tokens, Nat.mul_div_cancel _ positive, Nat.mod_eq_of_lt (show 16 < 2 ^ 32 by decide)]
      simp [uniformSize, width]
    · intro i inside
      rw [elements _ i inside]
      exact gathering.single i inside
  · intro _ indexed
    simp [TypeWord.indexed, gathering.unindexed] at indexed
  · exact fun _ => same
  · exact gathering.ordered

end

end Jitson
end LibKit
