import LibKit.Jitson.Comparing
import LibKit.Jitson.RoundTrip

namespace LibKit
namespace Jitson

open Comparison

/-!
# Equal values

`sxe_jitson_eq` tests strings by their lengths, where both are known, and by
`strcmp`; `sxe_jitson_cmp` by `strcmp` only.  Neither looks behind the first NUL
of a string, which the text of a value shows.
-/

mutual

/-- A tree with its strings cut at the first NUL. -/
def Json.cut : Json → Json
  | .string bytes => .string (CString.text bytes)
  | .array elements => .array (Json.cutAll elements)
  | tree => tree

def Json.cutAll : List Json → List Json
  | [] => []
  | element :: elements => Json.cut element :: Json.cutAll elements

end

section

variable {ops : FloatOps} {format : UInt64 → List UInt8} {sum : List UInt8 → Nat}

theorem Json.cutAll_eq (elements : List Json) : Json.cutAll elements = elements.map Json.cut := by
  induction elements with
  | nil => rfl
  | cons element elements ih => rw [Json.cutAll, ih, List.map_cons]

theorem forall₂_map_iff {α β γ : Type} {related : α → β → Prop} {f : α → γ} {g : β → γ} {lefts : List α}
    {rights : List β}
    (each : ∀ left ∈ lefts, ∀ right ∈ rights, related left right ↔ f left = g right) :
    List.Forall₂ related lefts rights ↔ lefts.map f = rights.map g := by
  induction lefts generalizing rights with
  | nil => cases rights <;> simp
  | cons left lefts ih =>
      cases rights with
      | nil => simp
      | cons right rights =>
          rw [List.forall₂_cons, List.map_cons, List.map_cons, List.cons.injEq,
            each left List.mem_cons_self right List.mem_cons_self, ih]
          intro left isLeft right isRight
          exact each left (List.mem_cons_of_mem _ isLeft) right (List.mem_cons_of_mem _ isRight)

theorem bytesCmp_eq_zero_iff {left right : List UInt8} :
    bytesCmp left right = 0 ↔ CString.text left = CString.text right := by
  rw [bytesCmp_eq, lexicographic_eq_zero_iff, forall₂_map_iff (f := id) (g := id), List.map_id, List.map_id]
  intro first _ second _
  exact ordered_eq_zero_iff.trans UInt8.toNat_inj

/-- Values compare as equal if they are the same up to the first NUL of each
string. -/
theorem Json.Sortable.cmp_eq_zero_iff {x : Json} (sortable : x.Sortable) :
    ∀ {y : Json}, y.Sortable → (x.cmp ops y = 0 ↔ x.cut = y.cut) := by
  have differ : ∀ {x y : Json}, x.kind ≠ y.kind → x.cut.kind = x.kind → y.cut.kind = y.kind →
      (x.cmp ops y = 0 ↔ x.cut = y.cut) := by
    intro x y differ isX isY
    rw [Json.cmp_of_kind_ne differ]
    refine ⟨fun zero => absurd zero (by decide), fun same => absurd ?_ differ⟩
    rw [← isX, ← isY, same]
  induction sortable with
  | uint value =>
      intro y sortable
      cases sortable with
      | uint other =>
          change ordered value other = 0 ↔ Json.uint value = Json.uint other
          rw [Json.uint.injEq]
          exact ordered_eq_zero_iff
      | string bytes => exact differ (by simp [Json.kind]) rfl rfl
      | array each => exact differ (by simp [Json.kind]) rfl rfl
  | string bytes =>
      intro y sortable
      cases sortable with
      | uint other => exact differ (by simp [Json.kind]) rfl rfl
      | string others => rw [Json.cmp, Json.cut, Json.cut, Json.string.injEq, bytesCmp_eq_zero_iff]
      | array each => exact differ (by simp [Json.kind]) rfl rfl
  | @array elements each ih =>
      intro y sortable
      cases sortable with
      | uint other => exact differ (by simp [Json.kind]) rfl rfl
      | string others => exact differ (by simp [Json.kind]) rfl rfl
      | @array others each' =>
          rw [Json.cmp_array, lexicographic_eq_zero_iff, Json.cut, Json.cut, Json.array.injEq, Json.cutAll_eq,
            Json.cutAll_eq]
          exact forall₂_map_iff fun left isLeft right isRight => ih left isLeft (each' right isRight)

/-! ## Equality -/

/-- A result of `sxe_jitson_eq` between the equality of two values and their
equality up to NULs. -/
structure Between (result : Option Bool) (strong weak : Prop) : Prop where
  total : result ≠ none
  sound : result = some true → weak
  complete : strong → result = some true

theorem Between.some {same : Bool} {strong weak : Prop} (sound : same = true → weak) (complete : strong → same = true) :
    Between (.some same) strong weak :=
  ⟨Option.some_ne_none same, fun result => sound (Option.some.inj result),
    fun holds => congrArg Option.some (complete holds)⟩

/-- The loop over the elements of two arrays. -/
theorem arrayEqLoop_between {equal : Pointer → Pointer → Option Bool} {left right : Pointer}
    {firsts seconds : List Json}
    (count : firsts.length = seconds.length)
    (each : ∀ i first second, firsts[i]? = .some first → seconds[i]? = .some second →
      ∃ place place', arrayGetElement left i = .some place ∧ arrayGetElement right i = .some place' ∧
        Between (equal place place') (first = second) (first.cut = second.cut))
    (left' i : Nat) (rest : i + left' = firsts.length) :
    Between (arrayEqLoop equal left right left' i) (firsts.drop i = seconds.drop i)
      ((firsts.drop i).map Json.cut = (seconds.drop i).map Json.cut) := by
  induction left' generalizing i with
  | zero =>
      rw [List.drop_eq_nil_of_le (show firsts.length ≤ i by omega),
        List.drop_eq_nil_of_le (show seconds.length ≤ i by omega)]
      exact .some (fun _ => rfl) fun _ => rfl
  | succ left' ih =>
      have inside : i < firsts.length := by omega
      have inside' : i < seconds.length := by omega
      rcases each i _ _ (List.getElem?_eq_getElem inside) (List.getElem?_eq_getElem inside') with
        ⟨place, place', found, found', between⟩
      have others := ih (i + 1) (by omega)
      rw [arrayEqLoop, found, found', List.drop_eq_getElem_cons inside, List.drop_eq_getElem_cons inside',
        List.map_cons, List.map_cons,
        List.cons.injEq, List.cons.injEq]
      dsimp only
      by_cases same : equal place place' = .some true
      · rw [if_neg (not_not.mpr same)]
        exact ⟨others.total, fun result => ⟨between.sound same, others.sound result⟩,
          fun both => others.complete both.2⟩
      · rw [if_pos same]
        exact ⟨between.total, fun result => absurd result same, fun both => absurd (between.complete both.1) same⟩

theorem Represents.lenOf_string {bytes : List UInt8} {tokens : List Token}
    (represents : Represents sum (.string bytes) tokens)
    (rest : List Token) (direct : (typeOf (tokens ++ rest)).kind ≠ .reference) :
    lenOf (tokens ++ rest) = 0 ∨ lenOf (tokens ++ rest) = bytes.length := by
  cases represents with
  | string kind notKey notRef short => exact Or.inr rfl
  | referred kind notKey isRef clean cached => exact cached
  | reference kind notReference represents => exact absurd kind direct

theorem Represents.bytesOf_string {bytes : List UInt8} {tokens : List Token}
    (represents : Represents sum (.string bytes) tokens)
    (rest : List Token) (direct : (typeOf (tokens ++ rest)).kind ≠ .reference) : bytesOf (tokens ++ rest) = bytes := by
  cases represents with
  | string kind notKey notRef short => rfl
  | referred kind notKey isRef clean cached => rfl
  | reference kind notReference represents => exact absurd kind direct

theorem stringEq_between {first second : List UInt8} {left right : Pointer} (bytesLeft : bytesOf left = first)
    (bytesRight : bytesOf right = second) (lenLeft : lenOf left = 0 ∨ lenOf left = first.length)
    (lenRight : lenOf right = 0 ∨ lenOf right = second.length) :
    Between (stringEq left right) (first = second) (CString.text first = CString.text second) := by
  unfold stringEq
  split
  · rename_i known
    refine .some (fun impossible => by cases impossible) ?_
    intro same
    rw [same] at lenLeft
    omega
  · rw [bytesLeft, bytesRight]
    refine .some (fun equal => bytesCmp_eq_zero_iff.mp (of_decide_eq_true equal)) ?_
    intro same
    rw [same]
    exact decide_eq_true (bytesCmp_eq_zero_iff.mpr rfl)

theorem Represents.eqDepth_between {x : Json} (sortable : x.Sortable) :
    ∀ {y : Json} {left right : List Token}, y.Sortable →
    Represents sum x left → Represents sum y right →
      ∀ (rest rest' : List Token) (depth : Nat), weight (left ++ rest) < depth →
      Between (eqDepth ops depth (left ++ rest) (right ++ rest')) (x = y) (x.cut = y.cut) := by
  induction sortable with
  | uint value =>
      intro y left right isY first second rest rest' depth enough
      rcases depth with _ | depth
      · exact absurd enough (Nat.not_lt_zero _)
      have isLeft : (typeOf (dereference (left ++ rest))).kind = .number := (first.denotes rest).getType
      have isRight : (typeOf (dereference (right ++ rest'))).kind = y.kind := (second.denotes rest').getType
      rw [eqDepth]
      simp only [isLeft, isRight]
      cases isY with
      | uint other =>
          have compared := @Denotes.numberCmp ops _ _ _ _ _ (first.denotes rest) (second.denotes rest') rfl rfl
          have ordered : numberCmp ops (dereference (left ++ rest))
            (dereference (right ++ rest')) = ordered value other := compared
          rw [if_neg (show ¬ Kind.number ≠ (Json.uint other).kind from not_not.mpr rfl), ordered,
            if_neg (ordered_ne cmpError_large value other)]
          refine .some (fun zero => ?_) fun same => ?_
          · rw [ordered_eq_zero_iff.mp (of_decide_eq_true zero)]
          · rw [Json.uint.inj same]
            exact decide_eq_true (ordered_self other)
      | string bytes => exact .some (fun impossible => by cases impossible) fun same => by cases same
      | array each => exact .some (fun impossible => by cases impossible) fun same => by cases same
  | string bytes =>
      intro y left right isY first second rest rest' depth enough
      rcases depth with _ | depth
      · exact absurd enough (Nat.not_lt_zero _)
      rcases first.dereferenced rest with ⟨segment, behind, isLeft, here, kind, -⟩
      rcases second.dereferenced rest' with ⟨segment', behind', isRight, here', kind', -⟩
      rw [eqDepth]
      simp only [isLeft, isRight, kind, kind']
      cases isY with
      | uint other => exact .some (fun impossible => by cases impossible) fun same => by cases same
      | string others =>
          have direct : (typeOf (segment ++ behind)).kind ≠ .reference :=
            fun reference => by cases kind.symm.trans reference
          have direct' : (typeOf (segment' ++ behind')).kind ≠ .reference :=
            fun reference => by cases kind'.symm.trans reference
          have between := stringEq_between (here.bytesOf_string behind direct) (here'.bytesOf_string behind' direct')
            (here.lenOf_string behind direct) (here'.lenOf_string behind' direct')
          change Between (stringEq _ _) _ _
          rw [Json.cut, Json.cut, Json.string.injEq, Json.string.injEq]
          exact between
      | array each => exact .some (fun impossible => by cases impossible) fun same => by cases same
  | @array firsts each ih =>
      intro y left right isY first second rest rest' depth enough
      rcases depth with _ | depth
      · exact absurd enough (Nat.not_lt_zero _)
      rcases first.dereferenced rest with ⟨segment, behind, isLeft, here, kind, light⟩
      rcases second.dereferenced rest' with ⟨segment', behind', isRight, here', kind', -⟩
      rw [eqDepth]
      simp only [isLeft, isRight, kind, kind']
      cases isY with
      | uint other => exact .some (fun impossible => by cases impossible) fun same => by cases same
      | string bytes => exact .some (fun impossible => by cases impossible) fun same => by cases same
      | @array seconds each' =>
          rcases here.segments with ⟨segments, all, finds⟩
          rcases here'.segments with ⟨segments', all', finds'⟩
          have len := here.lenOf_array (by rw [← here.typeOf_append behind]; exact kind) behind
          have len' := here'.lenOf_array (by rw [← here'.typeOf_append behind']; exact kind') behind'
          change Between (if lenOf (segment ++ behind) ≠ lenOf (segment' ++ behind') then some false else _) _ _
          rw [len, len', Json.cut, Json.cut, Json.array.injEq, Json.array.injEq, Json.cutAll_eq, Json.cutAll_eq]
          split
          · rename_i differ
            exact .some (fun impossible => by cases impossible) fun same => absurd (congrArg List.length same) differ
          · rename_i count
            refine arrayEqLoop_between (not_not.mp count) ?_ firsts.length 0 (Nat.zero_add _)
            intro i x y isX isY
            rcases getElem?_forall₂ all isX with ⟨place, isPlace, represents⟩
            rcases getElem?_forall₂ all' isY with ⟨place', isPlace', represents'⟩
            rcases finds behind i _ isPlace with ⟨more, found, lighter⟩
            rcases finds' behind' i _ isPlace' with ⟨more', found', -⟩
            refine ⟨_, _, found, found', ?_⟩
            exact ih x (List.mem_of_getElem? isX) (each' y
              (List.mem_of_getElem? isY)) represents represents' more more' depth (by omega)

theorem PointsTo.eq_between {x y : Json} {left right : Pointer} (isX : x.Sortable) (isY : y.Sortable)
    (first : PointsTo sum x left)
    (second : PointsTo sum y right) : Between (eq ops left right) (x = y) (x.cut = y.cut) := by
  rcases first with ⟨tokens, rest, rfl, represents⟩
  rcases second with ⟨tokens', rest', rfl, represents'⟩
  exact represents.eqDepth_between isX isY represents' rest rest' _ (Nat.lt_succ_self _)

/-! ## Texts -/

def Ends (text : List UInt8) : Prop := text = [] ∨ Source.isDigit (text.headD 0) = false

theorem decimal_cancel {first second : Nat} {before behind : List UInt8} (ends : Ends before) (ends' : Ends behind)
    (same : decimal first ++ before = decimal second ++ behind) : first = second ∧ before = behind := by
  rcases digits_decimal first with ⟨⟨-, areDigits⟩, value⟩
  rcases digits_decimal second with ⟨⟨-, areDigits'⟩, value'⟩
  rcases takeWhile_digits areDigits ends with ⟨digits, rest⟩
  rcases takeWhile_digits areDigits' ends' with ⟨digits', rest'⟩
  rw [same, digits'] at digits
  rw [same, rest'] at rest
  exact ⟨by rw [← value, ← value', digits], rest.symm⟩

theorem unicodeEscape_cancel {first second : UInt8} {before behind : List UInt8}
    (same : unicodeEscape first ++ before = unicodeEscape second ++ behind) : first = second ∧ before = behind := by
  have digit : ∀ i < 16, ∀ j < 16, UInt8.ofNat (Nat.digitChar i).toNat = UInt8.ofNat (Nat.digitChar j).toNat →
    i = j := by decide
  simp only [unicodeEscape, List.map_cons, List.map_nil, List.cons_append, List.nil_append, List.cons.injEq,
    true_and] at same
  have high := digit _ (by have bound := first.toNat_lt; omega) _ (by have bound := second.toNat_lt; omega) same.1
  have low := digit _ (Nat.mod_lt _ (by decide)) _ (Nat.mod_lt _ (by decide)) same.2.1
  exact ⟨UInt8.toNat_inj.mp (by omega), same.2.2⟩

theorem written_cancel {first second : UInt8} {before behind : List UInt8}
    (same : written first ++ before = written second ++ behind) : first = second ∧ before = behind := by
  have plain : ∀ {byte : UInt8}, escapes byte = false → byte ≠ 92 := by
    rintro _ notEscape rfl
    exact absurd notEscape (by decide)
  unfold written at same
  cases isFirst : escapes first with
  | true =>
      cases isSecond : escapes second with
      | true =>
          rw [isFirst, isSecond] at same
          exact unicodeEscape_cancel same
      | false =>
          rw [isFirst, isSecond] at same
          exact absurd (List.cons.inj same).1.symm (plain isSecond)
  | false =>
      cases isSecond : escapes second with
      | true =>
          rw [isFirst, isSecond] at same
          exact absurd (List.cons.inj same).1 (plain isFirst)
      | false =>
          rw [isFirst, isSecond] at same
          exact List.cons.inj same

theorem written_head (byte : UInt8) : ∃ head rest, written byte = head :: rest ∧ head ≠ 34 := by
  unfold written
  cases isEscape : escapes byte with
  | true => exact ⟨92, _, rfl, by decide⟩
  | false =>
      refine ⟨byte, [], rfl, ?_⟩
      rintro rfl
      exact absurd isEscape (by decide)

theorem quotedJson_cancel {first second : List UInt8} {before behind : List UInt8}
    (same : quotedJson first ++ before = quotedJson second ++ behind) : first = second ∧ before = behind := by
  have text : first.flatMap written ++ 34 :: before = second.flatMap written ++ 34 :: behind := by
    simpa [quotedJson, quoted] using same
  clear same
  induction first generalizing second with
  | nil =>
      cases second with
      | nil => exact ⟨rfl, (List.cons.inj text).2⟩
      | cons byte bytes =>
          rcases written_head byte with ⟨head, rest, isHead, other⟩
          rw [List.flatMap_cons, isHead] at text
          exact absurd (List.cons.inj text).1.symm other
  | cons byte bytes ih =>
      cases second with
      | nil =>
          rcases written_head byte with ⟨head, rest, isHead, other⟩
          rw [List.flatMap_cons, isHead] at text
          exact absurd (List.cons.inj text).1 other
      | cons byte' bytes' =>
          rw [List.flatMap_cons, List.flatMap_cons, List.append_assoc, List.append_assoc] at text
          rcases written_cancel text with ⟨rfl, others⟩
          rcases ih others with ⟨rfl, rest⟩
          exact ⟨rfl, rest⟩

theorem Json.Sortable.printed_head {x : Json} (sortable : x.Sortable) :
    ∃ head rest, printed format sum x = head :: rest ∧ head ≠ 93 := by
  cases sortable with
  | uint value =>
      rcases digits_decimal value with ⟨⟨some, areDigits⟩, -⟩
      rcases List.exists_cons_of_ne_nil some with ⟨head, rest, isDecimal⟩
      refine ⟨head, rest, isDecimal, ?_⟩
      rintro rfl
      exact absurd (areDigits 93 (by rw [isDecimal]; exact List.mem_cons_self)) (by decide)
  | string bytes => exact ⟨34, _, rfl, by decide⟩
  | array each => exact ⟨91, _, rfl, by decide⟩

/-- The elements of an array are known from their text if each is. -/
theorem commas_cancel {firsts seconds : List Json} {before behind : List UInt8} (isFirst : ∀ x ∈ firsts, x.Sortable)
    (isSecond : ∀ x ∈ seconds, x.Sortable)
    (each : ∀ x ∈ firsts, ∀ y ∈ seconds, ∀ before behind, Ends before → Ends behind →
      printed format sum x ++ before = printed format sum y ++ behind → x = y ∧ before = behind)
    (same : commas (firsts.map (printed format sum)) ++ 93 :: before = commas
    (seconds.map (printed format sum)) ++ 93 :: behind) :
    firsts = seconds ∧ before = behind := by
  have comma : ∀ text, Ends (44 :: text) := fun _ => Or.inr rfl
  have bracket : ∀ text, Ends (93 :: text) := fun _ => Or.inr rfl
  -- what comes behind an element tells whether there are more
  have split : ∀ (x : Json) (others : List Json) (rest : List UInt8), ∃ tail, Ends tail ∧
      commas ((x :: others).map (printed format sum)) ++ 93 :: rest = printed format sum x ++ tail ∧
      (others = [] ∧ tail = 93 :: rest ∨ others ≠ [] ∧ tail = 44 ::
      (commas (others.map (printed format sum)) ++ 93 :: rest)) := by
    intro x others rest
    by_cases empty : others = []
    · exact ⟨93 :: rest, bracket _, by rw [empty]; rfl, Or.inl ⟨empty, rfl⟩⟩
    · refine ⟨44 :: (commas (others.map (printed format sum)) ++ 93 :: rest), comma _, ?_, Or.inr ⟨empty, rfl⟩⟩
      rw [List.map_cons, commas_cons _ (mt List.map_eq_nil_iff.mp empty), List.append_assoc, List.cons_append]
  have start : ∀ (x : Json) (others : List Json) (rest rest' : List UInt8), x.Sortable →
      commas ((x :: others).map (printed format sum)) ++ 93 :: rest ≠ 93 :: rest' := by
    intro x others rest rest' sortable same
    rcases split x others rest with ⟨tail, -, text, -⟩
    rcases @sortable.printed_head format sum with ⟨head, more, isHead, other⟩
    rw [text, isHead] at same
    exact other (List.cons.inj same).1
  induction firsts generalizing seconds with
  | nil =>
      cases seconds with
      | nil => exact ⟨rfl, (List.cons.inj same).2⟩
      | cons y seconds => exact absurd same.symm (start y seconds _ _ (isSecond y List.mem_cons_self))
  | cons x firsts ih =>
      cases seconds with
      | nil => exact absurd same (start x firsts _ _ (isFirst x List.mem_cons_self))
      | cons y seconds =>
          rcases split x firsts before with ⟨tail, ends, text, more⟩
          rcases split y seconds behind with ⟨tail', ends', text', more'⟩
          rw [text, text'] at same
          rcases each x List.mem_cons_self y List.mem_cons_self tail tail' ends ends' same with ⟨rfl, tails⟩
          rcases more with ⟨rfl, rfl⟩ | ⟨some, rfl⟩
          · rcases more' with ⟨rfl, rfl⟩ | ⟨some', rfl⟩
            · exact ⟨rfl, (List.cons.inj tails).2⟩
            · exact absurd (List.cons.inj tails).1 (by decide)
          · rcases more' with ⟨rfl, rfl⟩ | ⟨some', rfl⟩
            · exact absurd (List.cons.inj tails).1 (by decide)
            · rcases ih (fun z inside => isFirst z (List.mem_cons_of_mem _ inside))
                (fun z inside => isSecond z (List.mem_cons_of_mem _ inside))
                (fun z inside w inside' => each z (List.mem_cons_of_mem _ inside) w (List.mem_cons_of_mem _ inside'))
                (List.cons.inj tails).2 with ⟨rfl, rest⟩
              exact ⟨rfl, rest⟩

/-- A value is known from its text, and so is what comes behind it. -/
theorem Json.Sortable.printed_cancel {x : Json} (sortable : x.Sortable) :
    ∀ {y : Json}, y.Sortable → ∀ before behind, Ends before →
    Ends behind → printed format sum x ++ before = printed format sum y ++ behind → x = y ∧ before = behind := by
  have digits : ∀ value : Nat, ∃ head rest, decimal value = head :: rest ∧ Source.isDigit head = true := by
    intro value
    rcases digits_decimal value with ⟨⟨some, areDigits⟩, -⟩
    rcases List.exists_cons_of_ne_nil some with ⟨head, rest, isDecimal⟩
    exact ⟨head, rest, isDecimal, areDigits head (by rw [isDecimal]; exact List.mem_cons_self)⟩
  induction sortable with
  | uint value =>
      intro y isY before behind ends ends' same
      cases isY with
      | uint other =>
          rcases decimal_cancel ends ends' same with ⟨rfl, rest⟩
          exact ⟨rfl, rest⟩
      | string bytes =>
          rcases digits value with ⟨head, rest, isDecimal, digit⟩
          rw [printed, isDecimal] at same
          rw [(List.cons.inj same).1] at digit
          exact absurd digit (by decide)
      | array each =>
          rcases digits value with ⟨head, rest, isDecimal, digit⟩
          rw [printed, isDecimal] at same
          rw [(List.cons.inj same).1] at digit
          exact absurd digit (by decide)
  | string bytes =>
      intro y isY before behind ends ends' same
      cases isY with
      | uint other =>
          rcases digits other with ⟨head, rest, isDecimal, digit⟩
          rw [printed, printed, isDecimal] at same
          rw [← (List.cons.inj same).1] at digit
          exact absurd digit (by decide)
      | string others =>
          rcases quotedJson_cancel same with ⟨rfl, rest⟩
          exact ⟨rfl, rest⟩
      | array each => exact absurd (List.cons.inj same).1 (by decide)
  | @array elements each ih =>
      intro y isY before behind ends ends' same
      cases isY with
      | uint other =>
          rcases digits other with ⟨head, rest, isDecimal, digit⟩
          rw [printed, printed, isDecimal] at same
          rw [← (List.cons.inj same).1] at digit
          exact absurd digit (by decide)
      | string bytes => exact absurd (List.cons.inj same).1 (by decide)
      | @array others each' =>
          rw [printed, printed, printedAll_eq, printedAll_eq, List.cons_append, List.cons_append, List.append_assoc,
            List.append_assoc] at same
          rcases commas_cancel each each' (fun x inside y inside' => ih x inside (each' y inside'))
            (List.cons.inj same).2 with
            ⟨rfl, rest⟩
          exact ⟨rfl, rest⟩

theorem Json.Sortable.printed_inj {x y : Json} (isX : x.Sortable) (isY : y.Sortable) :
    printed format sum x = printed format sum y ↔ x = y := by
  constructor
  · intro same
    refine (@Json.Sortable.printed_cancel format sum x isX y isY [] [] (Or.inl rfl) (Or.inl rfl) ?_).1
    rw [List.append_nil, List.append_nil]
    exact same
  · intro same
    rw [same]

theorem PointsTo.toJson_eq {x : Json} {pointer : Pointer} (holds : PointsTo sum x pointer) :
    toJson format sum pointer = some (printed format sum x) := by
  rcases holds with ⟨tokens, rest, rfl, represents⟩
  exact (represents.printable rest).text _ (Nat.le_refl _)

/-- Two values that can be compared are equal if they compare as equal, and
then have the same text. -/
def EqualityAgrees (ops : FloatOps) (format : UInt64 → List UInt8) (sum : List UInt8 → Nat)
    (left right : Pointer) : Prop :=
  cmp ops left right ≠ cmpError →
    (eq ops left right = some true ↔ cmp ops left right = 0) ∧
      (eq ops left right = some true → toJson format sum left = toJson format sum right) ∧
      (cmp ops left right = 0 → toJson format sum left = toJson format sum right)

/-- Equality and comparison agree unless the values differ behind NULs only. -/
theorem equality_agrees_iff (ops : FloatOps) (format : UInt64 → List UInt8) (sum : List UInt8 → Nat) {x y : Json}
    (isX : x.Sortable)
    (isY : y.Sortable) {left right : Pointer} (first : PointsTo sum x left) (second : PointsTo sum y right) :
    EqualityAgrees ops format sum left right ↔ (x.cut = y.cut → x = y) := by
  have between := @PointsTo.eq_between ops sum x y left right isX isY first second
  have zero := @Json.Sortable.cmp_eq_zero_iff ops x isX y isY
  have texts := @Json.Sortable.printed_inj format sum x y isX isY
  rw [EqualityAgrees, first.cmp_eq second, first.toJson_eq, second.toJson_eq, Option.some.injEq, texts]
  constructor
  · intro agrees same
    have compared := zero.mpr same
    exact (agrees (by rw [compared]; decide)).2.2 compared
  · intro whole _
    refine ⟨⟨fun equal => zero.mpr (between.sound equal),
      fun equal => between.complete (whole (zero.mp equal))⟩, ?_, ?_⟩
    · exact fun equal => whole (between.sound equal)
    · exact fun equal => whole (zero.mp equal)

theorem pointsTo_string (sum : List UInt8 → Nat) {bytes : List UInt8} (short : bytes.length < 2 ^ 32) :
    PointsTo sum (.string bytes) (.head { kind := .string } bytes.length (.string bytes) :: List.replicate
      ((bytes.length + 8) / 16) .more) :=
  ⟨_, [], (List.append_nil _).symm, .string rfl rfl rfl short⟩

theorem equality_agrees_copy :
    EqualityAgrees numberEnv.ops (fun _ => []) List.length [.head { kind := .string } 2 (.string [97, 98])]
      [.head { kind := .string, isRef := true } 0 (.reference [97, 98])] :=
  (equality_agrees_iff numberEnv.ops (fun _ => []) List.length (.string [97, 98]) (.string [97, 98])
    (pointsTo_string List.length (by decide)) ⟨_, [], rfl,
      .referred rfl rfl rfl (by decide) (Or.inl rfl)⟩).mpr fun _ => rfl

/-- The strings `"a\u0000b"` and `"a\u0000c"`. -/
theorem equality_ignores_rest :
    ¬ EqualityAgrees numberEnv.ops (fun _ => []) List.length [.head { kind := .string } 3 (.string [97, 0, 98])]
      [.head { kind := .string } 3 (.string [97, 0, 99])] := by
  have first : PointsTo List.length (.string [97, 0, 98]) [.head { kind := .string } 3 (.string [97, 0, 98])] :=
    pointsTo_string List.length (by decide)
  have second : PointsTo List.length (.string [97, 0, 99]) [.head { kind := .string } 3 (.string [97, 0, 99])] :=
    pointsTo_string List.length (by decide)
  have compared : cmp numberEnv.ops [.head { kind := .string } 3 (.string [97, 0, 98])]
      [.head { kind := .string } 3 (.string [97, 0, 99])] = 0 := (first.cmp_eq second).trans (by decide)
  intro agrees
  have texts := (agrees (by rw [compared]; decide)).2.2 compared
  rw [first.toJson_eq, second.toJson_eq] at texts
  exact absurd texts (by decide)

end

end Jitson
end LibKit
