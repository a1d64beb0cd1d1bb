import LibKit.Jitson.Printed
import LibKit.Jitson.Sameness

namespace LibKit
namespace Jitson

open Grouping

/-!
# Reading what was written

The text of a tree is read as the tree with the members of its objects in the
order of their buckets, and with its doubles as they were written.
-/

/-! ## Trees that are read again -/

mutual

/-- The tree that is read from the text of a tree. -/
def again (reread : UInt64 → Json) (sum : List UInt8 → Nat) : Json → Json
  | .null => .null
  | .bool value => .bool value
  | .uint value => .uint value
  | .number bits => reread bits
  | .string bytes => .string bytes
  | .array elements => .array (againAll reread sum elements)
  | .object members => .object (bucketed sum (againMembers reread sum members))

def againAll (reread : UInt64 → Json) (sum : List UInt8 → Nat) : List Json → List Json
  | [] => []
  | element :: elements => again reread sum element :: againAll reread sum elements

def againMembers (reread : UInt64 → Json) (sum : List UInt8 → Nat) : List (List UInt8 × Json) → List (List UInt8 × Json)
  | [] => []
  | (name, value) :: members => (name, again reread sum value) :: againMembers reread sum members

end

inductive EachNumber (holds : UInt64 → Prop) : Json → Prop where
  | null : EachNumber holds .null
  | bool (value : Bool) : EachNumber holds (.bool value)
  | uint (value : Nat) : EachNumber holds (.uint value)
  | number {bits : UInt64} (is : holds bits) : EachNumber holds (.number bits)
  | string (bytes : List UInt8) : EachNumber holds (.string bytes)
  | array {elements : List Json} (each : ∀ element ∈ elements, EachNumber holds element) :
    EachNumber holds (.array elements)
  | object {members : List (List UInt8 × Json)} (each : ∀ member ∈ members, EachNumber holds member.2) :
      EachNumber holds (.object members)

section

variable {format : UInt64 → List UInt8} {reread : UInt64 → Json} {sum : List UInt8 → Nat} {double : List UInt8 → UInt64}

theorem againAll_eq (elements : List Json) : againAll reread sum elements = elements.map (again reread sum) := by
  induction elements with
  | nil => rfl
  | cons element elements ih => rw [againAll, ih, List.map_cons]

theorem againMembers_eq (members : List (List UInt8 × Json)) :
    againMembers reread sum members = members.map fun member => (member.1, again reread sum member.2) := by
  induction members with
  | nil => rfl
  | cons member members ih => rw [againMembers, ih, List.map_cons]

/-- The order of members depends on their names only. -/
theorem bucketed_map {α β : Type} (change : α → β) (members : List (List UInt8 × α)) :
    bucketed sum (members.map fun member => (member.1, change member.2)) =
      (bucketed sum members).map fun member => (member.1, change member.2) := by
  rw [bucketed, bucketed, grouped_map, List.length_map]

theorem bucketed_perm {α : Type} (members : List (List UInt8 × α)) : (bucketed sum members).Perm members := by
  apply grouped_perm
  intro member inside
  exact Nat.mod_lt _ (List.length_pos_of_mem inside)

theorem again_object (members : List (List UInt8 × Json)) :
    again reread sum (.object members) =
      .object ((bucketed sum members).map fun member => (member.1, again reread sum member.2)) := by
  rw [again, againMembers_eq, bucketed_map]

theorem printed_object (members : List (List UInt8 × Json)) :
    printed format sum (.object members) =
      123 :: (commas ((bucketed sum members).map fun member =>
        quotedJson member.1 ++ 58 :: printed format sum member.2) ++ [125]) := by
  rw [printed, printedMembers_eq, bucketed_map, List.map_map]
  rfl

theorem Fitting.again {tree : Json} (fitting : Fitting tree)
    (numbers : EachNumber (fun bits => Fitting (reread bits)) tree) :
    Fitting (again reread sum tree) := by
  induction fitting with
  | null => exact .null
  | bool value => exact .bool value
  | uint small => exact .uint small
  | number bits =>
      cases numbers with
      | number fits => exact fits
  | string bytes => exact .string bytes
  | array each ih =>
      cases numbers with
      | array numbers =>
          rw [Jitson.again, againAll_eq]
          refine .array ?_
          intro element inside
          rcases List.mem_map.mp inside with ⟨original, isOriginal, rfl⟩
          exact ih original isOriginal (numbers original isOriginal)
  | object names values ih =>
      cases numbers with
      | object numbers =>
          rw [again_object]
          refine .object ?_ ?_
          · intro member inside
            rcases List.mem_map.mp inside with ⟨original, isOriginal, rfl⟩
            exact names original ((bucketed_perm _).mem_iff.mp isOriginal)
          · intro member inside
            rcases List.mem_map.mp inside with ⟨original, isOriginal, rfl⟩
            have isMember := (bucketed_perm _).mem_iff.mp isOriginal
            exact ih original isMember (numbers original isMember)

/-! ## Texts -/

/-- What the parser accepts, but for spaces other than those of JSON. -/
def Dialect.loose : Dialect := { Dialect.parsed with space := Dialect.json.space }

theorem readable_loose : Dialect.loose.Readable := by
  refine ⟨fun _ areSpaces => areSpaces, fun _ isWhole => isWhole, ?_⟩
  intro text bytes chars
  induction chars with
  | nil => exact .nil
  | unit isUnit others ih => exact .unit isUnit ih
  | escape isEscape others ih =>
      have encodes : ∀ point bytes, Dialect.loose.unicode point bytes → Dialect.parsed.unicode point bytes :=
        fun _ _ encoded => encoded
      exact .escape (isEscape.mono encodes) ih

theorem unicodeEscape_escape {byte : UInt8} (isEscape : escapes byte = true) :
    Escape .loose (unicodeEscape byte) [byte] := by
  have digit : ∀ value < 16, Source.isXDigit (UInt8.ofNat (Nat.digitChar value).toNat) = true ∧
      Source.digitValue (UInt8.ofNat (Nat.digitChar value).toNat) = value := by decide
  have small : byte.toNat < 128 := by
    simp only [escapes, decide_eq_true_eq] at isEscape
    rcases isEscape with control | rfl | rfl
    · exact Nat.lt_of_le_of_lt (UInt8.le_iff_toNat_le.mp control) (by decide)
    · decide
    · decide
  have high := digit (byte.toNat / 16) (by omega)
  have low := digit (byte.toNat % 16) (Nat.mod_lt _ (by decide))
  refine @Escape.unicode .loose [48, 48, _, _] [byte] rfl ?_ ?_
  · simp [high.1, low.1, show Source.isXDigit 48 = true from rfl]
  · have value : Source.digitsValue 16 [48, 48, UInt8.ofNat (Nat.digitChar (byte.toNat / 16)).toNat,
        UInt8.ofNat (Nat.digitChar (byte.toNat % 16)).toNat] = byte.toNat := by
      simp only [Source.digitsValue, List.foldl_cons, List.foldl_nil, high.2, low.2, show Source.digitValue 48 =
        0 from rfl]
      omega
    change [byte] = Source.toUtf8 (Source.digitsValue 16 _)
    rw [value, Source.toUtf8, if_pos (by omega), UInt8.ofNat_toNat]

/-- The bytes of a string are read as they were written. -/
theorem chars_written (bytes : List UInt8) : Chars .loose (bytes.flatMap written) bytes := by
  induction bytes with
  | nil => exact .nil
  | cons byte bytes ih =>
      rw [List.flatMap_cons, written]
      cases isEscape : escapes byte with
      | true => exact @Chars.escape .loose (unicodeEscape byte) [byte] _ _ (unicodeEscape_escape isEscape) ih
      | false =>
          simp only [escapes, decide_eq_false_iff_not, not_or] at isEscape
          refine @Chars.unit .loose [byte] _ _ ⟨byte, rfl, ?_, isEscape.2.1, isEscape.2.2⟩ ih
          rintro rfl
          exact isEscape.1 (by decide)

theorem digits_decimal (value : Nat) : Digits (decimal value) ∧ Source.digitsValue 10 (decimal value) = value := by
  induction value using Nat.strong_induction_on with
  | _ value ih =>
      have digit : ∀ digit < 10, Source.isDigit (UInt8.ofNat (48 + digit)) = true ∧
          Source.digitValue (UInt8.ofNat (48 + digit)) = digit := by decide
      rw [decimal_eq]
      split
      · rename_i small
        refine ⟨digits_single (digit value small).1, ?_⟩
        rw [Source.digitsValue, List.foldl_cons, List.foldl_nil, (digit value small).2]
        omega
      · rename_i large
        have last := digit (value % 10) (Nat.mod_lt _ (by decide))
        rcases ih (value / 10) (by omega) with ⟨⟨-, areDigits⟩, sameValue⟩
        refine ⟨⟨by simp, ?_⟩, ?_⟩
        · intro byte inside
          rcases List.mem_append.mp inside with before | here
          · exact areDigits byte before
          · rw [List.mem_singleton.mp here]
            exact last.1
        · rw [Source.digitsValue, List.foldl_append] at *
          rw [sameValue, List.foldl_cons, List.foldl_nil, last.2]
          omega

/-- The text of a tree is a text of the tree that is read again. -/
theorem value_printed {tree : Json}
    (numbers : EachNumber (fun bits => Value .loose double (format bits) (reread bits)) tree) :
    Value .loose double (printed format sum tree) (again reread sum tree) := by
  induction numbers with
  | null => exact .symbol rfl
  | bool value => cases value <;> exact .symbol rfl
  | uint value =>
      have digits := digits_decimal value
      have written : Value .loose double (decimal value) (.uint (Source.digitsValue 10 (decimal value))) :=
        .uint digits.1
      rw [digits.2] at written
      exact written
  | number is => exact is
  | string bytes => exact .string (chars_written bytes)
  | @array elements each ih =>
      rw [printed, printedAll_eq, again, againAll_eq]
      by_cases empty : elements = []
      · subst empty
        exact @Value.emptyArray _ _ [] noSpaces
      · have pieces := @Value.array .loose double
          (elements.map fun element => ⟨[], printed format sum element, [], again reread sum element⟩)
          (mt List.map_eq_nil_iff.mp empty) (by
            intro piece inside
            rcases List.mem_map.mp inside with ⟨element, isElement, rfl⟩
            exact ⟨noSpaces, noSpaces⟩) (by
            intro piece inside
            rcases List.mem_map.mp inside with ⟨element, isElement, rfl⟩
            exact ih element isElement)
        simp only [List.map_map, Function.comp_def, Piece.bytes, List.nil_append, List.append_nil] at pieces
        exact pieces
  | @object members each ih =>
      rw [printed_object, again_object]
      have isMember : ∀ member ∈ bucketed sum members, member ∈ members :=
        fun member => (bucketed_perm members).mem_iff.mp
      by_cases empty : bucketed sum members = []
      · rw [empty]
        exact @Value.emptyObject _ _ [] noSpaces
      · have pieces := @Value.object .loose double
          ((bucketed sum members).map fun member => ⟨[], member.1.flatMap written, [], member.1,
            ⟨[], printed format sum member.2, [], again reread sum member.2⟩⟩)
          (mt List.map_eq_nil_iff.mp empty) (by
            intro piece inside
            rcases List.mem_map.mp inside with ⟨member, -, rfl⟩
            exact ⟨noSpaces, noSpaces, noSpaces, noSpaces⟩) (by
            intro piece inside
            rcases List.mem_map.mp inside with ⟨member, -, rfl⟩
            exact chars_written member.1) (by
            intro piece inside
            rcases List.mem_map.mp inside with ⟨member, isBucketed, rfl⟩
            exact ih member (isMember member isBucketed))
        simp only [List.map_map, Function.comp_def, MemberPiece.bytes, Piece.bytes, List.nil_append,
          List.append_nil] at pieces
        exact pieces

/-! ## Lookups in what is read again -/

def firstValue (members : List (List UInt8 × Json)) (name : List UInt8) : Option Json :=
  (members.find? fun member => member.1 = name).map Prod.snd

theorem lastValue_map (change : Json → Json) (members : List (List UInt8 × Json)) (name : List UInt8) :
    lastValue (members.map fun member => (member.1, change member.2)) name = (lastValue members name).map change := by
  rw [lastValue, lastValue, ← List.map_reverse, List.find?_map, Option.map_map, Option.map_map]
  rfl

/-- A bucket is read from its last member to its first, so that the first member
with a name comes last. -/
theorem lastValue_bucketed (members : List (List UInt8 × Json)) (name : List UInt8) :
    lastValue (bucketed sum members) name = firstValue members name := by
  rcases members with _ | ⟨member, members⟩
  · rfl
  · have ordered : (bucketed sum (member :: members)).filter (fun other => other.1 = name) =
        ((member :: members).filter fun other => other.1 = name).reverse := by
      refine filter_grouped (Nat.mod_lt (sum name) (Nat.succ_pos members.length)) ?_
      intro other inside isNamed
      rw [of_decide_eq_true isNamed]
    rw [lastValue, firstValue, ← List.head?_filter, List.filter_reverse, ordered, List.reverse_reverse,
      List.head?_filter]

theorem firstValue_isSome (members : List (List UInt8 × Json)) (name : List UInt8) :
    (firstValue members name).isSome = (lastValue members name).isSome := by
  rw [firstValue, lastValue, Option.isSome_map, Option.isSome_map, Bool.eq_iff_iff, List.find?_isSome,
    List.find?_isSome]
  simp only [List.mem_reverse]

/-- Of two values, the first reads as the second after it was written: where
names are repeated, the first values of the one are compared with the last of
the other. -/
inductive Mirrors (ops : FloatOps) (reread : UInt64 → Json) : Json → Json → Prop where
  | null : Mirrors ops reread .null .null
  | bool (value : Bool) : Mirrors ops reread (.bool value) (.bool value)
  | uint {value : Nat} {other : Json} (same : Matches ops (.uint value) other) : Mirrors ops reread (.uint value) other
  | number {bits : UInt64} {other : Json} (same : Matches ops (reread bits) other) :
    Mirrors ops reread (.number bits) other
  | string (bytes : List UInt8) : Mirrors ops reread (.string bytes) (.string bytes)
  | array {left right : List Json} (len : left.length = right.length)
      (each : ∀ (i : Nat) (first second : Json), left[i]? = some first → right[i]? = some second →
        Mirrors ops reread first second) :
      Mirrors ops reread (.array left) (.array right)
  | object {left right : List (List UInt8 × Json)} (len : left.length = right.length)
      (found : ∀ name, (firstValue left name).isSome = (lastValue right name).isSome)
      (each : ∀ name first second, firstValue left name = some first → lastValue right name = some second →
        Mirrors ops reread first second) : Mirrors ops reread (.object left) (.object right)

theorem mem_of_firstValue {members : List (List UInt8 × Json)} {name : List UInt8} {value : Json}
    (isFirst : firstValue members name = some value) : (name, value) ∈ members := by
  rcases Option.map_eq_some_iff.mp isFirst with ⟨member, found, rfl⟩
  have same : member.1 = name := by simpa using List.find?_some found
  rw [← same]
  exact List.mem_of_find?_eq_some found

theorem mirrors_iff {ops : FloatOps} {tree other : Json} :
    Mirrors ops reread tree other ↔ Matches ops (again reread sum tree) other := by
  induction tree using Json.induction generalizing other with
  | null =>
      constructor
      · intro mirrors
        cases mirrors with
        | null => exact .null
      · intro matching
        cases matching with
        | null => exact .null
        | number isLeft => cases isLeft
  | bool value =>
      constructor
      · intro mirrors
        cases mirrors with
        | bool => exact .bool value
      · intro matching
        cases matching with
        | bool => exact .bool value
        | number isLeft => cases isLeft
  | uint value =>
      constructor
      · intro mirrors
        cases mirrors with
        | uint same => exact same
      · exact .uint
  | number bits =>
      constructor
      · intro mirrors
        cases mirrors with
        | number same => exact same
      · exact .number
  | string bytes =>
      constructor
      · intro mirrors
        cases mirrors with
        | string => exact .string bytes
      · intro matching
        cases matching with
        | string => exact .string bytes
        | number isLeft => cases isLeft
  | array elements ih =>
      rw [again, againAll_eq]
      constructor
      · intro mirrors
        cases mirrors with
        | array len each =>
            refine .array (by rw [List.length_map]; exact len) ?_
            intro i first second isFirst isSecond
            rw [List.getElem?_map] at isFirst
            rcases Option.map_eq_some_iff.mp isFirst with ⟨element, isElement, rfl⟩
            exact (ih element (List.mem_of_getElem? isElement)).mp (each i element second isElement isSecond)
      · intro matching
        cases matching with
        | array len each =>
            refine .array (by rw [List.length_map] at len; exact len) ?_
            intro i first second isFirst isSecond
            refine (ih first (List.mem_of_getElem? isFirst)).mpr (each i _ second ?_ isSecond)
            rw [List.getElem?_map, isFirst]
            rfl
        | number isLeft => cases isLeft
  | object members ih =>
      have lookup : ∀ name, lastValue ((bucketed sum members).map fun member =>
        (member.1, again reread sum member.2)) name =
          (firstValue members name).map (again reread sum) := by
        intro name
        rw [lastValue_map, lastValue_bucketed]
      have count : ((bucketed sum members).map fun member => (member.1, again reread sum member.2)).length =
        members.length := by
        rw [List.length_map, (bucketed_perm members).length_eq]
      rw [again_object]
      constructor
      · intro mirrors
        cases mirrors with
        | object len found each =>
            refine .object (count.trans len) ?_ ?_
            · intro name
              rw [lookup, Option.isSome_map]
              exact found name
            · intro name first second isFirst isSecond
              rw [lookup] at isFirst
              rcases Option.map_eq_some_iff.mp isFirst with ⟨value, isValue, rfl⟩
              exact (ih (name, value) (mem_of_firstValue isValue)).mp (each name value second isValue isSecond)
      · intro matching
        cases matching with
        | object len found each =>
            refine .object (count.symm.trans len) ?_ ?_
            · intro name
              have both := found name
              rw [lookup, Option.isSome_map] at both
              exact both
            · intro name first second isFirst isSecond
              refine (ih (name, first) (mem_of_firstValue isFirst)).mpr (each name _ second ?_ isSecond)
              rw [lookup, isFirst]
              rfl
        | number isLeft => cases isLeft

/-! ## Doubles -/

/-- What is read from the text that is written for a double. -/
def rereadDouble (format : UInt64 → List UInt8) (double : List UInt8 → UInt64) (bits : UInt64) : Json :=
  if (format bits).all Source.isDigit then .uint (Source.digitsValue 10 (format bits))
    else .number (double (format bits))

/-- A double is written as a number of JSON, as it is unless it is infinite, and
as an unsigned integer only if that fits. -/
structure Writable (format : UInt64 → List UInt8) (bits : UInt64) : Prop where
  number : isNumber (format bits) = true
  fits : (format bits).all Source.isDigit = true → Source.digitsValue 10 (format bits) < 2 ^ 64

theorem Writable.fitting {bits : UInt64} (writable : Writable format bits) :
    Fitting (rereadDouble format double bits) := by
  rw [rereadDouble]
  split
  · rename_i whole
    exact .uint (writable.fits whole)
  · exact .number _

theorem Writable.value {bits : UInt64} (writable : Writable format bits) :
    Value .loose double (format bits) (rereadDouble format double bits) := by
  rcases isNumber_parts writable.number with ⟨sign, digits, fraction, exponent, isSign, areDigits, isFraction,
    isExponent, parts⟩
  rw [rereadDouble]
  split
  · rename_i whole
    refine .uint ⟨?_, List.all_eq_true.mp whole⟩
    rw [parts]
    intro empty
    simp only [List.append_eq_nil_iff] at empty
    exact areDigits.1 empty.1.1.2
  · rename_i other
    rw [parts] at other ⊢
    refine @Value.number .loose double sign digits fraction exponent isSign areDigits isFraction isExponent ?_
    rintro ⟨rfl, rfl, rfl⟩
    refine other ?_
    rw [List.nil_append, List.append_nil, List.append_nil]
    exact List.all_eq_true.mpr areDigits.2

theorem EachNumber.mono {holds other : UInt64 → Prop} (weaker : ∀ bits, holds bits → other bits) {tree : Json}
    (numbers : EachNumber holds tree) : EachNumber other tree := by
  induction numbers with
  | null => exact .null
  | bool value => exact .bool value
  | uint value => exact .uint value
  | number is => exact .number (weaker _ is)
  | string bytes => exact .string bytes
  | array each ih => exact .array ih
  | object each ih => exact .object ih

end

/-! ## Writing and parsing -/

section

variable {env : Env} {numeral : List UInt8 → Prop} {double : List UInt8 → UInt64} {format : UInt64 → List UInt8}
    {stack : Stack}
  {tree : Json}

/-- What is written for a value can be parsed. -/
theorem load_printed (numbers : ReadsNumbers numeral double env.ops.strtod) (fitting : Fitting tree)
    (writable : EachNumber (Writable format) tree) (sum : List UInt8 → Nat) (behind : List UInt8) (roomy : env.Roomy)
    (positive : 0 < stack.maximum) (room : stack.count + (printed format sum tree).length ≤ 2 ^ 32 - 4096) :
    ∃ left after tokens, stack.load env (.fromString (printed format sum tree) behind {}) = .ok (left, after) ∧
      left.next = [] ∧
      after.jitsons = stack.jitsons ++ tokens ∧ ∀ sum',
        Represents sum' (again (rereadDouble format double) sum tree) tokens := by
  have value := @value_printed format (rereadDouble format double) sum double tree
    (writable.mono fun bits writable => writable.value)
  have fitting' := @Fitting.again (rereadDouble format double) sum tree fitting
    (writable.mono fun bits writable => writable.fitting)
  rcases @load_value env numeral double stack _ _ .loose readable_loose numbers []
    [] noSpaces noSpaces value fitting' behind roomy
    positive (by rw [List.nil_append, List.append_nil]; exact room) with ⟨left, after, loaded, same, stacked,
      represents⟩
  rw [List.nil_append, List.append_nil] at loaded
  exact ⟨left, after, _, loaded, same, stacked, represents⟩

end

end Jitson
end LibKit
