import LibKit.Jitson.Completeness
import LibKit.Jitson.Lookup
import LibKit.Jitson.Observing

namespace LibKit
namespace Jitson

open Stack (wrapped closedBody)

/-!
# The meaning of parsed values

The tokens of a tree represent it, unless they were optimised and the elements
of an array that counts as uniform have different sizes.
-/

/-! ## Representing a tree -/

/-- The lengths of all strings fit, no member name has a NUL, and the elements
of arrays that count as uniform are of the same size. -/
inductive Regular (ops : FloatOps) (optimize : Bool) : Json → Prop where
  | null : Regular ops optimize .null
  | bool (value : Bool) : Regular ops optimize (.bool value)
  | uint (value : Nat) : Regular ops optimize (.uint value)
  | number (bits : UInt64) : Regular ops optimize (.number bits)
  | string {bytes : List UInt8} (fits : StringSized bytes) : Regular ops optimize (.string bytes)
  | array {elements : List Json} (each : ∀ element ∈ elements, Regular ops optimize element)
      (uniform : (parsedType ops optimize (encodeAll ops optimize elements)).isUnif = true →
        Uniformly (encodeAll ops optimize elements)) : Regular ops optimize (.array elements)
  | object {members : List (List UInt8 × Json)} (names : ∀ member ∈ members, 0 ∉ member.1 ∧ member.1.length < 2 ^ 32)
      (values : ∀ member ∈ members, Regular ops optimize member.2) : Regular ops optimize (.object members)

section

variable {ops : FloatOps} {optimize : Bool} {sum : List UInt8 → Nat}

theorem stringTokens_short {bytes : List UInt8} (fits : bytes.length < 2 ^ 32) (isKey : Bool) :
    stringTokens isKey bytes = .head { kind := .string, isKey := isKey } bytes.length (.string bytes) ::
      List.replicate ((bytes.length + 8) / 16) .more := by
  rw [stringTokens, wrapped, Nat.mod_eq_of_lt fits, Nat.sub_self, List.drop_zero]

/-- What is written to the head of an array when it is closed agrees with its
elements. -/
theorem arrayBody_closed {blocks : List Block} {type : TypeWord} (kind : type.kind = .array)
    (notIndexed : type.isOwn = false)
    (uniform : type.isUnif = true → Uniformly blocks) :
    ArrayBody (blocks.map Block.tokens) type (closedBody type blocks.length (flatten blocks).length) := by
  cases isUnif : type.isUnif with
  | false =>
      have body : closedBody type blocks.length (flatten blocks).length = .integer ((flatten blocks).length + 1) := by
        rw [closedBody, if_neg fun all => Bool.false_ne_true (isUnif.symm.trans all.2.2)]
      rw [body]
      exact .plain isUnif notIndexed
  | true =>
      rcases uniform isUnif with ⟨length, same, small⟩
      refine @ArrayBody.uniform _ _ _ length isUnif notIndexed ?_
      intro segment inside
      rcases List.mem_map.mp inside with ⟨block, isBlock, rfl⟩
      have some : blocks.length ≠ 0 := Nat.ne_of_gt (List.length_pos_of_mem isBlock)
      refine ⟨same block isBlock, ?_⟩
      rw [closedBody, if_pos ⟨some, kind, isUnif⟩, flatten_length same, Nat.mul_left_comm,
        Nat.mul_div_cancel_left _ (Nat.pos_of_ne_zero some), Nat.mod_eq_of_lt small]
      rfl

theorem Regular.represents {tree : Json} (regular : Regular ops optimize tree)
    (short : (encode ops optimize tree).tokens.length < 2 ^ 32) :
    Represents sum tree (encode ops optimize tree).tokens := by
  induction regular with
  | null => exact .null rfl
  | bool value => exact .bool rfl
  | uint value => exact .uint rfl rfl
  | number bits => exact .number rfl rfl
  | @string bytes fits =>
      rw [encode, stringTokens_short fits]
      exact .string rfl rfl rfl fits
  | @array elements each uniform ih =>
      rw [encode, arrayBlock] at short ⊢
      dsimp only at short ⊢
      have count : (encodeAll ops optimize elements).length = elements.length := by rw [encodeAll_eq, List.length_map]
      rw [count]
      refine .array rfl rfl (by rw [List.length_map, count]) ?_ ?_ short
      · intro pair inside
        rw [encodeAll_eq, List.map_map, ← List.map_prod_left_eq_zip] at inside
        rcases List.mem_map.mp inside with ⟨element, isElement, rfl⟩
        have within := length_le_flatten (List.mem_map_of_mem (f := encode ops optimize) isElement)
        rw [← encodeAll_eq] at within
        rw [List.length_cons] at short
        exact ih element isElement (by omega)
      · rw [← count]
        exact arrayBody_closed rfl rfl uniform
  | @object members names values ih =>
      have names' : ∀ member ∈ members, member.1.length < 2 ^ 32 := fun member inside => (names member inside).2
      rw [encode, objectBlock] at short ⊢
      dsimp only at short ⊢
      rw [memberTokens_laid names'] at short ⊢
      rw [encodeMembers_eq, List.length_map]
      refine @Represents.object sum _ members (members.map (parsedMember ops optimize)) _ _ rfl ?_ ?_ ?_
        (.plain rfl) short
      · rw [List.map_map]
        rfl
      · intro entry inside
        rcases List.mem_map.mp inside with ⟨member, isMember, rfl⟩
        exact (names member isMember).1
      · intro pair inside
        rw [← List.map_prod_left_eq_zip] at inside
        rcases List.mem_map.mp inside with ⟨member, isMember, rfl⟩
        have within := length_le_memberTokens (List.mem_map_of_mem
          (f := fun member => (member.1, encode ops optimize member.2)) isMember)
        rw [← encodeMembers_eq, memberTokens_laid names'] at within
        rw [List.length_cons] at short
        exact ih member isMember (by dsimp only at within; omega)

theorem Escape.length_le {text chars : List UInt8} (isEscape : Escape .parsed text chars) :
    chars.length ≤ text.length := by
  cases isEscape with
  | @unicode digits _ four areDigits encoded =>
      have most : chars.length ≤ 4 := by
        rw [show chars = Source.toUtf8 (Source.digitsValue 16 digits) from encoded, Source.toUtf8]
        split_ifs <;> simp
      rw [List.length_cons, List.length_cons]
      omega
  | itself special => exact Nat.le_succ 1
  | backspace => exact Nat.le_succ 1
  | formFeed => exact Nat.le_succ 1
  | lineFeed => exact Nat.le_succ 1
  | carriageReturn => exact Nat.le_succ 1
  | tab => exact Nat.le_succ 1

theorem Chars.length_le {text bytes : List UInt8} (chars : Chars .parsed text bytes) : bytes.length ≤ text.length := by
  induction chars with
  | nil => exact Nat.le_refl 0
  | unit isUnit others ih =>
      rw [List.length_append, List.length_append]
      omega
  | escape isEscape others ih =>
      have shorter := isEscape.length_le
      rw [List.length_append, List.length_append]
      omega

theorem length_le_commas {texts : List (List UInt8)} {text : List UInt8} (inside : text ∈ texts) :
    text.length ≤ (commas texts).length := by
  induction texts with
  | nil => cases inside
  | cons first texts ih =>
      cases texts with
      | nil => rw [List.mem_singleton.mp inside, commas]
      | cons second texts =>
          rw [commas, List.length_append, List.length_cons]
          rcases List.mem_cons.mp inside with rfl | later
          · omega
          · have shorter := ih later
            omega

/-- Without optimisation all trees of texts are regular, but for NULs in names,
if the text is shorter than a string can be. -/
theorem Value.regular {dialect : Dialect} (readable : dialect.Readable) {double : List UInt8 → UInt64}
    {text : List UInt8} {tree : Json}
    (value : Value dialect double text tree) (fitting : Fitting tree) (short : text.length < 2 ^ 32) :
      Regular ops false tree := by
  induction value with
  | @symbol name tree isSymbol =>
      rw [Jitson.symbol] at isSymbol
      split_ifs at isSymbol
      · cases isSymbol
        exact .bool true
      · cases isSymbol
        exact .bool false
      · cases isSymbol
        exact .null
  | uint isWhole => exact .uint _
  | number isSign isWhole isFraction isExponent notUint => exact .number _
  | string chars =>
      have shorter := (readable.chars _ _ chars).length_le
      simp only [quoted, List.length_cons, List.length_append] at short
      exact .string (show _ < 2 ^ 32 by omega)
  | emptyArray areSpaces =>
    exact .array (fun _ inside => absurd inside List.not_mem_nil) (fun isUnif => by cases isUnif)
  | @array pieces some spaced values ih =>
      cases fitting with
      | array each =>
          refine .array ?_ (fun isUnif => by cases isUnif)
          intro element inside
          rcases List.mem_map.mp inside with ⟨piece, isPiece, rfl⟩
          have shorter := length_le_commas (List.mem_map_of_mem (f := Piece.bytes) isPiece)
          simp only [Piece.bytes, List.length_cons, List.length_append] at shorter short
          exact ih piece isPiece (each _ inside) (by omega)
  | emptyObject areSpaces =>
      exact .object (fun _ inside => absurd inside List.not_mem_nil) (fun _ inside => absurd inside List.not_mem_nil)
  | @object members some spaced names values ih =>
      cases fitting with
      | object noNul each =>
          have shorter : ∀ member ∈ members, member.name.length < 2 ^ 32 ∧ member.value.text.length < 2 ^ 32 := by
            intro member inside
            have within := length_le_commas (List.mem_map_of_mem (f := MemberPiece.bytes) inside)
            have bytes := (readable.chars _ _ (names member inside)).length_le
            simp only [MemberPiece.bytes, Piece.bytes, quoted, List.length_cons, List.length_append] at within short
            omega
          refine .object ?_ ?_
          · intro member inside
            rcases List.mem_map.mp inside with ⟨piece, isPiece, rfl⟩
            exact ⟨noNul _ inside, (shorter piece isPiece).1⟩
          · intro member inside
            rcases List.mem_map.mp inside with ⟨piece, isPiece, rfl⟩
            exact ih piece isPiece (each _ inside) (shorter piece isPiece).2

end

/-! ## Valid texts -/

section

variable {env : Env} {numeral : List UInt8 → Prop} {double : List UInt8 → UInt64} {stack : Stack} {text : List UInt8}
    {tree : Json}

/-- A value with spaces around it is loaded as the tokens of its tree, and the
spaces behind it are left, if hexadecimal numbers are not allowed. -/
theorem load_flagged {dialect : Dialect} (readable : dialect.Readable)
    (numbers : ReadsNumbers numeral double env.ops.strtod) {before after : List UInt8}
    (areBefore : dialect.Spaces before) (areAfter : dialect.Spaces after)
    (value : Value dialect double text tree) (fitting : Fitting tree) (behind : List UInt8) (roomy : env.Roomy)
    (positive : 0 < stack.maximum) (room : stack.count + (before ++ text ++ after).length ≤ 2 ^ 32 - 4096)
    {flags : Flags} (decimal : flags.allowHex = false) (plain : Plain ⟨True, False⟩ env flags) :
    ∃ left grown, stack.load env (.fromString (before ++ text ++ after) behind flags) = .ok (left, grown) ∧
      left.next = after ∧
      grown.jitsons = stack.jitsons ++ (encode env.ops flags.optimize tree).tokens ∧
      (encode env.ops flags.optimize tree).tokens.length ≤ (before ++ text ++ after).length := by
  have areAfter' := readable.spaces _ areAfter
  have delimited : Delimited after := by
    cases after with
    | nil => exact Or.inl rfl
    | cons byte after => exact Or.inr (separator_of_space (areAfter' byte List.mem_cons_self))
  have read : read env.ops (.fromString (before ++ text ++ after) behind flags) =
      some (tree, (Source.fromString (before ++ text ++ after) behind flags).seek after) := by
    have reads := (@Value.reads env.ops numeral double behind dialect readable numbers text tree value fitting).2
      (.fromString (before ++ text ++ after) behind flags) before after
      (2 * (before ++ text ++ after).length + 2) decimal rfl
      (readable.spaces _ areBefore) delimited (by simp only [List.length_append]; omega)
    rw [← List.append_assoc] at reads
    exact reads
  have tokens := ((reading_behind flags.optimize _).1 _ _ _ read).2
  have meets := load_meets (⟨plain, by omega, fun _ => roomy, fun _ => positive, fun _ => room⟩ :
    Fits ⟨True, False⟩ env stack (.fromString (before ++ text ++ after) behind flags))
  rw [read] at meets
  rcases meets with ⟨⟨left, grown⟩, loaded, same, -, maximum, -, isGrown⟩ | ⟨scarce, -⟩
  · dsimp only at same isGrown
    exact ⟨left, grown, loaded, by rw [same]; rfl, by rw [isGrown]; rfl, Nat.le_trans (Nat.le_add_left _ _) tokens⟩
  · exact absurd trivial scarce

theorem load_value {dialect : Dialect} (readable : dialect.Readable)
    (numbers : ReadsNumbers numeral double env.ops.strtod)
    {before after : List UInt8} (areBefore : dialect.Spaces before) (areAfter : dialect.Spaces after)
    (value : Value dialect double text tree) (fitting : Fitting tree) (behind : List UInt8) (roomy : env.Roomy)
    (positive : 0 < stack.maximum) (room : stack.count + (before ++ text ++ after).length ≤ 2 ^ 32 - 4096) :
    ∃ left grown, stack.load env (.fromString (before ++ text ++ after) behind {}) = .ok (left, grown) ∧
      left.next = after ∧
      grown.jitsons = stack.jitsons ++ (encode env.ops false tree).tokens ∧
      ∀ sum, Represents sum tree (encode env.ops false tree).tokens := by
  have plain : Plain ⟨True, False⟩ env {} := by
    refine ⟨?_, False.elim⟩
    intro name value known
    simp [Stack.constGet, known]
  rcases load_flagged readable numbers areBefore areAfter value fitting behind roomy positive room rfl plain with
    ⟨left, grown, loaded, same, stacked, long⟩
  refine ⟨left, grown, loaded, same, stacked, fun sum => ?_⟩
  have inside : text.length ≤ (before ++ text ++ after).length := by
    rw [List.length_append, List.length_append]
    omega
  have short : (encode env.ops false tree).tokens.length < 2 ^ 32 := Nat.lt_of_le_of_lt long (by omega)
  exact (value.regular readable fitting (by omega)).represents short

theorem pointer_loaded {grown : Stack} {tokens : List Token} (stacked : grown.jitsons = stack.jitsons ++ tokens) :
    grown.pointer stack.count = tokens ++ [] := by
  rw [Stack.pointer, stacked, Stack.count, List.drop_left, List.append_nil]

/-- What is expected of parsing a text that means a tree: it succeeds, leaves
nothing but spaces, and leaves a value that denotes the tree. -/
def Parses (env : Env) (sum : List UInt8 → Nat) (stack : Stack) (source : Source) (tree : Json) : Prop :=
  ∃ left after tokens, stack.load env source = .ok (left, after) ∧ Dialect.json.Spaces left.next ∧
    after.jitsons = stack.jitsons ++ tokens ∧ Denotes sum tree (after.pointer stack.count)

/-- Parsing a text that ends with a NUL. -/
theorem parses_string (numbers : ReadsNumbers numeral double env.ops.strtod) (isText : IsText .plain double text tree)
    (fitting : Fitting tree) (behind : List UInt8) (roomy : env.Roomy)
    (positive : 0 < stack.maximum) (room : stack.count + text.length ≤ 2 ^ 32 - 4096) (sum : List UInt8 → Nat) :
    Parses env sum stack (.fromString text behind {}) tree := by
  rcases isText with ⟨before, inner, rest, rfl, areBefore, areRest, value⟩
  rcases load_value readable_plain numbers areBefore areRest value fitting behind roomy positive room with
    ⟨left, after, loaded, same, stacked, represents⟩
  refine ⟨left, after, _, loaded, by rw [same]; exact areRest, stacked, ?_⟩
  rw [pointer_loaded stacked]
  exact (represents sum).denotes []

theorem load_number {source left : Source} {after : Stack} {isUint : Bool} {behind : Source}
    (number : source.skipSpace.getNumber = some (isUint, behind)) (loaded : stack.load env source = .ok (left, after)) :
    after.pointer stack.count =
      [.head { kind := .number, isUint := isUint } 0
        (convert env.ops source.allowHex isUint source.skipSpace.memory).1] := by
  have isNumber := startsNumber_class (getNumber_starts number)
  rw [Stack.load, loadJson_number _ stack isNumber] at loaded
  rcases bind_ok loaded with ⟨grown, expanded, rest⟩
  rcases Stack.expand_cases expanded with ⟨-, maximum, rfl⟩
  rw [loadNumber_eq, number] at rest
  cases rest
  have written := @write_middle
    ⟨maximum, stack.jitsons ++ [.more], true, stack.opened, stack.count, stack.borrow⟩ stack.jitsons [] .more
    (.head { kind := .number, isUint := isUint } 0 (convert env.ops source.allowHex isUint source.skipSpace.memory).1) rfl
  rw [Stack.pointer]
  change List.drop stack.count (Stack.write ⟨maximum, stack.jitsons ++ [.more], true, stack.opened, stack.count,
    stack.borrow⟩
    stack.jitsons.length [.head { kind := .number, isUint := isUint } 0
      (convert env.ops source.allowHex isUint source.skipSpace.memory).1]).jitsons = _
  rw [written]
  exact List.drop_left

theorem denotes_number {sum : List UInt8 → Nat} {isUint : Bool} {memory memory' : List UInt8} {allowHex : Bool}
    {ops : FloatOps}
    (first : Denotes sum tree [.head { kind := .number, isUint := isUint } 0 (convert ops allowHex isUint memory).1])
    (second : Denotes sum tree [.head { kind := .number, isUint := isUint } 0
      (convert ops allowHex isUint memory').1]) :
    (convert ops allowHex isUint memory).1 = (convert ops allowHex isUint memory').1 := by
  cases isUint with
  | false =>
      cases first with
      | number type notUint same =>
          cases second with
          | number type' notUint' same' => exact congrArg Body.number (same.trans same'.symm)
      | uint type isUint same => cases isUint
      | _ type => cases type
  | true =>
      cases first with
      | uint type isUint same =>
          cases second with
          | uint type' isUint' same' => exact congrArg Body.integer (same.trans same'.symm)
      | number type notUint same => cases notUint
      | _ type => cases type

/-- Every text of JSON without halves of surrogate pairs, with integers that
fit and names without NUL, is parsed, and the value denotes its tree, if the text
ends with a NUL.  In a buffer it is parsed so if and only if it is no number that
runs on behind the end of the buffer, to another value. -/
theorem valid_text_iff (numbers : ReadsNumbers numeral double env.ops.strtod) (isText : IsText .plain double text tree)
    (fitting : Fitting tree) (roomy : env.Roomy) (positive : 0 < stack.maximum)
    (room : stack.count + text.length ≤ 2 ^ 32 - 4096) (sum : List UInt8 → Nat) :
    (∀ behind, Parses env sum stack (.fromString text behind {}) tree) ∧
      ∀ beyond, Parses env sum stack (.fromBuffer text beyond {}) tree ↔
        ¬ RunsOn env.ops (.fromString text [] {}) beyond := by
  have strings := fun behind => parses_string numbers isText fitting behind roomy positive room sum
  refine ⟨strings, ?_⟩
  intro beyond
  have bounded := bounded_source_iff numbers.toReadsNumerals text beyond [] {} stack
  rcases strings [] with ⟨left, after, tokens, loaded, spaces, stacked, denotes⟩
  constructor
  · rintro ⟨left', after', tokens', loaded', spaces', stacked', denotes'⟩ runsOn
    rcases runsOn with ⟨isUint, behind, number, -, differs⟩
    have facing : (Source.fromBuffer text beyond {}).skipSpace.getNumber = some (isUint, behind.facing beyond) := by
      have read := Source.getNumber_facing (Source.fromString text [] {}).skipSpace beyond
      rw [number] at read
      exact read
    rw [load_number number loaded] at denotes
    rw [load_number facing loaded'] at denotes'
    exact differs (denotes_number denotes' denotes)
  · intro ends
    have same := bounded.mpr fun both => ends both.2
    rw [loaded] at same
    cases result : stack.load env (.fromBuffer text beyond {}) with
    | error failure =>
        rw [result] at same
        cases same
    | ok loaded' =>
        rcases loaded' with ⟨left', after'⟩
        rw [result] at same
        have parts := Prod.mk.inj (Except.ok.inj same)
        exact ⟨left', after', tokens, result, by rw [parts.1]; exact spaces, by rw [parts.2]; exact stacked,
          by rw [parts.2]; exact denotes⟩

end

def isNumber (text : List UInt8) : Bool :=
  match (Source.fromBuffer text [] {}).getNumber with
  | some (_, behind) => behind.next.isEmpty
  | none => false

theorem isNumber_parts {text : List UInt8} (number : isNumber text = true) :
    ∃ sign digits fraction exponent, Sign sign ∧ Digits digits ∧ Fraction fraction ∧ Exponent exponent ∧
      text = sign ++ digits ++ fraction ++ exponent := by
  rw [isNumber] at number
  split at number
  · rename_i isUint behind read
    rcases getNumber_next rfl read with ⟨sign, digits, fraction, exponent, isSign, areDigits, isFraction,
      isExponent, whole, -⟩
    refine ⟨sign, digits, fraction, exponent, isSign, areDigits, isFraction, isExponent, ?_⟩
    rw [List.isEmpty_iff.mp number, List.append_nil] at whole
    exact whole
  · cases number

theorem isNumber_bytes {text : List UInt8} (number : isNumber text = true) : ∀ byte ∈ text, Source.isNumeral byte := by
  have digits : ∀ {digits : List UInt8}, Digits digits → ∀ byte ∈ digits, Source.isNumeral byte = true :=
    fun areDigits byte member => Source.isNumeral_of_digit (areDigits.2 byte member)
  rcases isNumber_parts number with ⟨sign, whole, fraction, exponent, isSign, areWhole, isFraction, isExponent, rfl⟩
  intro byte member
  simp only [List.mem_append, or_assoc] at member
  rcases member with inSign | inWhole | inFraction | inExponent
  · rcases isSign with rfl | rfl
    · cases inSign
    · rw [List.mem_singleton.mp inSign]
      rfl
  · exact digits areWhole byte inWhole
  · rcases isFraction with rfl | ⟨others, areDigits, rfl⟩
    · cases inFraction
    · rcases List.mem_cons.mp inFraction with rfl | later
      · rfl
      · exact digits areDigits byte later
  · rcases isExponent with rfl | ⟨letter, sign', others, isLetter, isSign', areDigits, rfl⟩
    · cases inExponent
    · rcases List.mem_cons.mp inExponent with rfl | later
      · rcases isLetter with rfl | rfl
        · rfl
        · rfl
      · rcases List.mem_append.mp later with inSign | inDigits
        · rcases isSign' with rfl | rfl | rfl
          · cases inSign
          · rw [List.mem_singleton.mp inSign]
            rfl
          · rw [List.mem_singleton.mp inSign]
            rfl
        · exact digits areDigits byte inDigits

theorem isNumber_of_parts {sign digits fraction exponent : List UInt8} (isSign : Sign sign) (areDigits : Digits digits)
    (isFraction : Fraction fraction) (isExponent : Exponent exponent) :
    isNumber (sign ++ digits ++ fraction ++ exponent) = true := by
  have read : (Source.fromBuffer (sign ++ digits ++ fraction ++ exponent ++ []) [] {}).getNumber = _ :=
    getNumber_seek (.fromBuffer [] [] {}) rfl isSign areDigits isFraction isExponent (Or.inl rfl)
  rw [List.append_nil] at read
  rw [isNumber, read]
  rfl

theorem digits_single {byte : UInt8} (digit : Source.isDigit byte = true) : Digits [byte] :=
  ⟨List.cons_ne_nil _ _, fun other member => by rw [List.mem_singleton.mp member]; exact digit⟩

theorem readsNumbers_longest : ReadsNumbers (fun text => isNumber text = true) wholeBits (longestStrtod isNumber) := by
  refine ⟨readsNumerals_longest (fun _ number => isNumber_bytes number) ?_, ?_⟩
  · intro memory starts
    simp only [Source.startsNumber, decide_eq_true_eq] at starts
    rcases memory with _ | ⟨first, others⟩
    · exact absurd starts (by decide)
    · rcases starts with digit | ⟨minus, digit⟩
      · have number := isNumber_of_parts (Or.inl rfl)
          (digits_single (show Source.isDigit first = true from digit)) (Or.inl rfl)
          (Or.inl rfl)
        exact ⟨1, Nat.succ_le_succ (Nat.zero_le _), number⟩
      · rcases others with _ | ⟨second, others⟩
        · exact absurd (show Source.isDigit 0 = true from digit) (by decide)
        · have number := isNumber_of_parts (Or.inr rfl) (digits_single (show Source.isDigit second = true from digit))
            (Or.inl rfl)
            (Or.inl rfl)
          refine ⟨2, Nat.succ_le_succ (Nat.succ_le_succ (Nat.zero_le _)), ?_⟩
          rw [show first = 45 from minus]
          exact number
  · intro sign digits fraction exponent isSign areDigits isFraction isExponent
    exact isNumber_of_parts isSign areDigits isFraction isExponent

def numberEnv : Env where
  ops := ⟨fun _ _ => false, fun _ _ => false, fun _ => 0, fun _ => 0, longestStrtod isNumber⟩
  alloc _ := true
  optimize := false

theorem roomy_numberEnv : numberEnv.Roomy := ⟨fun _ => rfl, rfl⟩

/-- The text `[-2, "a"]` in a buffer, in front of a digit. -/
theorem valid_text_array :
    Parses numberEnv (fun name => name.length) emptyStack (.fromBuffer [91, 45, 50, 44, 32, 34, 97, 34, 93] [49] {})
      (.array [.number 0xC000000000000000, .string [97]]) := by
  have negative : Value .plain wholeBits [45, 50] (.number (wholeBits [45, 50])) :=
    @Value.number _ _ [45] [50] [] [] (Or.inr rfl) ⟨digits_single rfl, fun zero => absurd zero (by decide)⟩ (Or.inl rfl)
      (Or.inl rfl) (by decide)
  have string : Value .plain wholeBits [34, 97, 34] (.string [97]) :=
    .string (@Chars.unit .plain [97] [] [] (Unescaped.ascii (by decide) (by decide) (by decide) (by decide)) .nil)
  have isText : IsText .plain wholeBits [91, 45, 50, 44, 32, 34, 97, 34, 93]
    (.array [.number (wholeBits [45, 50]), .string [97]]) := by
    refine ⟨[], _, [], (List.append_nil _).symm, noSpaces, noSpaces, ?_⟩
    refine @Value.array _ _ [⟨[], [45, 50], [], _⟩, ⟨[32], [34, 97, 34], [], _⟩] (List.cons_ne_nil _ _) ?_ ?_
    · intro piece inside
      rcases List.mem_cons.mp inside with rfl | later
      · exact ⟨noSpaces, noSpaces⟩
      · rw [List.mem_singleton.mp later]
        refine ⟨?_, noSpaces⟩
        intro byte isByte
        exact Or.inl (List.mem_singleton.mp isByte)
    · intro piece inside
      rcases List.mem_cons.mp inside with rfl | later
      · exact negative
      · rw [List.mem_singleton.mp later]
        exact string
  have fitting : Fitting (.array [.number (wholeBits [45, 50]), .string [97]]) := by
    refine .array ?_
    intro element inside
    rcases List.mem_cons.mp inside with rfl | later
    · exact .number _
    · rw [List.mem_singleton.mp later]
      exact .string _
  have parses := (@valid_text_iff numberEnv _ _ emptyStack _ _ readsNumbers_longest isText fitting roomy_numberEnv
    Nat.one_pos (by decide) fun name => name.length).2 [49]
  refine parses.mpr ?_
  rintro ⟨isUint, behind, number, -⟩
  cases number

/-- The text `1` in a buffer, in front of the digit `2`, is twelve. -/
theorem valid_text_runs_on :
    IsText .plain wholeBits [49] (.uint 1) ∧ Fitting (.uint 1) ∧
      ¬ Parses numberEnv (fun name => name.length) emptyStack (.fromBuffer [49] [50] {}) (.uint 1) := by
  refine ⟨⟨[], [49], [], rfl, noSpaces, noSpaces, .uint ⟨digits_single rfl, fun zero => absurd zero (by decide)⟩⟩,
    .uint (by decide), ?_⟩
  rintro ⟨left, after, tokens, loaded, -, -, denotes⟩
  cases loaded
  cases denotes with
  | uint type isUint same => exact absurd same (by decide)

end Jitson
end LibKit
