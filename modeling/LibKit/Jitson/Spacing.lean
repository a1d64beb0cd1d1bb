import LibKit.Jitson.Writing

namespace LibKit
namespace Jitson

open Bytes

/-!
# The space of a string

Strings are loaded from a source, copied, reversed and pushed as identifiers
by functions that each reserve the tokens for them in another way.  On a stack
that can be expanded they use the same number of tokens, write in these tokens
only, and leave the string to be read from the first of them; on another stack
none of them does.
-/

namespace RawStack

/-! ## Room that cannot be had -/

section

variable {before stack after : RawStack} {grants : Nat → Option Memory}

theorem Bounded.refl (stack : RawStack) : Bounded stack stack := Or.inl rfl

theorem Bounded.trans (first : Bounded before stack) (second : Bounded stack after) : Bounded before after := by
  rcases second with same | small
  · rw [Bounded, same]
    exact first
  · exact Or.inr small

theorem put_bounded {idx : UInt32} {offset : Nat} {block : List UInt8} (put : stack.put idx offset block = .ok after) :
    Bounded stack after := by
  rcases put_ok put with ⟨_, _, _, _, rfl⟩
  exact Or.inl rfl

theorem reserve_bounded {idx space i first left : UInt32} {others : Nat → Option Memory}
    (reserved : reserve grants idx stack space i = .ok (first, after, left, others)) : Bounded stack after := by
  rw [reserve] at reserved
  by_cases full : space - 1 < i
  · rw [if_pos full] at reserved
    rcases bind_ok reserved with ⟨⟨index, grown⟩, expanded, same⟩
    cases same
    exact expand_bounded _ expanded
  · rw [if_neg full] at reserved
    cases reserved
    exact Bounded.refl stack

theorem copyRest_bounded {idx len space len' space' : UInt32} {utf8 : List UInt8}
    (copied : copyRest idx utf8 stack len space = .ok (after, len', space')) : Bounded stack after := by
  rw [copyRest] at copied
  by_cases several : UInt32.ofNat utf8.length - 1 > 0
  · simp only [if_pos several] at copied
    rcases bind_ok copied with ⟨longer, put, copied⟩
    rcases bind_ok copied with ⟨ready, putLen, same⟩
    cases same
    exact (put_bounded put).trans (put_bounded putLen)
  · simp only [if_neg several] at copied
    cases copied
    exact Bounded.refl _

theorem loadStringLoop_bounded {fuel : Nat} {idx len space : UInt32} {source : Source} {result : Option Source}
    (loaded : loadStringLoop grants idx fuel source stack len space = .ok (result, after)) : Bounded stack after := by
  induction fuel generalizing source stack len space grants with
  | zero => cases loaded
  | succ fuel ih =>
      rw [loadStringLoop] at loaded
      by_cases quote : source.peekChar = 34
      · rw [if_pos quote] at loaded
        rcases bind_ok loaded with ⟨ended, put, same⟩
        cases same
        exact put_bounded put
      · rw [if_neg quote] at loaded
        cases character : source.character with
        | none =>
            rw [character] at loaded
            cases loaded
            exact Or.inl rfl
        | some read =>
            rw [character] at loaded
            rcases bind_ok loaded with ⟨added, putFirst, loaded⟩
            rcases bind_ok loaded with ⟨measured, putLen, loaded⟩
            rcases bind_ok loaded with ⟨⟨first, room, left, others⟩, reserved, loaded⟩
            have soFar := ((put_bounded putFirst).trans (put_bounded putLen)).trans (reserve_bounded reserved)
            by_cases error : first = stackError
            · simp only [if_pos error] at loaded
              cases loaded
              exact soFar
            · simp only [if_neg error] at loaded
              rcases bind_ok loaded with ⟨⟨ready, len', space'⟩, copied, loaded⟩
              exact (soFar.trans (copyRest_bounded copied)).trans (ih loaded)

theorem loadString_bounded {source : Source} {result : Option Source}
    (loaded : loadString grants stack source = .ok (result, after)) : Bounded stack after := by
  simp only [loadString] at loaded
  by_cases other : source.skipSpace.peekChar ≠ 34
  · rw [if_pos other] at loaded
    cases loaded
    exact Bounded.refl stack
  · rw [if_neg other] at loaded
    rcases bind_ok loaded with ⟨⟨idx, grown⟩, expanded, loaded⟩
    have first := expand_bounded _ expanded
    by_cases error : idx = stackError
    · simp only [if_pos error] at loaded
      cases loaded
      exact first
    · simp only [if_neg error] at loaded
      rcases bind_ok loaded with ⟨typed, putType, loaded⟩
      rcases bind_ok loaded with ⟨measured, putLen, loaded⟩
      exact ((first.trans (put_bounded putType)).trans (put_bounded putLen)).trans (loadStringLoop_bounded loaded)

theorem pushMore_bounded {idx : UInt32} {text : List UInt8} {result : Bool}
    (pushed : pushMore grants idx text stack = .ok (result, after)) : Bounded stack after := by
  induction size : text.length using Nat.strongRecOn generalizing text stack grants with
  | ind length ih =>
      subst size
      rw [pushMore] at pushed
      rcases bind_ok pushed with ⟨⟨next, grown⟩, expanded, pushed⟩
      have first := expand_bounded _ expanded
      by_cases error : next = stackError
      · simp only [if_pos error] at pushed
        cases pushed
        exact first
      · simp only [if_neg error] at pushed
        by_cases last : text.length < 16
        · rw [if_pos last] at pushed
          rcases bind_ok pushed with ⟨ended, put, same⟩
          cases same
          exact first.trans (put_bounded put)
        · rw [if_neg last] at pushed
          rcases bind_ok pushed with ⟨longer, put, pushed⟩
          have shorter : (text.drop 16).length < text.length := by
            rw [List.length_drop]
            omega
          exact (first.trans (put_bounded put)).trans (ih _ shorter pushed rfl)

theorem pushString_bounded {string : List UInt8} {address : Nat} {type : UInt32} {result : Bool}
    (pushed : pushString grants stack string address type = .ok (result, after)) : Bounded stack after := by
  rw [pushString] at pushed
  rcases bind_ok pushed with ⟨⟨idx, grown⟩, expanded, pushed⟩
  have first := expand_bounded _ expanded
  by_cases error : idx = stackError
  · simp only [if_pos error] at pushed
    cases pushed
    exact first
  · simp only [if_neg error] at pushed
    rcases bind_ok pushed with ⟨typed, putType, pushed⟩
    have second := first.trans (put_bounded putType)
    by_cases isRef : (if type &&& flagOwn ≠ 0 then flagRef ||| type else type) &&& flagRef ≠ 0
    · rw [if_pos isRef] at pushed
      rcases bind_ok pushed with ⟨referred, putReference, pushed⟩
      rcases bind_ok pushed with ⟨measured, putLen, same⟩
      cases same
      exact (second.trans (put_bounded putReference)).trans (put_bounded putLen)
    · rw [if_neg isRef] at pushed
      cases strlen : CString.strlen string with
      | none =>
          rw [strlen] at pushed
          cases pushed
      | some len =>
          simp only [strlen] at pushed
          by_cases long : 2 ^ 32 ≤ len
          · rw [if_pos long] at pushed
            cases pushed
            exact second
          · rw [if_neg long] at pushed
            rcases bind_ok pushed with ⟨measured, putLen, pushed⟩
            have third := second.trans (put_bounded putLen)
            by_cases short : len < 8
            · rw [if_pos short] at pushed
              rcases bind_ok pushed with ⟨ended, put, same⟩
              cases same
              exact third.trans (put_bounded put)
            · rw [if_neg short] at pushed
              rcases bind_ok pushed with ⟨begun, put, pushed⟩
              exact (third.trans (put_bounded put)).trans (pushMore_bounded pushed)

theorem reverseLoop_bounded {idx : UInt32} {len i : Nat} {string : List UInt8}
    (reversed : reverseLoop idx len string i stack = .ok after) : Bounded stack after := by
  induction string generalizing i stack with
  | nil =>
      cases reversed
      exact Bounded.refl _
  | cons byte string ih =>
      rw [reverseLoop] at reversed
      rcases bind_ok reversed with ⟨written, put, rest⟩
      exact (put_bounded put).trans (ih rest)

theorem pushStringReversed_bounded {grant : Option Memory} {string : List UInt8} {len : Nat} {result : Bool}
    (pushed : pushStringReversed grant stack string len = .ok (result, after)) : Bounded stack after := by
  rw [pushStringReversed] at pushed
  cases length : (if len ≠ 0 then some len else CString.strlen string) with
  | none =>
      rw [length] at pushed
      cases pushed
  | some len =>
      rw [length] at pushed
      by_cases long : 2 ^ 32 ≤ len
      · simp only [if_pos long] at pushed
        cases pushed
        exact Bounded.refl stack
      · simp only [if_neg long] at pushed
        rcases bind_ok pushed with ⟨⟨idx, grown⟩, expanded, pushed⟩
        have first := expand_bounded _ expanded
        by_cases error : idx = stackError
        · simp only [if_pos error] at pushed
          cases pushed
          exact first
        · simp only [if_neg error] at pushed
          rcases bind_ok pushed with ⟨typed, putType, pushed⟩
          rcases bind_ok pushed with ⟨measured, putLen, pushed⟩
          have second := (first.trans (put_bounded putType)).trans (put_bounded putLen)
          by_cases beyond : string.length < len
          · rw [if_pos beyond] at pushed
            cases pushed
          · rw [if_neg beyond] at pushed
            rcases bind_ok pushed with ⟨reversed, loop, pushed⟩
            rcases bind_ok pushed with ⟨ended, put, same⟩
            cases same
            exact (second.trans (reverseLoop_bounded loop)).trans (put_bounded put)

theorem identPushStack_bounded {typeIdent : UInt32} {grant : Option Memory} {ident : List UInt8} {len : Nat}
    {result : Bool}
    (pushed : identPushStack typeIdent grant stack ident len = .ok (result, after)) : Bounded stack after := by
  rw [identPushStack] at pushed
  rcases bind_ok pushed with ⟨⟨idx, grown⟩, expanded, pushed⟩
  have first := expand_bounded _ expanded
  by_cases error : idx = stackError
  · simp only [if_pos error] at pushed
    cases pushed
    exact first
  · simp only [if_neg error] at pushed
    rcases bind_ok pushed with ⟨typed, putType, pushed⟩
    rcases bind_ok pushed with ⟨measured, putLen, pushed⟩
    have second := (first.trans (put_bounded putType)).trans (put_bounded putLen)
    by_cases beyond : ident.length < len
    · rw [if_pos beyond] at pushed
      cases pushed
    · rw [if_neg beyond] at pushed
      rcases bind_ok pushed with ⟨copied, putText, pushed⟩
      rcases bind_ok pushed with ⟨ended, put, same⟩
      cases same
      exact (second.trans (put_bounded putText)).trans (put_bounded put)

end

/-! ## Strings that are written -/

/-- A string was added to a stack: the tokens for it are in use, those before
are as they were, and its type, its length and its bytes with a NUL are read
from the first one. -/
structure Stored (before after : RawStack) (type : UInt32) (bytes : List UInt8) (memory : Memory) : Prop where
  block : after.jitsons = .live after.maximum.toNat memory
  count : after.count.toNat = before.count.toNat + tokensFor bytes.length
  room : after.count.toNat ≤ after.maximum.toNat
  unchanged : Unchanged before memory
  type : readWord memory (16 * before.count.toNat) 4 = type.toNat
  len : readWord memory (16 * before.count.toNat + 4) 4 = bytes.length
  text : Bytes.Holds memory (16 * before.count.toNat + 8) (bytes ++ [0])

/-- A writer adds a string, of which the size is computed as the tokens that
it takes, or it fails for want of memory with the tokens that there were. -/
def Writes {α : Type} (before : RawStack) (grants : Nat → Option Memory) (type : UInt32) (bytes : List UInt8)
    (sizeOf : Nat → Memory → Nat → Option UInt32) (failed done : α) (outcome : Except Stop (α × RawStack)) : Prop :=
  (∃ after, outcome = .ok (failed, after) ∧ after.count = before.count ∧ ∃ turn, grants turn = none) ∨
    ∃ after memory, outcome = .ok (done, after) ∧ Stored before after type bytes memory ∧
      sizeOf after.maximum.toNat memory before.count.toNat = some (UInt32.ofNat (tokensFor bytes.length))

section

variable {before after : RawStack} {bytes : List UInt8} {type : UInt32} {memory : Memory}

/-- What a block of tokens says is read from it. -/
theorem Holding.stored
    (holding : Holding before after (tokensFor bytes.length) (header type bytes.length ++ (bytes ++ [0])))
    (small : bytes.length < 2 ^ 32 - 32) : ∃ memory, Stored before after type bytes memory := by
  rcases holding.memory with ⟨memory, live, holds, unchanged⟩
  rcases holds_append.mp holds with ⟨words, text⟩
  rcases holds_append.mp words with ⟨first, second⟩
  rw [header_length] at text
  rw [encodeWord_length] at second
  refine ⟨memory, live, holding.count, holding.sound.count, unchanged, ?_, ?_, text⟩
  · exact readWord_of_holds first type.toNat_lt
  · exact readWord_of_holds second (Nat.lt_of_lt_of_le small (by decide))

/-- The size of a string that is no reference is that of its tokens; a key is
measured, so it has no NUL. -/
theorem Stored.stringSize (stored : Stored before after type bytes memory) (small : bytes.length < 2 ^ 32 - 32)
    (noRef : type &&& flagRef = 0) (key : type &&& flagKey ≠ 0 → 0 ∉ bytes) (referenceLen : Nat) :
    stringSize after.maximum.toNat memory referenceLen before.count.toNat =
      some (UInt32.ofNat (tokensFor bytes.length)) := by
  have typeIs : UInt32.ofNat (readWord memory (16 * before.count.toNat) 4) = type := by
    rw [stored.type, UInt32.ofNat_toNat]
  have length : stringLen after.maximum.toNat memory referenceLen before.count.toNat = some bytes.length := by
    simp only [stringLen, typeIs, stored.len, noRef, ne_eq, not_true_eq_false, if_false, and_false]
    by_cases isKey : type &&& flagKey = 0
    · rw [isKey]
      rfl
    · have live := stored.block
      have room := stored.room
      have count := stored.count
      have within : (bytes ++ [0]).length ≤ 16 * after.maximum.toNat - (16 * before.count.toNat + 8) := by
        rw [List.length_append, List.length_singleton]
        rw [tokensFor] at count
        omega
      rw [if_pos isKey]
      exact CString.strlen_of_prefix (key isKey) (prefix_read stored.text within)
  have sizes : 1 + UInt32.ofNat ((bytes.length + 16 - 8) / 16) = UInt32.ofNat (tokensFor bytes.length) := by
    rw [tokensFor, UInt32.ofNat_add]
    rfl
  rw [RawStack.stringSize, typeIs, noRef, length]
  exact congrArg some sizes

theorem Stored.identSize (stored : Stored before after type bytes memory) :
    identSize memory before.count.toNat = UInt32.ofNat (tokensFor bytes.length) := by
  rw [RawStack.identSize, stored.len, tokensFor]

end

section

variable {α : Type} {before : RawStack} {grants : Nat → Option Memory} {bytes : List UInt8} {type : UInt32}
  {sizeOf : Nat → Memory → Nat → Option UInt32} {failed done : α} {outcome : Except Stop (α × RawStack)}

theorem Ends.writes
    (ends : Ends before grants (tokensFor bytes.length) (header type bytes.length ++
      (bytes ++ [0])) failed done outcome)
    (small : bytes.length < 2 ^ 32 - 32)
    (sized : ∀ after memory, Stored before after type bytes memory →
      sizeOf after.maximum.toNat memory before.count.toNat = some (UInt32.ofNat (tokensFor bytes.length))) :
    Writes before grants type bytes sizeOf failed done outcome := by
  rcases ends with noMemory | ⟨after, result, holding⟩
  · exact Or.inl noMemory
  · rcases holding.stored small with ⟨memory, stored⟩
    exact Or.inr ⟨after, memory, result, stored, sized after memory stored⟩

/-- With all memory given, the tokens fit into the maximum of before, or into
one that could be rounded up. -/
theorem Writes.room (writes : Writes before grants type bytes sizeOf failed done outcome)
    (given : ∀ turn, grants turn ≠ none)
    (bounded : ∀ result after, outcome = .ok (result, after) → Bounded before after) :
    before.count.toNat + tokensFor bytes.length ≤ before.maximum.toNat ∨
      before.count.toNat + tokensFor bytes.length ≤ 2 ^ 32 - 4096 := by
  rcases writes with ⟨_, _, _, turn, refused⟩ | ⟨after, memory, result, stored, _⟩
  · exact absurd refused (given turn)
  · have count := stored.count
    have room := stored.room
    rcases bounded done after result with same | small
    · rw [same] at room
      exact Or.inl (by omega)
    · exact Or.inr (by omega)

theorem Writes.ok (writes : Writes before grants type bytes sizeOf failed done outcome) (stop : Stop) :
    outcome ≠ .error stop := by
  rintro rfl
  rcases writes with ⟨_, result, _⟩ | ⟨_, _, result, _⟩
  · cases result
  · cases result

end

/-! ## All writers -/

section

variable {before : RawStack} {bytes : List UInt8}

/-- The answers of an allocator that has memory. -/
def granted : Nat → Option Memory := fun _ => some fun _ => 0

theorem granted_ne_none (turn : Nat) : granted turn ≠ none := fun refused => by cases refused

/-- A string between spaces and whatever follows is read, however it is
escaped. -/
theorem readString_quoted {source : Source} {spaces text rest : List UInt8}
    (next : source.next = spaces ++ quoted text ++ rest) (areSpaces : Dialect.parsed.Spaces spaces)
    (chars : Chars .parsed text bytes) : readString source = some (bytes, source.seek rest) := by
  have quote : quoted text ++ rest = 34 :: (text ++ 34 :: rest) := by
    rw [quoted, List.cons_append, List.append_assoc]
    rfl
  have skipped : source.skipSpace = source.seek (34 :: (text ++ 34 :: rest)) := by
    have dropped : (spaces ++ 34 :: (text ++ 34 :: rest)).dropWhile Source.isSpace = 34 :: (text ++ 34 :: rest) := by
      rw [List.dropWhile_append_of_pos areSpaces]
      rfl
    rw [Source.skipSpace, next, List.append_assoc, quote, dropped]
    rfl
  have read := readChars_seek source chars rest [] (show text.length < (text ++ 34 :: rest).length + 1 by
    rw [List.length_append]
    omega)
  simp only [readString, skipped]
  exact read

theorem loadString_writes (sound : Sound before) (small : bytes.length < 2 ^ 32 - 32) {source behind : Source}
    (reads : readString source = some (bytes, behind)) :
    (∀ grants referenceLen, Writes before grants typeString bytes (fun size memory idx =>
      stringSize size memory referenceLen idx)
      none (some behind) (loadString grants before source)) ↔ CanGrowSingly before (tokensFor bytes.length) := by
  constructor
  · intro writes
    have here := writes granted 0
    rcases here.room granted_ne_none fun result after => loadString_bounded with already | below
    · exact Or.inl already
    · refine Or.inr ⟨fun zero => here.ok .undefined ?_, below⟩
      simp only [readString] at reads
      by_cases quote : source.skipSpace.peekChar = 34
      · rw [loadString]
        simp only [if_neg (not_not.mpr quote)]
        rw [expand_zero (granted 0) zero sound (show 0 < (1 : UInt32).toNat from Nat.one_pos) (by decide)]
        rfl
      · rw [if_pos quote] at reads
        cases reads
  · intro canGrow grants referenceLen
    refine (loadString_ends sound reads small canGrow).writes small fun after memory stored => ?_
    exact stored.stringSize small (by decide) (fun isKey => absurd isKey (by decide)) referenceLen

theorem pushString_writes (sound : Sound before) (small : bytes.length < 2 ^ 32 - 32) {string : List UInt8}
    {address : Nat}
    {type : UInt32} (clean : 0 ∉ bytes) (terminated : bytes ++ [0] <+: string) (isCopy : type = 0 ∨ type = flagKey) :
    (∀ grants referenceLen, Writes before grants (typeString ||| type) bytes
      (fun size memory idx => stringSize size memory referenceLen idx) false true
      (pushString grants before string address type)) ↔ CanGrowSingly before (tokensFor bytes.length) := by
  constructor
  · intro writes
    have here := writes granted 0
    rcases here.room granted_ne_none fun result after => pushString_bounded with already | below
    · exact Or.inl already
    · refine Or.inr ⟨fun zero => here.ok .undefined ?_, below⟩
      rw [pushString, expand_zero (granted 0) zero sound (show 0 < (1 : UInt32).toNat from Nat.one_pos) (by decide)]
      rfl
  · intro canGrow grants referenceLen
    have noRef : type &&& flagRef = 0 := by rcases isCopy with rfl | rfl <;> decide
    have noOwn : type &&& flagOwn = 0 := by rcases isCopy with rfl | rfl <;> decide
    have noRef' : (typeString ||| type) &&& flagRef = 0 := by rcases isCopy with rfl | rfl <;> decide
    refine (pushString_ends sound clean terminated noRef noOwn small canGrow).writes small fun after memory stored => ?_
    exact stored.stringSize small noRef' (fun _ => clean) referenceLen

theorem pushStringReversed_writes (sound : Sound before) (small : bytes.length < 2 ^ 32 - 32) {string : List UInt8}
    {len : Nat} (passes : Passes string len bytes) :
    (∀ grants referenceLen, Writes before grants (typeString ||| flagReversed) bytes.reverse
      (fun size memory idx => stringSize size memory referenceLen idx) false true
      (pushStringReversed (grants 0) before string len)) ↔ CanGrow before (tokensFor bytes.length) := by
  constructor
  · intro writes
    have here := writes granted 0
    have room := here.room granted_ne_none fun result after => pushStringReversed_bounded
    rw [List.length_reverse] at room
    rcases room with already | below
    · exact Or.inl already
    · refine Or.inr ⟨below, fun zero => Nat.le_of_not_lt fun few => here.ok .undefined ?_⟩
      have moreIs := reversed_tokens small
      have notLong : ¬ 2 ^ 32 ≤ bytes.length := by omega
      rw [pushStringReversed, passes.taken.1]
      simp only [if_neg notLong]
      rw [expand_zero (granted 0) zero sound (moreIs.symm ▸ tokensFor_pos _) (by omega)]
      rfl
  · intro canGrow grants referenceLen
    have ends := @pushStringReversed_ends before grants sound string bytes len passes small canGrow
    rw [← List.length_reverse] at ends small
    refine ends.writes small fun after memory stored => ?_
    exact stored.stringSize small (by decide) (fun isKey => absurd isKey (by decide)) referenceLen

theorem identPushStack_writes (sound : Sound before) (small : bytes.length < 2 ^ 32 - 32) {typeIdent : UInt32}
    {ident : List UInt8} (isPrefix : bytes <+: ident) :
    (∀ grants, Writes before grants typeIdent bytes (fun _ memory idx => some (identSize memory idx)) false true
      (identPushStack typeIdent (grants 0) before ident bytes.length)) ↔ CanGrow before (tokensFor bytes.length) := by
  constructor
  · intro writes
    have here := writes granted
    rcases here.room granted_ne_none fun result after => identPushStack_bounded with already | below
    · exact Or.inl already
    · refine Or.inr ⟨below, fun zero => Nat.le_of_not_lt fun few => here.ok .undefined ?_⟩
      have moreIs := ident_tokens small
      rw [identPushStack, expand_zero (granted 0) zero sound (moreIs.symm ▸ tokensFor_pos _) (by omega)]
      rfl
  · intro canGrow grants
    refine (identPushStack_ends sound isPrefix small canGrow).writes small fun after memory stored => ?_
    exact congrArg some stored.identSize

/-- Each of the writers adds a string of any bytes, escaped in any way where it
is loaded, in the tokens that are computed for it, exactly where the stack can
be expanded by that many, at once or one by one. -/
theorem writers_agree (sound : Sound before) (small : bytes.length < 2 ^ 32 - 32) :
    (∀ source spaces text rest, source.next = spaces ++ quoted text ++ rest → Dialect.parsed.Spaces spaces →
      Chars .parsed text bytes →
        ((∀ grants referenceLen, Writes before grants typeString bytes
          (fun size memory idx => stringSize size memory referenceLen idx) none (some (source.seek rest))
          (loadString grants before source)) ↔ CanGrowSingly before (tokensFor bytes.length))) ∧
    (∀ string address type, 0 ∉ bytes → bytes ++ [0] <+: string → (type = 0 ∨ type = flagKey) →
      ((∀ grants referenceLen, Writes before grants (typeString ||| type) bytes
        (fun size memory idx => stringSize size memory referenceLen idx) false true
        (pushString grants before string address type)) ↔ CanGrowSingly before (tokensFor bytes.length))) ∧
    (∀ string len, Passes string len bytes →
      ((∀ grants referenceLen, Writes before grants (typeString ||| flagReversed) bytes.reverse
        (fun size memory idx => stringSize size memory referenceLen idx) false true
        (pushStringReversed (grants 0) before string len)) ↔ CanGrow before (tokensFor bytes.length))) ∧
    (∀ typeIdent ident, bytes <+: ident →
      ((∀ grants, Writes before grants typeIdent bytes (fun _ memory idx => some (identSize memory idx)) false true
        (identPushStack typeIdent (grants 0) before ident bytes.length)) ↔ CanGrow before
        (tokensFor bytes.length))) := by
  refine ⟨?_, ?_, ?_, ?_⟩
  · intro source spaces text rest next areSpaces chars
    exact loadString_writes sound small (readString_quoted next areSpaces chars)
  · intro string address type clean terminated isCopy
    exact pushString_writes sound small clean terminated isCopy
  · intro string len passes
    exact pushStringReversed_writes sound small passes
  · intro typeIdent ident isPrefix
    exact identPushStack_writes sound small isPrefix

/-- Eight bytes, of which the first is escaped, take two tokens of a stack
that has one left. -/
theorem writers_agree_eight :
    (∀ grants referenceLen, Writes ⟨3, 2, 0, .live 3 fun _ => 0⟩ grants typeString [9, 98, 99, 100, 101, 102, 103, 104]
      (fun size memory idx => stringSize size memory referenceLen idx) none
      (some (({ next := [44], beyond := [] } : Source)))
      (loadString grants ⟨3, 2, 0, .live 3 fun _ => 0⟩
        { next := [32, 34, 92, 116, 98, 99, 100, 101, 102, 103, 104, 34, 44], beyond := [] })) ∧
    (∀ grants referenceLen, Writes ⟨3, 2, 0, .live 3 fun _ => 0⟩ grants (typeString ||| flagKey)
      [9, 98, 99, 100, 101, 102, 103, 104] (fun size memory idx => stringSize size memory referenceLen idx) false true
      (pushString grants ⟨3, 2, 0, .live 3 fun _ => 0⟩ [9, 98, 99, 100, 101, 102, 103, 104, 0, 7] 0 flagKey)) := by
  have sound : Sound ⟨3, 2, 0, .live 3 fun _ => 0⟩ := ⟨by decide, by decide, Or.inr ⟨fun _ => 0, rfl⟩⟩
  have small : [9, 98, 99, 100, 101, 102, 103, (104 : UInt8)].length < 2 ^ 32 - 32 := by decide
  have clean : (0 : UInt8) ∉ [9, 98, 99, 100, 101, 102, 103, 104] := by decide
  have chars : Chars .parsed [92, 116, 98, 99, 100, 101, 102, 103, 104] [9, 98, 99, 100, 101, 102, 103, 104] := by
    have plain : ∀ {text bytes : List UInt8} {byte : UInt8}, byte ≠ 0 → byte ≠ 34 → byte ≠ 92 →
      Chars .parsed text bytes →
        Chars .parsed (byte :: text) (byte :: bytes) := by
      intro text bytes byte zero quote backslash others
      exact @Chars.unit .parsed [byte] text bytes ⟨byte, rfl, zero, quote, backslash⟩ others
    refine Chars.escape Escape.tab ?_
    iterate 7 refine plain (by decide) (by decide) (by decide) ?_
    exact Chars.nil
  have spaces : Dialect.parsed.Spaces [32] := by
    intro byte member
    rw [List.mem_singleton.mp member]
    rfl
  have agree := @writers_agree _ [9, 98, 99, 100, 101, 102, 103, 104] sound small
  constructor
  · exact (agree.1 { next := [32, 34, 92, 116, 98, 99, 100, 101, 102, 103, 104, 34, 44], beyond := [] } [32]
      [92, 116, 98, 99, 100, 101, 102, 103, 104] [44] rfl spaces chars).mpr (by decide)
  · exact (agree.2.1 _ 0 flagKey clean ⟨[7], rfl⟩ (Or.inr rfl)).mpr (by decide)

/-- No writer adds a string to a stack that was made for no tokens. -/
theorem writers_stop :
    ¬ Writes (make (some fun _ => 0) 0).2 granted typeString [97] (fun size memory idx =>
      stringSize size memory 0 idx) none
        (some (({ next := [], beyond := [] } : Source)))
        (loadString granted (make (some fun _ => 0) 0).2 { next := [34, 97, 34], beyond := [] }) ∧
      ¬ Writes (make (some fun _ => 0) 0).2 granted typeString [97] (fun size memory idx =>
        stringSize size memory 0 idx)
        false true (pushString granted (make (some fun _ => 0) 0).2 [97, 0] 0 0) ∧
      ¬ Writes (make (some fun _ => 0) 0).2 granted (typeString ||| flagReversed) [97]
        (fun size memory idx => stringSize size memory 0 idx) false true
        (pushStringReversed (granted 0) (make (some fun _ => 0) 0).2 [97, 0] 1) ∧
      ¬ Writes (make (some fun _ => 0) 0).2 granted 9 [97] (fun _ memory idx => some (identSize memory idx)) false true
        (identPushStack 9 (granted 0) (make (some fun _ => 0) 0).2 [97] 1) :=
  ⟨fun writes => writes.ok .undefined rfl, fun writes => writes.ok .undefined rfl,
    fun writes => writes.ok .undefined rfl, fun writes => writes.ok .undefined rfl⟩

end

end RawStack

end Jitson
end LibKit
