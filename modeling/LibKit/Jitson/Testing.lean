import LibKit.Jitson.Leaving
import LibKit.Jitson.Surroundings

namespace LibKit
namespace Jitson

open Stack
open LibKit.Visits (HasCourse)

/-!
# The operator `INTERSECT_TEST`

The operator goes through two arrays as `INTERSECT` does, but stops at the first
element of both.  It has no stack, and looks elements up without dereferencing
them first.
-/

/-- `intersect_check_element`, which ends a loop with nothing wrong. -/
def intersectCheckElement (_ : Unit) (_ : Pointer) : Except (Option Fault) Unit := .error none

/-- The result of a loop that was, or was not, ended. -/
def tested : Except (Option Fault) Unit → Except Fault Bool
  | .ok _ => .ok false
  | .error none => .ok true
  | .error (some fault) => .error fault

/-- What a test returns where its loop ends early. -/
def testFails : Cause → Unit → Option Fault
  | .incomparable, _ => some .invalid
  | .missing, _ => some .undefined

def testing (run : Visits.Run Pointer Cause) : Except Fault Bool :=
    tested (run Unit (Option Fault) testFails intersectCheckElement ())

/-- `sxe_jitson_intersect_test_ordered_array` -/
def intersectTestOrderedArray (env : Env) (sum : List UInt8 → Nat) (left right : Pointer) : Except Fault Bool :=
  if getType left ≠ .array then .error .invalid
  else testing (visitOrdered env (fun element => inArray env (inDepth env sum (weight right)) element right) left right)

/-- `sxe_jitson_intersect_test_array` -/
def intersectTestArray (env : Env) (sum : List UInt8 → Nat) (left right : Pointer) : Except Fault Bool :=
  if (typeOf right).isOrd then intersectTestOrderedArray env sum left right
  else if (typeOf left).isOrd then intersectTestOrderedArray env sum right left
  else if getType left ≠ .array then .error .invalid
  else testing (visitPlain env left right (lenOf left) 0)

/-- `sxe_jitson_intersect_test_default` -/
def intersectTestDefault (env : Env) (sum : List UInt8 → Nat) (stack : Stack) (left right : Pointer) :
    Except Fault Bool := do
  let (result, _) ← intersect env sum stack left right
  .ok (lenOf result ≠ 0)

/-- `sxe_jitson_intersect_test` -/
def intersectTest (env : Env) (sum : List UInt8 → Nat) (stack : Stack) (left right : Pointer) : Except Fault Bool :=
  let left := dereference left
  let right := dereference right
  if (typeOf right).kind = .array then intersectTestArray env sum left right
    else intersectTestDefault env sum stack left right

/-! ## One loop -/

/-- A test says of a call that succeeds whether its result is empty, and fails
only if it fails. -/
structure Foretells {Failed : Type} (test : Except Fault Bool) (call : Except Failed (Pointer × Stack)) : Prop where
  answers : ∀ result after, call = .ok (result, after) → test = .ok (decide (lenOf result ≠ 0))
  failed : ∀ fault, test = .error fault → ∃ failure, call = .error failure

theorem foretells_error {Failed : Type} (test : Except Fault Bool) (failure : Failed) :
    Foretells test (.error failure) :=
  ⟨fun result after wrong => (by cases wrong), fun fault _ => ⟨failure, rfl⟩⟩

theorem testing_eq {run : Visits.Run Pointer Cause} {visits : List Pointer} {ending : Option Cause}
    (same : ∀ (State Failed : Type) (fails : Cause → State → Failed) (visit : State → Pointer → Except Failed State)
    (state : State),
      run State Failed fails visit state = Visits.follow fails visit visits ending state) :
    testing run = if visits = [] then tested (Visits.finish testFails ending ()) else .ok true := by
  rw [testing, same]
  unfold intersectCheckElement
  rw [Visits.follow_stopping]
  split
  · rfl
  · rfl

/-- The array that is filled by a loop has as many elements as were visited. -/
theorem filled_len {env : Env} {visits : List Pointer} {frame : Frame} {maximum last borrow : Nat} {filled : Stack}
    (done : Visits.follow Leaving.leaves (Leaving.jitsonStackAdd env) visits none
    (frame.stack maximum last borrow) = .ok filled) :
    frame.Filled borrow visits.length filled := by
  have counts := @Visits.follow_counts Pointer Cause Stack Failure Leaving.leaves (Leaving.jitsonStackAdd env)
    (fun count stack => frame.Filled borrow count stack) ?_ visits 0 _ _ (frame.filled_of maximum last borrow) done
  · rwa [Nat.zero_add] at counts
  · rintro count stack element after ⟨frame', maximum, last, rfl, base, collection, len⟩ added
    exact ((Leaving.jitsonStackAdd_fills element).ok after added).trans base collection len

/-- A loop that stops at the first visit tells whether one that collects finds
something. -/
theorem foretells_intersecting (env : Env) (stack : Stack) {run : Visits.Run Pointer Cause} (course : HasCourse run) :
    Foretells (testing run) (Leaving.intersecting env stack run) := by
  rcases course with ⟨visits, ending, same⟩
  rw [testing_eq same]
  unfold Leaving.intersecting
  rcases Leaving.getStackOpenArray_cases env stack with ⟨-, fault, notOpened⟩ | ⟨-, maximum, opened⟩
  · rw [notOpened]
    exact foretells_error _ _
  · rw [opened, ok_bind, same]
    constructor
    · intro result after succeeded
      rcases bind_ok (onFailure_cases succeeded) with ⟨filled, done, closing⟩
      cases ending with
      | some cause => exact absurd done Visits.follow_some_ne
      | none =>
          rcases filled_len done with ⟨frame, maximum', last, rfl, base, collection, len⟩
          rcases bind_ok closing with ⟨closed, isClosed, taking⟩
          rcases bind_ok taking with ⟨⟨jitson, back⟩, isTaken, giving⟩
          rcases bind_ok giving with ⟨given, -, isResult⟩
          cases isResult
          rw [show stack.count = frame.base.length from congrArg List.length base.symm] at isClosed
          rw [(Frame.closed_taken collection isClosed (Leaving.returning_ok isTaken)).2, len,
            show (Frame.opening env stack.jitsons { kind := .array } 0).len = 0 from rfl, Nat.zero_add]
          cases visits with
          | nil => rfl
          | cons first others => rfl
    · intro fault failed
      cases visits with
      | cons first others => cases failed
      | nil =>
          cases ending with
          | none => cases failed
          | some cause => exact ⟨_, rfl⟩

/-! ## All operands -/

theorem Foretells.of_same {test : Except Fault Bool} {call : Except Failure (Pointer × Stack)}
    {call' : Except Fault (Pointer × Stack)}
    (foretells : Foretells test call) (same : Leaving.Same call call') : Foretells test call' := by
  cases call with
  | error failure =>
      cases call' with
      | error fault => exact foretells_error test fault
      | ok value => cases same
  | ok value =>
      cases call' with
      | error fault => cases same
      | ok value' =>
          cases same
          refine ⟨fun result after done => ?_, fun fault failed => ?_⟩
          · cases done
            exact foretells.answers result after rfl
          · rcases foretells.failed fault failed with ⟨failure, wrong⟩
            cases wrong

section

variable {env : Env} {sum : List UInt8 → Nat} {lefts rights : List Json} {left right : Pointer}

theorem visitOrdered_lookups (holds : PointsTo sum (.array lefts) left) (direct : (typeOf left).kind ≠ .reference)
    (isArray : (typeOf right).kind = .array) :
    visitOrdered env (fun element => inArray env (inDepth env sum (weight right)) element right) left right =
      visitOrdered env (fun element => jitsonIn env sum element right) left right := by
  apply visitOrdered_congr
  intro i element found
  rcases holds.element_of direct found with ⟨value, -, holds'⟩
  have array : dereference right = right := dereference_direct (by rw [isArray]; decide)
  rw [jitsonIn, inDepth]
  simp only [array, isArray, if_true]
  exact (holds'.inArray_dereference (weight right) right).symm

theorem foretells_ordered (stack : Stack) (holds : PointsTo sum (.array lefts) left)
    (direct : (typeOf left).kind ≠ .reference)
    (isArray : (typeOf right).kind = .array) :
    Foretells (intersectTestOrderedArray env sum left right)
      (Leaving.intersectOrderedArray env sum stack left right) := by
  unfold intersectTestOrderedArray Leaving.intersectOrderedArray
  split
  · exact foretells_error _ _
  · rw [visitOrdered_lookups holds direct isArray]
    exact foretells_intersecting env stack (visitOrdered_course env _ left right)

/-- `INTERSECT_TEST` agrees with `INTERSECT`. -/
theorem intersectTest_agrees (env : Env) (stack : Stack) (holdsLeft : PointsTo sum (.array lefts) left)
    (holdsRight : PointsTo sum (.array rights) right) :
    (∀ result after, intersect env sum stack left right = .ok (result, after) →
        intersectTest env sum stack left right = .ok (decide (lenOf result ≠ 0))) ∧
      ∀ fault, intersectTest env sum stack left right = .error fault → ∃ fault',
        intersect env sum stack left right = .error fault' := by
  have foretells : Foretells (intersectTest env sum stack left right) (Leaving.intersect env sum stack left right) := by
    have kindLeft : (typeOf (dereference left)).kind = .array := holdsLeft.getType
    have kindRight : (typeOf (dereference right)).kind = .array := holdsRight.getType
    have directLeft : (typeOf (dereference left)).kind ≠ .reference := by
      rw [kindLeft]
      decide
    have directRight : (typeOf (dereference right)).kind ≠ .reference := by
      rw [kindRight]
      decide
    unfold intersectTest Leaving.intersect
    dsimp only
    rw [if_pos kindRight, if_pos kindRight]
    unfold intersectTestArray Leaving.intersectArray
    split
    · exact foretells_ordered stack holdsLeft.dereferenced directLeft kindRight
    · split
      · exact foretells_ordered stack holdsRight.dereferenced directRight kindLeft
      · split
        · exact foretells_error _ _
        · exact foretells_intersecting env stack (visitPlain_course env _ _ _ _)
  have foretells' := foretells.of_same (Leaving.same_intersect env sum stack left right)
  exact ⟨foretells'.answers, foretells'.failed⟩

end

def plainArray (values : List Nat) : Pointer := .head { kind := .array } values.length
    (.integer (values.length + 1)) :: values.map makeUint

theorem plainArray_pointsTo (sum : List UInt8 → Nat) {values : List Nat} (short : values.length + 1 < 2 ^ 32) :
    PointsTo sum (.array (values.map Json.uint)) (plainArray values) := by
  have flat : (values.map fun value => [makeUint value]).flatten = values.map makeUint := by
    induction values with
    | nil => rfl
    | cons value values ih =>
      rw [List.map_cons, List.flatten_cons, ih (by simp only [List.length_cons] at short; omega)]; rfl
  have body : ArrayBody (values.map fun value => [makeUint value]) { kind := .array }
    (.integer (values.length + 1)) := by
    have plain := @ArrayBody.plain (values.map fun value => [makeUint value]) { kind := .array } rfl rfl
    rwa [flat, List.length_map] at plain
  have represents := @Represents.array sum { kind := .array } (values.map Json.uint) (values.map fun value =>
    [makeUint value])
    (.integer (values.length + 1)) rfl rfl (by simp) ?_ body (by rwa [flat, List.length_map])
  · rw [flat, List.length_map] at represents
    exact ⟨_, [], (List.append_nil _).symm, represents⟩
  · intro pair inside
    rw [List.zip_map', List.mem_map] at inside
    rcases inside with ⟨value, -, rfl⟩
    exact .uint rfl rfl

/-- The arrays `[1, 2]` and `[2]`. -/
theorem intersectTest_agrees_two :
    (∀ result after, intersect numberEnv (fun _ => 0) emptyStack (plainArray [1, 2]) (plainArray [2]) =
      .ok (result, after) →
        intersectTest numberEnv (fun _ => 0) emptyStack (plainArray [1, 2]) (plainArray [2]) =
          .ok (decide (lenOf result ≠ 0))) ∧
      ∀ fault, intersectTest numberEnv (fun _ => 0) emptyStack (plainArray [1, 2]) (plainArray [2]) = .error fault →
        ∃ fault', intersect numberEnv (fun _ => 0) emptyStack (plainArray [1, 2]) (plainArray [2]) = .error fault' :=
  intersectTest_agrees numberEnv emptyStack (plainArray_pointsTo _ (by decide)) (plainArray_pointsTo _ (by decide))

/-- The number 2 is in both. -/
example : intersectTest numberEnv (fun _ => 0) emptyStack (plainArray [1, 2]) (plainArray [2]) = .ok true := by rfl

end Jitson
end LibKit
