import LibKit.Jitson.Memory

namespace LibKit
namespace Jitson

/-!
# Concatenations

`sxe_jitson_stack_push_concat_array` pushes an array that refers to two others,
or owns them, instead of to their elements.
-/

namespace Stack

/-- `sxe_jitson_stack_push_concat_array`; its type is `IS_REF`, or `IS_OWN`
where the concatenation owns the arrays.  The second of them lies in the token
behind the head. -/
def pushConcatArray (env : Env) (stack : Stack) (array1 array2 : Pointer) (isOwn : Bool) : Except Failure Stack :=
  let len := lenOf array1 + lenOf array2
  if len ≥ 2 ^ 32 then .error ⟨.invalid, stack⟩
  else do
    let idx := stack.count
    let stack ← expand env stack 2
    .ok (stack.write idx [.head { kind := .array, isRef := true, isOwn := isOwn } len (.concat array1 array2), .more])

end Stack

open Stack

section

variable {env : Env}

theorem pushConcatArray_keeps (stack : Stack) (array1 array2 : Pointer) (isOwn : Bool) :
    Keeps id stack.jitsons stack (stack.pushConcatArray env array1 array2 isOwn) := by
  simp only [pushConcatArray]
  split
  · exact Keeps.of_error fun _ => Above.refl stack
  · refine Keeps.bind (expand_keeps stack 2) ?_
    intro after above
    exact Keeps.of_ok (above.write (Nat.le_refl _) _)

theorem pushConcatArray_stores {stack : Stack} (memory : stack.InMemory) (array1 array2 : Pointer) (isOwn : Bool) :
    Stores id (stack.pushConcatArray env array1 array2 isOwn) := by
  simp only [pushConcatArray]
  split
  · exact .of_error memory
  · refine Ensures.bind ((expand_ensures stack 2).mono (fun after holds => holds.1) ?_) ?_
    · intro failure same
      rw [same]
      exact memory
    · intro grown _ grew
      exact .of_ok (Stack.inMemory_of grew)

end

end Jitson
end LibKit
