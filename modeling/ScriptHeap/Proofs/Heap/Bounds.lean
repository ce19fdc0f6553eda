import ScriptHeap.Heap.Contents
import ScriptHeap.Host.Sample

/-!
# Bounds of counted loops

A counted loop asks at every turn whether its variable is above a whole number or has reached it.
It has tests of its own for that, which know numbers only.  The first says the same as script order.
The second says the same as script order and script equality together, except for an application
object that finds itself equal to the bound: the object is not asked.

## What is here

* `Value.aboveBound_eq`, `Value.reachesBound_scalar` — the tests against order and equality.
* `Heap.equal_integer` — what script equality with a whole number comes to.
* `Heap.bound_tests`, the payoff.
-/

set_option autoImplicit false
namespace ScriptHeap

variable {Obj : Type}

/-- **Being above a bound** is script order, for values of all kinds. -/
theorem Value.aboveBound_eq (v : Value Obj) (bound : Int32) :
    v.aboveBound bound = (Value.integer bound).less v := by
  cases v with
  | scalar s => cases s <;> rfl
  | array l => rfl
  | struct names l => rfl

theorem Int32.decide_le_eq (a b : Int32) : decide (a ≤ b) = (decide (a < b) || b == a) := by
  rw [Bool.eq_iff_iff, Bool.or_eq_true, decide_eq_true_iff, decide_eq_true_iff, beq_iff_eq,
    Int32.le_iff_lt_or_eq, eq_comm (a := b)]

/-- Having reached a bound is being above it or equal to it, as far as scalars can tell. -/
theorem Value.reachesBound_scalar (s : Scalar Obj) (bound : Int32) :
    (Value.scalar s).reachesBound bound =
      ((Scalar.integer bound).less s || s.equal (.integer bound)) := by
  cases s with
  | integer n => exact Int32.decide_le_eq bound n
  | double x => exact congrArg (_ || ·) (Double.equal_comm _ x)
  | _ => rfl

namespace Heap

variable [HostObject Obj]

/-- A value is equal to a whole number if it is an object that says so, or a scalar that is. -/
theorem equal_integer (h : Heap Obj) (v : Value Obj) (n : Int32) :
    h.equal v (.integer n) =
      match v with
      | .object o => HostObject.isEqual o.object (.integer n)
      | .scalar s => s.equal (.integer n)
      | _ => false := by
  rw [equal]
  cases h.depth <;> rcases v with (_ | _ | _ | _ | _ | _ | _) | _ | _ <;> rfl

/-- **The tests of a counted loop.**  Whether a value is above a bound is script order.  Whether it
has reached the bound is script order or script equality for every value but an application object
that finds itself equal to the bound. -/
theorem bound_tests (h : Heap Obj) (v : Value Obj) (bound : Int32) :
    v.aboveBound bound = (Value.integer bound).less v ∧
      (v.reachesBound bound = h.atLeast v (.integer bound) ↔
        ∀ o, v = .object o → HostObject.isEqual o.object (.integer bound) = false) := by
  refine ⟨v.aboveBound_eq bound, ?_⟩
  rw [atLeast, equal_integer]
  rcases v with s | l | ⟨names, l⟩
  · cases s with
    | object o =>
      -- Neither number nor text: only the object's own opinion is left.
      refine ⟨fun hsame o' ho ↦ ?_, fun hown ↦ (hown o rfl).symm⟩
      cases ho
      exact hsame.symm
    | _ => exact iff_of_true (Value.reachesBound_scalar _ bound) nofun
  · exact iff_of_true rfl nofun
  · exact iff_of_true rfl nofun

/-- A counter that stands at a bound is at least the bound, though the test of a loop says that it
has not reached it. -/
theorem bound_not_asked :
    ¬ (Value.object ⟨⟨0, "Connection"⟩, SampleObject.counter 3 .hostObject false⟩).reachesBound 3 =
      (Heap.empty .standard).atLeast
        (.object ⟨⟨0, "Connection"⟩, SampleObject.counter 3 .hostObject false⟩) (.integer 3) := by
  decide

end Heap
end ScriptHeap
