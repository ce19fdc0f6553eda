import ScriptHeap.Queue

/-!
# Sessions with a queue

Steps on a message queue.  A step that waits is only taken when the wait ends: waiting by itself
needs an item or a canceled queue, waiting for another thread needs an empty queue.
-/

set_option autoImplicit false
namespace ScriptHeap

/-- The steps on a queue. -/
inductive QueueStep (α : Type) where
  | push (a : α)
  | cancel
  | tryPop
  | popWait
  /-- Waits while another thread pushes. -/
  | pushToWaiting (a : α)
  /-- Waits while another thread cancels. -/
  | cancelWaiting
  deriving DecidableEq, Repr

/-- What the steps answer. -/
inductive QueueAnswer (α : Type) where
  | done
  | item (a : α)
  | empty
  | canceled
  | wouldBlock
  | notEmpty
  deriving DecidableEq, Repr

namespace Queue

variable {α : Type}

/-- What a consumer got, as an answer. -/
def answerOf : Waited α → QueueAnswer α
  | .item a => .item a
  | .canceled => .canceled

/-- A queue after a step, and the answer. -/
def step (q : Queue α) : QueueStep α → QueueAnswer α × Queue α
  | .push a => (.done, q.push a)
  | .cancel => (.done, q.cancel)
  | .tryPop =>
    match q.tryPop with
    | (some a, q) => (.item a, q)
    | (none, q) => (.empty, q)
  | .popWait =>
    match q.popWait? with
    | some (w, q) => (answerOf w, q)
    | none => (.wouldBlock, q)
  | .pushToWaiting a =>
    if q.isEmpty then
      let (w, q) := q.pushToWaiting a
      (answerOf w, q)
    else (.notEmpty, q)
  | .cancelWaiting =>
    if q.isEmpty then
      let (w, q) := q.cancelWaiting
      (answerOf w, q)
    else (.notEmpty, q)

end Queue
end ScriptHeap
