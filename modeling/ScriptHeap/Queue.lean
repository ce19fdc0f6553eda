/-!
# Message queues

A queue hands items from producers to consumers in the order of their arrival.  A consumer may look
and go on, or wait for an item; once the queue is canceled waiting is refused, although items are
still there for those who only look.

## What is here

* `Queue` — the items and whether the queue is canceled.
* `push`, `tryPop`, `cancel` — the operations that never wait.
* `popWait?` — waiting for an item, as one look at the queue: it may have to wait on.
* `pushToWaiting`, `cancelWaiting` — what a consumer that waits on an empty queue gets when another
  thread pushes or cancels.
-/

set_option autoImplicit false
namespace ScriptHeap

/-- Items in order of arrival, and whether waiting for them is over. -/
structure Queue (α : Type) where
  items : List α
  canceled : Bool
  deriving Repr

/-- What a consumer that waits gets. -/
inductive Waited (α : Type) where
  | item (a : α)
  | canceled
  deriving DecidableEq, Repr

/-- The message for a consumer whose waiting is refused. -/
def canceledMessage : String :=
  "Message queue canceled"

namespace Queue

variable {α : Type}

/-- A queue without items. -/
def empty : Queue α :=
  ⟨[], false⟩

instance : Inhabited (Queue α) :=
  ⟨empty⟩

/-- Number of items. -/
def size (q : Queue α) : Nat :=
  q.items.length

/-- Whether there are no items. -/
def isEmpty (q : Queue α) : Bool :=
  q.items.isEmpty

/-- An item put last. -/
def push (q : Queue α) (a : α) : Queue α :=
  { q with items := q.items ++ [a] }

/-- The first item, if there is one, taken out. -/
def tryPop (q : Queue α) : Option α × Queue α :=
  match q.items with
  | [] => (none, q)
  | a :: rest => (some a, { q with items := rest })

/-- Ends all waiting.  A second time nothing changes. -/
def cancel (q : Queue α) : Queue α :=
  { q with canceled := true }

/-- One look of a consumer that waits: refused, an item, or none when it has to wait on.  Refusal
comes before items. -/
def popWait? (q : Queue α) : Option (Waited α × Queue α) :=
  if q.canceled then some (.canceled, q)
  else
    match q.items with
    | [] => none
    | a :: rest => some (.item a, { q with items := rest })

/-- A push to an empty queue on which a consumer waits: what the consumer gets. -/
def pushToWaiting (q : Queue α) (a : α) : Waited α × Queue α :=
  match q.popWait? with
  | some (w, q) => (w, q.push a)
  | none => ((q.push a).popWait?).getD (.canceled, q)

/-- A cancellation of an empty queue on which a consumer waits. -/
def cancelWaiting (q : Queue α) : Waited α × Queue α :=
  (q.cancel.popWait?).getD (.canceled, q)

/-- The summary of a queue. -/
def summary (q : Queue α) : String :=
  "MessageQueue \x7b len: " ++ Nat.repr q.size ++ ", canceled: " ++
    (if q.canceled then "true" else "false") ++ " \x7d"

end Queue
end ScriptHeap
