import ScriptHeap.Heap.Member

/-!
# Cursors

A cursor walks over the elements that a container had when the cursor was made.  The elements
themselves are shared with the container, so writes to them are seen on both sides; elements put in
or taken out later do not move the cursor.
-/

set_option autoImplicit false
namespace ScriptHeap

/-- A walk over elements: what was there at the start, the loop variable if there is one, and how
many elements have been passed. -/
structure Cursor where
  elements : List HandleId
  names : List String
  bound : Option HandleId
  passed : Nat
  deriving Repr

namespace Cursor

/-- Number of elements still to come. -/
def remaining (c : Cursor) : Nat :=
  c.elements.length - c.passed

/-- The holds of a cursor. -/
def holds (c : Cursor) : List Hold :=
  handleHolds (c.elements ++ c.bound.toList)

/-- What the loop variable gets for the element at a place: a member name or a position. -/
def key {Obj : Type} (c : Cursor) (place : Nat) : Value Obj :=
  match c.names[place]? with
  | some name => .string name
  | none => .integer (countNumber (place + 1))

end Cursor

namespace Heap

variable {Obj : Type} [HostObject Obj]

/-- A cursor over the container in a handle; none for what has no elements.  Block and element list
become the handle's own, so that the cursor and the handle share their elements. -/
def newCursor? (i : HandleId) (bound : Option HandleId) : HeapM Obj (Option Cursor) := do
  let kind := (← read i).kind
  if kind = .array ∨ kind = .struct then
    let b ← own i
    match ← ownListIn b with
    | none => return none
    | some l =>
      let cursor : Cursor := ⟨← elements l, (← readBlock b).names, bound, 0⟩
      hold cursor.holds
      return some cursor
  else return none

/-- The next element, for the caller to hold, and the cursor moved past it; the loop variable is set
before.  At the end nothing happens. -/
def advance (c : Cursor) : HeapM Obj (Option HandleId × Cursor) := do
  match c.elements[c.passed]? with
  | none => return (none, c)
  | some e =>
    let e ← share e
    match c.bound with
    | some i => holding [.handle e] (setValue i (c.key c.passed))
    | none => pure ()
    return (some e, { c with passed := c.passed + 1 })

end Heap
end ScriptHeap
