import ScriptHeap.Heap.Contents
import ScriptHeap.Heap.Elements
import ScriptHeap.Operator

/-!
# Operators on stored values

The operators of `ScriptHeap.Operator`, with the rules for arrays: `+` after an array joins another
array to it or adds one element.  An error among the operands is the result, the left one first.

## What is here

* `operate` — the result of an operator, for the caller to hold; the operands stay as they are.
* `operateInPlace` — the operator applied to a variable.  An array grows in place, so references to
  its elements stay attached; all else is computed and then stored.
-/

set_option autoImplicit false
namespace ScriptHeap.Heap

variable {Obj : Type} [HostObject Obj]

/-- A copy of an array with more elements, whose holds it takes over. -/
def extended (l : ListId) (added : List HandleId) : HeapM Obj (Value Obj) := do
  hold [.list l]
  let fresh ← ownList l
  setElements fresh ((← elements fresh) ++ added)
  return .array fresh

/-- New handles for what `+` adds to an array: copies of the elements of another array, or one copy
of any other value. -/
def addition (v : Value Obj) : HeapM Obj (List HandleId) := do
  match v with
  | .array l => duplicateAll (← elements l)
  | v => return [← bindNew (← copy v)]

/-- The rule for two values that are no errors and not joined to an array. -/
def simpleResult (h : Heap Obj) (op : Operator) (a b : Value Obj) : Value Obj :=
  match a, b with
  | .scalar s, .scalar t => ((Scalar.operate? op s t).map .scalar).getD (.undefinedPair op a b)
  | .string s, b => if op = .add then .string (s ++ h.text b) else .undefinedPair op a b
  | a, b => .undefinedPair op a b

/-- The result of an operator on two values. -/
def operate (op : Operator) (a b : Value Obj) : HeapM Obj (Value Obj) := do
  match a, b with
  | .error text, _ => return .error text
  | _, .error text => return .error text
  | .array l, b =>
    if op = .add then extended l (← addition b) else return .undefinedPair op a b
  | a, b => return (← get).simpleResult op a b

/-- An operator applied to a variable. -/
def operateInPlace (op : Operator) (i : HandleId) (v : Value Obj) : HeapM Obj Unit := do
  if op = .add && !v.isError && (← read i).kind == .array then
    let added ← addition v
    let b ← holding (handleHolds added) (own i)
    match ← readBlock b with
    | .array _ =>
      match ← holding (handleHolds added) (ownListIn b) with
      | some l => setElements l ((← elements l) ++ added)
      | none => letGo (handleHolds added)
    | _ => letGo (handleHolds added)
  else
    setValue i (← operate op (← read i) v)

end ScriptHeap.Heap
