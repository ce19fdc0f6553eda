import ScriptHeap.Heap.Handle

/-!
# Element lists

Containers share an element list until one of them changes it or hands out an element to be written
through; that one first gets a list of its own, with a new handle for every element.

## What is here

* `newList`, `duplicateAll` — new lists and new handles for the elements of a list.
* `ownList` — a list of its own in exchange for a shared one.
* `ensureApart` — no variable is read while it is being written.
* `ownContainer` — block and list of a handle, both made its own.
* `plant` — a datum brought into the heap: every element bound to a new handle.
-/

set_option autoImplicit false
namespace ScriptHeap.Heap

variable {Obj : Type} [HostObject Obj]

/-- A new list, held once, that takes over the holds of its elements. -/
def newList (is : List HandleId) : HeapM Obj ListId :=
  modifyGet fun h ↦ (⟨h.lists.next⟩, { h with lists := h.lists.insert ⟨1, is⟩ })

/-- Changes the elements in a list; the holds of those that leave are left to the caller. -/
def setElements (l : ListId) (is : List HandleId) : HeapM Obj Unit :=
  modify fun h ↦ { h with lists := h.lists.modify l.index fun c ↦ { c with elements := is } }

/-- A new handle for each of the given ones, sharing their blocks. -/
def duplicateAll (is : List HandleId) : HeapM Obj (List HandleId) :=
  is.mapM duplicate

/-- A list with the same contents and a single holder, in exchange for a hold of the given one. -/
def ownList (l : ListId) : HeapM Obj ListId := do
  let c ← look (·.list? l)
  if c.holders = 1 then
    return l
  let fresh ← newList (← duplicateAll c.elements)
  letGo [.list l]
  return fresh

/-- Elements are about to be read while the variable with a block is being written.  It must not be
among them. -/
def ensureApart (b : BlockId) (is : List HandleId) : HeapM Obj Unit := do
  let h ← get
  if is.any fun i ↦ h.blockOf? i == some b then
    throw .busy

/-- A list of its own for the container in a block that is being written, in exchange for a hold of
the given one.  The elements are only read if the list is shared. -/
def ownListFor (b : BlockId) (l : ListId) : HeapM Obj ListId := do
  let c ← look (·.list? l)
  if c.holders ≠ 1 then
    ensureApart b c.elements
  ownList l

/-- The list of the container in a block with a single holder, made its own; none for a scalar. -/
def ownListIn (b : BlockId) : HeapM Obj (Option ListId) := do
  let v ← readBlock b
  match v.list? with
  | none => return none
  | some l =>
    let fresh ← ownListFor b l
    writeBlock b (v.withList fresh)
    return some fresh

/-- The list of the container in a handle, after block and list were made its own. -/
def ownContainer (i : HandleId) : HeapM Obj (Option ListId) := do
  ownListIn (← own i)

/-- The reference to an element, for the caller to hold. -/
def share (i : HandleId) : HeapM Obj HandleId := do
  hold [.handle i]
  return i

/-! ## Bringing data into the heap -/

/-- New handles for values, whose holds it takes over; the handles follow those already made, which
it takes over too. -/
def bindAllAfter : List HandleId → List (Value Obj) → HeapM Obj (List HandleId)
  | made, [] => return made.reverse
  | made, v :: vs => do
    let i ← tryCatch (bindNew v) fun fault ↦ do
      letGo (handleHolds made)
      letGo (vs.flatMap Value.holds)
      throw fault
    bindAllAfter (i :: made) vs

/-- New handles for values, whose holds it takes over. -/
def bindAll (vs : List (Value Obj)) : HeapM Obj (List HandleId) :=
  bindAllAfter [] vs

/-- A new array of values, whose holds it takes over. -/
def newArray (vs : List (Value Obj)) : HeapM Obj (Value Obj) := do
  return .array (← newList (← bindAll vs))

/-- A new struct of values, whose holds it takes over. -/
def newStruct (names : List String) (vs : List (Value Obj)) : HeapM Obj (Value Obj) := do
  return .struct names (← newList (← bindAll vs))

mutual

/-- A datum as a value of the heap.  First all elements are brought in, then all are bound. -/
def plant : Datum Obj → HeapM Obj (Value Obj)
  | .scalar s => return .scalar s
  | .array ds => do newArray (← plantAll ds)
  | .struct ms ds => do
    let vs ← plantMembers ms
    newStruct (ms.map (·.1)) (vs ++ (← holding (vs.flatMap Value.holds) (plantAll ds)))
termination_by structural d => d

/-- Data brought into the heap one after another. -/
def plantAll : List (Datum Obj) → HeapM Obj (List (Value Obj))
  | [] => return []
  | d :: ds => do
    let v ← plant d
    return v :: (← holding v.holds (plantAll ds))
termination_by structural ds => ds

/-- The data of members brought into the heap one after another. -/
def plantMembers : List (String × Datum Obj) → HeapM Obj (List (Value Obj))
  | [] => return []
  | (_, d) :: ms => do
    let v ← plant d
    return v :: (← holding v.holds (plantMembers ms))
termination_by structural ms => ms

end

end ScriptHeap.Heap
