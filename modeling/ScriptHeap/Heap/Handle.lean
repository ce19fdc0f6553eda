import ScriptHeap.Heap.Basic

/-!
# Handles and blocks

Making handles, sharing blocks between them and writing through them.  A write never reaches a
shared block: the handle first moves to a block of its own.

An operation says for each value and block it is given whether it takes over the caller's hold; if
it does, it gives the hold up when it faults.

## What is here

* `place` — a block for a value.  Variables without a value share one block, the *blank* one.
* `bindNew`, `newUninit`, `duplicate` — new handles: for a value, for no value, for a copy.
* `own` — the block of a handle, made its own before a write.
* `setValue`, `assign`, `rebind`, `increment` — writes to a handle.
-/

set_option autoImplicit false
namespace ScriptHeap.Heap

variable {Obj : Type} [HostObject Obj]

/-! ## Blocks -/

/-- A new block for a value, whose holds it takes over. -/
def allocate (v : Value Obj) : HeapM Obj BlockId := do
  let name := PoolName.ofKind v.kind
  if (← get).pools.get name |>.isExhausted then
    let capacity := ((← get).pools.get name).capacity
    letGo v.holds
    throw (.exhausted name capacity)
  modifyGet fun h ↦
    let (pointer, pools) := h.pools.update name fun p ↦ p.fill v
    (⟨name, pointer⟩, { h with pools := pools })

/-- A hold of the blank block, which the heap makes on first use and then keeps. -/
def blankBlock : HeapM Obj BlockId := do
  match (← get).blank with
  | some b =>
    hold [.block b]
    return b
  | none =>
    let b ← allocate .uninit
    hold [.block b]
    modify fun h ↦ { h with blank := some b }
    return b

/-- A block for a value, whose holds it takes over; the blank one when there is no value. -/
def place (v : Value Obj) : HeapM Obj BlockId :=
  if v.isUninit then blankBlock else allocate v

/-- Whether a block has a single holder. -/
def isSole (b : BlockId) : HeapM Obj Bool := do
  return (← get).holders? b == some 1

/-- Puts a value, whose holds it takes over, into a block with a single holder.  The holds of the
value that was there are left to the caller. -/
def writeBlock (b : BlockId) (v : Value Obj) : HeapM Obj Unit :=
  modify fun h ↦ { h with pools := (h.pools.update b.pool fun p ↦ ((), p.write b.pointer v)).2 }

/-! ## New handles -/

/-- The heap with one more handle, held once, that has taken over a hold of its block. -/
def addHandle (h : Heap Obj) (b : BlockId) (k : Kind) : HandleId × Heap Obj :=
  let i : HandleId := ⟨h.handles.next⟩
  let number := h.registry.map (·.nextNumber)
  (i, { h with
    handles := h.handles.insert ⟨1, b, number⟩
    registry := h.registry.map (·.enter k) })

/-- A new handle for a block, a hold of which it takes over. -/
def newHandle (b : BlockId) : HeapM Obj HandleId := do
  let v ← readBlock b
  modifyGet fun h ↦ h.addHandle b v.kind

/-- A new handle for a value, whose holds it takes over. -/
def bindNew (v : Value Obj) : HeapM Obj HandleId := do
  newHandle (← place v)

/-- A new handle without a value. -/
def newUninit : HeapM Obj HandleId := do
  newHandle (← blankBlock)

/-- A new handle that shares the block of another until one of them writes. -/
def duplicate (i : HandleId) : HeapM Obj HandleId := do
  let b ← blockOf i
  hold [.block b]
  newHandle b

/-- A hold of the block a handle has now: later writes to the handle do not reach it. -/
def snapshot (i : HandleId) : HeapM Obj BlockId := do
  let b ← blockOf i
  hold [.block b]
  return b

/-! ## Writing -/

/-- Makes a handle point to a block, a hold of which it takes over, and gives up its old block. -/
def rebind (i : HandleId) (b : BlockId) : HeapM Obj Unit := do
  let old ← blockOf i
  modify fun h ↦ { h with handles := h.handles.modify i.index fun c ↦ { c with block := b } }
  letGo [.block old]

/-- The block of a handle, moved before to a block of its own if it was shared. -/
def own (i : HandleId) : HeapM Obj BlockId := do
  let b ← blockOf i
  if ← isSole b then
    return b
  let v ← copy (← readBlock b)
  let fresh ← allocate v
  rebind i fresh
  return fresh

/-- Puts a value, whose holds it takes over, into a handle.  The block is kept when nobody shares it
and the kind stays the same; otherwise the value gets another one. -/
def setValue (i : HandleId) (v : Value Obj) : HeapM Obj Unit := do
  let b ← blockOf i
  let old ← readBlock b
  if (← isSole b) && old.kind == v.kind then
    writeBlock b v
    letGo old.holds
  else
    rebind i (← place v)

/-- Puts a copy of a value into a handle. -/
def assign (i : HandleId) (v : Value Obj) : HeapM Obj Unit := do
  setValue i (← copy v)

/-- Puts a value, whose holds it takes over, into the block of a handle, whatever its kind. -/
def overwrite (i : HandleId) (v : Value Obj) : HeapM Obj Unit := do
  let b ← holding v.holds (own i)
  let old ← readBlock b
  writeBlock b v
  letGo old.holds

/-- `++` on a handle; only values of a numeric kind are touched. -/
def increment (i : HandleId) : HeapM Obj Unit := do
  if (← read i).kind.isNumeric then
    let b ← own i
    writeBlock b (← readBlock b).increment

end ScriptHeap.Heap
