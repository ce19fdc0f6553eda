import ScriptHeap.MemberNames
import ScriptHeap.Pool
import ScriptHeap.Table
import ScriptHeap.Value.Basic

/-!
# The heap

Variables are *handles*.  A handle points to a *block* that stores its value; several handles may
share a block as long as nobody writes.  A container in a block names an *element list*, whose
elements are again handles; several containers may share a list as long as nobody changes it.

Everything counts its holders.  A *hold* is one counted use of a block, a handle or a list.  Giving
up the last hold of something removes it and gives up the holds it had itself.

## What is here

* `Heap` — the blocks in seven pools, the handles, the lists, the one block that all variables
  without a value share, the interned member names and the register of live handles.
* `Hold`, `Heap.retain`, `Heap.release` — holds and what happens when they come and go.
* `Heap.valueAt?`, `Heap.valueOf?`, `Heap.elements?` — what blocks, handles and lists show.
* `Fault`, `HeapM` — operations on the heap.  An operation that faults leaves the heap as it stands
  at that moment; it gives up whatever it held on its own account.
-/

set_option autoImplicit false
namespace ScriptHeap

/-! ## Names of things in the heap -/

/-- The name of a handle. -/
structure HandleId where
  index : Nat
  deriving DecidableEq, Repr, Inhabited

/-- The pools, one for each group of kinds. -/
inductive PoolName where
  | uninit
  | integer
  | double
  | string
  | array
  | error
  | application
  deriving DecidableEq, Repr, Inhabited

/-- The name of a pool in messages. -/
def PoolName.text : PoolName → String
  | uninit => "uninit"
  | integer => "integer"
  | double => "float"
  | string => "string"
  | array => "array"
  | error => "error"
  | application => "application"

/-- The pool for values of a kind.  Structs share that of arrays; host values share one. -/
def PoolName.ofKind : Kind → PoolName
  | .uninit => uninit
  | .integer => integer
  | .double => double
  | .string => string
  | .array | .struct => array
  | .error => error
  | _ => application

/-- The name of a block: its pool and the pointer there. -/
structure BlockId where
  pool : PoolName
  pointer : Pool.Pointer
  deriving DecidableEq, Repr, Inhabited

/-- One counted use of something in the heap. -/
inductive Hold where
  | block (b : BlockId)
  | handle (i : HandleId)
  | list (l : ListId)
  deriving DecidableEq, Repr

/-! ## Cells -/

/-- A variable.  The number identifies it in the register of live handles. -/
structure Handle where
  holders : Nat
  block : BlockId
  number : Option Nat
  deriving Repr

/-- The elements of one or more containers. -/
structure ElementList where
  holders : Nat
  elements : List HandleId
  deriving Repr

/-- A pool for each name. -/
structure Pools (α : Type) where
  uninit : Pool α
  integer : Pool α
  double : Pool α
  string : Pool α
  array : Pool α
  error : Pool α
  application : Pool α
  deriving Repr

namespace Pools

variable {α : Type}

/-- Pools without blocks. -/
def empty (limits : PoolLimits) : Pools α :=
  ⟨.empty limits, .empty limits, .empty limits, .empty limits, .empty limits, .empty limits,
    .empty limits⟩

/-- The pool of a name. -/
def get (ps : Pools α) : PoolName → Pool α
  | .uninit => ps.uninit
  | .integer => ps.integer
  | .double => ps.double
  | .string => ps.string
  | .array => ps.array
  | .error => ps.error
  | .application => ps.application

/-- The pools after an operation on one of them, with its result. -/
def update {β : Type} (ps : Pools α) (name : PoolName) (f : Pool α → β × Pool α) : β × Pools α :=
  match name with
  | .uninit => let (b, p) := f ps.uninit; (b, { ps with uninit := p })
  | .integer => let (b, p) := f ps.integer; (b, { ps with integer := p })
  | .double => let (b, p) := f ps.double; (b, { ps with double := p })
  | .string => let (b, p) := f ps.string; (b, { ps with string := p })
  | .array => let (b, p) := f ps.array; (b, { ps with array := p })
  | .error => let (b, p) := f ps.error; (b, { ps with error := p })
  | .application => let (b, p) := f ps.application; (b, { ps with application := p })

theorem get_update {β : Type} (ps : Pools α) (name other : PoolName) (f : Pool α → β × Pool α) :
    (ps.update name f).2.get other =
      if other = name then (f (ps.get name)).2 else ps.get other := by
  cases name <;> cases other <;> rfl

@[simp] theorem fst_update {β : Type} (ps : Pools α) (name : PoolName) (f : Pool α → β × Pool α) :
    (ps.update name f).1 = (f (ps.get name)).1 := by
  cases name <;> rfl

end Pools

/-- The register of live handles: the kind each was created with, by number, and two counters. -/
structure Registry where
  kinds : Table Kind
  live : Nat
  constructions : Nat
  deriving Repr

namespace Registry

/-- The register before the first handle. -/
def empty : Registry :=
  ⟨.empty, 0, 0⟩

/-- The number the next handle gets; the first is one. -/
def nextNumber (r : Registry) : Nat :=
  r.kinds.next + 1

/-- The register with one more live handle. -/
def enter (r : Registry) (k : Kind) : Registry :=
  { kinds := r.kinds.insert k, live := r.live + 1, constructions := r.constructions + 1 }

/-- The register without a handle. -/
def leave (r : Registry) (number : Nat) : Registry :=
  match r.kinds.get? (number - 1) with
  | some _ => { r with kinds := r.kinds.erase (number - 1), live := r.live - 1 }
  | none => r

/-- The numbers of the live handles, ascending, with the kinds they were created with. -/
def entries (r : Registry) : List (Nat × Kind) :=
  r.kinds.toList.map fun (i, k) ↦ (i + 1, k)

end Registry

/-- How a heap is set up. -/
structure HeapConfig where
  instrumented : Bool
  limits : PoolLimits
  deriving DecidableEq, Repr

/-- The set-up of a heap that is given none. -/
def HeapConfig.standard : HeapConfig :=
  ⟨false, .standard⟩

/-- Everything that values share. -/
structure Heap (Obj : Type) where
  pools : Pools (Value Obj)
  handles : Table Handle
  lists : Table ElementList
  /-- The block shared by the variables without a value; made on first use and then kept. -/
  blank : Option BlockId
  members : MemberNames
  registry : Option Registry
  deriving Repr

variable {Obj : Type}

namespace Heap

/-- A heap in which nothing has happened. -/
def empty (config : HeapConfig) : Heap Obj :=
  { pools := .empty config.limits
    handles := .empty
    lists := .empty
    blank := none
    members := .empty
    registry := if config.instrumented then some .empty else none }

instance : Inhabited (Heap Obj) :=
  ⟨empty .standard⟩

/-! ## What things show -/

/-- How many hold a block, and its value. -/
def find? (h : Heap Obj) (b : BlockId) : Option (Nat × Value Obj) :=
  (h.pools.get b.pool).find? b.pointer

/-- The value in a block. -/
def valueAt? (h : Heap Obj) (b : BlockId) : Option (Value Obj) :=
  (h.find? b).map (·.2)

/-- How many hold a block. -/
def holders? (h : Heap Obj) (b : BlockId) : Option Nat :=
  (h.find? b).map (·.1)

/-- The cell of a handle. -/
def handle? (h : Heap Obj) (i : HandleId) : Option Handle :=
  h.handles.get? i.index

/-- The block of a handle. -/
def blockOf? (h : Heap Obj) (i : HandleId) : Option BlockId :=
  (h.handle? i).map (·.block)

/-- The value of a handle. -/
def valueOf? (h : Heap Obj) (i : HandleId) : Option (Value Obj) :=
  (h.blockOf? i).bind h.valueAt?

/-- The cell of an element list. -/
def list? (h : Heap Obj) (l : ListId) : Option ElementList :=
  h.lists.get? l.index

/-- The elements in a list. -/
def elements? (h : Heap Obj) (l : ListId) : Option (List HandleId) :=
  (h.list? l).map (·.elements)

/-- A bound on how deep values can nest: each level passes a handle of its own. -/
def depth (h : Heap Obj) : Nat :=
  h.handles.next + 1

end Heap

/-! ## Holds -/

/-- The holds a stored value has. -/
def Value.holds : Value Obj → List Hold
  | .scalar _ => []
  | .array l | .struct _ l => [.list l]

/-- The holds of a list of references. -/
def handleHolds (is : List HandleId) : List Hold :=
  is.map .handle

namespace Heap

/-- One more hold. -/
def retainOne (h : Heap Obj) : Hold → Heap Obj
  | .block b => { h with pools := (h.pools.update b.pool fun p ↦ ((), p.retain b.pointer)).2 }
  | .handle i =>
    { h with handles := h.handles.modify i.index fun c ↦ { c with holders := c.holders + 1 } }
  | .list l =>
    { h with lists := h.lists.modify l.index fun c ↦ { c with holders := c.holders + 1 } }

/-- More holds. -/
def retain (h : Heap Obj) (xs : List Hold) : Heap Obj :=
  xs.foldl retainOne h

/-- One hold less, and the holds of what went with it. -/
def dropOne (h : Heap Obj) : Hold → List Hold × Heap Obj
  | .block b =>
    let (content, pools) := h.pools.update b.pool fun p ↦ p.release b.pointer
    ((content.map Value.holds).getD [], { h with pools := pools })
  | .handle i =>
    match h.handle? i with
    | some c =>
      if c.holders ≤ 1 then
        ([.block c.block],
          { h with
            handles := h.handles.erase i.index
            registry :=
              match h.registry, c.number with
              | some r, some n => some (r.leave n)
              | r, _ => r })
      else
        ([], { h with
          handles := h.handles.modify i.index fun c ↦ { c with holders := c.holders - 1 } })
    | none => ([], h)
  | .list l =>
    match h.list? l with
    | some c =>
      if c.holders ≤ 1 then
        (handleHolds c.elements, { h with lists := h.lists.erase l.index })
      else
        ([], { h with
          lists := h.lists.modify l.index fun c ↦ { c with holders := c.holders - 1 } })
    | none => ([], h)

/-- One hold less, and then the holds of what went with it, down to a depth. -/
def releaseWithin : Nat → Heap Obj → Hold → Heap Obj
  | 0, h, _ => h
  | depth + 1, h, x =>
    let (xs, h) := h.dropOne x
    xs.foldl (releaseWithin depth) h

/-- Holds given up, with all that goes with them.  Each step down empties a cell, and between two
handles on the way there is one block and one list. -/
def release (h : Heap Obj) (xs : List Hold) : Heap Obj :=
  xs.foldl (fun h x ↦ releaseWithin (3 * h.depth) h x) h

end Heap

/-! ## Operations -/

/-- Why an operation on the heap could not go on. -/
inductive Fault where
  /-- A reference was followed that refers to nothing. -/
  | nullReference
  /-- A capped pool had no block left. -/
  | exhausted (pool : PoolName) (capacity : Nat)
  /-- An element of a struct was to be taken out at a place that none of its names stands for. -/
  | unnamedPlace (place names : Nat)
  /-- A variable was to be read while it was being written, which never comes to an end. -/
  | busy
  /-- A name was followed whose thing is gone; no operation leaves such a name behind. -/
  | dangling
  deriving DecidableEq, Repr

/-- The message of a fault. -/
def Fault.message : Fault → String
  | .nullReference => "dereferenced a null reference"
  | .exhausted pool capacity => Pool.exhaustedMessage pool.text capacity
  | .unnamedPlace place names =>
    "removal index (is " ++ Nat.repr place ++ ") should be < len (is " ++ Nat.repr names ++ ")"
  | .busy => "read a variable while it was being written"
  | .dangling => "followed a name whose thing is gone"

/-- An operation on the heap: it gives a result or faults, and leaves a heap in both cases. -/
abbrev HeapM (Obj : Type) := EStateM Fault (Heap Obj)

namespace Heap

/-- Takes more holds. -/
def hold (xs : List Hold) : HeapM Obj Unit :=
  modify fun h ↦ h.retain xs

/-- Gives up holds. -/
def letGo (xs : List Hold) : HeapM Obj Unit :=
  modify fun h ↦ h.release xs

/-- Runs an operation while something is held; a fault gives the holds up. -/
@[inline] def holding {α : Type} (xs : List Hold) (act : HeapM Obj α) : HeapM Obj α :=
  tryCatch act fun fault ↦ do
    letGo xs
    throw fault

/-- What a look into the heap finds; finding nothing is a fault. -/
def look {α : Type} (f : Heap Obj → Option α) : HeapM Obj α := do
  match f (← get) with
  | some a => return a
  | none => throw .dangling

/-- The value in a block. -/
def readBlock (b : BlockId) : HeapM Obj (Value Obj) :=
  look (·.valueAt? b)

/-- The block of a handle. -/
def blockOf (i : HandleId) : HeapM Obj BlockId :=
  look (·.blockOf? i)

/-- The value of a handle. -/
def read (i : HandleId) : HeapM Obj (Value Obj) :=
  look (·.valueOf? i)

/-- The elements in a list. -/
def elements (l : ListId) : HeapM Obj (List HandleId) :=
  look (·.elements? l)

/-- A copy of a value: a container is copied by one more hold of its list. -/
def copy (v : Value Obj) : HeapM Obj (Value Obj) := do
  hold v.holds
  return v

end Heap
end ScriptHeap
