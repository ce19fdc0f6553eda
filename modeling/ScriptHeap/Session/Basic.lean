import ScriptHeap.Heap.Call
import ScriptHeap.Heap.Cursor
import ScriptHeap.Session.Registers

/-!
# Sessions

A session works on one heap through named registers: references, values, blocks and cursors.  What
a register holds is held in the heap; putting something into a register gives up what was there
before, after the new thing has been made.

## What is here

* `Session`, `SessionM` — the heap with the registers, and operations on them.  An operation that
  faults leaves a session with which others can go on.
* `deref`, `keepReference`, `keepValue`, `keepBlock`, `keepCursor` — reading and filling registers.
* `Operand`, `withOperand`, `operandCopy` — the values a step works with.  A step either looks at
  the value itself, which is then held until its end, or takes a copy.
* `Session.holds` — what all the registers hold.
-/

set_option autoImplicit false
namespace ScriptHeap

variable {Obj : Type}

/-- What a value register holds: a value of its own, or the block that a variable had at some
moment. -/
inductive Stored (Obj : Type) where
  | own (v : Value Obj)
  | snapshot (b : BlockId)
  deriving Repr

/-- The holds of a value register. -/
def Stored.holds : Stored Obj → List Hold
  | own v => v.holds
  | snapshot b => [.block b]

/-- A heap and named registers.  A reference register may hold a reference to nothing. -/
structure Session (Obj : Type) where
  heap : Heap Obj
  references : Registers (Option HandleId)
  values : Registers (Stored Obj)
  blocks : Registers BlockId
  cursors : Registers Cursor
  deriving Repr

/-- An operation in a session. -/
abbrev SessionM (Obj : Type) := EStateM Fault (Session Obj)

/-- The holds of a reference, none when it refers to nothing. -/
def referenceHolds (r : Option HandleId) : List Hold :=
  handleHolds r.toList

namespace Session

/-- A session in which nothing has happened. -/
def start (config : HeapConfig) : Session Obj :=
  ⟨.empty config, .empty, .empty, .empty, .empty⟩

/-- What all registers hold. -/
def holds (s : Session Obj) : List Hold :=
  s.references.contents.flatMap referenceHolds ++ s.values.contents.flatMap Stored.holds ++
    s.blocks.contents.map .block ++ s.cursors.contents.flatMap Cursor.holds

/-- An operation on the heap of a session. -/
def onHeap {α : Type} (act : HeapM Obj α) : SessionM Obj α := fun s ↦
  match s with
  | ⟨heap, references, values, blocks, cursors⟩ =>
    match act heap with
    | .ok a heap => .ok a ⟨heap, references, values, blocks, cursors⟩
    | .error fault heap => .error fault ⟨heap, references, values, blocks, cursors⟩

/-- Gives up holds. -/
def letGo (xs : List Hold) : SessionM Obj Unit :=
  onHeap (Heap.letGo xs)

/-- Runs an operation while something is held; a fault gives the holds up. -/
def holding {α : Type} (xs : List Hold) (act : SessionM Obj α) : SessionM Obj α :=
  tryCatch act fun fault ↦ do
    letGo xs
    throw fault

/-- Runs an operation while something is held, and then gives it up. -/
def during {α : Type} (xs : List Hold) (act : SessionM Obj α) : SessionM Obj α := do
  let a ← holding xs act
  letGo xs
  return a

/-! ## Filling registers -/

/-- Puts a reference, whose hold it takes over, into a register. -/
def keepReference (name : String) (r : Option HandleId) : SessionM Obj Unit := do
  let old := (← get).references.get? name
  modify fun s ↦ { s with references := s.references.insert name r }
  letGo ((old.map referenceHolds).getD [])

/-- Puts something into a value register, whose holds it takes over. -/
def keepValue (name : String) (x : Stored Obj) : SessionM Obj Unit := do
  let old := (← get).values.get? name
  modify fun s ↦ { s with values := s.values.insert name x }
  letGo ((old.map Stored.holds).getD [])

/-- Puts a block, whose hold it takes over, into a register. -/
def keepBlock (name : String) (b : BlockId) : SessionM Obj Unit := do
  let old := (← get).blocks.get? name
  modify fun s ↦ { s with blocks := s.blocks.insert name b }
  letGo (old.toList.map .block)

/-- Puts a cursor, whose holds it takes over, into a register. -/
def keepCursor (name : String) (c : Cursor) : SessionM Obj Unit := do
  let old := (← get).cursors.get? name
  modify fun s ↦ { s with cursors := s.cursors.insert name c }
  letGo ((old.map Cursor.holds).getD [])

/-- Empties all registers. -/
def dropAll : SessionM Obj Unit := do
  let xs := (← get).holds
  modify fun s ↦
    { s with references := .empty, values := .empty, blocks := .empty, cursors := .empty }
  letGo xs

/-! ## Reading registers -/

/-- What a reference register refers to; one that is not there refers to nothing. -/
def reference (name : String) : SessionM Obj (Option HandleId) := do
  return ((← get).references.get? name).join

/-- The handle that a reference register refers to. -/
def deref (name : String) : SessionM Obj HandleId := do
  match ← reference name with
  | some i => return i
  | none => throw .nullReference

/-- A reference register with a hold of what it refers to, for the caller. -/
def shareReference (name : String) : SessionM Obj (Option HandleId) := do
  let r ← reference name
  onHeap (Heap.hold (referenceHolds r))
  return r

/-- What a value register shows. -/
def storedValue : Stored Obj → SessionM Obj (Value Obj)
  | .own v => return v
  | .snapshot b => onHeap (Heap.readBlock b)

/-- A value written out. -/
def written (v : Value Obj) : SessionM Obj (Datum Obj) :=
  onHeap (Heap.look (·.datum? v))

/-- The contents of a reference, written out. -/
def writtenReference (r : Option HandleId) : SessionM Obj (Option (Datum Obj)) :=
  r.mapM fun i ↦ onHeap (Heap.look (·.contents? i))

end Session

/-! ## Operands -/

/-- The values a step works with. -/
inductive Operand (Obj : Type) where
  /-- A datum, brought into the heap for the step. -/
  | literal (d : Datum Obj)
  /-- The value that a reference has when the step begins. -/
  | reference (name : String)
  /-- What a value register shows; one that is not there shows no value. -/
  | register (name : String)
  deriving Repr

/-- An argument of a call: a value for a new handle, or a reference handed on as it is. -/
inductive Argument (Obj : Type) where
  | operand (x : Operand Obj)
  | reference (name : String)
  deriving Repr

namespace Session

variable [HostObject Obj]

/-- The value of an operand and the holds that keep it. -/
def operandValue : Operand Obj → SessionM Obj (Value Obj × List Hold)
  | .literal d => do
    let v ← onHeap (Heap.plant d)
    return (v, v.holds)
  | .reference name => do
    let b ← onHeap (Heap.snapshot (← deref name))
    return (← onHeap (Heap.readBlock b), [.block b])
  | .register name => do
    match (← get).values.get? name with
    | some x => return (← storedValue x, [])
    | none => return (.uninit, [])

/-- A copy of the value of an operand, for the caller to hold; the operand itself is let go. -/
def operandCopy (x : Operand Obj) : SessionM Obj (Value Obj) := do
  let (v, holds) ← operandValue x
  onHeap (Heap.hold v.holds)
  letGo holds
  return v

/-- Runs an operation with the value of an operand, held until its end. -/
def withOperand {α : Type} (x : Operand Obj) (act : Value Obj → SessionM Obj α) :
    SessionM Obj α := do
  let (v, holds) ← operandValue x
  during holds (act v)

/-- Runs an operation with the values of two operands. -/
def withOperands {α : Type} (x y : Operand Obj) (act : Value Obj → Value Obj → SessionM Obj α) :
    SessionM Obj α :=
  withOperand x fun a ↦ withOperand y fun b ↦ act a b

/-- Runs an operation with the arguments of a call, each value in a handle of its own. -/
def withArguments {α : Type} :
    List (Argument Obj) → (List (Option HandleId) → SessionM Obj α) → SessionM Obj α
  | [], act => act []
  | .reference name :: xs, act => do
    let r ← shareReference name
    during (referenceHolds r) (withArguments xs fun rs ↦ act (r :: rs))
  | .operand x :: xs, act => do
    let v ← operandCopy x
    let i ← onHeap (Heap.bindNew v)
    during [.handle i] (withArguments xs fun rs ↦ act (some i :: rs))

/-- Runs an operation with data brought into the heap for it. -/
def withData {α : Type} (ds : List (Datum Obj)) (act : List (Value Obj) → SessionM Obj α) :
    SessionM Obj α := do
  let vs ← onHeap (Heap.plantAll ds)
  during (vs.flatMap Value.holds) (act vs)

end Session
end ScriptHeap
