import ScriptHeap.Files.Inspect
import ScriptHeap.Heap.Member
import ScriptHeap.Heap.Operate

/-!
# Single operations on data

Operations of scripts on values written out.  Each is done in a heap of its own, into which its
data are brought first.

## What is here

* `inNewHeap` — an operation in a heap of its own.
* `operateOn`, `operateInPlaceOn`, `changeOf` — operators on data.
* `compareData`, `describe`, `containsIn`, `copyInto` — questions about data.
* `unpackAll`, `unpackMany`, `unpackFiles` — packed values read.
-/

set_option autoImplicit false
namespace ScriptHeap.Single

variable {Obj : Type} [HostObject Obj]

/-- The result of an operation in a heap of its own. -/
def inNewHeap {α : Type} (config : HeapConfig) (act : HeapM Obj α) : Except Fault α :=
  match act.run (.empty config) with
  | .ok a _ => .ok a
  | .error fault _ => .error fault

/-- A value written out. -/
def written (v : Value Obj) : HeapM Obj (Datum Obj) :=
  Heap.look (·.datum? v)

/-- Two data brought into the heap. -/
def plantBoth (a b : Datum Obj) : HeapM Obj (Value Obj × Value Obj) := do
  let v ← Heap.plant a
  return (v, ← Heap.plant b)

/-! ## Operators -/

/-- The result of an operator and its operands afterwards. -/
structure Operated (Obj : Type) where
  result : Datum Obj
  left : Datum Obj
  right : Datum Obj

/-- An operator on two data. -/
def operateOn (op : Operator) (a b : Datum Obj) : HeapM Obj (Operated Obj) := do
  let (v, w) ← plantBoth a b
  let result ← Heap.operate op v w
  return ⟨← written result, ← written v, ← written w⟩

/-- A variable and the right operand after an operator was applied to the variable. -/
def operateInPlaceOn (op : Operator) (a b : Datum Obj) : HeapM Obj (Datum Obj × Datum Obj) := do
  let i ← Heap.bindNew (← Heap.plant a)
  let w ← Heap.plant b
  Heap.operateInPlace op i w
  return (← Heap.look (·.contents? i), ← written w)

/-- The result of an operation on one value. -/
def changeOf (f : Value Obj → Value Obj) (d : Datum Obj) : HeapM Obj (Datum Obj) := do
  written (f (← Heap.plant d))

/-- Two data as numbers of one kind. -/
def numbersOf (a b : Datum Obj) : HeapM Obj (Option NumberPair) := do
  match ← plantBoth a b with
  | (.scalar s, .scalar t) => return Scalar.numbers? s t
  | _ => return none

/-! ## Questions -/

/-- How two values compare. -/
structure Comparison where
  equal : Bool
  less : Bool
  atMost : Bool
  greater : Bool
  atLeast : Bool
  identical : Bool
  deriving DecidableEq, Repr

/-- The comparison of two data. -/
def compareData (a b : Datum Obj) : HeapM Obj Comparison := do
  let (v, w) ← plantBoth a b
  let h ← get
  return {
    equal := h.equal v w
    less := v.less w
    atMost := h.atMost v w
    greater := w.less v
    atLeast := h.atLeast v w
    identical := h.identical v w }

/-- What can be said about a value. -/
structure Description where
  kind : Kind
  typeName : String
  isTrue : Bool
  text : String
  quoted : String
  isUninit : Bool
  isError : Bool
  /-- Whether the value equals a copy of itself. -/
  equalsCopy : Bool

/-- The description of a datum. -/
def describe (d : Datum Obj) : HeapM Obj Description := do
  let v ← Heap.plant d
  let w ← Heap.copy v
  let h ← get
  return {
    kind := v.kind
    typeName := v.typeName
    isTrue := v.isTrue
    text := h.text v
    quoted := h.quoted v
    isUninit := v.isUninit
    isError := v.isError
    equalsCopy := h.identical w v }

/-- Whether a value is above a bound, and whether it has reached it. -/
def boundTests (bound : Int32) (d : Datum Obj) : HeapM Obj (Bool × Bool) := do
  let v ← Heap.plant d
  return (v.aboveBound bound, v.reachesBound bound)

/-- The position of something in a value. -/
def containsIn (d needle : Datum Obj) : HeapM Obj Int32 := do
  let (v, w) ← plantBoth d needle
  return (← get).contains v w

/-- Whether a value took over another one, which it does only from one of its form, and the value
afterwards. -/
def copyInto (d other : Datum Obj) : HeapM Obj (Bool × Datum Obj) := do
  let (v, w) ← plantBoth d other
  if v.sameForm w then return (true, ← written (← Heap.copy w))
  else return (false, ← written v)

/-! ## Packed values -/

/-- A packed value that was read: the value, its quoted text, and its packed form again. -/
structure Unpacked (Obj : Type) where
  value : Datum Obj
  quoted : String
  repacked : Except Packed.WriteError (List UInt8)

/-- What bytes hold. -/
def unpackAll (bytes : List UInt8) :
    HeapM Obj (Except Packed.DecodeError (Unpacked Obj)) := do
  match ← Heap.unpack bytes with
  | .ok v =>
    let d ← written v
    return .ok ⟨d, (← get).quoted v, d.pack⟩
  | .error e => return .error e

/-- Up to `count` values from a stream, each with the number of bytes read so far, up to the first
error. -/
def unpackMany : Nat → Packed.Stream →
    HeapM Obj (List (Datum Obj × Nat) × Option Packed.DecodeError)
  | 0, _ => return ([], none)
  | count + 1, stream => do
    match ← Heap.unpackFrom stream with
    | (.ok v, rest) =>
      let d ← written v
      Heap.letGo v.holds
      let (ds, e) ← unpackMany count rest
      return ((d, rest.consumed) :: ds, e)
    | (.error e, _) => return ([], some e)

/-- The kind and the value that each file holds. -/
def unpackFiles (read : String → Except FileProblem (List UInt8)) (paths : List String) :
    HeapM Obj (List (String × Except InspectError (Kind × Datum Obj))) := do
  (← inspectAll read paths).mapM fun (path, result) ↦ do
    match result with
    | .ok v => return (path, .ok (v.kind, ← written v))
    | .error e => return (path, .error e)

end ScriptHeap.Single
