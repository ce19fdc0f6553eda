import ScriptHeap.Heap.Elements
import ScriptHeap.Packed.Reading

/-!
# Packed values brought into the heap

What a packed value holds is brought into the heap as it is read, the elements of a container when
the container is complete.  If the reading fails in the end, all of it goes again; the counters of
the pools and the register have seen it nevertheless.
-/

set_option autoImplicit false
namespace ScriptHeap.Heap

open Packed

variable {Obj : Type} [HostObject Obj]

/-- Brings in what was read; after a failure, what was complete before it, only to let it go. -/
def plantDecoded :
    Except (DecodeFailure Obj) (Datum Obj) → HeapM Obj (Except DecodeError (Value Obj))
  | .ok d => return .ok (← plant d)
  | .error failure => do
    let vs ← plantAll failure.completed
    letGo (vs.flatMap Value.holds)
    return .error failure.cause

/-- The value that bytes hold. -/
def unpack (bytes : List UInt8) : HeapM Obj (Except DecodeError (Value Obj)) :=
  plantDecoded (Packed.unpack bytes)

/-- One value from a stream, and the rest of the stream. -/
def unpackFrom (s : Stream) : HeapM Obj (Except DecodeError (Value Obj) × Stream) := do
  match Packed.decode.run s with
  | .ok d rest => return (← plantDecoded (.ok d), rest)
  | .error failure rest => return (← plantDecoded (.error failure), rest)

end ScriptHeap.Heap
