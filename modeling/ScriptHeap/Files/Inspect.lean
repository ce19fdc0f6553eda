import ScriptHeap.Files.Basic
import ScriptHeap.Heap.Unpack
import ScriptHeap.Packed.Writing

/-!
# Files of packed values

Decoding files that hold one packed value each, and writing such a file.

## What is here

* `InspectError` — a file that cannot be read or decoded.
* `inspectFile`, `inspectAll` — the value of a file; the values of many, in their order.  When a
  pool runs out in the middle the files done before are the result.
* `demoDatum` — a sample value.
* `writePacked` — what writing a value to a file gives.
-/

set_option autoImplicit false
namespace ScriptHeap

open Packed

/-- Why a file gives no value. -/
inductive InspectError where
  | file (path : String) (problem : FileProblem)
  | decode (path : String) (cause : DecodeError)
  deriving DecidableEq, Repr

/-- The message of an error. -/
def InspectError.message : InspectError → String
  | file path problem => problem.message path
  | decode path cause => path ++ ": " ++ cause.message

variable {Obj : Type} [HostObject Obj]

/-- What a file gave. -/
abbrev Inspected (Obj : Type) := String × Except InspectError (Value Obj)

/-- The value of one file. -/
def inspectFile (read : String → Except FileProblem (List UInt8)) (path : String) :
    HeapM Obj (Inspected Obj) := do
  match read path with
  | .error problem => return (path, .error (.file path problem))
  | .ok bytes =>
    match ← Heap.unpack bytes with
    | .ok v => return (path, .ok v)
    | .error cause => return (path, .error (.decode path cause))

/-- The values of files in order, up to one at which a pool runs out. -/
def inspectAll (read : String → Except FileProblem (List UInt8)) :
    List String → HeapM Obj (List (Inspected Obj))
  | [] => return []
  | path :: paths => do
    match ← tryCatch (some <$> inspectFile read path) (fun _ ↦ return none) with
    | none => return []
    | some result => return result :: (← inspectAll read paths)

/-- A sample value. -/
def demoDatum : Datum Obj :=
  .struct
    [("name", .scalar (.string "longsword")), ("damage", .scalar (.integer 12)),
      ("weight", .scalar (.double ⟨0x4012000000000000⟩)),
      ("tags", .array [.scalar (.string "weapon"), .scalar (.string "melee")])]
    []

/-- The bytes of a file that a value is written to, or the text of what went wrong. -/
def writePacked (problemAt : String → Option FileProblem) (d : Datum Obj) (path : String) :
    Except String (List UInt8) :=
  match problemAt path with
  | some problem => .error problem.text
  | none =>
    match d.pack with
    | .ok bytes => .ok bytes
    | .error e => .error e.message

end ScriptHeap
