import ScriptHeap.Packed.Layout
import ScriptHeap.Text.Utf8
import ScriptHeap.Value.Basic

/-!
# Writing packed values

A packed value starts with the tag of its kind.  A container has its count and its elements after
that; a struct then has the count of its names and the names.  Host values have no packed form and
are written as no value.

## What is here

* `Datum.pieces` — the writes of a value, one after another.  A length that four bytes cannot hold
  stands in the list as the point where writing stops.
* `Sink`, `packOnto` — a place that takes bytes and may run full, and writing to it.
* `pack` — all bytes of a value.
-/

set_option autoImplicit false
namespace ScriptHeap

namespace Packed

/-- One step of writing. -/
inductive Piece where
  | bytes (bs : List UInt8)
  | oversized (length : Nat)
  deriving DecidableEq, Repr

/-- Why writing stopped. -/
inductive WriteError where
  /-- A text or container is too long for its length to be written. -/
  | oversized (length : Nat)
  /-- The sink took no more. -/
  | full
  deriving DecidableEq, Repr

/-- The message of a write error. -/
def WriteError.message : WriteError → String
  | oversized length => "length " ++ Nat.repr length ++ " does not fit the packed form"
  | full => "sink full"

/-- A length or a count. -/
def lengthPiece (n : Nat) : Piece :=
  if n < lengthLimit then .bytes (littleEndian 4 n) else .oversized n

/-- The tag of a kind. -/
def tagPiece (k : Kind) : Piece :=
  .bytes [k.tag]

/-- A text with its length in bytes before it. -/
def textPieces (s : String) : List Piece :=
  let bytes := Text.utf8 s
  [lengthPiece bytes.length, .bytes bytes]

/-- A place that takes bytes, as many as it has room for if there is a limit. -/
structure Sink where
  taken : Array UInt8
  room : Option Nat
  deriving Repr

namespace Sink

/-- A sink without a limit. -/
def unlimited : Sink :=
  ⟨#[], none⟩

/-- A sink for so many bytes. -/
def ofRoom (room : Nat) : Sink :=
  ⟨#[], some room⟩

/-- Writes bytes.  Those that still fit are taken even when not all do. -/
def write (s : Sink) (bs : List UInt8) : Except WriteError Unit × Sink :=
  match s.room with
  | none => (.ok (), { s with taken := s.taken ++ bs })
  | some room =>
    if bs.length ≤ room then (.ok (), ⟨s.taken ++ bs, some (room - bs.length)⟩)
    else (.error .full, ⟨s.taken ++ bs.take room, some 0⟩)

/-- Writes pieces up to the first that fails. -/
def writeAll (s : Sink) : List Piece → Except WriteError Unit × Sink
  | [] => (.ok (), s)
  | .oversized n :: _ => (.error (.oversized n), s)
  | .bytes bs :: pieces =>
    match s.write bs with
    | (.ok (), s) => s.writeAll pieces
    | (.error e, s) => (.error e, s)

end Sink
end Packed

open Packed

variable {Obj : Type}

/-- The writes of a scalar. -/
def Scalar.pieces : Scalar Obj → List Piece
  | .uninit | .pointer _ | .object _ => [tagPiece .uninit]
  | .integer n => [tagPiece .integer, .bytes (littleEndian 4 n.toUInt32.toNat)]
  | .double x => [tagPiece .double, .bytes (littleEndian 8 x.bits.toNat)]
  | .string s => tagPiece .string :: textPieces s
  | .error text => tagPiece .error :: textPieces text

namespace Datum

mutual

/-- The writes of a value. -/
def pieces : Datum Obj → List Piece
  | .scalar s => s.pieces
  | .array ds => tagPiece .array :: lengthPiece ds.length :: piecesOfAll ds
  | .struct ms ds =>
    tagPiece .struct :: lengthPiece (ms.length + ds.length) ::
      (piecesOfMembers ms ++ piecesOfAll ds ++
        lengthPiece ms.length :: (ms.map (·.1)).flatMap textPieces)
termination_by structural d => d

/-- The writes of elements. -/
def piecesOfAll : List (Datum Obj) → List Piece
  | [] => []
  | d :: ds => d.pieces ++ piecesOfAll ds
termination_by structural ds => ds

/-- The writes of the data of members, without their names. -/
def piecesOfMembers : List (String × Datum Obj) → List Piece
  | [] => []
  | (_, d) :: ms => d.pieces ++ piecesOfMembers ms
termination_by structural ms => ms

end

/-- Writes a value to a sink. -/
def packOnto (d : Datum Obj) (s : Sink) : Except WriteError Unit × Sink :=
  s.writeAll d.pieces

/-- The packed form of a value. -/
def pack (d : Datum Obj) : Except WriteError (List UInt8) :=
  match d.packOnto .unlimited with
  | (.ok (), s) => .ok s.taken.toList
  | (.error e, _) => .error e

end Datum
end ScriptHeap
