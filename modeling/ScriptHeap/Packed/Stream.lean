/-!
# Byte streams

A stream delivers bytes in chunks of any size and then either ends or breaks.  How the bytes are
cut into chunks makes no difference to a reader that asks for a fixed number of them.
-/

set_option autoImplicit false
namespace ScriptHeap.Packed

/-- What comes after the last byte of a stream. -/
inductive Ending where
  | finished
  | broken (reason : String)
  deriving DecidableEq, Repr

/-- The bytes still to come, in chunks, what comes after them, and how many have been read. -/
structure Stream where
  chunks : List (List UInt8)
  ending : Ending
  consumed : Nat
  deriving Repr

namespace Stream

/-- A stream of chunks of which nothing has been read. -/
def ofChunks (chunks : List (List UInt8)) (ending : Ending) : Stream :=
  ⟨chunks, ending, 0⟩

/-- A stream of given bytes that then ends. -/
def ofBytes (bytes : List UInt8) : Stream :=
  ofChunks [bytes] .finished

/-- All bytes still to come. -/
def bytes (s : Stream) : List UInt8 :=
  s.chunks.flatten

/-- Number of bytes still to come. -/
def remaining (s : Stream) : Nat :=
  s.bytes.length

/-- The first `n` bytes of chunks and the chunks after them; none when there are not so many.  For
no bytes at all nothing is read. -/
def splitChunks? : Nat → List (List UInt8) → Option (List UInt8 × List (List UInt8))
  | 0, chunks => some ([], chunks)
  | _ + 1, [] => none
  | n + 1, chunk :: chunks =>
    match chunk.drop n with
    | _ :: rest => some (chunk.take (n + 1), rest :: chunks)
    | [] =>
      (splitChunks? (n + 1 - chunk.length) chunks).map fun (bs, rest) ↦ (chunk ++ bs, rest)

/-- Reads exactly `n` bytes.  If there are not so many, all are read and the ending shows. -/
def take (s : Stream) (n : Nat) : Except Ending (List UInt8) × Stream :=
  match splitChunks? n s.chunks with
  | some (bs, rest) => (.ok bs, ⟨rest, s.ending, s.consumed + n⟩)
  | none => (.error s.ending, ⟨[], s.ending, s.consumed + s.remaining⟩)

end Stream

/-- Bytes cut into chunks of at most `size`.  Chunks of no size hold none of them. -/
def chunksOf (size : Nat) (bytes : List UInt8) : List (List UInt8) :=
  match size, bytes with
  | 0, _ => []
  | _ + 1, [] => []
  | size + 1, b :: rest => (b :: rest.take size) :: chunksOf (size + 1) (rest.drop size)
termination_by bytes.length

end ScriptHeap.Packed
