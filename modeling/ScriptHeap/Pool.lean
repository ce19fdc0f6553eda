/-!
# Block pools

A pool keeps blocks of one type.  Freed blocks wait on a list and are handed out again before the
pool grows; it grows by whole chunks, and a capped pool never beyond its cap.  Each block counts
its holders and returns to the list with the last of them.

## What is here

* `Pool.Pointer` — a block together with the allocation that filled it, so that a stale pointer
  never finds a later content.
* `allocate?`, `retain`, `release`, `write` — the four operations.  `allocate?` fails when the pool
  is capped and every block is in use, and `write` changes only a block with a single holder.
* `holders?`, `get?` — what a pointer sees.
* `Pool.Stats` — the counters.
-/

set_option autoImplicit false
namespace ScriptHeap

/-- How a pool grows: blocks per step, and the most blocks it may own. -/
structure PoolLimits where
  chunk : Nat
  cap : Option Nat
  deriving DecidableEq, Repr, Inhabited

/-- The limits of a pool that is given none. -/
def PoolLimits.standard : PoolLimits :=
  ⟨256, none⟩

/-- A block: the serial number of the allocation that filled it last, how many hold it, and its
content, which a free block lacks. -/
structure Block (α : Type) where
  serial : Nat
  holders : Nat
  content : Option α
  deriving Repr

/-- A pool of blocks with contents of type `α`. -/
structure Pool (α : Type) where
  limits : PoolLimits
  blocks : Array (Block α)
  /-- The blocks without content, the next one to hand out first. -/
  free : List Nat
  allocated : Nat
  deallocated : Nat
  peak : Nat
  deriving Repr

namespace Pool

variable {α : Type}

/-- A block as one allocation filled it. -/
structure Pointer where
  slot : Nat
  serial : Nat
  deriving DecidableEq, Repr, Inhabited

/-- The counters of a pool. -/
structure Stats where
  allocated : Nat
  deallocated : Nat
  inUse : Nat
  peak : Nat
  capacity : Nat
  deriving DecidableEq, Repr

/-- A pool without blocks. -/
def empty (limits : PoolLimits) : Pool α :=
  ⟨limits, #[], [], 0, 0, 0⟩

instance : Inhabited (Pool α) :=
  ⟨empty .standard⟩

/-- Number of blocks the pool owns. -/
def capacity (p : Pool α) : Nat :=
  p.blocks.size

/-- Number of blocks handed out. -/
def inUse (p : Pool α) : Nat :=
  p.allocated - p.deallocated

/-- The counters. -/
def stats (p : Pool α) : Stats :=
  ⟨p.allocated, p.deallocated, p.inUse, p.peak, p.capacity⟩

/-- The number of holders and the content a pointer sees. -/
def find? (p : Pool α) (x : Pointer) : Option (Nat × α) :=
  match p.blocks[x.slot]? with
  | some ⟨serial, holders, some a⟩ => if serial = x.serial then some (holders, a) else none
  | _ => none

/-- The content a pointer sees. -/
def get? (p : Pool α) (x : Pointer) : Option α :=
  (p.find? x).map (·.2)

/-- How many holders the block has. -/
def holders? (p : Pool α) (x : Pointer) : Option Nat :=
  (p.find? x).map (·.1)

/-- Number of blocks the next growth adds: a chunk, or the room left under the cap. -/
def growth (p : Pool α) : Nat :=
  match p.limits.cap with
  | some cap => min (max 1 p.limits.chunk) (cap - p.capacity)
  | none => max 1 p.limits.chunk

/-- The pool with `count` more free blocks. -/
def grow (p : Pool α) (count : Nat) : Pool α :=
  let added := List.range' p.capacity count
  { p with
    blocks := p.blocks ++ Array.replicate count ⟨0, 0, none⟩
    free := added ++ p.free }

/-- The pool as it stands before a block is taken: grown if no block is free. -/
def prepared (p : Pool α) : Pool α :=
  match p.free with
  | [] => p.grow p.growth
  | _ :: _ => p

/-- The message for a pool that has no block left to give. -/
def exhaustedMessage (name : String) (capacity : Nat) : String :=
  "pool '" ++ name ++ "' exhausted: all " ++ Nat.repr capacity ++ " blocks in use"

/-- Whether there is neither a free block nor room for one. -/
def isExhausted (p : Pool α) : Bool :=
  p.free.isEmpty && p.growth == 0

/-- A block filled with `a`, held once.  Only a pool that is not exhausted has one to give. -/
def fill (p : Pool α) (a : α) : Pointer × Pool α :=
  let p := p.prepared
  match p.free with
  | [] => (⟨p.capacity, p.allocated⟩, p)
  | slot :: free =>
    let serial := p.allocated
    (⟨slot, serial⟩,
      { p with
        blocks := p.blocks.setIfInBounds slot ⟨serial, 1, some a⟩
        free := free
        allocated := serial + 1
        peak := max p.peak (serial + 1 - p.deallocated) })

/-- A block filled with `a`, held once; none when the pool is exhausted. -/
def allocate? (p : Pool α) (a : α) : Option (Pointer × Pool α) :=
  if p.isExhausted then none else some (p.fill a)

/-- One more holder of the block. -/
def retain (p : Pool α) (x : Pointer) : Pool α :=
  match p.find? x with
  | some (holders, a) =>
    { p with blocks := p.blocks.setIfInBounds x.slot ⟨x.serial, holders + 1, some a⟩ }
  | none => p

/-- One holder of the block less.  With the last one the content comes out and the block is free. -/
def release (p : Pool α) (x : Pointer) : Option α × Pool α :=
  match p.find? x with
  | some (holders, a) =>
    if holders ≤ 1 then
      (some a,
        { p with
          blocks := p.blocks.setIfInBounds x.slot ⟨x.serial, 0, none⟩
          free := x.slot :: p.free
          deallocated := p.deallocated + 1 })
    else
      (none, { p with blocks := p.blocks.setIfInBounds x.slot ⟨x.serial, holders - 1, some a⟩ })
  | none => (none, p)

/-- Whether the block has a single holder, who may then change the content. -/
def isSole (p : Pool α) (x : Pointer) : Bool :=
  p.holders? x == some 1

/-- Another content for a block with a single holder; a shared block stays as it is. -/
def write (p : Pool α) (x : Pointer) (a : α) : Pool α :=
  if p.isSole x then { p with blocks := p.blocks.setIfInBounds x.slot ⟨x.serial, 1, some a⟩ } else p

end Pool
end ScriptHeap
