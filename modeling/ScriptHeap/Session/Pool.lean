import ScriptHeap.Pool
import Std.Data.TreeMap

/-!
# Sessions with a pool

A pool of numbers by itself, worked on through registers that hold its blocks.  Putting a block into
a register gives up the one that was there, after the new one has been made.  One step may fill very
many registers, so they are kept in a search tree.
-/

set_option autoImplicit false
namespace ScriptHeap

/-- A pool and the registers that hold its blocks. -/
structure PoolSession where
  pool : Pool Int
  registers : Std.TreeMap String Pool.Pointer

/-- The steps on a pool. -/
inductive PoolStep where
  | allocate (name : String) (v : Int)
  /-- Fills registers named by a word and the numbers from zero. -/
  | allocateMany (word : String) (count : Nat) (v : Int)
  | share (name source : String)
  | drop (name : String)
  | dropAll
  | get (name : String)
  | holders (name : String)
  | same (name other : String)
  /-- Writes to a block that has a single holder. -/
  | set (name : String) (v : Int)
  deriving DecidableEq, Repr

/-- What the steps answer. -/
inductive PoolAnswer where
  | done
  | flag (b : Bool)
  | number (n : Option Int)
  | sameness (b : Option Bool)
  | exhausted (capacity : Nat)
  deriving DecidableEq, Repr

namespace PoolSession

/-- A session with a new pool. -/
def start (limits : PoolLimits) : PoolSession :=
  ⟨.empty limits, ∅⟩

/-- Number of blocks that wait to be handed out. -/
def freeCount (s : PoolSession) : Nat :=
  s.pool.free.length

/-- Puts a block, whose hold it takes over, into a register. -/
def keep (s : PoolSession) (name : String) (x : Pool.Pointer) : PoolSession :=
  match s.registers[name]? with
  | some old => ⟨(s.pool.release old).2, s.registers.insert name x⟩
  | none => ⟨s.pool, s.registers.insert name x⟩

/-- Fills registers with blocks of their own, up to one for which there is none. -/
def fill (s : PoolSession) (v : Int) : List String → PoolAnswer × PoolSession
  | [] => (.done, s)
  | name :: names =>
    if s.pool.isExhausted then (.exhausted s.pool.capacity, s)
    else
      let (x, pool) := s.pool.fill v
      fill (keep ⟨pool, s.registers⟩ name x) v names

/-- The block in a register with its holders and its content. -/
def look? (s : PoolSession) (name : String) : Option (Pool.Pointer × Nat × Int) := do
  let x ← s.registers[name]?
  return (x, ← s.pool.find? x)

/-- A session after a step, and the answer. -/
def step (s : PoolSession) : PoolStep → PoolAnswer × PoolSession
  | .allocate name v => s.fill v [name]
  | .allocateMany word count v => s.fill v ((List.range count).map fun n ↦ word ++ Nat.repr n)
  | .share name source =>
    match s.registers[source]? with
    | some x => (.flag true, keep { s with pool := s.pool.retain x } name x)
    | none => (.flag false, s)
  | .drop name =>
    match s.registers[name]? with
    | some x => (.flag true, ⟨(s.pool.release x).2, s.registers.erase name⟩)
    | none => (.flag false, s)
  | .dropAll =>
    (.done, ⟨s.registers.foldl (fun p _ x ↦ (p.release x).2) s.pool, ∅⟩)
  | .get name => (.number ((s.look? name).map fun (_, _, v) ↦ v), s)
  | .holders name => (.number ((s.look? name).map fun (_, count, _) ↦ count), s)
  | .same name other =>
    let b := do return (← s.registers[name]?) == (← s.registers[other]?)
    (.sameness b, s)
  | .set name v =>
    match s.look? name with
    | some (x, 1, _) => (.flag true, { s with pool := s.pool.write x v })
    | _ => (.flag false, s)

end PoolSession
end ScriptHeap
