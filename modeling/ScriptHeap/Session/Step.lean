import ScriptHeap.Heap.Operate
import ScriptHeap.Packed.Writing
import ScriptHeap.Session.Basic

/-!
# Steps

What can be done in a session, one step after another, and what each step answers.  Steps name
registers; `r` is always a reference register.

## What is here

* `Step`, `ElementStep` — the steps, and among them those on the elements of a container.
* `Answer` — what steps answer.  Values in answers are written out at the end of the step.
-/

set_option autoImplicit false
namespace ScriptHeap

/-! ## Steps -/

/-- Steps on the elements of a container.  Positions count from one, places from zero. -/
inductive ElementStep (Obj : Type) where
  /-- The element at a position, or the member of a name, as it is. -/
  | position (n : Int32)
  | member (name : String)
  | values
  | names
  /-- The position of the first element equal to a value. -/
  | positionOf (v : Operand Obj)
  /-- Whether another container shares the element list. -/
  | isShared
  /-- The element at a position, or the member of a name, to be written through. -/
  | ownPosition (n : Int32)
  | ownMember (name : String)
  /-- New handles for all elements. -/
  | renew
  /-- Copies of the elements of another container put last. -/
  | extend (v : Operand Obj)
  /-- The first element put last. -/
  | rotate
  /-- The element at a place taken out. -/
  | remove (place : Nat)
  deriving Repr

/-- The steps of a session. -/
inductive Step (Obj : Type) where
  -- Reference registers
  | bind (r : String) (v : Operand Obj)
  | uninit (r : String)
  | null (r : String)
  | alias (r source : String)
  | duplicate (r source : String)
  | drop (r : String)
  | dropAll
  | same (r other : String)
  | info (r : String)
  -- Value registers
  | snapshot (r target : String)
  | copy (v : Operand Obj) (target : String)
  | dropValue (target : String)
  | display (v : Operand Obj)
  | incrementValue (target : String)
  | copyInto (target : String) (v : Operand Obj)
  | compare (left right : Operand Obj)
  | contains (v needle : Operand Obj)
  | operate (op : Operator) (left right : Operand Obj) (target : Option String)
  | pack (v : Operand Obj)
  -- Blocks
  | allocate (v : Operand Obj) (target : String)
  | blank (target : String)
  | blockOf (r target : String)
  | dropBlock (target : String)
  | displayBlock (target : String)
  | sameBlock (target other : String)
  | rebind (r source : String)
  | newHandle (r source : String)
  | poolStats (kind : Kind)
  | instances
  -- Writes
  | assign (r : String) (v : Operand Obj)
  | setValue (r : String) (v : Operand Obj)
  | overwrite (r : String) (v : Operand Obj)
  | increment (r : String)
  | operateInPlace (op : Operator) (r : String) (v : Operand Obj)
  -- Members and elements; the resulting reference goes into a register if one is named
  | getMember (r name : String) (into : Option String)
  | addMember (r name : String) (into : Option String)
  | setMember (r name : String) (v : Operand Obj) (keep : Bool) (into : Option String)
  | getMemberById (r : String) (number : Nat) (into : Option String)
  | setMemberById (r : String) (number : Nat) (v : Operand Obj) (keep : Bool)
      (into : Option String)
  | memberNumber (name : String)
  | memberName (number : Nat)
  | removeMember (r name : String)
  | hasMember (r name : String)
  | subscript (r : String) (index : Operand Obj) (into : Option String)
  | assignElement (r : String) (index : Int32) (v : Operand Obj) (keep : Bool)
      (into : Option String)
  | elements (r : String) (step : ElementStep Obj) (into : Option String)
  -- Calls
  /-- A call by name.  The script may bring answers of its own. -/
  | call (r name : String) (args : List (Argument Obj))
      (answers : Option (List (Method × Datum Obj))) (target : Option String)
  /-- A call of a built-in method; when it is forced, the script is not asked. -/
  | callBuiltin (r : String) (method : Method) (args : List (Argument Obj)) (force : Bool)
      (answers : Option (List (Method × Datum Obj))) (target : Option String)
  -- Cursors
  | newCursor (r target bound : String)
  | advance (target bound : String) (into : Option String)
  | dropCursor (target : String)
  deriving Repr

/-! ## Answers -/

/-- What steps answer. -/
inductive Answer (Obj : Type) where
  | done
  | missing
  | flag (b : Bool)
  | number (n : Int)
  | position (n : Option Nat)
  | text (s : Option String)
  | texts (ss : List String)
  | value (d : Datum Obj)
  | values (ds : List (Datum Obj))
  | reference (r : Option (Datum Obj))
  /-- A value, its raw text and its truth. -/
  | display (d : Datum Obj) (text : String) (isTrue : Bool)
  /-- Script equality, script order, and equality that tells kinds apart. -/
  | comparison (equal less identical : Bool)
  /-- The value of a block, how many hold it, and where it lives. -/
  | block (d : Datum Obj) (holders : Nat) (pool : PoolName)
  /-- The kind of a variable, its truth, and its number in the register of handles. -/
  | info (kind : Kind) (isTrue : Bool) (number : Option Nat)
  /-- The outcome of a call; with answers of the script, what it was asked. -/
  | call (asked : Option (List (Kind × Method))) (result : Except CallFailure (Datum Obj))
  | noCursor
  /-- What a cursor passed, unless it was at its end; how many are left; the loop variable. -/
  | passed (element : Option (Datum Obj)) (remaining : Nat) (bound : Option (Datum Obj))
  | bytes (bs : List UInt8)
  | packFailure (e : Packed.WriteError)
  | stats (s : Pool.Stats)
  /-- The live handles, and the counters of their register if there is one. -/
  | instances (entries : List (Nat × Kind)) (counters : Option (Nat × Nat))
  | fault (f : Fault)

end ScriptHeap
