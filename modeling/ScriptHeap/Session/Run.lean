import ScriptHeap.Session.Step

/-!
# Running steps

What each step does to a session and what it answers.  The operands of a step are read first, and
only then is the target followed.  A step that faults answers with the
fault and gives up what it held; the session goes on with what happened before the fault.

## What is here

* `Session.apply` — the meaning of a step as an operation.
* `Session.step`, `Session.run` — a session after one step and after many, with the answers.
* `Session.writtenReferences`, `Session.writtenValues` — the registers written out at the end.
-/

set_option autoImplicit false
namespace ScriptHeap.Session

variable {Obj : Type} [HostObject Obj]

/-! ## Results -/

/-- Puts a resulting reference, whose hold it takes over, into a register if one is named, and
answers with its contents. -/
def deliver (into : Option String) (r : Option HandleId) : SessionM Obj (Answer Obj) := do
  let contents ← holding (referenceHolds r) (writtenReference r)
  match into with
  | some name => keepReference name r
  | none => letGo (referenceHolds r)
  return .reference contents

/-- Puts a resulting value, whose holds it takes over, into a value register if one is named, and
writes it out. -/
def deliverValue (target : Option String) (v : Value Obj) : SessionM Obj (Datum Obj) := do
  let d ← holding v.holds (written v)
  match target with
  | some name => keepValue name (.own v)
  | none => letGo v.holds
  return d

/-! ## Elements -/

/-- The list of the container in a handle. -/
def listOf? (i : HandleId) : SessionM Obj (Option ListId) := do
  return (← onHeap (Heap.read i)).list?

/-- The elements of the container in a handle, none for what is no container. -/
def elementsOf (i : HandleId) : SessionM Obj (List HandleId) := do
  match ← listOf? i with
  | some l => onHeap (Heap.elements l)
  | none => return []

/-- The element at a place, for the caller to hold. -/
def elementAt (i : HandleId) (place : Option Nat) : SessionM Obj (Option HandleId) := do
  let r := place.bind ((← elementsOf i)[·]?)
  onHeap (Heap.hold (referenceHolds r))
  return r

/-- The place of a member of a variable. -/
def placeOf? (i : HandleId) (name : String) : SessionM Obj (Option Nat) := do
  return memberIndex? (← onHeap (Heap.read i)).names name

/-- The element at a place, to be written through.  The block becomes the variable's own in any
case, the element list only when there is such an element. -/
def ownElementAt (i : HandleId) (place : Option Nat) : SessionM Obj (Option HandleId) := do
  let b ← onHeap (Heap.own i)
  match place with
  | some place =>
    if place < (← elementsOf i).length then
      match ← onHeap (Heap.ownListIn b) with
      | some l =>
        let r := (← onHeap (Heap.elements l))[place]?
        onHeap (Heap.hold (referenceHolds r))
        return r
      | none => return none
    else return none
  | none => return none

/-- New handles for all elements, in a list of their own. -/
def renewElements (i : HandleId) : HeapM Obj Unit := do
  let b ← Heap.own i
  let v ← Heap.readBlock b
  match v.list? with
  | some l =>
    let is ← Heap.elements l
    Heap.ensureApart b is
    let fresh ← Heap.newList (← Heap.duplicateAll is)
    Heap.writeBlock b (v.withList fresh)
    Heap.letGo [.list l]
  | none => return ()

/-- Copies of the elements of a container put after those of a variable. -/
def extendElements (i : HandleId) (v : Value Obj) : HeapM Obj Unit := do
  let b ← Heap.own i
  match (← Heap.readBlock b).list?, v.list? with
  | some _, some other =>
    let is ← Heap.elements other
    Heap.ensureApart b is
    let added ← Heap.duplicateAll is
    match ← Heap.holding (handleHolds added) (Heap.ownListIn b) with
    | some l => Heap.setElements l ((← Heap.elements l) ++ added)
    | none => Heap.letGo (handleHolds added)
  | _, _ => return ()

/-- The first element put last. -/
def rotateElements (i : HandleId) : HeapM Obj Unit := do
  match ← Heap.ownContainer i with
  | some l =>
    match ← Heap.elements l with
    | first :: rest => Heap.setElements l (rest ++ [first])
    | [] => return ()
  | none => return ()

/-- The element at a place taken out, for the caller to hold. -/
def removeElement (i : HandleId) (place : Nat) : HeapM Obj (Option HandleId) := do
  let b ← Heap.own i
  match (← Heap.readBlock b).list? with
  | some l =>
    if place < (← Heap.elements l).length then Heap.removeAt b place else return none
  | none => return none

/-- The meaning of a step on elements. -/
def applyElements (r : String) (into : Option String) :
    ElementStep Obj → SessionM Obj (Answer Obj)
  | .position n => do deliver into (← elementAt (← deref r) (fromOne? n))
  | .member name => do
    let i ← deref r
    deliver into (← elementAt i (← placeOf? i name))
  | .values => do
    return .values (← (← elementsOf (← deref r)).mapM fun e ↦ onHeap (Heap.look (·.contents? e)))
  | .names => do
    let v ← onHeap (Heap.read (← deref r))
    if v.list?.isSome then return .texts v.names else return .missing
  | .positionOf v =>
    withOperand v fun needle ↦ do
      match ← listOf? (← deref r) with
      | some l => return .position (((← get).heap.position? l needle).map (· + 1))
      | none => return .missing
  | .isShared => do
    match ← listOf? (← deref r) with
    | some l => return .flag (1 < (← onHeap (Heap.look (·.list? l))).holders)
    | none => return .missing
  | .ownPosition n => do deliver into (← ownElementAt (← deref r) (fromOne? n))
  | .ownMember name => do
    let i ← deref r
    deliver into (← ownElementAt i (← placeOf? i name))
  | .renew => do
    onHeap (renewElements (← deref r))
    deliver into none
  | .extend v =>
    withOperand v fun v ↦ do
      onHeap (extendElements (← deref r) v)
      deliver into none
  | .rotate => do
    onHeap (rotateElements (← deref r))
    deliver into none
  | .remove place => do deliver into (← onHeap (removeElement (← deref r) place))

/-! ## Calls -/

/-- What the script brings to a call: the arguments and its own answers. -/
def callerOf (params : List (Option HandleId)) (answers : List (Method × Value Obj)) :
    Heap.Caller Obj :=
  ⟨params, fun _ m ↦ answers.lookup m⟩

/-- A call with arguments and, perhaps, answers of the script. -/
def applyCall (r : String) (args : List (Argument Obj))
    (answers : Option (List (Method × Datum Obj))) (target : Option String)
    (act : HandleId → Heap.Caller Obj → HeapM Obj (Heap.CallOutcome Obj)) :
    SessionM Obj (Answer Obj) :=
  let methods := answers.getD []
  withData (methods.map (·.2)) fun vs ↦
    withArguments args fun params ↦ do
      let i ← deref r
      let outcome ← onHeap (act i (callerOf params ((methods.map (·.1)).zip vs)))
      let asked := answers.map fun _ ↦ outcome.asked.toList
      match outcome.result with
      | .ok v => return .call asked (.ok (← deliverValue target v))
      | .error e => return .call asked (.error e)

/-! ## Steps -/

/-- The meaning of a step. -/
def apply : Step Obj → SessionM Obj (Answer Obj)
  -- Reference registers
  | .bind r v => do
    let v ← operandCopy v
    keepReference r (some (← onHeap (Heap.bindNew v)))
    return .done
  | .uninit r => do
    keepReference r (some (← onHeap Heap.newUninit))
    return .done
  | .null r => do
    keepReference r none
    return .done
  | .alias r source => do
    keepReference r (← shareReference source)
    return .done
  | .duplicate r source => do
    keepReference r (← (← reference source).mapM fun i ↦ onHeap (Heap.duplicate i))
    return .done
  | .drop r => do
    match (← get).references.get? r with
    | some old =>
      modify fun s ↦ { s with references := s.references.erase r }
      letGo (referenceHolds old)
      return .flag true
    | none => return .flag false
  | .dropAll => do
    dropAll
    return .done
  | .same r other => do return .flag ((← reference r) == (← reference other))
  | .info r => do
    let i ← deref r
    let v ← onHeap (Heap.read i)
    return .info v.kind v.isTrue (← onHeap (Heap.look (·.handle? i))).number
  -- Value registers
  | .snapshot r target => do
    keepValue target (.snapshot (← onHeap (Heap.snapshot (← deref r))))
    return .done
  | .copy v target => do
    keepValue target (.own (← operandCopy v))
    return .done
  | .dropValue target => do
    match (← get).values.get? target with
    | some old =>
      modify fun s ↦ { s with values := s.values.erase target }
      letGo old.holds
      return .flag true
    | none => return .flag false
  | .display v =>
    withOperand v fun v ↦ do
      return .display (← written v) ((← get).heap.text v) v.isTrue
  | .incrementValue target => do
    match (← get).values.get? target with
    | some (.own v) =>
      modify fun s ↦ { s with values := s.values.insert target (.own v.increment) }
      return .done
    | _ => return .flag false
  | .copyInto target v =>
    withOperand v fun v ↦ do
      match (← get).values.get? target with
      | some (.own old) =>
        if old.sameForm v then
          keepValue target (.own (← onHeap (Heap.copy v)))
          return .flag true
        else return .flag false
      | _ => return .flag false
  | .compare left right =>
    withOperands left right fun a b ↦ do
      let h := (← get).heap
      return .comparison (h.equal a b) (a.less b) (h.identical a b)
  | .contains v needle =>
    withOperands v needle fun v needle ↦ do
      return .number ((← get).heap.contains v needle).toInt
  | .operate op left right target =>
    withOperands left right fun a b ↦ do
      return .value (← deliverValue target (← onHeap (Heap.operate op a b)))
  | .pack v =>
    withOperand v fun v ↦ do
      match (← written v).pack with
      | .ok bytes => return .bytes bytes
      | .error e => return .packFailure e
  -- Blocks
  | .allocate v target => do
    let v ← operandCopy v
    keepBlock target (← onHeap (Heap.place v))
    return .done
  | .blank target => do
    keepBlock target (← onHeap Heap.blankBlock)
    return .done
  | .blockOf r target => do
    keepBlock target (← onHeap (Heap.snapshot (← deref r)))
    return .done
  | .dropBlock target => do
    match (← get).blocks.get? target with
    | some old =>
      modify fun s ↦ { s with blocks := s.blocks.erase target }
      letGo [.block old]
      return .flag true
    | none => return .flag false
  | .displayBlock target => do
    match (← get).blocks.get? target with
    | some b =>
      let (holders, v) ← onHeap (Heap.look (·.find? b))
      return .block (← written v) holders b.pool
    | none => return .missing
  | .sameBlock target other => do
    match (← get).blocks.get? target, (← get).blocks.get? other with
    | some b, some c => return .flag (b == c)
    | _, _ => return .missing
  | .rebind r source => do
    match (← get).blocks.get? source with
    | some b =>
      let i ← deref r
      onHeap (do
        Heap.hold [.block b]
        Heap.rebind i b)
      return .done
    | none => return .missing
  | .newHandle r source => do
    match (← get).blocks.get? source with
    | some b =>
      let i ← onHeap (do
        Heap.hold [.block b]
        Heap.newHandle b)
      keepReference r (some i)
      return .done
    | none => return .missing
  | .poolStats kind => do return .stats ((← get).heap.pools.get (.ofKind kind)).stats
  | .instances => do
    match (← get).heap.registry with
    | some r => return .instances r.entries (some (r.live, r.constructions))
    | none => return .instances [] none
  -- Writes
  | .assign r v =>
    withOperand v fun v ↦ do
      onHeap (Heap.assign (← deref r) v)
      return .done
  | .setValue r v => do
    let v ← operandCopy v
    let i ← holding v.holds (deref r)
    onHeap (Heap.setValue i v)
    return .done
  | .overwrite r v => do
    let v ← operandCopy v
    let i ← holding v.holds (deref r)
    onHeap (Heap.overwrite i v)
    return .done
  | .increment r => do
    onHeap (Heap.increment (← deref r))
    return .done
  | .operateInPlace op r v =>
    withOperand v fun v ↦ do
      onHeap (Heap.operateInPlace op (← deref r) v)
      return .done
  -- Members and elements
  | .getMember r name into => do deliver into (← onHeap (Heap.getMember? (← deref r) name))
  | .addMember r name into => do deliver into (some (← onHeap (Heap.addMember (← deref r) name)))
  | .setMember r name v keep into =>
    withOperand v fun v ↦ do
      deliver into (← onHeap (Heap.setMember? (← deref r) name v keep))
  | .getMemberById r number into => do
    deliver into (← onHeap (Heap.getMemberById? (← deref r) number))
  | .setMemberById r number v keep into =>
    withOperand v fun v ↦ do
      deliver into (← onHeap (Heap.setMemberById? (← deref r) number v keep))
  | .memberNumber name => do return .number (← onHeap (Heap.memberNumber name))
  | .memberName number => do return .text ((← get).heap.memberName? number)
  | .removeMember r name => do
    return .value (← deliverValue none (← onHeap (Heap.removeMember (← deref r) name)))
  | .hasMember r name => do
    let v ← onHeap (Heap.read (← deref r))
    return .value (← written (.ofBool (v.hasMember name)))
  | .subscript r index into =>
    withOperand index fun index ↦ do
      deliver into (some (← onHeap (Heap.subscript (← deref r) index)))
  | .assignElement r index v keep into =>
    withOperand v fun v ↦ do
      deliver into (some (← onHeap (Heap.assignElement (← deref r) index v keep)))
  | .elements r step into => applyElements r into step
  -- Calls
  | .call r name args answers target =>
    applyCall r args answers target fun i caller ↦ Heap.callMethod i name caller
  | .callBuiltin r method args force answers target =>
    applyCall r args answers target fun i caller ↦ Heap.callBuiltin i method caller force
  -- Cursors
  | .newCursor r target bound => do
    let i ← deref r
    match ← onHeap (Heap.newCursor? i (← reference bound)) with
    | some c =>
      keepCursor target c
      return .flag true
    | none => return .flag false
  | .advance target bound into => do
    match (← get).cursors.get? target with
    | none => return .noCursor
    | some c =>
      let (e, c) ← onHeap (Heap.advance c)
      modify fun s ↦ { s with cursors := s.cursors.insert target c }
      let (contents, loopVariable) ← holding (referenceHolds e) do
        return (← writtenReference e, ← writtenReference (← reference bound))
      match e, into with
      | some e, some name => keepReference name (some e)
      | e, _ => letGo (referenceHolds e)
      return .passed contents c.remaining loopVariable
  | .dropCursor target => do
    match (← get).cursors.get? target with
    | some old =>
      modify fun s ↦ { s with cursors := s.cursors.erase target }
      letGo old.holds
      return .flag true
    | none => return .flag false

/-- A session after a step, and the answer. -/
def step (s : Session Obj) (x : Step Obj) : Answer Obj × Session Obj :=
  match apply x s with
  | .ok a s => (a, s)
  | .error fault s => (.fault fault, s)

/-- A session after steps, and the answers. -/
def run (s : Session Obj) : List (Step Obj) → List (Answer Obj) × Session Obj
  | [] => ([], s)
  | x :: xs =>
    let (a, s) := s.step x
    let (as, s) := s.run xs
    (a :: as, s)

/-! ## At the end -/

/-- The contents of a reference register. -/
def writtenAt (s : Session Obj) (r : String) : Option (Datum Obj) :=
  ((s.references.get? r).join).bind s.heap.contents?

/-- All reference registers, written out. -/
def writtenReferences (s : Session Obj) : List (String × Option (Datum Obj)) :=
  s.references.entries.map fun (name, r) ↦ (name, r.bind s.heap.contents?)

/-- All value registers, written out. -/
def writtenValues (s : Session Obj) : List (String × Option (Datum Obj)) :=
  s.values.entries.map fun (name, x) ↦
    (name,
      match x with
      | .own v => s.heap.datum? v
      | .snapshot b => (s.heap.valueAt? b).bind s.heap.datum?)

end ScriptHeap.Session
