import ScriptHeap.Heap.Contents
import ScriptHeap.Heap.Elements
import ScriptHeap.Operator

/-!
# Members, subscripts and containment

Reaching into a value.  A look-up that finds nothing gives no reference; one that finds something
gives a reference through which the caller can write, so block and element list are made the
variable's own first.  All references in results are for the caller to hold.

## What is here

* `getMember?`, `setMember?`, `addMember`, `removeMember`, `hasMember` — named members.
* `subscript`, `assignElement` — elements by position, characters of strings, members by name.
* `contains` — the `in` operator.
* `memberNumber`, `memberName?` — interned names, and members reached by their numbers.
-/

set_option autoImplicit false
namespace ScriptHeap

/-- Texts of the errors that look-ups give. -/
def indexOutOfBounds : String := "Index out of bounds"

@[inherit_doc indexOutOfBounds]
def memberNotFound : String := "Member not found"

@[inherit_doc indexOutOfBounds]
def invalidIndexType : String := "Invalid index type"

@[inherit_doc indexOutOfBounds]
def indexTooFar : String := "Array index too far past the end"

/-- The most elements without a value that one assignment may put before the new element. -/
def fillLimit : Nat := 16384

/-- The place of a member among names, up to case. -/
def memberIndex? (names : List String) (name : String) : Option Nat :=
  names.findIdx? (Text.sameName · name)

/-- A count as a script number; counts beyond the largest are given as that. -/
def countNumber (n : Nat) : Int32 :=
  if n < 1 <<< 31 then Int32.ofNat n else Int32.maxValue

/-- A position counted from one as one counted from zero. -/
def fromOne? (n : Int32) : Option Nat :=
  if 0 < n.toInt then some (n.toInt.toNat - 1) else none

variable {Obj : Type} [HostObject Obj]

/-! ## Looking without change -/

/-- Whether a value has a member. -/
def Value.hasMember : Value Obj → String → Bool
  | .struct names _, name => (memberIndex? names name).isSome
  | .error _, name => Text.sameName name errorMember
  | .object o, name => (HostObject.member? o.object name).isSome
  | _, _ => false

/-- The `in` operator: the position of the first equal element, of the first occurrence of a text
or of a member, counted from one; zero when there is none. -/
def Heap.contains (h : Heap Obj) (v needle : Value Obj) : Int32 :=
  let position : Option Nat :=
    match v, needle with
    | .array l, needle => h.position? l needle
    | .string s, needle => Text.position? (h.text needle) s
    | .struct names _, .string name => memberIndex? names name
    | _, _ => none
  countNumber ((position.map (· + 1)).getD 0)

/-! ## Interned names -/

namespace Heap

/-- The number of a member name. -/
def memberNumber (name : String) : HeapM Obj Nat :=
  modifyGet fun h ↦
    let (n, members) := h.members.intern name
    (n, { h with members := members })

/-- The name with a number, as first spelled. -/
def memberName? (h : Heap Obj) (n : Nat) : Option String :=
  h.members.name? n

/-! ## Named members -/

/-- The reference to the element at a place in the container of a handle, ready to be written
through. -/
def element? (i : HandleId) (place : Nat) : HeapM Obj (Option HandleId) := do
  match ← ownContainer i with
  | none => return none
  | some l =>
    match (← elements l)[place]? with
    | none => return none
    | some e => return some (← share e)

/-- The reference to a member. -/
def getMember? (i : HandleId) (name : String) : HeapM Obj (Option HandleId) := do
  match ← read i with
  | .struct names _ =>
    match memberIndex? names name with
    | some place => element? i place
    | none => return none
  | .error text =>
    if Text.sameName name errorMember then return some (← bindNew (.string text))
    else return none
  | .object o =>
    match HostObject.member? o.object name with
    | some s => return some (← bindNew (.scalar s))
    | none => return none
  | _ => return none

/-- A new last member for the struct in a block that is its variable's own; it takes over the hold
of the member. -/
def appendMember (b : BlockId) (name : String) (e : HandleId) : HeapM Obj Unit := do
  match ← readBlock b with
  | .struct names l =>
    let fresh ← holding [.handle e] (ownListFor b l)
    writeBlock b (.struct (names ++ [name]) fresh)
    setElements fresh ((← elements fresh) ++ [e])
  | _ => letGo [.handle e]

/-- Puts an element, whose hold it takes over, in the place of another, whose hold it gives up.
Without an element there it gives up the hold it was given. -/
def replaceElement (l : ListId) (place : Nat) (e : HandleId) : HeapM Obj Unit := do
  let is ← elements l
  match is[place]? with
  | some old =>
    setElements l (is.set place e)
    letGo [.handle old]
  | none => letGo [.handle e]

/-- Stores a copy of a value in an existing element, a hold of which it takes over, while a fresh
handle that is not needed any more is still held. -/
def assignExisting (e fresh : HandleId) (v : Value Obj) : HeapM Obj HandleId := do
  holding [.handle e, .handle fresh] (assign e v)
  letGo [.handle fresh]
  return e

/-- Sets a member of a struct.  With `keep` an existing member's handle is written, so references to
it see the new value; without, the member gets a new handle.  A missing member is put last.  Values
of other kinds are left alone. -/
def setMember? (i : HandleId) (name : String) (v : Value Obj) (keep : Bool) :
    HeapM Obj (Option HandleId) := do
  match ← read i with
  | .struct names _ =>
    let fresh ← bindNew (← copy v)
    let b ← holding [.handle fresh] (own i)
    match memberIndex? names name with
    | none =>
      holding [.handle fresh] (do appendMember b name (← share fresh))
      return some fresh
    | some place =>
      match ← holding [.handle fresh] (ownListIn b) with
      | none => return some fresh
      | some l =>
        if keep then
          match (← elements l)[place]? with
          | some e => return some (← assignExisting (← share e) fresh v)
          | none => return some fresh
        else
          replaceElement l place (← share fresh)
          return some fresh
  | _ => return none

/-- The member with the name of a number. -/
def getMemberById? (i : HandleId) (n : Nat) : HeapM Obj (Option HandleId) := do
  match (← get).memberName? n with
  | some name => getMember? i name
  | none => return none

/-- Sets the member with the name of a number. -/
def setMemberById? (i : HandleId) (n : Nat) (v : Value Obj) (keep : Bool) :
    HeapM Obj (Option HandleId) := do
  match (← get).memberName? n with
  | some name => setMember? i name v keep
  | none => return none

/-- `.+`: adds a member without a value.  A member that is there is returned as it is, and what is
no struct gives an error. -/
def addMember (i : HandleId) (name : String) : HeapM Obj HandleId := do
  let kind := (← read i).kind
  match ← getMember? i name with
  | some e => return e
  | none =>
    let member ← newUninit
    let b ← holding [.handle member] (own i)
    match ← readBlock b with
    | .struct _ _ =>
      holding [.handle member] (do appendMember b name (← share member))
      return member
    | _ =>
      let e ← holding [.handle member]
        (bindNew (.error (Operator.undefinedFor ".+" kind.name)))
      letGo [.handle member]
      return e

/-- Takes the element at a place out of the container in a block that is its variable's own.  The
hold of the element goes to the caller.  While a struct has names, the element has to go with one;
a struct without any is treated like an array. -/
def removeAt (b : BlockId) (place : Nat) : HeapM Obj (Option HandleId) := do
  let names := (← readBlock b).names
  if names ≠ [] ∧ names.length ≤ place then
    throw (.unnamedPlace place names.length)
  match ← ownListIn b with
  | none => return none
  | some l =>
    match ← readBlock b with
    | .struct names l => writeBlock b (.struct (names.eraseIdx place) l)
    | _ => pure ()
    let is ← elements l
    setElements l (is.eraseIdx place)
    return is[place]?

/-- `.-`: removes a member and tells whether there was one. -/
def removeMember (i : HandleId) (name : String) : HeapM Obj (Value Obj) := do
  let v ← read i
  match v with
  | .struct _ _ =>
    let b ← own i
    match memberIndex? v.names name with
    | some place =>
      let removed ← removeAt b place
      letGo (handleHolds removed.toList)
      return .ofBool true
    | none => return .ofBool false
  | _ => return .error (Operator.undefinedFor ".-" v.kind.name)

/-! ## Subscripts -/

/-- `x[index]`.  Elements and members come as references to be written through, characters as new
values, and what is not there as an error. -/
def subscript (i : HandleId) (index : Value Obj) : HeapM Obj HandleId := do
  match ← read i, index with
  | .array _, .integer n =>
    let b ← own i
    match (← readBlock b), fromOne? n with
    | .array l, some place =>
      if place < (← elements l).length then
        match ← ownListIn b with
        | some fresh =>
          match (← elements fresh)[place]? with
          | some e => share e
          | none => bindNew (.error indexOutOfBounds)
        | none => bindNew (.error indexOutOfBounds)
      else bindNew (.error indexOutOfBounds)
    | _, _ => bindNew (.error indexOutOfBounds)
  | .array _, _ => bindNew (.error invalidIndexType)
  | .struct _ _, .string name | .error _, .string name =>
    match ← getMember? i name with
    | some e => return e
    | none => bindNew (.error memberNotFound)
  | .struct _ _, _ => bindNew (.error invalidIndexType)
  | .string s, .integer n =>
    match (fromOne? n).bind (s.toList[·]?) with
    | some c => bindNew (.string (String.singleton c))
    | none => bindNew (.error indexOutOfBounds)
  | .error text, _ => bindNew (.error text)
  | v, _ => bindNew (.error (Operator.undefinedFor "[]" v.typeName))

/-- New handles without a value.  Only the first can fault: the others share its block. -/
def newUninits : Nat → HeapM Obj (List HandleId)
  | 0 => return []
  | n + 1 => do
    let first ← newUninit
    return first :: (← duplicateAll (List.replicate n first))

/-- Puts the fresh handle at a place of a list that is its container's own, unless `keep` asks to
write through the element there: that element is the result.  A gap before the place is filled with
handles without a value. -/
def putElement (l : ListId) (place : Nat) (fresh : HandleId) (keep : Bool) :
    HeapM Obj (Option HandleId) := do
  let is ← elements l
  match is[place]? with
  | some e =>
    if keep then return some (← share e)
    replaceElement l place (← share fresh)
    return none
  | none =>
    let gap ← newUninits (place - is.length)
    setElements l (is ++ gap ++ [← share fresh])
    return none

/-- `x[index] := v` for arrays.  An index past the end makes the array grow, within a limit; a
refused index gives an error and leaves the array alone.  `keep` is as for `setMember?`. -/
def assignElement (i : HandleId) (index : Int32) (v : Value Obj) (keep : Bool) :
    HeapM Obj HandleId := do
  let kind := (← read i).kind
  if kind != .array then
    return ← bindNew (.error (Operator.undefinedFor "[]" kind.name))
  match fromOne? index with
  | none => bindNew (.error indexOutOfBounds)
  | some place =>
    let size ← match (← read i).list? with
      | some l => do pure (← elements l).length
      | none => pure 0
    if fillLimit < place - size then
      return ← bindNew (.error indexTooFar)
    let fresh ← bindNew (← copy v)
    let b ← holding [.handle fresh] (own i)
    match ← readBlock b with
    | .array _ =>
      match ← holding [.handle fresh] (ownListIn b) with
      | none => return fresh
      | some l =>
        match ← holding [.handle fresh] (putElement l place fresh keep) with
        | some e => assignExisting e fresh v
        | none => return fresh
    | _ => return fresh

end Heap
end ScriptHeap
