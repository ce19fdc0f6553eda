import ScriptHeap.Kind
import ScriptHeap.Number.Decimal
import ScriptHeap.Text.Name

/-!
# Values

A value is what one variable holds.  It is either a *scalar*, which stands for itself, or a
*container*, an array or a struct, which only names its list of elements; the list lives in the
heap and may be shared by several containers.  A `Datum` is a value written out in full.

## What is here

* `HostFamily`, `HostPointer`, `HostValue` — what the application hands to scripts.
* `Scalar`, `Value` — the values themselves.
* `HostObject` — what an application tells about its objects; every answer has a default.
* `Datum` — a value with all its elements in place.
* Kind, type name and truth of values; which values are of one form.
-/

set_option autoImplicit false
namespace ScriptHeap

/-! ## Host values -/

/-- A family of host values.  Two families may bear one name; the number tells them apart. -/
structure HostFamily where
  number : Nat
  name : String
  deriving DecidableEq, Repr, Inhabited

/-- A pointer to something of the host's, known only by its identity. -/
structure HostPointer where
  family : HostFamily
  pointee : Int
  deriving Repr, Inhabited

/-- Same family and same pointee. -/
def HostPointer.same (p q : HostPointer) : Bool :=
  p.family.number == q.family.number && p.pointee == q.pointee

/-- An application object inside a value.  `Obj` is the application's own type of objects; copying
the value copies the object. -/
structure HostValue (Obj : Type) where
  family : HostFamily
  object : Obj
  deriving Repr

/-! ## Scalars and containers -/

/-- A value that has no elements. -/
inductive Scalar (Obj : Type) where
  | uninit
  | integer (n : Int32)
  | double (x : Double)
  | string (s : String)
  | error (text : String)
  | pointer (p : HostPointer)
  | object (o : HostValue Obj)
  deriving Repr, Inhabited

/-- The name of an element list in the heap. -/
structure ListId where
  index : Nat
  deriving DecidableEq, Repr, Inhabited

/-- A value as it is stored: containers share element lists by name.  The names of a struct stand
in the order of its elements; the last elements may go without. -/
inductive Value (Obj : Type) where
  | scalar (s : Scalar Obj)
  | array (elements : ListId)
  | struct (names : List String) (elements : ListId)
  deriving Repr, Inhabited

/-- A value written out in full: its elements are part of it.  A struct may have elements behind its
members that no name stands for; its text leaves them out, its packed form does not. -/
inductive Datum (Obj : Type) where
  | scalar (s : Scalar Obj)
  | array (elements : List (Datum Obj))
  | struct (members : List (String × Datum Obj)) (unnamed : List (Datum Obj))
  deriving Repr, Inhabited

/-- What a host object answers to a call: a scalar of its own or one of the arguments. -/
inductive HostReply (Obj : Type) where
  | scalar (s : Scalar Obj)
  | argument (index : Nat)
  deriving Repr

/-- What an application tells about its objects.  Every answer may be left at its default. -/
class HostObject (Obj : Type) where
  /-- The kind scripts see, any of the kinds. -/
  kind : Obj → Kind := fun _ ↦ .hostObject
  /-- The word `typeof` shows. -/
  typeName : Obj → String := fun o ↦ (kind o).name
  /-- Whether a script finds the object equal to a value. -/
  isEqual : Obj → Value Obj → Bool := fun _ _ ↦ false
  /-- The member of the given name. -/
  member? : Obj → String → Option (Scalar Obj) := fun _ _ ↦ none
  /-- The answer to a method call, none for a method it does not know, and the object afterwards. -/
  call : Obj → String → List (Value Obj) → Option (HostReply Obj) × Obj := fun o _ _ ↦ (none, o)

variable {Obj : Type}

/-! ## Short forms -/

namespace Value

@[match_pattern] abbrev uninit : Value Obj := .scalar .uninit
@[match_pattern] abbrev integer (n : Int32) : Value Obj := .scalar (.integer n)
@[match_pattern] abbrev double (x : Double) : Value Obj := .scalar (.double x)
@[match_pattern] abbrev string (s : String) : Value Obj := .scalar (.string s)
@[match_pattern] abbrev error (text : String) : Value Obj := .scalar (.error text)
@[match_pattern] abbrev object (o : HostValue Obj) : Value Obj := .scalar (.object o)

/-- Truth as a number. -/
def ofBool (b : Bool) : Value Obj :=
  .integer (if b then 1 else 0)

/-- The element list of a container. -/
def list? : Value Obj → Option ListId
  | .scalar _ => none
  | .array l | .struct _ l => some l

/-- The names of a struct, nothing for other values. -/
def names : Value Obj → List String
  | .scalar _ | .array _ => []
  | .struct ns _ => ns

/-- The same container with another element list. -/
def withList : Value Obj → ListId → Value Obj
  | .scalar s, _ => .scalar s
  | .array _, l => .array l
  | .struct ns _, l => .struct ns l

/-- Whether this is an error. -/
def isError : Value Obj → Bool
  | .error _ => true
  | _ => false

/-- Whether this is the value of a variable that was never set. -/
def isUninit : Value Obj → Bool
  | .uninit => true
  | _ => false

/-- Whether two values have the same form: scalars of one sort, two arrays or two structs.  Objects
are of one form whatever kinds they report. -/
def sameForm : Value Obj → Value Obj → Bool
  | .scalar a, .scalar b =>
    match a, b with
    | .uninit, .uninit | .integer _, .integer _ | .double _, .double _ | .string _, .string _
    | .error _, .error _ | .pointer _, .pointer _ | .object _, .object _ => true
    | _, _ => false
  | .array _, .array _ | .struct _ _, .struct _ _ => true
  | _, _ => false

end Value

/-! ## Kind, type name, truth -/

section
variable [HostObject Obj]

/-- The kind of a scalar; an object chooses its own. -/
def Scalar.kind : Scalar Obj → Kind
  | .uninit => .uninit
  | .integer _ => .integer
  | .double _ => .double
  | .string _ => .string
  | .error _ => .error
  | .pointer _ => .hostPointer
  | .object o => HostObject.kind o.object

/-- The word `typeof` shows for a scalar. -/
def Scalar.typeName : Scalar Obj → String
  | .object o => HostObject.typeName o.object
  | s => s.kind.name

/-- The kind of a value. -/
def Value.kind : Value Obj → Kind
  | .scalar s => s.kind
  | .array _ => .array
  | .struct _ _ => .struct

/-- The word `typeof` shows. -/
def Value.typeName : Value Obj → String
  | .scalar s => s.typeName
  | .array _ => Kind.array.name
  | .struct _ _ => Kind.struct.name

end

/-- Whether a condition holds for a scalar. -/
def Scalar.isTrue : Scalar Obj → Bool
  | .uninit | .error _ => false
  | .integer n => n != 0
  | .double x => x.isNaN || !x.isZero
  | .string s => s != ""
  | .pointer _ | .object _ => true

/-- Whether a condition holds for a value: containers always count as true. -/
def Value.isTrue : Value Obj → Bool
  | .scalar s => s.isTrue
  | .array _ | .struct _ _ => true

/-! ## Increment and order -/

/-- `++` on a scalar: the next number, and nothing else changes. -/
def Scalar.increment : Scalar Obj → Scalar Obj
  | .integer n => .integer (n + 1)
  | .double x => .double (x.add .one)
  | s => s

/-- `++` on a value. -/
def Value.increment : Value Obj → Value Obj
  | .scalar s => .scalar s.increment
  | v => v

/-- Script order: numbers by size, strings by their characters; other pairs have no order. -/
def Scalar.less : Scalar Obj → Scalar Obj → Bool
  | .integer a, .integer b => decide (a < b)
  | .integer a, .double y => (Double.ofInt32 a).less y
  | .double x, .integer b => x.less (.ofInt32 b)
  | .double x, .double y => x.less y
  | .string s, .string t => decide (s < t)
  | _, _ => false

/-- Script order of values; containers have none. -/
def Value.less : Value Obj → Value Obj → Bool
  | .scalar a, .scalar b => a.less b
  | _, _ => false

/-- Whether a value is above the bound of a counted loop. -/
def Value.aboveBound : Value Obj → Int32 → Bool
  | .integer n, bound => decide (bound < n)
  | .double x, bound => (Double.ofInt32 bound).less x
  | _, _ => false

/-- Whether a value has reached the bound of a counted loop. -/
def Value.reachesBound : Value Obj → Int32 → Bool
  | .integer n, bound => decide (bound ≤ n)
  | .double x, bound => (Double.ofInt32 bound).less x || (Double.ofInt32 bound).equal x
  | _, _ => false

end ScriptHeap
