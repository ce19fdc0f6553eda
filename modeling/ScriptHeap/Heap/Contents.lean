import ScriptHeap.Heap.Basic
import ScriptHeap.Value.Text

/-!
# Contents of stored values

Reading a stored value out in full, and comparing stored values.  Nothing here changes the heap.

## What is here

* `datum?` — a value with all its elements in place; none when an element contains itself.
* `text`, `quoted` — the text of a value.
* `equal` — script equality.  Numbers compare across their kinds, names of members ignoring case,
  elements one by one, except that two containers with the *same* element list are equal without a
  look at the elements.  Host objects decide for themselves.
* `position?` — the first element equal to a value.
-/

set_option autoImplicit false
namespace ScriptHeap

variable {Obj : Type}

namespace Heap

/-! ## Written out -/

/-- A value with its elements in place, down to a depth. -/
def datumWithin : Nat → Heap Obj → Value Obj → Option (Datum Obj)
  | _, _, .scalar s => some (.scalar s)
  | 0, _, _ => none
  | depth + 1, h, .array l => do
    let is ← h.elements? l
    let ds ← is.mapM fun i ↦ (h.valueOf? i).bind (datumWithin depth h)
    return .array ds
  | depth + 1, h, .struct names l => do
    let is ← h.elements? l
    let ds ← is.mapM fun i ↦ (h.valueOf? i).bind (datumWithin depth h)
    return .struct (names.zip ds) (ds.drop names.length)

/-- A value with its elements in place. -/
def datum? (h : Heap Obj) (v : Value Obj) : Option (Datum Obj) :=
  datumWithin h.depth h v

/-- The contents of a handle. -/
def contents? (h : Heap Obj) (i : HandleId) : Option (Datum Obj) :=
  (h.valueOf? i).bind h.datum?

/-- The quoted text of a value. -/
def quoted (h : Heap Obj) (v : Value Obj) : String :=
  ((h.datum? v).map Datum.quoted).getD ""

/-- The raw text of a value. -/
def text (h : Heap Obj) : Value Obj → String
  | .scalar s => s.text
  | v => h.quoted v

end Heap

/-! ## Equality -/

/-- Script equality of scalars that are no host objects. -/
def Scalar.equal : Scalar Obj → Scalar Obj → Bool
  | .uninit, .uninit => true
  | .integer a, .integer b => a == b
  | .integer a, .double y => (Double.ofInt32 a).equal y
  | .double x, .integer b => x.equal (.ofInt32 b)
  | .double x, .double y => x.equal y
  | .string s, .string t => s == t
  | .error s, .error t => s == t
  | .pointer p, .pointer q => p.same q
  | _, _ => false

/-- Whether names agree in order, up to case. -/
def sameNames (ns ms : List String) : Bool :=
  ns.length == ms.length && (ns.zip ms).all fun (n, m) ↦ Text.sameName n m

namespace Heap

variable [HostObject Obj]

/-- Script equality, given the equality of element lists. -/
def equalBy (lists : ListId → ListId → Bool) : Value Obj → Value Obj → Bool
  | .object o, b => HostObject.isEqual o.object b
  | a, .object o => HostObject.isEqual o.object a
  | .scalar a, .scalar b => a.equal b
  | .array l, .array m => lists l m
  | .struct ns l, .struct ms m => sameNames ns ms && lists l m
  | _, _ => false

/-- Whether two lists are one, or have equal elements in the same order. -/
def listsEqualBy (h : Heap Obj) (values : Value Obj → Value Obj → Bool) (l m : ListId) : Bool :=
  l == m ||
    match h.elements? l, h.elements? m with
    | some is, some js =>
      is.length == js.length && (is.zip js).all fun (i, j) ↦
        match h.valueOf? i, h.valueOf? j with
        | some a, some b => values a b
        | _, _ => false
    | _, _ => false

/-- Script equality of values that nest no deeper than a depth. -/
def equalWithin : Nat → Heap Obj → Value Obj → Value Obj → Bool
  | 0, _ => equalBy (· == ·)
  | depth + 1, h => equalBy (h.listsEqualBy (equalWithin depth h))

/-- Script equality. -/
def equal (h : Heap Obj) (a b : Value Obj) : Bool :=
  equalWithin h.depth h a b

/-- Equality that also tells kinds apart. -/
def identical (h : Heap Obj) (a b : Value Obj) : Bool :=
  a.kind == b.kind && h.equal a b

/-- `<=` of scripts. -/
def atMost (h : Heap Obj) (a b : Value Obj) : Bool :=
  a.less b || h.equal a b

/-- `>=` of scripts. -/
def atLeast (h : Heap Obj) (a b : Value Obj) : Bool :=
  b.less a || h.equal a b

/-- The position of the first element equal to a value, counted from zero. -/
def position? (h : Heap Obj) (l : ListId) (v : Value Obj) : Option Nat :=
  ((h.elements? l).getD []).findIdx? fun i ↦
    match h.valueOf? i with
    | some a => h.equal a v
    | none => false

end Heap
end ScriptHeap
