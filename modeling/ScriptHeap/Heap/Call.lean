import ScriptHeap.Heap.Member
import ScriptHeap.Method
import ScriptHeap.Text.Letter

/-!
# Method calls

Calling a method on a variable.  The running script may answer a call itself; otherwise the kind of
the variable chooses between the methods of arrays, structs and strings, and a host object answers
for itself.

## What is here

* `SortPlace`, `sortOrder` — the order that `sort` uses: numbers, strings, everything else.
* `arrayMethod`, `structMethod`, `stringMethod` — the built-in methods.
* `callBuiltin`, `callMethod` — calls by built-in method and by name.
-/

set_option autoImplicit false
namespace ScriptHeap

variable {Obj : Type} [HostObject Obj]

/-! ## Order of elements -/

/-- The place of a value in sorted order: a number by its place among all doubles, a string by its
characters, anything else by being neither. -/
inductive SortPlace where
  | number (key : Int)
  | string (s : String)
  | other
  deriving DecidableEq, Repr

/-- The place of a value in sorted order. -/
def Value.sortPlace : Value Obj → SortPlace
  | .integer n => .number (Double.ofInt32 n).totalKey
  | .double x => .number x.totalKey
  | .string s => .string s
  | _ => .other

/-- Whether the first place may come before the second: numbers before strings, strings before
everything else. -/
def SortPlace.atMost : SortPlace → SortPlace → Bool
  | number m, number n => decide (m ≤ n)
  | string s, string t => decide (s ≤ t)
  | number _, _ | string _, other | other, other => true
  | _, _ => false

/-- Whether the first value may stand before the second. -/
def sortOrder (a b : Value Obj) : Bool :=
  a.sortPlace.atMost b.sortPlace

/-! ## Built-in methods -/

/-- A position from one to a limit, as one counted from zero. -/
def placeUpTo? (n : Int32) (limit : Nat) : Option Nat :=
  (fromOne? n).filter (· < limit)

/-- The texts of errors that methods give for bad arguments. -/
def indexOutOfRange : String := "Index out of range"

@[inherit_doc indexOutOfRange]
def indexNotInteger : String := "Index must be an Integer"

@[inherit_doc indexOutOfRange]
def nameNotString : String := "Member name must be a String"

@[inherit_doc indexOutOfRange]
def startNotInteger : String := "Start position must be an Integer"

@[inherit_doc indexOutOfRange]
def startNotPositive : String := "Start position must be positive"

/-- The position of a text in another at or after a start, both counted in bytes from one, or zero.
A start that lies inside a character or past the end finds nothing. -/
def findFrom (text needle : String) (start : Int32) : Value Obj :=
  match fromOne? start with
  | none => .error startNotPositive
  | some offset =>
    .integer (countNumber (((Text.positionFrom? needle text offset).map (· + 1)).getD 0))

/-- The methods of strings. -/
def stringMethod (h : Heap Obj) (s : String) (m : Method) (args : List (Value Obj)) :
    Option (Value Obj) :=
  match m with
  | .length => some (.integer (countNumber s.length))
  | .upper => some (.string (Text.toUpper s))
  | .lower => some (.string (Text.toLower s))
  | .find =>
    match args with
    | [needle] => some (findFrom s (h.text needle) 1)
    | [needle, .integer start] => some (findFrom s (h.text needle) start)
    | [_, _] => some (.error startNotInteger)
    | _ => some (.error (m.countError 1))
  | _ => none

namespace Heap

/-- Elements in sorted order, equal ones in the order they had. -/
def sorted (h : Heap Obj) (is : List HandleId) : List HandleId :=
  ((is.map fun i ↦ (i, ((h.valueOf? i).getD .uninit).sortPlace)).mergeSort
    fun a b ↦ a.2.atMost b.2).map (·.1)

/-- Puts the elements of the container in a block that is its variable's own into another order.  To
compare them is to read them; a single one is not compared. -/
def reorder (b : BlockId) (compares : Bool) (f : Heap Obj → List HandleId → List HandleId) :
    HeapM Obj (Value Obj) := do
  match ← ownListIn b with
  | none => return .ofBool true
  | some l =>
    let is ← elements l
    if compares && 1 < is.length then
      ensureApart b is
    setElements l (f (← get) is)
    return .ofBool true

/-- Puts a copy of a value before the element at a place of the array in a block that is its
variable's own. -/
def insertAt (b : BlockId) (place : Nat) (v : Value Obj) : HeapM Obj (Value Obj) := do
  let e ← bindNew (← copy v)
  match ← holding [.handle e] (ownListIn b) with
  | none => letGo [.handle e]
  | some l => setElements l ((← elements l).insertIdx place e)
  return .ofBool true

/-- The methods of arrays, on the array in a block that is its variable's own. -/
def arrayMethod (b : BlockId) (size : Nat) (m : Method) (args : List (Value Obj)) :
    HeapM Obj (Option (Value Obj)) := do
  match m with
  | .size => return some (.integer (countNumber size))
  | .append =>
    match args with
    | [v] => return some (← insertAt b size v)
    | _ => return some (.error (m.countError 1))
  | .insert =>
    match args with
    | [.integer n, v] =>
      match placeUpTo? n (size + 1) with
      | some place => return some (← insertAt b place v)
      | none => return some (.error indexOutOfRange)
    | [_, _] => return some (.error indexNotInteger)
    | _ => return some (.error (m.countError 2))
  | .erase =>
    match args with
    | [.integer n] =>
      match placeUpTo? n size with
      | some place =>
        let removed ← removeAt b place
        letGo (handleHolds removed.toList)
        return some (.ofBool true)
      | none => return some (.error indexOutOfRange)
    | [_] => return some (.error indexNotInteger)
    | _ => return some (.error (m.countError 1))
  | .exists =>
    match args with
    | [.integer n] => return some (.ofBool (placeUpTo? n size).isSome)
    | [_] => return some (.error indexNotInteger)
    | _ => return some (.error (m.countError 1))
  | .reverse => return some (← reorder b false fun _ is ↦ is.reverse)
  | .sort => return some (← reorder b true sorted)
  | _ => return none

/-- The methods of structs. -/
def structMethod (i : HandleId) (m : Method) (args : List (Value Obj)) :
    HeapM Obj (Option (Value Obj)) := do
  match m with
  | .size =>
    match (← read i).list? with
    | some l => return some (.integer (countNumber (← elements l).length))
    | none => return none
  | .exists =>
    match args with
    | [.string name] => return some (.ofBool ((← read i).hasMember name))
    | [_] => return some (.error nameNotString)
    | _ => return some (.error (m.countError 1))
  | .erase =>
    match args with
    | [.string name] => return some (← removeMember i name)
    | [_] => return some (.error nameNotString)
    | _ => return some (.error (m.countError 1))
  | .keys => return some (← newArray ((← read i).names.map .string))
  | _ => return none

/-- The answer of the host object in a block that is its variable's own; the object may change even
when it does not know the method. -/
def hostMethod (b : BlockId) (name : String) (args : List (Value Obj)) :
    HeapM Obj (Option (Value Obj)) := do
  match ← readBlock b with
  | .object o =>
    let (reply, object) := HostObject.call o.object name args
    writeBlock b (.object { o with object := object })
    match reply with
    | some (.scalar s) => return some (.scalar s)
    | some (.argument n) =>
      match args[n]? with
      | some v => return some (← copy v)
      | none => return none
    | none => return none
  | _ => return none

/-! ## Calls -/

/-- What the running script brings to a call: the arguments, which may refer to nothing, and its own
answers to built-in methods, whose holds it keeps. -/
structure Caller (Obj : Type) where
  params : List (Option HandleId)
  answer? : Value Obj → Method → Option (Value Obj)

/-- The outcome of a call: whether the script was asked to answer it, with the kind of the variable
and the method, and the result, for the caller to hold. -/
structure CallOutcome (Obj : Type) where
  asked : Option (Kind × Method)
  result : Except CallFailure (Value Obj)

/-- Copies of the argument values; an argument that refers to nothing counts as no value. -/
def argumentValues (params : List (Option HandleId)) : HeapM Obj (List (Value Obj)) :=
  params.mapM fun p ↦
    match p with
    | some i => do copy (← read i)
    | none => return .uninit

/-- Runs an operation on copies of the arguments, which are given up at the end. -/
def withArguments {α : Type} (params : List (Option HandleId))
    (act : List (Value Obj) → HeapM Obj α) : HeapM Obj α := do
  let args ← argumentValues params
  let holds := args.flatMap Value.holds
  let a ← holding holds (act args)
  letGo holds
  return a

/-- The built-in method of a variable, chosen by its kind. -/
def dispatch (i : HandleId) (m : Method) (args : List (Value Obj)) :
    HeapM Obj (Option (Value Obj)) := do
  match (← read i).kind, ← read i with
  | .array, _ =>
    let b ← own i
    match ← readBlock b with
    | .array l => arrayMethod b (← elements l).length m args
    | _ => return none
  | .struct, _ => structMethod i m args
  | .string, v =>
    match v with
    | .string s => return stringMethod (← get) s m args
    | _ => return none
  | _, .object _ => do hostMethod (← own i) m.name args
  | _, _ => return none

/-- Calls a built-in method.  Unless it is forced, the script may answer first. -/
def callBuiltin (i : HandleId) (m : Method) (caller : Caller Obj) (force : Bool) :
    HeapM Obj (CallOutcome Obj) := do
  let target ← read i
  let asked := if force then none else some (target.kind, m)
  match if force then none else caller.answer? target m with
  | some v => return ⟨asked, .ok (← copy v)⟩
  | none =>
    withArguments caller.params fun args ↦ do
      let kind := (← read i).kind
      match ← dispatch i m args with
      | some v => return ⟨asked, .ok v⟩
      | none => return ⟨asked, .error (.unsupported kind m)⟩

/-- Calls a method by name. -/
def callMethod (i : HandleId) (name : String) (caller : Caller Obj) :
    HeapM Obj (CallOutcome Obj) := do
  match ← read i with
  | .object _ =>
    withArguments caller.params fun args ↦ do
      match ← hostMethod (← own i) name args with
      | some v => return ⟨none, .ok v⟩
      | none => return ⟨none, .error (.unknown (← read i).kind name)⟩
  | v =>
    match Method.ofName? name with
    | some m => callBuiltin i m caller false
    | none => return ⟨none, .error (.unknown v.kind name)⟩

end Heap
end ScriptHeap
