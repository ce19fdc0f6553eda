import ScriptHeap.Text.Name
import ScriptHeap.Value.Basic

/-!
# Built-in methods

The names of the built-in methods, and the ways in which a call can fail.  A call that a kind does
not know is a failure of its own; a known method called with bad arguments gives an error value
like any other operation.
-/

set_option autoImplicit false
namespace ScriptHeap

/-- The built-in methods. -/
inductive Method where
  | size
  | append
  | insert
  | erase
  | exists
  | reverse
  | sort
  | keys
  | length
  | upper
  | lower
  | find
  deriving DecidableEq, Repr, Inhabited

namespace Method

/-- All methods, in the order of their listing. -/
def all : List Method :=
  [size, append, insert, erase, .exists, reverse, sort, keys, length, upper, lower, find]

/-- The name of a method. -/
def name : Method → String
  | size => "size"
  | append => "append"
  | insert => "insert"
  | erase => "erase"
  | .exists => "exists"
  | reverse => "reverse"
  | sort => "sort"
  | keys => "keys"
  | length => "length"
  | upper => "upper"
  | lower => "lower"
  | find => "find"

/-- The method with a name, in any case. -/
def ofName? (s : String) : Option Method :=
  all.find? fun m ↦ Text.sameName m.name s

/-- Whether a method may change the value it is called on. -/
def mutates : Method → Bool
  | append | insert | erase | reverse | sort => true
  | _ => false

@[simp] theorem ofName?_name (m : Method) : ofName? m.name = some m := by
  cases m <;> decide

/-- The text of the error for a wrong number of arguments. -/
def countError (m : Method) (expected : Nat) : String :=
  m.name ++ "() expects " ++ Nat.repr expected ++ " parameter(s)"

end Method

/-- A call that could not be made. -/
inductive CallFailure where
  /-- The kind has no method of that name. -/
  | unknown (kind : Kind) (name : String)
  /-- The built-in method exists, but not for the kind. -/
  | unsupported (kind : Kind) (method : Method)
  deriving DecidableEq, Repr

/-- The message of a failed call. -/
def CallFailure.message : CallFailure → String
  | unknown kind name => "Method '" ++ name ++ "' not found for " ++ kind.name
  | unsupported kind method =>
    "Method '" ++ method.name ++ "' not supported by " ++ kind.name

end ScriptHeap
