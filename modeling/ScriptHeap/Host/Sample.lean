import ScriptHeap.Text.Name
import ScriptHeap.Value.Basic

/-!
# Two sample host objects

An object that leaves every answer at its default, and a counter that answers for itself: it has a
member, knows four methods, may report any kind, and is equal to its count.
-/

set_option autoImplicit false
namespace ScriptHeap

/-- The sample objects. -/
inductive SampleObject where
  /-- Answers nothing for itself. -/
  | plain
  /-- A count, the kind it reports, and whether it has a type name of its own. -/
  | counter (count : Int32) (kind : Kind) (named : Bool)
  deriving DecidableEq, Repr, Inhabited

namespace SampleObject

/-- The kind an object reports. -/
def reportedKind : SampleObject → Kind
  | plain => .hostObject
  | counter _ kind _ => kind

/-- The type name an object shows. -/
def shownType : SampleObject → String
  | counter _ _ true => "Counter"
  | o => o.reportedKind.name

/-- A counter is equal to counters with the same count and to the count itself. -/
def isEqual : SampleObject → Value SampleObject → Bool
  | counter n _ _, .object ⟨_, counter m _ _⟩ => n == m
  | counter n _ _, .integer m => n == m
  | _, _ => false

/-- A counter shows its count as a member. -/
def member? : SampleObject → String → Option (Scalar SampleObject)
  | counter n _ _, name => if Text.sameName name "count" then some (.integer n) else none
  | plain, _ => none

/-- The methods of a counter. -/
def call : SampleObject → String → List (Value SampleObject) →
    Option (HostReply SampleObject) × SampleObject
  | counter n kind named, name, args =>
    if name = "bump" then (some (.scalar (.integer (n + 1))), counter (n + 1) kind named)
    else
      let reply : Option (HostReply SampleObject) :=
        if name = "size" then some (.scalar (.integer n))
        else if name = "argc" then some (.scalar (.integer (Int32.ofNat args.length)))
        else if name = "echo" then if args.isEmpty then none else some (.argument 0)
        else none
      (reply, counter n kind named)
  | plain, _, _ => (none, plain)

instance : HostObject SampleObject where
  kind := reportedKind
  typeName := shownType
  isEqual := isEqual
  member? := member?
  call := call

end SampleObject
end ScriptHeap
