import ScriptHeap.Value.Basic

/-!
# Text of values

The text a script sees when it turns a value into a string.  A string at top level is written raw;
inside a container, and wherever the *quoted* form is asked for, it stands between quotation marks,
whose contents are not escaped.
-/

set_option autoImplicit false
namespace ScriptHeap

/-- Decimal digits of an integer. -/
def integerText (n : Int32) : String :=
  let digits := Nat.toDigits 10 n.toInt.natAbs
  String.ofList (if n.toInt < 0 then '-' :: digits else digits)

/-- The name of the only member of an error. -/
def errorMember : String :=
  "errortext"

/-- A text between quotation marks. -/
def inQuotes (s : String) : String :=
  "\"" ++ s ++ "\""

/-- Texts between braces, after a word that tells what they are. -/
def inBraces (word : String) (items : List String) : String :=
  if items.isEmpty then word ++ "\x7b \x7d"
  else word ++ "\x7b " ++ String.intercalate ", " items ++ " \x7d"

variable {Obj : Type}

/-- The quoted form of a scalar. -/
def Scalar.quoted : Scalar Obj → String
  | .uninit => "<uninitialized object>"
  | .integer n => integerText n
  | .double x => x.text
  | .string s => inQuotes s
  | .error text => inBraces "error" [errorMember ++ " = " ++ inQuotes text]
  | .pointer _ => "<appptr>"
  | .object o => "<appobj " ++ o.family.name ++ ">"

/-- The raw form of a scalar. -/
def Scalar.text : Scalar Obj → String
  | .string s => s
  | s => s.quoted

namespace Datum

mutual

/-- The quoted form. -/
def quoted : Datum Obj → String
  | .scalar s => s.quoted
  | .array elements => inBraces "" (quotedElements elements)
  | .struct members _ => inBraces "struct" (quotedMembers members)
termination_by structural d => d

/-- The quoted forms of elements. -/
def quotedElements : List (Datum Obj) → List String
  | [] => []
  | d :: ds => d.quoted :: quotedElements ds
termination_by structural ds => ds

/-- The quoted forms of members, each after its name. -/
def quotedMembers : List (String × Datum Obj) → List String
  | [] => []
  | (name, d) :: ms => (name ++ " = " ++ d.quoted) :: quotedMembers ms
termination_by structural ms => ms

end

/-- The raw form. -/
def text : Datum Obj → String
  | .scalar s => s.text
  | d => d.quoted

theorem quotedElements_eq_map (ds : List (Datum Obj)) : quotedElements ds = ds.map quoted := by
  induction ds with
  | nil => rfl
  | cons d ds ih => rw [quotedElements, ih, List.map_cons]

theorem quotedMembers_eq_map (ms : List (String × Datum Obj)) :
    quotedMembers ms = ms.map fun m ↦ m.1 ++ " = " ++ m.2.quoted := by
  induction ms with
  | nil => rfl
  | cons m ms ih => rw [quotedMembers, ih, List.map_cons]

end Datum
end ScriptHeap
