import ScriptHeap.Text.Search
import ScriptHeap.Value.Text

/-!
# Operators

The arithmetic, bitwise and text operators on scalars.  An operator that has no rule for its
operands gives an error value that names the types of both; no pair of operands faults.

## What is here

* `Operator` — the ten operators with two operands.
* `Scalar.numbers?` — two numbers as numbers of one kind: one double makes both doubles.
* `Scalar.operate?` — the rules for two scalars that are no errors.
* `Value.complement`, `Value.negate` — the two operators with one operand.

The rules for arrays need the heap and are in `ScriptHeap.Heap.Operate`.
-/

set_option autoImplicit false
namespace ScriptHeap

/-- Operators with two operands. -/
inductive Operator where
  | add
  | sub
  | mul
  | div
  | mod
  | shl
  | shr
  | bitAnd
  | bitXor
  | bitOr
  deriving DecidableEq, Repr, Inhabited

namespace Operator

/-- All operators, in the order of their listing. -/
def all : List Operator :=
  [add, sub, mul, div, mod, shl, shr, bitAnd, bitXor, bitOr]

/-- The operator as scripts write it. -/
def symbol : Operator → String
  | add => "+"
  | sub => "-"
  | mul => "*"
  | div => "/"
  | mod => "%"
  | shl => "<<"
  | shr => ">>"
  | bitAnd => "&"
  | bitXor => "^"
  | bitOr => "|"

/-- The operator with the given symbol. -/
def ofSymbol? (s : String) : Option Operator :=
  all.find? fun op ↦ op.symbol == s

/-- The text of the error for operands without a rule. -/
def undefinedText (symbol left right : String) : String :=
  "Operator " ++ symbol ++ " undefined for " ++ left ++ " and " ++ right

/-- The text of the error for a single operand without a rule. -/
def undefinedFor (symbol operand : String) : String :=
  "Operator " ++ symbol ++ " undefined for " ++ operand

end Operator

/-- The text of the error for a zero divisor. -/
def divideByZero : String :=
  "Divide by Zero"

/-- Two numbers of one kind. -/
inductive NumberPair where
  | integers (a b : Int32)
  | doubles (x y : Double)
  deriving DecidableEq, Repr

namespace Scalar

variable {Obj : Type}

/-- Two scalars as a pair of numbers: integers stay integers, one double makes both doubles. -/
def numbers? : Scalar Obj → Scalar Obj → Option NumberPair
  | .integer a, .integer b => some (.integers a b)
  | .integer a, .double y => some (.doubles (.ofInt32 a) y)
  | .double x, .integer b => some (.doubles x (.ofInt32 b))
  | .double x, .double y => some (.doubles x y)
  | _, _ => none

/-- Sum of two numbers. -/
def addNumbers : NumberPair → Scalar Obj
  | .integers a b => .integer (a + b)
  | .doubles x y => .double (x.add y)

/-- Difference of two numbers. -/
def subNumbers : NumberPair → Scalar Obj
  | .integers a b => .integer (a - b)
  | .doubles x y => .double (x.sub y)

/-- Product of two numbers. -/
def mulNumbers : NumberPair → Scalar Obj
  | .integers a b => .integer (a * b)
  | .doubles x y => .double (x.mul y)

/-- Quotient of two numbers; that of integers is cut toward zero. -/
def divNumbers : NumberPair → Scalar Obj
  | .integers a b => if b = 0 then .error divideByZero else .integer (a / b)
  | .doubles x y => if y.isZero then .error divideByZero else .double (x.div y)

/-- `+`: a sum, or two texts one after the other when the left operand is a string or the right
one follows a number. -/
def add? : Scalar Obj → Scalar Obj → Option (Scalar Obj)
  | .string s, b => some (.string (s ++ b.text))
  | .integer n, .string t => some (.string (integerText n ++ t))
  | .double x, .string t => some (.string (x.text ++ t))
  | a, b => (numbers? a b).map addNumbers

/-- `-`: a difference, or a string without the first occurrence of a text. -/
def sub? : Scalar Obj → Scalar Obj → Option (Scalar Obj)
  | .string s, .string t => some (.string (Text.removeFirst t s))
  | .string s, .integer n => some (.string (Text.removeFirst (integerText n) s))
  | .string s, .double x => some (.string (Text.removeFirst x.text s))
  | a, b => (numbers? a b).map subNumbers

/-- `%`: only an integer has a remainder. -/
def mod? : Scalar Obj → Scalar Obj → Option (Scalar Obj)
  | .integer a, .integer b => some (if b = 0 then .error divideByZero else .integer (a % b))
  | .integer a, .double y =>
    some (if y.isZero then .error divideByZero else .double ((Double.ofInt32 a).rem y))
  | _, _ => none

/-- The bitwise operators, for integers only.  Shifts take their distance modulo the word size. -/
def bitwise? (f : Int32 → Int32 → Int32) : Scalar Obj → Scalar Obj → Option (Scalar Obj)
  | .integer a, .integer b => some (.integer (f a b))
  | _, _ => none

/-- The rule of an operator for two scalars that are no errors, if it has one. -/
def operate? : Operator → Scalar Obj → Scalar Obj → Option (Scalar Obj)
  | .add => add?
  | .sub => sub?
  | .mul => fun a b ↦ (numbers? a b).map mulNumbers
  | .div => fun a b ↦ (numbers? a b).map divNumbers
  | .mod => mod?
  | .shl => bitwise? (· <<< ·)
  | .shr => bitwise? (· >>> ·)
  | .bitAnd => bitwise? (· &&& ·)
  | .bitXor => bitwise? (· ^^^ ·)
  | .bitOr => bitwise? (· ||| ·)

end Scalar

namespace Value

variable {Obj : Type} [HostObject Obj]

/-- The error for operands without a rule. -/
def undefinedPair (op : Operator) (a b : Value Obj) : Value Obj :=
  .error (Operator.undefinedText op.symbol a.typeName b.typeName)

/-- `~`: the bits of an integer inverted. -/
def complement : Value Obj → Value Obj
  | .integer n => .integer (~~~n)
  | .error text => .error text
  | v => .error (Operator.undefinedFor "~" v.typeName)

/-- `-` before a number. -/
def negate : Value Obj → Value Obj
  | .integer n => .integer (-n)
  | .double x => .double x.neg
  | .error text => .error text
  | v => .error (Operator.undefinedFor "-" v.typeName)

end Value
end ScriptHeap
