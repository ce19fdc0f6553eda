/-!
# Double-precision numbers

A `Double` is a 64-bit binary floating-point number, held as its bits so that every pattern, the
payload of a NaN included, survives storage.  All arithmetic here is exact integer arithmetic on
the fields followed by one rounding.

## What is here

* `Double.units` — the absolute value of a finite number, counted in units of `2 ^ (-1074)`, the
  smallest positive double.  Every finite double is a whole number of units.
* `Double.round` — the double nearest to a fraction of units, ties to the even neighbour.
* `Double.equal`, `Double.less` — numeric comparison: a NaN compares false with everything and the
  two zeros are equal.
* `Double.totalKey` — an integer whose order puts *all* bit patterns in one line: negative NaNs,
  negative numbers, the zeros, positive numbers, positive NaNs.
-/

set_option autoImplicit false
namespace ScriptHeap

/-- A 64-bit floating-point number, as its bits: sign, eleven bits of exponent, fraction. -/
structure Double where
  bits : UInt64
  deriving DecidableEq, Repr, Inhabited

namespace Double

/-! ## Fields -/

/-- The weight of the sign bit. -/
def signWeight : Nat :=
  1 <<< 63

/-- The weight of the lowest bit of the exponent, which is also that of the leading bit of a
significand. -/
def leadingWeight : Nat :=
  1 <<< 52

/-- Whether the sign bit is set. -/
def isNegative (x : Double) : Bool :=
  decide (signWeight ≤ x.bits.toNat)

/-- The bits below the sign, as a number.  They grow with the absolute value. -/
def magnitude (x : Double) : Nat :=
  x.bits.toNat % signWeight

/-- The magnitude of the infinities; what lies above is a NaN. -/
def infiniteMagnitude : Nat :=
  2047 * leadingWeight

/-- The double with the given sign and magnitude. -/
def ofMagnitude (negative : Bool) (m : Nat) : Double :=
  ⟨UInt64.ofNat (if negative then signWeight + m else m)⟩

/-- Whether this is no number at all. -/
def isNaN (x : Double) : Bool :=
  decide (infiniteMagnitude < x.magnitude)

/-- Whether this is one of the two infinities. -/
def isInfinite (x : Double) : Bool :=
  x.magnitude == infiniteMagnitude

/-- Whether this is one of the two zeros. -/
def isZero (x : Double) : Bool :=
  x.magnitude == 0

/-- The infinity of the given sign. -/
def infinite (negative : Bool) : Double :=
  ofMagnitude negative infiniteMagnitude

/-- The NaN that an invalid operation gives: quiet, sign set, no payload. -/
def invalid : Double :=
  ofMagnitude true (infiniteMagnitude + leadingWeight / 2)

/-- A NaN with its quiet bit set. -/
def quiet (x : Double) : Double :=
  ⟨x.bits ||| 0x0008000000000000⟩

/-- How many times the significand is doubled: zero for the numbers below `2 ^ 53` units. -/
def exponent (x : Double) : Nat :=
  x.magnitude / leadingWeight - 1

/-- The fraction with its leading bit, where the number has one. -/
def significand (x : Double) : Nat :=
  if x.magnitude < leadingWeight then x.magnitude
  else leadingWeight + x.magnitude % leadingWeight

/-- The absolute value of a finite double, in units of `2 ^ (-1074)`. -/
def units (x : Double) : Nat :=
  x.significand <<< x.exponent

/-- The value of a finite double, in units of `2 ^ (-1074)`. -/
def signedUnits (x : Double) : Int :=
  if x.isNegative then -(x.units : Int) else x.units

/-! ## Rounding -/

/-- The double nearest to `num / den` units; a tie goes to the even significand.

Whatever the size, the magnitude of the result is `shift · 2 ^ 52` plus the rounded significand:
below `2 ^ 52` units nothing is shifted and the sum is the subnormal itself, and a significand that
rounds up to `2 ^ 53` carries into the exponent by itself. -/
def round (negative : Bool) (num den : Nat) : Double :=
  let whole := num / den
  let shift := if whole < 2 * leadingWeight then 0 else whole.log2 - 52
  let step := den <<< shift
  let low := num / step
  let rest := num % step
  let rounded := if step < 2 * rest ∨ (step = 2 * rest ∧ low % 2 = 1) then low + 1 else low
  ofMagnitude negative (min (shift * leadingWeight + rounded) infiniteMagnitude)

/-- The double nearest to a signed number of units; an exact zero is positive. -/
def ofSignedUnits (n : Int) : Double :=
  round (decide (n < 0)) n.natAbs 1

/-- The number one, in units. -/
def unitsOfOne : Nat :=
  1 <<< 1074

/-- Every 32-bit integer is a double. -/
def ofInt32 (n : Int32) : Double :=
  ofSignedUnits (n.toInt * unitsOfOne)

/-- The number one. -/
def one : Double :=
  ofInt32 1

/-! ## Arithmetic -/

/-- The operand that is no number decides; of two, the first. -/
def withNaN (x y : Double) (otherwise : Double) : Double :=
  if x.isNaN then x.quiet else if y.isNaN then y.quiet else otherwise

/-- Sign change, of a NaN too. -/
def neg (x : Double) : Double :=
  ⟨x.bits ^^^ 0x8000000000000000⟩

/-- Sum.  Opposite infinities have none; an exact zero is negative only from two negative zeros. -/
def add (x y : Double) : Double :=
  withNaN x y <|
    if x.isInfinite then
      if y.isInfinite ∧ x.isNegative ≠ y.isNegative then invalid else x
    else if y.isInfinite then y
    else if x.isZero ∧ y.isZero ∧ x.isNegative ∧ y.isNegative then x
    else ofSignedUnits (x.signedUnits + y.signedUnits)

/-- Difference: the sum with the sign of the second operand changed, but its NaN kept. -/
def sub (x y : Double) : Double :=
  withNaN x y (add x y.neg)

/-- Product.  An infinity times zero has none. -/
def mul (x y : Double) : Double :=
  withNaN x y <|
    let negative := x.isNegative != y.isNegative
    if x.isInfinite ∨ y.isInfinite then
      if x.isZero ∨ y.isZero then invalid else infinite negative
    else round negative (x.units * y.units) unitsOfOne

/-- Quotient.  Two infinities or two zeros have none. -/
def div (x y : Double) : Double :=
  withNaN x y <|
    let negative := x.isNegative != y.isNegative
    if x.isInfinite then if y.isInfinite then invalid else infinite negative
    else if y.isInfinite then ofMagnitude negative 0
    else if y.isZero then if x.isZero then invalid else infinite negative
    else round negative (x.units * unitsOfOne) y.units

/-- Remainder of the quotient cut toward zero; it has the sign of the first operand.  The result is
a whole number of the smaller operand's steps and so needs no rounding. -/
def rem (x y : Double) : Double :=
  withNaN x y <|
    if x.isInfinite ∨ y.isZero then invalid
    else if y.isInfinite then x
    else round x.isNegative (x.units % y.units) 1

/-! ## Order -/

/-- The position on the number line, both zeros at the origin. -/
def key (x : Double) : Int :=
  if x.isNegative then -(x.magnitude : Int) else x.magnitude

/-- Numeric equality. -/
def equal (x y : Double) : Bool :=
  !x.isNaN && !y.isNaN && x.key == y.key

/-- Numeric order. -/
def less (x y : Double) : Bool :=
  !x.isNaN && !y.isNaN && decide (x.key < y.key)

/-- The position in the order of all bit patterns. -/
def totalKey (x : Double) : Int :=
  if x.isNegative then -(x.magnitude : Int) - 1 else x.magnitude

theorem equal_comm (x y : Double) : equal x y = equal y x := by
  simp only [equal, Bool.and_comm x.isNaN.not, BEq.comm (a := x.key)]

theorem magnitude_lt (x : Double) : x.magnitude < signWeight :=
  Nat.mod_lt _ (by decide)

/-- Different bits have different places in the order of all bit patterns. -/
theorem totalKey_injective {x y : Double} (h : x.totalKey = y.totalKey) : x = y := by
  have hx := x.bits.toNat_lt
  have hy := y.bits.toNat_lt
  have key : x.bits.toNat = y.bits.toNat := by
    have weight : signWeight = 9223372036854775808 := by decide
    simp only [totalKey, isNegative, magnitude, weight, decide_eq_true_eq] at h
    split at h <;> split at h <;> omega
  cases x; cases y
  simpa using UInt64.toNat_inj.1 key

end Double
end ScriptHeap
