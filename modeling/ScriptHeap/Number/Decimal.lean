import ScriptHeap.Number.Double

/-!
# Decimal text of a double

A double is written with the fewest digits that read back as the same double, always positionally:
no exponent, no fraction for a whole number, as many zeros as it takes.

## What is here

* `Decimal` — some digits and a power of ten.
* `Double.Reading` — the interval of numbers that read back as a given double, counted in
  quarters of a unit.
* `Double.shortest` — the coarsest decimal grid that meets the interval, and its point nearest to
  the number; halfway between two points the larger one is taken.
* `Double.text` — sign, digits and zeros, or the word for what is no finite number.
-/

set_option autoImplicit false
namespace ScriptHeap

/-- The number `digits · 10 ^ exponent`. -/
structure Decimal where
  digits : Nat
  exponent : Int
  deriving DecidableEq, Repr, Inhabited

namespace Decimal

/-- Positional notation. -/
def text (d : Decimal) : String :=
  let digits := Nat.toDigits 10 d.digits
  match d.exponent with
  | .ofNat zeros => String.ofList (digits ++ List.replicate zeros '0')
  | .negSucc n =>
    let places := n + 1
    if places < digits.length then
      let whole := digits.length - places
      String.ofList (digits.take whole ++ '.' :: digits.drop whole)
    else
      String.ofList ('0' :: '.' :: (List.replicate (places - digits.length) '0' ++ digits))

end Decimal

namespace Double

/-- The numbers that read back as one positive double, in quarters of a unit. -/
structure Reading where
  low : Nat
  middle : Nat
  high : Nat
  /-- Whether the two ends themselves read back: they do for an even significand. -/
  closed : Bool
  deriving Repr

/-- Half the way to each neighbour.  Below a power of two the neighbour is only half as far. -/
def reading (x : Double) : Reading where
  low :=
    if x.significand = leadingWeight ∧ 0 < x.exponent then 4 * x.units - (1 <<< x.exponent)
    else 4 * x.units - (2 <<< x.exponent)
  middle := 4 * x.units
  high := 4 * x.units + (2 <<< x.exponent)
  closed := x.significand % 2 == 0

namespace Reading

/-- Factors that bring quarters of a unit and steps of `10 ^ k` to one measure. -/
def factors (k : Int) : Nat × Nat :=
  match k with
  | .ofNat n => (1, Nat.pow 10 n * (4 * unitsOfOne))
  | .negSucc n => (Nat.pow 10 (n + 1), 4 * unitsOfOne)

/-- Whether the point `c · 10 ^ k` reads back. -/
def contains (r : Reading) (c : Nat) (k : Int) : Bool :=
  let (quarters, steps) := factors k
  if r.closed then
    decide (r.low * quarters ≤ c * steps) && decide (c * steps ≤ r.high * quarters)
  else
    decide (r.low * quarters < c * steps) && decide (c * steps < r.high * quarters)

/-- The last point of the grid `10 ^ k` that is not above the middle. -/
def below (r : Reading) (k : Int) : Nat :=
  r.middle * (factors k).1 / (factors k).2

/-- Whether the middle is nearer to the point `c · 10 ^ k` than to the next one. -/
def nearerBelow (r : Reading) (c : Nat) (k : Int) : Bool :=
  decide (2 * r.middle * (factors k).1 < (2 * c + 1) * (factors k).2)

/-- The point of the grid `10 ^ k` that stands for the reading, if the grid has one. -/
def onGrid? (r : Reading) (k : Int) : Option Decimal :=
  let c := r.below k
  match r.contains c k, r.contains (c + 1) k with
  | true, true => some ⟨if r.nearerBelow c k then c else c + 1, k⟩
  | true, false => some ⟨c, k⟩
  | false, true => some ⟨c + 1, k⟩
  | false, false => none

/-- The first of `count` grids, from `10 ^ k` down, that has a point. -/
def onGrids? (r : Reading) : Nat → Int → Option Decimal
  | 0, _ => none
  | count + 1, k => (r.onGrid? k).or (r.onGrids? count (k - 1))

/-- An exponent of ten above the whole interval: `log₁₀ 2` is less than `0.30103`. -/
def start (r : Reading) : Int :=
  ((r.high.log2 : Int) - 1075) * 30103 / 100000 + 1

end Reading

/-- The shortest decimal that reads back as the absolute value of a finite double other than zero.
Seventeen digits always suffice, so the search meets a grid among the first ones. -/
def shortest (x : Double) : Decimal :=
  (x.reading.onGrids? 24 x.reading.start).getD ⟨0, 0⟩

/-- The text of a double. -/
def text (x : Double) : String :=
  if x.isNaN then "NaN"
  else
    (if x.isNegative then "-" else "") ++
      if x.isInfinite then "inf" else if x.isZero then "0" else x.shortest.text

end Double
end ScriptHeap
