import Stylesheet.Double.Dyadic

/-!
The shortest decimal of a double: of all decimals `digits · 10 ^ power` that round to the double,
one with the fewest digits, and among those the nearest. A tie between two neighbours goes up.
-/

namespace Stylesheet

/-- A non-negative decimal number `digits · 10 ^ power`. -/
structure Decimal where
  digits : Nat
  power : Int
deriving Repr, DecidableEq

namespace Decimal

/-- The numbers that round to `m · 2 ^ q`, as bounds in quarters of the last binary place. -/
structure Interval where
  low : Nat
  value : Nat
  high : Nat
  /-- Both ends belong to the interval. -/
  closed : Bool
  /-- The exponent of the quarter unit. -/
  exponent : Int
deriving Repr

/-- The interval of reals that round to a positive double. The gap below a power of two is half
the gap above it, and a tie goes to the even mantissa. -/
def Interval.ofDyadic (d : Dyadic) : Interval where
  low := if d.mantissa == Nat.pow 2 52 && d.exponent > Double.minExponent then 4 * d.mantissa - 1
    else 4 * d.mantissa - 2
  value := 4 * d.mantissa
  high := 4 * d.mantissa + 2
  closed := d.mantissa % 2 == 0
  exponent := d.exponent - 2

/-- How many units of a common measure one quarter of the interval and one step of the decimal
grid `10 ^ power` hold. -/
private def scales (interval : Interval) (power : Int) : Nat × Nat :=
  (Nat.pow 2 interval.exponent.toNat * Nat.pow 10 (-power).toNat,
    Nat.pow 10 power.toNat * Nat.pow 2 (-interval.exponent).toNat)

/-- The point of the grid `10 ^ power` inside the interval that is nearest to its value, if one of
the value's two neighbours on that grid lies inside. -/
def onGrid? (interval : Interval) (power : Int) : Option Nat :=
  let (quarter, step) := scales interval power
  let value := interval.value * quarter
  let inside (n : Nat) : Bool :=
    if interval.closed then interval.low * quarter ≤ n * step && n * step ≤ interval.high * quarter
    else interval.low * quarter < n * step && n * step < interval.high * quarter
  let below := value / step
  match inside below, inside (below + 1) with
  | true, true =>
    if value - below * step < (below + 1) * step - value then some below else some (below + 1)
  | true, false => some below
  | false, true => some (below + 1)
  | false, false => none

/-- Try coarser grids first. -/
def search (interval : Interval) : Nat → Int → Decimal
  | 0, power => ⟨interval.value * (scales interval power).1 / (scales interval power).2, power⟩
  | steps + 1, power =>
    match onGrid? interval power with
    | some digits => ⟨digits, power⟩
    | none => search interval steps (power - 1)

/-- A power of ten above the dyadic number. -/
private def topPower (d : Dyadic) : Int :=
  ((d.mantissa.log2 : Int) + 1 + d.exponent) * 30103 / 100000 + 2

/-- The shortest decimal that reads back as the positive dyadic number `d`. -/
def shortest (d : Dyadic) : Decimal :=
  search (Interval.ofDyadic d) 24 (topPower d)

end Decimal

end Stylesheet
