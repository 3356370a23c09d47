import Stylesheet.Double.Basic

/-!
Doubles taken apart: a finite double is a sign and a dyadic number `m · 2 ^ q`, read from its
bits. Rounding to whole numbers, the remainder of a division and the conversions from and to
integers are exact on those parts.
-/

namespace Stylesheet

/-- The exact value of a finite, non-negative double: `mantissa · 2 ^ exponent`. -/
structure Dyadic where
  mantissa : Nat
  exponent : Int
deriving Repr, DecidableEq

namespace Double

def exponentField (x : Double) : Nat :=
  ((x.bits >>> 52) &&& 0x7ff).toNat

def fractionField (x : Double) : Nat :=
  (x.bits &&& 0xfffffffffffff).toNat

/-- The magnitude of a finite double as an exact dyadic number. -/
def magnitude (x : Double) : Dyadic :=
  if x.exponentField == 0 then
    ⟨x.fractionField, -1074⟩
  else
    ⟨x.fractionField + Nat.pow 2 52, (x.exponentField : Int) - 1075⟩

/-- Make a whole number of the magnitude `mantissa / unit`, and keep the sign. Nothing changes
without a fraction; NaN and the infinities count as large numbers here. -/
def mapFraction (f : (mantissa unit : Nat) → Nat) (x : Double) : Double :=
  let d := x.magnitude
  if d.exponent ≥ 0 then x
  else
    let whole := ofNat (f d.mantissa (Nat.pow 2 (-d.exponent).toNat))
    if x.isNegative then -whole else whole

/-- The nearest whole number, a half away from zero. -/
def round : Double → Double :=
  mapFraction fun mantissa unit => (mantissa + unit / 2) / unit

/-- Drop the fraction. -/
def truncate : Double → Double :=
  mapFraction fun mantissa unit => mantissa / unit

/-- Drop the fraction and go to the next number away from zero, if there was one. -/
def extend : Double → Double :=
  mapFraction fun mantissa unit => (mantissa + unit - 1) / unit

def floor (x : Double) : Double :=
  if x.isNegative then x.extend else x.truncate

def ceil (x : Double) : Double :=
  if x.isNegative then x.truncate else x.extend

/-- The least exponent of a normal double: below it the gap between neighbours stays the same. -/
def minExponent : Int := -1074

/-- The double with the given sign and exact magnitude. -/
def ofDyadic (negative : Bool) (d : Dyadic) : Double :=
  let magnitude := ofFloat ((Float.ofNat d.mantissa).scaleB d.exponent)
  if negative then -magnitude else magnitude

/-- The exact remainder of a division whose quotient is cut toward zero; it has the sign of the
dividend. There is none if the dividend is not finite or the divisor is zero. -/
def remainder (x y : Double) : Double :=
  if x.isNaN || y.isNaN || x.isInf || y == 0 then
    let product := x * y
    product / product
  else if y.isInf || x == 0 then
    x
  else
    let a := x.magnitude
    let b := y.magnitude
    let exponent := min a.exponent b.exponent
    let dividend := a.mantissa * Nat.pow 2 (a.exponent - exponent).toNat
    let divisor := b.mantissa * Nat.pow 2 (b.exponent - exponent).toNat
    ofDyadic x.isNegative ⟨dividend % divisor, exponent⟩

/-- The remainder that is never negative for a finite divisor. -/
def euclideanRemainder (x y : Double) : Double :=
  let r := x.remainder y
  if r < 0 then r + y.abs else r

/-- The integer part of a finite double, cut toward zero. -/
def toInt (x : Double) : Int :=
  let d := x.magnitude
  let whole : Nat :=
    if d.exponent ≥ 0 then d.mantissa * Nat.pow 2 d.exponent.toNat
    else d.mantissa / Nat.pow 2 (-d.exponent).toNat
  if x.isNegative then -(whole : Int) else whole

/-- The integer part, confined to `[low, high]`; NaN gives zero. -/
def saturate (low high : Int) (x : Double) : Int :=
  if x.isNaN then 0
  else if x.isInf then (if x > 0 then high else low)
  else max low (min high x.toInt)

/-- The integer part as a signed 64-bit count. -/
def toCount (x : Double) : Int :=
  saturate (-Int.pow 2 63) (Int.pow 2 63 - 1) x

/-- The double nearest to an integer. -/
def ofInt (n : Int) : Double :=
  if n < 0 then -(ofNat n.natAbs) else ofNat n.natAbs

end Double

end Stylesheet
