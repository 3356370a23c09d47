import Stylesheet.Double.Text
import Stylesheet.Value.Unit

/-!
Numbers with units. A number may remember how it was written; every operation forgets that.
-/

namespace Stylesheet

/-- A number with units and, if it stands as it was written, its spelling. -/
structure Number where
  value : Double
  units : Units
  spelling : Option String
deriving Repr

namespace Number

/-- Numbers closer than this are equal. -/
def tolerance : Double := 1e-10

/-- Numbers are shown to a thousandth. -/
def precision : Double := 1000.0

/-- A number whose units have no common factors. -/
def ofUnits (value : Double) (units : Units) : Number :=
  let (units, factors) := units.normalize
  ⟨factors.foldl (· / ·) value, units, none⟩

def ofDouble (value : Double) : Number :=
  ⟨value, Units.empty, none⟩

def ofUnit (value : Double) (unit : String) : Number :=
  ofUnits value ⟨[unit], []⟩

def withSpelling (number : Number) (spelling : String) : Number :=
  { number with spelling := some spelling }

def withoutSpelling (number : Number) : Number :=
  { number with spelling := none }

/-- The same units with another value. -/
def withValue (number : Number) (value : Double) : Number :=
  ⟨value, number.units, none⟩

def isUnitless (number : Number) : Bool :=
  number.units.isEmpty

/-- Whether the value lies within the tolerance of a whole number. -/
def isWhole (number : Number) : Bool :=
  (number.value - number.value.round).abs < tolerance

/-- Whether `unit` is the only unit. -/
def hasUnit (number : Number) (unit : String) : Bool :=
  number.units == ⟨[unit], []⟩

/-- Rounded to the shown precision, a half away from zero. -/
def rounded (value : Double) : Double :=
  (value * precision).round / precision

/-- The text of a value: rounded, without a fraction if it is whole. -/
def valueText (value : Double) : String :=
  if value.isNaN then "NaN"
  else if value.isInf then (if value > 0 then "Infinity" else "-Infinity")
  else
    let shown := rounded value
    if shown == 0 then "0"
    else if shown.isInf then (if shown > 0 then "inf" else "-inf")
    else if shown.truncate == shown then shown.wholeText
    else shown.toText

/-- The value and the units. -/
def inspect (number : Number) : String :=
  valueText number.value ++ number.units.toText

/-- The number as CSS: as it was written, or value and unit. -/
def toCss (number : Number) : Except ValueError String :=
  match number.spelling with
  | some spelling => .ok spelling
  | none =>
    if number.units.isLegal then .ok number.inspect
    else .error (.invalidCss number.inspect)

/-- The number in other units. A unitless number takes any units as they are. -/
def coerce (number : Number) (units : Units) : Except ValueError Number :=
  if number.isUnitless then .ok ⟨number.value, units, none⟩
  else do
    let up ← Units.productFactor number.units.numerator units.numerator
    let down ← Units.productFactor number.units.denominator units.denominator
    .ok ⟨number.value * up / down, units, none⟩

/-- Bring two numbers to the same units: those of the first, unless it has none. -/
def align (a b : Number) : Except ValueError (Number × Number) :=
  if a.isUnitless then do
    let a ← a.coerce b.units
    .ok (a, b)
  else do
    let b ← b.coerce a.units
    .ok (a, b)

def isComparable (a b : Number) : Bool :=
  (align a b).toBool

def plus (a b : Number) : Except ValueError Number := do
  let (a, b) ← align a b
  .ok (ofUnits (a.value + b.value) a.units)

def minus (a b : Number) : Except ValueError Number := do
  let (a, b) ← align a b
  .ok (ofUnits (a.value - b.value) a.units)

def times (a b : Number) : Number :=
  ofUnits (a.value * b.value) (a.units.mul b.units)

def div (a b : Number) : Number :=
  ofUnits (a.value / b.value) (a.units.div b.units)

/-- The remainder that is never negative, in the units of the first number. -/
def modulo (a b : Number) : Number :=
  ofUnits (a.value.euclideanRemainder b.value) a.units

def negate (number : Number) : Number :=
  number.withValue (-number.value)

def compare (a b : Number) : Except ValueError Ordering := do
  let (a, b) ← align a b
  .ok (a.value.compareTotal b.value)

/-- Equal within the tolerance once the units agree. -/
def equals (a b : Number) : Bool :=
  match align a b with
  | .ok (a, b) => (a.value - b.value).abs < tolerance
  | .error _ => false

/-- Equal within the tolerance in the very same units. -/
def same (a b : Number) : Bool :=
  (a.value - b.value).abs < tolerance && a.units == b.units

end Number

end Stylesheet
