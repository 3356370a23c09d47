import Stylesheet.Double.Basic
import Stylesheet.Value.Error

/-!
Units of measure. Units of one group convert into each other by a fixed factor; a unit outside
the table combines only with itself. A product of units keeps its factors in order.
-/

namespace Stylesheet

/-- What a group of convertible units measures. -/
inductive Quantity where
  | length
  | angle
  | time
  | frequency
  | resolution
deriving Repr, DecidableEq

namespace Unit

/-- The quantity a unit measures and its size in the group's base unit. -/
def measure? : String → Option (Quantity × Double)
  | "in" => some (.length, 1.0)
  | "cm" => some (.length, 1.0 / 2.54)
  | "mm" => some (.length, 1.0 / 25.4)
  | "pc" => some (.length, 1.0 / 6.0)
  | "pt" => some (.length, 1.0 / 72.0)
  | "px" => some (.length, 1.0 / 96.0)
  | "deg" => some (.angle, 1.0)
  | "grad" => some (.angle, 0.9)
  | "rad" => some (.angle, 180.0 / 3.14159265358979323846)
  | "turn" => some (.angle, 360.0)
  | "s" => some (.time, 1.0)
  | "ms" => some (.time, 0.001)
  | "Hz" => some (.frequency, 1.0)
  | "kHz" => some (.frequency, 1000.0)
  | "dpi" => some (.resolution, 1.0)
  | "dpcm" => some (.resolution, 2.54)
  | "dppx" => some (.resolution, 96.0)
  | _ => none

/-- Whether the unit belongs to a group. -/
def isConvertible (unit : String) : Bool :=
  (measure? unit).isSome

/-- How many of the unit `target` one `unit` is, if they convert. -/
def factor? (unit target : String) : Option Double :=
  if unit == target then some 1.0
  else do
    let (quantity, size) ← measure? unit
    let (targetQuantity, targetSize) ← measure? target
    if quantity == targetQuantity then some (size / targetSize) else none

end Unit

/-- A quotient of two products of units. -/
structure Units where
  numerator : List String
  denominator : List String
deriving Repr, DecidableEq

namespace Units

/-- No units at all. -/
def empty : Units := ⟨[], []⟩

def isEmpty (units : Units) : Bool :=
  units.numerator.isEmpty && units.denominator.isEmpty

/-- Remove each unit of the first list from the second, one occurrence for one, and keep those of
the first that the second lacks. -/
def cancelEqual : List String → List String → List String × List String
  | [], others => ([], others)
  | unit :: rest, others =>
    if others.contains unit then cancelEqual rest (others.erase unit)
    else
      let (kept, others) := cancelEqual rest others
      (unit :: kept, others)

/-- Cancel each denominator unit against the first other numerator unit it converts to. The
factors found are collected in order. -/
def cancelConvertible : List String → List String → Units × List Double
  | numerator, [] => (⟨numerator, []⟩, [])
  | numerator, unit :: rest =>
    match numerator.find? (fun other => other != unit && (Unit.factor? unit other).isSome) with
    | some other =>
      let (units, factors) := cancelConvertible (numerator.erase other) rest
      (units, (Unit.factor? unit other).toList ++ factors)
    | none =>
      let (units, factors) := cancelConvertible numerator rest
      (⟨units.numerator, unit :: units.denominator⟩, factors)

/-- The units without common factors, and the factors that the value is to be divided by. -/
def normalize (units : Units) : Units × List Double :=
  let (numerator, denominator) := cancelEqual units.numerator units.denominator
  cancelConvertible numerator denominator

def mul (a b : Units) : Units :=
  ⟨a.numerator ++ b.numerator, a.denominator ++ b.denominator⟩

def div (a b : Units) : Units :=
  ⟨a.numerator ++ b.denominator, a.denominator ++ b.numerator⟩

/-- The factor that turns a product of units into another: equal units cancel and the rest is
paired in order. -/
def productFactor (source target : List String) : Except ValueError Double :=
  let (source, target) := cancelEqual source target
  let failure := ValueError.incompatibleUnits ("*".intercalate source) ("*".intercalate target)
  if source.length != target.length then .error failure
  else (source.zip target).foldlM
    (fun total (unit, other) =>
      match Unit.factor? unit other with
      | some factor => .ok (total * factor)
      | none => .error failure)
    1.0

private def sortedProduct (units : List String) : String :=
  "*".intercalate (units.mergeSort fun a b => decide (a ≤ b))

/-- Products in alphabetical order, the denominator behind a slash. -/
def toText (units : Units) : String :=
  if units.denominator.isEmpty then sortedProduct units.numerator
  else sortedProduct units.numerator ++ "/" ++ sortedProduct units.denominator

/-- CSS knows only numbers with at most one unit. -/
def isLegal (units : Units) : Bool :=
  units.numerator.length ≤ 1 && units.denominator.isEmpty

end Units

end Stylesheet
