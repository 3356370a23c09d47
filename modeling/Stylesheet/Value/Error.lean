/-!
Why an operation on values fails, and the wording of each cause.
-/

namespace Stylesheet

/-- The cause of a failed operation on values. -/
inductive ValueError where
  /-- Two numbers whose units do not convert into each other. -/
  | incompatibleUnits (left right : String)
  /-- An operator that the operands do not have. -/
  | undefinedOperation (left operator right : String)
  /-- A value that has no form in CSS. -/
  | invalidCss (text : String)
  /-- Two colors of different opacity. -/
  | alphaMismatch (left operator right : String)
  /-- A color and a number that carries units. -/
  | unitsWithColor (number color : String)
deriving Repr, DecidableEq

namespace ValueError

/-- The name of a cause in reports. -/
def name : ValueError → String
  | incompatibleUnits .. => "IncompatibleUnits"
  | undefinedOperation .. => "UndefinedOperation"
  | invalidCss .. => "InvalidCss"
  | alphaMismatch .. => "AlphaMismatch"
  | unitsWithColor .. => "UnitsWithColor"

def message : ValueError → String
  | incompatibleUnits left right => "Incompatible units: '" ++ left ++ "' and '" ++ right ++ "'."
  | undefinedOperation left operator right =>
    "Undefined operation: \"" ++ left ++ " " ++ operator ++ " " ++ right ++ "\"."
  | invalidCss text => text ++ " isn't a valid CSS value."
  | alphaMismatch left operator right =>
    "Alpha channels must be equal: " ++ left ++ " " ++ operator ++ " " ++ right
  | unitsWithColor number color =>
    "Cannot add a number with units (" ++ number ++ ") to a color (" ++ color ++ ")."

/-- Whether units were to blame. -/
def isUnitConversion : ValueError → Bool
  | incompatibleUnits .. => true
  | _ => false

end ValueError

end Stylesheet
