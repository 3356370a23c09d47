import Stylesheet.Double.Shortest

/-!
The text of a double, always positional, and the reading of decimal numbers.
-/

namespace Stylesheet

namespace Decimal

/-- Positional notation: no exponent, and no point in a whole number. -/
def toText (d : Decimal) : String :=
  let digits := toString d.digits
  if d.power ≥ 0 then
    digits ++ String.ofList (List.replicate d.power.toNat '0')
  else
    let places := (-d.power).toNat
    if digits.length > places then
      let whole := digits.length - places
      String.ofList (digits.toList.take whole) ++ "." ++
        String.ofList (digits.toList.drop whole)
    else
      "0." ++ String.ofList (List.replicate (places - digits.length) '0') ++ digits

end Decimal

namespace Double

/-- The fewest digits that read back, in positional notation. -/
def toText (x : Double) : String :=
  if x.isNaN then "NaN"
  else if x.isInf then (if x > 0 then "inf" else "-inf")
  else
    let sign := if x.isNegative then "-" else ""
    let d := x.magnitude
    sign ++ (if d.mantissa == 0 then "0" else (Decimal.shortest d).toText)

/-- Every digit of a double that is a whole number. -/
def wholeText (x : Double) : String :=
  let sign := if x.isNegative then "-" else ""
  sign ++ toString x.toInt.natAbs

/-- The double nearest to `mantissa · 10 ^ power`. Powers far out of range are decided without
building them. -/
def ofDecimal (mantissa : Nat) (power : Int) : Double :=
  let size : Int := (toString mantissa).length + power
  if mantissa == 0 || size < -400 then 0
  else if size > 400 then infinity
  else ofFloat (Float.ofScientific mantissa (power < 0) power.natAbs)

/-- The number written by a list of digits, after those already read. -/
def readDigits (digits : List Char) (start : Nat) : Nat :=
  digits.foldl (fun value c => value * 10 + (c.toNat - '0'.toNat)) start

def splitDigits (text : List Char) : List Char × List Char :=
  (text.takeWhile Char.isDigit, text.dropWhile Char.isDigit)

private def readExponent? : List Char → Option Int
  | '-' :: digits => magnitude? digits |>.map fun n => -(n : Int)
  | '+' :: digits => magnitude? digits |>.map fun n => (n : Int)
  | digits => magnitude? digits |>.map fun n => (n : Int)
where
  magnitude? (digits : List Char) : Option Nat :=
    if digits.isEmpty || !digits.all Char.isDigit then none else some (readDigits digits 0)

def readMagnitude? (text : List Char) : Option Double :=
  let (whole, rest) := splitDigits text
  let (fraction, rest) := match rest with
    | '.' :: rest => splitDigits rest
    | _ => ([], rest)
  if whole.isEmpty && fraction.isEmpty then none
  else
    let mantissa := readDigits (whole ++ fraction) 0
    let places : Int := fraction.length
    match rest with
    | [] => some (ofDecimal mantissa (-places))
    | c :: exponent =>
      if c == 'e' || c == 'E' then
        (readExponent? exponent).map fun e => ofDecimal mantissa (e - places)
      else none

def readUnsigned? (text : List Char) : Option Double :=
  let word := String.ofList (text.map Char.toLower)
  if word == "inf" || word == "infinity" then some infinity
  else if word == "nan" then some nan
  else readMagnitude? text

/-- Read a decimal number: an optional sign, digits with an optional point and exponent, or one of
the words for infinity and NaN. A sign also counts in front of NaN. -/
def ofText? (text : String) : Option Double :=
  match text.toList with
  | '-' :: rest => (readUnsigned? rest).map fun x => -x
  | '+' :: rest => readUnsigned? rest
  | rest => readUnsigned? rest

end Double

end Stylesheet
