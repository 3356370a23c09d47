/-!
Doubles by their bits. The bits keep the sign of a NaN, which the total order shows: a negative
NaN comes before all numbers and a positive one behind them. An operand that is NaN passes through
an operation with its sign, and an operation that has no result gives a negative NaN.
-/

namespace Stylesheet

/-- A double: a sign bit, eleven bits of the exponent and 52 bits of the fraction. -/
structure Double where
  bits : UInt64
deriving Repr, Inhabited

namespace Double

/-- The number itself; all NaNs become one. -/
def toFloat (x : Double) : Float :=
  Float.ofBits x.bits

/-- The bits of a number, or of the positive NaN. -/
def ofFloat (x : Float) : Double :=
  ⟨x.toBits⟩

def ofNat (n : Nat) : Double :=
  ofFloat (Float.ofNat n)

instance (n : Nat) : OfNat Double n := ⟨ofNat n⟩

instance : OfScientific Double :=
  ⟨fun mantissa negative exponent => ofFloat (OfScientific.ofScientific mantissa negative exponent)⟩

def signBit : UInt64 := 0x8000000000000000

/-- The bits without the sign. -/
def magnitudeBits (x : Double) : UInt64 :=
  x.bits &&& ~~~signBit

/-- Whether the sign bit is set, also for zeros and NaN. -/
def isNegative (x : Double) : Bool :=
  x.bits &&& signBit != 0

def infinity : Double := ⟨0x7ff0000000000000⟩

/-- The positive NaN. -/
def nan : Double := ⟨0x7ff8000000000000⟩

def isNaN (x : Double) : Bool :=
  x.magnitudeBits > infinity.bits

def isInf (x : Double) : Bool :=
  x.magnitudeBits == infinity.bits

/-! ### Arithmetic -/

/-- The opposite sign, also of zeros and NaN. -/
def neg (x : Double) : Double :=
  ⟨x.bits ^^^ signBit⟩

instance : Neg Double := ⟨neg⟩

/-- The positive sign, also of zeros and NaN. -/
def abs (x : Double) : Double :=
  ⟨x.magnitudeBits⟩

/-- Apply a function of two numbers. An operand that is NaN stands for the result, the first before
the second. -/
def mapNumbers (f : Float → Float → Float) (x y : Double) : Double :=
  if x.isNaN then x
  else if y.isNaN then y
  else
    let result := f x.toFloat y.toFloat
    if result.isNaN then -nan else ofFloat result

instance : Add Double := ⟨mapNumbers (· + ·)⟩

instance : Sub Double := ⟨mapNumbers (· - ·)⟩

instance : Mul Double := ⟨mapNumbers (· * ·)⟩

instance : Div Double := ⟨mapNumbers (· / ·)⟩

/-! ### Comparison -/

/-- Equal as numbers: zeros are equal, and NaN equals nothing. -/
instance : BEq Double := ⟨fun x y => x.toFloat == y.toFloat⟩

instance : LT Double := ⟨fun x y => x.toFloat < y.toFloat⟩

instance : LE Double := ⟨fun x y => x.toFloat ≤ y.toFloat⟩

instance (x y : Double) : Decidable (x < y) :=
  inferInstanceAs (Decidable (x.toFloat < y.toFloat))

instance (x y : Double) : Decidable (x ≤ y) :=
  inferInstanceAs (Decidable (x.toFloat ≤ y.toFloat))

/-- Confine `x` to `[low, high]`; NaN stays as it is. -/
def clamp (x low high : Double) : Double :=
  let raised := if x < low then low else x
  if raised > high then high else raised

/-- The larger of two numbers; a number wins over NaN. -/
def larger (x y : Double) : Double :=
  if y > x then y else if x.isNaN then y else x

/-- The smaller of two numbers; a number wins over NaN. -/
def smaller (x y : Double) : Double :=
  if y < x then y else if x.isNaN then y else x

/-- Whether `low ≤ x ≤ high`. -/
def within (x low high : Double) : Bool :=
  low ≤ x && x ≤ high

/-- A key whose order is the total order of doubles: negative NaN, negative numbers, `-0`, `0`,
positive numbers, positive NaN. -/
def orderKey (x : Double) : Int :=
  let size : Int := x.magnitudeBits.toNat
  if x.isNegative then -1 - size else size

/-- Compare by the total order of doubles. -/
def compareTotal (x y : Double) : Ordering :=
  compare x.orderKey y.orderKey

end Double

end Stylesheet
