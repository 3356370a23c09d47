/-!
Bytes as pairs of hexadecimal digits.
-/

namespace Stylesheet.Text.Hex

/-- The value of a digit in either case. -/
def digit? (c : Char) : Option Nat :=
  if c.isDigit then some (c.toNat - '0'.toNat)
  else if 'a' ≤ c && c ≤ 'f' then some (c.toNat - 'a'.toNat + 10)
  else if 'A' ≤ c && c ≤ 'F' then some (c.toNat - 'A'.toNat + 10)
  else none

/-- The two lower-case digits of a byte. -/
def pair (byte : Nat) : List Char :=
  [Nat.digitChar (byte / 16), Nat.digitChar (byte % 16)]

/-- The number that some digits write. -/
def number? (digits : List Char) : Option Nat :=
  digits.foldlM (fun value c => (digit? c).map (16 * value + ·)) 0

/-- The digits of some bytes. -/
def encode (bytes : List UInt8) : List Char :=
  bytes.flatMap fun byte => pair byte.toNat

/-- The bytes that pairs of digits write. -/
def decode? : List Char → Option (List UInt8)
  | [] => some []
  | high :: low :: rest => do
    return UInt8.ofNat (16 * (← digit? high) + (← digit? low)) :: (← decode? rest)
  | [_] => none

end Stylesheet.Text.Hex
