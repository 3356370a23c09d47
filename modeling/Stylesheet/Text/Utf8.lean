/-!
Reading bytes as UTF-8, exactly or with U+FFFD in place of what is malformed.
-/

namespace Stylesheet.Text.Utf8

/-- The text a byte string encodes, if it is well formed. -/
def decode? (bytes : ByteArray) : Option String :=
  String.fromUTF8? bytes

private def continues (low high : Nat) (byte : UInt8) : Bool :=
  low ≤ byte.toNat && byte.toNat ≤ high

/-- The bounds of each continuation byte that may follow a lead byte; none for a byte that
leads nothing. -/
private def tails (lead : Nat) : Option (List (Nat × Nat)) :=
  if lead < 0x80 then some []
  else if 0xc2 ≤ lead && lead ≤ 0xdf then some [(0x80, 0xbf)]
  else if lead == 0xe0 then some [(0xa0, 0xbf), (0x80, 0xbf)]
  else if lead == 0xed then some [(0x80, 0x9f), (0x80, 0xbf)]
  else if 0xe1 ≤ lead && lead ≤ 0xef then some [(0x80, 0xbf), (0x80, 0xbf)]
  else if lead == 0xf0 then some [(0x90, 0xbf), (0x80, 0xbf), (0x80, 0xbf)]
  else if 0xf1 ≤ lead && lead ≤ 0xf3 then some [(0x80, 0xbf), (0x80, 0xbf), (0x80, 0xbf)]
  else if lead == 0xf4 then some [(0x80, 0x8f), (0x80, 0xbf), (0x80, 0xbf)]
  else none

/-- How many continuation bytes follow as the bounds demand, and whether all of them do. -/
private def follow : List (Nat × Nat) → List UInt8 → List UInt8 × List UInt8 × Bool
  | [], rest => ([], rest, true)
  | _, [] => ([], [], false)
  | (low, high) :: bounds, byte :: rest =>
    if continues low high byte then
      let (taken, rest, complete) := follow bounds rest
      (byte :: taken, rest, complete)
    else ([], byte :: rest, false)

private def codePoint (lead : UInt8) (tail : List UInt8) : Char :=
  let lead := lead.toNat
  let top := match tail.length with
    | 0 => lead
    | 1 => lead % 32
    | 2 => lead % 16
    | _ => lead % 8
  Char.ofNat (tail.foldl (fun n byte => n * 64 + byte.toNat % 64) top)

/-- Decode with one replacement character for each longest malformed run. The first argument
bounds the number of characters. -/
private def decodeLossyAux : Nat → List UInt8 → List Char
  | 0, _ => []
  | _, [] => []
  | fuel + 1, lead :: rest =>
    match tails lead.toNat with
    | none => '\ufffd' :: decodeLossyAux fuel rest
    | some bounds =>
      let (taken, rest, complete) := follow bounds rest
      (if complete then codePoint lead taken else '\ufffd') :: decodeLossyAux fuel rest

/-- The text of a byte string, with U+FFFD for each malformed run. -/
def decodeLossy (bytes : ByteArray) : String :=
  match decode? bytes with
  | some text => text
  | none => String.ofList (decodeLossyAux bytes.size bytes.toList)

end Stylesheet.Text.Utf8
