import Stylesheet.Text.Hex

/-!
The SHA-256 digest of a byte string, by plain arithmetic on 32-bit words.
-/

namespace Stylesheet.Digest

private def roundConstants : Array UInt32 := #[
  0x428a2f98, 0x71374491, 0xb5c0fbcf, 0xe9b5dba5, 0x3956c25b, 0x59f111f1, 0x923f82a4, 0xab1c5ed5,
  0xd807aa98, 0x12835b01, 0x243185be, 0x550c7dc3, 0x72be5d74, 0x80deb1fe, 0x9bdc06a7, 0xc19bf174,
  0xe49b69c1, 0xefbe4786, 0x0fc19dc6, 0x240ca1cc, 0x2de92c6f, 0x4a7484aa, 0x5cb0a9dc, 0x76f988da,
  0x983e5152, 0xa831c66d, 0xb00327c8, 0xbf597fc7, 0xc6e00bf3, 0xd5a79147, 0x06ca6351, 0x14292967,
  0x27b70a85, 0x2e1b2138, 0x4d2c6dfc, 0x53380d13, 0x650a7354, 0x766a0abb, 0x81c2c92e, 0x92722c85,
  0xa2bfe8a1, 0xa81a664b, 0xc24b8b70, 0xc76c51a3, 0xd192e819, 0xd6990624, 0xf40e3585, 0x106aa070,
  0x19a4c116, 0x1e376c08, 0x2748774c, 0x34b0bcb5, 0x391c0cb3, 0x4ed8aa4a, 0x5b9cca4f, 0x682e6ff3,
  0x748f82ee, 0x78a5636f, 0x84c87814, 0x8cc70208, 0x90befffa, 0xa4506ceb, 0xbef9a3f7, 0xc67178f2]

/-- The eight words that one block turns into the next eight. -/
structure State where
  a : UInt32
  b : UInt32
  c : UInt32
  d : UInt32
  e : UInt32
  f : UInt32
  g : UInt32
  h : UInt32

private def initial : State :=
  ⟨0x6a09e667, 0xbb67ae85, 0x3c6ef372, 0xa54ff53a, 0x510e527f, 0x9b05688c, 0x1f83d9ab, 0x5be0cd19⟩

private def rotate (x : UInt32) (count : UInt32) : UInt32 :=
  (x >>> count) ||| (x <<< (32 - count))

/-- The sixteen words of a block, extended to one word for each round. -/
private def schedule (block : Array UInt32) : Array UInt32 :=
  (List.range 48).foldl extend block
where
  extend (words : Array UInt32) (index : Nat) : Array UInt32 :=
    let early := words.getD (index + 1) 0
    let late := words.getD (index + 14) 0
    let s0 := rotate early 7 ^^^ rotate early 18 ^^^ (early >>> 3)
    let s1 := rotate late 17 ^^^ rotate late 19 ^^^ (late >>> 10)
    words.push (words.getD index 0 + s0 + words.getD (index + 9) 0 + s1)

private def step (s : State) (word constant : UInt32) : State :=
  let s1 := rotate s.e 6 ^^^ rotate s.e 11 ^^^ rotate s.e 25
  let choice := (s.e &&& s.f) ^^^ ((s.e ^^^ 0xffffffff) &&& s.g)
  let t1 := s.h + s1 + choice + constant + word
  let s0 := rotate s.a 2 ^^^ rotate s.a 13 ^^^ rotate s.a 22
  let majority := (s.a &&& s.b) ^^^ (s.a &&& s.c) ^^^ (s.b &&& s.c)
  ⟨t1 + (s0 + majority), s.a, s.b, s.c, s.d + t1, s.e, s.f, s.g⟩

private def compress (s : State) (block : Array UInt32) : State :=
  let words := schedule block
  let t := (List.range 64).foldl
    (fun t index => step t (words.getD index 0) (roundConstants.getD index 0)) s
  ⟨s.a + t.a, s.b + t.b, s.c + t.c, s.d + t.d, s.e + t.e, s.f + t.f, s.g + t.g, s.h + t.h⟩

/-- The message, a set bit, zeros up to a whole block, and the length in bits. -/
private def pad (message : ByteArray) : ByteArray :=
  let zeros := (119 - message.size % 64) % 64
  let marked := (List.range zeros).foldl (fun bytes _ => bytes.push 0) (message.push 0x80)
  let bits := message.size * 8
  (List.range 8).foldl
    (fun bytes index => bytes.push (UInt8.ofNat (bits >>> (8 * (7 - index))))) marked

private def word (bytes : ByteArray) (start : Nat) : UInt32 :=
  let byte (index : Nat) : UInt32 := (bytes.data.getD (start + index) 0).toUInt32
  (byte 0 <<< 24) ||| (byte 1 <<< 16) ||| (byte 2 <<< 8) ||| byte 3

private def block (bytes : ByteArray) (index : Nat) : Array UInt32 :=
  Array.ofFn fun (position : Fin 16) => word bytes (index * 64 + 4 * position)

private def wordBytes (x : UInt32) : List UInt8 :=
  [(x >>> 24).toUInt8, (x >>> 16).toUInt8, (x >>> 8).toUInt8, x.toUInt8]

/-- The digest in lower-case hexadecimal digits. -/
def sha256 (message : ByteArray) : String :=
  let padded := pad message
  let s := (List.range (padded.size / 64)).foldl
    (fun s index => compress s (block padded index)) initial
  String.ofList <| Text.Hex.encode <|
    [s.a, s.b, s.c, s.d, s.e, s.f, s.g, s.h].flatMap wordBytes

end Stylesheet.Digest
