import Stylesheet.Style
import Stylesheet.Text.Hex
import Stylesheet.Value.Number

/-!
Colors. A color is given by its red, green and blue channels or by hue, saturation and lightness,
and the other three are computed from those. Given channels are cut to whole numbers, computed
ones are rounded.
-/

namespace Stylesheet

/-- Three channels of a color. -/
structure Channels where
  first : Double
  second : Double
  third : Double
deriving Repr

namespace Channels

def map (f : Double → Double) (c : Channels) : Channels :=
  ⟨f c.first, f c.second, f c.third⟩

def zipWith (f : Double → Double → Double) (a b : Channels) : Channels :=
  ⟨f a.first b.first, f a.second b.second, f a.third b.third⟩

def toList (c : Channels) : List Double :=
  [c.first, c.second, c.third]

def equals (a b : Channels) : Bool :=
  a.first == b.first && a.second == b.second && a.third == b.third

end Channels

/-- How the hue of a color was fixed: by light or by hue. -/
inductive ColorSpace where
  | rgb (channels : Channels)
  | hsl (channels : Channels)
deriving Repr

/-- How a color was written. -/
structure Spelling where
  text : String
  filled : text ≠ ""
deriving Repr

/-- A color, its opacity and, if it stands as it was written, its spelling. -/
structure Color where
  space : ColorSpace
  alpha : Double
  written : Option Spelling
deriving Repr

namespace Color

def spelling (color : Color) : Option String :=
  color.written.map (·.text)

/-- The named colors, in the order in which names are preferred. -/
def names : List (String × Nat × Nat × Nat) := [
  ("black", 0, 0, 0),
  ("silver", 192, 192, 192),
  ("gray", 128, 128, 128),
  ("white", 255, 255, 255),
  ("maroon", 128, 0, 0),
  ("red", 255, 0, 0),
  ("purple", 128, 0, 128),
  ("fuchsia", 255, 0, 255),
  ("green", 0, 128, 0),
  ("lime", 0, 255, 0),
  ("olive", 128, 128, 0),
  ("yellow", 255, 255, 0),
  ("navy", 0, 0, 128),
  ("blue", 0, 0, 255),
  ("teal", 0, 128, 128),
  ("aqua", 0, 255, 255)]

/-- A color by red, green, blue and opacity, each confined to its range. -/
def ofRgba (red green blue alpha : Double) : Color :=
  let channel (x : Double) := (x.clamp 0 255).truncate
  ⟨.rgb ⟨channel red, channel green, channel blue⟩, alpha.clamp 0 1, none⟩

/-- A color by hue, saturation, lightness and opacity; the hue turns, the others are confined. -/
def ofHsla (hue saturation lightness alpha : Double) : Color :=
  ⟨.hsl ⟨hue.euclideanRemainder 360, saturation.clamp 0 100, lightness.clamp 0 100⟩,
    alpha.clamp 0 1, none⟩

def withSpelling (color : Color) (spelling : String) : Color :=
  { color with written := if filled : spelling ≠ "" then some ⟨spelling, filled⟩ else none }

/-- Two hexadecimal digits, or one behind a plus sign. -/
private def hexPair? : Char → Char → Option Nat
  | '+', low => Text.Hex.digit? low
  | high, low => Text.Hex.number? [high, low]

private def ofHexDigits? : List Char → Option Color
  | [r1, r2, g1, g2, b1, b2] => do
    let red ← hexPair? r1 r2
    let green ← hexPair? g1 g2
    let blue ← hexPair? b1 b2
    some (ofRgba (Double.ofNat red) (Double.ofNat green) (Double.ofNat blue) 1)
  | _ => none

/-- A color by three or six hexadecimal digits, with or without a hash in front. -/
def ofHex? (text : String) : Option Color :=
  let digits := match text.toList with
    | '#' :: digits => digits
    | digits => digits
  let expanded := match digits with
    | [r, g, b] => [r, r, g, g, b, b]
    | digits => digits
  (ofHexDigits? expanded).map (withSpelling · text)

/-- The color of a name given in any case. -/
def ofName? (name : String) : Option Color :=
  (names.find? (·.1 == Text.lower name)).map fun (_, red, green, blue) =>
    (ofRgba (Double.ofNat red) (Double.ofNat green) (Double.ofNat blue) 1).withSpelling name

private def hueToLight (m1 m2 hue : Double) : Double :=
  let hue := if hue < 0 then hue + 1 else hue
  let hue := if hue > 1 then hue - 1 else hue
  if hue * 6 < 1 then m1 + (m2 - m1) * hue * 6
  else if hue * 2 < 1 then m2
  else if hue * 3 < 2 then m1 + (m2 - m1) * (2.0 / 3.0 - hue) * 6
  else m1

private def hslToRgb (c : Channels) : Channels :=
  let h := c.first / 360
  let s := c.second / 100
  let l := c.third / 100
  let m2 := if l ≤ 0.5 then l * (s + 1) else l + s - l * s
  let m1 := l * 2 - m2
  (Channels.mk (h + 1.0 / 3.0) h (h - 1.0 / 3.0)).map fun t => (hueToLight m1 m2 t * 255).round

private def rgbToHsl (c : Channels) : Channels :=
  let r := c.first / 255
  let g := c.second / 255
  let b := c.third / 255
  let max := (r.larger g).larger b
  let min := (r.smaller g).smaller b
  let delta := max - min
  let hue :=
    if max == min then 0
    else if max == r then 60 * (g - b) / delta
    else if max == g then 60 * (b - r) / delta + 120
    else 60 * (r - g) / delta + 240
  let lightness := (max + min) / 2
  let saturation :=
    if max == min then 0
    else if lightness < 0.5 then delta / (2 * lightness)
    else delta / (2 - 2 * lightness)
  ⟨Double.euclideanRemainder hue 360, saturation * 100, lightness * 100⟩

/-- Red, green and blue. -/
def rgb (color : Color) : Channels :=
  match color.space with
  | .rgb channels => channels
  | .hsl channels => hslToRgb channels

/-- Hue, saturation and lightness. -/
def hsl (color : Color) : Channels :=
  match color.space with
  | .rgb channels => rgbToHsl channels
  | .hsl channels => channels

def red (color : Color) : Double := color.rgb.first

def green (color : Color) : Double := color.rgb.second

def blue (color : Color) : Double := color.rgb.third

def hue (color : Color) : Double := color.hsl.first

def saturation (color : Color) : Double := color.hsl.second

def lightness (color : Color) : Double := color.hsl.third

/-- Whether the color lets anything through. -/
def isTranslucent (color : Color) : Bool :=
  color.alpha < 1

def withRgb (color : Color) (red green blue : Double) : Color :=
  ofRgba red green blue color.alpha

def withHsl (color : Color) (hue saturation lightness : Double) : Color :=
  ofHsla hue saturation lightness color.alpha

def withAlpha (color : Color) (alpha : Double) : Color :=
  let channels := color.rgb
  ofRgba channels.first channels.second channels.third alpha

/-- The same light and the same opacity. -/
def equals (a b : Color) : Bool :=
  a.rgb.equals b.rgb && a.alpha == b.alpha

private def byteText (x : Double) : List Char :=
  Text.Hex.pair (Double.saturate 0 255 x).toNat

private def hexChars (color : Color) : List Char :=
  color.rgb.toList.flatMap byteText

/-- Six hexadecimal digits behind a hash. -/
def hexText (color : Color) : String :=
  String.ofList ('#' :: color.hexChars)

/-- The first name of exactly these channels. -/
def name? (color : Color) : Option String :=
  (names.find? fun (_, red, green, blue) =>
    Channels.equals ⟨Double.ofNat red, Double.ofNat green, Double.ofNat blue⟩ color.rgb).map (·.1)

/-- The shortest way to write an opaque color. -/
def shortestText (color : Color) : String :=
  let short := match color.hexChars with
    | [r1, r2, g1, g2, b1, b2] =>
      if r1 == r2 && g1 == g2 && b1 == b2 then String.ofList ['#', r1, g1, b1] else color.hexText
    | _ => color.hexText
  match color.name? with
  | some name => if name.length ≤ short.length then name else short
  | none => short

private def rgbaText (color : Color) (style : Style) : String :=
  "rgba(" ++ style.comma.intercalate
    ((color.rgb.toList ++ [color.alpha]).map Number.valueText) ++ ")"

/-- The color as CSS: `rgba` if translucent, else the spelling, the name or the digits. -/
def toCss (color : Color) (style : Style) : String :=
  if color.isTranslucent then color.rgbaText style
  else if style.isCompressed then color.shortestText
  else match color.spelling with
    | some spelling => spelling
    | none => color.name?.getD color.hexText

/-- What a color can be combined with. -/
inductive Operand where
  | number (n : Number)
  | color (c : Color)

/-- Combine channel by channel with a unitless number or a color of the same opacity. -/
def piecewise (color : Color) (operand : Operand) (operator : String)
    (apply : Double → Double → Double) : Except ValueError Color :=
  match operand with
  | .number n =>
    if n.isUnitless then
      let c := color.rgb.map (apply · n.value)
      .ok (color.withRgb c.first c.second c.third)
    else .error (.unitsWithColor n.inspect (color.toCss .nested))
  | .color other =>
    if other.alpha != color.alpha then
      .error (.alphaMismatch (color.toCss .nested) operator (other.toCss .nested))
    else
      let c := color.rgb.zipWith apply other.rgb
      .ok (color.withRgb c.first c.second c.third)

def plus (color : Color) (operand : Operand) : Except ValueError Color :=
  color.piecewise operand "+" (· + ·)

def minus (color : Color) (operand : Operand) : Except ValueError Color :=
  color.piecewise operand "-" (· - ·)

def times (color : Color) (operand : Operand) : Except ValueError Color :=
  color.piecewise operand "*" (· * ·)

def div (color : Color) (operand : Operand) : Except ValueError Color :=
  color.piecewise operand "/" (· / ·)

def modulo (color : Color) (operand : Operand) : Except ValueError Color :=
  color.piecewise operand "%" Double.euclideanRemainder

end Color

end Stylesheet
