import Stylesheet.Builtin.Basic

/-!
Functions on colors.
-/

namespace Stylesheet.Builtin

private def rgbChannel (number : Number) : Except CallError Double :=
  if number.hasUnit "%" then
    if number.value.within 0 100 then .ok (number.value * 255 / 100)
    else .error (.argument
      ("Color value " ++ number.inspect ++ " must be between 0% and 100% inclusive"))
  else if number.value.within 0 255 then .ok number.value
  else .error (.argument
    ("Color value " ++ number.inspect ++ " must be between 0 and 255 inclusive"))

private def alphaChannel (number : Number) : Except CallError Double :=
  if number.value.within 0 1 then .ok number.value
  else .error (.argument
    ("Alpha channel " ++ number.inspect ++ " must be between 0 and 1 inclusive"))

def rgb : Body := fun args => do
  let red ← rgbChannel (← args.number 0)
  let green ← rgbChannel (← args.number 1)
  let blue ← rgbChannel (← args.number 2)
  return .color (Color.ofRgba red green blue 1)

/-- A color and its opacity, or three channels and the opacity. -/
def rgba : Body := fun args => do
  match args.leading with
  | 2 =>
    let base ← args.color 0
    let alpha ← alphaChannel (← args.number 1)
    return .color (base.withAlpha alpha)
  | 4 =>
    let red ← rgbChannel (← args.number 0)
    let green ← rgbChannel (← args.number 1)
    let blue ← rgbChannel (← args.number 2)
    let alpha ← alphaChannel (← args.number 3)
    return .color (Color.ofRgba red green blue alpha)
  | count => .error (.argument ("wrong number of arguments (" ++ toString count ++ " for 2 or 4)"))

private def ofHsl (args : Bound) (alpha : Double) : Except CallError Value := do
  let hue := (← args.number 0).value
  let saturation ← inRange "Saturation" (← args.number 1) 0 100 "%"
  let lightness ← inRange "Lightness" (← args.number 2) 0 100 "%"
  return .color (Color.ofHsla hue saturation lightness alpha)

def hsl : Body := fun args => ofHsl args 1

def hsla : Body := fun args => do
  let alpha ← alphaChannel (← args.number 3)
  ofHsl args alpha

def red : Body := fun args => return .ofDouble (← args.color 0).red

def green : Body := fun args => return .ofDouble (← args.color 0).green

def blue : Body := fun args => return .ofDouble (← args.color 0).blue

def hue : Body := fun args => return .number (Number.ofUnit (← args.color 0).hue "deg")

def saturation : Body := fun args => return .number (Number.ofUnit (← args.color 0).saturation "%")

def lightness : Body := fun args => return .number (Number.ofUnit (← args.color 0).lightness "%")

/-- The opacity of a color. A filter such as `opacity=50` stays as it is. -/
def alpha : Body := fun args => do
  match ← args.value 0 with
  | .text content false =>
    if content.startsWith "opacity=" then return .unquoted ("alpha(" ++ content ++ ")")
    else return .ofDouble (← args.color 0).alpha
  | _ => return .ofDouble (← args.color 0).alpha

/-- Move the saturation of the first argument by the second. -/
private def moveSaturation (sign : Double) : Body := fun args => do
  let base ← args.color 0
  let amount ← inRange "Amount" (← args.number 1) 0 100 "%"
  return .color
    (base.withHsl base.hue ((base.saturation + sign * amount).clamp 0 100) base.lightness)

private def moveLightness (sign : Double) : Body := fun args => do
  let base ← args.color 0
  let amount ← inRange "Amount" (← args.number 1) 0 100 "%"
  return .color
    (base.withHsl base.hue base.saturation ((base.lightness + sign * amount).clamp 0 100))

private def moveAlpha (sign : Double) : Body := fun args => do
  let base ← args.color 0
  let amount ← inRange "Amount" (← args.number 1) 0 1 ""
  return .color (base.withAlpha ((base.alpha + sign * amount).clamp 0 1))

def opacify : Body := moveAlpha 1

def transparentize : Body := moveAlpha (-1)

def lighten : Body := moveLightness 1

def darken : Body := moveLightness (-1)

def saturate : Body := moveSaturation 1

def desaturate : Body := moveSaturation (-1)

def adjustHue : Body := fun args => do
  let base ← args.color 0
  let amount ← args.number 1
  return .color (base.withHsl (base.hue + amount.value) base.saturation base.lightness)

/-- A channel that can be given by keyword. -/
inductive Channel where
  | red
  | green
  | blue
  | hue
  | saturation
  | lightness
  | alpha
deriving Repr, DecidableEq

namespace Channel

/-- All channels, in the order in which their keywords are looked at. -/
def all : List Channel := [red, green, blue, hue, saturation, lightness, alpha]

def name : Channel → String
  | red => "red"
  | green => "green"
  | blue => "blue"
  | hue => "hue"
  | saturation => "saturation"
  | lightness => "lightness"
  | alpha => "alpha"

/-- The largest value; hues have none. -/
def limit? : Channel → Option Double
  | red | green | blue => some 255
  | hue => none
  | saturation | lightness => some 100
  | alpha => some 1

def unit : Channel → String
  | saturation | lightness => "%"
  | _ => ""

def ofColor : Channel → Color → Double
  | red, color => color.red
  | green, color => color.green
  | blue, color => color.blue
  | hue, color => color.hue
  | saturation, color => color.saturation
  | lightness, color => color.lightness
  | alpha, color => color.alpha

def isRgb : Channel → Bool
  | red | green | blue => true
  | _ => false

def isHsl : Channel → Bool
  | hue | saturation | lightness => true
  | _ => false

/-- The error for an amount out of bounds. -/
def rangeError (channel : Channel) (number : Number) (low high : Double) (unit : String) :
    CallError :=
  .argument ("$" ++ channel.name ++ ": Amount " ++ number.inspect ++ " must be between " ++
    Number.valueText low ++ unit ++ " and " ++ Number.valueText high ++ unit)

end Channel

/-- The new values of the channels that the keywords name. -/
private def channelChanges (base : Color) (keywords : Bindings String Value)
    (change : Channel → Number → Double → Except CallError Double) :
    List Channel → Except CallError (List (Channel × Double))
  | [] => .ok []
  | channel :: rest => do
    match keywords.find? channel.name with
    | none => channelChanges base keywords change rest
    | some (.number number) =>
      let value ← change channel number (channel.ofColor base)
      return (channel, value) :: (← channelChanges base keywords change rest)
    | some other =>
      .error (.argument ("$" ++ channel.name ++ ": " ++ other.inspect ++ " is not a number"))

private def unknownKeyword (name : String) (value : Value) : CallError :=
  .argument ("Unknown argument $" ++ name ++ " (" ++ value.inspect ++ ")")

/-- Change the channels that the keywords name. Red, green and blue do not go together with hue,
saturation and lightness. -/
private def changeChannels (change : Channel → Number → Double → Except CallError Double)
    (args : Bound) : Except CallError Value := do
  let base ← args.color 0
  let changes ← channelChanges base args.keywords change Channel.all
  match List.find? (fun (name, _) => !Channel.all.any (·.name == name)) args.keywords with
  | some (name, value) => .error (unknownKeyword name value)
  | none =>
    let touchesRgb := changes.any fun (channel, _) => channel.isRgb
    let touchesHsl := changes.any fun (channel, _) => channel.isHsl
    let get := fun (channel : Channel) =>
      (List.lookup channel changes).getD (channel.ofColor base)
    if touchesRgb && touchesHsl then
      .error (.argument "Cannot specify HSL and RGB values for a color at the same time")
    else if touchesRgb then
      return .color (Color.ofRgba (get .red) (get .green) (get .blue) (get .alpha))
    else if touchesHsl then
      return .color (Color.ofHsla (get .hue) (get .saturation) (get .lightness) (get .alpha))
    else return .color (base.withAlpha (get .alpha))

/-- Move channels by amounts. -/
def adjustColor : Body := changeChannels fun channel number current =>
  match channel.limit? with
  | none => .ok (current + number.value)
  | some limit =>
    if number.value.within (-limit) limit then
      .ok ((current + number.value).clamp 0 limit)
    else .error (channel.rangeError number (-limit) limit channel.unit)

/-- Move channels by a part of the way to the largest or smallest value. -/
def scaleColor : Body := fun args =>
  match args.keywords.find? Channel.hue.name with
  | some value => .error (unknownKeyword Channel.hue.name value)
  | none =>
    changeChannels
      (fun channel number current =>
        if !number.hasUnit "%" then
          .error (.argument ("$" ++ channel.name ++ ": Amount " ++ number.inspect ++
            " must be a % (e.g. " ++ Number.valueText number.value ++ "%)"))
        else if !number.value.within (-100) 100 then
          .error (channel.rangeError number (-100) 100 "%")
        else
          let limit := channel.limit?.getD 360
          let scale := number.value / 100
          let room := if scale > 0 then limit - current else current
          .ok (current + room * scale))
      args

/-- Replace channels. -/
def changeColor : Body := changeChannels fun channel number _ =>
  match channel.limit? with
  | none => .ok number.value
  | some limit =>
    if number.value.within 0 limit then .ok number.value
    else .error (channel.rangeError number 0 limit channel.unit)

/-- A weighted mean. The weight of a color also grows with its opacity. -/
def mix : Body := fun args => do
  let first ← args.color 0
  let second ← args.color 1
  let weight ← args.numberOr 2 (Number.ofUnit 50 "%")
  let part := (← inRange "Weight" weight 0 100 "%") / 100
  let w := part * 2 - 1
  let a := first.alpha - second.alpha
  let firstWeight := ((if w * a == -1 then w else (w + a) / (1 + w * a)) + 1) / 2
  let secondWeight := 1 - firstWeight
  let mean := fun (x y : Double) => x * firstWeight + y * secondWeight
  let channels := first.rgb.zipWith mean second.rgb
  let alpha := first.alpha * part + second.alpha * (1 - part)
  return .color (Color.ofRgba channels.first channels.second channels.third alpha)

def grayscale : Body := fun args => do
  let base ← args.color 0
  return .color (base.withHsl base.hue 0 base.lightness)

def complement : Body := fun args => do
  let base ← args.color 0
  return .color (base.withHsl (base.hue + 180) base.saturation base.lightness)

def invert : Body := fun args => do
  let base ← args.color 0
  return .color (base.withRgb (255 - base.red) (255 - base.green) (255 - base.blue))

end Stylesheet.Builtin
