import Stylesheet.Builtin.Color
import Stylesheet.Builtin.Value

/-!
The table of all functions that are always there.
-/

namespace Stylesheet.Builtin

private def fixed (name : String) (params : List String) (body : Body) : Function :=
  ⟨name, params, params.length, false, body⟩

private def optional (name : String) (params : List String) (required : Nat) (body : Body) :
    Function :=
  ⟨name, params, required, false, body⟩

private def byKeyword (name : String) (params : List String) (body : Body) : Function :=
  ⟨name, params, params.length, true, body⟩

def table : List Function := [
  fixed "rgb" ["red", "green", "blue"] rgb,
  optional "rgba" ["red", "green", "blue", "alpha"] 2 rgba,
  fixed "hsl" ["hue", "saturation", "lightness"] hsl,
  fixed "hsla" ["hue", "saturation", "lightness", "alpha"] hsla,
  fixed "red" ["color"] red,
  fixed "green" ["color"] green,
  fixed "blue" ["color"] blue,
  fixed "hue" ["color"] hue,
  fixed "saturation" ["color"] saturation,
  fixed "lightness" ["color"] lightness,
  fixed "alpha" ["color"] alpha,
  fixed "opacity" ["color"] alpha,
  fixed "opacify" ["color", "amount"] opacify,
  fixed "fade-in" ["color", "amount"] opacify,
  fixed "transparentize" ["color", "amount"] transparentize,
  fixed "fade-out" ["color", "amount"] transparentize,
  fixed "lighten" ["color", "amount"] lighten,
  fixed "darken" ["color", "amount"] darken,
  fixed "saturate" ["color", "amount"] saturate,
  fixed "desaturate" ["color", "amount"] desaturate,
  fixed "adjust-hue" ["color", "degrees"] adjustHue,
  byKeyword "adjust-color" ["color"] adjustColor,
  byKeyword "scale-color" ["color"] scaleColor,
  byKeyword "change-color" ["color"] changeColor,
  optional "mix" ["color-1", "color-2", "weight"] 2 mix,
  fixed "grayscale" ["color"] grayscale,
  fixed "complement" ["color"] complement,
  fixed "invert" ["color"] invert,
  fixed "unquote" ["string"] unquote,
  fixed "quote" ["string"] quote,
  fixed "percentage" ["value"] percentage,
  fixed "round" ["value"] round,
  fixed "ceil" ["value"] ceil,
  fixed "floor" ["value"] floor,
  fixed "abs" ["value"] abs,
  fixed "length" ["list"] length,
  fixed "nth" ["list", "n"] nth,
  optional "join" ["list1", "list2", "separator"] 2 join,
  optional "append" ["list", "val", "separator"] 2 append,
  fixed "type-of" ["value"] typeOf,
  fixed "unit" ["number"] unit,
  fixed "unitless" ["number"] unitless,
  fixed "comparable" ["number-1", "number-2"] comparable,
  fixed "if" ["condition", "if-true", "if-false"] choose]

/-- The function of a name. -/
def find? (name : String) : Option Function :=
  let key := Text.normalizeName name
  table.find? (·.name == key)

end Stylesheet.Builtin
