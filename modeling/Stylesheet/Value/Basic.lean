import Stylesheet.Text.Quoted
import Stylesheet.Value.Color

/-!
Values of the expression language and their text.
-/

namespace Stylesheet

/-- What stands between the items of a list. -/
inductive Separator where
  | space
  | comma
deriving Repr, DecidableEq

/-- What an expression evaluates to. -/
inductive Value where
  | number (n : Number)
  | color (c : Color)
  | text (content : String) (quoted : Bool)
  | bool (b : Bool)
  | list (items : List Value) (separator : Separator)
deriving Repr

namespace Separator

def name : Separator → String
  | .space => "space"
  | .comma => "comma"

/-- The separator as it is written. -/
def toText (style : Style) : Separator → String
  | .space => " "
  | .comma => style.comma

end Separator

namespace Value

def ofDouble (x : Double) : Value :=
  .number (Number.ofDouble x)

def quoted (content : String) : Value :=
  .text content true

def unquoted (content : String) : Value :=
  .text content false

def typeName : Value → String
  | number _ => "number"
  | color _ => "color"
  | text .. => "string"
  | bool _ => "bool"
  | list .. => "list"

/-- Only `false` counts as false. -/
def isTruthy : Value → Bool
  | bool false => false
  | _ => true

/-- The items of a list; any other value is a list of itself. -/
def toItems : Value → List Value
  | list items _ => items
  | other => [other]

/-- The separator of a list that has items. -/
def separator? : Value → Option Separator
  | list (_ :: _) separator => some separator
  | _ => none

/-- A number forgets how it was written. -/
def withoutSpelling : Value → Value
  | number n => number n.withoutSpelling
  | other => other

def isEmptyList : Value → Bool
  | list [] _ => true
  | _ => false

private def boolText (b : Bool) : String :=
  if b then "true" else "false"

private def stringText (content : String) (quoted : Bool) : String :=
  if quoted then Text.quote content else Text.replaceChar '\n' ' ' content

mutual

/-- The value as CSS. -/
def toCss (style : Style) : Value → Except ValueError String
  | number n => n.toCss
  | color c => .ok (c.toCss style)
  | text content quoted => .ok (stringText content quoted)
  | bool b => .ok (boolText b)
  | list [] _ => .error (.invalidCss "()")
  | list items separator => do
    let parts ← itemsToCss style items
    .ok ((separator.toText style).intercalate parts)

/-- The items of a list as CSS; empty lists are left out. -/
def itemsToCss (style : Style) : List Value → Except ValueError (List String)
  | [] => .ok []
  | item :: rest =>
    if item.isEmptyList then itemsToCss style rest
    else do
      let head ← toCss style item
      let tail ← itemsToCss style rest
      .ok (head :: tail)

end

/-- The value as it is put into other text: strings without quotes. -/
def interpolated (style : Style) : Value → Except ValueError String
  | text content _ => .ok content
  | other => other.toCss style

mutual

/-- The value as messages show it. -/
def inspect : Value → String
  | number n => n.spelling.getD n.inspect
  | color c => c.toCss .nested
  | text content quoted => stringText content quoted
  | bool b => boolText b
  | list [] _ => "()"
  | list items separator => (separator.toText .nested).intercalate (inspectItems items)

/-- The items of a list as messages show them; empty lists are left out. -/
def inspectItems : List Value → List String
  | [] => []
  | item :: rest =>
    if item.isEmptyList then inspectItems rest else inspect item :: inspectItems rest

end

mutual

/-- Equality of the expression language: quotes do not matter and numbers are converted. -/
def equals : Value → Value → Bool
  | number a, number b => a.equals b
  | color a, color b => a.equals b
  | text a _, text b _ => a == b
  | bool a, bool b => a == b
  | list as s, list bs t => s == t && equalItems as bs
  | _, _ => false

def equalItems : List Value → List Value → Bool
  | [], [] => true
  | a :: as, b :: bs => equals a b && equalItems as bs
  | _, _ => false

end

mutual

/-- Equality as data: the same kind, units, quotes and separators. -/
def same : Value → Value → Bool
  | number a, number b => a.same b
  | color a, color b => a.equals b
  | text a p, text b q => a == b && p == q
  | bool a, bool b => a == b
  | list as s, list bs t => s == t && sameItems as bs
  | _, _ => false

def sameItems : List Value → List Value → Bool
  | [], [] => true
  | a :: as, b :: bs => same a b && sameItems as bs
  | _, _ => false

end

end Value

end Stylesheet
