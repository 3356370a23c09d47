/-!
Structured data from outside, such as a configuration file: what all formats for it have in
common.
-/

namespace Stylesheet

inductive Document where
  | null
  | bool (value : Bool)
  | integer (value : Int)
  /-- A number that is not written as an integer, or a date. -/
  | scalar (text : String)
  | text (value : String)
  | list (items : List Document)
  | table (entries : List (String × Document))
deriving Inhabited

namespace Document

/-- The entry of a key in a table. -/
def field? (document : Document) (key : String) : Option Document :=
  match document with
  | table entries => List.lookup key entries
  | _ => none

def bool? : Document → Option Bool
  | bool value => some value
  | _ => none

def text? : Document → Option String
  | text value => some value
  | _ => none

/-- A text, or nothing at all. -/
def optionalText? : Document → Option (Option String)
  | null => some none
  | text value => some (some value)
  | _ => none

/-- An integer that is not negative and fits in 64 bits. -/
def nat? : Document → Option Nat
  | integer value => if 0 ≤ value && value < Int.pow 2 64 then some value.toNat else none
  | _ => none

def texts? : Document → Option (List String)
  | list items => items.mapM text?
  | _ => none

def isNull : Document → Bool
  | null => true
  | _ => false

def isEmptyTable : Document → Bool
  | table [] => true
  | _ => false

/-- One of several names: alone, or as the only key of a table, with nothing behind it. Formats
write in different ways that there is nothing, so `isVoid` has to tell. -/
def name? (isVoid : Document → Bool) : Document → Option String
  | text value => some value
  | table [(key, value)] => if isVoid value then some key else none
  | _ => none

end Document

end Stylesheet
