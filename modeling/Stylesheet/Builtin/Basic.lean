import Stylesheet.Bindings
import Stylesheet.Value.Arithmetic

/-!
Functions that are always there: how arguments reach their parameters, and how an argument of the
wrong kind is refused.
-/

namespace Stylesheet.Builtin

/-- Why a call fails. -/
inductive CallError where
  /-- The arguments are wrong; the name of the function follows the message. -/
  | argument (message : String)
  | value (error : ValueError)
deriving Repr, DecidableEq

/-- Arguments at the places of their parameters, and keywords without a parameter. -/
structure Bound where
  values : List (Option Value)
  params : List String
  keywords : Bindings String Value

/-- A function that may fail. -/
abbrev Body := Bound → Except CallError Value

/-- A function, by its name and parameters. -/
structure Function where
  name : String
  params : List String
  /-- How many of the parameters need an argument. -/
  required : Nat
  /-- Whether keywords without a parameter are passed on. -/
  isOpen : Bool
  body : Body

namespace Bound

def get? (bound : Bound) (index : Nat) : Option Value :=
  (bound.values[index]?).join

/-- The number of arguments before the first that is missing. -/
def leading (bound : Bound) : Nat :=
  (bound.values.takeWhile Option.isSome).length

def value (bound : Bound) (index : Nat) : Except CallError Value :=
  match bound.get? index with
  | some value => .ok value
  | none => .error (.argument ("Missing argument $" ++ (bound.params[index]?).getD "argument"))

private def notA (value : Value) (kind : String) : CallError :=
  .argument (value.inspect ++ " is not a " ++ kind)

def color (bound : Bound) (index : Nat) : Except CallError Color := do
  match ← bound.value index with
  | .color color => .ok color
  | other => .error (notA other "color")

def number (bound : Bound) (index : Nat) : Except CallError Number := do
  match ← bound.value index with
  | .number number => .ok number
  | other => .error (notA other "number")

/-- The content of a string. -/
def text (bound : Bound) (index : Nat) : Except CallError String := do
  match ← bound.value index with
  | .text content _ => .ok content
  | other => .error (notA other "string")

/-- A number, or another if none was given. -/
def numberOr (bound : Bound) (index : Nat) (otherwise : Number) : Except CallError Number :=
  match bound.get? index with
  | none => .ok otherwise
  | some (.number number) => .ok number
  | some other => .error (notA other "number")

end Bound

/-- The value of a number that has to lie between two bounds, which are shown with a unit. -/
def inRange (what : String) (number : Number) (low high : Double) (unit : String) :
    Except CallError Double :=
  if number.value.within low high then .ok number.value
  else .error (.argument (what ++ " " ++ number.inspect ++ " must be between " ++
    Number.valueText low ++ unit ++ " and " ++ Number.valueText high ++ unit))

namespace Function

private def countError (f : Function) (passed : Nat) : CallError :=
  let expected :=
    if f.required == f.params.length then toString f.required
    else toString f.required ++ ".." ++ toString f.params.length
  .argument ("wrong number of arguments (" ++ toString passed ++ " for " ++ expected ++ ")")

private def bindKeywords (f : Function) (bound : Bound) :
    List (String × Value) → Except CallError Bound
  | [] => .ok bound
  | (keyword, value) :: rest =>
    let name := Text.normalizeName keyword
    match f.params.findIdx? (· == name) with
    | some index =>
      if (bound.get? index).isSome then
        .error (.argument ("Function " ++ f.name ++ " was passed argument $" ++ name ++
          " both by position and by name"))
      else bindKeywords f { bound with values := bound.values.set index (some value) } rest
    | none =>
      if f.isOpen then
        bindKeywords f { bound with keywords := bound.keywords.insert name value } rest
      else
        .error (.argument ("Function " ++ f.name ++ " doesn't have an argument named $" ++ name))

/-- Put arguments at the places of the parameters: by position first, then by name. -/
def bind (f : Function) (positional : List Value) (keywords : List (String × Value)) :
    Except CallError Bound := do
  let passed := positional.length + keywords.length
  if positional.length > f.params.length then .error (f.countError passed)
  else
    let unfilled := List.replicate (f.params.length - positional.length) none
    let bound ← f.bindKeywords ⟨positional.map some ++ unfilled, f.params, []⟩ keywords
    match (bound.values.take f.required).findIdx? Option.isNone with
    | none => .ok bound
    | some missing =>
      if (bound.values.drop missing).any Option.isSome then
        .error (.argument ("Function " ++ f.name ++ " requires an argument named $" ++
          (f.params[missing]?).getD ""))
      else .error (f.countError passed)

/-- Call the function. -/
def invoke (f : Function) (positional : List Value) (keywords : List (String × Value)) :
    Except CallError Value := do
  f.body (← f.bind positional keywords)

end Function

end Stylesheet.Builtin
