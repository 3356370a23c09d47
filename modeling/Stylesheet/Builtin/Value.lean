import Stylesheet.Builtin.Basic

/-!
Functions on numbers, strings and lists, and on values of any kind.
-/

namespace Stylesheet.Builtin

/-! ### Strings -/

/-- A string without its quotes; any other value stays as it is. -/
def unquote : Body := fun args => do
  match ← args.value 0 with
  | .text content _ => return .unquoted content
  | other => return other

def quote : Body := fun args => return .quoted (← args.text 0)

/-! ### Numbers -/

def percentage : Body := fun args => do
  let number ← args.number 0
  if number.isUnitless then return .number (Number.ofUnit (number.value * 100) "%")
  else .error (.argument (number.inspect ++ " is not a unitless number"))

/-- Apply a function to the value of a number and keep its units. -/
private def onValue (f : Double → Double) : Body := fun args => do
  let number ← args.number 0
  return .number (number.withValue (f number.value))

def round : Body := onValue Double.round

def ceil : Body := onValue Double.ceil

def floor : Body := onValue Double.floor

def abs : Body := onValue Double.abs

/-! ### Lists -/

def length : Body := fun args => return .ofDouble (Double.ofNat (← args.value 0).toItems.length)

/-- An item of a list, counted from one. -/
def nth : Body := fun args => do
  let items := (← args.value 0).toItems
  let number ← args.number 1
  let shown := number.inspect
  let index := number.value.round
  if !number.isWhole then .error (.argument ("List index " ++ shown ++ " must be an integer"))
  else if index < 1 then
    .error (.argument ("List index " ++ shown ++ " must be greater than or equal to 1"))
  else if items.isEmpty then
    .error (.argument ("List index is " ++ shown ++ " but list has no items"))
  else match items[(Double.toInt index).toNat - 1]? with
    | some item => return item
    | none =>
      .error (.argument ("List index is " ++ shown ++ " but list is only " ++
        toString items.length ++ " item" ++ (if items.length = 1 then "" else "s") ++ " long"))

/-- The separator that an argument names; `auto` leaves the choice to the lists. -/
private def separatorArgument (args : Bound) (index : Nat) (natural : Option Separator) :
    Except CallError Separator := do
  let name ← if (args.get? index).isSome then args.text index else pure "auto"
  match name with
  | "auto" => return natural.getD .space
  | "space" => return .space
  | "comma" => return .comma
  | _ => .error (.argument "Separator name must be space, comma, or auto")

def join : Body := fun args => do
  let first ← args.value 0
  let second ← args.value 1
  let separator ← separatorArgument args 2 (first.separator? <|> second.separator?)
  return .list (first.toItems ++ second.toItems) separator

def append : Body := fun args => do
  let list ← args.value 0
  let separator ← separatorArgument args 2 list.separator?
  return .list (list.toItems ++ [← args.value 1]) separator

/-! ### Values of any kind -/

def typeOf : Body := fun args => return .unquoted (← args.value 0).typeName

def unit : Body := fun args => return .quoted (← args.number 0).units.toText

def unitless : Body := fun args => return .bool (← args.number 0).isUnitless

def comparable : Body := fun args => do
  let first ← args.number 0
  let second ← args.number 1
  return .bool (first.isComparable second)

/-- The second argument if the first is true, and the third otherwise. -/
def choose : Body := fun args => do
  if (← args.value 0).isTruthy then args.value 1 else args.value 2

end Stylesheet.Builtin
