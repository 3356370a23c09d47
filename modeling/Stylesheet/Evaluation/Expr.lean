import Stylesheet.Builtin.Table
import Stylesheet.Evaluation.Call

/-!
The value of an expression.
-/

namespace Stylesheet.Evaluation

/-- A quotient of numbers that stand as they were written keeps their spelling. -/
def divide (left right : Value) : Except ValueError Value := do
  match left, right, ← left.div right with
  | .number a, .number b, .number quotient =>
    match a.spelling, b.spelling with
    | some x, some y => return .number (quotient.withSpelling (x ++ "/" ++ y))
    | _, _ => return .number quotient
  | _, _, quotient => return quotient

/-- The value of an operator between two values. -/
def operate (op : BinaryOp) (left right : Value) : Except ValueError Value :=
  match op with
  | .singleEq => left.singleEq right
  | .and => .ok (if left.isTruthy then right else left)
  | .or => .ok (if left.isTruthy then left else right)
  | .eq => .ok (.bool (left.equals right))
  | .neq => .ok (.bool (!left.equals right))
  | .gt => left.gt right
  | .gte => left.gte right
  | .lt => left.lt right
  | .lte => left.lte right
  | .plus => left.plus right
  | .minus => left.minus right
  | .times => left.times right
  | .div => divide left right
  | .mod => left.modulo right

/-- The value of an operator in front of a value. -/
def operateUnary (op : UnaryOp) (value : Value) : Except ValueError Value :=
  match op with
  | .plus => value.unaryPlus
  | .minus => value.unaryMinus
  | .div => value.unaryDiv
  | .not => .ok value.not

/-- Whether the left value decides, so that the right one is not looked at. -/
def decides (op : BinaryOp) (left : Value) : Bool :=
  match op with
  | .and => !left.isTruthy
  | .or => left.isTruthy
  | _ => false

/-- The call of a name that is no function is CSS. -/
def plainCall (name : String) (positional : List Value) (keywords : List (String × Value))
    (line : Nat) (span : Span) : Evaluating Value := do
  match keywords with
  | (keyword, _) :: _ =>
    throw (callError ("Function " ++ name ++ " doesn't have an argument named $" ++ keyword)
      line span)
  | [] =>
    let style := (← options).style
    let texts ← ofValue line span (positional.mapM (Value.toCss style))
    return .unquoted (name ++ "(" ++ ", ".intercalate texts ++ ")")

/-- Call a function of the stylesheet, or else one that is always there, or else write the call
as CSS. -/
def call (run : Runner) (scope : ScopeId) (name : String) (positional : List Value)
    (keywords : List (String × Value)) (line : Nat) (span : Span) : Evaluating Value := do
  match (← get).env.function? scope name with
  | some function => callFunction run function positional keywords line span
  | none =>
    match Builtin.find? name with
    | none => plainCall name positional keywords line span
    | some function =>
      match function.invoke positional keywords with
      | .ok value => return value
      | .error (.argument message) =>
        throw (callError (message ++ " for `" ++ name ++ "'") line span)
      | .error (.value error) => throw (valueError error line span)

/-- The value of a variable. -/
def lookUp (scope : ScopeId) (name : String) (line : Nat) (span : Span) : Evaluating Value := do
  match (← get).env.valueOf? scope name with
  | some value => return value.withoutSpelling
  | none =>
    throw (Diagnostic.error ("Undefined variable: \"$" ++ name ++ "\".")
      |>.withFault .undefinedVariable
      |>.withLabel span "not defined"
      |>.withLine line)

/-- The text of a value as CSS. -/
def cssText (e : Expr) (value : Value) : Evaluating String := do
  ofValue e.line e.span (value.toCss (← options).style)

/-- The text of a value inside of other text. -/
def interpolatedText (e : Expr) (value : Value) : Evaluating String := do
  ofValue e.line e.span (value.interpolated (← options).style)

mutual

/-- The value of an expression in a scope. -/
def expr (run : Runner) (scope : ScopeId) : Expr → Evaluating Value
  | .mk (.literal value) _ _ => return value
  | .mk (.variable name) line span => lookUp scope name line span
  | .mk (.text quoted parts) _ _ => return .text (← template run scope parts) quoted
  | .mk (.interpolation before middle after spaceBefore spaceAfter) _ _ => do
    let left ← side run scope before
    let center ← interpolatedText middle (← expr run scope middle)
    let right ← side run scope after
    return .unquoted (
      (if before.isSome && spaceBefore then left ++ " " else left) ++ center ++
      (if after.isSome && spaceAfter then " " ++ right else right))
  | .mk (.list items separator) _ _ => return .list (← exprs run scope items) separator
  | .mk (.binary op left right) line span => do
    let first ← expr run scope left
    if decides op first then return first
    else
      let second ← expr run scope right
      ofValue line span (operate op first second)
  | .mk (.unary op operand) line span => do
    ofValue line span (operateUnary op (← expr run scope operand))
  | .mk (.call name (.mk positional keywords)) line span => do
    let values ← exprs run scope positional
    let named ← namedExprs run scope keywords
    call run scope name values named line span
  | .mk (.paren inner) _ _ => return (← expr run scope inner).withoutSpelling

/-- The text of what stands on one side of an interpolation. -/
def side (run : Runner) (scope : ScopeId) : Option Expr → Evaluating String
  | none => return ""
  | some e => do cssText e (← expr run scope e)

/-- The values of some expressions, in order. -/
def exprs (run : Runner) (scope : ScopeId) : List Expr → Evaluating (List Value)
  | [] => return []
  | e :: rest => do
    let value ← expr run scope e
    return value :: (← exprs run scope rest)

/-- The values of arguments by name, in order. -/
def namedExprs (run : Runner) (scope : ScopeId) :
    List (String × Expr) → Evaluating (List (String × Value))
  | [] => return []
  | (name, e) :: rest => do
    let value ← expr run scope e
    return (name, value) :: (← namedExprs run scope rest)

/-- Text with the values of the expressions in it. -/
def template (run : Runner) (scope : ScopeId) : List Part → Evaluating String
  | [] => return ""
  | .text content :: rest => return content ++ (← template run scope rest)
  | .expr e :: rest => do
    let text ← interpolatedText e (← expr run scope e)
    return text ++ (← template run scope rest)

end

/-- The values of the arguments of a call: by position, then by name. -/
def arguments (run : Runner) (scope : ScopeId) (args : Arguments) :
    Evaluating (List Value × List (String × Value)) := do
  let values ← exprs run scope args.positional
  return (values, ← namedExprs run scope args.keywords)

end Stylesheet.Evaluation
