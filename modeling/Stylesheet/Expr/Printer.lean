import Stylesheet.Expr.Basic

/-!
Expressions as source text.
-/

namespace Stylesheet

private def UnaryOp.beforeOperand : UnaryOp → String
  | .not => "not "
  | op => op.toText

mutual

def Expr.toText : Expr → String
  | .mk form _ _ => form.toText

def Form.toText : Form → String
  | .literal value => value.inspect
  | .variable name => "$" ++ name
  | .text quoted parts =>
    let quote := if quoted then "\"" else ""
    quote ++ Part.listToText parts ++ quote
  | .interpolation before middle after spaceBefore spaceAfter =>
    (match before with
      | some e => e.toText ++ (if spaceBefore then " " else "")
      | none => "") ++
    "#\x7b" ++ middle.toText ++ "\x7d" ++
    (match after with
      | some e => (if spaceAfter then " " else "") ++ e.toText
      | none => "")
  | .list [] _ => "()"
  | .list items separator => (separator.toText .nested).intercalate (Expr.listTexts items)
  | .binary op left right => left.toText ++ " " ++ op.toText ++ " " ++ right.toText
  | .unary op operand => op.beforeOperand ++ operand.toText
  | .call name args => name ++ "(" ++ ", ".intercalate (Arguments.texts args) ++ ")"
  | .paren inner => "(" ++ inner.toText ++ ")"

def Part.listToText : List Part → String
  | [] => ""
  | .text content :: rest => content ++ Part.listToText rest
  | .expr e :: rest => "#\x7b" ++ e.toText ++ "\x7d" ++ Part.listToText rest

def Expr.listTexts : List Expr → List String
  | [] => []
  | e :: rest => e.toText :: Expr.listTexts rest

def Arguments.keywordTexts : List (String × Expr) → List String
  | [] => []
  | (name, e) :: rest => ("$" ++ name ++ ": " ++ e.toText) :: Arguments.keywordTexts rest

def Arguments.texts : Arguments → List String
  | .mk positional keywords => Expr.listTexts positional ++ Arguments.keywordTexts keywords

end

end Stylesheet
