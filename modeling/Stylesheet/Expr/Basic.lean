import Stylesheet.Source.Span
import Stylesheet.Value.Basic

/-!
Expressions, and text with expressions in it.
-/

namespace Stylesheet

/-- Operators between two expressions. -/
inductive BinaryOp where
  /-- The `=` of filter arguments. -/
  | singleEq
  | or
  | and
  | eq
  | neq
  | gt
  | gte
  | lt
  | lte
  | plus
  | minus
  | times
  | div
  | mod
deriving Repr, DecidableEq

namespace BinaryOp

/-- How tightly an operator binds; more is tighter. -/
def precedence : BinaryOp → Nat
  | singleEq => 0
  | or => 1
  | and => 2
  | eq | neq => 3
  | gt | gte | lt | lte => 4
  | plus | minus => 5
  | times | div | mod => 6

def toText : BinaryOp → String
  | singleEq => "="
  | or => "or"
  | and => "and"
  | eq => "=="
  | neq => "!="
  | gt => ">"
  | gte => ">="
  | lt => "<"
  | lte => "<="
  | plus => "+"
  | minus => "-"
  | times => "*"
  | div => "/"
  | mod => "%"

end BinaryOp

/-- Operators in front of an expression. -/
inductive UnaryOp where
  | plus
  | minus
  | div
  | not
deriving Repr, DecidableEq

namespace UnaryOp

def toText : UnaryOp → String
  | plus => "+"
  | minus => "-"
  | div => "/"
  | not => "not"

end UnaryOp

mutual

/-- An expression: its form and its place. -/
inductive Expr where
  | mk (form : Form) (line : Nat) (span : Span)

/-- The forms of expressions. -/
inductive Form where
  | literal (value : Value)
  /-- A variable, by its name without the dollar sign. -/
  | variable (name : String)
  /-- A string with expressions in it. -/
  | text (quoted : Bool) (parts : List Part)
  /-- An expression in plain text, with what stands on either side of it. -/
  | interpolation (before : Option Expr) (middle : Expr) (after : Option Expr)
      (spaceBefore spaceAfter : Bool)
  | list (items : List Expr) (separator : Separator)
  | binary (op : BinaryOp) (left right : Expr)
  | unary (op : UnaryOp) (operand : Expr)
  | call (name : String) (args : Arguments)
  | paren (inner : Expr)

/-- A piece of text, or an expression whose value stands in the text. -/
inductive Part where
  | text (content : String)
  | expr (e : Expr)

/-- Arguments by position and by name. -/
inductive Arguments where
  | mk (positional : List Expr) (keywords : List (String × Expr))

end

namespace Arguments

def none : Arguments := mk [] []

def positional : Arguments → List Expr
  | mk positional _ => positional

def keywords : Arguments → List (String × Expr)
  | mk _ keywords => keywords

end Arguments

namespace Expr

def form : Expr → Form
  | mk form _ _ => form

def line : Expr → Nat
  | mk _ line _ => line

def span : Expr → Span
  | mk _ _ span => span

def literal (value : Value) (line : Nat) (span : Span) : Expr :=
  mk (.literal value) line span

end Expr

/-- A parameter of a mixin or function and its default. -/
structure Param where
  name : String
  defaultValue : Option Expr

/-- Text with expressions in it. -/
abbrev Template := List Part

namespace Template

/-- Add text at the end, as part of the last piece if that is text. -/
def pushText (parts : Template) (content : String) : Template :=
  if content.isEmpty then parts
  else match parts.getLast? with
    | some (.text last) => parts.dropLast ++ [.text (last ++ content)]
    | _ => parts ++ [.text content]

def ofText (content : String) : Template :=
  pushText [] content

def pushExpr (parts : Template) (e : Expr) : Template :=
  parts ++ [.expr e]

/-- Add all parts of another template. -/
def append (parts others : Template) : Template :=
  others.foldl
    (fun parts part =>
      match part with
      | .text content => pushText parts content
      | .expr e => pushExpr parts e)
    parts

def trimFirst : Template → Template
  | .text content :: rest => .text (Text.trimStart content) :: rest
  | parts => parts

def trimLast (parts : Template) : Template :=
  match parts.getLast? with
  | some (.text content) => parts.dropLast ++ [.text (Text.trimEnd content)]
  | _ => parts

/-- Drop the blanks at both ends. -/
def trimmed (parts : Template) : Template :=
  (trimLast (trimFirst parts)).filter fun
    | .text content => !content.isEmpty
    | .expr _ => true

end Template

end Stylesheet
