import Stylesheet.Source.Span
import Stylesheet.Value.Basic

/-!
Tokens of the expression language.
-/

namespace Stylesheet

/-- Operators and punctuation. -/
inductive Mark where
  | plus
  | minus
  | times
  | div
  | mod
  | singleEq
  | colon
  | openParen
  | closeParen
  | comma
  | and
  | or
  | not
  | eq
  | neq
  | gte
  | lte
  | gt
  | lt
  | semicolon
  | openBrace
  | closeBrace
deriving Repr, DecidableEq

namespace Mark

def toText : Mark → String
  | plus => "+"
  | minus => "-"
  | times => "*"
  | div => "/"
  | mod => "%"
  | singleEq => "="
  | colon => ":"
  | openParen => "("
  | closeParen => ")"
  | comma => ","
  | and => "and"
  | or => "or"
  | not => "not"
  | eq => "=="
  | neq => "!="
  | gte => ">="
  | lte => "<="
  | gt => ">"
  | lt => "<"
  | semicolon => ";"
  | openBrace => "\x7b"
  | closeBrace => "\x7d"

end Mark

namespace Token

/-- What a token is. -/
inductive Kind where
  | variable (name : String)
  | ident (name : String)
  /-- A name and the parenthesis behind it. -/
  | function (name : String)
  | number (n : Number)
  | color (c : Color)
  | bool (b : Bool)
  /-- A whole string, or the raw text of a function that is not parsed. -/
  | text (content : String) (quoted : Bool)
  /-- A string up to its first interpolation. -/
  | textStart (content : String) (quoted : Bool)
  /-- A string between two interpolations. -/
  | textMiddle (content : String)
  /-- A string behind its last interpolation. -/
  | textEnd (content : String)
  /-- A word behind an exclamation mark. -/
  | flag (name : String)
  | mark (m : Mark)
  | beginInterpolation
  | endInterpolation
  | endOfInput
deriving Repr

end Token

/-- A token and its place. -/
structure Token where
  kind : Token.Kind
  span : Span
  line : Nat
  /-- A blank stands directly in front of the token. -/
  spaceBefore : Bool
deriving Repr

namespace Token

def isMark (token : Token) (mark : Mark) : Bool :=
  match token.kind with
  | .mark m => m == mark
  | _ => false

def mark? (token : Token) : Option Mark :=
  match token.kind with
  | .mark m => some m
  | _ => none

def isEnd (token : Token) : Bool :=
  match token.kind with
  | .endOfInput => true
  | _ => false

def beginsInterpolation (token : Token) : Bool :=
  match token.kind with
  | .beginInterpolation => true
  | _ => false

def endsInterpolation (token : Token) : Bool :=
  match token.kind with
  | .endInterpolation => true
  | _ => false

end Token

end Stylesheet
