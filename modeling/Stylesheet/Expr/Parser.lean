import Stylesheet.Expr.Basic
import Stylesheet.Token.Lexer

/-!
Reading expressions. From loosest to tightest the levels are: comma lists, `=`, interpolation,
space lists, the binary operators by precedence, unary operators, and primaries. An operator that
touches an interpolation is text, not an operator.

Every step of the recursion that does not read a token goes to a tighter level, so a multiple of
the length of the text bounds it.
-/

namespace Stylesheet

namespace Script

/-- What reading an expression depends on besides the text. -/
structure Context where
  lines : LineIndex
  /-- Where the text to read begins. -/
  origin : Cursor
  /-- Numbers inside parentheses forget how they were written. -/
  inParens : Bool
  /-- Words that end the expression. -/
  stopWords : List String

/-- Reading tokens, which may fail. -/
abbrev Parser := StateT TokenStream (Except Diagnostic)

/-- How loose an expression is read. -/
inductive Level where
  | comma
  | equals
  | space
  | binary (least : Nat)
deriving Repr, DecidableEq

/-- What a missing expression is called. -/
def expressionName : String := "expression (e.g. 1px, bold)"

private def exhausted : Diagnostic :=
  Diagnostic.error "The expression is nested too deeply."

def peek (ctx : Context) : Parser Token := fun s =>
  s.peek ctx.lines

def next (ctx : Context) : Parser Token := fun s =>
  s.next ctx.lines

def unpeek : Parser Unit :=
  modify TokenStream.unpeek

/-- The error for something missing at the place of a token. -/
def expectedAt (ctx : Context) (token : Token) (what : String) : Diagnostic :=
  Scan.expected ctx.lines (ctx.origin.seek token.span.start) what

/-- Fail at the next token. -/
def failExpected (ctx : Context) (what : String) : Parser α := do
  let token ← peek ctx
  throw (expectedAt ctx token what)

def require (ctx : Context) : Option Expr → Parser Expr
  | some e => pure e
  | none => failExpected ctx expressionName

def peekMark (ctx : Context) (mark : Mark) : Parser Bool := do
  let token ← peek ctx
  return token.isMark mark

def atInterpolation (ctx : Context) : Parser Bool := do
  let token ← peek ctx
  return token.beginsInterpolation

def eatMark (ctx : Context) (mark : Mark) : Parser Bool := do
  if ← peekMark ctx mark then
    let _ ← next ctx
    return true
  else return false

def expectMark (ctx : Context) (mark : Mark) (what : String) : Parser Token := do
  let token ← next ctx
  if token.isMark mark then return token
  else throw (expectedAt ctx token what)

def argumentError (message : String) (e : Expr) : Diagnostic :=
  Diagnostic.error message
    |>.withFault .invalidArguments
    |>.withLabel e.span message
    |>.withLine e.line

/-- The operator of a mark, if it stands between two operands. -/
def binaryOp? : Mark → Option BinaryOp
  | .or => some .or
  | .and => some .and
  | .eq => some .eq
  | .neq => some .neq
  | .gt => some .gt
  | .gte => some .gte
  | .lt => some .lt
  | .lte => some .lte
  | .plus => some .plus
  | .minus => some .minus
  | .times => some .times
  | .div => some .div
  | .mod => some .mod
  | _ => none

/-- The operator of a mark, if it stands in front of an operand. -/
def unaryOp? : Mark → Option UnaryOp
  | .plus => some .plus
  | .minus => some .minus
  | .div => some .div
  | .not => some .not
  | _ => none

def binaryExpr (op : BinaryOp) (left right : Expr) : Expr :=
  .mk (.binary op left right) left.line (left.span.union right.span)

/-- A mark as text. -/
def markText (token : Token) : Expr :=
  let content := match token.mark? with
    | some mark => mark.toText
    | none => ""
  Expr.literal (Value.unquoted content) token.line token.span

/-- A list of the items; a single item stands for itself. -/
def listOrSingle (items : List Expr) (separator : Separator) : Expr :=
  match items with
  | [item] => item
  | [] => .mk (.list [] separator) 1 default
  | first :: rest =>
    .mk (.list items separator) first.line (first.span.union (rest.getLastD first).span)

def pushPart (parts : List Part) (content : String) : List Part :=
  if content.isEmpty then parts else parts ++ [.text content]

/-- The level of the operand behind an operator that directly follows an interpolation, if the
level that is being read has this operator. -/
def operandLevel? (level : Level) (token : Token) : Option Level :=
  match level, token.mark? with
  | .comma, some .comma => some .comma
  | .equals, some .singleEq => some .equals
  | .binary least, some mark =>
    match binaryOp? mark with
    | some op => if op.precedence ≥ least then some (.binary op.precedence) else none
    | none => none
  | _, _ => none

mutual

/-- Read at a level. -/
def level (ctx : Context) (l : Level) : Nat → Parser (Option Expr)
  | 0 => throw exhausted
  | fuel + 1 =>
    match l with
    | .comma => comma ctx fuel
    | .equals => equals ctx fuel
    | .space => space ctx fuel
    | .binary least => binary ctx least fuel

/-- Items with commas between them. -/
def comma (ctx : Context) : Nat → Parser (Option Expr)
  | 0 => throw exhausted
  | fuel + 1 => do
    if let some e ← markAfterInterpolation ctx .comma fuel then return some e
    match ← equals ctx fuel with
    | none => return none
    | some first => some <$> commaItems ctx [first] fuel

def commaItems (ctx : Context) (items : List Expr) : Nat → Parser Expr
  | 0 => throw exhausted
  | fuel + 1 => do
    if ← peekMark ctx .comma then
      let token ← next ctx
      if ← atInterpolation ctx then
        markBeforeInterpolation ctx token (some (listOrSingle items .comma)) fuel
      else
        let item ← require ctx (← equals ctx fuel)
        commaItems ctx (items ++ [item]) fuel
    else return listOrSingle items .comma

/-- Operands of `=`. -/
def equals (ctx : Context) : Nat → Parser (Option Expr)
  | 0 => throw exhausted
  | fuel + 1 => do
    if let some e ← markAfterInterpolation ctx .equals fuel then return some e
    match ← interpolation ctx fuel with
    | none => return none
    | some first => some <$> equalsOperands ctx first fuel

def equalsOperands (ctx : Context) (left : Expr) : Nat → Parser Expr
  | 0 => throw exhausted
  | fuel + 1 => do
    if ← peekMark ctx .singleEq then
      let token ← next ctx
      if ← atInterpolation ctx then markBeforeInterpolation ctx token (some left) fuel
      else
        let right ← require ctx (← interpolation ctx fuel)
        equalsOperands ctx (binaryExpr .singleEq left right) fuel
    else return left

/-- A space list with interpolations in it. -/
def interpolation (ctx : Context) : Nat → Parser (Option Expr)
  | 0 => throw exhausted
  | fuel + 1 => do
    let first ← space ctx fuel
    if ← atInterpolation ctx then
      let e ← interpolationStep ctx first fuel
      some <$> interpolationChain ctx e fuel
    else return first

/-- One interpolation and the space list behind it. -/
def interpolationStep (ctx : Context) (before : Option Expr) : Nat → Parser Expr
  | 0 => throw exhausted
  | fuel + 1 => do
    let opened ← next ctx
    let middle ← interpolationBody ctx fuel
    let spaceAfter := (← get).spaceAround
    let after ← space ctx fuel
    let start := match before with
      | some e => e.span
      | none => opened.span
    let stop := match after with
      | some e => e.span
      | none => middle.span
    return .mk (.interpolation before middle after opened.spaceBefore spaceAfter) opened.line
      (start.union stop)

def interpolationChain (ctx : Context) (e : Expr) : Nat → Parser Expr
  | 0 => throw exhausted
  | fuel + 1 => do
    if ← atInterpolation ctx then
      let e ← interpolationStep ctx (some e) fuel
      interpolationChain ctx e fuel
    else return e

/-- The inside of an interpolation and the brace that closes it. -/
def interpolationBody (ctx : Context) : Nat → Parser Expr
  | 0 => throw exhausted
  | fuel + 1 => do
    let e ← require ctx (← comma ctx fuel)
    let close ← next ctx
    if close.endsInterpolation then return e
    else throw (expectedAt ctx close "\"\x7d\"")

/-- An operator right behind an interpolation is text. -/
def markAfterInterpolation (ctx : Context) (l : Level) : Nat → Parser (Option Expr)
  | 0 => throw exhausted
  | fuel + 1 => do
    if !(← get).afterInterpolation then return none
    let token ← peek ctx
    match operandLevel? l token with
    | none => return none
    | some operand =>
      let token ← next ctx
      if ← atInterpolation ctx then
        some <$> markBeforeInterpolation ctx token none fuel
      else
        let spaceAfter := (← get).spaceAround
        let after ← require ctx (← level ctx operand fuel)
        return some (.mk (.interpolation none (markText token) (some after) false spaceAfter)
          token.line (token.span.union after.span))

/-- An operator right before an interpolation is text. -/
def markBeforeInterpolation (ctx : Context) (token : Token) (previous : Option Expr) :
    Nat → Parser Expr
  | 0 => throw exhausted
  | fuel + 1 =>
    let span := match previous with
      | some e => e.span.union token.span
      | none => token.span
    interpolationChain ctx
      (.mk (.interpolation previous (markText token) none token.spaceBefore false) token.line span)
      fuel

/-- Items with nothing between them. -/
def space (ctx : Context) : Nat → Parser (Option Expr)
  | 0 => throw exhausted
  | fuel + 1 => do
    match ← binary ctx 1 fuel with
    | none => return none
    | some first => some <$> spaceItems ctx [first] fuel

def spaceItems (ctx : Context) (items : List Expr) : Nat → Parser Expr
  | 0 => throw exhausted
  | fuel + 1 => do
    match ← binary ctx 1 fuel with
    | some item => spaceItems ctx (items ++ [item]) fuel
    | none => return listOrSingle items .space

/-- Operands of operators that bind at least as tightly as `least`. -/
def binary (ctx : Context) (least : Nat) : Nat → Parser (Option Expr)
  | 0 => throw exhausted
  | fuel + 1 => do
    if let some e ← markAfterInterpolation ctx (.binary least) fuel then return some e
    match ← unary ctx fuel with
    | none => return none
    | some left => some <$> binaryOperands ctx least left fuel

def binaryOperands (ctx : Context) (least : Nat) (left : Expr) : Nat → Parser Expr
  | 0 => throw exhausted
  | fuel + 1 => do
    let token ← peek ctx
    match token.mark?.bind binaryOp? with
    | none => return left
    | some op =>
      if op.precedence < least then return left
      else
        let token ← next ctx
        if ← atInterpolation ctx then markBeforeInterpolation ctx token (some left) fuel
        else
          let right ← require ctx (← binary ctx (op.precedence + 1) fuel)
          binaryOperands ctx least (binaryExpr op left right) fuel

/-- A primary with operators in front. -/
def unary (ctx : Context) : Nat → Parser (Option Expr)
  | 0 => throw exhausted
  | fuel + 1 => do
    let token ← peek ctx
    match token.mark?.bind unaryOp? with
    | none => primary ctx fuel
    | some op =>
      let token ← next ctx
      if ← atInterpolation ctx then
        some <$> markBeforeInterpolation ctx token none fuel
      else
        let operand ← require ctx (← unary ctx fuel)
        return some (.mk (.unary op operand) token.line (token.span.union operand.span))

/-- A literal, a variable, a call, a string or a parenthesis. -/
def primary (ctx : Context) : Nat → Parser (Option Expr)
  | 0 => throw exhausted
  | fuel + 1 => do
    let token ← peek ctx
    let literal (value : Value) : Parser (Option Expr) := do
      let token ← next ctx
      return some (Expr.literal value token.line token.span)
    match token.kind with
    | .function name =>
      let token ← next ctx
      let args ← arguments ctx .equals fuel
      let close ← expectMark ctx .closeParen "\")\""
      return some (.mk (.call name args) token.line (token.span.union close.span))
    | .text content quoted => literal (.text content quoted)
    | .textStart content quoted =>
      let token ← next ctx
      let (parts, stop) ← textParts ctx (pushPart [] content) fuel
      return some (.mk (.text quoted parts) token.line (token.span.union stop))
    | .mark .openParen => some <$> paren ctx fuel
    | .variable name =>
      let token ← next ctx
      return some (.mk (.variable name) token.line token.span)
    | .number n => literal (.number (if ctx.inParens then n.withoutSpelling else n))
    | .color c => literal (.color c)
    | .bool b => literal (.bool b)
    | .ident name =>
      if ctx.stopWords.any (fun word => Text.lower word == Text.lower name) then return none
      else literal (match Color.ofName? name with
        | some color => .color color
        | none => .unquoted name)
    | .flag "important" => literal (.unquoted "!important")
    | _ => return none

/-- An expression in parentheses; nothing in them is the empty list. -/
def paren (ctx : Context) : Nat → Parser Expr
  | 0 => throw exhausted
  | fuel + 1 => do
    let opened ← next ctx
    let inner ← comma { ctx with inParens := true } fuel
    let close ← expectMark ctx .closeParen "\")\""
    let form := match inner with
      | some e => Form.paren e
      | none => .list [] .space
    return .mk form opened.line (opened.span.union close.span)

/-- The expressions and texts of a string behind its first text. -/
def textParts (ctx : Context) (parts : List Part) : Nat → Parser (List Part × Span)
  | 0 => throw exhausted
  | fuel + 1 => do
    let e ← require ctx (← comma ctx fuel)
    let token ← next ctx
    match token.kind with
    | .textMiddle content => textParts ctx (pushPart (parts ++ [.expr e]) content) fuel
    | .textEnd content => return (pushPart (parts ++ [.expr e]) content, token.span)
    | _ => throw (expectedAt ctx token "\"\x7d\"")

/-- Arguments up to the closing parenthesis, those by name last. -/
def arguments (ctx : Context) (l : Level) : Nat → Parser Arguments
  | 0 => throw exhausted
  | fuel + 1 => do
    if ← peekMark ctx .closeParen then return .none
    else argumentItems ctx l [] [] fuel

def argumentItems (ctx : Context) (l : Level) (positional : List Expr)
    (keywords : List (String × Expr)) : Nat → Parser Arguments
  | 0 => throw exhausted
  | fuel + 1 => do
    let e ← require ctx (← level ctx l fuel)
    let (positional, keywords) ←
      if ← peekMark ctx .colon then
        match e.form with
        | .variable name =>
          let _ ← next ctx
          let value ← require ctx (← level ctx l fuel)
          let key := Text.normalizeName name
          if keywords.any (fun (other, _) => Text.normalizeName other == key) then
            throw (argumentError
              ("Keyword argument \"$" ++ name ++ "\" passed more than once") e)
          else pure (positional, keywords ++ [(name, value)])
        | _ => failExpected ctx "comma"
      else if !keywords.isEmpty then
        throw (argumentError "Positional arguments must come before keyword arguments." e)
      else pure (positional ++ [e], keywords)
    if ← eatMark ctx .comma then argumentItems ctx l positional keywords fuel
    else return .mk positional keywords

end

/-- Enough steps to read the text at a place. -/
def enough (c : Cursor) : Nat :=
  16 * (c.rest.length + 2)

def contextAt (lines : LineIndex) (c : Cursor) : Context :=
  ⟨lines, c, false, []⟩

/-- Run a parser on the text at a place, and give the place behind what it read. -/
def runAt (c : Cursor) (parser : Parser α) : Except Diagnostic (α × Cursor) :=
  (parser.run (TokenStream.ofCursor c)).map fun (a, s) => (a, s.position)

/-- Read an expression, up to one of the given words if there are any. -/
def parse (lines : LineIndex) (c : Cursor) (stopWords : List String) :
    Except Diagnostic (Expr × Cursor) :=
  let ctx := { contextAt lines c with stopWords }
  runAt c do
    let e ← require ctx (← comma ctx (enough c))
    unpeek
    return e

/-- Read the inside of an interpolation whose opening stands right before the place. -/
def parseInterpolation (lines : LineIndex) (c : Cursor) : Except Diagnostic (Expr × Cursor) :=
  let ctx := contextAt lines c
  runAt c do
    modify TokenStream.enterInterpolation
    interpolationBody ctx (enough c)

/-- Read arguments in parentheses, if there are any. -/
def parseArguments (lines : LineIndex) (c : Cursor) : Except Diagnostic (Arguments × Cursor) :=
  let ctx := contextAt lines c
  runAt c do
    if ← eatMark ctx .openParen then
      let args ← arguments ctx .space (enough c)
      let _ ← expectMark ctx .closeParen "\")\""
      return args
    else
      unpeek
      return .none

def paramItems (ctx : Context) (params : List Param) : Nat → Parser (List Param)
  | 0 => throw exhausted
  | fuel + 1 => do
    let token ← next ctx
    match token.kind with
    | .variable name =>
      let isOptional ← do
        if ← eatMark ctx .colon then pure true else eatMark ctx .singleEq
      let defaultValue ←
        if isOptional then some <$> (do require ctx (← space ctx (enough ctx.origin)))
        else if params.any (·.defaultValue.isSome) then
          let message :=
            "Required argument $" ++ name ++ " must come before any optional arguments."
          throw (Diagnostic.error message
            |>.withFault .invalidArguments
            |>.withLabel token.span message
            |>.withLine token.line)
        else pure none
      let params := params ++ [⟨name, defaultValue⟩]
      if ← eatMark ctx .comma then paramItems ctx params fuel else return params
    | _ => throw (expectedAt ctx token "variable (e.g. $foo)")

/-- Read the parameters of a definition. -/
def parseParams (lines : LineIndex) (c : Cursor) (needParens : Bool) :
    Except Diagnostic (List Param × Cursor) :=
  let ctx := contextAt lines c
  runAt c do
    if ← eatMark ctx .openParen then
      if ← eatMark ctx .closeParen then return []
      else
        let params ← paramItems ctx [] (enough c)
        let _ ← expectMark ctx .closeParen "\")\""
        return params
    else if needParens then failExpected ctx "\"(\""
    else
      unpeek
      return []

/-- Fail unless only blanks and comments follow. -/
def expectEnd (lines : LineIndex) (c : Cursor) (what : String) : Except Diagnostic Unit := do
  let (token, _) ← TokenStream.peek lines (TokenStream.ofCursor c)
  if token.isEnd then .ok ()
  else .error (expectedAt (contextAt lines c) token what)

end Script

/-- Read a text that is one expression. -/
def Expr.parse (text : String) : Except Diagnostic Expr := do
  let lines := LineIndex.ofText text
  let (e, rest) ← Script.parse lines (Cursor.ofText text) []
  Script.expectEnd lines rest Script.expressionName
  .ok e

end Stylesheet
