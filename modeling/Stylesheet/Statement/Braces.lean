import Stylesheet.Statement.Header

/-!
The dialect with braces: blocks stand between braces, and statements without a block end with a
semicolon.
-/

namespace Stylesheet.Braces

open Header

private def spaceRequired : String :=
  "Invalid CSS: a space is required between a property and its definition when it has other " ++
    "properties nested beneath it."

/-- The comments between statements, behind those found so far. -/
def comments (found : List Statement) : Nat → Reading (List Statement)
  | 0 => return found
  | fuel + 1 => do
    skipBlanks
    if ← sees "/*" then comments (found ++ [← blockComment]) fuel
    else if ← sees "//" then comments (found ++ [← lineComment]) fuel
    else return found

/-- A property as far as its colon, with whether a blank follows. -/
structure PropertyHead where
  name : Template
  line : Nat
  start : Nat
  spaced : Bool
  /-- What follows the colon cannot be a part of a selector. -/
  certain : Bool

def propertyHead : Reading PropertyHead := do
  let start ← position
  let line ← lineNumber
  match ← propertyName? with
  | none => failExpected "property name"
  | some name =>
    skipBlanks
    if ← eat ":" then
      let next := (← get).peek?
      let spaced := next.any Text.isBlank
      return ⟨name, line, start, spaced, spaced || !next.any Scan.isNameStart⟩
    else failExpected "\":\""

mutual

/-- Statements up to a closing brace or the end of the text. -/
def statements (found : List Statement) : Nat → Reading (List Statement)
  | 0 => return found
  | fuel + 1 => do
    let found ← comments found ((← get).rest.length + 1)
    let added ← statement fuel
    let found := found ++ added
    skipBlanksAndLineComments
    if ← eat ";" then statements found fuel
    else if added.getLast?.any Statement.hasBlock then statements found fuel
    else return found

/-- Statements between braces. -/
def block : Nat → Reading (List Statement)
  | 0 => failExpected "\"\x7b\""
  | fuel + 1 => do
    skipBlanks
    if ← eat "\x7b" then
      let children ← statements [] fuel
      skipBlanks
      if ← eat "\x7d" then return children
      else failExpected "\"\x7d\""
    else failExpected "\"\x7b\""

/-- One statement; none if there is nothing but the end of a statement. -/
def statement : Nat → Reading (List Statement)
  | 0 => return []
  | fuel + 1 => do
    skipBlanks
    match (← get).peek? with
    | none => return []
    | some '\x7d' => return []
    | some ';' => return []
    | some '$' => return [← assignment .scss]
    | some '@' => directiveWithBlock fuel
    | some _ => return [← propertyOrRule fuel]

/-- A directive with its block, if it has one. -/
def directiveWithBlock : Nat → Reading (List Statement)
  | 0 => return []
  | fuel + 1 => do
    let found ← directive
    match found.getLast? with
    | none => return found
    | some last =>
      let last ← match last.kind with
        | .directive name params _ => do
          skipBlanks
          if ← sees "\x7b" then
            pure ((last.withChildren (← block fuel)).withKind (.directive name params true))
          else pure last
        | .media _ | .defineMixin _ _ | .defineFunction _ _ | .loopWhile _ | .loopCount _ _ _ _
        | .loopEach _ _ => do
          pure (last.withChildren (← block fuel))
        | .branch _ _ => do
          elseChain (last.withChildren (← block fuel)) fuel
        | _ => pure last
      return found.dropLast ++ [last.withSpan (← spanFrom last.span.start)]

/-- The `@else` blocks that follow an `@if`. -/
def elseChain (conditional : Statement) : Nat → Reading Statement
  | 0 => return conditional
  | fuel + 1 => do
    let before ← get
    skipBlanksAndLineComments
    let start ← position
    let line ← lineNumber
    let isElse ← if ← eat "@" then eatWord "else" else pure false
    if isElse then
      let header ← elseBranch start line
      let added := header.withChildren (← block fuel)
      match conditional.addElse? added with
      | some conditional => elseChain conditional fuel
      | none => throw (misplacedElse added)
    else
      set before
      return conditional

/-- A property, or else a rule. If it is neither, the error is that of the property when nothing
but a property can start so. -/
def propertyOrRule : Nat → Reading Statement
  | 0 => failExpected "selector"
  | fuel + 1 => do
    let start ← get
    let lines ← read
    match readAt lines start propertyHead with
    | .error _ => ruleSet fuel
    | .ok (head, afterColon) =>
      match readAt lines afterColon (propertyTail head fuel) with
      | .ok (found, stop) =>
        set stop
        return found
      | .error error =>
        match readAt lines start (ruleSet fuel) with
        | .ok (found, stop) =>
          set stop
          return found
        | .error other => throw (if head.certain then error else other)

/-- What follows the colon of a property: a value, a block of properties, or both. -/
def propertyTail (head : PropertyHead) : Nat → Reading Statement
  | 0 => failExpected "\";\""
  | fuel + 1 => do
    let value ← propertyValue?
    skipBlanks
    let finish := fun children => do
      return (Statement.leaf (.property head.name value) head.line (← spanFrom head.start)).withChildren
        children
    if ← sees "\x7b" then
      if head.spaced then finish (← block fuel)
      else fail .invalidDeclaration spaceRequired
    else if value.isNone then failExpected "expression (e.g. 1px, bold)"
    else if (← sees ";") || (← sees "\x7d") then finish []
    else failExpected "\";\""

/-- A selector and its block. -/
def ruleSet : Nat → Reading Statement
  | 0 => failExpected "selector"
  | fuel + 1 => do
    let start ← position
    let line ← lineNumber
    let selector := (← templateUntil isStatementEnd).trimmed
    if selector.isEmpty then failExpected "selector"
    else if ← sees "\x7b" then
      let children ← block fuel
      return (Statement.leaf (.rule selector) line (← spanFrom start)).withChildren children
    else failExpected "\"\x7b\""

end

/-- A whole stylesheet in the dialect with braces. -/
def parse (text : String) : Except Diagnostic Statement := do
  let reading : Reading Statement := do
    let children ← statements [] (8 * text.length + 8)
    skipBlanks
    if (← get).isDone then
      return (Statement.leaf .root 1 (Span.between 0 (← position))).withChildren children
    else failExpected "selector or at-rule"
  let (root, _) ← readAt (LineIndex.ofText text) (Cursor.ofText text) reading
  return root

end Stylesheet.Braces
