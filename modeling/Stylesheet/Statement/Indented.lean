import Stylesheet.Statement.Header
import Stylesheet.Statement.Outline

/-!
The indented dialect: a block is what is indented deeper than its header, and a statement ends
with its line.
-/

namespace Stylesheet.Indented

open Header

/-- A source text and its lines. -/
structure Source where
  text : Cursor
  lines : LineIndex

/-- The place of a line, with reading limited to it. -/
def Source.cursorAt (source : Source) (line : SourceLine) : Cursor :=
  (source.text.seek line.start).limitTo line.stop

def Source.lineText (source : Source) (line : SourceLine) : List Char :=
  (source.cursorAt line).rest

def Source.read (source : Source) (line : SourceLine) (reading : Reading α) :
    Except Diagnostic α := do
  let (a, _) ← readAt source.lines (source.cursorAt line) reading
  return a

def expectLineEnd : Reading Unit := do
  skipBlanksAndLineComments
  if (← get).isDone then return () else failExpected "end of line"

def lineSpan (line : SourceLine) : Span :=
  Span.between line.start line.stop

/-- A property at its name. Nothing, a colon or an equals sign may stand behind the name. -/
def property (source : Source) (line : SourceLine) (hasChildren : Bool) :
    Reading Statement := do
  match ← propertyName? with
  | none => failExpected "property name"
  | some name =>
    skipBlanks
    if !(← eat ":") then let _ ← eat "="
    let value ← propertyValue?
    expectLineEnd
    if value.isNone && !hasChildren then
      throw (Diagnostic.error
          ("Invalid property: \"" ++ String.ofList (source.lineText line) ++ "\" (no value).")
        |>.withFault .invalidDeclaration
        |>.withLine line.number
        |>.withLabel (lineSpan line) "property without a value")
    else return .leaf (.property name value) line.number (lineSpan line)

def rule (line : SourceLine) : Reading Statement := do
  let selector := (← templateUntil fun _ => false).trimmed
  if selector.isEmpty then failExpected "selector"
  else return .leaf (.rule selector) line.number (lineSpan line)

/-- Whether a property name, a colon and a blank stand at the place. -/
def seesProperty : Reading Bool := do
  match ← propertyName? with
  | none => return false
  | some _ =>
    skipBlanks
    if ← eat ":" then return (← get).peek?.all Text.isBlank else return false

def propertyOrRule (source : Source) (line : SourceLine) (hasChildren : Bool) :
    Reading Statement := do
  let start ← get
  let isProperty ← seesProperty
  set start
  if isProperty then property source line hasChildren else rule line

def stripSuffix? (ending text : List Char) : Option (List Char) :=
  if ending.isSuffixOf text then some (text.take (text.length - ending.length)) else none

/-- The last line of a comment without the end of the comment. -/
def dropCommentEnd (line : List Char) : List Char :=
  match stripSuffix? ['*', '/'] (Text.dropEndWhile (· == ' ') line) with
  | none => line
  | some unclosed => (stripSuffix? [' '] unclosed).getD unclosed

/-- A line of a comment behind the asterisk that starts it. -/
def commentLine : List Char → List Char
  | [] => []
  | '*' :: rest => rest
  | line => ' ' :: line

def mapLast (f : α → α) (items : List α) : List α :=
  match items.getLast? with
  | some last => items.dropLast ++ [f last]
  | none => []

def dropSpace : List Char → List Char
  | ' ' :: rest => rest
  | line => line

/-- Lay the text of a comment out with a delimiter on every line. -/
def commentText (body : List Char) (silent : Bool) : String :=
  let content := Text.splitLines body
  let isBlankFirst := content.head?.all (·.all Text.isBlank)
  let content := if isBlankFirst then content.drop 1 else content
  if content.isEmpty then (if silent then "//" else "/* */")
  else
    let content := (mapLast dropCommentEnd content).map commentLine
    let content := match content with
      | first :: rest => if isBlankFirst then first :: rest else dropSpace first :: rest
      | [] => []
    let texts := content.map String.ofList
    if silent then "//" ++ "\n//".intercalate texts
    else "/*" ++ "\n *".intercalate texts ++ " */"

/-- The size of the smallest indentation of some lines. -/
def commonIndent (lines : List (List Char)) : Nat :=
  (lines.map fun line => Text.size (line.takeWhile Text.isBlank)).min?.getD 0

/-- A comment with the lines below it. Expressions in a silent comment stay text, and so do those
that cannot be read. -/
def comment (source : Source) (line : SourceLine) : Except Diagnostic Statement := do
  let text := source.lineText line
  let silent := ['/', '/'].isPrefixOf text
  let rest ← line.body.mapM (Outline.cut (commonIndent line.body))
  let formatted := commentText (text.drop 2 ++ (rest.map ('\n' :: ·)).flatten) silent
  let plain := Template.ofText formatted
  let parts := if silent then plain else (templateOf formatted).toOption.getD plain
  return .leaf (.comment parts silent) line.number (lineSpan line)

/-- The statements of a line, without their blocks. -/
def header (source : Source) (line : SourceLine) (hasChildren : Bool) :
    Reading (List Statement) := do
  let c ← get
  let ownLine := fun kind => do
    return [Statement.leaf kind line.number (← spanFrom line.start)]
  match c.peek?, c.peekSecond? with
  | some '$', _ =>
    let found ← assignment .indented
    expectLineEnd
    return [found]
  | some '@', _ =>
    let found ← directive
    expectLineEnd
    return found
  | some '=', _ =>
    set c.next
    skipBlanks
    let kind ← mixinDefinition
    expectLineEnd
    ownLine kind
  | some '+', some second =>
    if Text.isBlank second then return [← propertyOrRule source line hasChildren]
    else
      set c.next
      let kind ← inclusion
      expectLineEnd
      ownLine kind
  | some ':', some second =>
    if second == ':' then return [← propertyOrRule source line hasChildren]
    else
      set c.next
      return [← property source line hasChildren]
  | some '\\', _ =>
    set c.next
    return [← rule line]
  | _, _ => return [← propertyOrRule source line hasChildren]

/-- Give a block to the last of the statements of a line. -/
def attach (found children : List Statement) : List Statement :=
  mapLast
    (fun last =>
      let last := match last.kind with
        | .directive name params _ => last.withKind (.directive name params (!children.isEmpty))
        | _ => last
      last.withChildren children)
    found

/-- The header of an `@else` line, if it is one. -/
def elseHeader? (line : SourceLine) : Reading (Option Statement) := do
  let isElse ← if ← eat "@" then eatWord "else" else pure false
  if isElse then
    let branch ← elseBranch line.start line.number
    expectLineEnd
    return some branch
  else return none

def addElse (found : List Statement) (branch : Statement) :
    Except Diagnostic (List Statement) :=
  match found.getLast?.bind (·.addElse? branch) with
  | some last => .ok (found.dropLast ++ [last])
  | none => .error (misplacedElse branch)

/-- The statements of some lines, behind those found so far. -/
def statements (source : Source) (found : List Statement) :
    List Outline → Except Diagnostic (List Statement)
  | [] => .ok found
  | .mk line children :: rest => do
    match ← source.read line (elseHeader? line) with
    | some branch =>
      let block ← statements source [] children
      statements source (← addElse found (branch.withChildren block)) rest
    | none =>
      if line.isComment then statements source (found ++ [← comment source line]) rest
      else
        let added ← source.read line (header source line (!children.isEmpty))
        let block ← statements source [] children
        statements source (found ++ attach added block) rest

/-- A whole stylesheet in the indented dialect. -/
def parse (text : String) : Except Diagnostic Statement := do
  let chars := text.toList
  let tree ← Outline.ofLines (← Outline.lines chars)
  let source := ⟨Cursor.ofChars chars, LineIndex.ofChars chars⟩
  let children ← statements source [] tree
  return (Statement.leaf .root 1 (Span.between 0 (Text.size chars))).withChildren children

end Stylesheet.Indented
