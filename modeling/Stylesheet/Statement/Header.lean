import Stylesheet.Expr.Parser
import Stylesheet.Statement.Basic
import Stylesheet.Style

/-!
What both dialects write in the same way: statements up to their blocks, comments, and text with
expressions in it. The dialects differ in where a statement ends; the indented one limits reading
to a line, and the other stops at a brace or a semicolon.
-/

namespace Stylesheet.Header

/-- Reading from a place of a text with known lines. -/
abbrev Reading := ReaderT LineIndex (StateT Cursor (Except Diagnostic))

/-- Read at a place. -/
def readAt (lines : LineIndex) (c : Cursor) (reading : Reading α) : Except Diagnostic (α × Cursor) :=
  (reading lines).run c

/-- The offset of the place. -/
def position : Reading Nat := do
  return (← get).pos

/-- The line of the place. -/
def lineNumber : Reading Nat := do
  return (← read).line (← get).pos

/-- Fail because something is missing at the place. -/
def failExpected (what : String) : Reading α := do
  throw (Scan.expected (← read) (← get) what)

/-- Fail because of a fault at the place. -/
def fail (fault : Fault) (message : String) : Reading α := do
  throw (Scan.faultAt (← read) (← get) fault message)

/-- Move over `text` if it stands at the place. -/
def eat (text : String) : Reading Bool := do
  match (← get).eat? text with
  | some c => set c; return true
  | none => return false

/-- Move over a word in any case if it stands at the place on its own. -/
def eatWord (word : String) : Reading Bool := do
  let c ← get
  if Scan.keyword word c.rest then
    set (c.advance word.length)
    return true
  else return false

/-- Take a number of characters. -/
def take (count : Nat) : Reading String := do
  let c ← get
  set (c.advance count)
  return String.ofList (c.rest.take count)

/-- Take a lexical form if it stands at the place. -/
def scan? (form : List Char → Option Nat) : Reading (Option String) := do
  match form (← get).rest with
  | some count => some <$> take count
  | none => return none

def skipBlanks : Reading Unit :=
  modify Cursor.skipBlanks

/-- Whether `text` stands at the place. -/
def sees (text : String) : Reading Bool := do
  return (← get).startsWith text

def skipGaps (c : Cursor) : Nat → Cursor
  | 0 => c
  | fuel + 1 =>
    let c := c.skipBlanks
    match Scan.lineComment? c.rest with
    | some count => skipGaps (c.advance count) fuel
    | none => c

/-- Move over blanks and comments that end with their line. -/
def skipBlanksAndLineComments : Reading Unit :=
  modify fun c => skipGaps c (c.rest.length + 1)

/-- The span from an earlier offset to the place. -/
def spanFrom (start : Nat) : Reading Span := do
  return (← get).spanFrom start

/-- Let the expression reader go on at the place. -/
def scripted (reader : LineIndex → Cursor → Except Diagnostic (α × Cursor)) : Reading α := do
  let (a, c) ← reader (← read) (← get)
  set c
  return a

/-- An expression. -/
def expr : Reading Expr :=
  scripted fun lines c => Script.parse lines c []

/-- An expression that ends in front of one of some words. -/
def exprBefore (words : List String) : Reading Expr :=
  scripted fun lines c => Script.parse lines c words

/-- The inside of an interpolation whose opening has been read. -/
def interpolation : Reading Expr :=
  scripted Script.parseInterpolation

/-- A character at which a statement between braces ends. -/
def isStatementEnd (c : Char) : Bool :=
  c == '\x7b' || c == ';' || c == '\x7d'

def isQuote (c : Char) : Bool :=
  c == '"' || c == '\''

/-- The number of characters up to one that is special or to an interpolation. -/
def plainRun (special : Char → Bool) : List Char → Nat
  | [] => 0
  | c :: rest =>
    if special c || (c == '#' && rest.head? == some '\x7b') then 0
    else plainRun special rest + 1

def takeString (parts : Template) (quote : Char) : Nat → Reading Template
  | 0 => fail .unterminatedString "Unterminated string."
  | fuel + 1 => do
    if ← eat "#\x7b" then
      takeString (parts.pushExpr (← interpolation)) quote fuel
    else
      let c ← get
      match c.peek? with
      | none => fail .unterminatedString "Unterminated string."
      | some '\n' =>
        set c.next
        fail .unterminatedString "Unterminated string."
      | some '\\' => takeString (parts.pushText (← take 2)) quote fuel
      | some x =>
        if x == quote then return parts.pushText (← take 1)
        else
          let special := fun x => x == quote || x == '\\' || x == '\n'
          takeString (parts.pushText (← take (plainRun special c.rest))) quote fuel

def takeText (stop : Char → Bool) (parts : Template) : Nat → Reading Template
  | 0 => return parts
  | fuel + 1 => do
    if ← eat "#\x7b" then
      takeText stop (parts.pushExpr (← interpolation)) fuel
    else
      let c ← get
      match c.peek? with
      | none => return parts
      | some x =>
        if stop x then return parts
        else if x == '\\' then takeText stop (parts.pushText (← take 2)) fuel
        else if isQuote x then
          let parts := parts.pushText (← take 1)
          takeText stop (← takeString parts x (c.rest.length + 1)) fuel
        else
          let special := fun x => stop x || x == '\\' || isQuote x
          takeText stop (parts.pushText (← take (plainRun special c.rest))) fuel

/-- Text with expressions in it, up to a character at which `stop` holds. Strings and escaped
characters are taken whole. -/
def templateUntil (stop : Char → Bool) : Reading Template := do
  takeText stop [] ((← get).rest.length + 1)

def takeRaw (parts : Template) : Nat → Reading Template
  | 0 => return parts
  | fuel + 1 => do
    if ← eat "#\x7b" then
      takeRaw (parts.pushExpr (← interpolation)) fuel
    else if (← get).isDone then return parts
    else takeRaw (parts.pushText (← take (plainRun (fun _ => false) (← get).rest))) fuel

/-- All the text that is left, with the expressions in it. -/
def rawTemplate : Reading Template := do
  takeRaw [] ((← get).rest.length + 1)

/-- Read the expressions in a text that is not a part of the source. -/
def templateOf (text : String) : Except Diagnostic Template := do
  let (parts, _) ← readAt (LineIndex.ofText text) (Cursor.ofText text) rawTemplate
  return parts

def stringEnd (quote : Char) (c : Cursor) : Nat → Except Cursor Cursor
  | 0 => .error c
  | fuel + 1 =>
    match c.peek? with
    | none => .error c
    | some '\n' => .error c.next
    | some '\\' => stringEnd quote (c.advance 2) fuel
    | some x => if x == quote then .ok c.next else stringEnd quote c.next fuel

/-- A string with its quotes. -/
def quoted : Reading String := do
  let start ← get
  match start.peek?.filter isQuote with
  | none => failExpected "string"
  | some quote =>
    match stringEnd quote start.next (start.rest.length + 1) with
    | .ok c =>
      set c
      return String.ofList (start.textTo c)
    | .error c =>
      set c
      fail .unterminatedString "Unterminated string."

/-- A string without its quotes. -/
def unquote (text : String) : String :=
  String.ofList (text.toList.drop 1).dropLast

/-- An assignment `$name: value`, with a guard if `!default` follows. The indented dialect also
writes `=` for the colon. -/
def assignment (dialect : Dialect) : Reading Statement := do
  let start ← position
  let line ← lineNumber
  let _ ← eat "$"
  match ← scan? Scan.name? with
  | none => failExpected "variable name"
  | some name =>
    skipBlanks
    let separated ← eat ":"
    let separated ← if !separated && dialect == .indented then eat "=" else pure separated
    if !separated then failExpected "\":\""
    else
      let value ← expr
      skipBlanks
      let guarded ← eatWord "!default"
      return .leaf (.assign name value guarded) line (← spanFrom start)

def moreName (parts : Template) : Nat → Reading Template
  | 0 => return parts
  | fuel + 1 => do
    if ← eat "#\x7b" then moreName (parts.pushExpr (← interpolation)) fuel
    else match ← scan? Scan.name? with
      | some more => moreName (parts.pushText more) fuel
      | none => return parts

/-- The name of a property: an identifier with expressions in it, perhaps behind an asterisk. -/
def propertyName? : Reading (Option Template) := do
  let parts : Template := if ← eat "*" then Template.ofText "*" else []
  let fuel := (← get).rest.length + 1
  if ← eat "#\x7b" then
    some <$> moreName (parts.pushExpr (← interpolation)) fuel
  else match ← scan? Scan.ident? with
    | some first => some <$> moreName (parts.pushText first) fuel
    | none => return none

/-- The value of a property, if the statement does not end in front of it. -/
def propertyValue? : Reading (Option Expr) := do
  match (← get).skipBlanks.peek? with
  | none => return none
  | some x => if isStatementEnd x then return none else some <$> expr

def definitionName : Reading String := do
  match ← scan? Scan.ident? with
  | some name => return name
  | none => failExpected "identifier"

/-- The name and parameters of a mixin. -/
def mixinDefinition : Reading StatementKind := do
  let name ← definitionName
  let params ← scripted fun lines c => Script.parseParams lines c false
  return .defineMixin name params

/-- The name and arguments of an inclusion. -/
def inclusion : Reading StatementKind := do
  let name ← definitionName
  let args ← scripted Script.parseArguments
  return .includeMixin name args

def loopVariable : Reading String := do
  let what := "variable (e.g. $foo)"
  if ← eat "$" then
    match ← scan? Scan.name? with
    | some name => return name
    | none => failExpected what
  else failExpected what

def countHeader : Reading StatementKind := do
  let counter ← loopVariable
  skipBlanks
  if ← eatWord "from" then
    let start ← exprBefore ["to", "through"]
    skipBlanks
    if ← eatWord "through" then return .loopCount counter start (← expr) true
    else if ← eatWord "to" then return .loopCount counter start (← expr) false
    else failExpected "\"to\" or \"through\""
  else failExpected "\"from\""

def eachHeader : Reading StatementKind := do
  let item ← loopVariable
  skipBlanks
  if ← eatWord "in" then return .loopEach item (← expr)
  else failExpected "\"in\""

/-- What an import names: its text, the path in it, and whether it is a `url()`. -/
def importName : Reading (String × String × Bool) := do
  let c ← get
  if c.peek?.any isQuote then
    let text ← quoted
    return (text, unquote text, false)
  else if Scan.startsWithWord "url(" c.rest then
    let count := Scan.run (· != ')') c.rest
    if count < c.rest.length then
      let text ← take (count + 1)
      return (text, Text.trim (String.ofList ((c.rest.take count).drop 4)), true)
    else failExpected "\")\""
  else failExpected "string or url()"

def isImportEnd (c : Char) : Bool :=
  c == ',' || isStatementEnd c

/-- Addresses, `url()` and imports for some media are left to the browser, and so is a path that
ends in `.css`. -/
def importTarget (text path media : String) (isUrl : Bool) : ImportTarget :=
  if isUrl || path.startsWith "http://" || path.startsWith "https://" || !media.isEmpty then
    .css (Template.ofText (Text.trimEnd (text ++ " " ++ media)))
  else if path.endsWith ".css" then .css (Template.ofText ("url(" ++ path ++ ")"))
  else .stylesheet path

def imports (found : List Statement) : Nat → Reading (List Statement)
  | 0 => return found
  | fuel + 1 => do
    skipBlanks
    let start ← position
    let line ← lineNumber
    let (text, path, isUrl) ← importName
    skipBlanks
    let media ← take (Scan.run (!isImportEnd ·) (← get).rest)
    let target := importTarget text path (Text.trim media) isUrl
    let found := found ++ [.leaf (.importing target) line (← spanFrom start)]
    skipBlanks
    if ← eat "," then imports found fuel else return found

def directiveKind (start : Cursor) (name : String) : Reading StatementKind := do
  match name with
  | "mixin" => mixinDefinition
  | "function" =>
    let name ← definitionName
    let params ← scripted fun lines c => Script.parseParams lines c true
    return .defineFunction name params
  | "include" => inclusion
  | "return" => return .returning (← expr)
  | "debug" => return .debug (← expr)
  | "warn" => return .warn (← expr)
  | "if" => return .branch (some (← expr)) none
  | "else" =>
    set start
    fail .misplacedElse "@else must come after @if."
  | "while" => return .loopWhile (← expr)
  | "for" => countHeader
  | "each" => eachHeader
  | "extend" =>
    let selector := (← templateUntil isStatementEnd).trimmed
    if selector.isEmpty then failExpected "selector" else return .extend selector
  | "media" => return .media (← templateUntil isStatementEnd).trimmed
  | "charset" => return .charset (unquote (← quoted))
  | _ => return .directive name (← templateUntil isStatementEnd).trimmed false

/-- A directive up to its block. An import may name several stylesheets, which become statements
of their own. -/
def directive : Reading (List Statement) := do
  let origin ← get
  let line ← lineNumber
  let _ ← eat "@"
  match ← scan? Scan.ident? with
  | none => failExpected "identifier"
  | some name =>
    skipBlanks
    if name == "import" then imports [] ((← get).rest.length + 1)
    else
      let kind ← directiveKind origin name
      return [.leaf kind line (← spanFrom origin.pos)]

/-- What follows an `@else` that has been read, up to its block. -/
def elseBranch (start line : Nat) : Reading Statement := do
  skipBlanks
  let condition ← if ← eatWord "if" then some <$> expr else pure none
  return .leaf (.branch condition none) line (← spanFrom start)

/-- Take up to `column` blanks away in front of each line but the first. -/
def dedentText (column : Nat) (text : String) : String :=
  match Text.splitLines text.toList with
  | [] => ""
  | first :: rest =>
    let isGap := fun c => c == ' ' || c == '\t'
    let dedent := fun line => line.drop (Scan.run isGap (line.take column))
    String.ofList (first ++ (rest.map fun line => '\n' :: dedent line).flatten)

/-- Take the indentation of the first line of a comment away from the others. -/
def dedent (column : Nat) (parts : Template) : Template :=
  if column = 0 then parts
  else Template.append [] <| parts.map fun
    | .text content => .text (dedentText column content)
    | .expr e => .expr e

/-- A comment between `/*` and `*/`. -/
def blockComment : Reading Statement := do
  let start ← get
  let line ← lineNumber
  let column := start.pos - ((← read).lineStart? line).getD start.pos
  match Scan.blockComment? start.rest with
  | none => fail .unterminatedComment "Unterminated comment."
  | some count =>
    let stop := start.advance count
    let (parts, _) ← readAt (← read) (start.limitTo stop.pos) rawTemplate
    set stop
    return .leaf (.comment (dedent column parts) false) line (← spanFrom start.pos)

/-- A comment from `//` to the end of the line. -/
def lineComment : Reading Statement := do
  let start ← position
  let line ← lineNumber
  let text ← take (Scan.run (· != '\n') (← get).rest)
  return .leaf (.comment (Template.ofText (Text.trimEnd text)) true) line (← spanFrom start)

/-- The error for an `@else` without an `@if`. -/
def misplacedElse (branch : Statement) : Diagnostic :=
  Diagnostic.error "@else must come after @if."
    |>.withFault .misplacedElse
    |>.withLine branch.line
    |>.withLabel branch.span "misplaced @else"

end Stylesheet.Header
