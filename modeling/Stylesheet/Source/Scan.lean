import Stylesheet.Diagnostic.Basic
import Stylesheet.Source.Cursor

/-!
The small lexical forms: how many characters at the front of a text form a name, a number, a
comment and so on; and the error for a form that is missing.
-/

namespace Stylesheet.Scan

/-- Whether a name can start with the character. -/
def isNameStart (c : Char) : Bool :=
  c.isAlpha || c == '_' || c.toNat ≥ 0x80

/-- Whether a name can go on with the character. -/
def isNameChar (c : Char) : Bool :=
  isNameStart c || c.isDigit || c == '-'

def isHexDigit (c : Char) : Bool :=
  c.isDigit || ('a' ≤ c && c ≤ 'f') || ('A' ≤ c && c ≤ 'F')

/-- The number of characters at the front that satisfy `p`. -/
def run (p : Char → Bool) (text : List Char) : Nat :=
  (text.takeWhile p).length

/-- The number of characters at the front that satisfy `p`, at most `limit`. -/
def runUpTo (limit : Nat) (p : Char → Bool) (text : List Char) : Nat :=
  run p (text.take limit)

/-- Name characters and escaped characters. -/
def nameTail : List Char → Nat
  | '\\' :: _ :: rest => nameTail rest + 2
  | c :: rest => if isNameChar c then nameTail rest + 1 else 0
  | [] => 0

/-- A name: name characters and escapes, at least one. -/
def name? (text : List Char) : Option Nat :=
  match nameTail text with
  | 0 => none
  | count => some count

def identBody? : List Char → Option Nat
  | '\\' :: _ :: rest => some (nameTail rest + 2)
  | c :: rest => if isNameStart c then some (nameTail rest + 1) else none
  | [] => none

/-- An identifier: an optional hyphen, then a name that starts with a letter or an escape. -/
def ident? : List Char → Option Nat
  | '-' :: rest => (identBody? rest).map (· + 1)
  | text => identBody? text

/-- The number of characters up to the end of a comment that is open. -/
def commentBody? : List Char → Option Nat
  | '*' :: '/' :: _ => some 2
  | _ :: rest => (commentBody? rest).map (· + 1)
  | [] => none

/-- A comment between `/*` and `*/`. -/
def blockComment? : List Char → Option Nat
  | '/' :: '*' :: rest => (commentBody? rest).map (· + 2)
  | _ => none

def isLineEnd (c : Char) : Bool :=
  c == '\n' || c == '\r'

/-- A comment from `//` to the end of the line. -/
def lineComment? : List Char → Option Nat
  | '/' :: '/' :: rest => some (run (!isLineEnd ·) rest + 2)
  | _ => none

/-- Digits with an optional fraction. -/
def digits? (text : List Char) : Option Nat :=
  let whole := run Char.isDigit text
  match text.drop whole with
  | '.' :: rest =>
    match run Char.isDigit rest with
    | 0 => if whole = 0 then none else some whole
    | fraction => some (whole + 1 + fraction)
  | _ => if whole = 0 then none else some whole

/-- A number and the unit behind it. -/
def number? (text : List Char) : Option (Nat × Nat) :=
  (digits? text).map fun digits =>
    (digits, run (fun c => c.isAlpha || c == '%') (text.drop digits))

/-- A hash and three or six hexadecimal digits with no name character behind them. -/
def hexColor? : List Char → Option Nat
  | '#' :: rest =>
    let digits := runUpTo 6 isHexDigit rest
    if (digits = 3 || digits = 6) && !(rest.drop digits).head?.any isNameChar then
      some (digits + 1)
    else none
  | _ => none

/-- A range of code points such as `U+26` or `u+0-7f`. -/
def unicodeRange? : List Char → Option Nat
  | u :: '+' :: rest =>
    if u == 'u' || u == 'U' then
      match runUpTo 6 (fun c => isHexDigit c || c == '?') rest with
      | 0 => none
      | first =>
        match rest.drop first with
        | '-' :: second =>
          match runUpTo 6 isHexDigit second with
          | 0 => some (first + 2)
          | last => some (first + 3 + last)
        | _ => some (first + 2)
    else none
  | _ => none

/-- Whether the text starts with `word` in any case. -/
def startsWithWord (word : String) (text : List Char) : Bool :=
  word.toList.map Char.toLower == (text.take word.length).map Char.toLower

/-- Whether the text starts with `word` in any case and no name character follows. -/
def keyword (word : String) (text : List Char) : Bool :=
  startsWithWord word text && !(text.drop word.length).head?.any isNameChar

private def abbreviateEnd (text : List Char) : String :=
  if text.length > 18 then "..." ++ String.ofList (text.drop (text.length - 15))
  else String.ofList text

private def abbreviateStart (text : List Char) : String :=
  if text.length > 18 then String.ofList (text.take 15) ++ "..."
  else String.ofList text

private def isGap (c : Char) : Bool :=
  c == ' ' || c == '\t'

/-- The line in front of a place; the one before if nothing stands in front of it. -/
private def lineBefore (before : List Char) : List Char :=
  let trimmed := before.dropWhile isGap
  let before := if trimmed.head? == some '\n' then trimmed.dropWhile Text.isBlank else before
  (before.takeWhile (· != '\n')).reverse

/-- The line behind a place; the next that is not empty if nothing follows on it. -/
private def lineAfter (rest : List Char) : List Char :=
  let trimmed := rest.dropWhile isGap
  let rest := if trimmed.head?.any isLineEnd then rest.dropWhile Text.isBlank else rest
  rest.takeWhile (!isLineEnd ·)

/-- What stands around a place where something else was expected. -/
def invalidCss (c : Cursor) (expected : String) : String :=
  "Invalid CSS after \"" ++ abbreviateEnd (lineBefore c.before) ++ "\": expected " ++ expected ++
    ", was \"" ++ abbreviateStart (lineAfter c.rest) ++ "\""

/-- The error for a form that is missing at a place. -/
def expected (lines : LineIndex) (c : Cursor) (what : String) : Diagnostic :=
  Diagnostic.error (invalidCss c what)
    |>.withFault (if c.isDone then .incompleteInput else .unexpectedToken)
    |>.withLine (lines.line c.pos)
    |>.withLabel c.charSpan ("expected " ++ what)

/-- The error for a fault at a place, labelled by its description. -/
def faultAt (lines : LineIndex) (c : Cursor) (fault : Fault) (message : String) : Diagnostic :=
  let span := match c.peek? with
    | some x => Span.between c.pos (c.pos + x.utf8Size)
    | none => Span.between c.pos c.pos
  Diagnostic.error message
    |>.withFault fault
    |>.withLine (lines.line c.pos)
    |>.withLabel span fault.description

end Stylesheet.Scan
