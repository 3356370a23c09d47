import Stylesheet.Source.Scan
import Stylesheet.Token.Basic

/-!
Cutting text into tokens. Interpolation can stand in plain text, in a string or in the raw text of
a function, and may itself hold any of these; a stack of frames says what each closing brace
returns to.
-/

namespace Stylesheet

namespace Lexer

/-- What a closing brace returns to. -/
inductive Frame where
  | plain
  /-- A string opened by this quote. -/
  | quoted (quote : Char)
  /-- The raw text of a function, with this many parentheses open. -/
  | raw (depth : Nat)
deriving Repr, DecidableEq

/-- Where the lexer is. -/
structure State where
  cursor : Cursor
  /-- The open interpolations, innermost first. -/
  frames : List Frame
  /-- The last token closed an interpolation in plain text. -/
  afterInterpolation : Bool
deriving Repr

/-- A piece of a string: its text, the characters it takes, and whether an interpolation ends it. -/
structure Piece where
  text : List Char
  count : Nat
  interpolated : Bool

/-- Read string text up to the closing quote or an interpolation. An escaped quote or hash loses
its backslash, an escaped line feed vanishes. -/
def stringPiece? (quote : Char) : List Char → Option Piece
  | '\\' :: c :: rest =>
    (stringPiece? quote rest).map fun piece =>
      let text := if c == quote || c == '#' then c :: piece.text
        else if c == '\n' then piece.text
        else '\\' :: c :: piece.text
      ⟨text, piece.count + 2, piece.interpolated⟩
  | '#' :: '\x7b' :: _ => some ⟨[], 2, true⟩
  | c :: rest =>
    if c == '\\' || c == '\n' || c == '\r' then none
    else if c == quote then some ⟨[], 1, false⟩
    else (stringPiece? quote rest).map fun piece =>
      ⟨c :: piece.text, piece.count + 1, piece.interpolated⟩
  | [] => none

/-- A piece of raw function text and the number of parentheses open behind it. -/
structure RawPiece extends Piece where
  depth : Nat

/-- Read raw text up to the parenthesis that closes it or an interpolation. -/
def rawPiece? (depth : Nat) : List Char → Option RawPiece
  | '#' :: '\x7b' :: _ => some ⟨⟨[], 2, true⟩, depth⟩
  | c :: rest =>
    if c == ')' && depth ≤ 1 then some ⟨⟨[')'], 1, false⟩, 0⟩
    else
      let depth := if c == '(' then depth + 1 else if c == ')' then depth - 1 else depth
      (rawPiece? depth rest).map fun piece =>
        { piece with text := c :: piece.text, count := piece.count + 1 }
  | [] => none

/-- What a blank-skipping scan is inside of. The count says where a comment was opened. -/
inductive Gap where
  | outside
  | block (opened : Nat)
  | line

/-- The number of blank and comment characters in front, or the place of a comment that is not
closed. -/
def gap (inside : Gap) (count : Nat) : List Char → Except Nat Nat
  | [] =>
    match inside with
    | .block opened => .error opened
    | _ => .ok count
  | c :: rest =>
    match inside, c, rest with
    | .outside, '/', '*' :: rest => gap (.block count) (count + 2) rest
    | .outside, '/', '/' :: rest => gap .line (count + 2) rest
    | .outside, c, rest => if Text.isBlank c then gap .outside (count + 1) rest else .ok count
    | .block _, '*', '/' :: rest => gap .outside (count + 2) rest
    | .block opened, _, rest => gap (.block opened) (count + 1) rest
    | .line, c, rest =>
      gap (if Scan.isLineEnd c then .outside else .line) (count + 1) rest

private def isUrlChar (c : Char) : Bool :=
  c == '#' || c == '%' || c == '&' || ('*' ≤ c && c ≤ '~') || c.toNat ≥ 0x80

private def isBareUrlBody : List Char → Bool
  | [] => false
  | ')' :: _ => true
  | '#' :: '\x7b' :: _ => true
  | '\\' :: _ :: rest => isBareUrlBody rest
  | c :: rest =>
    if c == '\\' then false
    else if Text.isBlank c then (rest.dropWhile Text.isBlank).head? == some ')'
    else isUrlChar c && isBareUrlBody rest

/-- Whether the text behind `url(` is a bare address up to its parenthesis or an interpolation. -/
def isBareUrl (text : List Char) : Bool :=
  isBareUrlBody (text.dropWhile Text.isBlank)

/-- The part of a name behind a vendor mark such as `-moz-`. -/
def withoutVendor (name : List Char) : List Char :=
  match name with
  | '-' :: rest => (rest.dropWhile (· != '-')).drop 1
  | _ => name

/-- The length of a name and parenthesis whose arguments are kept as raw text. -/
def rawFunction? (text : List Char) : Option Nat :=
  if Scan.startsWithWord "progid:" text then
    let count := 7 + Scan.run (fun c => c.isAlpha || c == '.') (text.drop 7)
    if (text.drop count).head? == some '(' then some (count + 1) else none
  else do
    let count ← Scan.ident? text
    match text.drop count with
    | '(' :: arguments =>
      let name := (text.take count).map Char.toLower
      if name == "url".toList then
        if isBareUrl arguments then some (count + 1) else none
      else if ["calc", "expression", "element"].any (fun raw => raw.toList == name) ||
          withoutVendor name == "calc".toList then
        some (count + 1)
      else none
    | _ => none

/-- Whether a minus sign stands in front, and the text without it. -/
def splitSign : List Char → Bool × List Char
  | '-' :: body => (true, body)
  | body => (false, body)

/-- A number. A minus sign belongs to it only behind a blank. -/
def number? (text : List Char) (spaceBefore : Bool) : Option (Number × Nat) :=
  let (negative, body) := splitSign text
  if negative && !spaceBefore then none
  else do
    let (digits, unit) ← Scan.number? body
    let value ← Double.ofText? (String.ofList (body.take digits))
    let value := if negative then -value else value
    let number := if unit = 0 then Number.ofDouble value
      else Number.ofUnit value (String.ofList ((body.drop digits).take unit))
    some (number.withSpelling number.inspect, digits + unit + (if negative then 1 else 0))

def bool? (text : List Char) : Option (Bool × Nat) :=
  let isWord (word : String) : Bool :=
    word.toList.isPrefixOf text && !(text.drop word.length).head?.any Scan.isNameChar
  if isWord "true" then some (true, 4)
  else if isWord "false" then some (false, 5)
  else none

def wordMark? (text : List Char) : Option (Mark × Nat) :=
  let isWord (word : String) : Bool :=
    word.toList.isPrefixOf text && (text.drop word.length).head?.any (!Scan.isNameChar ·)
  if isWord "and" then some (.and, 3)
  else if isWord "or" then some (.or, 2)
  else if isWord "not" then some (.not, 3)
  else none

def mark? : List Char → Option (Mark × Nat)
  | '=' :: '=' :: _ => some (.eq, 2)
  | '>' :: '=' :: _ => some (.gte, 2)
  | '<' :: '=' :: _ => some (.lte, 2)
  | '+' :: _ => some (.plus, 1)
  | '-' :: _ => some (.minus, 1)
  | '*' :: _ => some (.times, 1)
  | '/' :: _ => some (.div, 1)
  | '%' :: _ => some (.mod, 1)
  | '=' :: _ => some (.singleEq, 1)
  | ':' :: _ => some (.colon, 1)
  | '(' :: _ => some (.openParen, 1)
  | ')' :: _ => some (.closeParen, 1)
  | ',' :: _ => some (.comma, 1)
  | '>' :: _ => some (.gt, 1)
  | '<' :: _ => some (.lt, 1)
  | ';' :: _ => some (.semicolon, 1)
  | '\x7b' :: _ => some (.openBrace, 1)
  | _ => none

/-- The error for a character that starts no token. -/
def unexpectedCharacter (lines : LineIndex) (c : Cursor) : Diagnostic :=
  let front := c.before.takeWhile (· != '\n')
  let line := front.reverse ++ c.rest.takeWhile (· != '\n')
  let width := match c.following? with
    | some x => x.utf8Size
    | none => 1
  Diagnostic.error ("Syntax error in '" ++ Text.trim (String.ofList line) ++ "' at character " ++
      toString (Text.size front + 1) ++ ".")
    |>.withFault .unexpectedCharacter
    |>.withLine (lines.line c.pos)
    |>.withLabel (Span.between c.pos (c.pos + width)) "unexpected character"

private def unterminatedString (lines : LineIndex) (opened limit : Nat) (quote : Char) :
    Diagnostic :=
  Diagnostic.error "Unterminated string."
    |>.withFault .unterminatedString
    |>.withLine (lines.line opened)
    |>.withLabel (Span.between opened limit) "string starts here"
    |>.withHelp ("add a closing `" ++ String.ofList [quote] ++ "`")

private def unterminatedFunction (lines : LineIndex) (c : Cursor) : Diagnostic :=
  Diagnostic.error "Unterminated function call: expected \")\"."
    |>.withFault .incompleteInput
    |>.withLine (lines.line c.pos)
    |>.withLabel (Span.between c.pos c.limit) "opened here"

private def unterminatedComment (lines : LineIndex) (c : Cursor) : Diagnostic :=
  Diagnostic.error "Unterminated comment."
    |>.withFault .unterminatedComment
    |>.withLine (lines.line c.pos)
    |>.withLabel (Span.between c.pos c.limit) "comment starts here"

/-- The kind of the next token, the characters it takes and the frames behind it. -/
structure Step where
  kind : Token.Kind
  count : Nat
  frames : List Frame

/-- String text behind `skip` characters: the opening quote, or the brace of an interpolation. -/
def stringStep (lines : LineIndex) (c : Cursor) (frames : List Frame) (quote : Char)
    (isFirst : Bool) : Except Diagnostic Step :=
  match stringPiece? quote (c.rest.drop 1) with
  | none =>
    .error (unterminatedString lines (if isFirst then c.pos else c.pos + 1) c.limit quote)
  | some piece =>
    let content := String.ofList piece.text
    let kind := match piece.interpolated, isFirst with
      | true, true => Token.Kind.textStart content true
      | true, false => .textMiddle content
      | false, true => .text content true
      | false, false => .textEnd content
    .ok ⟨kind, piece.count + 1, if piece.interpolated then .quoted quote :: frames else frames⟩

/-- Raw function text behind `skip` characters, which are part of it if it is the first piece. -/
def rawStep (lines : LineIndex) (c : Cursor) (frames : List Frame) (skip depth : Nat)
    (isFirst : Bool) : Except Diagnostic Step :=
  match rawPiece? depth (c.rest.drop skip) with
  | none => .error (unterminatedFunction lines (c.advance skip))
  | some piece =>
    let front := if isFirst then c.rest.take skip else []
    let content := String.ofList (front ++ piece.text)
    let kind := match piece.interpolated, isFirst with
      | true, true => Token.Kind.textStart content false
      | true, false => .textMiddle content
      | false, true => .text content false
      | false, false => .textEnd content
    .ok ⟨kind, piece.count + skip, if piece.interpolated then .raw piece.depth :: frames else frames⟩

/-- A closing brace goes back to what its interpolation stands in. -/
def braceStep (lines : LineIndex) (c : Cursor) : List Frame → Except Diagnostic Step
  | [] => .ok ⟨.mark .closeBrace, 1, []⟩
  | .plain :: frames => .ok ⟨.endInterpolation, 1, frames⟩
  | .quoted quote :: frames => stringStep lines c frames quote false
  | .raw depth :: frames => rawStep lines c frames 1 depth false

def slice (c : Cursor) (count : Nat) : String :=
  String.ofList (c.rest.take count)

/-- Words, operators and all else that does not show by its first character. -/
def wordStep (lines : LineIndex) (c : Cursor) (frames : List Frame)
    (spaceBefore : Bool) : Except Diagnostic Step :=
  let text := c.rest
  let unexpected : Except Diagnostic Step := .error (unexpectedCharacter lines c)
  if let some (number, count) := number? text spaceBefore then
    .ok ⟨.number number, count, frames⟩
  else if let some (value, count) := bool? text then
    .ok ⟨.bool value, count, frames⟩
  else if let some count := Scan.unicodeRange? text then
    .ok ⟨.text (slice c count) false, count, frames⟩
  else if let some count := rawFunction? text then
    rawStep lines c frames count 1 true
  else match text with
    | '!' :: '=' :: _ => .ok ⟨.mark .neq, 2, frames⟩
    | '!' :: rest =>
      let blanks := Scan.run Text.isBlank rest
      match Scan.ident? (rest.drop blanks) with
      | some count =>
        let word := String.ofList ((rest.drop blanks).take count)
        .ok ⟨.flag (Text.lower word), 1 + blanks + count, frames⟩
      | none => unexpected
    | _ =>
      if let some (mark, count) := wordMark? text then .ok ⟨.mark mark, count, frames⟩
      else if let some count := Scan.ident? text then
        if (text.drop count).head? == some '(' then
          .ok ⟨.function (slice c count), count + 1, frames⟩
        else .ok ⟨.ident (slice c count), count, frames⟩
      else if let some (mark, count) := mark? text then .ok ⟨.mark mark, count, frames⟩
      else unexpected

/-- The token at a place that is not blank. -/
def step (lines : LineIndex) (c : Cursor) (frames : List Frame) (spaceBefore : Bool) :
    Except Diagnostic Step :=
  match c.rest with
  | [] => .ok ⟨.endOfInput, 0, frames⟩
  | '$' :: rest =>
    match Scan.name? rest with
    | some count => .ok ⟨.variable (String.ofList (rest.take count)), count + 1, frames⟩
    | none => .error (unexpectedCharacter lines c)
  | '"' :: _ => stringStep lines c frames '"' true
  | '\'' :: _ => stringStep lines c frames '\'' true
  | '#' :: '\x7b' :: _ => .ok ⟨.beginInterpolation, 2, .plain :: frames⟩
  | '#' :: _ =>
    match Scan.hexColor? c.rest with
    | some count =>
      match Color.ofHex? (slice c count) with
      | some color => .ok ⟨.color color, count, frames⟩
      | none => .error (unexpectedCharacter lines c)
    | none => .error (unexpectedCharacter lines c)
  | '\x7d' :: _ => braceStep lines c frames
  | _ => wordStep lines c frames spaceBefore

/-- Skip blanks and comments and read one token. -/
def next (lines : LineIndex) (s : State) : Except Diagnostic (Token × State) :=
  match gap .outside 0 s.cursor.rest with
  | .error opened => .error (unterminatedComment lines (s.cursor.advance opened))
  | .ok blanks =>
    let start := s.cursor.advance blanks
    let spaceBefore := start.preceding?.any Text.isBlank
    (step lines start s.frames spaceBefore).map fun step =>
      let stop := start.advance step.count
      let token : Token := ⟨step.kind, stop.spanFrom start.pos, lines.line start.pos, spaceBefore⟩
      (token, ⟨stop, step.frames, token.endsInterpolation⟩)

end Lexer

/-- A token that was looked at, and what the lexer was like in front of it. -/
structure Peeked where
  token : Token
  cursorBefore : Cursor
  framesBefore : List Lexer.Frame
  afterInterpolationBefore : Bool

/-- A lexer with one token of lookahead. -/
structure TokenStream where
  /-- The state behind all that was read, also behind a token that was looked at. -/
  state : Lexer.State
  peeked : Option Peeked

namespace TokenStream

def ofCursor (c : Cursor) : TokenStream :=
  ⟨⟨c, [], false⟩, none⟩

/-- The first place that is not consumed. A token that was looked at is not. -/
def position (s : TokenStream) : Cursor :=
  match s.peeked with
  | some peeked => peeked.cursorBefore
  | none => s.state.cursor

/-- Whether the last consumed token closed an interpolation in plain text. -/
def afterInterpolation (s : TokenStream) : Bool :=
  match s.peeked with
  | some peeked => peeked.afterInterpolationBefore
  | none => s.state.afterInterpolation

/-- Look at the next token. -/
def peek (lines : LineIndex) (s : TokenStream) : Except Diagnostic (Token × TokenStream) :=
  match s.peeked with
  | some peeked => .ok (peeked.token, s)
  | none => (Lexer.next lines s.state).map fun (token, after) =>
    (token,
      ⟨after, some ⟨token, s.state.cursor, s.state.frames, s.state.afterInterpolation⟩⟩)

/-- Consume the next token. -/
def next (lines : LineIndex) (s : TokenStream) : Except Diagnostic (Token × TokenStream) :=
  match s.peeked with
  | some peeked => .ok (peeked.token, ⟨s.state, none⟩)
  | none => (Lexer.next lines s.state).map fun (token, after) => (token, ⟨after, none⟩)

/-- Give back the token that was looked at: the lexer is again as it was in front of it. -/
def unpeek (s : TokenStream) : TokenStream :=
  match s.peeked with
  | some peeked =>
    ⟨⟨peeked.cursorBefore, peeked.framesBefore, peeked.afterInterpolationBefore⟩, none⟩
  | none => s

/-- Whether a blank stands at the place: in front of the token that was looked at, or else on
either side. -/
def spaceAround (s : TokenStream) : Bool :=
  match s.peeked with
  | some peeked => peeked.token.spaceBefore
  | none =>
    s.state.cursor.following?.any Text.isBlank || s.state.cursor.preceding?.any Text.isBlank

/-- Go on as if behind the opening of an interpolation in plain text. -/
def enterInterpolation (s : TokenStream) : TokenStream :=
  let s := s.unpeek
  { s with state := { s.state with frames := .plain :: s.state.frames } }

end TokenStream

end Stylesheet
