import Stylesheet.Document
import Stylesheet.Double.Text
import Stylesheet.Text.Hex

/-!
Structured data as TOML: lines that set a key, below headers that name a table. A key can be set
once, and a table can be opened by one header only. Keys and values may be nested eighty deep.
-/

namespace Stylesheet.Toml

/-! ### Tables under construction -/

/-- How a table came to be. -/
inductive Origin where
  /-- Named on the way to another table. -/
  | implied
  /-- Opened by a header. -/
  | header
  /-- Named in front of a dot in a key. -/
  | dotted
deriving Repr, DecidableEq

/-- What a key stands for. -/
inductive Entry where
  | value (document : Document)
  | table (origin : Origin) (entries : List (String × Entry))
  /-- A list of tables, each opened by a header of its own. -/
  | tables (rows : List (List (String × Entry)))

/-- The entries of a table. -/
abbrev Entries := List (String × Entry)

namespace Entry

mutual

def toDocument : Entry → Document
  | value document => document
  | table _ entries => .table (documents entries)
  | tables rows => .list (rowDocuments rows)

def documents : List (String × Entry) → List (String × Document)
  | [] => []
  | (key, entry) :: rest => (key, entry.toDocument) :: documents rest

def rowDocuments : List (List (String × Entry)) → List Document
  | [] => []
  | row :: rest => .table (documents row) :: rowDocuments rest

end

end Entry

namespace Entries

/-- Replace the entry of a key. -/
private def replace (entries : Entries) (key : String) (entry : Entry) : Entries :=
  entries.map fun (other, old) => (other, if other == key then entry else old)

/-- Set a key. The keys in front of dots name tables that no header has opened, and none can open
them any more. On the way the last table of a list may be passed, but nothing is set in it. -/
def assign? (entries : Entries) (value : Document) : List String → Option Entries
  | [] => none
  | [key] =>
    match List.lookup key entries with
    | none => some (entries ++ [(key, .value value)])
    | some _ => none
  | key :: next :: rest =>
    match List.lookup key entries with
    | none =>
      (assign? [] value (next :: rest)).map fun inner => entries ++ [(key, .table .dotted inner)]
    | some (.table origin inner) =>
      if origin == .header then none
      else (assign? inner value (next :: rest)).map fun inner =>
        entries.replace key (.table .dotted inner)
    | some (.tables rows) =>
      if rest.isEmpty then none
      else (assign? (rows.getLast?.getD []) value (next :: rest)).map fun row =>
        entries.replace key (.tables (rows.dropLast ++ [row]))
    | some (.value _) => none

/-- Change the table that some keys lead to; tables on the way are made if they are missing, and in
a list of tables the way goes through the last. -/
def updateAt? (change : Entries → Option Entries) (entries : Entries) :
    List String → Option Entries
  | [] => change entries
  | key :: rest =>
    match List.lookup key entries with
    | none =>
      (updateAt? change [] rest).map fun inner => entries ++ [(key, .table .implied inner)]
    | some (.table origin inner) =>
      (updateAt? change inner rest).map fun inner => entries.replace key (.table origin inner)
    | some (.tables rows) =>
      (updateAt? change (rows.getLast?.getD []) rest).map fun row =>
        entries.replace key (.tables (rows.dropLast ++ [row]))
    | some (.value _) => none

/-- Open a table. -/
private def define? (key : String) (entries : Entries) : Option Entries :=
  match List.lookup key entries with
  | none => some (entries ++ [(key, .table .header [])])
  | some (.table .implied inner) => some (entries.replace key (.table .header inner))
  | some _ => none

/-- Open another table of a list. -/
private def addRow? (key : String) (entries : Entries) : Option Entries :=
  match List.lookup key entries with
  | none => some (entries ++ [(key, .tables [[]])])
  | some (.tables rows) => some (entries.replace key (.tables (rows ++ [[]])))
  | some _ => none

/-- What a header in single brackets does. -/
def openTable? (entries : Entries) (path : List String) : Option Entries := do
  entries.updateAt? (define? (← path.getLast?)) path.dropLast

/-- What a header in double brackets does. -/
def openRow? (entries : Entries) (path : List String) : Option Entries := do
  entries.updateAt? (addRow? (← path.getLast?)) path.dropLast

end Entries

/-- How many brackets can be open at a time, and how many parts a key can have. -/
def maxDepth : Nat := 80

/-! ### Blanks, comments and line ends -/

/-- A character that may stand in comments and strings. -/
private def isPlain (c : Char) : Bool :=
  c == '\t' || (c.toNat ≥ 0x20 && c.toNat != 0x7f)

private def skipBlanks (text : List Char) : List Char :=
  text.dropWhile fun c => c == ' ' || c == '\t'

private def skipComment : List Char → List Char
  | '#' :: rest => rest.dropWhile isPlain
  | text => text

private def lineEnd? : List Char → Option (List Char)
  | '\n' :: rest => some rest
  | '\r' :: '\n' :: rest => some rest
  | _ => none

/-- What follows the end of a line on which nothing but a comment is left. -/
private def finishLine? (text : List Char) : Option (List Char) :=
  match skipComment (skipBlanks text) with
  | [] => some []
  | rest => lineEnd? rest

/-- Skip blanks and line ends. -/
private def skipEmptyLines : List Char → List Char
  | '\r' :: '\n' :: rest => skipEmptyLines rest
  | c :: rest => if c == ' ' || c == '\t' || c == '\n' then skipEmptyLines rest else c :: rest
  | [] => []

private def skipLinesWithin : Nat → List Char → List Char
  | 0, text => text
  | fuel + 1, text =>
    let rest := skipComment (skipBlanks text)
    match lineEnd? rest with
    | some rest => skipLinesWithin fuel rest
    | none => rest

/-- Skip blanks, comments and line ends. -/
private def skipLines (text : List Char) : List Char :=
  skipLinesWithin text.length text

/-! ### Strings and keys -/

/-- A character by its code in so many hexadecimal digits. -/
private def code? (count : Nat) (text : List Char) : Option (Char × List Char) := do
  let digits := text.take count
  let code ← Text.Hex.number? digits
  if digits.length = count && code.isValidChar then some (Char.ofNat code, text.drop count)
  else none

/-- What a backslash and the following characters mean. -/
private def escape? : List Char → Option (Char × List Char)
  | 'b' :: rest => some ('\x08', rest)
  | 't' :: rest => some ('\t', rest)
  | 'n' :: rest => some ('\n', rest)
  | 'f' :: rest => some ('\x0c', rest)
  | 'r' :: rest => some ('\r', rest)
  | 'e' :: rest => some ('\x1b', rest)
  | '"' :: rest => some ('"', rest)
  | '\\' :: rest => some ('\\', rest)
  | 'x' :: rest => code? 2 rest
  | 'u' :: rest => code? 4 rest
  | 'U' :: rest => code? 8 rest
  | _ => none

/-- The rest of a string in double quotes. -/
private def stringTail? (found : List Char) : Nat → List Char → Option (String × List Char)
  | 0, _ => none
  | _, [] => none
  | fuel + 1, c :: rest =>
    if c == '"' then some (String.ofList found.reverse, rest)
    else if c == '\\' then do
      let (c, rest) ← escape? rest
      stringTail? (c :: found) fuel rest
    else if isPlain c then stringTail? (c :: found) fuel rest
    else none

/-- The rest of a string in single quotes, in which nothing is escaped. -/
private def literalTail? (text : List Char) : Option (String × List Char) :=
  let content := text.takeWhile fun c => isPlain c && c != '\''
  match text.drop content.length with
  | '\'' :: rest => some (String.ofList content, rest)
  | _ => none

/-- The end of a string of several lines; one or two quotes in front of it belong to the string. -/
private def longEnd? (quote : Char) (found : List Char) :
    List Char → Option (String × List Char)
  | a :: b :: c :: rest =>
    if a == quote && b == quote && c == quote then
      let extra := rest.takeWhile (· == quote)
      if extra.length ≤ 2 then
        some (String.ofList (found.reverse ++ extra), rest.drop extra.length)
      else none
    else none
  | _ => none

/-- The rest of a string of several lines. In double quotes a backslash at the end of a line hides
the blanks and line ends that follow. -/
private def longTail? (quote : Char) (found : List Char) :
    Nat → List Char → Option (String × List Char)
  | 0, _ => none
  | _, [] => none
  | fuel + 1, c :: rest =>
    if c == quote && rest.take 2 == [quote, quote] then longEnd? quote found (c :: rest)
    else if c == '\\' && quote == '"' then
      match lineEnd? (skipBlanks rest) with
      | some next => longTail? quote found fuel (skipEmptyLines next)
      | none => do
        let (c, rest) ← escape? rest
        longTail? quote (c :: found) fuel rest
    else
      match lineEnd? (c :: rest) with
      | some rest => longTail? quote ('\n' :: found) fuel rest
      | none => if isPlain c then longTail? quote (c :: found) fuel rest else none

/-- A string of several lines behind its three quotes; a line end directly there does not count. -/
private def long? (quote : Char) (text : List Char) : Option (String × List Char) :=
  longTail? quote [] (text.length + 1) ((lineEnd? text).getD text)

private def isKeyChar (c : Char) : Bool :=
  c.isAlphanum || c == '_' || c == '-'

private def keyPart? : List Char → Option (String × List Char)
  | '"' :: rest => stringTail? [] (rest.length + 1) rest
  | '\'' :: rest => literalTail? rest
  | text =>
    let name := text.takeWhile isKeyChar
    if name.isEmpty then none else some (String.ofList name, text.drop name.length)

private def keyWithin? : Nat → List Char → Option (List String × List Char)
  | 0, _ => none
  | fuel + 1, text => do
    let (part, rest) ← keyPart? text
    match skipBlanks rest with
    | '.' :: rest =>
      let (parts, rest) ← keyWithin? fuel (skipBlanks rest)
      return (part :: parts, rest)
    | rest => return ([part], rest)

/-- The parts of a key between its dots. -/
private def key? (text : List Char) : Option (List String × List Char) :=
  keyWithin? maxDepth text

/-! ### Numbers, dates and truth values -/

/-- Digits without the underscores between them. -/
private def digits? (isDigit : Char → Bool) : List Char → Option (List Char)
  | [] => none
  | [c] => if isDigit c then some [c] else none
  | c :: '_' :: rest => if isDigit c then (digits? isDigit rest).map (c :: ·) else none
  | c :: rest => if isDigit c then (digits? isDigit rest).map (c :: ·) else none

private def numberIn? (base : Nat) (text : List Char) : Option Nat := do
  let digits ← digits? (fun c => (Text.Hex.digit? c).any (· < base)) text
  return digits.foldl (fun value c => value * base + (Text.Hex.digit? c).getD 0) 0

/-- Decimal digits that do not start with a zero, unless it is the only one. -/
private def decimal? (text : List Char) : Option Nat :=
  if text.length > 1 && text.head? == some '0' then none else numberIn? 10 text

private def splitSign : List Char → Bool × List Char
  | '-' :: rest => (true, rest)
  | '+' :: rest => (false, rest)
  | text => (false, text)

/-- An integer that fits in 64 bits, with or without a sign. -/
private def integer? (text : List Char) : Option Int := do
  let value : Int ← match text with
    | '0' :: 'x' :: rest => (numberIn? 16 rest).map Int.ofNat
    | '0' :: 'o' :: rest => (numberIn? 8 rest).map Int.ofNat
    | '0' :: 'b' :: rest => (numberIn? 2 rest).map Int.ofNat
    | _ =>
      let (negative, body) := splitSign text
      (decimal? body).map fun size => if negative then -(size : Int) else size
  if -Int.pow 2 63 ≤ value && value < Int.pow 2 64 then some value else none

private def isDigitOrBar (c : Char) : Bool :=
  c.isDigit || c == '_'

private def isExponent : List Char → Bool
  | e :: rest => (e == 'e' || e == 'E') && (numberIn? 10 (splitSign rest).2).isSome
  | [] => false

/-- A number with a fraction, an exponent or both, or one that is not finite. -/
private def isFloat (text : List Char) : Bool :=
  let body := (splitSign text).2
  if body == ['i', 'n', 'f'] || body == ['n', 'a', 'n'] then true
  else
    let whole := body.takeWhile isDigitOrBar
    (decimal? whole).isSome &&
      match body.drop whole.length with
      | '.' :: rest =>
        let fraction := rest.takeWhile isDigitOrBar
        let after := rest.drop fraction.length
        (numberIn? 10 fraction).isSome && (after.isEmpty || isExponent after)
      | after => isExponent after

/-- Whether a number is too large for a double. -/
private def overflows (text : List Char) : Bool :=
  text.any Char.isDigit &&
    (Double.ofText? (String.ofList (text.filter (· != '_')))).any Double.isInf

/-- Two digits below a limit. -/
private def isPairBelow (limit : Nat) (a b : Char) : Bool :=
  a.isDigit && b.isDigit && (numberIn? 10 [a, b]).any (· < limit)

private def daysIn (year month : Nat) : Nat :=
  if month = 2 then
    if year % 4 = 0 && (year % 100 != 0 || year % 400 = 0) then 29 else 28
  else if [4, 6, 9, 11].contains month then 30
  else 31

/-- What follows a date. -/
private def afterDate? : List Char → Option (List Char)
  | y1 :: y2 :: y3 :: y4 :: '-' :: m1 :: m2 :: '-' :: d1 :: d2 :: rest => do
    if [y1, y2, y3, y4, m1, m2, d1, d2].all Char.isDigit then
      let year ← numberIn? 10 [y1, y2, y3, y4]
      let month ← numberIn? 10 [m1, m2]
      let day ← numberIn? 10 [d1, d2]
      if 1 ≤ month && month ≤ 12 && 1 ≤ day && day ≤ daysIn year month then some rest else none
    else none
  | _ => none

/-- What follows the seconds of a time; they may be missing. -/
private def afterSeconds? : List Char → Option (List Char)
  | ':' :: s1 :: s2 :: rest =>
    if isPairBelow 61 s1 s2 then
      match rest with
      | '.' :: rest =>
        let fraction := rest.takeWhile Char.isDigit
        if fraction.isEmpty then none else some (rest.drop fraction.length)
      | rest => some rest
    else none
  | ':' :: _ => none
  | rest => some rest

/-- What follows a time of day. -/
private def afterTime? : List Char → Option (List Char)
  | h1 :: h2 :: ':' :: m1 :: m2 :: rest =>
    if isPairBelow 24 h1 h2 && isPairBelow 60 m1 m2 then afterSeconds? rest else none
  | _ => none

private def isOffset : List Char → Bool
  | [] => true
  | ['Z'] => true
  | ['z'] => true
  | [sign, h1, h2, ':', m1, m2] =>
    (sign == '+' || sign == '-') && isPairBelow 24 h1 h2 && isPairBelow 60 m1 m2
  | _ => false

/-- A date, a time of day, or both. -/
private def isMoment (text : List Char) : Bool :=
  match afterDate? text with
  | some [] => true
  | some (mark :: rest) =>
    (mark == 'T' || mark == 't' || mark == ' ') && (afterTime? rest).any isOffset
  | none => afterTime? text == some []

private def isWordChar (c : Char) : Bool :=
  isKeyChar c || c == '+' || c == '.' || c == ':'

/-- The characters of a value that is not in quotes or brackets. A blank may divide a date from
the time of day. -/
private def word (text : List Char) : List Char :=
  let first := text.takeWhile isWordChar
  match afterDate? first, text.drop first.length with
  | some [], ' ' :: c :: rest =>
    if c.isDigit then first ++ ' ' :: (c :: rest).takeWhile isWordChar else first
  | _, _ => first

private def wordValue? (text : List Char) : Option Document :=
  if text == ['t', 'r', 'u', 'e'] then some (.bool true)
  else if text == ['f', 'a', 'l', 's', 'e'] then some (.bool false)
  else match integer? text with
    | some value => some (.integer value)
    | none =>
      if (isFloat text && !overflows text) || isMoment text then some (.scalar (String.ofList text))
      else none

/-! ### Values and lines -/

private def asText (read : Option (String × List Char)) : Option (Document × List Char) :=
  read.map fun (text, rest) => (.text text, rest)

mutual

/-- A value in which `depth` brackets can be open at a time. -/
private def value? (depth : Nat) : Nat → List Char → Option (Document × List Char)
  | 0, _ => none
  | fuel + 1, text =>
    match text with
    | '"' :: '"' :: '"' :: rest => asText (long? '"' rest)
    | '"' :: rest => asText (stringTail? [] (rest.length + 1) rest)
    | '\'' :: '\'' :: '\'' :: rest => asText (long? '\'' rest)
    | '\'' :: rest => asText (literalTail? rest)
    | '[' :: rest =>
      if depth = 0 then none
      else (items? (depth - 1) [] fuel rest).map fun (items, rest) => (.list items, rest)
    | '\x7b' :: rest =>
      if depth = 0 then none
      else (fields? (depth - 1) [] fuel rest).map fun (entries, rest) =>
        (.table (Entry.documents entries), rest)
    | _ =>
      let found := word text
      (wordValue? found).map fun value => (value, text.drop found.length)

private def items? (depth : Nat) (found : List Document) :
    Nat → List Char → Option (List Document × List Char)
  | 0, _ => none
  | fuel + 1, text =>
    match skipLines text with
    | ']' :: rest => some (found.reverse, rest)
    | rest => do
      let (item, rest) ← value? depth fuel rest
      match skipLines rest with
      | ',' :: rest => items? depth (item :: found) fuel rest
      | ']' :: rest => some ((item :: found).reverse, rest)
      | _ => none

private def fields? (depth : Nat) (found : Entries) :
    Nat → List Char → Option (Entries × List Char)
  | 0, _ => none
  | fuel + 1, text =>
    match skipLines text with
    | '\x7d' :: rest => some (found, rest)
    | rest => do
      let (path, rest) ← key? rest
      match skipLines rest with
      | '=' :: rest =>
        let (value, rest) ← value? depth fuel (skipLines rest)
        let found ← found.assign? value path
        match skipLines rest with
        | ',' :: rest => fields? depth found fuel rest
        | '\x7d' :: rest => some (found, rest)
        | _ => none
      | _ => none

end

/-- Read line by line; `header` names the table that keys are set in. -/
private def lines? (entries : Entries) (header : List String) : Nat → List Char → Option Entries
  | 0, _ => none
  | fuel + 1, text =>
    match skipLines text with
    | [] => some entries
    | '[' :: '[' :: rest => do
      let (path, rest) ← key? (skipBlanks rest)
      match skipBlanks rest with
      | ']' :: ']' :: rest => lines? (← entries.openRow? path) path fuel (← finishLine? rest)
      | _ => none
    | '[' :: rest => do
      let (path, rest) ← key? (skipBlanks rest)
      match skipBlanks rest with
      | ']' :: rest => lines? (← entries.openTable? path) path fuel (← finishLine? rest)
      | _ => none
    | rest => do
      let (path, rest) ← key? rest
      match skipBlanks rest with
      | '=' :: rest =>
        let (value, rest) ← value? maxDepth (2 * rest.length + 2) (skipBlanks rest)
        let entries ← entries.updateAt? (·.assign? value path) header
        lines? entries header fuel (← finishLine? rest)
      | _ => none

/-- The table that a text writes. -/
def read? (text : String) : Option Document := do
  let chars := match text.toList with
    | '\ufeff' :: rest => rest
    | chars => chars
  let entries ← lines? [] [] (chars.length + 1) chars
  return .table (Entry.documents entries)

end Stylesheet.Toml
