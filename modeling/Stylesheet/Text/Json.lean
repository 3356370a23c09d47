import Stylesheet.Document
import Stylesheet.Text.Hex

/-!
Structured data as JSON.
-/

namespace Stylesheet.Json

def isGap (c : Char) : Bool :=
  c == ' ' || c == '\n' || c == '\t' || c == '\r'

/-- Four hexadecimal digits. -/
def codeUnit? : List Char → Option (Nat × List Char)
  | a :: b :: c :: d :: rest => (Text.Hex.number? [a, b, c, d]).map fun unit => (unit, rest)
  | _ => none

/-- A character escaped by its code, behind `\u`. A pair of surrogates is one character. -/
def escapedCode? (text : List Char) : Option (Char × List Char) := do
  let (first, rest) ← codeUnit? text
  if 0xd800 ≤ first && first < 0xdc00 then
    match rest with
    | '\\' :: 'u' :: rest =>
      let (second, rest) ← codeUnit? rest
      if 0xdc00 ≤ second && second < 0xe000 then
        return (Char.ofNat (0x10000 + (first - 0xd800) * 0x400 + (second - 0xdc00)), rest)
      else none
    | _ => none
  else if 0xdc00 ≤ first && first < 0xe000 then none
  else return (Char.ofNat first, rest)

def simpleEscape? : Char → Option Char
  | '"' => some '"'
  | '\\' => some '\\'
  | '/' => some '/'
  | 'b' => some '\x08'
  | 'f' => some '\x0c'
  | 'n' => some '\n'
  | 'r' => some '\r'
  | 't' => some '\t'
  | _ => none

/-- The rest of a string whose opening quote has been read. -/
def stringTail? (found : List Char) : Nat → List Char → Option (String × List Char)
  | 0, _ => none
  | _, [] => none
  | fuel + 1, c :: rest =>
    if c == '"' then some (String.ofList found.reverse, rest)
    else if c == '\\' then
      match rest with
      | 'u' :: rest => do
        let (c, rest) ← escapedCode? rest
        stringTail? (c :: found) fuel rest
      | c :: rest => do
        stringTail? ((← simpleEscape? c) :: found) fuel rest
      | [] => none
    else if c.toNat < 0x20 then none
    else stringTail? (c :: found) fuel rest

def readDigits (digits : List Char) : Nat :=
  digits.foldl (fun value c => value * 10 + (c.toNat - '0'.toNat)) 0

/-- A fraction and an exponent behind an integer; none, if they are malformed. -/
def fraction? (text : List Char) : Option (List Char) :=
  let afterFraction : Option (List Char) := match text with
    | '.' :: rest =>
      let digits := rest.takeWhile Char.isDigit
      if digits.isEmpty then none else some (rest.drop digits.length)
    | _ => some text
  afterFraction.bind fun rest =>
    match rest with
    | e :: exponent =>
      if e == 'e' || e == 'E' then
        let exponent := match exponent with
          | '+' :: more => more
          | '-' :: more => more
          | more => more
        let digits := exponent.takeWhile Char.isDigit
        if digits.isEmpty then none else some (exponent.drop digits.length)
      else some rest
    | [] => some []

def number? (text : List Char) : Option (Document × List Char) :=
  let (negative, body) := match text with
    | '-' :: rest => (true, rest)
    | _ => (false, text)
  let digits := body.takeWhile Char.isDigit
  let rest := body.drop digits.length
  if digits.isEmpty || (digits.length > 1 && digits.head? == some '0') then none
  else
    let isInteger := !(rest.head?.any fun c => c == '.' || c == 'e' || c == 'E')
    let value := readDigits digits
    if isInteger && !(negative && value = 0) then
      some (.integer (if negative then -(value : Int) else value), rest)
    else (fraction? rest).map fun after =>
      (.scalar (String.ofList (text.take (text.length - after.length))), after)

mutual

def value? : Nat → List Char → Option (Document × List Char)
  | 0, _ => none
  | fuel + 1, text =>
    match text.dropWhile isGap with
    | 'n' :: 'u' :: 'l' :: 'l' :: rest => some (.null, rest)
    | 't' :: 'r' :: 'u' :: 'e' :: rest => some (.bool true, rest)
    | 'f' :: 'a' :: 'l' :: 's' :: 'e' :: rest => some (.bool false, rest)
    | '"' :: rest => (stringTail? [] (rest.length + 1) rest).map fun (s, rest) => (.text s, rest)
    | '[' :: rest =>
      match rest.dropWhile isGap with
      | ']' :: rest => some (.list [], rest)
      | rest => (items? [] fuel rest).map fun (items, rest) => (.list items, rest)
    | '\x7b' :: rest =>
      match rest.dropWhile isGap with
      | '\x7d' :: rest => some (.table [], rest)
      | rest => (entries? [] fuel rest).map fun (entries, rest) => (.table entries, rest)
    | rest => number? rest

def items? (found : List Document) : Nat → List Char → Option (List Document × List Char)
  | 0, _ => none
  | fuel + 1, text => do
    let (item, rest) ← value? fuel text
    match rest.dropWhile isGap with
    | ',' :: rest => items? (item :: found) fuel rest
    | ']' :: rest => some ((item :: found).reverse, rest)
    | _ => none

def entries? (found : List (String × Document)) :
    Nat → List Char → Option (List (String × Document) × List Char)
  | 0, _ => none
  | fuel + 1, text =>
    match text.dropWhile isGap with
    | '"' :: rest => do
      let (key, rest) ← stringTail? [] (rest.length + 1) rest
      match rest.dropWhile isGap with
      | ':' :: rest =>
        let (value, rest) ← value? fuel rest
        match rest.dropWhile isGap with
        | ',' :: rest => entries? ((key, value) :: found) fuel rest
        | '\x7d' :: rest => some (((key, value) :: found).reverse, rest)
        | _ => none
      | _ => none
    | _ => none

end

/-- The data that a text writes. A key may occur several times in a table. -/
def read? (text : String) : Option Document := do
  let (document, rest) ← value? (2 * text.length + 2) text.toList
  if rest.all isGap then some document else none

def escape (c : Char) : List Char :=
  match c with
  | '"' => ['\\', '"']
  | '\\' => ['\\', '\\']
  | '\n' => ['\\', 'n']
  | '\r' => ['\\', 'r']
  | '\t' => ['\\', 't']
  | '\x08' => ['\\', 'b']
  | '\x0c' => ['\\', 'f']
  | c =>
    if c.toNat < 0x20 then ['\\', 'u', '0', '0'] ++ Text.Hex.pair c.toNat else [c]

/-- A text as a string. -/
def quote (text : String) : String :=
  "\"" ++ String.ofList (text.toList.flatMap escape) ++ "\""

end Stylesheet.Json
