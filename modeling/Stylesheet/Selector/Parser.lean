import Stylesheet.Selector.Basic
import Stylesheet.Source.Scan

/-!
Reading selectors. Comments count as blanks. A pseudo-class argument that does not read as a
selector is kept as text, so reading one selector may try to read another inside it; the depth of
that is bounded by the length of the text.
-/

namespace Stylesheet.Selector

/-- A reader gives what it read and the text behind it. -/
abbrev Reader (α : Type) := List Char → Option (α × List Char)

/-- Skip blanks and comments. -/
def skipBlanks (text : List Char) : List Char :=
  go text.length text
where
  go : Nat → List Char → List Char
    | 0, text => text
    | fuel + 1, text =>
      match text with
      | [] => []
      | c :: rest =>
        if Text.isBlank c then go fuel rest
        else match Scan.blockComment? text with
          | some count => go fuel (text.drop count)
          | none => text

/-- Repeat a reader as long as it succeeds, at most once for each character. -/
def many (read : Reader α) (text : List Char) : List α × List Char :=
  go text.length text
where
  go : Nat → List Char → List α × List Char
    | 0, text => ([], text)
    | fuel + 1, text =>
      match read text with
      | some (item, rest) =>
        let (items, rest) := go fuel rest
        (item :: items, rest)
      | none => ([], text)

def slice (count : Nat) (text : List Char) : String × List Char :=
  (String.ofList (text.take count), text.drop count)

def readIdent : Reader String := fun text =>
  (Scan.ident? text).map fun count => slice count text

def readName : Reader String := fun text =>
  (Scan.name? text).map fun count => slice count text

def readChar (c : Char) : Reader Unit
  | x :: rest => if x == c then some ((), rest) else none
  | [] => none

/-- An identifier or `*`. -/
def readElementName : Reader String := fun text =>
  match readIdent text, text with
  | some found, _ => some found
  | none, '*' :: rest => some ("*", rest)
  | none, _ => none

def named (name : String) (ns : Option String) : Simple :=
  if name == "*" then .universal ns else .element name ns

/-- What stands behind a name, if there was one: a bar makes it a namespace. -/
def readQualifiedFrom (first : Option String) : Reader Simple
  | '|' :: '=' :: rest => first.map fun name => (named name none, '|' :: '=' :: rest)
  | '|' :: rest =>
    (readElementName rest).map fun (name, rest) => (named name (some (first.getD "")), rest)
  | rest => first.map fun name => (named name none, rest)

/-- An element name or `*`, with an optional namespace in front. -/
def readQualified : Reader Simple := fun text =>
  match readElementName text with
  | some (first, rest) => readQualifiedFrom (some first) rest
  | none => readQualifiedFrom none text

/-- The length of a fraction behind its whole part. -/
def fractionLength : List Char → Nat
  | '.' :: rest =>
    match Scan.run Char.isDigit rest with
    | 0 => 0
    | count => count + 1
  | _ => 0

/-- A percentage, as keyframe selectors have. -/
def readPercentage : Reader Simple := fun text =>
  let whole := Scan.run Char.isDigit text
  if whole = 0 then none
  else
    let count := whole + fractionLength (text.drop whole)
    match text.drop count with
    | '%' :: rest => some (.element (String.ofList (text.take (count + 1))) none, rest)
    | _ => none

def readBase : Reader Simple
  | '&' :: rest => some (.parent, rest)
  | text => readPercentage text <|> readQualified text

/-- The length of a string without its opening quote. -/
def quotedBody? (quote : Char) : List Char → Option Nat
  | '\\' :: _ :: rest => (quotedBody? quote rest).map (· + 2)
  | c :: rest =>
    if c == quote then some 1
    else if c == '\\' || c == '\n' then none
    else (quotedBody? quote rest).map (· + 1)
  | [] => none

/-- The length of a string in quotes. -/
def quoted? : List Char → Option Nat
  | c :: rest =>
    if c == '"' || c == '\'' then (quotedBody? c rest).map (· + 1) else none
  | [] => none

def readAttributeValue : Reader String := fun text =>
  match quoted? text with
  | some count => some (slice count text)
  | none => readIdent text

def readAttributeOperator : Reader String
  | '=' :: rest => some ("=", rest)
  | c :: '=' :: rest =>
    if c == '~' || c == '|' || c == '^' || c == '$' || c == '*' then
      some (String.ofList [c, '='], rest)
    else none
  | _ => none

/-- The operator and the value behind the name of an attribute, if any, and the bracket that closes
them. -/
def readTest : Reader (Option (String × String)) := fun text =>
  match readAttributeOperator text with
  | some (operator, rest) => do
    let (value, rest) ← readAttributeValue (skipBlanks rest)
    let (_, rest) ← readChar ']' (skipBlanks rest)
    some (some (operator, value), rest)
  | none => do
    let (_, rest) ← readChar ']' text
    some (none, rest)

def readAttribute : Reader Simple := fun text => do
  let (_, rest) ← readChar '[' text
  let (qualified, rest) ← readQualified (skipBlanks rest)
  match qualified with
  | .element name ns =>
    let (test, rest) ← readTest (skipBlanks rest)
    some (.attribute name ns (test.map (·.1)) (test.map (·.2)), rest)
  | _ => none

/-- The length of a text up to the parenthesis that closes it; strings are skipped as a whole. -/
def balanced? : Nat → Nat → List Char → Option Nat
  | 0, _, _ => none
  | _, _, [] => none
  | fuel + 1, depth, c :: rest =>
    if c == '"' || c == '\'' then do
      let count ← quoted? (c :: rest)
      let more ← balanced? fuel depth ((c :: rest).drop count)
      some (count + more)
    else if c == ')' then
      match depth with
      | 0 => some 0
      | depth + 1 => (balanced? fuel depth rest).map (· + 1)
    else (balanced? fuel (if c == '(' then depth + 1 else depth) rest).map (· + 1)

/-- Pseudo-classes whose argument is a selector. -/
def takesSelector (name : String) : Bool :=
  ["not", "matches", "any", "-moz-any", "-webkit-any"].contains (Text.lower name)

/-- The raw argument of a pseudo selector and the parenthesis behind it. -/
def readRawArgument (kind : PseudoKind) (name : String) : Reader Simple := fun text => do
  let count ← balanced? (text.length + 1) 0 text
  let (_, rest) ← readChar ')' (text.drop count)
  some (.pseudo kind name (some (Text.trim (String.ofList (text.take count)))), rest)

def readColons : Reader PseudoKind
  | ':' :: ':' :: rest => some (.ofElement, rest)
  | ':' :: rest => some (.ofClass, rest)
  | _ => none

/-- A selector as the argument of a pseudo-class and the parenthesis behind it. -/
def readSelectorArgument (nested : Reader Selector) (name : String) : Reader Simple := fun text => do
  let (selector, rest) ← nested text
  let (_, rest) ← readChar ')' (skipBlanks rest)
  some (.selectorPseudo name selector, rest)

def readArgument (nested : Reader Selector) (kind : PseudoKind) (name : String) : Reader Simple :=
  fun text =>
    if kind == .ofClass && takesSelector name then
      readSelectorArgument nested name text <|> readRawArgument kind name text
    else readRawArgument kind name text

def readPseudo (nested : Reader Selector) : Reader Simple := fun text => do
  let (kind, rest) ← readColons text
  let (name, rest) ← readIdent rest
  match rest with
  | '(' :: argument => readArgument nested kind name argument
  | _ => some (.pseudo kind name none, rest)

def readQualifier (nested : Reader Selector) : Reader Simple
  | '.' :: rest => (readIdent rest).map fun (name, rest) => (.className name, rest)
  | '#' :: rest => (readName rest).map fun (name, rest) => (.id name, rest)
  | '[' :: rest => readAttribute ('[' :: rest)
  | text => readPseudo nested text

/-- A base, if there is one. -/
def readOptionalBase (text : List Char) : Option Simple × List Char :=
  match readBase text with
  | some (base, rest) => (some base, rest)
  | none => (none, text)

/-- A base and qualifiers, at least one of either. -/
def readCompound (nested : Reader Selector) : Reader Compound := fun text =>
  let (base, rest) := readOptionalBase text
  let (qualifiers, rest) := many (readQualifier nested) rest
  match base.toList ++ qualifiers with
  | [] => none
  | members => some (Compound.ofMembers members, rest)

def readCombinator : Reader Combinator
  | '>' :: rest => some (.child, rest)
  | '+' :: rest => some (.nextSibling, rest)
  | '~' :: rest => some (.followingSibling, rest)
  | _ => none

/-- The components that follow one another. A compound directly behind another is not read:
descent needs a blank. -/
def readComponents (nested : Reader Selector) :
    Nat → Bool → List Char → Chain × List Char
  | 0, _, text => ([], text)
  | fuel + 1, afterCompound, text =>
    let rest := skipBlanks text
    let spaced := rest.length < text.length
    match readCombinator rest with
    | some (combinator, rest) =>
      let (components, rest) := readComponents nested fuel false rest
      (.combinator combinator :: components, rest)
    | none =>
      if !spaced && afterCompound then ([], text)
      else match readCompound nested rest with
        | some (compound, rest) =>
          let (components, rest) := readComponents nested fuel true rest
          (.compound compound :: components, rest)
        | none => ([], text)

/-- What became of reading a list of chains: all of it, or the text at which a chain is missing. -/
inductive Outcome where
  | read (selector : Selector) (rest : List Char)
  | missing (rest : List Char)

/-- Chains with commas between them. -/
def readChains (nested : Reader Selector) : Nat → Selector → List Char → Outcome
  | 0, _, text => .missing text
  | fuel + 1, found, text =>
    match readComponents nested (text.length + 1) false text with
    | ([], _) => .missing text
    | (chain, rest) =>
      match skipBlanks rest with
      | ',' :: more => readChains nested fuel (found ++ [chain]) more
      | _ => .read (found ++ [chain]) rest

/-- Read a selector in which selectors are nested at most `depth` deep. -/
def readNested : Nat → Reader Selector
  | 0, _ => none
  | depth + 1, text =>
    match readChains (readNested depth) (text.length + 1) [] text with
    | .read selector rest => some (selector, rest)
    | .missing _ => none

/-- Read a selector from the front of a text. -/
def readList (text : List Char) : Outcome :=
  readChains (readNested text.length) (text.length + 1) [] text

/-- The place in `text` at which `rest` begins. -/
def cursorAt (text rest : List Char) : Cursor :=
  (Cursor.ofChars text).advance (text.length - rest.length)

/-- The selector a text spells. The line is the one to report. -/
def parse (text : String) (line : Nat) : Except Diagnostic Selector :=
  let chars := text.toList
  let failure (rest : List Char) : Except Diagnostic Selector :=
    .error <| Diagnostic.error (Scan.invalidCss (cursorAt chars rest) "selector")
      |>.withFault .invalidSelector
      |>.withLine line
  match readList chars with
  | .read selector rest =>
    match rest.dropWhile Text.isBlank with
    | [] => .ok selector
    | rest => failure rest
  | .missing rest => failure (rest.dropWhile Text.isBlank)

end Stylesheet.Selector
