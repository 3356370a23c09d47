import Stylesheet.Diagnostic.Basic
import Stylesheet.Text.Blank

/-!
The lines of an indented text: how deep each one is, which physical lines belong together, and
the tree that the depths describe.
-/

namespace Stylesheet

/-- A line with the lines that continue it. -/
structure SourceLine where
  /-- Where the text of the line starts, behind its indentation. -/
  start : Nat
  stop : Nat
  /-- The size of the indentation. -/
  indent : Nat
  /-- The number of indentation units. -/
  depth : Nat
  number : Nat
  isComment : Bool
  /-- The text ends with a comma, so the next line goes on with it. -/
  isOpen : Bool
  /-- The further lines of a comment, without the indentation of the first. -/
  body : List (List Char)
deriving Repr, DecidableEq

/-- A line and the lines below it. -/
inductive Outline where
  | mk (line : SourceLine) (children : List Outline)

namespace Outline

def line : Outline → SourceLine
  | mk line _ => line

def children : Outline → List Outline
  | mk _ children => children

/-- A cut that falls between the bytes of one character. -/
def brokenCut : Diagnostic :=
  Diagnostic.defect "A text was cut inside a character."

/-- The text behind `count` bytes, or nothing if it is shorter. -/
def cut : Nat → List Char → Except Diagnostic (List Char)
  | 0, text => .ok text
  | _, [] => .ok []
  | count, c :: rest =>
    if count < c.utf8Size then .error brokenCut else cut (count - c.utf8Size) rest

def layoutError (fault : Fault) (message : String) (number : Nat) : Diagnostic :=
  (Diagnostic.error message).withFault fault |>.withLine number

/-- The first byte of a character. -/
def leadByte (c : Char) : Option UInt8 :=
  (String.singleton c).toUTF8[0]?

/-- An indentation in words. -/
private def indentText (indent : List Char) : String :=
  let size := Text.size indent
  toString size ++ (if indent.contains '\t' then " tab" else " space") ++
    (if size = 1 then "" else "s")

private def inconsistent (indent unit : List Char) : String :=
  "Inconsistent indentation: " ++ indentText indent ++
    (if Text.size indent = 1 then " was" else " were") ++
    " used for indentation, but the rest of the document was indented using " ++
    indentText unit ++ "."

/-- The number of units in an indentation, and the unit, which the first indentation sets. -/
def depthOf (isFirst : Bool) (unit : Option (List Char)) (number : Nat)
    (indent : List Char) : Except Diagnostic (Nat × Option (List Char)) :=
  if indent.isEmpty then .ok (0, unit)
  else if isFirst then
    .error (layoutError .inconsistentIndentation
      "Indenting at the beginning of the document is illegal." number)
  else if indent.contains ' ' && indent.contains '\t' then
    .error (layoutError .mixedIndentation "Indentation can't use both tabs and spaces." number)
  else
    let chosen := unit.getD indent
    if indent.head?.bind leadByte != chosen.head?.bind leadByte
        || Text.size indent % Text.size chosen != 0 then
      .error (layoutError .inconsistentIndentation (inconsistent indent chosen) number)
    else .ok (Text.size indent / Text.size chosen, some chosen)

/-- The lines found so far, last one first, and the unit of indentation. -/
structure Progress where
  found : List SourceLine
  unit : Option (List Char)

/-- Add a physical line that starts at `offset`. Empty lines are left out; a comment takes all
deeper lines, and a line that ends with a comma takes the next one. -/
def addLine (progress : Progress) (number offset : Nat) (raw : List Char) :
    Except Diagnostic Progress :=
  let text := Text.dropEndWhile Text.isBlank raw
  let content := text.dropWhile Text.isBlank
  if content.isEmpty then .ok progress
  else
    let indent := text.takeWhile Text.isBlank
    let size := Text.size indent
    let stop := offset + Text.size text
    let isOpen := content.getLast? == some ','
    let isNew : Except Diagnostic Progress := do
      let (depth, unit) ← depthOf progress.found.isEmpty progress.unit number indent
      let isComment := ['/', '/'].isPrefixOf content || ['/', '*'].isPrefixOf content
      let line := ⟨offset + size, stop, size, depth, number, isComment, isOpen, []⟩
      return ⟨line :: progress.found, unit⟩
    match progress.found with
    | [] => isNew
    | last :: earlier =>
      if last.isComment && size > last.indent then do
        let kept ← cut last.indent text
        return { progress with found := { last with body := last.body ++ [kept] } :: earlier }
      else if !last.isComment && last.isOpen then
        .ok { progress with found := { last with stop, isOpen } :: earlier }
      else isNew

def addLines (progress : Progress) (number offset : Nat) :
    List (List Char) → Except Diagnostic Progress
  | [] => .ok progress
  | raw :: rest => do
    let progress ← addLine progress number offset raw
    addLines progress (number + 1) (offset + Text.size raw + 1) rest

/-- The lines of a text with their depths. -/
def lines (text : List Char) : Except Diagnostic (List SourceLine) := do
  let progress ← addLines ⟨[], none⟩ 1 0 (Text.splitLines text)
  return progress.found.reverse

/-- Each line is at most one deeper than the line before it, and the first has depth zero. -/
def checkDepths (previous : Option Nat) : List SourceLine → Except Diagnostic Unit
  | [] => .ok ()
  | line :: rest =>
    let allowed := previous.elim 0 (· + 1)
    if line.depth > allowed then
      .error (layoutError .inconsistentIndentation
        ("The line was indented " ++ toString (line.depth - previous.getD 0) ++
          " levels deeper than the previous line.") line.number)
    else checkDepths (some line.depth) rest

/-- The lines under each line are those behind it that are deeper, up to the first that is not. -/
def forest : List SourceLine → List Outline
  | [] => []
  | line :: rest =>
    mk line (forest (rest.takeWhile (·.depth > line.depth))) ::
      forest (rest.dropWhile (·.depth > line.depth))
termination_by lines => lines.length
decreasing_by
  · exact Nat.lt_succ_of_le (List.takeWhile_sublist _).length_le
  · exact Nat.lt_succ_of_le (List.dropWhile_sublist _).length_le

/-- The tree of some lines. -/
def ofLines (lines : List SourceLine) : Except Diagnostic (List Outline) := do
  checkDepths none lines
  return forest lines

end Outline

end Stylesheet
