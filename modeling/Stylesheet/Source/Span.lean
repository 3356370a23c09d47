/-!
Places in a source text. Offsets count bytes; lines and columns count from one.
-/

namespace Stylesheet

/-- The bytes from `start` up to `stop`, which is not before `start`. -/
structure Span where
  start : Nat
  stop : Nat
deriving Repr, DecidableEq, Inhabited

namespace Span

/-- The span between two offsets; a stop before the start is raised to it. -/
def between (start stop : Nat) : Span :=
  ⟨start, max stop start⟩

def size (span : Span) : Nat :=
  span.stop - span.start

def isEmpty (span : Span) : Bool :=
  span.start == span.stop

/-- The least span around both. -/
def union (a b : Span) : Span :=
  ⟨min a.start b.start, max a.stop b.stop⟩

def toText (span : Span) : String :=
  toString span.start ++ ".." ++ toString span.stop

end Span

/-- Where each line of a text starts. -/
structure LineIndex where
  starts : List Nat
deriving Repr, DecidableEq, Inhabited

namespace LineIndex

/-- The offsets behind the line feeds of a text that begins at `offset`. -/
def startsFrom (offset : Nat) : List Char → List Nat
  | [] => []
  | c :: rest =>
    let next := offset + c.utf8Size
    if c == '\n' then next :: startsFrom next rest else startsFrom next rest

def ofChars (text : List Char) : LineIndex :=
  ⟨0 :: startsFrom 0 text⟩

def ofText (text : String) : LineIndex :=
  ofChars text.toList

/-- The line that holds an offset; the last line holds all offsets past the end. -/
def line (index : LineIndex) (offset : Nat) : Nat :=
  (index.starts.takeWhile (· ≤ offset)).length

/-- Where a line starts. -/
def lineStart? (index : LineIndex) (line : Nat) : Option Nat :=
  match line with
  | 0 => none
  | n + 1 => index.starts[n]?

/-- The place of an offset in its line, in bytes. -/
def column (index : LineIndex) (offset : Nat) : Nat :=
  offset - (index.lineStart? (index.line offset)).getD 0 + 1

def count (index : LineIndex) : Nat :=
  index.starts.length

end LineIndex

end Stylesheet
