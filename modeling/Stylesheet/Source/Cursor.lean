import Stylesheet.Source.Span
import Stylesheet.Text.Blank

/-!
A place in a source text that is being read, with the text on both sides of it. Reading may be
limited to a part of the text; what lies beyond the limit can still be looked at.
-/

namespace Stylesheet

/-- A place in a text. -/
structure Cursor where
  /-- The number of bytes in front of the place. -/
  pos : Nat
  /-- The text in front, nearest character first. -/
  before : List Char
  /-- The text that can be read. -/
  rest : List Char
  /-- The text behind the limit. -/
  beyond : List Char
deriving Repr, DecidableEq, Inhabited

namespace Cursor

def ofChars (text : List Char) : Cursor :=
  ⟨0, [], text, []⟩

def ofText (text : String) : Cursor :=
  ofChars text.toList

def isDone (c : Cursor) : Bool :=
  c.rest.isEmpty

def peek? (c : Cursor) : Option Char :=
  c.rest.head?

def peekSecond? (c : Cursor) : Option Char :=
  c.rest[1]?

/-- The character behind the place, also beyond the limit. -/
def following? (c : Cursor) : Option Char :=
  c.rest.head? <|> c.beyond.head?

/-- The character in front of the place. -/
def preceding? (c : Cursor) : Option Char :=
  c.before.head?

/-- Move over one character. -/
def next (c : Cursor) : Cursor :=
  match c.rest with
  | [] => c
  | x :: rest => ⟨c.pos + x.utf8Size, x :: c.before, rest, c.beyond⟩

/-- Move over `count` characters, or to the limit. -/
def advance (c : Cursor) : Nat → Cursor
  | 0 => c
  | count + 1 => c.next.advance count

def seekFrom (target pos : Nat) (before beyond : List Char) : List Char → Cursor
  | [] => ⟨pos, before, [], beyond⟩
  | x :: rest =>
    if pos ≥ target then ⟨pos, before, x :: rest, beyond⟩
    else seekFrom target (pos + x.utf8Size) (x :: before) beyond rest

/-- Move forward to an offset, or to the limit. -/
def seek (c : Cursor) (target : Nat) : Cursor :=
  seekFrom target c.pos c.before c.beyond c.rest

/-- The offset at which reading ends. -/
def limit (c : Cursor) : Nat :=
  c.pos + Text.size c.rest

def splitBytes (count : Nat) : List Char → List Char × List Char
  | [] => ([], [])
  | x :: rest =>
    if count = 0 then ([], x :: rest)
    else
      let (taken, rest) := splitBytes (count - x.utf8Size) rest
      (x :: taken, rest)

/-- The text between two places, the first of which comes first. -/
def textTo (start stop : Cursor) : List Char :=
  (splitBytes (stop.pos - start.pos) start.rest).1

/-- Stop reading at an offset ahead. -/
def limitTo (c : Cursor) (limit : Nat) : Cursor :=
  let (readable, beyond) := splitBytes (limit - c.pos) c.rest
  { c with rest := readable, beyond := beyond ++ c.beyond }

/-- Whether the text at the place starts with `text`. -/
def startsWith (c : Cursor) (text : String) : Bool :=
  text.toList.isPrefixOf c.rest

/-- Move over `text` if it stands at the place. -/
def eat? (c : Cursor) (text : String) : Option Cursor :=
  if c.startsWith text then some (c.advance text.length) else none

/-- Move over blanks. -/
def skipBlanks (c : Cursor) : Cursor :=
  c.advance (c.rest.takeWhile Text.isBlank).length

/-- The span from an earlier place to this one. -/
def spanFrom (c : Cursor) (start : Nat) : Span :=
  Span.between start c.pos

/-- The character at the place as a span, empty at the end of the text. -/
def charSpan (c : Cursor) : Span :=
  match c.following? with
  | some x => Span.between c.pos (c.pos + x.utf8Size)
  | none => Span.between c.pos c.pos

end Cursor

end Stylesheet
