import Stylesheet.Selector.Basic
import Stylesheet.Value.Basic

/-!
The tree of evaluated statements. It is nested as the source is at first; flattening moves rules
out of rules.
-/

namespace Stylesheet

/-- What a node of the tree is. -/
inductive CssKind where
  | root
  | rule (selector : Selector)
  /-- A declaration; without a value it only gives its name to those below it. -/
  | property (name : String) (value : Option Value)
  /-- A comment with its delimiters. A preserved one stays even in compressed output. -/
  | comment (text : String) (preserved : Bool)
  /-- A directive without a meaning of its own, by its name without the at-sign. -/
  | directive (name params : String) (hasBlock : Bool)
  | media (query : String)
  | charset (name : String)
  /-- An import that is left to the browser. -/
  | importing (uri : String)
  /-- A request to extend a selector; flattening removes it. -/
  | extend (selector : Selector)

/-- A node of the tree. -/
structure Css where
  kind : CssKind
  children : List Css
  line : Nat
  filename : Option String
  /-- Levels of indentation that nested output adds to those of the position in the tree. -/
  tabs : Nat
  /-- The last of a group of rules; an empty line follows. -/
  groupEnd : Bool

namespace Css

/-- A node that stands by itself. -/
def node (kind : CssKind) (children : List Css) (line : Nat) (filename : Option String) : Css :=
  ⟨kind, children, line, filename, 0, false⟩

def isRule (c : Css) : Bool :=
  match c.kind with
  | .rule _ => true
  | _ => false

def isProperty (c : Css) : Bool :=
  match c.kind with
  | .property _ _ => true
  | _ => false

def isMedia (c : Css) : Bool :=
  match c.kind with
  | .media _ => true
  | _ => false

/-- A comment that compressed output leaves out. -/
def isPlainComment (c : Css) : Bool :=
  match c.kind with
  | .comment _ preserved => !preserved
  | _ => false

/-- A directive up to its block. -/
def directiveHead (name params : String) : String :=
  if params.isEmpty then "@" ++ name else "@" ++ name ++ " " ++ params

end Css

end Stylesheet
