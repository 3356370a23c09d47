import Stylesheet.Expr.Basic

/-!
Statements: the tree that both dialects of the language are read into, before anything in it is
evaluated.
-/

namespace Stylesheet

/-- What an import asks for. -/
inductive ImportTarget where
  /-- A stylesheet that is evaluated in place of the import. -/
  | stylesheet (uri : String)
  /-- An import that is left to the browser. -/
  | css (text : Template)

mutual

/-- A statement with the statements in its block. -/
inductive Statement where
  | mk (kind : StatementKind) (children : List Statement) (line : Nat) (span : Span)
      (filename : Option String)

/-- The kinds of statements, with all that stands in front of the block. -/
inductive StatementKind where
  | root
  | rule (selector : Template)
  /-- A property; without a value it only gives its name to the properties in its block. -/
  | property (name : Template) (value : Option Expr)
  /-- A comment with its delimiters. A silent one does not reach the output. -/
  | comment (text : Template) (silent : Bool)
  /-- A directive without a meaning of its own, by its name without the at-sign. -/
  | directive (name : String) (params : Template) (hasBlock : Bool)
  | media (query : Template)
  | charset (name : String)
  | importing (target : ImportTarget)
  /-- An assignment; a guarded one gives way to an earlier value. -/
  | assign (name : String) (value : Expr) (guarded : Bool)
  | defineMixin (name : String) (params : List Param)
  | includeMixin (name : String) (args : Arguments)
  | defineFunction (name : String) (params : List Param)
  | returning (value : Expr)
  | extend (selector : Template)
  /-- A conditional and the branch taken otherwise. Without a condition it is a plain `@else`. -/
  | branch (condition : Option Expr) (otherwise : Option Statement)
  | loopWhile (condition : Expr)
  /-- A count from one number to another; an inclusive one reaches the second. -/
  | loopCount (counter : String) (start stop : Expr) (inclusive : Bool)
  | loopEach (item : String) (list : Expr)
  | debug (value : Expr)
  | warn (value : Expr)

end

namespace StatementKind

/-- The name of a kind in messages. -/
def describe : StatementKind → String
  | root => "root"
  | rule .. => "rule"
  | property .. => "property"
  | comment .. => "comment"
  | directive .. => "directive"
  | media .. => "@media"
  | charset .. => "@charset"
  | importing .. => "@import"
  | assign .. => "variable declaration"
  | defineMixin .. => "@mixin"
  | includeMixin .. => "@include"
  | defineFunction .. => "@function"
  | returning .. => "@return"
  | extend .. => "@extend"
  | branch .. => "@if"
  | loopWhile .. => "@while"
  | loopCount .. => "@for"
  | loopEach .. => "@each"
  | debug .. => "@debug"
  | warn .. => "@warn"

end StatementKind

namespace Statement

def kind : Statement → StatementKind
  | mk kind _ _ _ _ => kind

def children : Statement → List Statement
  | mk _ children _ _ _ => children

def line : Statement → Nat
  | mk _ _ line _ _ => line

def span : Statement → Span
  | mk _ _ _ span _ => span

def filename : Statement → Option String
  | mk _ _ _ _ filename => filename

/-- A statement without a block, in no file. -/
def leaf (kind : StatementKind) (line : Nat) (span : Span) : Statement :=
  mk kind [] line span none

def withKind : Statement → StatementKind → Statement
  | mk _ children line span filename, kind => mk kind children line span filename

def withChildren : Statement → List Statement → Statement
  | mk kind _ line span filename, children => mk kind children line span filename

def withSpan : Statement → Span → Statement
  | mk kind children line _ filename, span => mk kind children line span filename

/-- Whether the statement opened a block, even an empty one. -/
def hasBlock (s : Statement) : Bool :=
  match s.kind with
  | .directive _ _ hasBlock => hasBlock
  | .comment .. | .charset .. | .importing .. | .assign .. | .includeMixin .. | .returning ..
  | .extend .. | .debug .. | .warn .. => false
  | .property .. => !s.children.isEmpty
  | _ => true

mutual

/-- The statement and all below it, in a file. -/
def withFilename (filename : Option String) : Statement → Statement
  | mk (.branch condition (some otherwise)) children line span _ =>
    mk (.branch condition (some (withFilename filename otherwise)))
      (withFilenames filename children) line span filename
  | mk kind children line span _ =>
    mk kind (withFilenames filename children) line span filename

def withFilenames (filename : Option String) : List Statement → List Statement
  | [] => []
  | s :: rest => withFilename filename s :: withFilenames filename rest

end

/-- Add a branch at the end of a chain of conditionals. There is no place for it behind a plain
`@else` and behind any other statement. -/
def addElse? : Statement → Statement → Option Statement
  | mk (.branch condition (some otherwise)) children line span filename, added =>
    (addElse? otherwise added).map fun otherwise =>
      mk (.branch condition (some otherwise)) children line span filename
  | mk (.branch (some condition) none) children line span filename, added =>
    some (mk (.branch (some condition) (some added)) children line span filename)
  | _, _ => none

end Statement

end Stylesheet
