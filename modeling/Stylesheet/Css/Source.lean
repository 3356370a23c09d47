import Stylesheet.Css.Basic
import Stylesheet.Selector.Printer

/-!
A flat tree as a stylesheet in either dialect, laid out to be read.
-/

namespace Stylesheet

namespace SourceText

/-- A statement without a block. -/
def statement (dialect : Dialect) (depth : Nat) (text : String) : String :=
  Text.indent depth ++ text ++ (if dialect == .indented then "" else ";") ++ "\n"

/-- A statement with a block. -/
def block (dialect : Dialect) (depth : Nat) (head body : String) : String :=
  if dialect == .indented then Text.indent depth ++ head ++ "\n" ++ body
  else Text.indent depth ++ head ++ " \x7b\n" ++ body ++ Text.indent depth ++ "\x7d\n"

/-- The lines of a comment below the first are indented under it. -/
def comment (dialect : Dialect) (depth : Nat) (text : String) : String :=
  let spaces := Text.indent depth
  match Text.lines text with
  | [] => ""
  | first :: rest =>
    let gap := if dialect == .indented then "  " else " "
    spaces ++ Text.trimStart first ++ "\n" ++
      String.join (rest.map fun line => spaces ++ gap ++ Text.trimStart line ++ "\n")

/-- The selector of a rule. A colon in front would make it a property in the indented dialect. -/
def selector (dialect : Dialect) (selector : Selector) : String :=
  let text := selector.toCss .nested
  if dialect == .indented && text.startsWith ":" then "\\" ++ text else text

mutual

/-- The source of a node. -/
def node (dialect : Dialect) (depth : Nat) : Css → String
  | ⟨.rule rule, children, _, _, _, _⟩ =>
    block dialect depth (selector dialect rule) (nodes dialect (depth + 1) children)
  | ⟨.property name (some value), _, _, _, _, _⟩ =>
    let text := match value.toCss .nested with
      | .ok text => text
      | .error _ => value.inspect
    statement dialect depth (name ++ ": " ++ text)
  | ⟨.property _ none, _, _, _, _, _⟩ => ""
  | ⟨.comment text _, _, _, _, _, _⟩ => comment dialect depth text
  | ⟨.directive name params hasBlock, children, _, _, _, _⟩ =>
    let head := Css.directiveHead name params
    if hasBlock && !(dialect == .indented && children.isEmpty) then
      block dialect depth head (nodes dialect (depth + 1) children)
    else statement dialect depth head
  | ⟨.media query, children, _, _, _, _⟩ =>
    block dialect depth ("@media " ++ query) (nodes dialect (depth + 1) children)
  | ⟨.charset name, _, _, _, _, _⟩ => statement dialect depth ("@charset \"" ++ name ++ "\"")
  | ⟨.importing uri, _, _, _, _, _⟩ => statement dialect depth ("@import " ++ uri)
  | ⟨.root, _, _, _, _, _⟩ => ""
  | ⟨.extend _, _, _, _, _, _⟩ => ""

def nodes (dialect : Dialect) (depth : Nat) : List Css → String
  | [] => ""
  | c :: rest => node dialect depth c ++ nodes dialect depth rest

end

end SourceText

/-- The source of a flat stylesheet in a dialect, with an empty line between the top statements. -/
def Css.toSource (root : Css) (dialect : Dialect) : String :=
  let blocks := (root.children.map (SourceText.node dialect 0)).filter (!·.isEmpty)
  "\n".intercalate blocks

end Stylesheet
