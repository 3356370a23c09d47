import Stylesheet.Css.Basic
import Stylesheet.Selector.Printer

/-!
The text of a flat tree in the four styles.
-/

namespace Stylesheet

/-- How a tree is written. -/
structure Layout where
  style : Style
  /-- Say in a comment in front of each rule where it comes from. -/
  lineComments : Bool
deriving Repr, DecidableEq

namespace Layout

/-- Indentation that a node asks for; only nested output follows. -/
def tabsOf (layout : Layout) (c : Css) : Nat :=
  if layout.style == .nested then c.tabs else 0

/-- A character set is only written when the whole text needs one. -/
def isVisible (layout : Layout) (c : Css) : Bool :=
  match c.kind with
  | .charset _ => false
  | .comment _ preserved => !layout.style.isCompressed || preserved
  | _ => true

/-- The comment in front of a rule. -/
def originComment (layout : Layout) (tabs line : Nat) (filename : Option String) : String :=
  if layout.lineComments && !layout.style.isCompressed then
    let file := match filename with
      | some name => ", " ++ name
      | none => ""
    Text.indent tabs ++ "/* line " ++ toString line ++ file ++ " */\n"
  else ""

/-- A rule around the text of its declarations. -/
def rule (layout : Layout) (tabs : Nat) (selector : Selector) (groupEnd : Bool)
    (declarations : List String) : String :=
  let spaces := Text.indent tabs
  let head := spaces ++ selector.toCss layout.style
  let gap := if groupEnd then "\n" else ""
  match layout.style with
  | .compact => head ++ " \x7b " ++ " ".intercalate declarations ++ " \x7d" ++ gap
  | .compressed => head ++ "\x7b" ++ ";".intercalate declarations ++ "\x7d"
  | .expanded =>
    head ++ " \x7b\n" ++ "\n".intercalate declarations ++ "\n" ++ spaces ++ "\x7d" ++ gap
  | .nested => head ++ " \x7b\n" ++ "\n".intercalate declarations ++ " \x7d" ++ gap

/-- The indentation of what is inside a rule. -/
def innerTabs (layout : Layout) (tabs : Nat) : Nat :=
  match layout.style with
  | .compact | .compressed => 0
  | .nested | .expanded => tabs + 1

/-- A declaration. A value without a text of its own is shown as in messages. -/
def declaration (layout : Layout) (tabs : Nat) (name : String) (value : Value) : String :=
  let text := match value.toCss layout.style with
    | .ok text => text
    | .error _ => value.inspect
  if layout.style.isCompressed then Text.indent tabs ++ name ++ ":" ++ text
  else Text.indent tabs ++ name ++ ": " ++ text ++ ";"

private def isSpace (c : Char) : Bool := c == ' '

/-- Fold the lines of a comment into one: a line end becomes a space, with the indentation and the
asterisk behind it, unless the next line is not indented or the asterisk ends the comment. -/
def foldLines (first : List Char) : List (List Char) → List Char
  | [] => first
  | line :: rest =>
    let indented := line.dropWhile isSpace
    if indented.length == line.length then foldLines (first ++ '\n' :: line) rest
    else
      let content := match indented with
        | '*' :: more =>
          let spaced := more.dropWhile isSpace
          if spaced.head? == some '/' then indented else spaced
        | _ => indented
      foldLines (first ++ ' ' :: content) rest

/-- A comment on one line, if it was not on one before. -/
def foldComment (text : String) : String :=
  match Text.splitLines text.toList with
  | [] => ""
  | first :: rest => String.ofList (foldLines first rest)

/-- A comment with every line indented. -/
def comment (layout : Layout) (tabs : Nat) (text : String) (preserved : Bool) : String :=
  let leading := (text.toList.takeWhile isSpace).length
  let spaces := Text.indent (tabs - leading)
  let lines := (Text.splitLines text.toList).map fun line => spaces ++ String.ofList line
  let content := "\n".intercalate lines
  match layout.style with
  | .compact | .compressed => if preserved then content else foldComment content
  | .nested | .expanded => content

/-- The start of a block of a directive. -/
def openBlock (layout : Layout) (tabs : Nat) (head : String) : String :=
  match layout.style with
  | .compressed => head ++ "\x7b"
  | .compact => Text.indent tabs ++ head ++ " \x7b "
  | .nested | .expanded => Text.indent tabs ++ head ++ " \x7b\n"

/-- The end of a block of a directive. -/
def closeBlock (layout : Layout) : String :=
  match layout.style with
  | .compressed => "\x7d"
  | .expanded => "\n\x7d\n"
  | .nested | .compact => " \x7d\n"

/-- Text without its last character. -/
def dropLast (text : String) : String :=
  String.ofList text.toList.dropLast

mutual

/-- The text of a node at an indentation. -/
def node (layout : Layout) (tabs : Nat) : Css → String
  | c@⟨.rule selector, children, line, filename, _, groupEnd⟩ =>
    let tabs := tabs + layout.tabsOf c
    layout.originComment tabs line filename ++
      layout.rule tabs selector groupEnd (nodes layout (layout.innerTabs tabs) children)
  | c@⟨.property name (some value), _, _, _, _, _⟩ =>
    layout.declaration (tabs + layout.tabsOf c) name value
  | ⟨.property _ none, _, _, _, _, _⟩ => ""
  | ⟨.comment text preserved, _, _, _, _, _⟩ => layout.comment tabs text preserved
  | ⟨.directive name params hasBlock, children, _, _, _, _⟩ =>
    let head := Css.directiveHead name params
    if !hasBlock then head ++ ";"
    else if children.isEmpty then head ++ " \x7b\x7d"
    else
      Text.trimEnd (items layout tabs true false (layout.openBlock tabs head) children) ++
        layout.closeBlock
  | c@⟨.media query, children, _, _, _, groupEnd⟩ =>
    let tabs := tabs + layout.tabsOf c
    let head := "@media " ++ query
    if children.isEmpty then head ++ " \x7b\x7d"
    else
      let text :=
        Text.trimEnd (items layout tabs true false (layout.openBlock tabs head) children) ++
          layout.closeBlock
      if !layout.style.isCompressed && !groupEnd && text.endsWith "\n" then dropLast text else text
  | ⟨.charset name, _, _, _, _, _⟩ => "@charset \"" ++ name ++ "\";"
  | ⟨.importing uri, _, _, _, _, _⟩ => "@import " ++ uri ++ ";"
  | ⟨.root, _, _, _, _, _⟩ => ""
  | ⟨.extend _, _, _, _, _, _⟩ => ""

/-- The texts of all visible nodes. -/
def nodes (layout : Layout) (tabs : Nat) : List Css → List String
  | [] => []
  | c :: rest =>
    if layout.isVisible c then node layout tabs c :: nodes layout tabs rest
    else nodes layout tabs rest

/-- What stands in the block of a directive, behind `text`. In compact style declarations share a
line and all else gets a line of its own; in compressed style only what follows a declaration is
divided from it. -/
def items (layout : Layout) (tabs : Nat) (isFirst afterProperty : Bool) (text : String) :
    List Css → String
  | [] => text
  | c :: rest =>
    if !layout.isVisible c then items layout tabs isFirst afterProperty text rest
    else
      let text := match layout.style with
        | .compact =>
          if c.isProperty then
            text ++ node layout (if isFirst || afterProperty then 0 else tabs + 1) c ++ " "
          else
            let text := if afterProperty then dropLast text ++ "\n" else text
            let own := node layout (tabs + 1) c
            text ++ Text.trimEnd (if isFirst then Text.trimStart own else own) ++ "\n"
        | .compressed => text ++ (if afterProperty then ";" else "") ++ node layout 0 c
        | .nested | .expanded => text ++ node layout (tabs + 1) c ++ "\n"
      items layout tabs false c.isProperty text rest

end

/-- The character set that the stylesheet declares. -/
def charset? (children : List Css) : Option String :=
  children.findSome? fun c =>
    match c.kind with
    | .charset name => some name
    | _ => none

end Layout

/-- The text of a stylesheet. A text with characters beyond ASCII names its character set. -/
def Css.toText (root : Css) (layout : Layout) : String :=
  let texts := Layout.nodes layout 0 root.children
  let divider := if layout.style.isCompressed then "" else "\n"
  let text := Text.trimEnd (String.join (texts.map (· ++ divider)))
  if text.isEmpty then ""
  else if text.toList.all (·.toNat < 0x80) then text ++ "\n"
  else
    let charset := (Layout.charset? root.children).getD "UTF-8"
    "@charset \"" ++ charset ++ "\";" ++ divider ++ text ++ "\n"

end Stylesheet
