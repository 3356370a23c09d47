import Stylesheet.Selector.Basic
import Stylesheet.Style

/-!
The text of selectors. The compressed style leaves out the spaces around combinators and behind
commas.
-/

namespace Stylesheet

def qualified (namespaceName : Option String) (name : String) : String :=
  match namespaceName with
  | some ns => ns ++ "|" ++ name
  | none => name

def testText : Option String → Option String → String
  | some operator, some value => operator ++ value
  | _, _ => ""

def attributeText (name : String) (namespaceName operator value : Option String) : String :=
  "[" ++ qualified namespaceName name ++ testText operator value ++ "]"

def pseudoText (kind : PseudoKind) (name : String) (argument : Option String) : String :=
  let colons := match kind with
    | .ofClass => ":"
    | .ofElement => "::"
  match argument with
  | some argument => colons ++ name ++ "(" ++ argument ++ ")"
  | none => colons ++ name

/-- What the component before the next one is; nothing at the start of a chain. -/
inductive Chain.Before where
  | start
  | compound
  | combinator
deriving DecidableEq

/-- The space in front of a compound. -/
def spaceBeforeCompound (style : Style) : Chain.Before → String
  | .start => ""
  | .compound => " "
  | .combinator => if style.isCompressed then "" else " "

/-- The space in front of a combinator. -/
def spaceBeforeCombinator (style : Style) (before : Chain.Before) : String :=
  if before != .start && !style.isCompressed then " " else ""

mutual

def Simple.toCss (style : Style) : Simple → String
  | .className name => "." ++ name
  | .id name => "#" ++ name
  | .element name ns => qualified ns name
  | .universal ns => qualified ns "*"
  | .parent => "&"
  | .attribute name ns operator value => attributeText name ns operator value
  | .pseudo kind name argument => pseudoText kind name argument
  | .selectorPseudo name argument =>
    ":" ++ name ++ "(" ++ style.comma.intercalate (Selector.chainTexts style argument) ++ ")"

def Simple.listToCss (style : Style) : List Simple → String
  | [] => ""
  | s :: rest => s.toCss style ++ Simple.listToCss style rest

def Compound.toCss (style : Style) : Compound → String
  | .mk none rest => Simple.listToCss style rest
  | .mk (some base) rest => base.toCss style ++ Simple.listToCss style rest

/-- The text of the components that follow `before`. -/
def Chain.toCssFrom (style : Style) (before : Chain.Before) : List Component → String
  | [] => ""
  | .compound c :: rest =>
    spaceBeforeCompound style before ++ c.toCss style ++ Chain.toCssFrom style .compound rest
  | .combinator c :: rest =>
    spaceBeforeCombinator style before ++ c.toText ++ Chain.toCssFrom style .combinator rest

def Selector.chainTexts (style : Style) : List (List Component) → List String
  | [] => []
  | chain :: rest => Chain.toCssFrom style .start chain :: Selector.chainTexts style rest

end

def Chain.toCss (style : Style) (chain : Chain) : String :=
  Chain.toCssFrom style .start chain

def Selector.toCss (style : Style) (selector : Selector) : String :=
  style.comma.intercalate (Selector.chainTexts style selector)

end Stylesheet
