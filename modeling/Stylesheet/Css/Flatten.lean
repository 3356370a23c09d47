import Stylesheet.Css.Extensions
import Stylesheet.Selector.Parent

/-!
Flattening: rules in rules become siblings, with `&` resolved; media queries move out of rules and
join with those around them; nested declarations get the joined names; requests to extend are
taken out and recorded.
-/

namespace Stylesheet.Flatten

/-- What a node is flattened under. -/
inductive Context where
  | root
  /-- A rule, with its resolved selector. -/
  | rule (selector : Selector) (line : Nat) (filename : Option String) (tabs : Nat)
  | property (name : String) (tabs : Nat) (hasValue : Bool)
  | media
  | directive

namespace Context

def isRule : Context → Bool
  | rule .. => true
  | _ => false

/-- The selector of the enclosing rule. -/
def selector? : Context → Option Selector
  | rule selector .. => some selector
  | _ => none

end Context

/-- What is kept while a stylesheet is flattened. -/
structure State where
  extensions : Extensions
  /-- A character set has been declared; further declarations are dropped. -/
  charsetSeen : Bool

/-- Flattening may fail. -/
abbrev Flattening := StateT State (Except Diagnostic)

private def fault (fault : Fault) (line : Nat) (message : String) : Diagnostic :=
  (Diagnostic.error message).withFault fault |>.withLine line

/-- The selector of a rule in its context. -/
def resolve (selector : Selector) (context : Context) (line : Nat) : Except Diagnostic Selector :=
  match selector.resolveParent context.selector? with
  | .ok resolved => .ok resolved
  | .error error => .error (fault .invalidParentSelector line error.message)

/-- Set the flag of the last node. -/
def setGroupEnd (value : Bool) (nodes : List Css) : List Css :=
  match nodes.getLast? with
  | some last => nodes.dropLast ++ [{ last with groupEnd := value }]
  | none => []

/-- Put a rule together from what is flattened below it: what belongs to the rule itself stays in
it, and rules and media queries follow. A rule without anything of its own is left out. -/
def assembleRule (style : Style) (rule : Css) (isOutermost : Bool) (children : List Css) :
    List Css :=
  let moves := fun (c : Css) => c.isRule || c.isMedia
  let inner := children.filter moves
  let own := children.filter fun c => !moves c && !(style.isCompressed && c.isPlainComment)
  let found :=
    if own.isEmpty then inner
    else
      let deeper := fun (c : Css) => if style == .nested then { c with tabs := c.tabs + 1 } else c
      { rule with children := own } :: inner.map deeper
  if isOutermost then setGroupEnd true found else found

/-- Join an inner media query with the one around it. -/
def joinQuery (query : String) (c : Css) : Css :=
  match c.kind with
  | .media inner => { c with kind := .media (query ++ " and " ++ inner) }
  | _ => c

/-- Put a media query together from what is flattened below it: inner queries follow, joined with
the outer one. A query that has nothing of its own is left out. -/
def assembleMedia (media : Css) (query : String) (children : List Css) : List Css :=
  let inner := (children.filter Css.isMedia).map (joinQuery query)
  let own := children.filter fun c => !c.isMedia
  if own.isEmpty then inner else { media with children := own } :: inner

/-- Whether a value has a text. -/
def hasText (style : Style) (value : Option Value) : Bool :=
  match value with
  | none => false
  | some value =>
    match value.toCss style with
    | .ok text => !text.isEmpty
    | .error _ => false

/-- A declaration by its full name. -/
def joinName (style : Style) (context : Context) (c : Css) (name : String) (value : Option Value) :
    Css × String :=
  match context with
  | .property outer tabs hasValue =>
    let name := outer ++ "-" ++ name
    let tabs := if style == .nested then tabs + (if hasValue then 1 else 0) else c.tabs
    ({ c with kind := .property name value, tabs }, name)
  | _ => (c, name)

/-- Put a declaration in front of those below it, if it has a value. -/
def assembleProperty (c : Css) (name : String) (hasValue : Bool) (below : List Css) :
    Except Diagnostic (List Css) :=
  if hasValue then .ok ({ c with children := [] } :: below)
  else if below.isEmpty then
    .error (fault .invalidOperation c.line ("Invalid property: \"" ++ name ++ ": \" (no value)."))
  else .ok below

/-- The compound that a chain asks to extend. -/
def extendTarget (line : Nat) (chain : Chain) : Except Diagnostic Compound :=
  let refuse := fun reason =>
    .error (fault .invalidExtendTarget line
      ("Can't extend " ++ chain.toCss .nested ++ ": " ++ reason))
  match chain with
  | [.compound target] => .ok target
  | [_] => refuse "invalid selector"
  | _ => refuse "can't extend nested selectors"

/-- Record that each chain of the enclosing selector extends a target. -/
def recordExtenders (target : Compound) (line : Nat) (filename : Option String) :
    Extensions → List Chain → Except Diagnostic Extensions
  | extensions, [] => .ok extensions
  | extensions, extender :: rest =>
    match extender.lastCompound? with
    | none =>
      .error (fault .invalidExtendTarget line
        (extender.toCss .nested ++ " can't extend: invalid selector"))
    | some _ => recordExtenders target line filename (extensions.add target extender line filename) rest

/-- Record all extensions that one request asks for. -/
def recordRequest (parent : Selector) (line : Nat) (filename : Option String) :
    Extensions → List Chain → Except Diagnostic Extensions
  | extensions, [] => .ok extensions
  | extensions, chain :: rest => do
    let target ← extendTarget line chain
    recordRequest parent line filename
      (← recordExtenders target line filename extensions parent) rest

/-- Say where an error came from. -/
def located (line : Nat) (filename : Option String) (action : Flattening α) : Flattening α :=
  fun state =>
    match action state with
    | .ok result => .ok result
    | .error error => .error (error.locate ⟨filename, some line, none⟩)

mutual

/-- Flatten a node. -/
def node (style : Style) (context : Context) : Css → Flattening (List Css)
  | ⟨.rule selector, children, line, filename, tabs, groupEnd⟩ => do
    let resolved ← resolve selector context line
    let below ← nodes style (.rule resolved line filename tabs) children
    return assembleRule style ⟨.rule resolved, [], line, filename, tabs, groupEnd⟩
      (!context.isRule) below
  | ⟨.media query, children, line, filename, tabs, groupEnd⟩ => do
    let media := ⟨.media query, [], line, filename, tabs, groupEnd⟩
    match context with
    | .rule selector ruleLine ruleFilename ruleTabs =>
      let resolved ← resolve selector .media ruleLine
      let below ← nodes style (.rule resolved ruleLine ruleFilename ruleTabs) children
      let rule := ⟨.rule resolved, [], ruleLine, ruleFilename, ruleTabs, false⟩
      return assembleMedia media query (setGroupEnd false (assembleRule style rule true below))
    | _ => return assembleMedia media query (← nodes style .media children)
  | ⟨.property name value, children, line, filename, tabs, groupEnd⟩ => do
    let (declaration, name) := joinName style context
      ⟨.property name value, [], line, filename, tabs, groupEnd⟩ name value
    let hasValue := hasText style value
    let below ← nodes style (.property name declaration.tabs hasValue) children
    assembleProperty declaration name hasValue below
  | ⟨.extend selector, _, line, filename, _, _⟩ => do
    match context with
    | .rule parent _ _ _ =>
      let state ← get
      set { state with
        extensions := ← recordRequest parent line filename state.extensions selector }
      return []
    | _ => throw (fault .extendOutsideRule line "Extend directives may only be used within rules.")
  | ⟨.charset name, children, line, filename, tabs, groupEnd⟩ => do
    let state ← get
    if state.charsetSeen then return []
    else
      set { state with charsetSeen := true }
      return [⟨.charset name, children, line, filename, tabs, groupEnd⟩]
  | ⟨.directive name params hasBlock, children, line, filename, tabs, groupEnd⟩ => do
    let below ← nodes style .directive children
    return [⟨.directive name params hasBlock, below, line, filename, tabs, groupEnd⟩]
  | c => return [c]

/-- Flatten nodes in order. -/
def nodes (style : Style) (context : Context) : List Css → Flattening (List Css)
  | [] => return []
  | c :: rest => do
    let first ← located c.line c.filename (node style context c)
    return first ++ (← nodes style context rest)

end

end Stylesheet.Flatten

namespace Stylesheet

/-- Flatten a whole stylesheet for output in a style. -/
def Css.flatten (root : Css) (style : Style) : Except Diagnostic (Css × Extensions) := do
  let (children, state) ← (Flatten.nodes style .root root.children).run ⟨.empty, false⟩
  return (.node root.kind children root.line root.filename, state.extensions)

end Stylesheet
