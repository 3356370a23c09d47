import Stylesheet.Css.Basic
import Stylesheet.Diagnostic.Basic
import Stylesheet.Selector.Extend
import Stylesheet.Selector.Printer

/-!
The extensions that a stylesheet asks for, and their application to all its rules.
-/

namespace Stylesheet

/-- One request to extend, as it is reported when it matches nothing. -/
structure ExtendRequest where
  /-- The position of the extension in the map. -/
  index : Nat
  extender : String
  target : String
  line : Nat
  filename : Option String
deriving Repr, DecidableEq

/-- All requests of a stylesheet, in order. -/
structure Extensions where
  map : ExtendMap
  requests : List ExtendRequest

namespace Extensions

def empty : Extensions := ⟨.empty, []⟩

/-- Ask that the extender is matched by all that matches the target. -/
def add (extensions : Extensions) (target : Compound) (extender : Chain) (line : Nat)
    (filename : Option String) : Extensions :=
  match extensions.map.insert target.members extender with
  | (_, none) => extensions
  | (map, some index) =>
    let request := ⟨index, extender.toCss .nested, target.toCss .nested, line, filename⟩
    ⟨map, extensions.requests ++ [request]⟩

end Extensions

namespace Css

mutual

/-- Extend the selectors of a node and of all below it. -/
def extendSelectors (map : ExtendMap) : Css → Css
  | ⟨.rule selector, children, line, filename, tabs, groupEnd⟩ =>
    ⟨.rule (selector.extend map), extendAll map children, line, filename, tabs, groupEnd⟩
  | ⟨kind, children, line, filename, tabs, groupEnd⟩ =>
    ⟨kind, extendAll map children, line, filename, tabs, groupEnd⟩

def extendAll (map : ExtendMap) : List Css → List Css
  | [] => []
  | c :: rest => extendSelectors map c :: extendAll map rest

end

mutual

/-- The selectors of a node and of all below it. -/
def selectors : Css → List Selector
  | ⟨.rule selector, children, _, _, _, _⟩ => selector :: selectorsOfAll children
  | ⟨_, children, _, _, _, _⟩ => selectorsOfAll children

def selectorsOfAll : List Css → List Selector
  | [] => []
  | c :: rest => selectors c ++ selectorsOfAll rest

end

end Css

namespace Extensions

private def notFound (request : ExtendRequest) : Diagnostic :=
  Diagnostic.warning ("\"" ++ request.extender ++ "\" failed to @extend \"" ++ request.target ++
      "\". The selector \"" ++ request.target ++ "\" was not found.")
    |>.withFault .extendTargetNotFound
    |>.withLine request.line
    |>.withFilename request.filename

/-- The tree with all extensions made, and a warning for each request that matched nothing. -/
def apply (extensions : Extensions) (root : Css) : Css × List Diagnostic :=
  if extensions.map.isEmpty then (root, [])
  else
    let matched := root.selectors.flatMap (Selector.matched extensions.map)
    (root.extendSelectors extensions.map,
      (extensions.requests.filter fun request => !matched.contains request.index).map notFound)

end Extensions

end Stylesheet
