import Stylesheet.Diagnostic.Basic
import Stylesheet.Statement.Basic

/-!
Which statements may stand in which. What counts is the nearest enclosing statement that is not a
control directive, an inclusion or an import. All violations are reported.
-/

namespace Stylesheet

/-- What a statement stands in. -/
inductive Enclosure where
  | root
  | rule
  | property
  | directive
  | media
  | mixin
  | function
  | control
  | inclusion
  | importing
  | other
deriving Repr, DecidableEq

namespace Enclosure

def ofKind : StatementKind → Enclosure
  | .root => root
  | .rule _ => rule
  | .property _ _ => property
  | .directive _ _ _ => directive
  | .media _ => media
  | .defineMixin _ _ => mixin
  | .defineFunction _ _ => function
  | .branch _ _ | .loopWhile _ | .loopCount _ _ _ _ | .loopEach _ _ => control
  | .includeMixin _ _ => inclusion
  | .importing _ => importing
  | _ => other

/-- Statements in it count as statements of what is around it. -/
def isTransparent : Enclosure → Bool
  | control | inclusion | importing => true
  | _ => false

end Enclosure

namespace Nesting

/-- What may stand in a function. -/
def isFunctionStatement : StatementKind → Bool
  | .comment _ _ | .debug _ | .loopEach _ _ | .loopCount _ _ _ _ | .branch _ _ | .returning _
  | .assign _ _ _ | .warn _ | .loopWhile _ => true
  | _ => false

/-- What may stand in a property. -/
def isPropertyStatement : StatementKind → Bool
  | .property _ _ | .comment _ _ => true
  | _ => false

/-- Why a statement may not stand where it does: `parent` is the statement around it that counts,
and `direct` is the one right around it. -/
def violation? (parent direct : Enclosure) (kind : StatementKind) : Option (Fault × String) :=
  if parent == .function && !isFunctionStatement kind then
    some (.invalidFunctionBody,
      "Functions can only contain variable declarations and control directives.")
  else if parent == .property && !isPropertyStatement kind then
    some (.invalidPropertyBody,
      "Illegal nesting: Only properties may be nested beneath properties.")
  else match kind with
    | .charset _ =>
      if parent == .root then none
      else some (.misplacedCharset, "@charset may only be used at the root of a document.")
    | .extend _ =>
      if parent == .rule || parent == .mixin then none
      else some (.extendOutsideRule, "Extend directives may only be used within rules.")
    | .defineFunction _ _ =>
      if parent == .root then none
      else some (.misplacedDefinition, "Functions may only be defined at the root of a document.")
    | .defineMixin _ _ =>
      if parent == .root then none
      else some (.misplacedDefinition, "Mixins may only be defined at the root of a document.")
    | .importing target =>
      if direct == .control || direct == .mixin || direct == .inclusion then
        some (.misplacedImport,
          "Import directives may not be used within control directives or mixins.")
      else match target with
        | .css _ =>
          if parent == .root then none
          else some (.misplacedImport,
            "CSS import directives may only be used at the root of a document.")
        | .stylesheet _ => none
    | .property _ _ =>
      if [Enclosure.rule, .property, .mixin, .directive, .media].contains parent then none
      else some (.propertyOutsideRule,
        "Properties are only allowed within rules, directives, or other properties.")
    | .returning _ =>
      if parent == .function then none
      else some (.returnOutsideFunction, "@return may only be used within a function.")
    | _ => none

/-- The error for a statement that may not stand where it does. -/
def report (s : Statement) (fault : Fault) (message : String) : Diagnostic :=
  Diagnostic.error message
    |>.withFault fault
    |>.withLabel s.span (s.kind.describe ++ " not allowed here")
    |>.withLine s.line
    |>.withFilename s.filename

mutual

/-- The violations below a statement that stands in `parent`. -/
def below (parent : Enclosure) : Statement → List Diagnostic
  | .mk kind children _ _ _ =>
    let own := Enclosure.ofKind kind
    let effective := if own.isTransparent then parent else own
    violations effective own children ++ otherwise parent kind

/-- The violations in the other branch of a conditional. -/
def otherwise (parent : Enclosure) : StatementKind → List Diagnostic
  | .branch _ (some branch) => below parent branch
  | _ => []

/-- The violations among some statements and below them. -/
def violations (parent direct : Enclosure) : List Statement → List Diagnostic
  | [] => []
  | s :: rest =>
    let own := match violation? parent direct s.kind with
      | some (fault, message) => [report s fault message]
      | none => []
    own ++ below parent s ++ violations parent direct rest

end

/-- Check a whole stylesheet. -/
def check (root : Statement) : Except (List Diagnostic) Unit :=
  match violations .root .root root.children with
  | [] => .ok ()
  | found => .error found

/-- Check the top statements of a stylesheet that is imported inside of `parent`. -/
def checkImported (parent : Enclosure) (statements : List Statement) :
    Except (List Diagnostic) Unit :=
  match violations parent .importing statements with
  | [] => .ok ()
  | found => .error found

end Nesting

end Stylesheet
