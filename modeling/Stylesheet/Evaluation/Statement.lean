import Stylesheet.Evaluation.Import
import Stylesheet.Evaluation.Loop
import Stylesheet.Selector.Parser

/-!
Evaluation of statements. Expressions become values, control directives are replaced by what they
lead to, mixins and imports by what they stand for, and definitions are recorded.
-/

namespace Stylesheet.Evaluation

/-- Where a statement stands. -/
structure Place where
  line : Nat
  span : Span
  filename : Option String
deriving Repr, DecidableEq

namespace Place

/-- A node that comes from a statement. -/
def node (place : Place) (kind : CssKind) (children : List Css) : Css :=
  .node kind children place.line place.filename

end Place

/-- The text of a value in a message: a string without quotes. -/
def messageText : Value → String
  | .text content _ => content
  | other => other.inspect

/-- What a block gives inside of a new node. -/
def nested (parent : Enclosure) (scope : ScopeId) (body : ScopeId → Evaluating Outcome) :
    Evaluating (List Css) := do
  let outcome ← inside parent (inScope scope body)
  return outcome.css

/-- The selector that a template gives. -/
def selectorOf (run : Runner) (scope : ScopeId) (place : Place) (selector : Template) :
    Evaluating Selector := do
  let text ← template run scope selector
  match Selector.parse (Text.trim text) place.line with
  | .ok selector => return selector
  | .error error => throw (error.withLabel place.span "invalid selector")

def trimmedText (run : Runner) (scope : ScopeId) (parts : Template) : Evaluating String := do
  return Text.trim (← template run scope parts)

def property (run : Runner) (scope : ScopeId) (place : Place) (name : Template)
    (value : Option Expr) (body : ScopeId → Evaluating Outcome) : Evaluating Outcome := do
  let name ← trimmedText run scope name
  let value ← match value with
    | none => pure none
    | some e => do
      let value ← expr run scope e
      let _ ← cssText e value
      pure (some value)
  let children ← nested .property scope body
  return .ofCss (place.node (.property name value) children)

/-- Include a mixin. An active mixin is not included again. -/
def includeMixin (run : Runner) (scope : ScopeId) (place : Place) (name : String)
    (args : Arguments) : Evaluating Outcome := do
  let env := (← get).env
  match env.includeLoop? name with
  | some cycle =>
    let words := match cycle with
      | [_, _] => " " ++ name ++ " includes itself"
      | _ => loopText "includes" cycle
    throw (Diagnostic.error ("An @include loop has been found:" ++ words)
      |>.withFault .includeLoop
      |>.withLabel place.span "included again here")
  | none =>
    match env.mixin? scope name with
    | none =>
      throw (Diagnostic.error ("Undefined mixin '" ++ name ++ "'.")
        |>.withFault .undefinedMixin
        |>.withLabel place.span "not defined"
        |>.withLine place.line)
    | some mixin =>
      checkDepth place.line place.span
      let amend := fun (error : Diagnostic) =>
        (error.locate ⟨none, some place.line, some name⟩).addFrame
          ⟨place.filename, some place.line, none⟩
      amending amend <| duringCall ⟨.mixin, name, place.line, place.filename⟩ do
        let (positional, keywords) ← arguments run scope args
        let outcome ← withArguments run mixin positional keywords place.line place.span
          (run.body mixin.body)
        return ⟨outcome.css, none⟩

/-- The trace of a warning through the active calls, innermost first. -/
private def traceCalls (warning : Diagnostic) (calls : List Call) : Diagnostic :=
  calls.foldl
    (fun warning call =>
      (warning.locate ⟨none, some call.line, some call.name⟩).addFrame
        ⟨call.filename, some call.line, none⟩)
    warning

def warnAbout (place : Place) (value : Value) : Evaluating Unit := do
  let warning := Diagnostic.warning (messageText value)
    |>.withLine place.line
    |>.withFilename place.filename
  warn (traceCalls warning (← get).env.calls)

def debugValue (place : Place) (value : Value) : Evaluating Unit := do
  if !(← options).quiet then
    logEntries [⟨.info, "Line " ++ toString place.line ++ " DEBUG: " ++ messageText value⟩]

def assign (run : Runner) (scope : ScopeId) (name : String) (value : Expr)
    (guarded : Bool) : Evaluating Unit := do
  if guarded && ((← get).env.valueOf? scope name).isSome then return ()
  else
    let value ← expr run scope value
    modifyEnv (·.assign scope name value)

def define (kind : CallableKind) (name : String) (params : List Param) (scope : ScopeId)
    (body : List Statement) : Evaluating Unit :=
  modifyEnv (·.define scope ⟨kind, name, params, scope, body⟩)

/-- Whether a branch is taken; one without a condition always is. -/
def isTaken (run : Runner) (scope : ScopeId) (condition : Option Expr) : Evaluating Bool := do
  match condition with
  | none => return true
  | some e => return (← expr run scope e).isTruthy

/-- Evaluate a statement other than a conditional. `children` are the statements in its block and
`body` evaluates them in a scope. -/
def simpleStatement (run : Runner) (scope : ScopeId) (place : Place) (children : List Statement)
    (body : ScopeId → Evaluating Outcome) (kind : StatementKind) : Evaluating Outcome := do
  match kind with
  | .root => body scope
  | .rule selector =>
    let selector ← selectorOf run scope place selector
    return .ofCss (place.node (.rule selector) (← nested .rule scope body))
  | .property name value => property run scope place name value body
  | .comment text silent =>
    if silent then return .nothing
    else
      let text ← template run scope text
      return .ofCss (place.node (.comment text (text.startsWith "/*!")) [])
  | .directive name params hasBlock =>
    let params ← trimmedText run scope params
    return .ofCss
      (place.node (.directive name params hasBlock) (← nested .directive scope body))
  | .media query =>
    let query ← trimmedText run scope query
    return .ofCss (place.node (.media query) (← nested .media scope body))
  | .charset name => return .ofCss (place.node (.charset name) [])
  | .importing (.stylesheet uri) =>
    importStylesheet run scope place.line place.span place.filename uri
  | .importing (.css text) =>
    return .ofCss (place.node (.importing (← trimmedText run scope text)) [])
  | .assign name value guarded =>
    assign run scope name value guarded
    return .nothing
  | .defineMixin name params =>
    define .mixin name params scope children
    return .nothing
  | .defineFunction name params =>
    define .function name params scope children
    return .nothing
  | .includeMixin name args => includeMixin run scope place name args
  | .returning value => return ⟨[], some (← expr run scope value)⟩
  | .extend selector =>
    return .ofCss (place.node (.extend (← selectorOf run scope place selector)) [])
  | .branch _ _ => return .nothing
  | .loopWhile condition => loopWhile run scope place.line place.span condition body
  | .loopCount counter start stop inclusive =>
    loopCount run scope place.line place.span counter start stop inclusive body
  | .loopEach item list => loopEach run scope place.line place.span item list body
  | .debug value =>
    debugValue place (← expr run scope value)
    return .nothing
  | .warn value =>
    warnAbout place (← expr run scope value)
    return .nothing

mutual

/-- Evaluate a statement in a scope. -/
def statement (run : Runner) (scope : ScopeId) : Statement → Evaluating Outcome
  | .mk (.branch condition otherwise) children line _ filename =>
    forStatement line filename do
      if ← isTaken run scope condition then
        inScope scope fun inner => statements run inner children
      else otherBranch run scope otherwise
  | .mk kind children line span filename =>
    forStatement line filename <|
      simpleStatement run scope ⟨line, span, filename⟩ children
        (fun inner => statements run inner children) kind

/-- Evaluate the other branch of a conditional, if there is one. -/
def otherBranch (run : Runner) (scope : ScopeId) : Option Statement → Evaluating Outcome
  | none => return .nothing
  | some branch => statement run scope branch

/-- Evaluate statements in a scope, up to the first `@return` that is reached. -/
def statements (run : Runner) (scope : ScopeId) : List Statement → Evaluating Outcome
  | [] => return .nothing
  | s :: rest => do
    let first ← statement run scope s
    match first.returned with
    | some value => return ⟨first.css, some value⟩
    | none =>
      let others ← statements run scope rest
      return ⟨first.css ++ others.css, others.returned⟩

end

def exhausted : Diagnostic :=
  (Diagnostic.error "Too many nested calls and imports.").withFault .limitExceeded

/-- Evaluation that may go through `depth` calls and imports at a time. -/
def runner : (depth : Nat) → Runner
  | 0 => ⟨fun _ _ => throw exhausted, fun _ _ => throw exhausted⟩
  | depth + 1 =>
    ⟨fun e scope => expr (runner depth) scope e,
      fun body scope => statements (runner depth) scope body⟩

/-- How many calls and imports can be active at a time. -/
def depthBound (context : Context) : Nat :=
  context.options.maxCallDepth + Importers.chainBound context.importers + 1

/-- Evaluate a whole stylesheet. -/
def stylesheet (root : Statement) : Evaluating Css := do
  let run := runner (depthBound (← read))
  let outcome ← statements run Environment.global root.children
  return .node .root outcome.css root.line root.filename

end Stylesheet.Evaluation
