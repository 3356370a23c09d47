import Stylesheet.Css.Basic
import Stylesheet.Import.Importer
import Stylesheet.Nesting
import Stylesheet.Options
import Stylesheet.Scope.Environment

/-!
What an evaluation reads, keeps and may fail with. What is kept survives a failure, because what
was logged before it still counts.
-/

namespace Stylesheet.Evaluation

/-- What stays the same during an evaluation. -/
structure Context where
  options : Options
  files : FileTree
  importers : List Importer

/-- What an evaluation keeps. -/
structure State where
  env : Environment
  /-- The warnings so far. -/
  warnings : List Diagnostic
  /-- The stylesheets being imported, outermost first. -/
  importStack : List SourceId
  /-- All stylesheets imported so far. -/
  dependencies : List SourceId
  /-- The texts of the stylesheets read so far, by file name. -/
  sources : Bindings String String
  log : Log
  /-- The stylesheet being evaluated, if an importer found it. -/
  file : Option SourceId
  /-- The file of the statement being evaluated. -/
  filename : Option String
  /-- The nearest statement around that counts for nesting. -/
  parent : Enclosure

/-- An evaluation that reads a context, changes a state and may fail. -/
abbrev Evaluating := ReaderT Context (EStateM Diagnostic State)

/-- What statements give: nodes of the tree, and the value of an `@return` that was reached. -/
structure Outcome where
  css : List Css
  returned : Option Value

namespace Outcome

def nothing : Outcome := ⟨[], none⟩

def ofCss (css : Css) : Outcome := ⟨[css], none⟩

end Outcome

/-- How bodies of mixins and functions, defaults of parameters and imported stylesheets are
evaluated: what lies outside of the statement at hand. -/
structure Runner where
  expr : Expr → ScopeId → Evaluating Value
  body : List Statement → ScopeId → Evaluating Outcome

/-- Do something and then change the state, also when it fails. -/
def ensuring (restore : State → State) (action : Evaluating α) : Evaluating α := fun context state =>
  match action context state with
  | .ok a state => .ok a (restore state)
  | .error error state => .error error (restore state)

/-- Do something and complete its error. -/
def amending (amend : Diagnostic → Diagnostic) (action : Evaluating α) : Evaluating α :=
  fun context state =>
    match action context state with
    | .ok a state => .ok a state
    | .error error state => .error (amend error) state

/-- Take the result of something that does not look at the state. -/
def lift (result : Except Diagnostic α) : Evaluating α :=
  match result with
  | .ok a => pure a
  | .error error => throw error

def options : Evaluating Options := do
  return (← read).options

def modifyEnv (f : Environment → Environment) : Evaluating Unit :=
  modify fun state => { state with env := f state.env }

/-- Open a scope. -/
def pushScope (parent : ScopeId) : Evaluating ScopeId :=
  modifyGet fun state =>
    let (env, id) := state.env.push parent
    (id, { state with env })

/-- Close a scope. -/
def popScope (id : ScopeId) (state : State) : State :=
  { state with env := state.env.pop id }

/-- Do something in a scope of its own. -/
def inScope (parent : ScopeId) (action : ScopeId → Evaluating α) : Evaluating α := do
  let scope ← pushScope parent
  ensuring (popScope scope) (action scope)

/-- Do something during a call. -/
def duringCall (call : Call) (action : Evaluating α) : Evaluating α := do
  modifyEnv (·.enterCall call)
  ensuring (fun state => { state with env := state.env.leaveCall }) action

/-- Do something inside of a statement that counts for nesting. -/
def inside (parent : Enclosure) (action : Evaluating α) : Evaluating α := do
  let saved := (← get).parent
  modify fun state => { state with parent }
  ensuring (fun state => { state with parent := saved }) action

/-- Do something for a statement of a file. Errors get its place, as far as they have none. -/
def forStatement (line : Nat) (filename : Option String) (action : Evaluating α) : Evaluating α := do
  let saved := (← get).filename
  modify fun state => { state with filename }
  amending (·.locate ⟨filename, some line, none⟩)
    (ensuring (fun state => { state with filename := saved }) action)

/-- Do something in another stylesheet. -/
def inFile (file : SourceId) (action : Evaluating α) : Evaluating α := do
  let saved := (← get).file
  modify fun state => { state with file := some file }
  ensuring (fun state => { state with file := saved }) action

def logEntries (entries : Log) : Evaluating Unit :=
  modify fun state => { state with log := state.log ++ entries }

/-- Record a warning, and log it unless logging is off. -/
def warn (warning : Diagnostic) : Evaluating Unit := do
  if !(← options).quiet then logEntries [LogEntry.warning warning.message]
  modify fun state => { state with warnings := state.warnings ++ [warning] }

/-- The error of an operation on values, in an expression. -/
def valueError (error : ValueError) (line : Nat) (span : Span) : Diagnostic :=
  Diagnostic.error error.message
    |>.withFault (if error.isUnitConversion then .incompatibleUnits else .invalidOperation)
    |>.withLabel span "in this expression"
    |>.withLine line

/-- The error of a call. -/
def callError (message : String) (line : Nat) (span : Span) : Diagnostic :=
  Diagnostic.error message
    |>.withFault .invalidArguments
    |>.withLabel span "in this call"
    |>.withLine line

/-- The result of an operation on values, in an expression. -/
def ofValue (line : Nat) (span : Span) (result : Except ValueError α) : Evaluating α :=
  match result with
  | .ok a => pure a
  | .error error => throw (valueError error line span)

end Stylesheet.Evaluation
