import Stylesheet.Evaluation.Basic
import Stylesheet.Statement.Parser

/-!
Imports: the statements of another stylesheet, evaluated in place.
-/

namespace Stylesheet.Evaluation

private def pairTexts (verb : String) : List String → String
  | first :: second :: rest =>
    "\n    " ++ first ++ " " ++ verb ++ " " ++ second ++ pairTexts verb (second :: rest)
  | _ => ""

/-- A loop in words: `cycle` starts and ends with the same name. -/
def loopText (verb : String) (cycle : List String) : String :=
  match cycle with
  | [first, _] => " " ++ first ++ " " ++ verb ++ " itself"
  | _ => pairTexts verb cycle

/-- Enter a stylesheet, unless it is being imported already. -/
def enterImport (id : SourceId) (line : Nat) (span : Span) : Evaluating Unit := do
  let state ← get
  match state.importStack.dropWhile (· != id) with
  | [] =>
    let dependencies :=
      if state.dependencies.contains id then state.dependencies else state.dependencies ++ [id]
    set { state with importStack := state.importStack ++ [id], dependencies }
  | cycle =>
    throw (Diagnostic.error
        ("An @import loop has been found:" ++ loopText "imports" ((cycle ++ [id]).map (·.uri)))
      |>.withFault .importLoop
      |>.withLabel span "imported again here"
      |>.withLine line)

/-- The first of some errors. -/
def firstError (result : Except (List Diagnostic) α) : Evaluating α :=
  match result with
  | .ok a => pure a
  | .error errors => throw (errors.headD (Diagnostic.error "Invalid stylesheet."))

/-- Evaluate a stylesheet that was found. -/
def importSource (run : Runner) (scope : ScopeId) (id : SourceId) (source : ImportedSource) :
    Evaluating Outcome := do
  modify fun state =>
    { state with sources := state.sources.insert source.canonical source.contents }
  let root ← lift (Statement.parse source.contents source.dialect (some source.canonical))
  firstError (Nesting.checkImported (← get).parent root.children)
  let outcome ← inFile id (run.body root.children scope)
  return ⟨outcome.css, none⟩

/-- Import the stylesheet that a name means. -/
def importStylesheet (run : Runner) (scope : ScopeId) (line : Nat) (span : Span)
    (filename : Option String) (uri : String) : Evaluating Outcome := do
  let context ← read
  let missing := fun (fault : Fault) =>
    Diagnostic.error ("File to import not found or unreadable: " ++ uri ++ ".")
      |>.withLabel span "imported here"
      |>.withLine line
      |>.withFault fault
  let (found, log) := Importers.resolve context.files context.importers uri (← get).file
  logEntries log
  match found with
  | .error error => throw ((missing .unreadableImport).withHelp error.message)
  | .ok none => throw (missing .importNotFound)
  | .ok (some (id, source)) =>
    enterImport id line span
    amending (·.addFrame ⟨filename, some line, none⟩)
      (ensuring (fun state => { state with importStack := state.importStack.dropLast })
        (importSource run scope id source))

end Stylesheet.Evaluation
