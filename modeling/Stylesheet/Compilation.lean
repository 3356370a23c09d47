import Stylesheet.Css.Flatten
import Stylesheet.Css.Printer
import Stylesheet.Evaluation.Statement

/-!
A stylesheet through all stages: read, checked, evaluated, flattened and extended.
-/

namespace Stylesheet

/-- Why a compilation fails. -/
inductive CompileError where
  /-- A file cannot be used. -/
  | file (error : FileError)
  /-- The stylesheet is wrong; `source` is the text of the file that the first error names. -/
  | stylesheet (errors : List Diagnostic) (source : String)
deriving Repr, DecidableEq

namespace CompileError

def message : CompileError → String
  | file error => "I/O error: " ++ error.message
  | stylesheet errors _ => Diagnostic.summary errors

end CompileError

/-- A compiled stylesheet, as a flat tree. -/
structure Compiled where
  tree : Css
  warnings : List Diagnostic
  /-- All stylesheets that were imported, directly or not. -/
  dependencies : List SourceId

namespace Compilation

open Evaluation

/-- What an evaluation starts with. A stylesheet that an importer has is the first one on the
stack. -/
def start (options : Options) (source : String) (entry : Option SourceId) : State where
  env := .initial
  warnings := []
  importStack := entry.toList
  dependencies := []
  sources := match options.filename with
    | some filename => [(filename, source)]
    | none => []
  log := []
  file := entry
  filename := options.filename
  parent := .root

/-- An error with the text of the file that it names. -/
def withSource (state : State) (source : String) (error : Diagnostic) : CompileError :=
  let text := error.filename.bind fun filename => state.sources.find? filename
  .stylesheet [error] (text.getD source)

/-- Compile a text to a flat tree. What is logged comes in any case. -/
def run (context : Context) (source : String) (entry : Option SourceId) :
    Except CompileError Compiled × Log :=
  let options := context.options
  match Statement.parse source options.dialect options.filename with
  | .error error => (.error (.stylesheet [error] source), [])
  | .ok root =>
    match Nesting.check root with
    | .error errors => (.error (.stylesheet errors source), [])
    | .ok () =>
      match Evaluation.stylesheet root context (start options source entry) with
      | .error error state => (.error (withSource state source error), state.log)
      | .ok tree state =>
        match tree.flatten options.style with
        | .error error => (.error (withSource state source error), state.log)
        | .ok (flat, extensions) =>
          let (extended, unmatched) := extensions.apply flat
          let logged := if options.quiet then []
            else unmatched.map fun warning => LogEntry.warning warning.message
          (.ok ⟨extended, state.warnings ++ unmatched, state.dependencies⟩, state.log ++ logged)

end Compilation

end Stylesheet
