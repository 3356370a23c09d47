import Stylesheet.Cli.Config
import Stylesheet.Compilation

/-!
What is reported when the command line fails.
-/

namespace Stylesheet.Cli

/-- Why a run fails. -/
inductive Failure where
  | config (error : ConfigError)
  | compile (error : CompileError)

/-- One error, ready to be shown. -/
structure Report where
  message : String
  code : Option String
  help : Option String
  /-- The places to point at. There are none if the source at hand is not the one they are in. -/
  labels : Option (List Label)
  /-- Where the error happened, one place on each line. -/
  backtrace : Option String

namespace Report

/-- The error of a file. -/
def ofFile (message : String) : Report where
  message := "I/O error: " ++ message
  code := some "sable::io"
  help := none
  labels := none
  backtrace := none

/-- Whether all labels lie in a source, and there are any. -/
def fits (labels : List Label) (source : String) : Bool :=
  !labels.isEmpty && labels.all fun label => label.span.stop ≤ source.utf8ByteSize

/-- An error in a stylesheet; `input` is the file in which what has no file name happened. -/
def ofDiagnostic (source input : String) (error : Diagnostic) : Report :=
  let backtrace := error.traceText input
  { message := error.message
    code := error.fault.map Fault.code
    help := error.help
    labels := if fits error.labels source then some error.labels else none
    backtrace := if backtrace.isEmpty then none else some backtrace }

end Report

/-- The reports of a failure. -/
def Failure.reports (failure : Failure) (input : String) : List Report :=
  match failure with
  | config error => [Report.ofFile error.message]
  | compile (.file error) => [Report.ofFile error.message]
  | compile (.stylesheet errors source) => errors.map (Report.ofDiagnostic source input)

end Stylesheet.Cli
