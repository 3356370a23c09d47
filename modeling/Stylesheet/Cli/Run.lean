import Stylesheet.Cli.Report
import Stylesheet.Compiler

/-!
What the command line does: compile a file, or write it in another dialect.
-/

namespace Stylesheet.Cli

open Workspace

/-- Write a file in another dialect. Its imports are looked for in the load paths first, and then
beside it. -/
def convert (options : Options) (input : String) (target : Dialect) :
    Working (Except CompileError String) := do
  match (← get).files.readText input with
  | .error error => return .error (.file error)
  | .ok source =>
    let dialect := Importer.dialectOf input options.dialect
    let compiler : Compiler :=
      ⟨{ options with dialect, filename := some input }, [Importer.besideFile input]⟩
    return (← compiler.compileTree source).map (·.toSource target)

/-- Compile a file, with a cache in a directory. -/
def compile (config : Config) (input : String) : Working (Except CompileError String) := do
  modify fun workspace => { workspace with stores := [.directory config.cacheLocation] }
  let compiler : Compiler := ⟨config.options, []⟩
  return (← compiler.compileFile input).map (·.css)

/-- Put the result in a file. -/
def save (path output : String) : Working (Except FileError Unit) := do
  let workspace ← get
  match workspace.files.write workspace.now path output.toUTF8 with
  | .ok files =>
    set { workspace with files }
    return .ok ()
  | .error error => return .error error

/-- Do what the command line asks for, and give the result. `user` is what the configuration file of
the user holds, if there is one. -/
def run (invocation : Invocation) (user : Option (Except FileError String)) :
    Working (Except Failure String) := do
  match Config.load (← get).files invocation.config user with
  | .error error => return .error (.config error)
  | .ok found =>
    let config := found.applying invocation
    let result ← match invocation.convertTo with
      | some target => convert config.options invocation.input target
      | none => compile config invocation.input
    match result, invocation.output with
    | .error error, _ => return .error (.compile error)
    | .ok output, none => return .ok output
    | .ok output, some path =>
      match ← save path output with
      | .ok () => return .ok output
      | .error error => return .error (.compile (.file error))

end Stylesheet.Cli
