import Stylesheet.Cache.Store
import Stylesheet.Compilation
import Stylesheet.Css.Source
import Stylesheet.Import.Staleness

/-!
Compilation of texts and files, with a cache in front.
-/

namespace Stylesheet

/-- What a compilation gives. -/
structure Output where
  css : String
  /-- The warnings of the compilation; none, if the result comes from the cache. -/
  warnings : List Diagnostic
  dependencies : List SourceId

/-- Options, and where to look for imports besides the load paths. -/
structure Compiler where
  options : Options
  importers : List Importer

namespace Compiler

open Workspace

/-- The load paths come first. -/
def allImporters (compiler : Compiler) : List Importer :=
  compiler.options.loadPaths.map .directory ++ compiler.importers

/-- What is compiled: a text with all that decides about it. -/
structure Job where
  source : String
  options : Options
  importers : List Importer
  /-- The stylesheet itself, if an importer has it. -/
  entry : Option SourceId
  key : CacheKey

/-- The result of an earlier compilation, if nothing it depends on has changed. -/
def cached? (job : Job) (hash : String) : Working (Option Output) := do
  match ← retrieve job.key hash with
  | none => return none
  | some bytes =>
    match Artifact.ofBytes? bytes with
    | none =>
      logEntries [LogEntry.warning "unreadable cache entry"]
      return none
    | some artifact =>
      let files := (← get).files
      let (stale, known) :=
        (Staleness.anyChangedSince files job.importers artifact.compiledAt artifact.dependencies).run
          .initial
      logEntries known.log
      return if stale then none else some ⟨artifact.css, [], artifact.dependencies⟩

/-- Compile without looking into the cache. -/
def compileAnew (job : Job) : Working (Except CompileError Output) := do
  let (result, log) := Compilation.run ⟨job.options, (← get).files, job.importers⟩ job.source job.entry
  logEntries log
  match result with
  | .error error => return .error error
  | .ok compiled =>
    let css := compiled.tree.toText ⟨job.options.style, job.options.lineComments⟩
    return .ok ⟨css, compiled.warnings, compiled.dependencies⟩

/-- Remember a result. -/
def remember (job : Job) (hash : String) (output : Output) : Working Unit := do
  let artifact : Artifact := ⟨output.css, (← get).now, output.dependencies⟩
  match ← store job.key hash artifact.toBytes with
  | .ok () => return ()
  | .error _ => logEntries [LogEntry.warning "could not cache stylesheet"]

/-- Take the result from the cache, or else compile and remember the result. -/
def run (job : Job) : Working (Except CompileError Output) := do
  if job.options.cache then
    let hash := contentHash job.source job.options
    match ← cached? job hash with
    | some output => return .ok output
    | none =>
      match ← compileAnew job with
      | .error error => return .error error
      | .ok output =>
        remember job hash output
        return .ok output
  else compileAnew job

/-- Compile a text. -/
def compile (compiler : Compiler) (source : String) : Working (Except CompileError Output) :=
  run {
    source
    options := compiler.options
    importers := compiler.allImporters
    entry := none
    key := ("string", compiler.options.filename.getD "stdin") }

/-- Compile a file. Its name may tell the dialect, and its imports are looked for beside it
first. -/
def compileFile (compiler : Compiler) (path : String) : Working (Except CompileError Output) := do
  match (← get).files.readText path with
  | .error error => return .error (.file error)
  | .ok source =>
    let dialect := Importer.dialectOf path compiler.options.dialect
    let beside := Importer.besideFile path
    run {
      source
      options := { compiler.options with dialect, filename := some path }
      importers := beside :: compiler.allImporters
      entry := some ⟨0, path⟩
      key := beside.cacheKey path }

/-- Compile a text to a flat tree, without the cache. -/
def compileTree (compiler : Compiler) (source : String) : Working (Except CompileError Css) := do
  let context := ⟨compiler.options, (← get).files, compiler.allImporters⟩
  let (result, log) := Compilation.run context source none
  logEntries log
  return result.map (·.tree)

end Compiler

end Stylesheet
