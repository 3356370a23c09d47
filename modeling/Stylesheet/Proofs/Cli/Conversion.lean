import Stylesheet.Cli.Run
import Stylesheet.Proofs.Compiler.Caching
import Stylesheet.Proofs.Evaluation.Relocation

/-! The command line converts the stylesheet that it would compile, as long as imports lead to the
same stylesheets. -/

namespace Stylesheet

namespace Importers

theorem chainBound_append (first second : List Importer) :
    chainBound (first ++ second) = chainBound first + chainBound second := by
  induction first with
  | nil => rw [List.nil_append, chainBound, Nat.zero_add]
  | cons importer rest ih => rw [List.cons_append, chainBound, chainBound, ih, Nat.add_assoc]

end Importers

namespace Compilation

open Evaluation Statement

/-- The tree of a compilation. -/
theorem tree_finished (style : Style) (source : String)
    (result : EStateM.Result Diagnostic State Css) :
    (finished style source result).toOption.map (·.tree) =
      match result with
      | .ok tree _ => tree.finish style
      | .error _ _ => none := by
  cases result with
  | error error state => rfl
  | ok tree state =>
    simp only [finished, Css.finish]
    cases tree.flatten style with
    | error error => rfl
    | ok found => rfl

/-- Evaluations start from the same state, up to what is at hand. -/
theorem twin_start {one other : Context} (r : Relocation one other)
    {entry entry' : Option SourceId} (isMatched : r.matched entry entry') (options : Options)
    (source : String) :
    (start options source entry).Twin r ⟨[(entry, entry')], (entry, entry')⟩
      (start options source entry') where
  env := rfl
  known := Environment.allKnown_initial
  parent := rfl
  files := rfl
  isMatched := isMatched
  first := by cases entry <;> rfl
  second := by cases entry' <;> rfl
  areMatched := by
    intro pair member
    rw [List.mem_singleton.mp member]
    exact isMatched

/-- Where the same stylesheets are found, the same tree is made of a text, up to the names of files,
or none. -/
theorem run_relocated {one other : Context} (r : Relocation one other)
    (bound : depthBound one = depthBound other) {source : String} {entry entry' : Option SourceId}
    (start : r.matched entry entry')
    (asks : ∀ root, Statement.parse source one.options.dialect none = .ok root →
      AllAsk r.asked entry root.children) :
    (run one source entry).1.toOption.map (·.tree.unnamed) =
      (run other source entry').1.toOption.map (·.tree.unnamed) := by
  have fromTree : ∀ result : Except CompileError Compiled,
      result.toOption.map (·.tree.unnamed) = (result.toOption.map (·.tree)).map Css.unnamed := by
    intro result
    rw [Option.map_map]
    rfl
  rw [fromTree, fromTree, run_eq, run_eq, ← r.options]
  rcases parse_filenames source one.options.dialect with ⟨raw, parsed⟩ | ⟨error, failed⟩
  · rw [parsed]
    dsimp only
    split
    · rfl
    · rename_i accepted
      have asks : AllAsk r.asked entry (raw.withFilename one.options.filename).children := by
        have top := asks _ (parsed none)
        rw [children_withFilename, allAsk_withFilenames] at top
        rwa [children_withFilename, allAsk_withFilenames]
      rw [tree_finished, tree_finished]
      have ended := stylesheet_follows bound asks _ _ (twin_start r start one.options source)
      generalize Evaluation.stylesheet (raw.withFilename one.options.filename) one _ = result
        at ended ⊢
      generalize Evaluation.stylesheet (raw.withFilename one.options.filename) other _ = result'
        at ended ⊢
      cases ended with
      | ok same twin => exact Css.map_unnamed_finish same _
      | error => rfl
  · rw [failed]

end Compilation

namespace Cli

open Evaluation Statement Workspace

variable (options : Options) (files : FileTree) (input : String)

/-- The options for a file. -/
def fileOptions : Options :=
  { options with dialect := Importer.dialectOf input options.dialect, filename := some input }

/-- What a file is compiled in: its directory comes before the load paths. -/
def compileContext : Context :=
  ⟨fileOptions options input, files,
    Importer.besideFile input :: options.loadPaths.map .directory⟩

/-- What a file is converted in: its directory comes behind the load paths. -/
def convertContext : Context :=
  ⟨fileOptions options input, files,
    options.loadPaths.map .directory ++ [Importer.besideFile input]⟩

theorem depthBound_eq :
    depthBound (compileContext options files input) =
      depthBound (convertContext options files input) := by
  simp only [depthBound, compileContext, convertContext, Importers.chainBound_append,
    Importers.chainBound]
  omega

/-- All imports of a file, in it and in imported files, find the same stylesheets when it is
compiled and when it is converted, one for one, and none of them finds the file itself. -/
def FindsSame : Prop :=
  ∃ r : Relocation (compileContext options files input) (convertContext options files input),
    r.matched (some ⟨0, input⟩) none ∧
    ∀ source root, files.readText input = .ok source →
      Statement.parse source (Importer.dialectOf input options.dialect) none = .ok root →
      AllAsk r.asked (some ⟨0, input⟩) root.children

/-- The result of compiling a text from a file. -/
def compiledFrom (source : String) : Except CompileError Compiled :=
  (Compilation.run (compileContext options files input) source (some ⟨0, input⟩)).1

/-- The result of compiling a text from a file in order to convert it. -/
def convertedFrom (source : String) : Except CompileError Compiled :=
  (Compilation.run (convertContext options files input) source none).1

variable {options files input}

/-- Both ways make the same tree, up to the names of files, or none. -/
theorem trees_same (finds : FindsSame options files input) {source : String}
    (isSource : files.readText input = .ok source) :
    (compiledFrom options files input source).toOption.map (·.tree.unnamed) =
      (convertedFrom options files input source).toOption.map (·.tree.unnamed) := by
  obtain ⟨r, start, asks⟩ := finds
  exact Compilation.run_relocated r (depthBound_eq options files input) start
    fun root => asks source root isSource

/-- The job of compiling a text from a file. -/
def fileJob (options : Options) (input source : String) : Compiler.Job where
  source := source
  options := fileOptions options input
  importers := Importer.besideFile input :: options.loadPaths.map .directory
  entry := some ⟨0, input⟩
  key := (Importer.besideFile input).cacheKey input

theorem run_compileFile (workspace : Workspace) :
    ((Compiler.mk options []).compileFile input).run workspace =
      match workspace.files.readText input with
      | .error error => (.error (.file error), workspace)
      | .ok source => (Compiler.run (fileJob options input source)).run workspace := by
  have importers : (Compiler.mk options []).allImporters = options.loadPaths.map .directory :=
    List.append_nil _
  have ran : ((Compiler.mk options []).compileFile input).run workspace =
      (match workspace.files.readText input with
        | .error error => return .error (.file error)
        | .ok source => Compiler.run
          { fileJob options input source with
            importers := Importer.besideFile input :: (Compiler.mk options []).allImporters } :
        Working (Except CompileError Output)).run workspace := rfl
  rw [ran, importers]
  cases workspace.files.readText input with
  | error error => rfl
  | ok source => rfl

/-- Without the cache nothing but the stores and the log changes. -/
theorem compile_run {config : Config} (uncached : config.options.cache = false)
    (workspace : Workspace) :
    ∃ after : Workspace, after.files = workspace.files ∧ after.now = workspace.now ∧
      (compile config input).run workspace =
        (match workspace.files.readText input with
          | .error error => .error (.file error)
          | .ok source =>
            (compiledFrom config.options workspace.files input source).map fun compiled =>
              compiled.tree.toText ⟨config.options.style, config.options.lineComments⟩,
          after) := by
  let stored : Workspace := { workspace with stores := [.directory config.cacheLocation] }
  have ran : (compile config input).run workspace =
      let ended := ((Compiler.mk config.options []).compileFile input).run stored
      (ended.1.map (·.css), ended.2) := rfl
  rw [ran, run_compileFile]
  cases workspace.files.readText input with
  | error error => exact ⟨stored, rfl, rfl, rfl⟩
  | ok source =>
    obtain ⟨log, anew⟩ := Compiler.run_compileAnew (fileJob config.options input source) stored
    have job : Compiler.run (fileJob config.options input source) =
        Compiler.compileAnew (fileJob config.options input source) :=
      if_neg fun both => by
        rw [show (fileJob config.options input source).options.cache = false from uncached] at both
        cases both
    refine ⟨{ stored with log }, rfl, rfl, ?_⟩
    dsimp only
    rw [job, anew]
    change (Except.map _
      (Except.map _ (compiledFrom config.options workspace.files input source)), _) = _
    cases compiledFrom config.options workspace.files input source with
    | error error => simp only [Except.map]
    | ok compiled =>
      simp only [Except.map]
      rfl

theorem convert_run (target : Dialect) (workspace : Workspace) :
    ∃ after : Workspace, after.files = workspace.files ∧ after.now = workspace.now ∧
      (convert options input target).run workspace =
        (match workspace.files.readText input with
          | .error error => .error (.file error)
          | .ok source =>
            (convertedFrom options workspace.files input source).map (·.tree.toSource target),
          after) := by
  let compiler : Compiler := ⟨fileOptions options input, [Importer.besideFile input]⟩
  have ran : (convert options input target).run workspace =
      (match workspace.files.readText input with
        | .error error => return .error (.file error)
        | .ok source => do return (← compiler.compileTree source).map (·.toSource target) :
        Working (Except CompileError String)).run workspace := rfl
  rw [ran]
  cases workspace.files.readText input with
  | error error => exact ⟨workspace, rfl, rfl, rfl⟩
  | ok source =>
    let found := Compilation.run (convertContext options workspace.files input) source none
    refine ⟨{ workspace with log := workspace.log ++ found.2 }, rfl, rfl, ?_⟩
    change ((found.1.map (·.tree)).map (·.toSource target), _) = (found.1.map _, _)
    cases found.1 <;> rfl

/-- What comes out in the end: the result, if it can be written. -/
def delivered (after : Workspace) (output : Option String) :
    Except CompileError String → Except Failure String
  | .error error => .error (.compile error)
  | .ok text =>
    match output with
    | none => .ok text
    | some path =>
      match after.files.write after.now path text.toUTF8 with
      | .ok _ => .ok text
      | .error error => .error (.compile (.file error))

theorem save_run (path text : String) (workspace : Workspace) :
    (save path text).run workspace =
      match workspace.files.write workspace.now path text.toUTF8 with
      | .ok files => (.ok (), { workspace with files })
      | .error error => (.error error, workspace) := by
  have ran : (save path text).run workspace =
      (match workspace.files.write workspace.now path text.toUTF8 with
        | .ok files => do
          set { workspace with files }
          return .ok ()
        | .error error => return .error error : Working (Except FileError Unit)).run workspace := rfl
  rw [ran]
  cases workspace.files.write workspace.now path text.toUTF8 <;> rfl

theorem run_of_load (invocation : Invocation) {user : Option (Except FileError String)}
    {workspace after : Workspace} {found : Config} {result : Except CompileError String}
    (loaded : Config.load workspace.files invocation.config user = .ok found)
    (ran : ((match invocation.convertTo with
      | some target => convert (found.applying invocation).options invocation.input target
      | none => compile (found.applying invocation) invocation.input) :
      Working (Except CompileError String)).run workspace = (result, after)) :
    ((run invocation user).run workspace).1 = delivered after invocation.output result := by
  unfold run
  simp only [StateT.run_bind, StateT.run_get, pure_bind, loaded]
  generalize invocation.convertTo = asked at ran ⊢
  cases asked with
  | _ =>
    simp only [StateT.run_bind] at ran ⊢
    rw [ran]
    cases result with
    | error error => rfl
    | ok text =>
      cases invocation.output with
      | none => rfl
      | some path =>
        change ((save path text >>= _ : Working (Except Failure String)).run after).1 = _
        rw [StateT.run_bind, save_run, delivered]
        cases after.files.write after.now path text.toUTF8 <;> rfl

/-- Whether a file can be written does not depend on what is written. -/
theorem isOk_write (files : FileTree) (now : Nat) (path : String) (first second : ByteArray) :
    (files.write now path first).isOk = (files.write now path second).isOk := by
  unfold FileTree.write
  cases files.locate path with
  | error error => rfl
  | ok place =>
    simp only [bind, Except.bind]
    split
    · rfl
    · rfl
    · split
      · rfl
      · split <;> rfl

/-- Texts are delivered in the same way from workspaces with the same files. -/
theorem delivered_ok {one other : Workspace} (files : one.files = other.files)
    (now : one.now = other.now) (output : Option String) (first second : String) :
    (∃ reason reason', delivered one output (.ok first) = .error reason ∧
        delivered other output (.ok second) = .error reason') ∨
      delivered one output (.ok first) = .ok first ∧
        delivered other output (.ok second) = .ok second := by
  cases output with
  | none => exact .inr ⟨rfl, rfl⟩
  | some path =>
    have same := isOk_write other.files other.now path first.toUTF8 second.toUTF8
    simp only [delivered, files, now]
    generalize other.files.write other.now path first.toUTF8 = written at same ⊢
    generalize other.files.write other.now path second.toUTF8 = written' at same ⊢
    cases written with
    | error error => cases written' with
      | error error' => exact .inl ⟨_, _, rfl, rfl⟩
      | ok tree' => cases same
    | ok tree => cases written' with
      | error error' => cases same
      | ok tree' => exact .inr ⟨rfl, rfl⟩

section Conversion

variable {config : Config} (target : Dialect) (workspace : Workspace)

/-- A file is compiled to the text of a tree and converted to the source of that tree, or both fail. -/
theorem results_same (uncached : config.options.cache = false)
    (finds : FindsSame config.options workspace.files input) :
    ∃ after after' : Workspace, after.files = after'.files ∧ after.now = after'.now ∧
      ((∃ error error', (compile config input).run workspace = (.error error, after) ∧
          (convert config.options input target).run workspace = (.error error', after')) ∨
        ∃ source compiled, workspace.files.readText input = .ok source ∧
          compiledFrom config.options workspace.files input source = .ok compiled ∧
          (compile config input).run workspace =
            (.ok (compiled.tree.toText ⟨config.options.style, config.options.lineComments⟩), after) ∧
          (convert config.options input target).run workspace =
            (.ok (compiled.tree.toSource target), after')) := by
  obtain ⟨after, files, now, isCompiled⟩ := compile_run uncached workspace
  obtain ⟨after', files', now', isConverted⟩ := convert_run target workspace
  refine ⟨after, after', files.trans files'.symm, now.trans now'.symm, ?_⟩
  rw [isCompiled, isConverted]
  cases read : workspace.files.readText input with
  | error error => exact .inl ⟨_, _, rfl, rfl⟩
  | ok source =>
    have trees := trees_same finds read
    dsimp only
    cases first : compiledFrom config.options workspace.files input source with
    | error error =>
      rw [first] at trees
      cases second : convertedFrom config.options workspace.files input source with
      | error error' => exact .inl ⟨_, _, rfl, rfl⟩
      | ok compiled' =>
        rw [second] at trees
        cases trees
    | ok compiled =>
      rw [first] at trees
      cases second : convertedFrom config.options workspace.files input source with
      | error error' =>
        rw [second] at trees
        cases trees
      | ok compiled' =>
        rw [second] at trees
        have unnamed : compiled.tree.unnamed = compiled'.tree.unnamed := Option.some.inj trees
        have same : compiled'.tree.toSource target = compiled.tree.toSource target := by
          rw [← compiled'.tree.toSource_unnamed, ← compiled.tree.toSource_unnamed, unnamed]
        refine .inr ⟨source, compiled, rfl, first, rfl, ?_⟩
        rw [Except.map, same]

/-- Without the cache, and if all imports find the same stylesheets in both ways, a file that is
converted gives the source of the very tree whose text it gives when it is compiled. Both ways fail
if one of them does. -/
theorem run_convertTo (invocation : Invocation) (user : Option (Except FileError String))
    (same : ∀ found, Config.load workspace.files invocation.config user = .ok found →
      (found.applying invocation).options.cache = false ∧
      FindsSame (found.applying invocation).options workspace.files invocation.input) :
    let plain := ((run { invocation with convertTo := none } user).run workspace).1
    let converted := ((run { invocation with convertTo := some target } user).run workspace).1
    (∃ failure failure', plain = .error failure ∧ converted = .error failure') ∨
      ∃ found source compiled,
        Config.load workspace.files invocation.config user = .ok found ∧
        workspace.files.readText invocation.input = .ok source ∧
        compiledFrom (found.applying invocation).options workspace.files invocation.input source =
          .ok compiled ∧
        plain = .ok (compiled.tree.toText ⟨(found.applying invocation).options.style,
          (found.applying invocation).options.lineComments⟩) ∧
        converted = .ok (compiled.tree.toSource target) := by
  intro plain converted
  let asPlain : Invocation := { invocation with convertTo := none }
  let asConversion : Invocation := { invocation with convertTo := some target }
  cases loaded : Config.load workspace.files invocation.config user with
  | error error =>
    have fails : ∀ asked, ((run { invocation with convertTo := asked } user).run workspace).1 =
        .error (.config error) := by
      intro asked
      simp only [run, StateT.run_bind, StateT.run_get, pure_bind, loaded]
      rfl
    exact .inl ⟨_, _, fails none, fails (some target)⟩
  | ok found =>
    obtain ⟨uncached, finds⟩ := same found loaded
    obtain ⟨after, after', files, now, results⟩ := results_same target workspace uncached finds
    rcases results with ⟨error, error', compiles, converts⟩ |
      ⟨source, compiled, read, isCompiled, compiles, converts⟩
    · have isPlain : plain = .error (.compile error) := run_of_load asPlain loaded compiles
      have isConverted : converted = .error (.compile error') :=
        run_of_load asConversion loaded converts
      exact .inl ⟨_, _, isPlain, isConverted⟩
    · have isPlain : plain = delivered after invocation.output _ :=
        run_of_load asPlain loaded compiles
      have isConverted : converted = delivered after' invocation.output _ :=
        run_of_load asConversion loaded converts
      rw [isPlain, isConverted]
      rcases delivered_ok files now invocation.output _ _ with fails | ⟨first, second⟩
      · exact .inl fails
      · exact .inr ⟨found, source, compiled, rfl, read, isCompiled, first, second⟩

end Conversion

section Partials

/-- A stylesheet that imports one beside it, which imports one from another directory. Neither of the
two directories is below the working directory. -/
def partials : FileTree where
  entries := [
    (["work"], .directory 0),
    (["css"], .directory 0),
    (["css", "main.scss"], .file "@import 'a';".toUTF8 0),
    (["css", "_a.scss"], .file "@import 'b';p\x7bq:r\x7d".toUTF8 0),
    (["lib"], .directory 0),
    (["lib", "_b.scss"], .file "s\x7bt:u\x7d".toUTF8 0)]
  here := ["work"]

/-- A stylesheet that imports one which is both beside it and in a directory. -/
def sameNames : FileTree where
  entries := [
    (["main.scss"], .file "@import 'a';".toUTF8 0),
    (["_a.scss"], .file "a\x7bb:c\x7d".toUTF8 0),
    (["lib"], .directory 0),
    (["lib", "_a.scss"], .file "a\x7bb:d\x7d".toUTF8 0)]
  here := []

/-- Use a directory for imports, and no cache. -/
def withDirectory (directory input : String) : Invocation where
  input := input
  output := none
  style := none
  dialect := none
  loadPaths := [directory]
  lineComments := false
  noCache := true
  cacheLocation := none
  convertTo := none
  config := none
  logLevel := "warn"

/-- The stylesheets, under their names when the first one is compiled and when it is converted. -/
def partialNames : List (Option SourceId × Option SourceId) := [
  (some ⟨0, "/css/main.scss"⟩, none),
  (some ⟨0, "/css/_a.scss"⟩, some ⟨1, "/css/_a.scss"⟩),
  (some ⟨1, "../lib/_b.scss"⟩, some ⟨0, "../lib/_b.scss"⟩)]

/-- What an import finds from anywhere. -/
def partialOf (uri : String) : SourceId × SourceId × String :=
  if uri = "a" then (⟨0, "/css/_a.scss"⟩, ⟨1, "/css/_a.scss"⟩, "@import 'b';p\x7bq:r\x7d")
  else (⟨1, "../lib/_b.scss"⟩, ⟨0, "../lib/_b.scss"⟩, "s\x7bt:u\x7d")

theorem resolve_partials :
    ∀ uri ∈ ["a", "b"], ∀ pair ∈ partialNames,
      let (id, id', contents) := partialOf uri
      (some id, some id') ∈ partialNames ∧
      (Importers.resolve partials [.directory "/css", .directory "../lib"] uri pair.1).1 =
        .ok (some (id, ⟨contents, .scss, id.uri⟩)) ∧
      (Importers.resolve partials [.directory "../lib", .directory "/css"] uri pair.2).1 =
        .ok (some (id', ⟨contents, .scss, id'.uri⟩)) := by
  simp only [partialNames, List.forall_mem_cons, List.not_mem_nil, false_implies, implies_true,
    and_true]
  refine ⟨⟨?_, ?_, ?_⟩, ?_, ?_, ?_⟩
  all_goals decide +kernel

/-- A stylesheet that is read without a configuration, and texts that import by these names only. -/
structure ImportsOnly (files : FileTree) (directory input source : String) (texts names : List String) :
    Prop where
  unconfigured : Config.load files none none = .ok .default
  isRead : files.readText input = .ok source
  isScss : Importer.dialectOf input
    (Config.default.applying (withDirectory directory input)).options.dialect = .scss
  imports : ∀ contents ∈ texts, (Statement.parse contents .scss none).toOption.all fun root =>
    decide (Statement.importNamesOfAll root.children ⊆ names)

theorem importsOnly_partials : ImportsOnly partials "../lib" "/css/main.scss" "@import 'a';"
    ["@import 'a';", (partialOf "a").2.2, (partialOf "b").2.2] ["a", "b"] := by
  constructor <;> decide +kernel

theorem findsSame_partials :
    FindsSame (Config.default.applying (withDirectory "../lib" "/css/main.scss")).options partials
      "/css/main.scss" := by
  have asks : ∀ {contents : String} {base : Option SourceId},
      (Statement.parse contents .scss none).toOption.all (fun root =>
        decide (Statement.importNamesOfAll root.children ⊆ ["a", "b"])) →
      ∀ root, Statement.parse contents .scss none = .ok root →
        AllAsk (fun _ uri => uri ∈ ["a", "b"]) base root.children := by
    intro contents base names root parsed
    rw [parsed] at names
    exact allAsk_of_importNames (fun _ uri => uri ∈ ["a", "b"]) (fun _ member _ => member)
      root.children (of_decide_eq_true names) base
  refine ⟨{
    asked := fun _ uri => uri ∈ ["a", "b"]
    matched := fun id id' => (id, id') ∈ partialNames
    oneToOne := ?_
    options := rfl
    finds := ?_ }, List.mem_cons_self, ?_⟩
  · intro a b c d first second
    revert first second
    have : ∀ first ∈ partialNames, ∀ second ∈ partialNames,
        (first.1 = second.1 ↔ first.2 = second.2) := by decide
    exact fun first second => this _ first _ second
  · intro uri base base' member isMatched
    obtain ⟨same, first, second⟩ := resolve_partials uri member _ isMatched
    have names := importsOnly_partials.imports (partialOf uri).2.2 (by
      rcases List.mem_pair.mp member with rfl | rfl <;> simp)
    change FoundTwin _ _
      (Importers.resolve partials [.directory "/css", .directory "../lib"] uri base).1
      (Importers.resolve partials [.directory "../lib", .directory "/css"] uri base').1
    rw [first, second]
    exact .found same (asks names)
  · intro source root read parsed
    rw [importsOnly_partials.isRead] at read
    rw [importsOnly_partials.isScss] at parsed
    cases read
    have names := importsOnly_partials.imports "@import 'a';" List.mem_cons_self
    exact asks names root parsed

/-- The workspace with these files, and nothing else. -/
def holding (files : FileTree) : Workspace where
  files := files
  stores := []
  accesses := []
  log := []
  now := 0

theorem run_convertTo_of_partials :
    let workspace := holding partials
    let invocation := withDirectory "../lib" "/css/main.scss"
    (∀ found, Config.load workspace.files invocation.config none = .ok found →
      (found.applying invocation).options.cache = false ∧
      FindsSame (found.applying invocation).options workspace.files invocation.input) ∧
    let plain := ((run { invocation with convertTo := none } none).run workspace).1
    let converted := ((run { invocation with convertTo := some .scss } none).run workspace).1
    (∃ failure failure', plain = .error failure ∧ converted = .error failure') ∨
      ∃ found source compiled,
        Config.load workspace.files invocation.config none = .ok found ∧
        workspace.files.readText invocation.input = .ok source ∧
        compiledFrom (found.applying invocation).options workspace.files invocation.input source =
          .ok compiled ∧
        plain = .ok (compiled.tree.toText ⟨(found.applying invocation).options.style,
          (found.applying invocation).options.lineComments⟩) ∧
        converted = .ok (compiled.tree.toSource .scss) := by
  intro workspace invocation
  have same : ∀ found, Config.load workspace.files invocation.config none = .ok found →
      (found.applying invocation).options.cache = false ∧
      FindsSame (found.applying invocation).options workspace.files invocation.input := by
    intro found isLoaded
    cases importsOnly_partials.unconfigured.symm.trans isLoaded
    exact ⟨rfl, findsSame_partials⟩
  exact ⟨same, run_convertTo .scss workspace invocation none same⟩

/-- Where two stylesheets have the same name, another one is converted than the one that is
compiled. -/
theorem conversion_imports_another :
    let invocation := withDirectory "lib" "main.scss"
    let plain := ((run { invocation with convertTo := none } none).run (holding sameNames)).1
    let converted :=
      ((run { invocation with convertTo := some .scss } none).run (holding sameNames)).1
    plain.toOption = some "a \x7b\n  b: c; \x7d\n" ∧
    converted.toOption = some "a \x7b\n  b: d;\n\x7d\n" ∧
    (compiledFrom (Config.default.applying invocation).options sameNames "main.scss"
      "@import 'a';").toOption.map (·.tree.toSource .scss) =
        some "a \x7b\n  b: c;\n\x7d\n" := by
  refine ⟨?_, ?_, ?_⟩
  all_goals decide +kernel

end Partials

end Cli

end Stylesheet
