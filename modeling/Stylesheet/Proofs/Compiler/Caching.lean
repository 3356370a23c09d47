import Mathlib.Data.List.Forall2
import Stylesheet.Compiler
import Stylesheet.Proofs.Cache.Artifact
import Stylesheet.Proofs.Cache.Store
import Stylesheet.Proofs.Evaluation.Termination

/-! The cache does not show. Texts that are compiled one after the other with a cache in memory give
what each of them gives on its own without the cache, as long as no two of them have the same
digest. Only the warnings of a compilation get lost on the way through the cache. -/

namespace Stylesheet

namespace Compilation

open Evaluation

/-- A compilation that ends because calls or a loop came to their limit. -/
def StopsAtLimit (result : Except CompileError α) : Prop :=
  ∃ error text, result = .error (.stylesheet [error] text) ∧ error.fault = some .limitExceeded

/-- What the result of an evaluation is made into. -/
def finished (style : Style) (source : String) :
    EStateM.Result Diagnostic State Css → Except CompileError Compiled
  | .error error state => .error (withSource state source error)
  | .ok tree state =>
    match tree.flatten style with
    | .error error => .error (withSource state source error)
    | .ok (flat, extensions) =>
      .ok ⟨(extensions.apply flat).1, state.warnings ++ (extensions.apply flat).2,
        state.dependencies⟩

theorem run_eq (context : Context) (source : String) (entry : Option SourceId) :
    (run context source entry).1 =
      match Statement.parse source context.options.dialect context.options.filename with
      | .error error => .error (.stylesheet [error] source)
      | .ok root =>
        match Nesting.check root with
        | .error errors => .error (.stylesheet errors source)
        | .ok () => finished context.options.style source
            (Evaluation.stylesheet root context (start context.options source entry)) := by
  unfold run
  dsimp only
  cases Statement.parse source context.options.dialect context.options.filename with
  | error error => rfl
  | ok root =>
    cases accepted : Nesting.check root with
    | error errors => simp [accepted]
    | ok =>
      cases ended : Evaluation.stylesheet root context (start context.options source entry) with
      | error error state => simp [accepted, ended, finished]
      | ok tree state =>
        cases flattened : tree.flatten context.options.style with
        | error error => simp [accepted, ended, finished, flattened]
        | ok flat => simp [accepted, ended, finished, flattened]

/-- Evaluations that go the same way are made into the same. -/
theorem finished_of_matches {one other : Context} {after : Standing} {style : Style}
    {source : String} {result result' : EStateM.Result Diagnostic State Css}
    (matched : Matches one other after result result') :
    finished style source result = finished style source result' ∨
      ¬ one.SameLimits other ∧ (StopsAtLimit (finished style source result) ∨
        StopsAtLimit (finished style source result')) := by
  cases matched with
  | ok stands alike =>
    obtain ⟨log, rfl⟩ := alike
    exact .inl rfl
  | error alike =>
    obtain ⟨log, rfl⟩ := alike
    exact .inl rfl
  | left stop => exact .inr ⟨stop.differ, .inl ⟨_, _, rfl, stop.fault⟩⟩
  | right stop => exact .inr ⟨stop.differ, .inr ⟨_, _, rfl, stop.fault⟩⟩

/-- Contexts that are alike give the same results, whatever else the options say, unless one of the
two compilations stops at a limit and the limits differ. -/
theorem run_alike {one other : Context} (alike : one.Alike other)
    (dialect : one.options.dialect = other.options.dialect)
    (filename : one.options.filename = other.options.filename) (source : String)
    (entry : Option SourceId) :
    (run one source entry).1 = (run other source entry).1 ∨
      ¬ one.SameLimits other ∧
        (StopsAtLimit (run one source entry).1 ∨ StopsAtLimit (run other source entry).1) := by
  rw [run_eq, run_eq, ← dialect, ← filename]
  split
  · exact .inl rfl
  · rename_i root _
    split
    · exact .inl rfl
    · have starts : start other.options source entry = start one.options source entry := by
        unfold start
        rw [filename]
      rw [starts, ← alike.style]
      exact finished_of_matches (matches_stylesheet alike root rfl ⟨_, rfl⟩)

end Compilation

namespace Compiler

open Workspace

/-- What a job and these files give, without a look at the cache. -/
def Job.compiled (job : Job) (files : FileTree) : Except CompileError Output :=
  (Compilation.run ⟨job.options, files, job.importers⟩ job.source job.entry).1.map fun result =>
    ⟨result.tree.toText ⟨job.options.style, job.options.lineComments⟩, result.warnings,
      result.dependencies⟩

/-- The digest under which the result of a job is remembered. -/
def Job.hash (job : Job) : String :=
  contentHash job.source job.options

section Jobs

variable {job : Job} {files : FileTree} {valid : String → ByteArray → Prop}

/-- A compilation that does not look into the cache depends on the files only, and only logs. -/
theorem run_compileAnew (job : Job) (workspace : Workspace) :
    ∃ log, (compileAnew job).run workspace =
      (job.compiled workspace.files, { workspace with log }) := by
  unfold Job.compiled
  cases found : Compilation.run ⟨job.options, workspace.files, job.importers⟩ job.source
      job.entry with
  | mk result log =>
    refine ⟨workspace.log ++ log, ?_⟩
    cases result with
    | error error => simp [compileAnew, found]; rfl
    | ok result => simp [compileAnew, found]; rfl

theorem maintains_compileAnew :
    Maintains (Holds files valid) (compileAnew job) (· = job.compiled files) := by
  intro workspace holds
  obtain ⟨log, ran⟩ := run_compileAnew job workspace
  rw [ran, ← holds.files]
  exact ⟨⟨rfl, holds.stores⟩, rfl⟩

/-- A result that comes from the cache is an entry under the digest, without warnings. -/
theorem maintains_cached? :
    Maintains (Holds files valid) (cached? job job.hash) fun found =>
      ∀ output, found = some output → ∃ bytes artifact, valid job.hash bytes ∧
        Artifact.ofBytes? bytes = some artifact ∧
        output = ⟨artifact.css, [], artifact.dependencies⟩ := by
  refine Maintains.retrieve.bind fun found isValid => ?_
  cases found with
  | none => exact .pure nofun
  | some bytes =>
    dsimp only
    split
    · exact Maintains.logEntries.bind fun _ _ => .pure nofun
    · rename_i artifact isArtifact
      refine .get fun workspace holds => Maintains.logEntries.bind fun _ _ => .pure ?_
      intro output isOutput
      split at isOutput
      · cases isOutput
      · cases isOutput
        exact ⟨bytes, artifact, isValid bytes rfl, isArtifact, rfl⟩

theorem maintains_remember {output : Output}
    (isValid : ∀ now, valid job.hash (Artifact.toBytes ⟨output.css, now, output.dependencies⟩)) :
    Maintains (Holds files valid) (remember job job.hash output) fun _ => True := by
  refine .get fun workspace holds => (Maintains.store (isValid workspace.now)).bind ?_
  rintro _ rfl
  exact .pure trivial

/-- A job gives an entry of the cache or else what it gives without the cache. That is remembered,
and so has to make a valid entry. -/
theorem maintains_run
    (isValid : ∀ output now, job.compiled files = .ok output →
      valid job.hash (Artifact.toBytes ⟨output.css, now, output.dependencies⟩)) :
    Maintains (Holds files valid) (run job) fun result => result = job.compiled files ∨
      ∃ bytes artifact, valid job.hash bytes ∧ Artifact.ofBytes? bytes = some artifact ∧
        result = .ok ⟨artifact.css, [], artifact.dependencies⟩ := by
  unfold run
  split
  · refine maintains_cached?.bind fun found comes => ?_
    cases found with
    | some output =>
      obtain ⟨bytes, artifact, isEntry, isArtifact, rfl⟩ := comes output rfl
      exact .pure (.inr ⟨bytes, artifact, isEntry, isArtifact, rfl⟩)
    | none =>
      refine maintains_compileAnew.bind ?_
      rintro result rfl
      cases isOutput : job.compiled files with
      | error error => exact .pure (.inl rfl)
      | ok output =>
        exact (maintains_remember fun now => isValid output now isOutput).bind fun _ _ =>
          .pure (.inl rfl)
  · exact maintains_compileAnew.weaken fun _ same => .inl same

end Jobs

/-- The job of compiling a text. -/
def textJob (compiler : Compiler) (source : String) : Job where
  source := source
  options := compiler.options
  importers := compiler.allImporters
  entry := none
  key := ("string", compiler.options.filename.getD "stdin")

theorem compile_eq (compiler : Compiler) (source : String) :
    compiler.compile source = run (compiler.textJob source) :=
  rfl

/-- The same compiler, with the cache left alone. -/
def uncached (compiler : Compiler) : Compiler :=
  { compiler with options := { compiler.options with cache := false } }

/-- Without the cache, a call gives what its text and the files give. -/
theorem run_uncached (compiler : Compiler) (source : String) (workspace : Workspace) :
    ((compiler.uncached.compile source).run workspace).1 =
      (compiler.textJob source).compiled workspace.files := by
  obtain ⟨log, ran⟩ := run_compileAnew (compiler.uncached.textJob source) workspace
  let one : Evaluation.Context :=
    ⟨compiler.uncached.options, workspace.files, compiler.allImporters⟩
  let other : Evaluation.Context := ⟨compiler.options, workspace.files, compiler.allImporters⟩
  have alike : one.Alike other := ⟨rfl, fun _ _ => rfl⟩
  have same := (Compilation.run_alike alike rfl rfl source none).resolve_right
    fun stops => stops.1 ⟨rfl, rfl⟩
  exact (congrArg Prod.fst ran).trans (congrArg (Except.map _) same)

/-- The text and the dependencies that a call gives, or its error. -/
def answer (result : Except CompileError Output) : Except CompileError (String × List SourceId) :=
  result.map fun output => (output.css, output.dependencies)

/-- No two texts have the same digest. -/
def HashesApart (options : Options) (sources : List String) : Prop :=
  ∀ one ∈ sources, ∀ other ∈ sources,
    Digest.sha256 (hashInput one options) = Digest.sha256 (hashInput other options) →
      hashInput one options = hashInput other options

/-- An entry of the cache: what one of the texts gives, under the digest of that text. -/
def IsEntry (compiler : Compiler) (files : FileTree) (sources : List String) (hash : String)
    (bytes : ByteArray) : Prop :=
  ∃ source ∈ sources, ∃ artifact : Artifact, hash = (compiler.textJob source).hash ∧
    bytes = artifact.toBytes ∧
    answer ((compiler.textJob source).compiled files) = .ok (artifact.css, artifact.dependencies)

/-- Compile texts one after the other, each at its time. -/
def compileAll (compiler : Compiler) (calls : List (Nat × String)) :
    Working (List (Except CompileError Output)) :=
  calls.mapM fun call => do
    modify fun workspace => { workspace with now := call.1 }
    compiler.compile call.2

section Calls

variable {compiler : Compiler} {files : FileTree} {sources : List String} {source : String}

/-- What the cache has for a text is what the text gives. -/
theorem answer_of_isEntry (apart : HashesApart compiler.options sources) (member : source ∈ sources)
    {bytes : ByteArray} {artifact : Artifact}
    (isEntry : IsEntry compiler files sources (compiler.textJob source).hash bytes)
    (isArtifact : Artifact.ofBytes? bytes = some artifact) :
    answer ((compiler.textJob source).compiled files) =
      .ok (artifact.css, artifact.dependencies) := by
  obtain ⟨other, isOther, stored, sameHash, rfl, gives⟩ := isEntry
  have same : source = other := hashInput_injective (apart source member other isOther sameHash)
  rw [Artifact.eq_of_ofBytes? isArtifact, same]
  exact gives

/-- A call gives what its text gives, and leaves only entries in the cache that are right. -/
theorem maintains_compile (apart : HashesApart compiler.options sources)
    (member : source ∈ sources) :
    Maintains (Holds files (IsEntry compiler files sources)) (compiler.compile source)
      fun result => answer result = answer ((compiler.textJob source).compiled files) := by
  rw [compile_eq]
  refine (maintains_run fun output now isOutput => ?_).weaken ?_
  · refine ⟨source, member, _, rfl, rfl, ?_⟩
    rw [isOutput]
    rfl
  · rintro result (rfl | ⟨bytes, artifact, isEntry, isArtifact, rfl⟩)
    · rfl
    · exact (answer_of_isEntry apart member isEntry isArtifact).symm

/-- By induction on the calls: each finds right entries and leaves right entries. -/
theorem maintains_compileAll (apart : HashesApart compiler.options sources)
    (calls : List (Nat × String)) (members : ∀ call ∈ calls, call.2 ∈ sources) :
    Maintains (Holds files (IsEntry compiler files sources)) (compiler.compileAll calls)
      (List.Forall₂ (fun call result =>
        answer result = answer ((compiler.textJob call.2).compiled files)) calls) := by
  induction calls with
  | nil => exact .pure .nil
  | cons call calls ih =>
    unfold compileAll at ih ⊢
    rw [List.mapM_cons]
    have sets : Maintains (Holds files (IsEntry compiler files sources))
        (modify fun workspace => { workspace with now := call.1 }) fun _ => True :=
      fun _ before => ⟨⟨before.files, before.stores⟩, trivial⟩
    have first := sets.bind fun _ _ => maintains_compile apart (members call List.mem_cons_self)
    refine first.bind fun result same => ?_
    have others := ih fun other member => members other (List.mem_cons_of_mem call member)
    exact others.bind fun results rest => .pure (.cons same rest)

/-- Calls one after the other with empty stores in memory give the same texts, dependencies and
errors as without the cache, whatever the time of each call and in whatever order texts are
compiled again. -/
theorem compileAll_transparent (compiler : Compiler) (workspace : Workspace) (count : Nat)
    (calls : List (Nat × String)) (empty : workspace.stores = List.replicate count (.memory []))
    (apart : HashesApart compiler.options (calls.map Prod.snd)) :
    List.Forall₂
      (fun call result => ∀ other : Workspace, other.files = workspace.files →
        answer result = answer ((compiler.uncached.compile call.2).run other).1)
      calls ((compiler.compileAll calls).run workspace).1 := by
  have start : Holds workspace.files (IsEntry compiler workspace.files (calls.map Prod.snd))
      workspace := by
    refine ⟨rfl, fun store member => ?_⟩
    rw [empty] at member
    exact ⟨[], List.eq_of_mem_replicate member, nofun⟩
  have members : ∀ call ∈ calls, call.2 ∈ calls.map Prod.snd :=
    fun call member => List.mem_map_of_mem member
  refine (maintains_compileAll apart calls members workspace start).2.imp ?_
  intro call result same other sameFiles
  rw [run_uncached, sameFiles]
  exact same

end Calls

/-- A compiler of the dialect with braces, with one stylesheet to import. -/
def withImport : Compiler where
  options := { Options.default with dialect := .scss }
  importers := [.memory [("_vars.scss", "$w: 10px;")] 1000]

/-- No files, and a cache in memory that is still empty. -/
def emptyCache : Workspace where
  files := .empty
  stores := [.memory []]
  accesses := []
  log := []
  now := 0

def plainText : String :=
  "@import \"vars\"; a { b: $w; }"

def doubledText : String :=
  "@import \"vars\"; a { b: $w*2; }"

/-- A text, a change of it and the first text again. The last call is earlier than the time of the
imported stylesheet. -/
def editedText : List (Nat × String) :=
  [(2000, plainText), (3000, doubledText), (4000, plainText), (500, plainText)]

theorem hash_plainText_ne : Digest.sha256 (hashInput plainText withImport.options) ≠
    Digest.sha256 (hashInput doubledText withImport.options) := by
  decide +kernel

theorem compileAll_transparent_of_edit :
    emptyCache.stores = List.replicate 1 (.memory []) ∧
    HashesApart withImport.options (editedText.map Prod.snd) ∧
    List.Forall₂
      (fun call result => ∀ other : Workspace, other.files = emptyCache.files →
        answer result = answer ((withImport.uncached.compile call.2).run other).1)
      editedText ((withImport.compileAll editedText).run emptyCache).1 := by
  have which : ∀ text ∈ editedText.map Prod.snd, text = plainText ∨ text = doubledText := by
    simp [editedText]
  have apart : HashesApart withImport.options (editedText.map Prod.snd) := by
    intro one isOne other isOther same
    rcases which one isOne with rfl | rfl
    · rcases which other isOther with rfl | rfl
      · rfl
      · exact absurd same hash_plainText_ne
    · rcases which other isOther with rfl | rfl
      · exact absurd same.symm hash_plainText_ne
      · rfl
  exact ⟨rfl, apart, compileAll_transparent withImport emptyCache 1 editedText rfl apart⟩

section Warnings

variable {job : Job} {workspace between : Workspace} {output : Output}

/-- Whether the result of a job comes from the cache. -/
def Job.isServed (job : Job) (workspace : Workspace) : Bool :=
  job.options.cache && ((cached? job job.hash).run workspace).1.isSome

/-- The files with which a job is compiled. The look into the cache before that may have copied an
entry from one directory to another. -/
def Job.filesFor (job : Job) (workspace : Workspace) : FileTree :=
  if job.options.cache then ((cached? job job.hash).run workspace).2.files else workspace.files

/-- The importers of a job answer the same, whichever of two workspaces it is compiled in. -/
def Job.SeesSame (job : Job) (one other : Workspace) : Prop :=
  ∀ uri base, (Importers.resolve (job.filesFor one) job.importers uri base).1 =
    (Importers.resolve (job.filesFor other) job.importers uri base).1

theorem run_of_hit (isCached : job.options.cache = true)
    (hit : (cached? job job.hash).run workspace = (some output, between)) :
    (run job).run workspace = (.ok output, between) := by
  unfold Job.hash at hit
  unfold run
  rw [if_pos isCached, StateT.run_bind, hit]
  rfl

theorem run_of_miss (isCached : job.options.cache = true)
    (miss : (cached? job job.hash).run workspace = (none, between)) :
    ((run job).run workspace).1 = job.compiled between.files := by
  unfold Job.hash at miss
  obtain ⟨log, ran⟩ := run_compileAnew job between
  unfold run
  rw [if_pos isCached, StateT.run_bind, miss]
  change ((compileAnew job >>= _).run between).1 = _
  rw [StateT.run_bind, ran]
  cases job.compiled between.files with
  | error error => rfl
  | ok output => rfl

theorem retrieve_memory (key : CacheKey) (hash : String)
    {entries : Bindings CacheKey (String × ByteArray)}
    (stores : workspace.stores = [.memory entries]) :
    (retrieve key hash).run workspace =
      let held := Store.get workspace.files (.memory entries) key hash
      (held.1, { workspace with
        log := workspace.log ++ held.2
        accesses := workspace.accesses ++ [.retrieved 0 key hash held.1.isSome] }) := by
  obtain ⟨files, _, accesses, log, now⟩ := workspace
  cases stores
  have first : (retrieve key hash).run ⟨files, [.memory entries], accesses, log, now⟩ =
      (retrieveFromFirst key hash [] [0]).run ⟨files, [.memory entries], accesses, log, now⟩ := rfl
  have asked : (retrieveFrom 0 key hash).run ⟨files, [.memory entries], accesses, log, now⟩ =
      let held := Store.get files (.memory entries) key hash
      (held.1, ⟨files, [.memory entries], accesses ++ [.retrieved 0 key hash held.1.isSome],
        log ++ held.2, now⟩) := rfl
  rw [first, retrieveFromFirst, StateT.run_bind, asked]
  generalize Store.get files (.memory entries) key hash = held
  obtain ⟨found, more⟩ := held
  cases found with
  | none => rfl
  | some bytes => rfl

theorem get_memory (files : FileTree) (key : CacheKey) (hash : String) (bytes : ByteArray) :
    Store.get files (.memory [(key, hash, bytes)]) key hash = (some bytes, []) := by
  simp [Store.get, Bindings.find?]

theorem cached?_of_found {hash css : String} {now : Nat} {bytes : ByteArray} {after : Workspace}
    (isFound : (retrieve job.key hash).run workspace = (some bytes, after))
    (readable : Artifact.ofBytes? bytes = some ⟨css, now, []⟩) :
    ∃ final, (cached? job hash).run workspace = (some ⟨css, [], []⟩, final) := by
  unfold cached?
  rw [StateT.run_bind, isFound]
  simp only [bind, readable]
  exact ⟨_, rfl⟩

/-- What a job gives into a cache that is still empty is served to a job with the same key and
digest, whatever else that one has, if there is nothing that it depends on. -/
theorem run_served {other : Job} {css : String} {warnings : List Diagnostic}
    (isCached : job.options.cache = true) (isCached' : other.options.cache = true)
    (key : other.key = job.key) (hash : other.hash = job.hash)
    (empty : workspace.stores = [.memory []]) (early : workspace.now < 2 ^ 64)
    (gives : job.compiled workspace.files = .ok ⟨css, warnings, []⟩) :
    ∃ between, (run job).run workspace = (.ok ⟨css, warnings, []⟩, between) ∧
      ∀ later, ((run other).run { between with now := later }).1 = .ok ⟨css, [], []⟩ := by
  obtain ⟨files, stores, accesses, log, now⟩ := workspace
  cases empty
  let missed : Workspace :=
    ⟨files, [.memory []], accesses ++ [.retrieved 0 job.key job.hash false], log ++ [], now⟩
  have miss : (cached? job job.hash).run ⟨files, [.memory []], accesses, log, now⟩ =
      (none, missed) := rfl
  obtain ⟨log', ran⟩ := run_compileAnew job missed
  rw [show job.compiled missed.files = _ from gives] at ran
  let bytes := Artifact.toBytes ⟨css, now, []⟩
  let kept : Workspace := ⟨files, [.memory [(job.key, job.hash, bytes)]],
    missed.accesses ++ [.stored 0 job.key job.hash bytes true], log', now⟩
  have remembered : (remember job job.hash ⟨css, warnings, []⟩).run { missed with log := log' } =
      ((), kept) := rfl
  refine ⟨kept, ?_, fun later => ?_⟩
  · unfold Job.hash at miss remembered
    unfold run
    rw [if_pos isCached, StateT.run_bind, miss]
    change (compileAnew job >>= _).run missed = _
    rw [StateT.run_bind, ran]
    change (remember job _ _ >>= _).run _ = _
    rw [StateT.run_bind, remembered]
    rfl
  · have held : Store.get files (.memory [(job.key, job.hash, bytes)]) other.key other.hash =
        (some bytes, []) := by
      rw [key, hash]
      exact get_memory files job.key job.hash bytes
    obtain ⟨after, isFound⟩ : ∃ after,
        (retrieve other.key other.hash).run { kept with now := later } = (some bytes, after) := by
      rw [retrieve_memory other.key other.hash rfl]
      exact ⟨_, congrArg (Prod.mk · _) (congrArg Prod.fst held)⟩
    obtain ⟨final, hit⟩ := cached?_of_found isFound (Artifact.ofBytes?_toBytes early)
    rw [run_of_hit isCached' hit]

/-- Whatever the stores are, a result that comes from the cache has no warnings. -/
theorem warnings_of_cached? {hash : String}
    (hit : ((cached? job hash).run workspace).1 = some output) : output.warnings = [] := by
  have anything {α : Type} {action : Working α} :
      Maintains (fun _ => True) action fun _ => True :=
    fun _ _ => ⟨trivial, trivial⟩
  have gives : Maintains (fun _ => True) (cached? job hash) fun found =>
      ∀ output, found = some output → output.warnings = [] := by
    refine anything.bind fun found _ => ?_
    cases found with
    | none => exact .pure nofun
    | some bytes =>
      dsimp only
      split
      · exact anything.bind fun _ _ => .pure nofun
      · refine .get fun workspace _ => anything.bind fun _ _ => .pure ?_
        intro output isOutput
        split at isOutput
        · cases isOutput
        · cases isOutput
          rfl
  exact (gives workspace trivial).2 output hit

/-- What comes from the cache has no warnings; otherwise a job gives what it gives without the
cache. -/
theorem warnings_of_run (isOutput : ((run job).run workspace).1 = .ok output) :
    (job.isServed workspace = true ∧ output.warnings = []) ∨
      (job.isServed workspace = false ∧ job.compiled (job.filesFor workspace) = .ok output) := by
  unfold Job.isServed Job.filesFor
  cases isCached : job.options.cache with
  | false =>
    obtain ⟨log, ran⟩ := run_compileAnew job workspace
    unfold run at isOutput
    rw [if_neg (by simp [isCached]), ran] at isOutput
    exact .inr ⟨rfl, isOutput⟩
  | true =>
    cases found : (cached? job job.hash).run workspace with
    | mk result between =>
      cases result with
      | none =>
        rw [run_of_miss isCached found] at isOutput
        exact .inr ⟨rfl, isOutput⟩
      | some served =>
        rw [run_of_hit isCached found] at isOutput
        cases isOutput
        exact .inl ⟨rfl, warnings_of_cached? (congrArg Prod.fst found)⟩

theorem Job.SeesSame.compiled {one other : Workspace} (sees : job.SeesSame one other) :
    job.compiled (job.filesFor one) = job.compiled (job.filesFor other) := by
  have alike : Evaluation.Context.Alike ⟨job.options, job.filesFor one, job.importers⟩
      ⟨job.options, job.filesFor other, job.importers⟩ := ⟨rfl, sees⟩
  have same := (Compilation.run_alike alike rfl rfl job.source job.entry).resolve_right
    fun stops => stops.1 ⟨rfl, rfl⟩
  exact congrArg (Except.map _) same

/-- A call and a later one for the same text, between which the importers do not change, report the
same warnings if both or none of the two come from the cache, or if none of them has any; and only
then. What the cache is made of and what happens to it in between does not matter. -/
theorem second_warnings_iff (compiler : Compiler) (source : String) {before again : Workspace}
    {first second : Output} (unchanged : (compiler.textJob source).SeesSame before again)
    (isFirst : ((compiler.compile source).run before).1 = .ok first)
    (isSecond : ((compiler.compile source).run again).1 = .ok second) :
    second.warnings = first.warnings ↔
      (compiler.textJob source).isServed again = (compiler.textJob source).isServed before ∨
        (first.warnings = [] ∧ second.warnings = []) := by
  rw [compile_eq] at isFirst isSecond
  -- Where exactly one of the two is served it has no warnings, so they agree only if there are none.
  rcases warnings_of_run isFirst with ⟨served, empty⟩ | ⟨fresh, gives⟩
  · rcases warnings_of_run isSecond with ⟨servedAgain, emptyAgain⟩ | ⟨freshAgain, _⟩
    · simp [served, servedAgain, empty, emptyAgain]
    · simp [served, freshAgain, empty]
  · rcases warnings_of_run isSecond with ⟨servedAgain, emptyAgain⟩ | ⟨freshAgain, givesAgain⟩
    · simp [fresh, servedAgain, emptyAgain, eq_comm]
    · rw [unchanged.compiled] at gives
      rw [gives] at givesAgain
      cases givesAgain
      simp [fresh, freshAgain]

/-- A job that compiles gives something, also if a result is served. -/
theorem exists_ok_of_compiled (gives : job.compiled (job.filesFor workspace) = .ok output) :
    ∃ found, ((run job).run workspace).1 = .ok found := by
  unfold Job.filesFor at gives
  cases isCached : job.options.cache with
  | false =>
    obtain ⟨log, ran⟩ := run_compileAnew job workspace
    rw [isCached] at gives
    unfold run
    rw [if_neg (by simp [isCached]), ran]
    exact ⟨output, gives⟩
  | true =>
    rw [isCached] at gives
    cases found : (cached? job job.hash).run workspace with
    | mk result between =>
      cases result with
      | none =>
        rw [found] at gives
        exact ⟨output, (run_of_miss isCached found).trans gives⟩
      | some served => exact ⟨served, congrArg Prod.fst (run_of_hit isCached found)⟩

/-- A cache in memory leaves the files alone, and so what importers answer. -/
theorem Job.seesSame_of_memory {result : Except CompileError Output} {later : Nat}
    (inMemory : ∀ store ∈ workspace.stores, ∃ entries, store = .memory entries)
    (ran : (run job).run workspace = (result, between)) :
    job.SeesSame workspace { between with now := later } := by
  have start : Holds workspace.files (fun _ _ => True) workspace := by
    refine ⟨rfl, fun store member => ?_⟩
    obtain ⟨entries, rfl⟩ := inMemory store member
    exact ⟨entries, rfl, fun _ _ _ _ => trivial⟩
  have looks {between : Workspace} (holds : Holds workspace.files (fun _ _ => True) between) :
      job.filesFor between = workspace.files := by
    unfold Job.filesFor
    split
    · exact (maintains_cached? between holds).1.files
    · exact holds.files
  obtain ⟨kept, -⟩ := maintains_run (fun _ _ _ => trivial) workspace start
  rw [ran] at kept
  have after : Holds workspace.files (fun _ _ => True) { between with now := later } :=
    ⟨kept.files, kept.stores⟩
  intro uri base
  rw [looks start, looks after]

end Warnings

/-- A text with a warning. -/
def warningText : String :=
  "@warn \"x\";"

theorem compiled_warningText : ∃ css warning,
    (withImport.textJob warningText).compiled emptyCache.files = .ok ⟨css, [warning], []⟩ := by
  have check : (((withImport.textJob warningText).compiled emptyCache.files).toOption.any
      fun first => first.warnings.length == 1 && first.dependencies.isEmpty) = true := by
    decide +kernel
  cases gives : (withImport.textJob warningText).compiled emptyCache.files with
  | error error =>
    rw [gives] at check
    cases check
  | ok first =>
    obtain ⟨css, warnings, dependencies⟩ := first
    rw [gives] at check
    simp only [Except.toOption, Option.any_some, Bool.and_eq_true, beq_iff_eq,
      List.isEmpty_iff] at check
    obtain ⟨one, rfl⟩ := check
    obtain ⟨warning, rfl⟩ := List.length_eq_one_iff.mp one
    exact ⟨css, warning, rfl⟩

/-- The first call reports the warning; the second comes from the cache. -/
theorem compile_warningText :
    ∃ first second between,
      (withImport.compile warningText).run emptyCache = (.ok first, between) ∧
      ((withImport.compile warningText).run { between with now := 1 }).1 = .ok second ∧
      first.warnings.length = 1 ∧ second.warnings = [] := by
  obtain ⟨css, warning, gives⟩ := compiled_warningText
  obtain ⟨between, isFirst, isSecond⟩ := run_served rfl rfl rfl rfl rfl (by decide) gives
  exact ⟨_, _, between, isFirst, isSecond 1, rfl, rfl⟩

/-- The same with a directory behind the memory. -/
def directoryCache : Workspace :=
  { emptyCache with stores := [.memory [], .directory "cache"] }

theorem second_warnings_iff_of_warning :
    (∃ first second between,
      (withImport.compile warningText).run emptyCache = (.ok first, between) ∧
      ((withImport.compile warningText).run { between with now := 1 }).1 = .ok second ∧
      (withImport.textJob warningText).SeesSame emptyCache { between with now := 1 } ∧
      (second.warnings = first.warnings ↔
        (withImport.textJob warningText).isServed { between with now := 1 } =
            (withImport.textJob warningText).isServed emptyCache ∨
          (first.warnings = [] ∧ second.warnings = []))) ∧
    ∃ first second between,
      (withImport.compile warningText).run directoryCache = (.ok first, between) ∧
      ((withImport.compile warningText).run { between with now := 1 }).1 = .ok second ∧
      (withImport.textJob warningText).SeesSame directoryCache { between with now := 1 } ∧
      (second.warnings = first.warnings ↔
        (withImport.textJob warningText).isServed { between with now := 1 } =
            (withImport.textJob warningText).isServed directoryCache ∨
          (first.warnings = [] ∧ second.warnings = [])) := by
  constructor
  · obtain ⟨first, second, between, isFirst, isSecond, _⟩ := compile_warningText
    have inMemory : ∀ store ∈ emptyCache.stores, ∃ entries, store = .memory entries := by
      intro store member
      exact ⟨[], List.mem_singleton.mp member⟩
    have unchanged : (withImport.textJob warningText).SeesSame emptyCache
        { between with now := 1 } := Job.seesSame_of_memory inMemory isFirst
    exact ⟨first, second, between, isFirst, isSecond, unchanged, second_warnings_iff withImport
      warningText unchanged (congrArg Prod.fst isFirst) isSecond⟩
  · -- What can be imported is in memory, so it stays the same whatever happens to the files.
    have sees (one other : Workspace) : (withImport.textJob warningText).SeesSame one other := by
      intro uri base
      generalize (withImport.textJob warningText).filesFor one = files
      generalize (withImport.textJob warningText).filesFor other = files'
      cases base with
      | none => rfl
      | some id =>
        obtain ⟨index, name⟩ := id
        cases index <;> rfl
    obtain ⟨css, warning, gives⟩ := compiled_warningText
    have compiles (workspace : Workspace) : ∃ found,
        ((withImport.compile warningText).run workspace).1 = .ok found := by
      refine exists_ok_of_compiled ((sees workspace emptyCache).compiled.trans gives)
    obtain ⟨first, isFirst⟩ := compiles directoryCache
    cases ran : (withImport.compile warningText).run directoryCache with
    | mk result between =>
      rw [ran] at isFirst
      cases isFirst
      obtain ⟨second, isSecond⟩ := compiles { between with now := 1 }
      have unchanged := sees directoryCache { between with now := 1 }
      exact ⟨first, second, between, rfl, isSecond, unchanged, second_warnings_iff withImport
        warningText unchanged (congrArg Prod.fst ran) isSecond⟩

/-- A second call for the same text does not report the warning again. -/
theorem second_call_loses_warnings :
    ∃ first second between,
      (withImport.compile warningText).run emptyCache = (.ok first, between) ∧
      ((withImport.compile warningText).run { between with now := 1 }).1 = .ok second ∧
      second.warnings ≠ first.warnings := by
  obtain ⟨first, second, between, isFirst, isSecond, one, none⟩ := compile_warningText
  refine ⟨first, second, between, isFirst, isSecond, ?_⟩
  intro same
  rw [← same, none] at one
  cases one

end Compiler

end Stylesheet
