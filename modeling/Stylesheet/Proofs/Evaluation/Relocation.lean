import Mathlib.Data.List.TakeWhile
import Stylesheet.Evaluation.Statement
import Stylesheet.Proofs.Css.Unnamed
import Stylesheet.Proofs.Scope.Definitions
import Stylesheet.Proofs.Scope.Unnamed
import Stylesheet.Proofs.Statement.Filenames

/-! Evaluations that find the same stylesheets under other names. Two contexts may look for imports
in other places and in another order. As long as what they find for the same imports corresponds one
to one, evaluation gives the same nodes up to the names of files, or fails in both. -/

namespace Stylesheet

namespace Statement

variable (asked : Option SourceId → String → Prop)

mutual

/-- The imports in a statement ask only for what is asked for where it is evaluated. Mixins and
functions may be evaluated in any stylesheet. -/
def Asks (base : Option SourceId) : Statement → Prop
  | mk (.importing (.stylesheet uri)) children _ _ _ => asked base uri ∧ AllAsk base children
  | mk (.branch _ (some otherwise)) children _ _ _ => Asks base otherwise ∧ AllAsk base children
  | mk (.defineMixin _ _) children _ _ _ => ∀ other, AllAsk other children
  | mk (.defineFunction _ _) children _ _ _ => ∀ other, AllAsk other children
  | mk _ children _ _ _ => AllAsk base children

def AllAsk (base : Option SourceId) : List Statement → Prop
  | [] => True
  | s :: rest => Asks base s ∧ AllAsk base rest

end

mutual

theorem asks_withFilename (filename : Option String) :
    (s : Statement) → (base : Option SourceId) →
      (Asks asked base (s.withFilename filename) ↔ Asks asked base s)
  | mk kind children line span old, base => by
    have below := allAsk_withFilenames filename children
    cases kind with
    | branch condition otherwise =>
      cases otherwise with
      | none => simp only [withFilename, Asks, below]
      | some other => simp only [withFilename, Asks, below, asks_withFilename filename other]
    | importing target => cases target <;> simp only [withFilename, Asks, below]
    | _ => simp only [withFilename, Asks, below]

theorem allAsk_withFilenames (filename : Option String) :
    (found : List Statement) → (base : Option SourceId) →
      (AllAsk asked base (withFilenames filename found) ↔ AllAsk asked base found)
  | [], _ => Iff.rfl
  | s :: rest, base => by
    simp only [withFilenames, AllAsk, asks_withFilename filename s,
      allAsk_withFilenames filename rest]

end

theorem Asks.children {asked : Option SourceId → String → Prop} {base : Option SourceId}
    {kind : StatementKind} {children : List Statement} {line : Nat} {span : Span}
    {filename : Option String} (asks : Asks asked base (mk kind children line span filename)) :
    AllAsk asked base children := by
  unfold Asks at asks
  split at asks
  all_goals
    rename_i same
    cases same
  · exact asks.2
  · exact asks.2
  · exact asks base
  · exact asks base
  · exact asks

mutual

/-- The names of the imports in a statement, below it, and in other branches. -/
def importNames : Statement → List String
  | mk (.importing (.stylesheet uri)) children _ _ _ => uri :: importNamesOfAll children
  | mk (.branch _ (some otherwise)) children _ _ _ =>
    importNames otherwise ++ importNamesOfAll children
  | mk _ children _ _ _ => importNamesOfAll children

def importNamesOfAll : List Statement → List String
  | [] => []
  | s :: rest => importNames s ++ importNamesOfAll rest

end

mutual

theorem asks_of_importNames {names : List String} (asks : ∀ uri ∈ names, ∀ base, asked base uri) :
    (s : Statement) → s.importNames ⊆ names → ∀ base, Asks asked base s
  | mk kind children line span filename, among, base => by
    cases kind with
    | importing target =>
      cases target with
      | stylesheet uri =>
        rw [importNames, List.cons_subset] at among
        exact ⟨asks uri among.1 base, allAsk_of_importNames asks children among.2 base⟩
      | css text => exact allAsk_of_importNames asks children among base
    | branch condition otherwise =>
      cases otherwise with
      | none => exact allAsk_of_importNames asks children among base
      | some other =>
        rw [importNames, List.append_subset] at among
        exact ⟨asks_of_importNames asks other among.1 base,
          allAsk_of_importNames asks children among.2 base⟩
    | defineMixin | defineFunction => exact allAsk_of_importNames asks children among
    | _ => exact allAsk_of_importNames asks children among base

theorem allAsk_of_importNames {names : List String}
    (asks : ∀ uri ∈ names, ∀ base, asked base uri) :
    (found : List Statement) → importNamesOfAll found ⊆ names → ∀ base, AllAsk asked base found
  | [], _, _ => trivial
  | s :: rest, among, base => by
    rw [importNamesOfAll, List.append_subset] at among
    exact ⟨asks_of_importNames asks s among.1 base, allAsk_of_importNames asks rest among.2 base⟩

end

end Statement

namespace Evaluation

open Statement

/-- What an import finds in either of two contexts. -/
inductive FoundTwin (asked : Option SourceId → String → Prop)
    (matched : Option SourceId → Option SourceId → Prop) :
    Except FileError (Option (SourceId × ImportedSource)) →
      Except FileError (Option (SourceId × ImportedSource)) → Prop where
  | unreadable {error error' : FileError} : FoundTwin asked matched (.error error) (.error error')
  | missing : FoundTwin asked matched (.ok none) (.ok none)
  | found {id id' : SourceId} {contents canonical canonical' : String} {dialect : Dialect}
      (same : matched (some id) (some id'))
      (asks : ∀ root, parse contents dialect none = .ok root →
        AllAsk asked (some id) root.children) :
      FoundTwin asked matched (.ok (some (id, ⟨contents, dialect, canonical⟩)))
        (.ok (some (id', ⟨contents, dialect, canonical'⟩)))

/-- How the stylesheets that one context finds correspond to those that the other one finds. Nothing
stands for the stylesheet at hand, if no importer found it. -/
structure Relocation (one other : Context) where
  /-- The names that are asked for in a stylesheet of the first context. -/
  asked : Option SourceId → String → Prop
  /-- Whether two stylesheets are the same one. -/
  matched : Option SourceId → Option SourceId → Prop
  oneToOne : ∀ {a b c d}, matched a b → matched c d → (a = c ↔ b = d)
  options : one.options = other.options
  /-- The same import in the same stylesheet finds the same stylesheet, or nothing. -/
  finds : ∀ {uri base base'}, asked base uri → matched base base' →
    FoundTwin asked matched (Importers.resolve one.files one.importers uri base).1
      (Importers.resolve other.files other.importers uri base').1

variable {one other : Context} {r : Relocation one other}

/-- The stylesheets being imported and the one at hand, each in either context. -/
structure Here where
  imports : List (Option SourceId × Option SourceId)
  file : Option SourceId × Option SourceId

/-- One more stylesheet is being imported. -/
def Here.importing (here : Here) (id id' : SourceId) : Here :=
  { here with imports := here.imports ++ [(some id, some id')] }

theorem Here.first_importing (here : Here) (id id' : SourceId) :
    (here.importing id id').imports.filterMap Prod.fst =
      here.imports.filterMap Prod.fst ++ [id] :=
  List.filterMap_append

theorem Here.second_importing (here : Here) (id id' : SourceId) :
    (here.importing id id').imports.filterMap Prod.snd =
      here.imports.filterMap Prod.snd ++ [id'] :=
  List.filterMap_append

/-- Another stylesheet is at hand. -/
def Here.entering (here : Here) (id id' : SourceId) : Here :=
  { here with file := (some id, some id') }

/-- The definitions of an environment ask only for what is asked for anywhere. -/
def Relocation.Knows (r : Relocation one other) (env : Environment) : Prop :=
  env.AllKnown fun callable => ∀ base, AllAsk r.asked base callable.body

/-- States that differ in the names of files, and in what is logged and reported. -/
structure State.Twin (r : Relocation one other) (here : Here) (s t : State) : Prop where
  env : s.env.unnamed = t.env.unnamed
  known : r.Knows s.env
  parent : s.parent = t.parent
  files : (s.file, t.file) = here.file
  isMatched : r.matched s.file t.file
  first : s.importStack = here.imports.filterMap Prod.fst
  second : t.importStack = here.imports.filterMap Prod.snd
  areMatched : ∀ pair ∈ here.imports, r.matched pair.1 pair.2

/-- Two evaluations ended in the same way, with related results after a success. -/
inductive Corresponds (r : Relocation one other) (here : Here) (related : α → β → Prop) :
    EStateM.Result Diagnostic State α → EStateM.Result Diagnostic State β → Prop where
  | ok {a : α} {b : β} {s t : State} (same : related a b) (alike : s.Twin r here t) :
      Corresponds r here related (.ok a s) (.ok b t)
  | error {error error' : Diagnostic} {s t : State} :
      Corresponds r here related (.error error s) (.error error' t)

/-- Two actions, each in its context, give related results from corresponding states. -/
def Follows (r : Relocation one other) (here : Here) (related : α → β → Prop)
    (a : Evaluating α) (b : Evaluating β) : Prop :=
  ∀ s t, s.Twin r here t → Corresponds r here related (a one s) (b other t)

section Rules

variable {here : Here} {related : α → β → Prop} {a : Evaluating α} {b : Evaluating β}

theorem Follows.pure {x : α} {y : β} (same : related x y) :
    Follows r here related (pure x) (pure y) :=
  fun _ _ alike => .ok same alike

theorem Follows.throw {error error' : Diagnostic} :
    Follows r here related (throw error : Evaluating α) (throw error' : Evaluating β) :=
  fun _ _ _ => .error

theorem Follows.bind {next : α → Evaluating γ} {next' : β → Evaluating δ} {results : γ → δ → Prop}
    (start : Follows r here related a b)
    (behind : ∀ x y, related x y → Follows r here results (next x) (next' y)) :
    Follows r here results (a >>= next) (b >>= next') := by
  intro s t alike
  have first := start s t alike
  simp only [Bind.bind, ReaderT.bind, EStateM.bind]
  generalize a one s = result at first ⊢
  generalize b other t = result' at first ⊢
  cases first with
  | ok same alike => exact behind _ _ same _ _ alike
  | error => exact .error

/-- The same value on both sides. -/
theorem Follows.step {a b : Evaluating α} {next : α → Evaluating γ} {next' : α → Evaluating δ}
    {results : γ → δ → Prop} (start : Follows r here Eq a b)
    (behind : ∀ x, Follows r here results (next x) (next' x)) :
    Follows r here results (a >>= next) (b >>= next') := by
  refine start.bind ?_
  rintro x _ rfl
  exact behind x

theorem Follows.ite {condition : Prop} [Decidable condition] {a' : Evaluating α}
    {b' : Evaluating β} (left : Follows r here related a b) (right : Follows r here related a' b') :
    Follows r here related (if condition then a else a') (if condition then b else b') := by
  split
  · exact left
  · exact right

theorem Follows.get {next : State → Evaluating α} {next' : State → Evaluating β}
    (behind : ∀ s t, s.Twin r here t → Follows r here related (next s) (next' t)) :
    Follows r here related (get >>= next) (get >>= next') :=
  fun s t alike => behind s t alike s t alike

theorem Follows.read {next : Context → Evaluating α} {next' : Context → Evaluating β}
    (behind : Follows r here related (next one) (next' other)) :
    Follows r here related (read >>= next) (read >>= next') :=
  behind

theorem Follows.options {next : Options → Evaluating α} {next' : Options → Evaluating β}
    (behind : Follows r here related (next one.options) (next' one.options)) :
    Follows r here related (options >>= next) (options >>= next') := by
  have same := r.options
  intro s t alike
  have second : (Evaluation.options >>= next') other t = next' other.options other t := rfl
  rw [second, ← same]
  exact behind s t alike

theorem Follows.modify {change change' : State → State}
    (changed : ∀ s t, s.Twin r here t → (change s).Twin r here (change' t)) :
    Follows r here Eq (modify change) (modify change') :=
  fun s t alike => .ok rfl (changed s t alike)

theorem Corresponds.ensuring {inner : Here} {restore restore' : State → State}
    (restored : ∀ s t, s.Twin r inner t → (restore s).Twin r here (restore' t))
    {s t : State} (follows : Corresponds r inner related (a one s) (b other t)) :
    Corresponds r here related (Evaluation.ensuring restore a one s)
      (Evaluation.ensuring restore' b other t) := by
  unfold Evaluation.ensuring
  generalize a one s = result at follows ⊢
  generalize b other t = result' at follows ⊢
  cases follows with
  | ok same alike => exact .ok same (restored _ _ alike)
  | error => exact .error

theorem Corresponds.amending {amend amend' : Diagnostic → Diagnostic} {s t : State}
    (follows : Corresponds r here related (a one s) (b other t)) :
    Corresponds r here related (Evaluation.amending amend a one s)
      (Evaluation.amending amend' b other t) := by
  unfold Evaluation.amending
  generalize a one s = result at follows ⊢
  generalize b other t = result' at follows ⊢
  cases follows with
  | ok same alike => exact .ok same alike
  | error => exact .error

/-- The state is changed before an action. -/
theorem follows_entering {change change' : State → State}
    (changed : ∀ s t, s.Twin r here t → (change s).Twin r here (change' t))
    (follows : Follows r here related a b) :
    Follows r here related (do modify change; a) (do modify change'; b) :=
  (Follows.modify changed).step fun _ => follows

/-- Something is done between a change of the state and its restoration. -/
theorem follows_between {inner : Here} {change change' restore restore' : State → State}
    (changed : ∀ s t, s.Twin r here t → (change s).Twin r inner (change' t))
    (restored : ∀ s t, s.Twin r inner t → (restore s).Twin r here (restore' t))
    (follows : Follows r inner related a b) :
    Follows r here related (do modify change; ensuring restore a)
      (do modify change'; ensuring restore' b) :=
  fun s t alike => .ensuring restored (follows _ _ (changed s t alike))

theorem Follows.ofValue {line : Nat} {span : Span} {result : Except ValueError α} :
    Follows r here Eq (ofValue line span result) (ofValue line span result) := by
  unfold Evaluation.ofValue
  split
  · exact .pure rfl
  · exact .throw

theorem Follows.modifyEnv {change change' : Environment → Environment}
    (changed : ∀ env env' : Environment, env.unnamed = env'.unnamed →
      (change env).unnamed = (change' env').unnamed)
    (known : ∀ env, r.Knows env → r.Knows (change env)) :
    Follows r here Eq (modifyEnv change) (modifyEnv change') :=
  .modify fun _ _ alike =>
    { alike with env := changed _ _ alike.env, known := known _ alike.known }

theorem Follows.declare {scope : ScopeId} {name : String} {value : Value} :
    Follows r here Eq (Evaluation.modifyEnv (·.declare scope name value))
      (Evaluation.modifyEnv (·.declare scope name value)) := by
  refine .modifyEnv (fun env env' same => ?_) fun env known => known.declare scope name value
  rw [env.unnamed_declare, env'.unnamed_declare, same]

theorem Follows.logEntries {entries entries' : Log} :
    Follows r here Eq (logEntries entries) (logEntries entries') :=
  .modify fun _ _ alike => { alike with }

theorem Follows.warn {warning warning' : Diagnostic} :
    Follows r here Eq (warn warning) (warn warning') := by
  unfold Evaluation.warn
  refine .options ?_
  refine .ite (Follows.logEntries.step fun _ => .modify fun s t alike => ?_)
    (.modify fun s t alike => ?_)
  · exact { alike with }
  · exact { alike with }

theorem Follows.inScope {scope : ScopeId} {action : ScopeId → Evaluating α}
    {action' : ScopeId → Evaluating β}
    (follows : ∀ inner, Follows r here related (action inner) (action' inner)) :
    Follows r here related (inScope scope action) (inScope scope action') := by
  have opens : Follows r here Eq (pushScope scope) (pushScope scope) := by
    intro s t alike
    have same : (s.env.push scope).2 = (t.env.push scope).2 := by
      rw [← s.env.push_unnamed scope, ← t.env.push_unnamed scope, alike.env]
    have env : (s.env.push scope).1.unnamed = (t.env.push scope).1.unnamed := by
      rw [s.env.unnamed_push, t.env.unnamed_push, alike.env]
    exact .ok same { alike with env, known := alike.known.push scope }
  refine opens.step fun inner s t alike => .ensuring (fun s t alike => ?_) (follows inner s t alike)
  have env : (s.env.pop inner).unnamed = (t.env.pop inner).unnamed := by
    rw [s.env.unnamed_pop, t.env.unnamed_pop, alike.env]
  exact { alike with env, known := alike.known.pop inner }

theorem Follows.duringCall {call call' : Call} (same : call.unnamed = call'.unnamed)
    (follows : Follows r here related a b) :
    Follows r here related (duringCall call a) (duringCall call' b) := by
  refine follows_between (fun s t alike => ?_) (fun s t alike => ?_) follows
  · have env : (s.env.enterCall call).unnamed = (t.env.enterCall call').unnamed := by
      rw [s.env.unnamed_enterCall, t.env.unnamed_enterCall, alike.env, same]
    exact { alike with env, known := alike.known }
  · have env : s.env.leaveCall.unnamed = t.env.leaveCall.unnamed := by
      rw [s.env.unnamed_leaveCall, t.env.unnamed_leaveCall, alike.env]
    exact { alike with env, known := alike.known }

theorem Follows.inside {parent : Enclosure} (follows : Follows r here related a b) :
    Follows r here related (inside parent a) (inside parent b) := by
  refine .get fun _ _ before => follows_between (fun s t alike => ?_) (fun s t alike => ?_) follows
  · exact { alike with parent := rfl }
  · exact { alike with parent := before.parent }

theorem Follows.forStatement {line : Nat} {filename filename' : Option String}
    (follows : Follows r here related a b) :
    Follows r here related (forStatement line filename a) (forStatement line filename' b) := by
  refine .get fun _ _ _ => ?_
  refine follows_entering (fun s t alike => ?_) fun s t alike =>
    .amending (.ensuring (fun s t alike => ?_) (follows s t alike))
  · exact { alike with }
  · exact { alike with }

theorem Follows.inFile {file file' : SourceId} (same : r.matched (some file) (some file'))
    (follows : Follows r (here.entering file file') related a b) :
    Follows r here related (inFile file a) (inFile file' b) := by
  refine .get fun _ _ before => follows_between (fun s t alike => ?_) (fun s t alike => ?_) follows
  · exact { alike with files := rfl, isMatched := same }
  · exact { alike with files := before.files, isMatched := before.isMatched }

end Rules

/-- Outcomes that differ in the names of files. -/
structure Outcome.Twin (first second : Outcome) : Prop where
  css : Css.unnamedAll first.css = Css.unnamedAll second.css
  returned : first.returned = second.returned

theorem Outcome.Twin.refl (outcome : Outcome) : outcome.Twin outcome :=
  ⟨rfl, rfl⟩

/-- What two runners do corresponds, whatever is being imported. -/
structure Runner.Twin (r : Relocation one other) (run run' : Runner) : Prop where
  expr : ∀ here e scope, Follows r here Eq (run.expr e scope) (run'.expr e scope)
  body : ∀ here body body' scope, withFilenames none body = withFilenames none body' →
    AllAsk r.asked here.file.1 body → Follows r here Outcome.Twin (run.body body scope) (run'.body body' scope)

/-- A mixin or function in other files. -/
theorem Callable.exists_body {callable callable' : Callable}
    (same : callable.unnamed = callable'.unnamed) :
    ∃ body, callable' = { callable with body } ∧
      withFilenames none callable.body = withFilenames none body := by
  obtain ⟨kind, name, params, scope, body⟩ := callable
  obtain ⟨kind', name', params', scope', body'⟩ := callable'
  obtain ⟨rfl, rfl, rfl, rfl, bodies⟩ := Callable.mk.inj same
  exact ⟨body', rfl, bodies⟩

section Calls

variable {here : Here} {run run' : Runner}

/-- A mixin or function that is looked up is the same on both sides, up to its files. -/
theorem exists_of_lookup_twin {found found' : Option Callable} {callable : Callable}
    (same : found.map Callable.unnamed = found'.map Callable.unnamed)
    (isFound : found = some callable) :
    ∃ body, found' = some { callable with body } ∧
      withFilenames none callable.body = withFilenames none body := by
  subst isFound
  cases found' with
  | none => cases same
  | some callable' =>
    obtain ⟨body, rfl, bodies⟩ := Callable.exists_body (Option.some.inj same)
    exact ⟨body, rfl, bodies⟩

theorem Follows.checkDepth {line : Nat} {span : Span} :
    Follows r here Eq (checkDepth line span) (checkDepth line span) := by
  refine .options (.get fun s t alike => ?_)
  have depth : s.env.calls.length = t.env.calls.length := by
    rw [← s.env.length_calls_unnamed, alike.env, t.env.length_calls_unnamed]
  rw [depth]
  exact .ite .throw (.pure rfl)

theorem Follows.bindParams (alike : Runner.Twin r run run') {callable callable' : Callable}
    {scope : ScopeId} {fail fail' : String → Diagnostic} (params : List Param) (values : List Value)
    (keywords : List (String × Value)) :
    Follows r here Eq (bindParams run callable scope fail params values keywords)
      (bindParams run' callable' scope fail' params values keywords) := by
  induction params generalizing values keywords with
  | nil => exact .pure rfl
  | cons param params ih =>
    cases values with
    | cons value values => exact Follows.declare.step fun _ => ih values keywords
    | nil =>
      unfold Evaluation.bindParams
      split
      · exact Follows.declare.step fun _ => ih [] _
      · split
        · refine (alike.expr here _ scope).step fun value => ?_
          exact Follows.declare.step fun _ => ih [] keywords
        · exact .throw

theorem Follows.withArguments (alike : Runner.Twin r run run') {related : α → β → Prop}
    {callable : Callable} {body : List Statement} {positional : List Value}
    {keywords : List (String × Value)} {line : Nat} {span : Span}
    {action : ScopeId → Evaluating α} {action' : ScopeId → Evaluating β}
    (follows : ∀ scope, Follows r here related (action scope) (action' scope)) :
    Follows r here related (withArguments run callable positional keywords line span action)
      (withArguments run' { callable with body } positional keywords line span action') := by
  have same : misfit? { callable with body } positional.length (keywords.map (·.1)) =
      misfit? callable positional.length (keywords.map (·.1)) := rfl
  unfold Evaluation.withArguments
  rw [same]
  dsimp only
  split
  · exact .throw
  · exact .inScope fun scope => (Follows.bindParams alike _ _ _).step fun _ => follows scope

theorem Follows.callFunction (alike : Runner.Twin r run run') {function : Callable}
    {body : List Statement} (bodies : withFilenames none function.body = withFilenames none body)
    (asks : ∀ base, AllAsk r.asked base function.body) {positional : List Value} {keywords : List (String × Value)}
    {line : Nat} {span : Span} :
    Follows r here Eq (callFunction run function positional keywords line span)
      (callFunction run' { function with body } positional keywords line span) := by
  refine Follows.checkDepth.step fun _ => .get fun s t _ => ?_
  have called : Follows r here Outcome.Twin
      (Evaluation.duringCall ⟨.function, function.name, line, s.filename⟩
        (Evaluation.withArguments run function positional keywords line span
          (run.body function.body)))
      (Evaluation.duringCall ⟨.function, function.name, line, t.filename⟩
        (Evaluation.withArguments run' { function with body } positional keywords line span
          (run'.body body))) :=
    .duringCall rfl (.withArguments alike fun scope =>
      alike.body here function.body body scope bodies (asks _))
  refine called.bind fun first second outcome => ?_
  rw [outcome.returned]
  cases second.returned with
  | none => exact .throw
  | some value => exact .pure rfl

theorem Follows.plainCall {name : String} {positional : List Value}
    {keywords : List (String × Value)} {line : Nat} {span : Span} :
    Follows r here Eq (plainCall name positional keywords line span)
      (plainCall name positional keywords line span) := by
  unfold Evaluation.plainCall
  split
  · exact .throw
  · exact .options (Follows.ofValue.step fun _ => .pure rfl)

theorem Follows.call (alike : Runner.Twin r run run') {scope : ScopeId} {name : String}
    {positional : List Value} {keywords : List (String × Value)} {line : Nat} {span : Span} :
    Follows r here Eq (call run scope name positional keywords line span)
      (call run' scope name positional keywords line span) := by
  refine .get fun s t states => ?_
  have same : (s.env.function? scope name).map Callable.unnamed =
      (t.env.function? scope name).map Callable.unnamed := by
    rw [← s.env.function?_unnamed, states.env, t.env.function?_unnamed]
  cases found : s.env.function? scope name with
  | some function =>
    obtain ⟨body, isFound, bodies⟩ := exists_of_lookup_twin same found
    rw [isFound]
    exact .callFunction alike bodies (states.known.function? found).known
  | none =>
    rw [found, Option.map_none, eq_comm, Option.map_eq_none_iff] at same
    rw [same]
    dsimp only
    split
    · exact .plainCall
    · split
      · exact .pure rfl
      · exact .throw
      · exact .throw

theorem Follows.lookUp {scope : ScopeId} {name : String} {line : Nat} {span : Span} :
    Follows r here Eq (lookUp scope name line span) (lookUp scope name line span) := by
  refine .get fun s t states => ?_
  have same : s.env.valueOf? scope name = t.env.valueOf? scope name := by
    rw [← s.env.valueOf?_unnamed, states.env, t.env.valueOf?_unnamed]
  rw [same]
  split
  · exact .pure rfl
  · exact .throw

theorem Follows.cssText {e : Expr} {value : Value} :
    Follows r here Eq (cssText e value) (cssText e value) :=
  .options .ofValue

theorem Follows.interpolatedText {e : Expr} {value : Value} :
    Follows r here Eq (interpolatedText e value) (interpolatedText e value) :=
  .options .ofValue

end Calls

section Expressions

variable {here : Here} {run run' : Runner}

mutual

theorem follows_expr (alike : Runner.Twin r run run') (scope : ScopeId) :
    (e : Expr) → Follows r here Eq (expr run scope e) (expr run' scope e)
  | .mk (.literal value) _ _ => .pure rfl
  | .mk (.variable name) _ _ => .lookUp
  | .mk (.text quoted parts) _ _ => (follows_template alike scope parts).step fun _ => .pure rfl
  | .mk (.interpolation before middle behind _ _) _ _ => by
    refine (follows_side alike scope before).step fun _ => ?_
    refine (follows_expr alike scope middle).step fun _ => ?_
    refine Follows.interpolatedText.step fun _ => ?_
    exact (follows_side alike scope behind).step fun _ => .pure rfl
  | .mk (.list items _) _ _ => (follows_exprs alike scope items).step fun _ => .pure rfl
  | .mk (.binary op left right) _ _ => by
    refine (follows_expr alike scope left).step fun _ => .ite (.pure rfl) ?_
    exact (follows_expr alike scope right).step fun _ => .ofValue
  | .mk (.unary _ operand) _ _ => (follows_expr alike scope operand).step fun _ => .ofValue
  | .mk (.call name (.mk positional keywords)) _ _ =>
    (follows_exprs alike scope positional).step fun _ =>
      (follows_namedExprs alike scope keywords).step fun _ => .call alike
  | .mk (.paren inner) _ _ => (follows_expr alike scope inner).step fun _ => .pure rfl

theorem follows_side (alike : Runner.Twin r run run') (scope : ScopeId) :
    (e : Option Expr) → Follows r here Eq (side run scope e) (side run' scope e)
  | none => .pure rfl
  | some e => (follows_expr alike scope e).step fun _ => .cssText

theorem follows_exprs (alike : Runner.Twin r run run') (scope : ScopeId) :
    (items : List Expr) → Follows r here Eq (exprs run scope items) (exprs run' scope items)
  | [] => .pure rfl
  | e :: rest => (follows_expr alike scope e).step fun _ =>
      (follows_exprs alike scope rest).step fun _ => .pure rfl

theorem follows_namedExprs (alike : Runner.Twin r run run') (scope : ScopeId) :
    (items : List (String × Expr)) →
      Follows r here Eq (namedExprs run scope items) (namedExprs run' scope items)
  | [] => .pure rfl
  | (_, e) :: rest => (follows_expr alike scope e).step fun _ =>
      (follows_namedExprs alike scope rest).step fun _ => .pure rfl

theorem follows_template (alike : Runner.Twin r run run') (scope : ScopeId) :
    (parts : List Part) → Follows r here Eq (template run scope parts) (template run' scope parts)
  | [] => .pure rfl
  | .text _ :: rest => (follows_template alike scope rest).step fun _ => .pure rfl
  | .expr e :: rest => (follows_expr alike scope e).step fun _ =>
      Follows.interpolatedText.step fun _ =>
        (follows_template alike scope rest).step fun _ => .pure rfl

end

theorem Follows.arguments (alike : Runner.Twin r run run') {scope : ScopeId} {args : Arguments} :
    Follows r here Eq (arguments run scope args) (arguments run' scope args) :=
  (follows_exprs alike scope args.positional).step fun _ =>
    (follows_namedExprs alike scope args.keywords).step fun _ => .pure rfl

end Expressions

section Loops

variable {here : Here} {run run' : Runner} {runs runs' : List (List Css)}

theorem gather_twin (same : runs.map Css.unnamedAll = runs'.map Css.unnamedAll)
    (returned : Option Value) : (gather runs returned).Twin (gather runs' returned) := by
  have joined : ∀ runs : List (List Css),
      Css.unnamedAll runs.reverse.flatten = (runs.map Css.unnamedAll).reverse.flatten := by
    intro runs
    simp only [List.map_flatten, List.map_reverse, funext Css.unnamedAll_eq_map]
  refine ⟨?_, rfl⟩
  unfold gather
  rw [joined, joined, same]

/-- A loop goes on or ends after a run of its body. -/
theorem Follows.goOn {first second : Outcome} {more more' : Evaluating Outcome}
    (outcomes : first.Twin second) (same : runs.map Css.unnamedAll = runs'.map Css.unnamedAll)
    (rest : (first.css :: runs).map Css.unnamedAll = (second.css :: runs').map Css.unnamedAll →
      Follows r here Outcome.Twin more more') :
    Follows r here Outcome.Twin
      (match first.returned with
        | some value => Pure.pure (gather (first.css :: runs) (some value))
        | none => more)
      (match second.returned with
        | some value => Pure.pure (gather (second.css :: runs') (some value))
        | none => more') := by
  have both : (first.css :: runs).map Css.unnamedAll = (second.css :: runs').map Css.unnamedAll := by
    rw [List.map_cons, List.map_cons, outcomes.css, same]
  rw [outcomes.returned]
  cases second.returned with
  | none => exact rest both
  | some value => exact .pure (gather_twin both _)

theorem Follows.whileHolds {condition condition' : Evaluating Bool} {body body' : Evaluating Outcome}
    {tooMany tooMany' : Diagnostic} (test : Follows r here Eq condition condition')
    (once : Follows r here Outcome.Twin body body') (remaining : Nat)
    (same : runs.map Css.unnamedAll = runs'.map Css.unnamedAll) :
    Follows r here Outcome.Twin (whileHolds condition body tooMany runs remaining)
      (whileHolds condition' body' tooMany' runs' remaining) := by
  induction remaining generalizing runs runs' with
  | zero => exact test.step fun _ => .ite .throw (.pure (gather_twin same _))
  | succ remaining ih =>
    refine test.step fun _ => .ite (once.bind fun first second outcomes => ?_)
      (.pure (gather_twin same _))
    exact .goOn outcomes same ih

theorem Follows.forIntegers {body body' : Int → Evaluating Outcome}
    (once : ∀ i, Follows r here Outcome.Twin (body i) (body' i)) (remaining : Nat) {next : Int}
    (same : runs.map Css.unnamedAll = runs'.map Css.unnamedAll) :
    Follows r here Outcome.Twin (forIntegers body runs next remaining)
      (forIntegers body' runs' next remaining) := by
  induction remaining generalizing runs runs' next with
  | zero => exact .pure (gather_twin same _)
  | succ remaining ih =>
    exact (once next).bind fun first second outcomes => .goOn outcomes same ih

theorem Follows.forValues {body body' : Value → Evaluating Outcome}
    (once : ∀ value, Follows r here Outcome.Twin (body value) (body' value))
    (values : List Value) (same : runs.map Css.unnamedAll = runs'.map Css.unnamedAll) :
    Follows r here Outcome.Twin (forValues body runs values) (forValues body' runs' values) := by
  induction values generalizing runs runs' with
  | nil => exact .pure (gather_twin same _)
  | cons value values ih =>
    exact (once value).bind fun first second outcomes => .goOn outcomes same ih

theorem Follows.wholeNumber {e : Expr} {value : Value} :
    Follows r here Eq (wholeNumber e value) (wholeNumber e value) := by
  unfold Evaluation.wholeNumber
  split
  · exact .ite (.pure rfl) .throw
  · exact .throw

variable {scope : ScopeId} {line : Nat} {span : Span} {body body' : ScopeId → Evaluating Outcome}

theorem Follows.loopWhile (alike : Runner.Twin r run run') {condition : Expr}
    (once : ∀ inner, Follows r here Outcome.Twin (body inner) (body' inner)) :
    Follows r here Outcome.Twin (loopWhile run scope line span condition body)
      (loopWhile run' scope line span condition body') :=
  .options (.inScope fun inner => .whileHolds
    ((follows_expr alike inner condition).step fun _ => .pure rfl) (once inner) _ rfl)

theorem Follows.loopCount (alike : Runner.Twin r run run') {counter : String} {start stop : Expr}
    {inclusive : Bool}
    (once : ∀ inner, Follows r here Outcome.Twin (body inner) (body' inner)) :
    Follows r here Outcome.Twin (loopCount run scope line span counter start stop inclusive body)
      (loopCount run' scope line span counter start stop inclusive body') := by
  refine (follows_expr alike scope start).step fun _ => Follows.wholeNumber.step fun _ => ?_
  refine (follows_expr alike scope stop).step fun _ => Follows.wholeNumber.step fun _ => ?_
  refine Follows.ofValue.step fun _ => .options (.ite .throw ?_)
  exact .inScope fun inner =>
    .forIntegers (fun _ => Follows.declare.step fun _ => once inner) _ rfl

theorem Follows.loopEach (alike : Runner.Twin r run run') {item : String} {list : Expr}
    (once : ∀ inner, Follows r here Outcome.Twin (body inner) (body' inner)) :
    Follows r here Outcome.Twin (loopEach run scope line span item list body)
      (loopEach run' scope line span item list body') := by
  refine (follows_expr alike scope list).step fun _ => .options (.ite .throw ?_)
  exact .inScope fun inner => .forValues (fun _ => Follows.declare.step fun _ => once inner) _ rfl

end Loops

section Imports

variable {here : Here} {run run' : Runner}

/-- A stylesheet is being imported on both sides or on none. -/
theorem State.Twin.active {s t : State} (alike : s.Twin r here t) {id id' : SourceId}
    (same : r.matched (some id) (some id')) : id ∈ s.importStack ↔ id' ∈ t.importStack := by
  rw [alike.first, alike.second, List.mem_filterMap, List.mem_filterMap]
  constructor
  · rintro ⟨⟨_, second⟩, member, rfl⟩
    have isSecond := (r.oneToOne (alike.areMatched _ member) same).mp rfl
    exact ⟨_, member, isSecond⟩
  · rintro ⟨⟨first, _⟩, member, rfl⟩
    have isFirst := (r.oneToOne (alike.areMatched _ member) same).mpr rfl
    exact ⟨_, member, isFirst⟩

theorem dropWhile_eq_nil_iff {imports : List SourceId} {id : SourceId} :
    imports.dropWhile (· != id) = [] ↔ id ∉ imports := by
  rw [List.dropWhile_eq_nil_iff]
  constructor
  · intro all member
    simpa using all id member
  · rintro fresh other member
    rw [bne_iff_ne]
    rintro rfl
    exact fresh member

/-- Importing goes on below, unless the stylesheet is being imported already. -/
theorem Follows.enterImport {related : α → β → Prop} {id id' : SourceId} {line : Nat} {span : Span}
    {a : Evaluating α} {b : Evaluating β} (same : r.matched (some id) (some id'))
    (inner : ∀ s t, s.Twin r (here.importing id id') t →
      Corresponds r here related (a one s) (b other t)) :
    Follows r here related (do Evaluation.enterImport id line span; a)
      (do Evaluation.enterImport id' line span; b) := by
  simp only [Evaluation.enterImport, bind_assoc]
  refine .get fun s t alike => ?_
  have active := alike.active same
  by_cases isActive : id ∈ s.importStack
  · obtain ⟨x, xs, more⟩ := List.exists_cons_of_ne_nil (mt dropWhile_eq_nil_iff.mp (not_not.mpr isActive))
    obtain ⟨y, ys, more'⟩ :=
      List.exists_cons_of_ne_nil (mt dropWhile_eq_nil_iff.mp (not_not.mpr (active.mp isActive)))
    rw [more, more']
    exact .throw
  · rw [dropWhile_eq_nil_iff.mpr isActive, dropWhile_eq_nil_iff.mpr (mt active.mpr isActive)]
    intro _ _ _
    refine inner _ _ { alike with first := ?_, second := ?_, areMatched := ?_ }
    · rw [here.first_importing, ← alike.first]
    · rw [here.second_importing, ← alike.second]
    · intro pair member
      rcases List.mem_append.mp member with below | last
      · exact alike.areMatched pair below
      · rw [List.mem_singleton.mp last]
        exact same

theorem State.Twin.leaveImport {s t : State} {id id' : SourceId} 
    (inner : s.Twin r (here.importing id id') t) :
    State.Twin r here { s with importStack := s.importStack.dropLast }
      { t with importStack := t.importStack.dropLast } := by
  refine { inner with first := ?_, second := ?_, areMatched := ?_ }
  · rw [inner.first, here.first_importing]
    exact List.dropLast_concat
  · rw [inner.second, here.second_importing]
    exact List.dropLast_concat
  · exact fun pair member => inner.areMatched pair (List.mem_append_left _ member)

theorem Follows.firstError {result result' : Except (List Diagnostic) Unit}
    (same : result.isOk = result'.isOk) :
    Follows r here Eq (firstError result) (firstError result') := by
  cases result with
  | ok => cases result' with
    | ok => exact .pure rfl
    | error => cases same
  | error => cases result' with
    | ok => cases same
    | error => exact .throw

theorem Follows.importSource (alike : Runner.Twin r run run') {scope : ScopeId} {id id' : SourceId}
    {contents canonical canonical' : String} {dialect : Dialect}
    (same : r.matched (some id) (some id'))
    (asks : ∀ root, parse contents dialect none = .ok root →
      AllAsk r.asked (some id) root.children) :
    Follows r here Outcome.Twin (importSource run scope id ⟨contents, dialect, canonical⟩)
      (importSource run' scope id' ⟨contents, dialect, canonical'⟩) := by
  refine follows_entering (fun _ _ states => { states with }) ?_
  rcases parse_filenames contents dialect with ⟨raw, parsed⟩ | ⟨error, failed⟩
  · rw [parsed, parsed]
    have bodies : ∀ filename, (raw.withFilename filename).children =
        withFilenames filename raw.children := raw.children_withFilename
    have below : AllAsk r.asked (some id) (withFilenames (some canonical) raw.children) := by
      have top := asks _ (parsed none)
      rw [bodies, allAsk_withFilenames] at top
      rwa [allAsk_withFilenames]
    have known : Follows r (here.entering id id') Outcome.Twin
        (run.body (raw.withFilename (some canonical)).children scope)
        (run'.body (raw.withFilename (some canonical')).children scope) := by
      rw [bodies, bodies]
      refine alike.body (here.entering id id') _ _ scope ?_ below
      rw [withFilenames_withFilenames, withFilenames_withFilenames]
    simp only [lift, pure_bind]
    refine .get fun s t states => ?_
    rw [states.parent]
    refine (Follows.firstError ?_).step fun _ => ?_
    · rw [bodies, bodies]
      exact Nesting.checkImported_withFilenames _ _ _ _
    · exact (Follows.inFile same known).bind fun first second outcomes => .pure ⟨outcomes.css, rfl⟩
  · rw [failed, failed]
    exact .throw

theorem Follows.importStylesheet (alike : Runner.Twin r run run') {scope : ScopeId} {line : Nat}
    {span : Span} {filename filename' : Option String} {uri : String} (asked : r.asked here.file.1 uri) :
    Follows r here Outcome.Twin (importStylesheet run scope line span filename uri)
      (importStylesheet run' scope line span filename' uri) := by
  refine .read (.get fun s t states => ?_)
  have isBase : s.file = here.file.1 := congrArg Prod.fst states.files
  have finds := r.finds (isBase ▸ asked) states.isMatched
  generalize Importers.resolve one.files one.importers uri s.file = result at finds ⊢
  generalize Importers.resolve other.files other.importers uri t.file = result' at finds ⊢
  obtain ⟨found, _⟩ := result
  obtain ⟨found', _⟩ := result'
  dsimp only at finds ⊢
  refine Follows.logEntries.step fun _ => ?_
  cases finds with
  | unreadable => exact .throw
  | missing => exact .throw
  | found same asks =>
    refine .enterImport same fun s t states => .amending ?_
    exact .ensuring
      (fun _ _ (inner : State.Twin r (here.importing _ _) _ _) => inner.leaveImport)
      (Follows.importSource alike same asks s t states)

end Imports

section Statements

variable {here : Here} {run run' : Runner} {scope : ScopeId} {line : Nat} {span : Span}
  {filename filename' : Option String}

/-- A node that comes from the same statement on both sides. -/
theorem twin_ofCss (kind : CssKind) {children children' : List Css}
    (same : Css.unnamedAll children = Css.unnamedAll children') :
    (Outcome.ofCss (Place.node ⟨line, span, filename⟩ kind children)).Twin
      (Outcome.ofCss (Place.node ⟨line, span, filename'⟩ kind children')) := by
  refine ⟨?_, rfl⟩
  simp only [Outcome.ofCss, Place.node, Css.node, Css.unnamedAll, Css.unnamed, same]

theorem Follows.trimmedText (alike : Runner.Twin r run run') {parts : Template} :
    Follows r here Eq (trimmedText run scope parts) (trimmedText run' scope parts) :=
  (follows_template alike scope parts).step fun _ => .pure rfl

theorem Follows.selectorOf (alike : Runner.Twin r run run') {selector : Template} :
    Follows r here Eq (selectorOf run scope ⟨line, span, filename⟩ selector)
      (selectorOf run' scope ⟨line, span, filename'⟩ selector) := by
  refine (follows_template alike scope selector).step fun text => ?_
  dsimp only
  split
  · exact .pure rfl
  · exact .throw

theorem Follows.nested {parent : Enclosure} {body body' : ScopeId → Evaluating Outcome}
    (once : ∀ inner, Follows r here Outcome.Twin (body inner) (body' inner)) :
    Follows r here (fun first second => Css.unnamedAll first = Css.unnamedAll second)
      (nested parent scope body) (nested parent scope body') :=
  (Follows.inside (.inScope once)).bind fun _ _ outcomes => .pure outcomes.css

/-- A statement with its block gives a node. -/
theorem follows_block {parent : Enclosure} {body body' : ScopeId → Evaluating Outcome}
    (kind : CssKind)
    (once : ∀ inner, Follows r here Outcome.Twin (body inner) (body' inner)) :
    Follows r here Outcome.Twin
      (do return .ofCss (Place.node ⟨line, span, filename⟩ kind (← nested parent scope body)))
      (do return .ofCss (Place.node ⟨line, span, filename'⟩ kind (← nested parent scope body'))) :=
  (Follows.nested once).bind fun _ _ same => .pure (twin_ofCss kind same)

theorem Follows.property (alike : Runner.Twin r run run') {name : Template} {value : Option Expr}
    {body body' : ScopeId → Evaluating Outcome}
    (once : ∀ inner, Follows r here Outcome.Twin (body inner) (body' inner)) :
    Follows r here Outcome.Twin (property run scope ⟨line, span, filename⟩ name value body)
      (property run' scope ⟨line, span, filename'⟩ name value body') := by
  refine (Follows.trimmedText alike).step fun name => ?_
  cases value with
  | none => exact (Follows.pure rfl).step fun value => follows_block _ once
  | some e =>
    refine (follows_expr alike scope e).step fun value => Follows.cssText.step fun _ => ?_
    exact (Follows.pure rfl).step fun _ => follows_block _ once

theorem Follows.includeMixin (alike : Runner.Twin r run run') {name : String} {args : Arguments} :
    Follows r here Outcome.Twin (includeMixin run scope ⟨line, span, filename⟩ name args)
      (includeMixin run' scope ⟨line, span, filename'⟩ name args) := by
  refine .get fun s t states => ?_
  have loops : s.env.includeLoop? name = t.env.includeLoop? name := by
    rw [← s.env.includeLoop?_unnamed, states.env, t.env.includeLoop?_unnamed]
  have same : (s.env.mixin? scope name).map Callable.unnamed =
      (t.env.mixin? scope name).map Callable.unnamed := by
    rw [← s.env.mixin?_unnamed, states.env, t.env.mixin?_unnamed]
  dsimp only
  rw [loops]
  split
  · exact .throw
  · cases found : s.env.mixin? scope name with
    | none =>
      rw [found, Option.map_none, eq_comm, Option.map_eq_none_iff] at same
      rw [same]
      exact .throw
    | some mixin =>
      obtain ⟨body, isFound, bodies⟩ := exists_of_lookup_twin same found
      have asks := (states.known.mixin? found).known
      rw [isFound]
      have calls : Call.unnamed ⟨.mixin, name, line, filename⟩ =
          Call.unnamed ⟨.mixin, name, line, filename'⟩ := rfl
      refine Follows.checkDepth.step fun _ s t states => .amending ?_
      refine Follows.duringCall calls ?_ s t states
      refine (Follows.arguments alike).step fun given => ?_
      have included : Follows r here Outcome.Twin
          (Evaluation.withArguments run mixin given.1 given.2 line span (run.body mixin.body))
          (Evaluation.withArguments run' { mixin with body } given.1 given.2 line span
            (run'.body body)) :=
        .withArguments alike fun inner => alike.body here mixin.body body inner bodies (asks _)
      exact included.bind fun first second outcomes => .pure ⟨outcomes.css, rfl⟩

theorem Follows.debugValue {value : Value} :
    Follows r here Eq (debugValue ⟨line, span, filename⟩ value)
      (debugValue ⟨line, span, filename'⟩ value) :=
  .options (.ite .logEntries (.pure rfl))

theorem Follows.assign (alike : Runner.Twin r run run') {name : String} {value : Expr}
    {guarded : Bool} :
    Follows r here Eq (assign run scope name value guarded)
      (assign run' scope name value guarded) := by
  refine .get fun s t states => ?_
  have same : s.env.valueOf? scope name = t.env.valueOf? scope name := by
    rw [← s.env.valueOf?_unnamed, states.env, t.env.valueOf?_unnamed]
  rw [same]
  refine .ite (.pure rfl) ((follows_expr alike scope value).step fun value => .modifyEnv ?_ ?_)
  · intro env env' envs
    rw [env.unnamed_assign, env'.unnamed_assign, envs]
  · exact fun env known => known.assign scope name value

theorem Follows.define {kind : CallableKind} {name : String} {params : List Param}
    {body body' : List Statement} (bodies : withFilenames none body = withFilenames none body')
    (asks : ∀ base, AllAsk r.asked base body) :
    Follows r here Eq (define kind name params scope body) (define kind name params scope body') := by
  refine .modifyEnv (fun env env' envs => ?_) fun env known => known.define scope asks
  rw [env.unnamed_define, env'.unnamed_define, envs, Callable.unnamed, Callable.unnamed, bodies]

theorem Follows.isTaken (alike : Runner.Twin r run run') {condition : Option Expr} :
    Follows r here Eq (isTaken run scope condition) (isTaken run' scope condition) := by
  cases condition with
  | none => exact .pure rfl
  | some e => exact (follows_expr alike scope e).step fun _ => .pure rfl

theorem Follows.simpleStatement (alike : Runner.Twin r run run') {children children' : List Statement}
    (bodies : withFilenames none children = withFilenames none children')
    {body body' : ScopeId → Evaluating Outcome}
    (once : ∀ inner, Follows r here Outcome.Twin (body inner) (body' inner))
    (kind : StatementKind)
    (asks : Asks r.asked here.file.1 (.mk kind children line span filename)) :
    Follows r here Outcome.Twin
      (simpleStatement run scope ⟨line, span, filename⟩ children body kind)
      (simpleStatement run' scope ⟨line, span, filename'⟩ children' body' kind) := by
  have nothing : Follows r here Outcome.Twin (Pure.pure .nothing) (Pure.pure .nothing) :=
    .pure (.refl _)
  unfold Evaluation.simpleStatement
  cases kind with
  | root => exact once scope
  | rule selector => exact (Follows.selectorOf alike).step fun _ => follows_block _ once
  | property name value => exact .property alike once
  | comment text silent =>
    refine .ite nothing ((follows_template alike scope text).step fun text => ?_)
    exact .pure (twin_ofCss _ rfl)
  | directive name params hasBlock =>
    exact (Follows.trimmedText alike).step fun _ => follows_block _ once
  | media query => exact (Follows.trimmedText alike).step fun _ => follows_block _ once
  | charset name => exact .pure (twin_ofCss _ rfl)
  | importing target =>
    cases target with
    | stylesheet uri => exact .importStylesheet alike asks.1
    | css text => exact (Follows.trimmedText alike).step fun _ => .pure (twin_ofCss _ rfl)
  | assign name value guarded => exact (Follows.assign alike).step fun _ => nothing
  | defineMixin name params => exact (Follows.define bodies asks).step fun _ => nothing
  | defineFunction name params => exact (Follows.define bodies asks).step fun _ => nothing
  | includeMixin name args => exact .includeMixin alike
  | returning value => exact (follows_expr alike scope value).step fun _ => .pure (.refl _)
  | extend selector =>
    exact (Follows.selectorOf alike).step fun _ => .pure (twin_ofCss _ rfl)
  | branch condition otherwise => exact nothing
  | loopWhile condition => exact .loopWhile alike once
  | loopCount counter start stop inclusive => exact .loopCount alike once
  | loopEach item list => exact .loopEach alike once
  | debug value =>
    exact (follows_expr alike scope value).step fun _ => Follows.debugValue.step fun _ => nothing
  | warn value =>
    refine (follows_expr alike scope value).step fun _ => ?_
    exact Follows.bind (.get fun _ _ _ => .warn) fun _ _ _ => nothing

mutual

/-- The same statement in two files. By induction on the statement, which the other one follows. -/
theorem follows_statement (alike : Runner.Twin r run run') (scope : ScopeId) :
    (s t : Statement) → s.withFilename none = t.withFilename none →
      Asks r.asked here.file.1 s →
      Follows r here Outcome.Twin (statement run scope s) (statement run' scope t)
  | .mk kind children line span filename, t, same, asks => by
    obtain ⟨kind', children', filename', rfl, bodies, kinds⟩ := exists_of_withFilename same
    have block (inner : ScopeId) :=
      follows_statements alike inner children children' bodies asks.children
    rcases kinds with ⟨rfl, plain⟩ | ⟨condition, other, other', rfl, rfl, others⟩
    · rw [statement.eq_2 _ _ _ _ _ _ _ plain, statement.eq_2 _ _ _ _ _ _ _ plain]
      exact .forStatement (.simpleStatement alike bodies block kind asks)
    · rw [statement, statement]
      refine .forStatement ((Follows.isTaken alike).step fun _ => .ite (.inScope block) ?_)
      refine follows_otherBranch alike scope other other' others ?_
      rintro s rfl
      exact asks.1

theorem follows_otherBranch (alike : Runner.Twin r run run') (scope : ScopeId) :
    (o o' : Option Statement) → o.map (withFilename none) = o'.map (withFilename none) →
      (∀ s, o = some s → Asks r.asked here.file.1 s) →
      Follows r here Outcome.Twin (otherBranch run scope o) (otherBranch run' scope o')
  | none, none, _, _ => .pure (.refl _)
  | none, some _, same, _ => by cases same
  | some _, none, same, _ => by cases same
  | some s, some t, same, asks =>
    follows_statement alike scope s t (Option.some.inj same) (asks s rfl)

theorem follows_statements (alike : Runner.Twin r run run') (scope : ScopeId) :
    (body body' : List Statement) → withFilenames none body = withFilenames none body' →
      AllAsk r.asked here.file.1 body →
      Follows r here Outcome.Twin (statements run scope body) (statements run' scope body')
  | [], [], _, _ => .pure (.refl _)
  | [], _ :: _, same, _ => by cases same
  | _ :: _, [], same, _ => by cases same
  | s :: rest, t :: rest', same, asks => by
    obtain ⟨heads, tails⟩ := List.cons.inj same
    refine (follows_statement alike scope s t heads asks.1).bind fun first second outcomes => ?_
    rw [outcomes.returned]
    cases second.returned with
    | some value => exact .pure ⟨outcomes.css, rfl⟩
    | none =>
      have behind := follows_statements alike scope rest rest' tails asks.2
      refine behind.bind fun more more' others => .pure ⟨?_, others.returned⟩
      rw [Css.unnamedAll_append, Css.unnamedAll_append, outcomes.css, others.css]

end

end Statements

/-- With as many calls and imports at a time, what goes on inside corresponds, too. -/
theorem runner_twin (depth : Nat) : Runner.Twin r (runner depth) (runner depth) := by
  induction depth with
  | zero => exact ⟨fun _ _ _ => .throw, fun _ _ _ _ _ _ => .throw⟩
  | succ depth ih =>
    exact ⟨fun _ e scope => follows_expr ih scope e,
      fun _ body body' scope same asks => follows_statements ih scope body body' same asks⟩

/-- A whole stylesheet gives the same tree up to the names of files, or fails in both contexts. -/
theorem stylesheet_follows {here : Here} (bound : depthBound one = depthBound other)
    {root : Statement} (asks : AllAsk r.asked here.file.1 root.children) :
    Follows r here (fun first second => first.unnamed = second.unnamed) (stylesheet root)
      (stylesheet root) := by
  refine .read ?_
  rw [← bound]
  have follows := follows_statements (runner_twin (depthBound one)) Environment.global
    root.children root.children rfl asks
  refine follows.bind fun first second outcomes => .pure ?_
  simp only [Css.node, Css.unnamed, outcomes.css]

end Evaluation

end Stylesheet
