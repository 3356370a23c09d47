import Stylesheet.Evaluation.Statement

/-! Evaluations from states with different scopes. Where corresponding scopes hold the same, and stay
so whatever is done in both, evaluation in one gives the same nodes, values and errors as in the
other. -/

namespace Stylesheet.Evaluation

/-- What is looked up on both sides: nothing, or the same mixin or function in corresponding
scopes. -/
inductive SameCallable (pairs : ScopeId → ScopeId → Prop) : Option Callable → Option Callable → Prop
  where
  | none : SameCallable pairs none none
  | some (callable : Callable) {scope : ScopeId} (paired : pairs callable.scope scope) :
      SameCallable pairs (some callable) (some { callable with scope })

/-- How environments correspond, such that whatever an evaluation does with corresponding scopes has
the same results and leads to environments that correspond again. -/
structure Pairing (rel : Environment → Environment → Prop) (pairs : ScopeId → ScopeId → Prop) :
    Prop where
  calls : ∀ {env env'}, rel env env' → env'.calls = env.calls
  valueOf? : ∀ {env env' id id'}, rel env env' → pairs id id' → ∀ name,
    env'.valueOf? id' name = env.valueOf? id name
  mixin? : ∀ {env env' id id'}, rel env env' → pairs id id' → ∀ name,
    SameCallable pairs (env.mixin? id name) (env'.mixin? id' name)
  function? : ∀ {env env' id id'}, rel env env' → pairs id id' → ∀ name,
    SameCallable pairs (env.function? id name) (env'.function? id' name)
  opens : ∀ {env env' id id'}, rel env env' → pairs id id' →
    pairs env.scopes.size env'.scopes.size ∧ rel (env.push id).1 (env'.push id').1
  closes : ∀ {env env' after after'}, rel env env' → rel after after' →
    rel (after.pop env.scopes.size) (after'.pop env'.scopes.size)
  declare : ∀ {env env' id id'}, rel env env' → pairs id id' → ∀ name value,
    rel (env.declare id name value) (env'.declare id' name value)
  assign : ∀ {env env' id id'}, rel env env' → pairs id id' → ∀ name value,
    rel (env.assign id name value) (env'.assign id' name value)
  define : ∀ {env env' id id'}, rel env env' → pairs id id' → ∀ kind name params body,
    rel (env.define id ⟨kind, name, params, id, body⟩)
      (env'.define id' ⟨kind, name, params, id', body⟩)
  enterCall : ∀ {env env'}, rel env env' → ∀ call, rel (env.enterCall call) (env'.enterCall call)
  leaveCall : ∀ {env env'}, rel env env' → rel env.leaveCall env'.leaveCall

variable {rel : Environment → Environment → Prop} {pairs : ScopeId → ScopeId → Prop}
  {context : Context}

/-- Two evaluations end in the same way, in states that differ in their environments only. -/
inductive Ends (rel : Environment → Environment → Prop) :
    EStateM.Result Diagnostic State α → EStateM.Result Diagnostic State α → Prop where
  | ok {a : α} {s : State} {env : Environment} (related : rel s.env env) :
      Ends rel (.ok a s) (.ok a { s with env })
  | error {error : Diagnostic} {s : State} {env : Environment} (related : rel s.env env) :
      Ends rel (.error error s) (.error error { s with env })

/-- Two actions end in the same way from states that differ in their environments only. -/
def Parallel (rel : Environment → Environment → Prop) (context : Context) (a b : Evaluating α) :
    Prop :=
  ∀ s env, rel s.env env → Ends rel (a context s) (b context { s with env })

section Rules

variable {a b : Evaluating α}

theorem Parallel.pure {x : α} : Parallel rel context (pure x) (pure x) :=
  fun _ _ related => .ok related

theorem Parallel.throw {error : Diagnostic} :
    Parallel rel context (throw error : Evaluating α) (throw error) :=
  fun _ _ related => .error related

theorem Parallel.bind {next next' : α → Evaluating β} (start : Parallel rel context a b)
    (behind : ∀ x, Parallel rel context (next x) (next' x)) :
    Parallel rel context (a >>= next) (b >>= next') := by
  intro s env related
  have first := start s env related
  simp only [Bind.bind, ReaderT.bind, EStateM.bind]
  generalize a context s = result at first ⊢
  generalize b context { s with env } = result' at first ⊢
  cases first with
  | ok related => exact behind _ _ _ related
  | error related => exact .error related

theorem Parallel.ite {condition : Prop} [Decidable condition] {a' b' : Evaluating α}
    (left : Parallel rel context a b) (right : Parallel rel context a' b') :
    Parallel rel context (if condition then a else a') (if condition then b else b') := by
  split
  · exact left
  · exact right

theorem Parallel.get {next next' : State → Evaluating α}
    (behind : ∀ s env, rel s.env env → Parallel rel context (next s) (next' { s with env })) :
    Parallel rel context (get >>= next) (get >>= next') :=
  fun s env related => behind s env related s env related

theorem Parallel.read {next next' : Context → Evaluating α}
    (behind : Parallel rel context (next context) (next' context)) :
    Parallel rel context (read >>= next) (read >>= next') :=
  behind

theorem Parallel.options {next next' : Options → Evaluating α}
    (behind : ∀ options, Parallel rel context (next options) (next' options)) :
    Parallel rel context (options >>= next) (options >>= next') :=
  behind context.options

theorem Parallel.modifyEnv {change change' : Environment → Environment}
    (changed : ∀ env env', rel env env' → rel (change env) (change' env')) :
    Parallel rel context (modifyEnv change) (modifyEnv change') :=
  fun s env related => .ok (changed s.env env related)

/-- A change of the state in which the environments play no part. -/
structure IsApart (change : State → State) : Prop where
  keeps : ∀ s, (change s).env = s.env
  ignores : ∀ s env, change { s with env } = { change s with env }

theorem IsApart.ends {change : State → State} (apart : IsApart change) {x : α} {s : State}
    {env : Environment} (related : rel s.env env) :
    Ends rel (.ok x (change s)) (.ok x (change { s with env })) := by
  rw [apart.ignores s env]
  exact .ok (apart.keeps s ▸ related)

theorem Parallel.modify {change : State → State} (apart : IsApart change) :
    Parallel rel context (modify change) (modify change) :=
  fun _ _ related => apart.ends related

/-- The states at the end are changed in the same way, apart from their environments. -/
theorem Ends.ensuring {restore restore' : State → State} {start start' : State}
    (restored : ∀ s env, rel s.env env → ∃ later,
      restore' { s with env } = { restore s with env := later } ∧ rel (restore s).env later)
    (ends : Ends rel (a context start) (b context start')) :
    Ends rel (Evaluation.ensuring restore a context start)
      (Evaluation.ensuring restore' b context start') := by
  unfold Evaluation.ensuring
  generalize a context start = result at ends ⊢
  generalize b context start' = result' at ends ⊢
  cases ends with
  | ok related =>
    obtain ⟨later, same, after⟩ := restored _ _ related
    dsimp only
    rw [same]
    exact .ok after
  | error related =>
    obtain ⟨later, same, after⟩ := restored _ _ related
    dsimp only
    rw [same]
    exact .error after

theorem Parallel.ensuring {restore : State → State} (apart : IsApart restore)
    (parallel : Parallel rel context a b) :
    Parallel rel context (ensuring restore a) (ensuring restore b) :=
  fun s env related => (parallel s env related).ensuring fun t later after =>
    ⟨later, apart.ignores t later, apart.keeps t ▸ after⟩

theorem Parallel.amending {amend : Diagnostic → Diagnostic} (parallel : Parallel rel context a b) :
    Parallel rel context (amending amend a) (amending amend b) := by
  intro s env related
  have ends := parallel s env related
  unfold Evaluation.amending
  generalize a context s = result at ends ⊢
  generalize b context { s with env } = result' at ends ⊢
  cases ends with
  | ok related => exact .ok related
  | error related => exact .error related

theorem Parallel.lift {result : Except Diagnostic α} :
    Parallel rel context (lift result) (lift result) := by
  unfold Evaluation.lift
  split
  · exact .pure
  · exact .throw

theorem Parallel.ofValue {line : Nat} {span : Span} {result : Except ValueError α} :
    Parallel rel context (ofValue line span result) (ofValue line span result) := by
  unfold Evaluation.ofValue
  split
  · exact .pure
  · exact .throw

theorem Parallel.logEntries {entries : Log} :
    Parallel rel context (logEntries entries) (logEntries entries) :=
  .modify ⟨fun _ => rfl, fun _ _ => rfl⟩

theorem Parallel.warn {warning : Diagnostic} :
    Parallel rel context (warn warning) (warn warning) := by
  have recorded : IsApart fun state => { state with warnings := state.warnings ++ [warning] } :=
    ⟨fun _ => rfl, fun _ _ => rfl⟩
  exact .options fun _ => .ite (Parallel.logEntries.bind fun _ => .modify recorded)
    (.modify recorded)

/-- The state is changed before an action. -/
theorem parallel_entering {change : State → State} (apart : IsApart change)
    (parallel : Parallel rel context a b) :
    Parallel rel context (do modify change; a) (do modify change; b) :=
  (Parallel.modify apart).bind fun _ => parallel

theorem Parallel.inside {parent : Enclosure} (parallel : Parallel rel context a b) :
    Parallel rel context (inside parent a) (inside parent b) :=
  .get fun _ _ _ => parallel_entering ⟨fun _ => rfl, fun _ _ => rfl⟩
    (parallel.ensuring ⟨fun _ => rfl, fun _ _ => rfl⟩)

theorem Parallel.forStatement {line : Nat} {filename : Option String}
    (parallel : Parallel rel context a b) :
    Parallel rel context (forStatement line filename a) (forStatement line filename b) :=
  .get fun _ _ _ => parallel_entering ⟨fun _ => rfl, fun _ _ => rfl⟩
    (.amending (parallel.ensuring ⟨fun _ => rfl, fun _ _ => rfl⟩))

theorem Parallel.inFile {file : SourceId} (parallel : Parallel rel context a b) :
    Parallel rel context (inFile file a) (inFile file b) :=
  .get fun _ _ _ => parallel_entering ⟨fun _ => rfl, fun _ _ => rfl⟩
    (parallel.ensuring ⟨fun _ => rfl, fun _ _ => rfl⟩)

variable (p : Pairing rel pairs) {scope scope' : ScopeId}
include p

theorem Pairing.inScope {action action' : ScopeId → Evaluating α} (paired : pairs scope scope')
    (parallel : ∀ inner inner', pairs inner inner' →
      Parallel rel context (action inner) (action' inner')) :
    Parallel rel context (inScope scope action) (inScope scope' action') := by
  intro s env related
  obtain ⟨inner, opened⟩ := p.opens related paired
  refine Ends.ensuring (fun t later after => ⟨_, rfl, p.closes related after⟩) ?_
  exact parallel _ _ inner { s with env := (s.env.push scope).1 } (env.push scope').1 opened

theorem Pairing.duringCall {call : Call} (parallel : Parallel rel context a b) :
    Parallel rel context (duringCall call a) (duringCall call b) := by
  refine Parallel.bind (.modifyEnv fun _ _ related => p.enterCall related call) fun _ => ?_
  exact fun s env related => (parallel s env related).ensuring fun t later after =>
    ⟨_, rfl, p.leaveCall after⟩

theorem Pairing.declaring {name : String} {value : Value} (paired : pairs scope scope') :
    Parallel rel context (modifyEnv (·.declare scope name value))
      (modifyEnv (·.declare scope' name value)) :=
  .modifyEnv fun _ _ related => p.declare related paired name value

end Rules

/-- What a runner does in corresponding scopes is parallel. -/
structure Runner.IsParallel (rel : Environment → Environment → Prop)
    (pairs : ScopeId → ScopeId → Prop) (context : Context) (run : Runner) : Prop where
  expr : ∀ e {scope scope'}, pairs scope scope' →
    Parallel rel context (run.expr e scope) (run.expr e scope')
  body : ∀ body {scope scope'}, pairs scope scope' →
    Parallel rel context (run.body body scope) (run.body body scope')

section Calls

variable {run : Runner} (p : Pairing rel pairs) (runs : run.IsParallel rel pairs context)
  {scope scope' : ScopeId}
include p

theorem Pairing.checkDepth {line : Nat} {span : Span} :
    Parallel rel context (checkDepth line span) (checkDepth line span) := by
  refine .options fun _ => .get fun s env related => ?_
  dsimp only
  rw [p.calls related]
  exact .ite .throw .pure

include runs

theorem Pairing.bindParams {callable : Callable} {fail : String → Diagnostic} {home : ScopeId}
    (paired : pairs scope scope') (params : List Param) (values : List Value)
    (keywords : List (String × Value)) :
    Parallel rel context (bindParams run callable scope fail params values keywords)
      (bindParams run { callable with scope := home } scope' fail params values keywords) := by
  induction params generalizing values keywords with
  | nil => exact .pure
  | cons param params ih =>
    cases values with
    | cons value values => exact (p.declaring paired).bind fun _ => ih values keywords
    | nil =>
      unfold Evaluation.bindParams
      split
      · exact (p.declaring paired).bind fun _ => ih [] _
      · split
        · exact (runs.expr _ paired).bind fun value =>
            (p.declaring paired).bind fun _ => ih [] keywords
        · exact .throw

/-- A mixin or function does the same in corresponding scopes. -/
theorem Pairing.withArguments {callable : Callable} {home : ScopeId}
    (paired : pairs callable.scope home) {positional : List Value}
    {keywords : List (String × Value)} {line : Nat} {span : Span} {body : List Statement} :
    Parallel rel context
      (withArguments run callable positional keywords line span (run.body body))
      (withArguments run { callable with scope := home } positional keywords line span
        (run.body body)) := by
  have same : misfit? { callable with scope := home } positional.length (keywords.map (·.1)) =
      misfit? callable positional.length (keywords.map (·.1)) := rfl
  unfold Evaluation.withArguments
  rw [same]
  dsimp only
  split
  · exact .throw
  · exact p.inScope paired fun inner inner' both =>
      (p.bindParams runs both _ _ _).bind fun _ => runs.body body both

theorem Pairing.callFunction {function : Callable} {home : ScopeId}
    (paired : pairs function.scope home) {positional : List Value}
    {keywords : List (String × Value)} {line : Nat} {span : Span} :
    Parallel rel context (callFunction run function positional keywords line span)
      (callFunction run { function with scope := home } positional keywords line span) := by
  refine p.checkDepth.bind fun _ => .get fun s env _ => ?_
  refine (p.duringCall (p.withArguments runs paired)).bind fun outcome => ?_
  split
  · exact .pure
  · exact .throw

omit p runs in
theorem Parallel.plainCall {name : String} {positional : List Value}
    {keywords : List (String × Value)} {line : Nat} {span : Span} :
    Parallel rel context (plainCall name positional keywords line span)
      (plainCall name positional keywords line span) := by
  unfold Evaluation.plainCall
  split
  · exact .throw
  · exact .options fun _ => Parallel.ofValue.bind fun _ => .pure

theorem Pairing.call (paired : pairs scope scope') {name : String} {positional : List Value}
    {keywords : List (String × Value)} {line : Nat} {span : Span} :
    Parallel rel context (call run scope name positional keywords line span)
      (call run scope' name positional keywords line span) := by
  refine .get fun s env related => ?_
  have same := p.function? related paired name
  dsimp only
  generalize s.env.function? scope name = found at same ⊢
  generalize env.function? scope' name = found' at same ⊢
  cases same with
  | some function paired => exact p.callFunction runs paired
  | none =>
    dsimp only
    split
    · exact .plainCall
    · split
      · exact .pure
      · exact .throw
      · exact .throw

omit runs in
theorem Pairing.lookUp (paired : pairs scope scope') {name : String} {line : Nat} {span : Span} :
    Parallel rel context (lookUp scope name line span) (lookUp scope' name line span) := by
  refine .get fun s env related => ?_
  dsimp only
  rw [p.valueOf? related paired]
  split
  · exact .pure
  · exact .throw

omit p runs in
theorem Parallel.cssText {e : Expr} {value : Value} :
    Parallel rel context (cssText e value) (cssText e value) :=
  .options fun _ => .ofValue

omit p runs in
theorem Parallel.interpolatedText {e : Expr} {value : Value} :
    Parallel rel context (interpolatedText e value) (interpolatedText e value) :=
  .options fun _ => .ofValue

end Calls

section Expressions

variable {run : Runner} {scope scope' : ScopeId}

mutual

theorem parallel_expr (p : Pairing rel pairs) (runs : run.IsParallel rel pairs context)
    (paired : pairs scope scope') :
    (e : Expr) → Parallel rel context (expr run scope e) (expr run scope' e)
  | .mk (.literal value) _ _ => .pure
  | .mk (.variable name) _ _ => p.lookUp paired
  | .mk (.text quoted parts) _ _ => (parallel_template p runs paired parts).bind fun _ => .pure
  | .mk (.interpolation before middle behind _ _) _ _ => by
    refine (parallel_side p runs paired before).bind fun _ => ?_
    refine (parallel_expr p runs paired middle).bind fun _ => ?_
    refine Parallel.interpolatedText.bind fun _ => ?_
    exact (parallel_side p runs paired behind).bind fun _ => .pure
  | .mk (.list items _) _ _ => (parallel_exprs p runs paired items).bind fun _ => .pure
  | .mk (.binary op left right) _ _ => by
    refine (parallel_expr p runs paired left).bind fun _ => .ite .pure ?_
    exact (parallel_expr p runs paired right).bind fun _ => .ofValue
  | .mk (.unary _ operand) _ _ => (parallel_expr p runs paired operand).bind fun _ => .ofValue
  | .mk (.call name (.mk positional keywords)) _ _ =>
    (parallel_exprs p runs paired positional).bind fun _ =>
      (parallel_namedExprs p runs paired keywords).bind fun _ => p.call runs paired
  | .mk (.paren inner) _ _ => (parallel_expr p runs paired inner).bind fun _ => .pure

theorem parallel_side (p : Pairing rel pairs) (runs : run.IsParallel rel pairs context)
    (paired : pairs scope scope') :
    (e : Option Expr) → Parallel rel context (side run scope e) (side run scope' e)
  | none => .pure
  | some e => (parallel_expr p runs paired e).bind fun _ => .cssText

theorem parallel_exprs (p : Pairing rel pairs) (runs : run.IsParallel rel pairs context)
    (paired : pairs scope scope') :
    (items : List Expr) → Parallel rel context (exprs run scope items) (exprs run scope' items)
  | [] => .pure
  | e :: rest => (parallel_expr p runs paired e).bind fun _ =>
      (parallel_exprs p runs paired rest).bind fun _ => .pure

theorem parallel_namedExprs (p : Pairing rel pairs) (runs : run.IsParallel rel pairs context)
    (paired : pairs scope scope') :
    (args : List (String × Expr)) →
      Parallel rel context (namedExprs run scope args) (namedExprs run scope' args)
  | [] => .pure
  | (_, e) :: rest => (parallel_expr p runs paired e).bind fun _ =>
      (parallel_namedExprs p runs paired rest).bind fun _ => .pure

theorem parallel_template (p : Pairing rel pairs) (runs : run.IsParallel rel pairs context)
    (paired : pairs scope scope') :
    (parts : List Part) → Parallel rel context (template run scope parts) (template run scope' parts)
  | [] => .pure
  | .text _ :: rest => (parallel_template p runs paired rest).bind fun _ => .pure
  | .expr e :: rest => (parallel_expr p runs paired e).bind fun _ =>
      Parallel.interpolatedText.bind fun _ =>
        (parallel_template p runs paired rest).bind fun _ => .pure

end

theorem Pairing.arguments (p : Pairing rel pairs) (runs : run.IsParallel rel pairs context)
    (paired : pairs scope scope') {args : Arguments} :
    Parallel rel context (arguments run scope args) (arguments run scope' args) :=
  (parallel_exprs p runs paired args.positional).bind fun _ =>
    (parallel_namedExprs p runs paired args.keywords).bind fun _ => .pure

end Expressions

section Loops

/-- A loop goes on or ends after a run of its body. -/
theorem Parallel.goOn {outcome : Outcome} {runs : List (List Css)} {more more' : Evaluating Outcome}
    (rest : Parallel rel context more more') :
    Parallel rel context
      (match outcome.returned with
        | some value => Pure.pure (gather (outcome.css :: runs) (some value))
        | none => more)
      (match outcome.returned with
        | some value => Pure.pure (gather (outcome.css :: runs) (some value))
        | none => more') := by
  split
  · exact .pure
  · exact rest

theorem Parallel.whileHolds {condition condition' : Evaluating Bool}
    {body body' : Evaluating Outcome} {tooMany : Diagnostic}
    (test : Parallel rel context condition condition') (once : Parallel rel context body body')
    (remaining : Nat) {runs : List (List Css)} :
    Parallel rel context (whileHolds condition body tooMany runs remaining)
      (whileHolds condition' body' tooMany runs remaining) := by
  induction remaining generalizing runs with
  | zero => exact test.bind fun _ => .ite .throw .pure
  | succ remaining ih => exact test.bind fun _ => .ite (once.bind fun outcome => .goOn ih) .pure

theorem Parallel.forIntegers {body body' : Int → Evaluating Outcome}
    (once : ∀ i, Parallel rel context (body i) (body' i)) (remaining : Nat) {next : Int}
    {runs : List (List Css)} :
    Parallel rel context (forIntegers body runs next remaining)
      (forIntegers body' runs next remaining) := by
  induction remaining generalizing runs next with
  | zero => exact .pure
  | succ remaining ih => exact (once next).bind fun outcome => .goOn ih

theorem Parallel.forValues {body body' : Value → Evaluating Outcome}
    (once : ∀ value, Parallel rel context (body value) (body' value)) (values : List Value)
    {runs : List (List Css)} :
    Parallel rel context (forValues body runs values) (forValues body' runs values) := by
  induction values generalizing runs with
  | nil => exact .pure
  | cons value values ih => exact (once value).bind fun outcome => .goOn ih

theorem Parallel.wholeNumber {e : Expr} {value : Value} :
    Parallel rel context (wholeNumber e value) (wholeNumber e value) := by
  unfold Evaluation.wholeNumber
  split
  · exact .ite .pure .throw
  · exact .throw

variable {run : Runner} (p : Pairing rel pairs) (runs : run.IsParallel rel pairs context)
  {scope scope' : ScopeId} (paired : pairs scope scope') {line : Nat} {span : Span}
  {body body' : ScopeId → Evaluating Outcome}
  (once : ∀ inner inner', pairs inner inner' → Parallel rel context (body inner) (body' inner'))
include p runs paired once

theorem Pairing.loopWhile {condition : Expr} :
    Parallel rel context (loopWhile run scope line span condition body)
      (loopWhile run scope' line span condition body') := by
  refine .options fun _ => p.inScope paired fun inner inner' both => ?_
  refine .whileHolds ?_ (once inner inner' both) _
  exact (parallel_expr p runs both condition).bind fun _ => .pure

theorem Pairing.loopCount {counter : String} {start stop : Expr} {inclusive : Bool} :
    Parallel rel context (loopCount run scope line span counter start stop inclusive body)
      (loopCount run scope' line span counter start stop inclusive body') := by
  refine (parallel_expr p runs paired start).bind fun _ => Parallel.wholeNumber.bind fun _ => ?_
  refine (parallel_expr p runs paired stop).bind fun _ => Parallel.wholeNumber.bind fun _ => ?_
  refine Parallel.ofValue.bind fun _ => .options fun _ => .ite .throw ?_
  refine p.inScope paired fun inner inner' both => .forIntegers (fun i => ?_) _
  exact (p.declaring both).bind fun _ => once inner inner' both

theorem Pairing.loopEach {item : String} {list : Expr} :
    Parallel rel context (loopEach run scope line span item list body)
      (loopEach run scope' line span item list body') := by
  refine (parallel_expr p runs paired list).bind fun _ => .options fun _ => .ite .throw ?_
  refine p.inScope paired fun inner inner' both => .forValues (fun value => ?_) _
  exact (p.declaring both).bind fun _ => once inner inner' both

end Loops

section Imports

variable {run : Runner} (p : Pairing rel pairs) (runs : run.IsParallel rel pairs context)
  {scope scope' : ScopeId}

theorem Parallel.firstError {result : Except (List Diagnostic) α} :
    Parallel rel context (firstError result) (firstError result) := by
  unfold Evaluation.firstError
  split
  · exact .pure
  · exact .throw

theorem Parallel.enterImport {id : SourceId} {line : Nat} {span : Span} :
    Parallel rel context (enterImport id line span) (enterImport id line span) := by
  refine .get fun s env related => ?_
  dsimp only
  split
  · exact fun _ _ _ => .ok (s := { s with importStack := _, dependencies := _ }) related
  · exact .throw

theorem Runner.IsParallel.importSource (runs : run.IsParallel rel pairs context)
    (paired : pairs scope scope') {id : SourceId} {source : ImportedSource} :
    Parallel rel context (importSource run scope id source) (importSource run scope' id source) := by
  refine parallel_entering ⟨fun _ => rfl, fun _ _ => rfl⟩ ?_
  refine Parallel.lift.bind fun root => .get fun _ _ _ => Parallel.firstError.bind fun _ => ?_
  exact (Parallel.inFile (runs.body root.children paired)).bind fun _ => .pure

theorem Runner.IsParallel.importStylesheet (runs : run.IsParallel rel pairs context)
    (paired : pairs scope scope') {line : Nat} {span : Span} {filename : Option String}
    {uri : String} :
    Parallel rel context (importStylesheet run scope line span filename uri)
      (importStylesheet run scope' line span filename uri) := by
  refine .read (.get fun s env related => ?_)
  dsimp only
  refine Parallel.logEntries.bind fun _ => ?_
  split
  · exact .throw
  · exact .throw
  · refine Parallel.enterImport.bind fun _ => .amending ?_
    exact (runs.importSource paired).ensuring ⟨fun _ => rfl, fun _ _ => rfl⟩

end Imports

section Statements

variable {run : Runner} (p : Pairing rel pairs) (runs : run.IsParallel rel pairs context)
  {scope scope' : ScopeId} (paired : pairs scope scope')
include p runs paired

theorem Pairing.trimmedText {parts : Template} :
    Parallel rel context (trimmedText run scope parts) (trimmedText run scope' parts) :=
  (parallel_template p runs paired parts).bind fun _ => .pure

theorem Pairing.selectorOf {place : Place} {selector : Template} :
    Parallel rel context (selectorOf run scope place selector)
      (selectorOf run scope' place selector) := by
  refine (parallel_template p runs paired selector).bind fun text => ?_
  split
  · exact .pure
  · exact .throw

omit runs in
theorem Pairing.nested {parent : Enclosure} {body body' : ScopeId → Evaluating Outcome}
    (once : ∀ inner inner', pairs inner inner' → Parallel rel context (body inner) (body' inner')) :
    Parallel rel context (nested parent scope body) (nested parent scope' body') :=
  Parallel.bind (.inside (p.inScope paired once)) fun _ => .pure

theorem Pairing.property {place : Place} {name : Template} {value : Option Expr}
    {body body' : ScopeId → Evaluating Outcome}
    (once : ∀ inner inner', pairs inner inner' → Parallel rel context (body inner) (body' inner')) :
    Parallel rel context (property run scope place name value body)
      (property run scope' place name value body') := by
  refine (p.trimmedText runs paired).bind fun name => ?_
  cases value with
  | none => exact Parallel.bind .pure fun _ => (p.nested paired once).bind fun _ => .pure
  | some e =>
    refine (parallel_expr p runs paired e).bind fun _ => Parallel.cssText.bind fun _ => ?_
    exact Parallel.bind .pure fun _ => (p.nested paired once).bind fun _ => .pure

theorem Pairing.includeMixin {place : Place} {name : String} {args : Arguments} :
    Parallel rel context (includeMixin run scope place name args)
      (includeMixin run scope' place name args) := by
  refine .get fun s env related => ?_
  have loop : env.includeLoop? name = s.env.includeLoop? name := by
    unfold Environment.includeLoop?
    rw [p.calls related]
  have same := p.mixin? related paired name
  dsimp only
  rw [loop]
  split
  · exact .throw
  · generalize s.env.mixin? scope name = found at same ⊢
    generalize env.mixin? scope' name = found' at same ⊢
    cases same with
    | none => exact .throw
    | some mixin home =>
      refine p.checkDepth.bind fun _ => .amending (p.duringCall ?_)
      refine (p.arguments runs paired).bind fun given => ?_
      exact (p.withArguments runs home).bind fun _ => .pure

theorem Pairing.assigning {name : String} {value : Expr} {guarded : Bool} :
    Parallel rel context (Evaluation.assign run scope name value guarded)
      (Evaluation.assign run scope' name value guarded) := by
  refine .get fun s env related => ?_
  dsimp only
  rw [p.valueOf? related paired]
  refine .ite .pure ((parallel_expr p runs paired value).bind fun value => ?_)
  exact .modifyEnv fun _ _ related => p.assign related paired name value

omit runs in
theorem Pairing.defining {kind : CallableKind} {name : String} {params : List Param}
    {body : List Statement} :
    Parallel rel context (Evaluation.define kind name params scope body)
      (Evaluation.define kind name params scope' body) :=
  .modifyEnv fun _ _ related => p.define related paired kind name params body

omit p runs paired in
theorem Parallel.debugValue {place : Place} {value : Value} :
    Parallel rel context (debugValue place value) (debugValue place value) :=
  .options fun _ => .ite .logEntries .pure

omit runs paired in
theorem Pairing.warnAbout {place : Place} {value : Value} :
    Parallel rel context (warnAbout place value) (warnAbout place value) := by
  refine .get fun s env related => ?_
  dsimp only
  rw [p.calls related]
  exact .warn

theorem Pairing.isTaken {condition : Option Expr} :
    Parallel rel context (isTaken run scope condition) (isTaken run scope' condition) := by
  cases condition with
  | none => exact .pure
  | some e => exact (parallel_expr p runs paired e).bind fun _ => .pure

theorem Pairing.simpleStatement {place : Place} {children : List Statement}
    {body body' : ScopeId → Evaluating Outcome}
    (once : ∀ inner inner', pairs inner inner' → Parallel rel context (body inner) (body' inner'))
    (kind : StatementKind) :
    Parallel rel context (simpleStatement run scope place children body kind)
      (simpleStatement run scope' place children body' kind) := by
  unfold Evaluation.simpleStatement
  cases kind with
  | root => exact once scope scope' paired
  | rule selector =>
    refine (p.selectorOf runs paired).bind fun _ => ?_
    exact (p.nested paired once).bind fun _ => .pure
  | property name value => exact p.property runs paired once
  | comment text silent =>
    exact .ite .pure ((parallel_template p runs paired text).bind fun _ => .pure)
  | directive name params hasBlock =>
    refine (p.trimmedText runs paired).bind fun _ => ?_
    exact (p.nested paired once).bind fun _ => .pure
  | media query =>
    refine (p.trimmedText runs paired).bind fun _ => ?_
    exact (p.nested paired once).bind fun _ => .pure
  | charset name => exact .pure
  | importing target =>
    cases target with
    | stylesheet uri => exact runs.importStylesheet paired
    | css text => exact (p.trimmedText runs paired).bind fun _ => .pure
  | assign name value guarded => exact (p.assigning runs paired).bind fun _ => .pure
  | defineMixin name params => exact (p.defining paired).bind fun _ => .pure
  | defineFunction name params => exact (p.defining paired).bind fun _ => .pure
  | includeMixin name args => exact p.includeMixin runs paired
  | returning value => exact (parallel_expr p runs paired value).bind fun _ => .pure
  | extend selector => exact (p.selectorOf runs paired).bind fun _ => .pure
  | branch condition otherwise => exact .pure
  | loopWhile condition => exact p.loopWhile runs paired once
  | loopCount counter start stop inclusive => exact p.loopCount runs paired once
  | loopEach item list => exact p.loopEach runs paired once
  | debug value =>
    refine (parallel_expr p runs paired value).bind fun _ => ?_
    exact Parallel.debugValue.bind fun _ => .pure
  | warn value =>
    refine (parallel_expr p runs paired value).bind fun _ => ?_
    exact p.warnAbout.bind fun _ => .pure

end Statements

section Statements

variable {run : Runner}

mutual

theorem parallel_statement (p : Pairing rel pairs) (runs : run.IsParallel rel pairs context)
    {scope scope' : ScopeId} (paired : pairs scope scope') :
    (s : Statement) → Parallel rel context (statement run scope s) (statement run scope' s)
  | .mk kind children line span filename => by
    have block (inner inner' : ScopeId) (both : pairs inner inner') :=
      parallel_statements p runs both children
    cases kind with
    | branch condition otherwise =>
      unfold statement
      refine .forStatement ((p.isTaken runs paired).bind fun _ => .ite (p.inScope paired block) ?_)
      exact parallel_otherBranch p runs paired otherwise
    | _ =>
      unfold statement
      exact .forStatement (p.simpleStatement runs paired block _)

theorem parallel_otherBranch (p : Pairing rel pairs) (runs : run.IsParallel rel pairs context)
    {scope scope' : ScopeId} (paired : pairs scope scope') :
    (otherwise : Option Statement) →
      Parallel rel context (otherBranch run scope otherwise) (otherBranch run scope' otherwise)
  | none => .pure
  | some s => parallel_statement p runs paired s

theorem parallel_statements (p : Pairing rel pairs) (runs : run.IsParallel rel pairs context)
    {scope scope' : ScopeId} (paired : pairs scope scope') :
    (body : List Statement) →
      Parallel rel context (statements run scope body) (statements run scope' body)
  | [] => .pure
  | s :: rest => by
    refine (parallel_statement p runs paired s).bind fun first => ?_
    split
    · exact .pure
    · exact (parallel_statements p runs paired rest).bind fun _ => .pure

end

/-- Evaluation in corresponding scopes is parallel, however deep calls and imports are followed. -/
theorem runner_isParallel (p : Pairing rel pairs) (context : Context) (depth : Nat) :
    (runner depth).IsParallel rel pairs context := by
  induction depth with
  | zero => exact ⟨fun _ _ _ _ => .throw, fun _ _ _ _ => .throw⟩
  | succ depth ih =>
    exact ⟨fun e _ _ paired => parallel_expr p ih paired e,
      fun body _ _ paired => parallel_statements p ih paired body⟩

end Statements

end Stylesheet.Evaluation
