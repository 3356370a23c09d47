import Stylesheet.Evaluation.Loop
import Stylesheet.Proofs.Scope.Definitions

/-! What an evaluation keeps when it succeeds. An invariant of the state is followed through each
way to put evaluations together; the one of interest says which statement is around and what is
known of all definitions. Expressions keep it, as far as the bodies of functions do. -/

namespace Stylesheet.Evaluation

/-- Where an action succeeds, it keeps an invariant and its result has a property. -/
def Keeps (context : Context) (inv : State → Prop) (action : Evaluating α) (post : α → Prop) :
    Prop :=
  ∀ state a final, inv state → action context state = .ok a final → inv final ∧ post a

/-- Nothing is said of a result. -/
abbrev Anything (_ : α) : Prop := True

theorem bind_ok {context : Context} {state final : State} {first : Evaluating α}
    {next : α → Evaluating β} {b : β} (ok : (first >>= next) context state = .ok b final) :
    ∃ a middle, first context state = .ok a middle ∧ next a context middle = .ok b final := by
  cases found : first context state with
  | error error middle =>
    simp only [bind, ReaderT.bind, EStateM.bind, found] at ok
    cases ok
  | ok a middle =>
    simp only [bind, ReaderT.bind, EStateM.bind, found] at ok
    exact ⟨a, middle, rfl, ok⟩

section Rules

variable {context : Context} {inv : State → Prop} {post : β → Prop} {between : α → Prop}

theorem Keeps.pure {b : β} (holds : post b) : Keeps context inv (pure b) post := by
  intro state a final before ok
  cases ok
  exact ⟨before, holds⟩

theorem Keeps.throw {error : Diagnostic} : Keeps context inv (throw error) post := by
  intro state a final before ok
  cases ok

theorem Keeps.bind {first : Evaluating α} {next : α → Evaluating β}
    (start : Keeps context inv first between)
    (behind : ∀ a, between a → Keeps context inv (next a) post) :
    Keeps context inv (first >>= next) post := by
  intro state b final before ok
  obtain ⟨a, middle, found, rest⟩ := bind_ok ok
  obtain ⟨kept, holds⟩ := start state a middle before found
  exact behind a holds middle b final kept rest

/-- Nothing needs to be known of what came before. -/
theorem Keeps.after {first : Evaluating α} {next : α → Evaluating β}
    (start : Keeps context inv first between) (behind : ∀ a, Keeps context inv (next a) post) :
    Keeps context inv (first >>= next) post :=
  start.bind fun a _ => behind a

theorem Keeps.weaken {action : Evaluating β} {weaker : β → Prop}
    (keeps : Keeps context inv action post) (implies : ∀ b, post b → weaker b) :
    Keeps context inv action weaker := by
  intro state b final before ok
  obtain ⟨kept, holds⟩ := keeps state b final before ok
  exact ⟨kept, implies b holds⟩

theorem Keeps.ite {condition : Prop} [Decidable condition] {one other : Evaluating β}
    (left : Keeps context inv one post) (right : Keeps context inv other post) :
    Keeps context inv (if condition then one else other) post := by
  split
  · exact left
  · exact right

theorem Keeps.get : Keeps context inv get inv := by
  intro state a final before ok
  cases ok
  exact ⟨before, before⟩

theorem Keeps.read : Keeps context inv read (· = context) := by
  intro state a final before ok
  cases ok
  exact ⟨before, rfl⟩

theorem Keeps.modify {change : State → State} (keeps : ∀ state, inv state → inv (change state)) :
    Keeps context inv (modify change) Anything := by
  intro state a final before ok
  cases ok
  exact ⟨keeps state before, trivial⟩

theorem Keeps.ensuring {restore : State → State} {action : Evaluating β}
    (restores : ∀ state, inv state → inv (restore state)) (keeps : Keeps context inv action post) :
    Keeps context inv (ensuring restore action) post := by
  intro state b final before ok
  unfold Evaluation.ensuring at ok
  cases found : action context state with
  | error error middle => simp [found] at ok
  | ok a middle =>
    obtain ⟨kept, holds⟩ := keeps state a middle before found
    simp only [found] at ok
    cases ok
    exact ⟨restores middle kept, holds⟩

theorem Keeps.amending {amend : Diagnostic → Diagnostic} {action : Evaluating β}
    (keeps : Keeps context inv action post) : Keeps context inv (amending amend action) post := by
  intro state b final before ok
  unfold Evaluation.amending at ok
  cases found : action context state with
  | error error middle => simp [found] at ok
  | ok a middle =>
    simp only [found] at ok
    cases ok
    exact keeps state b final before found

theorem Keeps.lift {result : Except Diagnostic β} (holds : ∀ b, result = .ok b → post b) :
    Keeps context inv (lift result) post := by
  unfold Evaluation.lift
  split
  · exact .pure (holds _ rfl)
  · exact .throw

theorem Keeps.ofValue {line : Nat} {span : Span} {result : Except ValueError β} :
    Keeps context inv (ofValue line span result) Anything := by
  unfold Evaluation.ofValue
  split
  · exact .pure trivial
  · exact .throw

theorem Keeps.options : Keeps context inv options Anything :=
  .after .read fun _ => .pure trivial

end Rules

/-- The statement around counts as `parent`, and something is known of all definitions. -/
structure Knows (known : Callable → Prop) (parent : Enclosure) (state : State) : Prop where
  around : state.parent = parent
  definitions : state.env.AllKnown known

section Knows

variable {context : Context} {known : Callable → Prop} {parent : Enclosure} {post : β → Prop}

theorem Keeps.modifyEnv {change : Environment → Environment}
    (keeps : ∀ env, env.AllKnown known → (change env).AllKnown known) :
    Keeps context (Knows known parent) (modifyEnv change) Anything :=
  .modify fun state before => ⟨before.around, keeps state.env before.definitions⟩

theorem Keeps.logEntries {entries : Log} :
    Keeps context (Knows known parent) (logEntries entries) Anything :=
  .modify fun _ before => ⟨before.around, before.definitions⟩

theorem Keeps.warn {warning : Diagnostic} :
    Keeps context (Knows known parent) (warn warning) Anything := by
  refine .after .options fun _ => .ite (.after .logEntries fun _ => .modify ?_) (.modify ?_)
  all_goals
    intro state before
    exact ⟨before.around, before.definitions⟩

theorem Keeps.inScope {scope : ScopeId} {action : ScopeId → Evaluating β}
    (keeps : ∀ inner, Keeps context (Knows known parent) (action inner) post) :
    Keeps context (Knows known parent) (inScope scope action) post := by
  have opens : Keeps context (Knows known parent) (pushScope scope) Anything := by
    intro state a final before ok
    cases ok
    exact ⟨⟨before.around, before.definitions.push scope⟩, trivial⟩
  refine opens.after fun inner => (keeps inner).ensuring ?_
  intro state before
  exact ⟨before.around, before.definitions.pop inner⟩

theorem Keeps.duringCall {call : Call} {action : Evaluating β}
    (keeps : Keeps context (Knows known parent) action post) :
    Keeps context (Knows known parent) (duringCall call action) post := by
  refine Keeps.after (.modifyEnv fun _ all => all) fun _ => keeps.ensuring ?_
  intro state before
  exact ⟨before.around, before.definitions⟩

/-- Inside of a statement that counts, the statement around is another one. -/
theorem Keeps.inside {inner : Enclosure} {action : Evaluating β}
    (keeps : Keeps context (Knows known inner) action post) :
    Keeps context (Knows known parent) (inside inner action) post := by
  intro state b final before ok
  obtain ⟨saved, _, got, ok⟩ := bind_ok ok
  cases got
  obtain ⟨_, entered, set, ok⟩ := bind_ok ok
  cases set
  unfold Evaluation.ensuring at ok
  split at ok
  · rename_i result middle found
    cases ok
    have entered : Knows known inner { state with parent := inner } := ⟨rfl, before.definitions⟩
    obtain ⟨kept, holds⟩ := keeps _ b middle entered found
    exact ⟨⟨before.around, kept.definitions⟩, holds⟩
  · cases ok

theorem Keeps.forStatement {line : Nat} {filename : Option String} {action : Evaluating β}
    (keeps : Keeps context (Knows known parent) action post) :
    Keeps context (Knows known parent) (forStatement line filename action) post := by
  refine Keeps.get.after fun _ => Keeps.after (.modify ?_) fun _ => (keeps.ensuring ?_).amending
  all_goals
    intro state before
    exact ⟨before.around, before.definitions⟩

theorem Keeps.inFile {file : SourceId} {action : Evaluating β}
    (keeps : Keeps context (Knows known parent) action post) :
    Keeps context (Knows known parent) (inFile file action) post := by
  refine Keeps.get.after fun _ => Keeps.after (.modify ?_) fun _ => keeps.ensuring ?_
  all_goals
    intro state before
    exact ⟨before.around, before.definitions⟩

end Knows

/-- Expressions evaluated elsewhere and the bodies of functions keep what is known. -/
structure Runner.KeepsCalls (context : Context) (known : Callable → Prop) (parent : Enclosure)
    (run : Runner) : Prop where
  expr : ∀ e scope, Keeps context (Knows known parent) (run.expr e scope) Anything
  function : ∀ function : Callable, function.kind = .function → known function → ∀ scope,
    Keeps context (Knows known parent) (run.body function.body scope) Anything

section Expressions

variable {context : Context} {known : Callable → Prop} {parent : Enclosure} {run : Runner}
  {post : β → Prop}

theorem Keeps.checkDepth {line : Nat} {span : Span} :
    Keeps context (Knows known parent) (checkDepth line span) Anything := by
  exact .after .options fun _ => .after .get fun _ => .ite .throw (.pure trivial)

theorem Keeps.bindParams (calls : run.KeepsCalls context known parent) {callable : Callable}
    {scope : ScopeId} {fail : String → Diagnostic} (params : List Param) (values : List Value)
    (keywords : List (String × Value)) :
    Keeps context (Knows known parent) (bindParams run callable scope fail params values keywords)
      Anything := by
  induction params generalizing values keywords with
  | nil => exact .pure trivial
  | cons param params ih =>
    have declares (value : Value) : Keeps context (Knows known parent)
        (Evaluation.modifyEnv (·.declare scope param.name value)) Anything :=
      .modifyEnv fun env all => all.declare scope param.name value
    cases values with
    | cons value values => exact (declares value).after fun _ => ih values keywords
    | nil =>
      unfold Evaluation.bindParams
      split
      · exact (declares _).after fun _ => ih [] _
      · split
        · exact (calls.expr _ scope).after fun value => (declares value).after fun _ => ih [] keywords
        · exact .throw

theorem Keeps.withArguments (calls : run.KeepsCalls context known parent) {callable : Callable}
    {positional : List Value} {keywords : List (String × Value)} {line : Nat} {span : Span}
    {action : ScopeId → Evaluating β}
    (keeps : ∀ scope, Keeps context (Knows known parent) (action scope) post) :
    Keeps context (Knows known parent)
      (withArguments run callable positional keywords line span action) post := by
  unfold Evaluation.withArguments
  dsimp only
  split
  · exact .throw
  · exact .inScope fun scope => (Keeps.bindParams calls _ _ _).after fun _ => keeps scope

theorem Keeps.callFunction (calls : run.KeepsCalls context known parent) {function : Callable}
    (isFunction : function.kind = .function) (isKnown : known function) {positional : List Value}
    {keywords : List (String × Value)} {line : Nat} {span : Span} :
    Keeps context (Knows known parent) (callFunction run function positional keywords line span)
      Anything := by
  refine Keeps.checkDepth.after fun _ => Keeps.get.after fun _ => ?_
  refine (Keeps.duringCall (.withArguments calls
    (calls.function function isFunction isKnown))).after fun outcome => ?_
  split
  · exact .pure trivial
  · exact .throw

theorem Keeps.plainCall {name : String} {positional : List Value}
    {keywords : List (String × Value)} {line : Nat} {span : Span} :
    Keeps context (Knows known parent) (plainCall name positional keywords line span) Anything := by
  unfold Evaluation.plainCall
  split
  · exact .throw
  · exact Keeps.options.after fun _ => Keeps.ofValue.after fun _ => .pure trivial

theorem Keeps.call (calls : run.KeepsCalls context known parent) {scope : ScopeId}
    {name : String} {positional : List Value} {keywords : List (String × Value)} {line : Nat}
    {span : Span} :
    Keeps context (Knows known parent) (call run scope name positional keywords line span)
      Anything := by
  refine Keeps.get.bind fun state knows => ?_
  split
  · rename_i function found
    have definition := knows.definitions.function? found
    exact .callFunction calls definition.kind definition.known
  · split
    · exact .plainCall
    · split
      · exact .pure trivial
      · exact .throw
      · exact .throw

theorem Keeps.lookUp {scope : ScopeId} {name : String} {line : Nat} {span : Span} :
    Keeps context (Knows known parent) (lookUp scope name line span) Anything := by
  refine Keeps.get.after fun _ => ?_
  split
  · exact .pure trivial
  · exact .throw

theorem Keeps.cssText {e : Expr} {value : Value} :
    Keeps context (Knows known parent) (cssText e value) Anything :=
  Keeps.options.after fun _ => .ofValue

theorem Keeps.interpolatedText {e : Expr} {value : Value} :
    Keeps context (Knows known parent) (interpolatedText e value) Anything :=
  Keeps.options.after fun _ => .ofValue

mutual

theorem keeps_expr (calls : run.KeepsCalls context known parent) (scope : ScopeId) :
    (e : Expr) → Keeps context (Knows known parent) (expr run scope e) Anything
  | .mk (.literal value) _ _ => .pure trivial
  | .mk (.variable name) _ _ => .lookUp
  | .mk (.text quoted parts) _ _ => (keeps_template calls scope parts).after fun _ => .pure trivial
  | .mk (.interpolation before middle behind _ _) _ _ => by
    refine (keeps_side calls scope before).after fun _ => ?_
    refine (keeps_expr calls scope middle).after fun _ => Keeps.interpolatedText.after fun _ => ?_
    exact (keeps_side calls scope behind).after fun _ => .pure trivial
  | .mk (.list items _) _ _ => (keeps_exprs calls scope items).after fun _ => .pure trivial
  | .mk (.binary op left right) _ _ => by
    refine (keeps_expr calls scope left).after fun _ => .ite (.pure trivial) ?_
    exact (keeps_expr calls scope right).after fun _ => .ofValue
  | .mk (.unary _ operand) _ _ => (keeps_expr calls scope operand).after fun _ => .ofValue
  | .mk (.call name (.mk positional keywords)) _ _ =>
    (keeps_exprs calls scope positional).after fun _ =>
      (keeps_namedExprs calls scope keywords).after fun _ => .call calls
  | .mk (.paren inner) _ _ => (keeps_expr calls scope inner).after fun _ => .pure trivial

theorem keeps_side (calls : run.KeepsCalls context known parent) (scope : ScopeId) :
    (e : Option Expr) → Keeps context (Knows known parent) (side run scope e) Anything
  | none => .pure trivial
  | some e => (keeps_expr calls scope e).after fun _ => .cssText

theorem keeps_exprs (calls : run.KeepsCalls context known parent) (scope : ScopeId) :
    (items : List Expr) → Keeps context (Knows known parent) (exprs run scope items) Anything
  | [] => .pure trivial
  | e :: rest => (keeps_expr calls scope e).after fun _ =>
      (keeps_exprs calls scope rest).after fun _ => .pure trivial

theorem keeps_namedExprs (calls : run.KeepsCalls context known parent) (scope : ScopeId) :
    (items : List (String × Expr)) →
      Keeps context (Knows known parent) (namedExprs run scope items) Anything
  | [] => .pure trivial
  | (_, e) :: rest => (keeps_expr calls scope e).after fun _ =>
      (keeps_namedExprs calls scope rest).after fun _ => .pure trivial

theorem keeps_template (calls : run.KeepsCalls context known parent) (scope : ScopeId) :
    (parts : List Part) → Keeps context (Knows known parent) (template run scope parts) Anything
  | [] => .pure trivial
  | .text _ :: rest => (keeps_template calls scope rest).after fun _ => .pure trivial
  | .expr e :: rest => (keeps_expr calls scope e).after fun _ =>
      Keeps.interpolatedText.after fun _ =>
        (keeps_template calls scope rest).after fun _ => .pure trivial

end

theorem Keeps.arguments (calls : run.KeepsCalls context known parent) {scope : ScopeId}
    {args : Arguments} :
    Keeps context (Knows known parent) (arguments run scope args) Anything :=
  (keeps_exprs calls scope args.positional).after fun _ =>
    (keeps_namedExprs calls scope args.keywords).after fun _ => .pure trivial

end Expressions

/-- All nodes that statements give have a property. -/
def Outcome.All (p : Css → Prop) (outcome : Outcome) : Prop :=
  ∀ c ∈ outcome.css, p c

section Loops

variable {context : Context} {known : Callable → Prop} {parent : Enclosure} {run : Runner}
  {p : Css → Prop}

theorem Outcome.all_nothing : Outcome.nothing.All p := by
  simp [Outcome.All, Outcome.nothing]

theorem Outcome.all_ofCss {c : Css} (holds : p c) : (Outcome.ofCss c).All p := by
  intro d member
  rw [List.mem_singleton.mp member]
  exact holds

/-- The nodes of all runs of a loop so far have a property. -/
def RunsAll (p : Css → Prop) (runs : List (List Css)) : Prop :=
  ∀ nodes ∈ runs, ∀ c ∈ nodes, p c

theorem RunsAll.cons {runs : List (List Css)} {outcome : Outcome} (earlier : RunsAll p runs)
    (last : outcome.All p) : RunsAll p (outcome.css :: runs) := by
  intro nodes member
  rcases List.mem_cons.mp member with rfl | before
  · exact last
  · exact earlier nodes before

theorem RunsAll.gather {runs : List (List Css)} (all : RunsAll p runs) (returned : Option Value) :
    (gather runs returned).All p := by
  intro c member
  obtain ⟨nodes, isRun, inside⟩ := List.mem_flatten.mp member
  exact all nodes (List.mem_reverse.mp isRun) c inside

/-- A loop goes on or ends after a run of its body. -/
theorem Keeps.goOn {outcome : Outcome} {runs : List (List Css)} {more : Evaluating Outcome}
    (all : RunsAll p (outcome.css :: runs))
    (rest : Keeps context (Knows known parent) more (Outcome.All p)) :
    Keeps context (Knows known parent)
      (match outcome.returned with
        | some value => Pure.pure (Evaluation.gather (outcome.css :: runs) (some value))
        | none => more) (Outcome.All p) := by
  split
  · exact .pure (all.gather _)
  · exact rest

theorem Keeps.whileHolds {condition : Evaluating Bool} {body : Evaluating Outcome}
    {tooMany : Diagnostic} (test : Keeps context (Knows known parent) condition Anything)
    (once : Keeps context (Knows known parent) body (Outcome.All p)) (remaining : Nat)
    {runs : List (List Css)} (all : RunsAll p runs) :
    Keeps context (Knows known parent) (whileHolds condition body tooMany runs remaining)
      (Outcome.All p) := by
  induction remaining generalizing runs with
  | zero => exact test.after fun _ => .ite .throw (.pure (all.gather none))
  | succ remaining ih =>
    refine test.after fun _ => .ite (once.bind fun outcome last => ?_) (.pure (all.gather none))
    exact .goOn (all.cons last) (ih (all.cons last))

theorem Keeps.forIntegers {body : Int → Evaluating Outcome}
    (once : ∀ i, Keeps context (Knows known parent) (body i) (Outcome.All p)) (remaining : Nat)
    {next : Int} {runs : List (List Css)} (all : RunsAll p runs) :
    Keeps context (Knows known parent) (forIntegers body runs next remaining) (Outcome.All p) := by
  induction remaining generalizing runs next with
  | zero => exact .pure (all.gather none)
  | succ remaining ih =>
    refine (once next).bind fun outcome last => ?_
    exact .goOn (all.cons last) (ih (all.cons last))

theorem Keeps.forValues {body : Value → Evaluating Outcome}
    (once : ∀ value, Keeps context (Knows known parent) (body value) (Outcome.All p))
    (values : List Value) {runs : List (List Css)} (all : RunsAll p runs) :
    Keeps context (Knows known parent) (forValues body runs values) (Outcome.All p) := by
  induction values generalizing runs with
  | nil => exact .pure (all.gather none)
  | cons value values ih =>
    refine (once value).bind fun outcome last => ?_
    exact .goOn (all.cons last) (ih (all.cons last))

variable {scope : ScopeId} {line : Nat} {span : Span} {body : ScopeId → Evaluating Outcome}

theorem Keeps.loopWhile (calls : run.KeepsCalls context known parent) {condition : Expr}
    (once : ∀ inner, Keeps context (Knows known parent) (body inner) (Outcome.All p)) :
    Keeps context (Knows known parent) (loopWhile run scope line span condition body)
      (Outcome.All p) := by
  refine Keeps.options.after fun _ => .inScope fun inner => ?_
  refine .whileHolds ?_ (once inner) _ (by simp [RunsAll])
  exact (keeps_expr calls inner condition).after fun _ => .pure trivial

theorem Keeps.wholeNumber {e : Expr} {value : Value} :
    Keeps context (Knows known parent) (wholeNumber e value) Anything := by
  unfold Evaluation.wholeNumber
  split
  · exact .ite (.pure trivial) .throw
  · exact .throw

theorem Keeps.loopCount (calls : run.KeepsCalls context known parent) {counter : String}
    {start stop : Expr} {inclusive : Bool}
    (once : ∀ inner, Keeps context (Knows known parent) (body inner) (Outcome.All p)) :
    Keeps context (Knows known parent)
      (loopCount run scope line span counter start stop inclusive body) (Outcome.All p) := by
  refine (keeps_expr calls scope start).after fun _ => Keeps.wholeNumber.after fun _ => ?_
  refine (keeps_expr calls scope stop).after fun _ => Keeps.wholeNumber.after fun _ => ?_
  refine Keeps.ofValue.after fun _ => Keeps.options.after fun _ => .ite .throw ?_
  refine .inScope fun inner => .forIntegers (fun i => ?_) _ (by simp [RunsAll])
  exact Keeps.after (.modifyEnv fun env all => all.declare inner counter _) fun _ => once inner

theorem Keeps.loopEach (calls : run.KeepsCalls context known parent) {item : String} {list : Expr}
    (once : ∀ inner, Keeps context (Knows known parent) (body inner) (Outcome.All p)) :
    Keeps context (Knows known parent) (loopEach run scope line span item list body)
      (Outcome.All p) := by
  refine (keeps_expr calls scope list).after fun _ => Keeps.options.after fun _ => .ite .throw ?_
  refine .inScope fun inner => .forValues (fun value => ?_) _ (by simp [RunsAll])
  exact Keeps.after (.modifyEnv fun env all => all.declare inner item value) fun _ => once inner

end Loops

end Stylesheet.Evaluation
