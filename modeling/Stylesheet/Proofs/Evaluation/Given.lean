import Stylesheet.Proofs.Evaluation.Outside

/-! What holds of all nodes that evaluation gives. It is enough that the node of each kind of
statement has a property if those below it have it, and that mixins and imports may bring nodes
that have it to their places. -/

namespace Stylesheet.Evaluation

open Nesting Statement

/-- The nodes that a statement stands for by itself. -/
inductive Makes : StatementKind → Css → Prop where
  | rule : Makes (.rule parts) (.node (.rule selector) held place file)
  | property : Makes (.property parts e) (.node (.property word value) held place file)
  | comment : Makes (.comment parts silent) (.node (.comment text preserved) [] place file)
  | directive : Makes (.directive word parts block)
      (.node (.directive word params block) held place file)
  | media : Makes (.media parts) (.node (.media query) held place file)
  | charset : Makes (.charset word) (.node (.charset word) [] place file)
  | importing : Makes (.importing (.css parts)) (.node (.importing uri) [] place file)
  | extend : Makes (.extend parts) (.node (.extend selector) [] place file)

/-- A property of nodes that holds of all that allowed statements give. It may depend on what is
around the node and on where the statement was checked. -/
structure IsGiven (context : Context) (entry : List Statement)
    (p : (parent checked : Enclosure) → Css → Prop) : Prop where
  made : Allowed context entry parent checked direct s → Makes s.kind c →
    (∀ d ∈ c.children, p (Enclosure.ofKind s.kind) (Enclosure.ofKind s.kind) d) → p parent checked c
  included : Allowed context entry parent checked direct s → s.kind = .includeMixin name args →
    p parent .mixin c → p parent checked c
  imported : Allowed context entry parent checked direct s →
    s.kind = .importing (.stylesheet uri) → p parent parent c → p parent checked c

/-- What is evaluated elsewhere keeps what is known, and the nodes that allowed statements give
have a property. -/
structure Runner.Gives (context : Context) (entry : List Statement)
    (p : (parent checked : Enclosure) → Css → Prop) (run : Runner) : Prop where
  expr : ∀ parent e scope,
    Keeps context (Knows (IsDefined context entry) parent) (run.expr e scope) Anything
  body : ∀ parent checked direct scope body,
    (∀ s ∈ body, Allowed context entry parent checked direct s) →
    Keeps context (Knows (IsDefined context entry) parent) (run.body body scope)
      (Outcome.All (p parent checked))

section Statements

variable {context : Context} {entry : List Statement} {parent checked direct : Enclosure}
  {p : (parent checked : Enclosure) → Css → Prop} {run : Runner} {scope : ScopeId}

theorem Runner.Gives.calls (runs : run.Gives context entry p)
    (parent : Enclosure) : run.KeepsCalls context (IsDefined context entry) parent where
  expr := runs.expr parent
  function := by
    intro function isFunction isDefined scope
    exact (runs.body parent .function .function scope function.body
      (isDefined.allowed_function isFunction)).weaken fun _ _ => trivial

theorem Keeps.trimmedText (runs : run.Gives context entry p) {parts : Template} :
    Keeps context (Knows (IsDefined context entry) parent) (trimmedText run scope parts)
      Anything :=
  (keeps_template (runs.calls parent) scope parts).after fun _ => .pure trivial

theorem Keeps.selectorOf (runs : run.Gives context entry p) {place : Place}
    {selector : Template} :
    Keeps context (Knows (IsDefined context entry) parent) (selectorOf run scope place selector)
      Anything := by
  refine (keeps_template (runs.calls parent) scope selector).after fun text => ?_
  split
  · exact .pure trivial
  · exact .throw

theorem Keeps.nested {inner : Enclosure} {body : ScopeId → Evaluating Outcome}
    {holds : Css → Prop}
    (keeps : ∀ scope, Keeps context (Knows (IsDefined context entry) inner) (body scope)
      (Outcome.All holds)) :
    Keeps context (Knows (IsDefined context entry) parent) (nested inner scope body)
      (fun children => ∀ c ∈ children, holds c) :=
  Keeps.bind (.inside (.inScope keeps)) fun _ all => .pure all

theorem Keeps.includeMixin (given : IsGiven context entry p) (runs : run.Gives context entry p)
    {s : Statement}
    (allowed : Allowed context entry parent checked direct s) {place : Place} {name : String}
    {args : Arguments} (kind : s.kind = .includeMixin name args) :
    Keeps context (Knows (IsDefined context entry) parent) (includeMixin run scope place name args)
      (Outcome.All (p parent checked)) := by
  refine Keeps.get.bind fun state knows => ?_
  dsimp only
  split
  · exact .throw
  · split
    · exact .throw
    · rename_i mixin found
      have body := allowed.included kind (knows.definitions.mixin? found)
      refine Keeps.checkDepth.after fun _ => .amending (.duringCall ?_)
      refine (Keeps.arguments (runs.calls parent)).after fun values => ?_
      refine (Keeps.withArguments (runs.calls parent) fun inner =>
        runs.body parent .mixin .mixin inner mixin.body body).bind fun outcome all => .pure ?_
      exact fun c member => given.included allowed kind (all c member)

theorem Keeps.enterImport {id : SourceId} {line : Nat} {span : Span} :
    Keeps context (Knows (IsDefined context entry) parent) (enterImport id line span) Anything := by
  refine Keeps.get.bind fun state knows => ?_
  split
  · intro before a final _ ok
    cases ok
    exact ⟨⟨knows.around, knows.definitions⟩, trivial⟩
  · exact .throw

theorem Keeps.firstError {result : Except (List Diagnostic) Unit} :
    Keeps context (Knows (IsDefined context entry) parent) (firstError result)
      (fun _ => result = .ok ()) := by
  unfold Evaluation.firstError
  split
  · exact .pure rfl
  · exact .throw

theorem violations_of_checkImported {found : List Statement}
    (accepted : checkImported parent found = .ok ()) : violations parent .importing found = [] := by
  unfold checkImported at accepted
  split at accepted
  · assumption
  · cases accepted

/-- A stylesheet that is imported is checked at its place. -/
theorem Keeps.importSource (given : IsGiven context entry p) (runs : run.Gives context entry p)
    {s : Statement}
    (allowed : Allowed context entry parent checked direct s) {uri : String}
    (kind : s.kind = .importing (.stylesheet uri)) {base : Option SourceId} {id : SourceId}
    {source : ImportedSource}
    (found : (Importers.resolve context.files context.importers uri base).1 =
      .ok (some (id, source))) :
    Keeps context (Knows (IsDefined context entry) parent) (importSource run scope id source)
      (Outcome.All (p parent checked)) := by
  refine Keeps.after (.modify fun _ before => ⟨before.around, before.definitions⟩) fun _ => ?_
  refine (Keeps.lift fun root parsed => parsed).bind fun root parsed => ?_
  refine Keeps.get.bind fun state knows => Keeps.firstError.bind fun _ accepted => ?_
  rw [knows.around] at accepted
  have body := allowed.imported kind ⟨base, id, source, root, found, parsed, rfl⟩
    (violations_of_checkImported accepted)
  refine (Keeps.inFile (runs.body parent parent .importing scope root.children body)).bind ?_
  intro outcome all
  exact .pure fun c member => given.imported allowed kind (all c member)

theorem Keeps.importStylesheet (given : IsGiven context entry p)
    (runs : run.Gives context entry p) {s : Statement}
    (allowed : Allowed context entry parent checked direct s) {line : Nat} {span : Span}
    {filename : Option String} {uri : String} (kind : s.kind = .importing (.stylesheet uri)) :
    Keeps context (Knows (IsDefined context entry) parent)
      (importStylesheet run scope line span filename uri) (Outcome.All (p parent checked)) := by
  refine Keeps.read.bind fun around same => Keeps.get.after fun state => ?_
  subst same
  dsimp only
  cases resolved : (Importers.resolve around.files around.importers uri state.file).1 with
  | error error => exact Keeps.logEntries.after fun _ => .throw
  | ok target =>
    cases target with
    | none => exact Keeps.logEntries.after fun _ => .throw
    | some found =>
      refine Keeps.logEntries.after fun _ => Keeps.enterImport.after fun _ => .amending ?_
      refine (Keeps.importSource given runs allowed kind resolved).ensuring ?_
      intro state before
      exact ⟨before.around, before.definitions⟩

theorem Keeps.property (given : IsGiven context entry p) (runs : run.Gives context entry p)
    {s : Statement} (allowed : Allowed context entry parent checked direct s) {place : Place}
    {name : Template} {value : Option Expr} (kind : s.kind = .property name value)
    {body : ScopeId → Evaluating Outcome}
    (keeps : ∀ scope, Keeps context (Knows (IsDefined context entry) .property) (body scope)
      (Outcome.All (p .property .property))) :
    Keeps context (Knows (IsDefined context entry) parent)
      (property run scope place name value body) (Outcome.All (p parent checked)) := by
  have finish : ∀ name value, Keeps context (Knows (IsDefined context entry) parent) (do
      let children ← Evaluation.nested .property scope body
      return .ofCss (place.node (.property name value) children)) (Outcome.All (p parent checked)) := by
    intro name value
    refine (Keeps.nested keeps).bind fun children all => .pure (Outcome.all_ofCss ?_)
    refine given.made allowed ?_ ?_
    · rw [kind]
      exact .property
    · rw [kind]
      exact all
  refine (Keeps.trimmedText runs).after fun name => ?_
  cases value with
  | none => exact finish name none
  | some e =>
    refine (keeps_expr (runs.calls parent) scope e).after fun value => ?_
    exact Keeps.cssText.after fun _ => finish name (some value)

theorem Keeps.assign (runs : run.Gives context entry p) {name : String} {value : Expr}
    {guarded : Bool} :
    Keeps context (Knows (IsDefined context entry) parent) (assign run scope name value guarded)
      Anything := by
  refine Keeps.get.after fun _ => .ite (.pure trivial) ?_
  refine (keeps_expr (runs.calls parent) scope value).after fun value => ?_
  exact .modifyEnv fun env all => all.assign scope name value

theorem Keeps.debugValue {place : Place} {value : Value} :
    Keeps context (Knows (IsDefined context entry) parent) (debugValue place value) Anything :=
  Keeps.options.after fun _ => .ite .logEntries (.pure trivial)

theorem Keeps.warnAbout {place : Place} {value : Value} :
    Keeps context (Knows (IsDefined context entry) parent) (warnAbout place value) Anything :=
  Keeps.get.after fun _ => .warn

theorem Keeps.isTaken (runs : run.Gives context entry p) {condition : Option Expr} :
    Keeps context (Knows (IsDefined context entry) parent) (isTaken run scope condition)
      Anything := by
  cases condition with
  | none => exact .pure trivial
  | some e => exact (keeps_expr (runs.calls parent) scope e).after fun _ => .pure trivial

theorem Keeps.simpleStatement (given : IsGiven context entry p)
    (runs : run.Gives context entry p) {kind : StatementKind} {children : List Statement}
    {line : Nat} {span : Span} {filename : Option String} {place : Place}
    (allowed : Allowed context entry parent checked direct (.mk kind children line span filename))
    {body : ScopeId → Evaluating Outcome}
    (inner : ∀ parent checked direct,
      (∀ s ∈ children, Allowed context entry parent checked direct s) →
      ∀ scope, Keeps context (Knows (IsDefined context entry) parent) (body scope)
        (Outcome.All (p parent checked))) :
    Keeps context (Knows (IsDefined context entry) parent)
      (simpleStatement run scope place children body kind) (Outcome.All (p parent checked)) := by
  have nothing : Outcome.nothing.All (p parent checked) := Outcome.all_nothing
  have made {c : Css} (makes : Makes kind c)
      (below : ∀ d ∈ c.children, p (Enclosure.ofKind kind) (Enclosure.ofKind kind) d) :
      (Outcome.ofCss c).All (p parent checked) :=
    Outcome.all_ofCss (given.made allowed makes below)
  have leaf {c : Css} (makes : Makes kind c) (empty : c.children = []) :
      (Outcome.ofCss c).All (p parent checked) :=
    made makes (by simp [empty])
  have calls := runs.calls parent
  cases kind with
  | root =>
    cases allowed.fits.parsed with
    | intro notRoot => exact absurd rfl notRoot
  | rule selector =>
    refine (Keeps.selectorOf runs).after fun _ => ?_
    exact (Keeps.nested (inner .rule .rule .rule (allowed.nested rfl rfl (by simp)))).bind
      fun _ all => .pure (made .rule all)
  | property name value =>
    exact .property given runs allowed rfl
      (inner .property .property .property (allowed.nested rfl rfl (by simp)))
  | comment text silent =>
    refine .ite (.pure nothing) ?_
    exact (keeps_template calls scope text).after fun _ => .pure (leaf .comment rfl)
  | directive name params hasBlock =>
    refine (Keeps.trimmedText runs).after fun _ => ?_
    exact (Keeps.nested (inner .directive .directive .directive
      (allowed.nested rfl rfl (by simp)))).bind fun _ all => .pure (made .directive all)
  | media query =>
    refine (Keeps.trimmedText runs).after fun _ => ?_
    exact (Keeps.nested (inner .media .media .media (allowed.nested rfl rfl (by simp)))).bind
      fun _ all => .pure (made .media all)
  | charset name => exact .pure (leaf .charset rfl)
  | importing target =>
    cases target with
    | stylesheet uri => exact .importStylesheet given runs allowed rfl
    | css text => exact (Keeps.trimmedText runs).after fun _ => .pure (leaf .importing rfl)
  | assign name value guarded => exact (Keeps.assign runs).after fun _ => .pure nothing
  | defineMixin name params =>
    refine Keeps.after (.modifyEnv fun env all => ?_) fun _ => .pure nothing
    exact all.define scope (allowed.isDefined_mixin rfl)
  | defineFunction name params =>
    refine Keeps.after (.modifyEnv fun env all => ?_) fun _ => .pure nothing
    exact all.define scope (allowed.isDefined_function rfl)
  | includeMixin name args => exact .includeMixin given runs allowed rfl
  | returning value => exact (keeps_expr calls scope value).after fun _ => .pure nothing
  | extend selector => exact (Keeps.selectorOf runs).after fun _ => .pure (leaf .extend rfl)
  | branch condition other => exact .pure nothing
  | loopWhile condition => exact .loopWhile calls (inner _ _ _ (allowed.controlled rfl))
  | loopCount counter start stop inclusive =>
    exact .loopCount calls (inner _ _ _ (allowed.controlled rfl))
  | loopEach item list => exact .loopEach calls (inner _ _ _ (allowed.controlled rfl))
  | debug value =>
    refine (keeps_expr calls scope value).after fun _ => Keeps.debugValue.after fun _ => ?_
    exact .pure nothing
  | warn value =>
    refine (keeps_expr calls scope value).after fun _ => Keeps.warnAbout.after fun _ => ?_
    exact .pure nothing

-- The induction follows the statements; what lies outside of the one at hand is left to `runs`.
mutual

theorem keeps_statement (given : IsGiven context entry p) (runs : run.Gives context entry p)
    (parent checked direct : Enclosure)
    (scope : ScopeId) : (s : Statement) → Allowed context entry parent checked direct s →
      Keeps context (Knows (IsDefined context entry) parent) (statement run scope s)
        (Outcome.All (p parent checked))
  | .mk kind children line span filename, allowed => by
    have inner (parent checked direct : Enclosure)
        (all : ∀ s ∈ children, Allowed context entry parent checked direct s) (scope : ScopeId) :=
      keeps_statements given runs parent checked direct scope children all
    cases kind with
    | branch condition other =>
      unfold statement
      have otherwise : ∀ s, other = some s → Allowed context entry parent checked direct s := by
        rintro s rfl
        exact allowed.otherwise rfl
      refine .forStatement ((Keeps.isTaken runs).after fun _ => .ite ?_ ?_)
      · exact .inScope (inner parent checked .control (allowed.controlled rfl))
      · exact keeps_otherBranch given runs parent checked direct scope other otherwise
    | _ =>
      unfold statement
      exact .forStatement (.simpleStatement given runs allowed inner)

theorem keeps_otherBranch (given : IsGiven context entry p) (runs : run.Gives context entry p)
    (parent checked direct : Enclosure)
    (scope : ScopeId) : (other : Option Statement) →
      (∀ s, other = some s → Allowed context entry parent checked direct s) →
      Keeps context (Knows (IsDefined context entry) parent) (otherBranch run scope other)
        (Outcome.All (p parent checked))
  | none, _ => .pure Outcome.all_nothing
  | some s, allowed => keeps_statement given runs parent checked direct scope s (allowed s rfl)

theorem keeps_statements (given : IsGiven context entry p) (runs : run.Gives context entry p)
    (parent checked direct : Enclosure)
    (scope : ScopeId) : (found : List Statement) →
      (∀ s ∈ found, Allowed context entry parent checked direct s) →
      Keeps context (Knows (IsDefined context entry) parent) (statements run scope found)
        (Outcome.All (p parent checked))
  | [], _ => .pure Outcome.all_nothing
  | s :: rest, all => by
    have head := keeps_statement given runs parent checked direct scope s
      (all s List.mem_cons_self)
    have tail := keeps_statements given runs parent checked direct scope rest
      fun t member => all t (List.mem_cons_of_mem s member)
    refine head.bind fun first given => ?_
    split
    · exact .pure given
    · refine tail.bind fun others more => .pure ?_
      intro c member
      rcases List.mem_append.mp member with early | late
      · exact given c early
      · exact more c late

end

/-- By induction on how many calls and imports may be active. -/
theorem runner_gives (given : IsGiven context entry p) (depth : Nat) :
    (runner depth).Gives context entry p := by
  induction depth with
  | zero => exact ⟨fun _ _ _ => .throw, fun _ _ _ _ _ _ => .throw⟩
  | succ depth ih =>
    constructor
    · intro parent e scope
      exact keeps_expr (ih.calls parent) scope e
    · intro parent checked direct scope body all
      exact keeps_statements given ih parent checked direct scope body all

/-- What stands at the top of a stylesheet that was checked is allowed there. -/
theorem allowed_of_check {root : Statement} (parsed : AllParsed root.children)
    (accepted : Nesting.check root = .ok ()) :
    ∀ s ∈ root.children, Allowed context root.children .root .root .root s := by
  have clean : violations .root .root root.children = [] := by
    unfold Nesting.check at accepted
    split at accepted
    · assumption
    · cases accepted
  exact fun s member => ⟨.inl rfl, fits_of_violations clean parsed s member,
    fun _ _ => .top member, _, .top member⟩

/-- A stylesheet that was checked gives a root with such nodes. -/
theorem stylesheet_given {root : Statement} {tree : Css} {state final : State}
    (given : IsGiven context root.children p) (parsed : AllParsed root.children)
    (accepted : Nesting.check root = .ok ()) (fresh : state.env = .initial)
    (atRoot : state.parent = .root) (ok : stylesheet root context state = .ok tree final) :
    tree.kind = .root ∧ ∀ c ∈ tree.children, p .root .root c := by
  have whole : Keeps context (Knows (IsDefined context root.children) .root) (stylesheet root)
      fun tree => tree.kind = .root ∧ ∀ c ∈ tree.children, p .root .root c := by
    refine Keeps.read.after fun _ => ?_
    exact (keeps_statements given (runner_gives given _) .root .root .root Environment.global
      root.children (allowed_of_check parsed accepted)).bind fun outcome all => .pure ⟨rfl, all⟩
  have start : Knows (IsDefined context root.children) .root state := by
    refine ⟨atRoot, ?_⟩
    rw [fresh]
    exact Environment.allKnown_initial
  exact (whole state tree final start ok).2

end Statements

end Stylesheet.Evaluation
