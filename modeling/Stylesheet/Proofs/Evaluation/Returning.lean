import Stylesheet.Proofs.Evaluation.Calls
import Stylesheet.Proofs.Evaluation.Checked

/-! An `@return` takes effect in the body of a function and nowhere else. Only control directives pass
one on, and the check of the nesting sees through these. So no stylesheet, block, mixin or import that
was checked ends early: what is evaluated outside of functions is evaluated to its end. -/

namespace Stylesheet.Evaluation

open Nesting Statement

/-- No value of an `@return` comes out of an action. -/
def ReturnsNothing (context : Context) (action : Evaluating Outcome) : Prop :=
  ∀ state outcome final, action context state = .ok outcome final → outcome.returned = none

section Statements

variable {context : Context} {run : Runner} {scope : ScopeId} {checked direct : Enclosure}

theorem ReturnsNothing.pure {outcome : Outcome} (nothing : outcome.returned = none) :
    ReturnsNothing context (pure outcome) := by
  intro state given final ok
  cases ok
  exact nothing

theorem ReturnsNothing.throw {error : Diagnostic} :
    ReturnsNothing context (throw error : Evaluating Outcome) := by
  intro state outcome final ok
  cases ok

/-- It is what comes last that counts. -/
theorem ReturnsNothing.behind {first : Evaluating α} {next : α → Evaluating Outcome}
    (nothing : ∀ a, ReturnsNothing context (next a)) : ReturnsNothing context (first >>= next) := by
  intro state outcome final ok
  obtain ⟨a, middle, _, rest⟩ := bind_ok ok
  exact nothing a middle outcome final rest

theorem ReturnsNothing.bind {first : Evaluating Outcome} {next : Outcome → Evaluating Outcome}
    (start : ReturnsNothing context first)
    (nothing : ∀ outcome, outcome.returned = none → ReturnsNothing context (next outcome)) :
    ReturnsNothing context (first >>= next) := by
  intro state outcome final ok
  obtain ⟨early, middle, found, rest⟩ := bind_ok ok
  exact nothing early (start state early middle found) middle outcome final rest

theorem ReturnsNothing.ite {condition : Prop} [Decidable condition] {one other : Evaluating Outcome}
    (left : ReturnsNothing context one) (right : ReturnsNothing context other) :
    ReturnsNothing context (if condition then one else other) := by
  split
  · exact left
  · exact right

theorem ReturnsNothing.ensuring {restore : State → State} {action : Evaluating Outcome}
    (nothing : ReturnsNothing context action) : ReturnsNothing context (ensuring restore action) := by
  intro state outcome final ok
  unfold Evaluation.ensuring at ok
  split at ok
  · rename_i middle found
    cases ok
    exact nothing state _ _ found
  · cases ok

theorem ReturnsNothing.amending {amend : Diagnostic → Diagnostic} {action : Evaluating Outcome}
    (nothing : ReturnsNothing context action) : ReturnsNothing context (amending amend action) := by
  intro state outcome final ok
  unfold Evaluation.amending at ok
  split at ok
  · rename_i middle found
    cases ok
    exact nothing state _ _ found
  · cases ok

theorem ReturnsNothing.inScope {body : ScopeId → Evaluating Outcome}
    (nothing : ∀ inner, ReturnsNothing context (body inner)) :
    ReturnsNothing context (inScope scope body) :=
  .behind fun inner => (nothing inner).ensuring

theorem ReturnsNothing.forStatement {line : Nat} {filename : Option String}
    {action : Evaluating Outcome} (nothing : ReturnsNothing context action) :
    ReturnsNothing context (forStatement line filename action) :=
  .behind fun _ => .behind fun _ => nothing.ensuring.amending

/-- A loop goes on after a run of its body that returned nothing. -/
theorem ReturnsNothing.goOn {outcome : Outcome} {runs : List (List Css)} {more : Evaluating Outcome}
    (goesOn : outcome.returned = none) (rest : ReturnsNothing context more) :
    ReturnsNothing context (match outcome.returned with
      | some value => Pure.pure (gather runs (some value))
      | none => more) := by
  rw [goesOn]
  exact rest

theorem ReturnsNothing.whileHolds {condition : Evaluating Bool} {body : Evaluating Outcome}
    {tooMany : Diagnostic} (nothing : ReturnsNothing context body) (remaining : Nat)
    {runs : List (List Css)} :
    ReturnsNothing context (whileHolds condition body tooMany runs remaining) := by
  induction remaining generalizing runs with
  | zero => exact .behind fun _ => .ite .throw (.pure rfl)
  | succ remaining ih =>
    exact .behind fun _ => .ite (nothing.bind fun outcome goesOn => .goOn goesOn ih) (.pure rfl)

theorem ReturnsNothing.forIntegers {body : Int → Evaluating Outcome}
    (nothing : ∀ i, ReturnsNothing context (body i)) (remaining : Nat) {next : Int}
    {runs : List (List Css)} : ReturnsNothing context (forIntegers body runs next remaining) := by
  induction remaining generalizing runs next with
  | zero => exact .pure rfl
  | succ remaining ih => exact (nothing next).bind fun outcome goesOn => .goOn goesOn ih

theorem ReturnsNothing.forValues {body : Value → Evaluating Outcome}
    (nothing : ∀ value, ReturnsNothing context (body value)) (values : List Value)
    {runs : List (List Css)} : ReturnsNothing context (forValues body runs values) := by
  induction values generalizing runs with
  | nil => exact .pure rfl
  | cons value values ih => exact (nothing value).bind fun outcome goesOn => .goOn goesOn ih

/-- Nothing comes out of a mixin. -/
theorem ReturnsNothing.includeMixin {place : Place} {name : String} {args : Arguments} :
    ReturnsNothing context (includeMixin run scope place name args) := by
  refine .behind fun state => ?_
  dsimp only
  split
  · exact .throw
  · split
    · exact .throw
    · refine .behind fun _ => .amending (.behind fun _ => .ensuring ?_)
      exact .behind fun _ => .behind fun _ => .pure rfl

/-- Nothing comes out of an imported stylesheet. -/
theorem ReturnsNothing.importStylesheet {line : Nat} {span : Span} {filename : Option String}
    {uri : String} : ReturnsNothing context (importStylesheet run scope line span filename uri) := by
  refine .behind fun around => .behind fun state => .behind fun _ => ?_
  split
  · exact .throw
  · exact .throw
  · refine .behind fun _ => .amending (.ensuring ?_)
    exact .behind fun _ => .behind fun _ => .behind fun _ => .behind fun _ => .behind fun _ => .pure rfl

theorem eq_function_of_returning {value : Expr}
    (here : violation? checked direct (.returning value) = none) : checked = .function := by
  cases checked <;> simp [violation?, isFunctionStatement, isPropertyStatement] at here ⊢

/-- A statement that is no conditional returns nothing outside of a function, unless it is a loop
whose body does. -/
theorem ReturnsNothing.simpleStatement (notFunction : checked ≠ .function) {kind : StatementKind}
    {children : List Statement} {line : Nat} {span : Span} {filename : Option String} {place : Place}
    (fits : Fits checked direct (.mk kind children line span filename))
    {body : ScopeId → Evaluating Outcome}
    (inner : Enclosure.ofKind kind = .control → ∀ scope, ReturnsNothing context (body scope)) :
    ReturnsNothing context (simpleStatement run scope place children body kind) := by
  unfold Evaluation.simpleStatement
  cases kind with
  | root =>
    cases fits.parsed with
    | intro notRoot => exact absurd rfl notRoot
  | returning value => exact absurd (eq_function_of_returning fits.here) notFunction
  | loopWhile condition => exact .behind fun _ => .inScope fun scope => .whileHolds (inner rfl scope) _
  | loopCount counter start stop inclusive =>
    refine .behind fun _ => .behind fun _ => .behind fun _ => .behind fun _ => .behind fun _ => ?_
    refine .behind fun _ => .ite .throw (.inScope fun scope => .forIntegers (fun i => ?_) _)
    exact .behind fun _ => inner rfl scope
  | loopEach item list =>
    refine .behind fun _ => .behind fun _ => .ite .throw (.inScope fun scope => ?_)
    exact .forValues (fun value => .behind fun _ => inner rfl scope) _
  | includeMixin name args => exact .includeMixin
  | importing target =>
    cases target with
    | stylesheet uri => exact .importStylesheet
    | css text => exact .behind fun _ => .pure rfl
  | comment text silent => exact .ite (.pure rfl) (.behind fun _ => .pure rfl)
  | property name value =>
    refine .behind fun name => ?_
    cases value with
    | none => exact .behind fun _ => .behind fun _ => .pure rfl
    | some e => exact .behind fun _ => .behind fun _ => .behind fun _ => .behind fun _ => .pure rfl
  | rule | directive | media | debug | warn =>
    exact .behind fun _ => .behind fun _ => .pure rfl
  | assign | defineMixin | defineFunction | extend => exact .behind fun _ => .pure rfl
  | charset | branch => exact .pure rfl

-- The induction follows the control directives; nothing else passes on what its block returns.
mutual

theorem returnsNothing_statement (notFunction : checked ≠ .function) (scope : ScopeId)
    (direct : Enclosure) : (s : Statement) → Fits checked direct s →
      ReturnsNothing context (statement run scope s)
  | .mk kind children line span filename, fits => by
    have block (control : Enclosure.ofKind kind = .control) (scope : ScopeId) :
        ReturnsNothing context (statements run scope children) := by
      refine returnsNothing_statements notFunction scope .control children fun s member => ?_
      have inner := fits.inner s member
      rwa [Statement.kind, control] at inner
    cases kind with
    | branch condition other =>
      unfold statement
      have otherwise : ∀ s, other = some s → Fits checked direct s := by
        rintro s rfl
        exact fits.otherwise rfl
      refine .forStatement (.behind fun _ => .ite (.inScope (block rfl)) ?_)
      exact returnsNothing_otherBranch notFunction scope direct other otherwise
    | _ =>
      unfold statement
      exact .forStatement (.simpleStatement notFunction fits block)

theorem returnsNothing_otherBranch (notFunction : checked ≠ .function) (scope : ScopeId)
    (direct : Enclosure) : (other : Option Statement) →
      (∀ s, other = some s → Fits checked direct s) →
      ReturnsNothing context (otherBranch run scope other)
  | none, _ => .pure rfl
  | some s, fits => returnsNothing_statement notFunction scope direct s (fits s rfl)

theorem returnsNothing_statements (notFunction : checked ≠ .function) (scope : ScopeId)
    (direct : Enclosure) : (body : List Statement) → (∀ s ∈ body, Fits checked direct s) →
      ReturnsNothing context (statements run scope body)
  | [], _ => .pure rfl
  | s :: rest, fits => by
    refine (returnsNothing_statement notFunction scope direct s (fits s List.mem_cons_self)).bind
      fun first goesOn => ?_
    rw [goesOn]
    refine (returnsNothing_statements notFunction scope direct rest fun t member =>
      fits t (List.mem_cons_of_mem s member)).bind fun others last => .pure last

end

end Statements

/-- What comes to be evaluated for a stylesheet outside of the bodies of functions. -/
def ReachedOutside (context : Context) (source : String) (entry : Option SourceId)
    (root : Statement) : Point → Prop :=
  Relation.ReflTransGen (fun p q => Step context p q ∧ ¬ p.task.EntersFunction)
    (Point.start context source entry root)

section Course

variable {context : Context} {source : String} {entry : Option SourceId} {root : Statement}
  {p : Point}

theorem ReachedOutside.isChecked (parsed : AllParsed root.children)
    (accepted : Nesting.check root = .ok ()) (reached : ReachedOutside context source entry root p) :
    ∃ checked, p.IsChecked context root.children checked ∧ checked ≠ .function := by
  induction reached with
  | refl => exact ⟨_, isChecked_start parsed accepted, nofun⟩
  | tail _ step ih =>
    obtain ⟨checked, isChecked, notFunction⟩ := ih
    obtain ⟨inner, next, origin⟩ := step.1.isChecked isChecked
    exact ⟨inner, next, fun isFunction => (origin isFunction).elim notFunction step.2⟩

/-- Statements that are evaluated outside of functions return nothing. -/
theorem ReachedOutside.returnsNothing (parsed : AllParsed root.children)
    (accepted : Nesting.check root = .ok ()) (reached : ReachedOutside context source entry root p)
    {body : List Statement} (isBody : p.task = .statements body) :
    ReturnsNothing context (statements (runner p.depth) p.scope body) := by
  obtain ⟨checked, isChecked, notFunction⟩ := reached.isChecked parsed accepted
  have task := isChecked.task
  rw [isBody] at task
  obtain ⟨direct, allowed⟩ := task
  exact returnsNothing_statements notFunction p.scope direct body fun s member =>
    (allowed s member).fits

/-- If statements end well and none of them returns anything, the evaluation comes to each of
them. -/
theorem reached_each {depth : Nat} {scope : ScopeId} {before after : List Statement} {s : Statement}
    {state final : State} {outcome : Outcome}
    (reached : ReachedOutside context source entry root
      ⟨depth, scope, .statements (before ++ s :: after), state⟩)
    (ok : statements (runner depth) scope (before ++ s :: after) context state = .ok outcome final)
    (nothing : outcome.returned = none) :
    ∃ here given later, ReachedOutside context source entry root ⟨depth, scope, .statement s, here⟩ ∧
      statement (runner depth) scope s context here = .ok given later := by
  induction before generalizing state outcome with
  | nil =>
    obtain ⟨first, middle, found, _⟩ := bind_ok ok
    exact ⟨state, first, middle, reached.tail ⟨.first, nofun⟩, found⟩
  | cons earlier before ih =>
    obtain ⟨first, middle, found, rest⟩ := bind_ok ok
    cases goesOn : first.returned with
    | some value =>
      rw [goesOn] at rest
      cases rest
      cases nothing
    | none =>
      rw [goesOn] at rest
      obtain ⟨others, last, restOk, same⟩ := bind_ok rest
      cases same
      exact ih (reached.tail ⟨.next found goesOn, nofun⟩) restOk nothing

/-- In a stylesheet that was checked, and in all stylesheets that it imports, no `@return` comes out of
a function: whatever statements are evaluated outside of the bodies of functions, they fail or return
nothing, and unless they fail, each of them is evaluated. -/
theorem nothing_cut_short (context : Context) (source : String) (entry : Option SourceId)
    {dialect : Dialect} {filename : Option String} {root : Statement}
    (parsed : Statement.parse source dialect filename = .ok root)
    (accepted : Nesting.check root = .ok ()) {depth : Nat} {scope : ScopeId} {body : List Statement}
    {state : State}
    (reached : ReachedOutside context source entry root ⟨depth, scope, .statements body, state⟩)
    {outcome : Outcome} {final : State}
    (ok : statements (runner depth) scope body context state = .ok outcome final) :
    outcome.returned = none ∧
      ∀ before s after, body = before ++ s :: after → ∃ here given later,
        ReachedOutside context source entry root ⟨depth, scope, .statement s, here⟩ ∧
          statement (runner depth) scope s context here = .ok given later := by
  have nothing : outcome.returned = none :=
    reached.returnsNothing (parse_allParsed parsed) accepted rfl state outcome final ok
  refine ⟨nothing, ?_⟩
  rintro before s after rfl
  exact reached_each reached ok nothing

/-- A function returns a value, from an `@if` in it, to what stands in several blocks. -/
def returningSource : String :=
  "@function f($x) \x7b @if $x \x7b @return b; \x7d @return c; \x7d\n" ++
    ".a \x7b @media print \x7b d: f(e); \x7d g: f(h); \x7d\n.i \x7b j: k; \x7d"

theorem nothing_cut_short_of_returning :
    ∃ root outcome final, Statement.parse returningSource .scss none = .ok root ∧
      Nesting.check root = .ok () ∧
      statements (runner (depthBound plainContext)) Environment.global root.children plainContext
        (Compilation.start plainContext.options returningSource none) = .ok outcome final ∧
      root.children.length = 3 ∧ outcome.returned = none ∧
      ∀ before s after, root.children = before ++ s :: after → ∃ here given later,
        ReachedOutside plainContext returningSource none root
          ⟨depthBound plainContext, Environment.global, .statement s, here⟩ ∧
        statement (runner (depthBound plainContext)) Environment.global s plainContext here =
          .ok given later := by
  have spelled : returningSource.toList = _ :=
    Statement.toList_append_of_toList String.toList_ofList String.toList_ofList
  have check : ((Statement.parse returningSource .scss none).toOption.any fun root =>
      (Nesting.check root).toOption.isSome && root.children.length == 3 &&
        match statements (runner (depthBound plainContext)) Environment.global root.children
          plainContext (Compilation.start plainContext.options returningSource none) with
        | .ok _ _ => true
        | .error _ _ => false) = true := by
    rw [Statement.parse_of_toList spelled]
    decide +kernel
  cases read : Statement.parse returningSource .scss none with
  | error error =>
    rw [read] at check
    cases check
  | ok root =>
    rw [read] at check
    simp only [Except.toOption, Option.any_some, Bool.and_eq_true, beq_iff_eq] at check
    obtain ⟨⟨accepted, three⟩, succeeds⟩ := check
    cases isAccepted : Nesting.check root with
    | error errors => simp [isAccepted] at accepted
    | ok =>
      split at succeeds
      · rename_i outcome final ok
        obtain ⟨nothing, each⟩ :=
          nothing_cut_short plainContext returningSource none read isAccepted .refl ok
        exact ⟨root, outcome, final, rfl, isAccepted, ok, three, nothing, each⟩
      · cases succeeds

end Course

end Stylesheet.Evaluation
