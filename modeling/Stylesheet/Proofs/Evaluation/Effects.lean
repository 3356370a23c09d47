import Stylesheet.Proofs.Evaluation.Checked
import Stylesheet.Proofs.Evaluation.Frame

/-! What an expression can change. It changes something only by calling functions, and the check of the
nesting lets no definition stand in the body of a function. So no scope comes to be kept and none is
left open, whether the evaluation succeeds or fails; and as all scopes around a function are kept, no
other scope changes at all. -/

namespace Stylesheet

/-- A scope apart from the values of its variables. -/
def Scope.outline (scope : Scope) : Scope :=
  { scope with values := [] }

namespace Environment

/-- The scopes apart from the values of their variables. -/
def outlines (env : Environment) : Array Scope :=
  env.scopes.map Scope.outline

/-- Only the values of variables change, and only in scopes that are kept. -/
structure SparesLocals (env after : Environment) : Prop where
  outlines : after.outlines = env.outlines
  locals : ∀ (id : ScopeId) (scope : Scope), env.scopes[id]? = some scope →
    scope.captured = false → after.scopes[id]? = some scope

variable {env middle after : Environment}

theorem size_of_outlines (same : after.outlines = env.outlines) :
    after.scopes.size = env.scopes.size := by
  simpa [outlines] using congrArg Array.size same

theorem exists_of_outlines (same : after.outlines = env.outlines) {id : ScopeId} {scope : Scope}
    (found : after.scopes[id]? = some scope) :
    ∃ old, env.scopes[id]? = some old ∧ scope.outline = old.outline := by
  have outline : after.outlines[id]? = some scope.outline := by simp [outlines, found]
  rw [same] at outline
  simp only [outlines, Array.getElem?_map, Option.map_eq_some_iff] at outline
  obtain ⟨old, before, isOutline⟩ := outline
  exact ⟨old, before, isOutline.symm⟩

theorem outlines_declare (env : Environment) (id : ScopeId) (name : String) (value : Value) :
    (env.declare id name value).outlines = env.outlines := by
  refine Array.ext_getElem? fun other => ?_
  simp only [outlines, declare, Array.getElem?_map, Array.getElem?_modify]
  split
  · rw [Option.map_map]
    rfl
  · rfl

theorem outlines_push (env : Environment) (parent : ScopeId) :
    (env.push parent).1.outlines = env.outlines.push (freshScope (some parent)) := by
  simp [outlines, push, Scope.outline, freshScope]

/-- A scope that is not kept goes away when it is closed. -/
theorem pop_of_fresh {id : ScopeId} {scope : Scope} (notFirst : id ≠ 0)
    (last : id + 1 = env.scopes.size) (found : env.scopes[id]? = some scope)
    (fresh : scope.captured = false) : env.pop id = { env with scopes := env.scopes.pop } := by
  unfold pop
  rw [if_neg]
  simp [notFirst, last, found, fresh]

/-- Nothing is left of a scope that is opened and closed again, unless it comes to be kept. -/
theorem outlines_pop_push {parent : ScopeId} (notEmpty : 0 < env.scopes.size)
    (same : after.outlines = (env.push parent).1.outlines) :
    (after.pop env.scopes.size).outlines = env.outlines := by
  have size : env.scopes.size + 1 = after.scopes.size := by
    rw [size_of_outlines same]
    simp [push]
  have alive : env.scopes.size < after.scopes.size := size ▸ Nat.lt_succ_self _
  obtain ⟨old, before, isOutline⟩ := exists_of_outlines same (Array.getElem?_eq_getElem alive)
  have isFresh : after.scopes[env.scopes.size].captured = false := by
    simp only [push, Array.getElem?_push_size, Option.some.injEq] at before
    subst before
    exact congrArg Scope.captured isOutline
  rw [pop_of_fresh (Nat.ne_of_gt notEmpty) size (Array.getElem?_eq_getElem alive) isFresh]
  rw [outlines_push] at same
  calc (after.scopes.pop).map Scope.outline
      = after.outlines.pop := by simp [outlines]
    _ = env.outlines := by rw [same, Array.pop_push]

theorem AllKnown.weaken {known weaker : Callable → Prop} (all : env.AllKnown known)
    (weaken : ∀ callable, known callable → weaker callable) : env.AllKnown weaker := by
  intro id scope found
  obtain ⟨mixins, functions⟩ := all id scope found
  exact ⟨fun entry member => ⟨(mixins entry member).key, (mixins entry member).kind,
      weaken _ (mixins entry member).known⟩,
    fun entry member => ⟨(functions entry member).key, (functions entry member).kind,
      weaken _ (functions entry member).known⟩⟩

theorem AllKnown.of_outlines {known : Callable → Prop} (all : env.AllKnown known)
    (same : after.outlines = env.outlines) : after.AllKnown known := by
  intro id scope found
  obtain ⟨old, before, isOutline⟩ := exists_of_outlines same found
  obtain ⟨mixins, functions⟩ := all id old before
  have outlined : scope.outline.AllKnown known := isOutline ▸ ⟨mixins, functions⟩
  exact ⟨outlined.mixins, outlined.functions⟩

theorem SparesLocals.refl (env : Environment) : env.SparesLocals env :=
  ⟨rfl, fun _ _ found _ => found⟩

theorem SparesLocals.trans (first : env.SparesLocals middle) (second : middle.SparesLocals after) :
    env.SparesLocals after :=
  ⟨second.outlines.trans first.outlines, fun id scope found fresh =>
    second.locals id scope (first.locals id scope found fresh) fresh⟩

/-- All that is around a scope that is kept is kept. -/
theorem IsCaptured.around {id outer : ScopeId} (captured : env.IsCaptured id) (arena : env.IsArena)
    (around : env.Around id outer) : env.IsCaptured outer := by
  induction around with
  | same => exact captured
  | outwards found inside _ ih =>
    obtain ⟨scope, isScope, kept⟩ := captured
    rw [found] at isScope
    cases isScope
    exact ih (arena.captures _ _ _ found kept inside)

/-- What is done in a scope that is kept leaves the others alone. -/
theorem Framed.sparesLocals {id : ScopeId} (framed : Framed id env after) (arena : env.IsArena)
    (captured : env.IsCaptured id) (same : after.outlines = env.outlines) :
    env.SparesLocals after := by
  refine ⟨same, fun other scope found fresh => ?_⟩
  have elsewhere : ¬ env.Around id other := by
    intro around
    obtain ⟨kept, isKept, isCaptured⟩ := captured.around arena around
    rw [found] at isKept
    cases isKept
    rw [fresh] at isCaptured
    cases isCaptured
  obtain ⟨later, isLater⟩ := framed.others other elsewhere scope found
  obtain ⟨old, before, isOutline⟩ := exists_of_outlines same isLater
  rw [found] at before
  cases before
  have still : later = scope.captured := congrArg Scope.captured isOutline
  rw [isLater, still]

/-- A function that is found stands in a scope that is kept. -/
theorem IsArena.isCaptured_of_function (arena : env.IsArena) {id : ScopeId} {name : String}
    {function : Callable} (found : env.function? id name = some function) :
    env.IsCaptured function.scope := by
  unfold function? lookup at found
  simp only [Option.bind_eq_bind, Option.bind_eq_some_iff] at found
  obtain ⟨inner, -, scope, held, isNamed⟩ := found
  exact arena.defined inner scope held function (Scope.mem_callables_of_function isNamed)

end Environment

namespace Evaluation

open Nesting

/-- What the check of the nesting says of the body of a function. -/
def BodyFits (callable : Callable) : Prop :=
  callable.kind = .function → ∀ s ∈ callable.body, Fits .function .function s

/-- No scope is opened, closed or kept, and nothing is defined. -/
def KeepsOutlines (_scope : ScopeId) (s t : State) : Prop :=
  0 < s.env.scopes.size → s.env.AllKnown BodyFits → t.env.outlines = s.env.outlines

theorem outlines_discipline : LocalDiscipline KeepsOutlines where
  refl _ _ := rfl
  trans first second notEmpty known := by
    have same := first notEmpty known
    have still := Nat.lt_of_lt_of_eq notEmpty (Environment.size_of_outlines same).symm
    exact (second still (known.of_outlines same)).trans same
  declare _ _ := Environment.outlines_declare _ _ _ _
  assign _ _ := Environment.outlines_declare _ _ _ _
  opening {scope s t} same notEmpty known := by
    refine Environment.outlines_pop_push notEmpty (same ?_ (known.push scope))
    exact Nat.lt_of_lt_of_le notEmpty (by simp [Environment.push])
  calling same := same
  named same := same
  reporting _ _ := rfl

section Bodies

variable {context : Context} {run : Runner}

mutual

/-- What may stand in a function defines nothing. -/
theorem keepsOutlines_statement {direct : Enclosure}
    (calls : run.CallsKeepTo KeepsOutlines context) (scope : ScopeId) :
    (s : Statement) → Fits .function direct s →
      Leaves context (KeepsOutlines scope) (statement run scope s)
  | .mk kind children line span filename, fits => by
    have d := outlines_discipline
    have block (transparent : (Enclosure.ofKind kind).isTransparent = true) (inner : ScopeId) :
        Leaves context (KeepsOutlines inner) (statements run inner children) := by
      refine @keepsOutlines_statements (Enclosure.ofKind kind) calls inner children ?_
      intro t member
      have fitsInner := fits.inner t member
      rwa [Statement.kind, if_pos transparent] at fitsInner
    have here := fits.here
    cases kind with
    | branch condition otherwise =>
      unfold statement
      refine d.forStatement (d.bind (d.isTaken calls) fun _ => leaves_ite (d.inScope (block rfl)) ?_)
      cases otherwise with
      | none => exact d.pure
      | some other => exact keepsOutlines_statement calls scope other (fits.otherwise rfl)
    | comment text silent =>
      unfold statement
      refine d.forStatement (leaves_ite d.pure ?_)
      exact d.bind (d.template calls text) fun _ => d.pure
    | assign name value guarded =>
      unfold statement
      exact d.forStatement (d.bind (d.assigning calls) fun _ => d.pure)
    | returning value =>
      unfold statement
      exact d.forStatement (d.bind (d.expr calls value) fun _ => d.pure)
    | loopWhile condition =>
      unfold statement
      exact d.forStatement (d.loopWhile calls (block rfl))
    | loopCount counter start stop inclusive =>
      unfold statement
      exact d.forStatement (d.loopCount calls (block rfl))
    | loopEach item list =>
      unfold statement
      exact d.forStatement (d.loopEach calls (block rfl))
    | debug value =>
      unfold statement
      refine d.forStatement (d.bind (d.expr calls value) fun _ => ?_)
      exact d.bind d.debugValue fun _ => d.pure
    | warn value =>
      unfold statement
      refine d.forStatement (d.bind (d.expr calls value) fun _ => ?_)
      exact d.bind d.warnAbout fun _ => d.pure
    | _ => cases here

theorem keepsOutlines_statements {direct : Enclosure}
    (calls : run.CallsKeepTo KeepsOutlines context) (scope : ScopeId) :
    (body : List Statement) → (∀ s ∈ body, Fits .function direct s) →
      Leaves context (KeepsOutlines scope) (statements run scope body)
  | [], _ => outlines_discipline.pure
  | s :: rest, fits => by
    have d := outlines_discipline
    have first := keepsOutlines_statement calls scope s (fits s List.mem_cons_self)
    have others := keepsOutlines_statements calls scope rest fun t member =>
      fits t (List.mem_cons_of_mem s member)
    refine d.bind first fun first => ?_
    split
    · exact d.pure
    · exact d.bind others fun _ => d.pure

end

/-- However deep calls are followed, expressions and the bodies of functions define nothing. -/
theorem runner_keepsOutlines (context : Context) (depth : Nat) :
    (∀ e scope, Leaves context (KeepsOutlines scope) ((runner depth).expr e scope)) ∧
      ∀ body, (∀ s ∈ body, Fits .function .function s) →
        ∀ scope, Leaves context (KeepsOutlines scope) ((runner depth).body body scope) := by
  have d := outlines_discipline
  induction depth with
  | zero => exact ⟨fun _ _ => d.throw, fun _ _ _ => d.throw⟩
  | succ depth ih =>
    obtain ⟨exprs, bodies⟩ := ih
    have calls : (runner depth).CallsKeepTo KeepsOutlines context := by
      intro scope name function positional keywords line span state found notEmpty known
      have definition := known.function? found
      have fits := definition.known definition.kind
      exact d.callFunction exprs (bodies function.body fits) state notEmpty known
    exact ⟨fun e scope => d.expr calls e,
      fun body fits scope => keepsOutlines_statements calls scope body fits⟩

/-- An expression in a scope that is alive changes only variables, of scopes that are kept. -/
def SparesLocals (scope : ScopeId) (s t : State) : Prop :=
  s.env.IsLexical scope → s.env.AllKnown BodyFits →
    Environment.Framed scope s.env t.env ∧ s.env.SparesLocals t.env

theorem composes_sparesLocals : Composes SparesLocals where
  refl lexical _ := ⟨.refl lexical, .refl _⟩
  trans first second lexical known := by
    obtain ⟨framed, spares⟩ := first lexical known
    obtain ⟨later, still⟩ := second framed.lexical (known.of_outlines spares.outlines)
    exact ⟨framed.trans lexical later, spares.trans still⟩

theorem expr_sparesLocals (context : Context) (depth : Nat) (e : Expr) (scope : ScopeId) :
    Leaves context (SparesLocals scope) ((runner depth).expr e scope) := by
  cases depth with
  | zero => exact composes_sparesLocals.throw
  | succ depth =>
    refine composes_sparesLocals.expr ?_ e
    intro scope name function positional keywords line span state found lexical known
    let after :=
      final (callFunction (runner depth) function positional keywords line span context state)
    have around := lexical.home.function? found
    have framed : Environment.Framed function.scope state.env after.env := by
      have runs := runner_keepsTo framed_discipline context depth
      exact framed_discipline.callFunction runs.expr (runs.body function.body) state
        (lexical.outer around)
    have same : after.env.outlines = state.env.outlines := by
      obtain ⟨exprs, bodies⟩ := runner_keepsOutlines context depth
      have definition := known.function? found
      have fits := definition.known definition.kind
      exact outlines_discipline.callFunction exprs (bodies function.body fits) state
        (Nat.zero_lt_of_lt lexical.alive) known
    have captured := lexical.arena.isCaptured_of_function found
    exact ⟨framed.inwards lexical around, framed.sparesLocals lexical.arena captured same⟩

end Bodies

end Evaluation

end Stylesheet
