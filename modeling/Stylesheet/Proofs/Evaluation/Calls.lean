import Stylesheet.Proofs.Evaluation.Coverage
import Stylesheet.Proofs.Evaluation.Restoration

/-! The active calls, at every point of every evaluation. There are never more of them than the limit
allows, and no mixin is active twice, because both is looked at before a call is entered. -/

namespace Stylesheet

namespace Environment

/-- The names of the active mixins, where `_` and `-` are the same character. -/
def activeMixins (env : Environment) : List String :=
  (env.calls.filter (·.kind == .mixin)).map fun call => Text.normalizeName call.name

/-- Including a mixin makes a loop exactly if one of its name is active. -/
theorem includeLoop?_eq_none_iff (env : Environment) (name : String) :
    env.includeLoop? name = none ↔ Text.normalizeName name ∉ env.activeMixins := by
  unfold includeLoop? activeMixins
  generalize env.calls.filter (·.kind == .mixin) = active
  have absent : (active.reverse.map (·.name)).dropWhile
      (Text.normalizeName · != Text.normalizeName name) = [] ↔
      Text.normalizeName name ∉ active.map fun call => Text.normalizeName call.name := by
    rw [List.dropWhile_eq_nil_iff]
    simp
  rw [← absent]
  dsimp only
  split
  · next none => exact iff_of_true rfl none
  · next first rest some => exact iff_of_false nofun (by rw [some]; exact List.cons_ne_nil _ _)

theorem activeMixins_enterMixin (env : Environment) (name : String) (line : Nat)
    (filename : Option String) :
    (env.enterCall ⟨.mixin, name, line, filename⟩).activeMixins =
      Text.normalizeName name :: env.activeMixins := rfl

end Environment

namespace Evaluation

/-- There are no more calls than the limit allows, and no mixin is active twice. -/
structure State.CallsHold (context : Context) (state : State) : Prop where
  bounded : state.env.calls.length ≤ context.options.maxCallDepth
  distinct : state.env.activeMixins.Nodup

variable {context : Context} {s t : State}

instance : Decidable (s.CallsHold context) :=
  decidable_of_iff
    (s.env.calls.length ≤ context.options.maxCallDepth ∧ s.env.activeMixins.Nodup)
    ⟨fun ⟨bounded, distinct⟩ => ⟨bounded, distinct⟩, fun holds => ⟨holds.bounded, holds.distinct⟩⟩

theorem State.CallsHold.of_calls (holds : s.CallsHold context) (same : t.env.calls = s.env.calls) :
    t.CallsHold context := by
  refine ⟨same ▸ holds.bounded, ?_⟩
  unfold Environment.activeMixins
  rw [same]
  exact holds.distinct

theorem Opens.callsHold {around : State → ScopeId → ScopeId → Prop} {scope inner : ScopeId}
    {start : State} (opens : Opens context around start scope s inner t) (holds : s.CallsHold context) :
    t.CallsHold context := by
  cases opens with
  | same => exact holds
  | named => exact holds.of_calls rfl
  | opened => exact holds.of_calls rfl
  | declared => exact holds.of_calls rfl
  | including noLoop room =>
    refine ⟨room, ?_⟩
    rw [State.entering, Environment.activeMixins_enterMixin]
    exact List.nodup_cons.mpr ⟨(Environment.includeLoop?_eq_none_iff _ _).mp noLoop, holds.distinct⟩
  | calling _ room => exact ⟨room, holds.distinct⟩
  | applying => exact holds
  | importing => exact holds.of_calls rfl

/-- What comes to be evaluated starts with calls that hold, if what it is evaluated for did. -/
theorem Step.callsHold {p q : Point} (step : Step context p q) (holds : p.state.CallsHold context) :
    q.state.CallsHold context := by
  obtain ⟨t, restored, opens⟩ := step.passes restored_discipline
  exact opens.callsHold (holds.of_calls restored.calls)

theorem Reached.callsHold {source : String} {entry : Option SourceId} {root : Statement} {p : Point}
    (reached : Reached context source entry root p) : p.state.CallsHold context := by
  induction reached with
  | refl => exact ⟨Nat.zero_le _, List.nodup_nil⟩
  | tail _ step ih => exact step.callsHold ih

/-- A call or an `@include` that is refused in a state. The arguments of a call are there before it is
looked whether one more call is too many, those of an `@include` are not. -/
inductive Point.Refused (context : Context) : Point → Fault → State → Prop where
  | active {d scope s name args children line span filename}
      (active : Text.normalizeName name ∈ s.env.activeMixins) :
      Refused context
        ⟨d, scope, .content (.mk (.includeMixin name args) children line span filename), s⟩
        .includeLoop s
  | fullInclude {d scope s name args children line span filename mixin}
      (inactive : Text.normalizeName name ∉ s.env.activeMixins)
      (found : s.env.mixin? scope name = some mixin)
      (full : context.options.maxCallDepth ≤ s.env.calls.length) :
      Refused context
        ⟨d, scope, .content (.mk (.includeMixin name args) children line span filename), s⟩
        .limitExceeded s
  | fullCall {d scope s t name args line span positional keywords function}
      (ok : arguments (runner d) scope args context s = .ok (positional, keywords) t)
      (found : t.env.function? scope name = some function)
      (full : context.options.maxCallDepth ≤ t.env.calls.length) :
      Refused context ⟨d, scope, .expr (.mk (.call name args) line span), s⟩ .limitExceeded t

theorem checkDepth_full (line : Nat) (span : Span)
    (full : context.options.maxCallDepth ≤ s.env.calls.length) :
    ∃ error : Diagnostic, error.fault = some .limitExceeded ∧
      checkDepth line span context s = .error error s := by
  refine ⟨?error, ?fault, ?failed⟩
  case failed =>
    change (if _ then _ else _ : Evaluating Unit) context s = _
    rw [if_pos full]
    rfl
  case fault => rfl

theorem Point.Refused.perform_eq {p : Point} {fault : Fault} (refused : p.Refused context fault t) :
    ∃ error, error.fault = some fault ∧ p.perform context = .error error t := by
  cases refused with
  | @active d scope _ name args children line span filename active =>
    cases loop : t.env.includeLoop? name with
    | none => exact absurd active ((t.env.includeLoop?_eq_none_iff name).mp loop)
    | some cycle =>
      refine ⟨?error, ?fault, bind_of_error ?failed⟩
      case failed =>
        unfold content simpleStatement includeMixin
        simp only [get_bind, loop]
        rfl
      case fault => rfl
  | @fullInclude d scope _ name args children line span filename mixin inactive found full =>
    have noLoop := (t.env.includeLoop?_eq_none_iff name).mpr inactive
    obtain ⟨error, isLimit, failed⟩ := checkDepth_full line span full
    refine ⟨error, isLimit, bind_of_error ?_⟩
    unfold content simpleStatement includeMixin
    simp only [get_bind, noLoop, found]
    exact bind_of_error failed
  | @fullCall d scope s t name args line span positional keywords function ok found full =>
    obtain ⟨error, isLimit, failed⟩ := checkDepth_full line span full
    refine ⟨error, isLimit, bind_of_error ?_⟩
    rw [expr_call]
    refine (bind_of_ok ok).trans ?_
    unfold call
    simp only [get_bind, found]
    exact bind_of_error failed

/-- Nothing of a callee comes to be evaluated where it is refused. -/
theorem Point.Refused.step {p q : Point} {fault : Fault} (refused : p.Refused context fault t)
    (step : Step context p q) :
    ∃ name args line span, p.task = .expr (.mk (.call name args) line span) ∧
      q.task = .arguments args := by
  cases refused with
  | active active =>
    cases step with
    | startTemplate starts => cases starts
    | startExpr starts => cases starts
    | block isHeading => cases isHeading
    | including noLoop =>
      exact absurd active ((Environment.includeLoop?_eq_none_iff _ _).mp noLoop)
  | fullInclude inactive found full =>
    cases step with
    | startTemplate starts => cases starts
    | startExpr starts => cases starts
    | block isHeading => cases isHeading
    | including noLoop _ allowed => exact absurd (checkDepth_ok_iff.mp allowed).1 (Nat.not_lt_of_le full)
  | fullCall ok found full =>
    cases step with
    | callArguments => exact ⟨_, _, _, _, rfl, rfl⟩
    | called ok' found' allowed =>
      cases ok.symm.trans ok'
      exact absurd (checkDepth_ok_iff.mp allowed).1 (Nat.not_lt_of_le full)

/-- At every point of an evaluation, whether it goes on or fails there, there are no more calls than
the limit allows, and no mixin is active twice. So an `@include` of an active mixin fails before
anything of the mixin is evaluated, as does every call and `@include` that would be too many, and the
whole evaluation fails with it. Nothing else is evaluated: whatever a runner does with the bodies,
defaults and imports that it is asked for in a state with other calls, the result is the same. -/
theorem calls_hold (context : Context) (source : String) (entry : Option SourceId)
    (root : Statement) :
    let start := Compilation.start context.options source entry
    (∀ p, Reached context source entry root p →
      p.state.CallsHold context ∧ (final (p.perform context)).CallsHold context ∧
      ∀ fault after, p.Refused context fault after →
        (∀ q, Step context p q → ∃ name args line span,
          p.task = .expr (.mk (.call name args) line span) ∧ q.task = .arguments args) ∧
        (∃ error, error.fault = some fault ∧ p.perform context = .error error after) ∧
        ∃ error last, stylesheet root context start = .error error last) ∧
    ∀ run, EvaluatesAt context (·.state.CallsHold context) run →
      stylesheetWith (run (depthBound context)) root context start =
        stylesheet root context start := by
  intro start
  refine ⟨fun p reached => ?_, fun run evaluates => ?_⟩
  · have holds := reached.callsHold
    refine ⟨holds, holds.of_calls ?_, fun fault after refused => ?_⟩
    · have runs := runner_keepsTo restored_discipline context p.depth
      exact (leaves_perform restored_discipline runs reached.isAt p.state).calls
    · obtain ⟨error, isFault, failed⟩ := refused.perform_eq
      refine ⟨fun q => refused.step, ⟨error, isFault, failed⟩, ?_⟩
      exact reached.fails ⟨error, after, failed⟩
  · exact (evaluates.stylesheet_eq fun p reached => reached.callsHold).symm

section Refusals

/-- A mixin includes itself, with another spelling of its name. -/
def selfInclude : Statement :=
  .mk (.includeMixin "my_mixin" (.mk [] [])) [] 2 ⟨0, 1⟩ none

def selfMixin : Callable := ⟨.mixin, "my-mixin", [], 0, [selfInclude]⟩

def firstInclude : Statement :=
  .mk (.includeMixin "my-mixin" (.mk [] [])) [] 3 ⟨0, 1⟩ none

def selfIncluding : Statement :=
  .mk .root [.mk (.defineMixin "my-mixin" []) [selfInclude] 1 ⟨0, 1⟩ none, firstInclude] 1 ⟨0, 1⟩
    none

def plainContext : Context := ⟨.default, .empty, []⟩

/-- The mixin is defined. -/
def selfDefined : State :=
  { Compilation.start .default "" none with env := Environment.initial.define 0 selfMixin }

/-- The mixin is included. -/
def selfEntered : State := selfDefined.entering ⟨.mixin, "my-mixin", 3, none⟩

theorem reached_selfInclude :
    Reached plainContext "" none selfIncluding ⟨64, 1, .content selfInclude, selfEntered.scoped 0⟩ := by
  have defines : Step plainContext (Point.start plainContext "" none selfIncluding)
      ⟨65, 0, .statements [firstInclude], selfDefined⟩ :=
    .next (by rfl : _ = EStateM.Result.ok Outcome.nothing selfDefined) rfl
  have noLoop : selfDefined.env.includeLoop? "my-mixin" = none := by with_unfolding_all rfl
  have found : selfDefined.env.mixin? 0 "my-mixin" = some selfMixin := by with_unfolding_all rfl
  have enters : Step plainContext ⟨65, 0, .content firstInclude, selfDefined⟩
      ⟨65, 0, .included "my-mixin" (.mk [] []) 3 ⟨0, 1⟩, selfEntered⟩ :=
    .including noLoop found (by with_unfolding_all rfl)
  have still : selfEntered.env.mixin? 0 "my-mixin" = some selfMixin := by with_unfolding_all rfl
  have given : Step plainContext ⟨65, 0, .included "my-mixin" (.mk [] []) 3 ⟨0, 1⟩, selfEntered⟩
      ⟨65, 0, .applied selfMixin [] [] 3 ⟨0, 1⟩, selfEntered⟩ :=
    .included still rfl
  have applies :
      Step plainContext ⟨65, selfMixin.scope, .applied selfMixin [] [] 3 ⟨0, 1⟩, selfEntered⟩
        ⟨65, selfEntered.env.scopes.size, .bound selfMixin selfMixin.params [] [] 3 ⟨0, 1⟩,
          selfEntered.scoped selfMixin.scope⟩ :=
    .applied rfl
  have size : selfEntered.env.scopes.size = 1 := by with_unfolding_all rfl
  rw [size] at applies
  have body : Reached plainContext "" none selfIncluding
      ⟨65, 1, .bound selfMixin [] [] [] 3 ⟨0, 1⟩, selfEntered.scoped 0⟩ :=
    .head defines <| .head .first <| .head .content <| .head enters <| .head given <|
      .single applies
  exact body.trans (.head .body <| .head .first <| .single .content)

/-- Evaluation that refuses everything in a state in which the calls do not hold. -/
def watched (context : Context) : (depth : Nat) → Runner
  | 0 => runner 0
  | depth + 1 =>
    ⟨fun e scope => do
        if State.CallsHold context (← get) then expr (watched context depth) scope e
        else throw exhausted,
      fun body scope => do
        if State.CallsHold context (← get) then statements (watched context depth) scope body
        else throw exhausted⟩

theorem evaluatesAt_watched (context : Context) :
    EvaluatesAt context (·.state.CallsHold context) (watched context) where
  last := rfl
  expr := fun holds => by simp only [watched, get_bind, if_pos holds]
  body := fun holds => by simp only [watched, get_bind, if_pos holds]

/-- No call is allowed. -/
def callless : Context := ⟨{ Options.default with maxCallDepth := 0 }, .empty, []⟩

def calledFunction : Callable := ⟨.function, "f", [], 0, []⟩

def functionCall : Expr := .mk (.call "f" (.mk [] [])) 2 ⟨0, 1⟩

def debugCall : Statement := .mk (.debug functionCall) [] 2 ⟨0, 1⟩ none

def calling : Statement :=
  .mk .root [.mk (.defineFunction "f" []) [] 1 ⟨0, 1⟩ none, debugCall] 1 ⟨0, 1⟩ none

def functionDefined : State :=
  { Compilation.start callless.options "" none with
    env := Environment.initial.define 0 calledFunction }

theorem reached_functionCall :
    Reached callless "" none calling ⟨1, 0, .expr functionCall, functionDefined⟩ := by
  have defines : Step callless (Point.start callless "" none calling)
      ⟨1, 0, .statements [debugCall], functionDefined⟩ :=
    .next (by rfl : _ = EStateM.Result.ok Outcome.nothing functionDefined) rfl
  exact .head defines <| .head .first <| .head .content <| .single (.startExpr rfl)

theorem calls_hold_of_selfInclude :
    let p : Point := ⟨64, 1, .content selfInclude, selfEntered.scoped 0⟩
    let q : Point := ⟨1, 0, .expr functionCall, functionDefined⟩
    let start := Compilation.start plainContext.options "" none
    (Reached plainContext "" none selfIncluding p ∧ p.Refused plainContext .includeLoop p.state ∧
      p.state.CallsHold plainContext ∧ (final (p.perform plainContext)).CallsHold plainContext ∧
      (∃ error, error.fault = some .includeLoop ∧ p.perform plainContext = .error error p.state) ∧
      ∃ error last, stylesheet selfIncluding plainContext start = .error error last) ∧
    (Reached callless "" none calling q ∧ q.Refused callless .limitExceeded q.state ∧
      ∃ error, error.fault = some .limitExceeded ∧ q.perform callless = .error error q.state) ∧
    stylesheetWith (watched plainContext (depthBound plainContext)) selfIncluding plainContext start =
      stylesheet selfIncluding plainContext start := by
  intro p q start
  have spelled : Text.normalizeName "my_mixin" = Text.normalizeName "my-mixin" := by
    simp [← String.toList_inj, Text.normalizeName, Text.replaceChar]
  have calls : (selfEntered.scoped 0).env.calls = [⟨.mixin, "my-mixin", 3, none⟩] := by
    with_unfolding_all rfl
  have looping : p.Refused plainContext .includeLoop p.state := by
    refine .active ?_
    rw [spelled, Environment.activeMixins, calls]
    exact List.mem_singleton_self _
  have found : functionDefined.env.function? 0 "f" = some calledFunction := by with_unfolding_all rfl
  have tooMany : q.Refused callless .limitExceeded q.state := .fullCall rfl found (Nat.zero_le _)
  obtain ⟨reaches, watches⟩ := calls_hold plainContext "" none selfIncluding
  obtain ⟨holds, after, refuses⟩ := reaches p reached_selfInclude
  obtain ⟨-, failed, whole⟩ := refuses _ _ looping
  obtain ⟨reachesCall, -⟩ := calls_hold callless "" none calling
  obtain ⟨-, -, refusesCall⟩ := reachesCall q reached_functionCall
  obtain ⟨-, callFailed, -⟩ := refusesCall _ _ tooMany
  refine ⟨⟨reached_selfInclude, looping, holds, after, failed, whole⟩, ?_, ?_⟩
  · exact ⟨reached_functionCall, tooMany, callFailed⟩
  · exact watches (watched plainContext) (evaluatesAt_watched plainContext)

end Refusals

end Evaluation

end Stylesheet
