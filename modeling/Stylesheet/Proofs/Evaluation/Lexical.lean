import Stylesheet.Proofs.Evaluation.Calls
import Stylesheet.Proofs.Evaluation.Frame
import Stylesheet.Proofs.Evaluation.Parallel
import Stylesheet.Proofs.Scope.Shift

/-! What a name means depends on where it is written, not on where it is evaluated from. A mixin or
function sees its own scope and those around it. If all others hold something else, or if there are
more of them or fewer, it does the same. -/

namespace Stylesheet

namespace Bindings

variable {κ : Type u} {ν : Type v}

theorem mapValues_eq_self {f : ν → ν} {bindings : Bindings κ ν}
    (same : ∀ value ∈ bindings.map (·.2), f value = value) : bindings.mapValues f = bindings := by
  induction bindings with
  | nil => rfl
  | cons entry rest ih =>
    have first : f entry.2 = entry.2 := same _ List.mem_cons_self
    rw [mapValues, first, ih fun value member => same value (List.mem_cons_of_mem _ member)]

end Bindings

namespace Shift

variable {f : Shift}

theorem moved_eq_self {scope : Scope} (parent : ∀ parent, scope.parent = some parent → f.shared parent)
    (callables : ∀ callable ∈ scope.callables, f.shared callable.scope) : scope.moved f = scope := by
  have same (callable : Callable) (member : callable ∈ scope.callables) :
      callable.moved f = callable := by
    unfold Callable.moved
    rw [move_shared (callables callable member)]
  have outer : scope.parent.map f.move = scope.parent := by
    cases inside : scope.parent with
    | none => rfl
    | some id => exact congrArg some (move_shared (parent id inside))
  unfold Scope.moved
  rw [outer,
    Bindings.mapValues_eq_self fun callable member => same callable (List.mem_append_left _ member),
    Bindings.mapValues_eq_self fun callable member => same callable (List.mem_append_right _ member)]

end Shift

namespace Environment

/-- The scopes around one are the same in another environment, whatever else is alive there. -/
structure SharesAround (env env' : Environment) (home : ScopeId) : Prop where
  calls : env'.calls = env.calls
  scopes : ∀ id, env.Around home id → env'.scopes[id]? = env.scopes[id]?

variable {env env' : Environment} {home : ScopeId}

/-- What a scope around refers to is around as well. -/
theorem IsLexical.closed (lexical : env.IsLexical home) {id : ScopeId} {scope : Scope}
    (around : env.Around home id) (found : env.scopes[id]? = some scope) :
    (∀ parent, scope.parent = some parent → env.Around home parent) ∧
      ∀ callable ∈ scope.callables, env.Around home callable.scope := by
  refine ⟨fun parent inside => around.trans (.outwards found inside .same), ?_⟩
  intro callable member
  rw [lexical.home id scope found callable member]
  exact around

theorem SharesAround.alive (shares : env.SharesAround env' home) (lexical : env.IsLexical home)
    {id : ScopeId} (around : env.Around home id) : id < env'.scopes.size := by
  have found := shares.scopes id around
  rw [Array.getElem?_eq_getElem (around.alive lexical.arena lexical.alive)] at found
  exact (Array.getElem?_eq_some_iff.mp found).1

/-- The scopes around one are shared, and those that are opened from now on correspond. -/
def SharesAround.shift (shares : env.SharesAround env' home) (lexical : env.IsLexical home) :
    Shift where
  base := env.scopes.size
  base' := env'.scopes.size
  shared := env.Around home
  pos := Nat.zero_lt_of_lt lexical.alive
  pos' := Nat.zero_lt_of_lt (shares.alive lexical .same)
  lt around := around.alive lexical.arena lexical.alive
  lt' around := shares.alive lexical around

theorem SharesAround.relates (shares : env.SharesAround env' home) (lexical : env.IsLexical home) :
    (shares.shift lexical).Relates env env' := by
  have move_since {id : Nat} (since : env.scopes.size ≤ id) :
      (shares.shift lexical).move id = id - env.scopes.size + env'.scopes.size :=
    Shift.move_since since
  refine ⟨shares.calls, Nat.le_refl _, ?_, fun {id} sees => ?_, fun {id scope} sees found => ?_⟩
  · rw [move_since (Nat.le_refl _)]
    omega
  · rcases sees with shared | since
    · have around : env.Around home id := shared
      have found := Array.getElem?_eq_getElem (around.alive lexical.arena lexical.alive)
      obtain ⟨parents, callables⟩ := lexical.closed around found
      rw [Shift.move_shared shared, shares.scopes id around, found, Option.map_some,
        Shift.moved_eq_self parents callables]
    · have none : env.scopes[id]? = none := Array.getElem?_eq_none since
      rw [move_since since, none, Array.getElem?_eq_none (by omega)]
      rfl
  · rcases sees with shared | since
    · obtain ⟨parents, callables⟩ := lexical.closed shared found
      exact ⟨fun parent inside => .inl (parents parent inside),
        fun callable member => .inl (callables callable member)⟩
    · have alive := (Array.getElem?_eq_some_iff.mp found).1
      exact absurd alive (Nat.not_lt_of_le since)

/-- What was shared stays the same. -/
theorem SharesAround.later (shares : env.SharesAround env' home) (lexical : env.IsLexical home)
    {after after' : Environment} (framed : Framed home env after)
    (related : (shares.shift lexical).Relates after after') : after.SharesAround after' home := by
  refine ⟨related.calls, fun id around => ?_⟩
  have shared {id : ScopeId} (around : after.Around home id) : (shares.shift lexical).shared id :=
    around.before framed.stays lexical.arena lexical.alive
  have found := Array.getElem?_eq_getElem (around.alive framed.lexical.arena framed.lexical.alive)
  obtain ⟨parents, callables⟩ := framed.lexical.closed around found
  have same := related.scopes (.inl (shared around))
  rw [Shift.move_shared (shared around), found, Option.map_some, Shift.moved_eq_self
    (fun parent inside => shared (parents parent inside))
    fun callable member => shared (callables callable member)] at same
  rw [same, found]

end Environment

namespace Evaluation

theorem sameCallable_of_moved {f : Shift} {found found' : Option Callable}
    (same : found' = found.map (Callable.moved f))
    (sees : ∀ callable, found = some callable → f.Sees callable.scope) :
    SameCallable f.Paired found found' := by
  subst same
  cases found with
  | none => exact .none
  | some callable => exact .some callable ⟨sees callable rfl, rfl⟩

/-- Corresponding scopes are looked up, opened, closed and changed in parallel. -/
theorem shift_pairing (f : Shift) : Pairing f.Relates f.Paired where
  calls related := related.calls
  valueOf? := by
    rintro env env' id _ related ⟨sees, rfl⟩ name
    exact related.valueOf? sees name
  mixin? := by
    rintro env env' id _ related ⟨sees, rfl⟩ name
    exact sameCallable_of_moved (related.lookup sees (fun _ => rfl) name) fun _ found =>
      related.sees_of_lookup sees (fun _ _ _ => Scope.mem_callables_of_mixin) found
  function? := by
    rintro env env' id _ related ⟨sees, rfl⟩ name
    exact sameCallable_of_moved (related.lookup sees (fun _ => rfl) name) fun _ found =>
      related.sees_of_lookup sees (fun _ _ _ => Scope.mem_callables_of_function) found
  opens := by
    rintro env env' id _ related ⟨sees, rfl⟩
    exact ⟨⟨.inr related.base, related.size⟩, related.push sees⟩
  closes := by
    intro env env' after after' related later
    rw [related.size]
    exact later.pop related.base
  declare := by
    rintro env env' id _ related ⟨sees, rfl⟩ name value
    exact related.declare sees name value
  assign := by
    rintro env env' id _ related ⟨sees, rfl⟩ name value
    exact related.assign sees name value
  define := by
    rintro env env' id _ related ⟨sees, rfl⟩ kind name params body
    exact related.define sees kind name params body
  enterCall related call :=
    ⟨congrArg (call :: ·) related.calls, related.base, related.size, related.scopes, related.closed⟩
  leaveCall related :=
    ⟨congrArg (List.drop 1) related.calls, related.base, related.size, related.scopes,
      related.closed⟩

theorem Ends.weaken {rel rel' : Environment → Environment → Prop}
    {result result' : EStateM.Result Diagnostic State α} (ends : Ends rel result result')
    (implies : ∀ env', rel (final result).env env' → rel' (final result).env env') :
    Ends rel' result result' := by
  cases ends with
  | ok related => exact .ok (implies _ related)
  | error related => exact .error (implies _ related)

/-- A mixin or function that is applied changes its own scope and those around it alone. -/
theorem withArguments_framed (context : Context) (depth : Nat) (callable : Callable)
    (positional : List Value) (keywords : List (String × Value)) (line : Nat) (span : Span)
    {state : State} (lexical : state.env.IsLexical callable.scope) :
    Environment.Framed callable.scope state.env
      (final (withArguments (runner depth) callable positional keywords line span
        ((runner depth).body callable.body) context state)).env :=
  have runs := runner_keepsTo framed_discipline context depth
  framed_discipline.withArguments runs.expr (runs.body callable.body) state lexical

/-- A mixin or function that is applied does the same where the scopes around its own are the
same. -/
theorem withArguments_shared (context : Context) (depth : Nat) (callable : Callable)
    (positional : List Value) (keywords : List (String × Value)) (line : Nat) (span : Span)
    {state : State} {env : Environment} (lexical : state.env.IsLexical callable.scope)
    (shares : state.env.SharesAround env callable.scope) :
    let apply := withArguments (runner depth) callable positional keywords line span
      ((runner depth).body callable.body)
    Ends (fun after after' => after.SharesAround after' callable.scope)
      (apply context state) (apply context { state with env }) := by
  intro apply
  let f := shares.shift lexical
  have runs := runner_isParallel (shift_pairing f) context depth
  have isShared : f.shared callable.scope := Environment.Around.same
  have paired : f.Paired callable.scope callable.scope :=
    ⟨.inl isShared, (Shift.move_shared isShared).symm⟩
  have parallel : Parallel f.Relates context apply apply :=
    (shift_pairing f).withArguments runs paired
  have framed := withArguments_framed context depth callable positional keywords line span lexical
  refine (parallel state env (shares.relates lexical)).weaken fun env' related => ?_
  exact shares.later lexical framed related

/-- Wherever an evaluation is, each mixin and function stands in the scope it was defined in. What is
evaluated in a scope changes only that scope and those around it. A mixin or function that is applied
changes only its own scope and those around it, and it does the same if all other scopes hold
something else, or are more or fewer. -/
theorem evaluation_is_lexical (context : Context) (source : String) (entry : Option SourceId)
    (root : Statement) {p : Point} (reached : Reached context source entry root p) (depth : Nat) :
    p.state.env.KeepsHome ∧
    (∀ body scope, scope < p.state.env.scopes.size →
      let after := final (statements (runner depth) scope body context p.state)
      ∀ other, ¬ p.state.env.Around scope other → p.state.env.KeepsScope after.env other) ∧
    ∀ (callable : Callable) positional keywords line span,
      callable.scope < p.state.env.scopes.size →
      let apply := withArguments (runner depth) callable positional keywords line span
        ((runner depth).body callable.body)
      (∀ other, ¬ p.state.env.Around callable.scope other →
        p.state.env.KeepsScope (final (apply context p.state)).env other) ∧
      ∀ env, p.state.env.SharesAround env callable.scope →
        Ends (fun after after' => after.SharesAround after' callable.scope)
          (apply context p.state) (apply context { p.state with env }) := by
  obtain ⟨arena, home, -⟩ := reached.isLexical
  refine ⟨home, fun body scope alive => ?_, fun callable positional keywords line span alive => ?_⟩
  · have runs := runner_keepsTo framed_discipline context depth
    exact (leaves_statements framed_discipline runs scope body p.state ⟨arena, home, alive⟩).others
  · have lexical : p.state.env.IsLexical callable.scope := ⟨arena, home, alive⟩
    have framed := withArguments_framed context depth callable positional keywords line span lexical
    exact ⟨framed.others, fun env shares =>
      withArguments_shared context depth callable positional keywords line span lexical shares⟩

/-- A function in the global scope that asks for a variable. -/
def asksForX : Callable :=
  ⟨.function, "f", [], 0, [.mk (.returning (.mk (.variable "x") 1 ⟨0, 1⟩)) [] 1 ⟨0, 1⟩ none]⟩

/-- The variable of a scope of the caller is not seen. -/
theorem evaluation_is_lexical_of_local :
    let state := selfEntered.scoped 0
    let env := state.env.declare 1 "x" (.unquoted "a")
    let apply := withArguments (runner 64) asksForX [] [] 1 ⟨0, 1⟩ ((runner 64).body asksForX.body)
    Reached plainContext "" none selfIncluding ⟨64, 1, .content selfInclude, state⟩ ∧
      env.valueOf? 1 "x" = some (.unquoted "a") ∧ state.env.SharesAround env 0 ∧
      Ends (fun after after' => after.SharesAround after' 0)
        (apply plainContext state) (apply plainContext { state with env }) := by
  intro state env apply
  have shares : state.env.SharesAround env 0 := by
    refine ⟨rfl, fun id around => ?_⟩
    have first : id = 0 := Nat.le_zero.mp (around.le reached_selfInclude.isLexical.arena)
    subst first
    simp [env, Environment.declare, Array.getElem?_modify]
  have size : state.env.scopes.size = 2 := by with_unfolding_all rfl
  have alive : asksForX.scope < state.env.scopes.size := size ▸ Nat.zero_lt_two
  obtain ⟨-, -, applied⟩ :=
    evaluation_is_lexical plainContext "" none selfIncluding reached_selfInclude 64
  have same := (applied asksForX [] [] 1 ⟨0, 1⟩ alive).2 env shares
  exact ⟨reached_selfInclude, by with_unfolding_all rfl, shares, same⟩

end Evaluation

end Stylesheet
