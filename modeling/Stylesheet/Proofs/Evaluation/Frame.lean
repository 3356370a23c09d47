import Stylesheet.Proofs.Evaluation.Course
import Stylesheet.Proofs.Evaluation.Restoration

/-! What evaluation in a scope leaves alone. It declares, assigns and defines only in that scope and
in those around it, and so do the mixins and functions that it calls, because each of them stands in
the scope it is looked up in. -/

namespace Stylesheet

namespace Environment

/-- One scope is another one or around it. -/
inductive Around (env : Environment) : ScopeId → ScopeId → Prop where
  | same {id : ScopeId} : Around env id id
  | outwards {id parent outer : ScopeId} {scope : Scope} (found : env.scopes[id]? = some scope)
      (inside : scope.parent = some parent) (around : Around env parent outer) : Around env id outer

/-- Each mixin and function stands in the scope that it was defined in. -/
def KeepsHome (env : Environment) : Prop :=
  ∀ (id : ScopeId) (scope : Scope), env.scopes[id]? = some scope →
    ∀ callable ∈ scope.callables, callable.scope = id

/-- A scope is alive, and the scopes are as an evaluation keeps them. -/
structure IsLexical (env : Environment) (id : ScopeId) : Prop where
  arena : env.IsArena
  home : env.KeepsHome
  alive : id < env.scopes.size

/-- A scope still holds what it held, but it may have to be kept. -/
def KeepsScope (env after : Environment) (id : ScopeId) : Prop :=
  ∀ scope, env.scopes[id]? = some scope → ∃ captured, after.scopes[id]? = some { scope with captured }

/-- What may become of the scopes while something is evaluated in one of them: only that one and those
around it change, apart from what has to be kept. -/
structure Framed (id : ScopeId) (env after : Environment) : Prop where
  lexical : after.IsLexical id
  stays : env.StaysAlive after
  others : ∀ other, ¬ env.Around id other → env.KeepsScope after other

section Around

variable {env after : Environment} {id outer : ScopeId}

theorem Around.trans {outermost : ScopeId} (first : env.Around id outer)
    (second : env.Around outer outermost) : env.Around id outermost := by
  induction first with
  | same => exact second
  | outwards found inside _ ih => exact .outwards found inside (ih second)

theorem Around.alive (around : env.Around id outer) (arena : env.IsArena)
    (alive : id < env.scopes.size) : outer < env.scopes.size := by
  induction around with
  | same => exact alive
  | outwards found inside _ ih => exact ih (Nat.lt_trans (arena.parent_lt found inside) alive)

theorem Around.le (around : env.Around id outer) (arena : env.IsArena) : outer ≤ id := by
  induction around with
  | same => exact Nat.le_refl _
  | outwards found inside _ ih =>
    exact Nat.le_of_lt (Nat.lt_of_le_of_lt ih (arena.parent_lt found inside))

theorem Around.later (around : env.Around id outer) (stays : env.StaysAlive after) :
    after.Around id outer := by
  induction around with
  | same => exact .same
  | outwards found inside _ ih =>
    obtain ⟨later, still, same⟩ := stays _ _ found
    exact .outwards still (same.trans inside) ih

/-- Nothing comes to stand around a scope later. -/
theorem Around.before (around : after.Around id outer) (stays : env.StaysAlive after)
    (arena : env.IsArena) (alive : id < env.scopes.size) : env.Around id outer := by
  induction around with
  | same => exact .same
  | outwards found inside _ ih =>
    have old := Array.getElem?_eq_getElem alive
    obtain ⟨later, still, same⟩ := stays _ _ old
    rw [found] at still
    cases still
    rw [same] at inside
    exact .outwards old inside (ih (Nat.lt_trans (arena.parent_lt old inside) alive))

/-- A lookup ends in a scope around. -/
theorem around_of_findScope? {p : Scope → Bool} {found : ScopeId}
    (isFound : env.findScope? p id = some found) : env.Around id found := by
  fun_induction findScope? env p id with
  | case1 => cases isFound
  | case2 =>
    cases isFound
    exact .same
  | case3 => cases isFound
  | case4 id scope held fails parent inside earlier ih => exact .outwards held inside (ih isFound)
  | case5 => cases isFound

theorem KeepsHome.around {table : Scope → Bindings String Callable} (home : env.KeepsHome)
    (among : ∀ (scope : Scope) (name : String) (callable : Callable),
      (table scope).find? name = some callable → callable ∈ scope.callables)
    {name : String} {callable : Callable} (found : env.lookup table id name = some callable) :
    env.Around id callable.scope := by
  unfold lookup at found
  simp only [Option.bind_eq_bind, Option.bind_eq_some_iff] at found
  obtain ⟨inner, isFound, scope, held, isNamed⟩ := found
  rw [home inner scope held callable (among scope _ _ isNamed)]
  exact around_of_findScope? isFound

theorem KeepsHome.mixin? (home : env.KeepsHome) {name : String} {callable : Callable}
    (found : env.mixin? id name = some callable) : env.Around id callable.scope :=
  home.around (fun _ _ _ => Scope.mem_callables_of_mixin) found

theorem KeepsHome.function? (home : env.KeepsHome) {name : String} {callable : Callable}
    (found : env.function? id name = some callable) : env.Around id callable.scope :=
  home.around (fun _ _ _ => Scope.mem_callables_of_function) found

end Around

section Home

variable {env after : Environment} {id : ScopeId}

theorem keepsHome_initial : initial.KeepsHome := by
  intro id scope found callable member
  have only : scope = freshScope none := by
    simpa [initial] using Array.mem_of_getElem? found
  rw [only] at member
  cases member

theorem KeepsHome.push (home : env.KeepsHome) (parent : ScopeId) : (env.push parent).1.KeepsHome := by
  intro other scope found callable member
  simp only [Environment.push, Array.getElem?_push] at found
  split at found
  · cases found
    cases member
  · exact home other scope found callable member

theorem KeepsHome.pop (home : env.KeepsHome) (id : ScopeId) : (env.pop id).KeepsHome := by
  rcases pop_eq env id with same | ⟨-, -, -, popped⟩
  · rwa [same]
  · rw [popped]
    intro other scope found callable member
    rw [Array.getElem?_pop] at found
    split at found
    · exact home other scope found callable member
    · cases found

/-- A change of a scope that adds nothing but what is defined in it. -/
theorem KeepsHome.modify (home : env.KeepsHome) {f : Scope → Scope}
    (callables : ∀ scope, ∀ callable ∈ (f scope).callables,
      callable ∈ scope.callables ∨ callable.scope = id) :
    KeepsHome { env with scopes := env.scopes.modify id f } := by
  intro other scope found callable member
  obtain ⟨old, before, rfl | ⟨rfl, rfl⟩⟩ := exists_of_modify found
  · exact home other _ before callable member
  · exact (callables old callable member).elim (home id old before callable) fun isHere => isHere

theorem KeepsMore.keepsHome (more : env.KeepsMore after) (home : env.KeepsHome) :
    after.KeepsHome := by
  intro other scope found callable member
  obtain ⟨old, before, same⟩ := more.exists_before found
  rw [same] at member
  exact home other old before callable member

end Home

section Framed

variable {env middle after : Environment} {id : ScopeId}

theorem Framed.refl (lexical : env.IsLexical id) : Framed id env env :=
  ⟨lexical, .refl env, fun _ _ scope found => ⟨scope.captured, found⟩⟩

theorem Framed.trans (lexical : env.IsLexical id) (first : Framed id env middle)
    (second : Framed id middle after) : Framed id env after := by
  refine ⟨second.lexical, first.stays.trans second.stays, fun other elsewhere scope found => ?_⟩
  obtain ⟨_, between⟩ := first.others other elsewhere scope found
  have still : ¬ middle.Around id other := fun around =>
    elsewhere (around.before first.stays lexical.arena lexical.alive)
  obtain ⟨captured, later⟩ := second.others other still _ between
  exact ⟨captured, later⟩

/-- What is done in a scope around may be done in the scope itself. -/
theorem Framed.inwards {outer : ScopeId} (lexical : env.IsLexical id) (around : env.Around id outer)
    (framed : Framed outer env after) : Framed id env after := by
  refine ⟨⟨framed.lexical.arena, framed.lexical.home, ?_⟩, framed.stays, ?_⟩
  · exact Nat.lt_of_lt_of_le lexical.alive framed.stays.size_le
  · exact fun other elsewhere => framed.others other fun inner => elsewhere (around.trans inner)

theorem IsLexical.outer {outer : ScopeId} (lexical : env.IsLexical id)
    (around : env.Around id outer) : env.IsLexical outer :=
  ⟨lexical.arena, lexical.home, around.alive lexical.arena lexical.alive⟩

theorem Framed.of_modify {target : ScopeId} {f : Scope → Scope} (around : env.Around id target)
    (lexical : IsLexical { env with scopes := env.scopes.modify target f } id)
    (parent : ∀ scope, (f scope).parent = scope.parent) :
    Framed id env { env with scopes := env.scopes.modify target f } := by
  refine ⟨lexical, env.staysAlive_modify target parent, fun other elsewhere scope found => ?_⟩
  have differs : target ≠ other := by
    rintro rfl
    exact elsewhere around
  exact ⟨scope.captured, by simp [Array.getElem?_modify, differs, found]⟩

theorem Framed.declare_around {target : ScopeId} (lexical : env.IsLexical id)
    (around : env.Around id target) (name : String) (value : Value) :
    Framed id env (env.declare target name value) := by
  refine .of_modify around ⟨lexical.arena.declare target name value, ?_, ?_⟩ fun _ => rfl
  · exact lexical.home.modify fun _ _ member => .inl member
  · rw [Array.size_modify]
    exact lexical.alive

theorem Framed.declare (lexical : env.IsLexical id) (name : String) (value : Value) :
    Framed id env (env.declare id name value) :=
  .declare_around lexical .same name value

theorem Framed.assign (lexical : env.IsLexical id) (name : String) (value : Value) :
    Framed id env (env.assign id name value) := by
  unfold Environment.assign
  refine .declare_around lexical ?_ name value
  cases found : env.findScope? (fun scope => scope.values.contains (Text.normalizeName name)) id with
  | none => exact .same
  | some target => exact around_of_findScope? found

theorem Framed.of_keepsMore (lexical : env.IsLexical id) (arena : after.IsArena)
    (more : env.KeepsMore after) : Framed id env after := by
  refine ⟨⟨arena, more.keepsHome lexical.home, more.size ▸ lexical.alive⟩, more.staysAlive, ?_⟩
  intro other _ scope found
  obtain ⟨captured, later, _⟩ := more.scopes other scope found
  exact ⟨captured, later⟩

theorem Framed.define (lexical : env.IsLexical id) (kind : CallableKind) (name : String)
    (params : List Param) (body : List Statement) :
    Framed id env (env.define id ⟨kind, name, params, id, body⟩) := by
  have captured : Framed id env (env.capture id) :=
    .of_keepsMore lexical (lexical.arena.capture lexical.alive).1 (env.keepsMore_capture id)
  let callable : Callable := ⟨kind, name, params, id, body⟩
  refine captured.trans lexical (.of_modify .same ⟨?_, ?_, ?_⟩ ?_)
  · have alive : callable.scope < env.scopes.size := lexical.alive
    exact lexical.arena.define id alive
  · refine captured.lexical.home.modify fun scope other member => ?_
    refine (mem_callables_of_defined member).imp_right ?_
    rintro rfl
    rfl
  · rw [Array.size_modify]
    exact captured.lexical.alive
  · intro scope
    split <;> rfl

theorem IsLexical.push (lexical : env.IsLexical id) :
    (env.push id).1.IsLexical env.scopes.size :=
  ⟨lexical.arena.push lexical.alive, lexical.home.push id, by simp [Environment.push]⟩

/-- A scope that is opened and closed again leaves nothing behind, unless it is kept. -/
theorem Framed.opened (lexical : env.IsLexical id)
    (framed : Framed env.scopes.size (env.push id).1 after) :
    Framed id env (after.pop env.scopes.size) := by
  refine ⟨⟨framed.lexical.arena.pop _, framed.lexical.home.pop _, ?_⟩, framed.stays.opened, ?_⟩
  · exact Nat.lt_of_lt_of_le lexical.alive framed.stays.opened.size_le
  · intro other elsewhere scope found
    have alive := (Array.getElem?_eq_some_iff.mp found).1
    have old : env.StaysAlive (env.push id).1 := fun _ scope held => ⟨scope, getElem?_push held id, rfl⟩
    have still : ¬ (env.push id).1.Around env.scopes.size other := by
      intro around
      rcases around with _ | ⟨held, inside, around⟩
      · exact Nat.lt_irrefl _ alive
      · simp only [Environment.push, Array.getElem?_push_size] at held
        cases held
        cases inside
        exact elsewhere (around.before old lexical.arena lexical.alive)
    obtain ⟨captured, later⟩ := framed.others other still scope (getElem?_push found id)
    rcases pop_eq after env.scopes.size with unchanged | ⟨-, last, -, popped⟩
    · rw [unchanged]
      exact ⟨captured, later⟩
    · rw [popped]
      exact ⟨captured, getElem?_pop later last (Nat.ne_of_lt alive)⟩

/-- Only the scopes count, not the calls. -/
theorem IsLexical.of_scopes (lexical : env.IsLexical id) (same : after.scopes = env.scopes) :
    after.IsLexical id := by
  obtain ⟨scopes, calls⟩ := env
  obtain ⟨_, _⟩ := after
  cases same
  obtain ⟨arena, home, alive⟩ := lexical
  exact ⟨⟨arena.first, arena.earlier, arena.captures, arena.defined, arena.normal⟩, home, alive⟩

theorem Framed.calling {call : Call} (framed : Framed id (env.enterCall call) after) :
    Framed id env after.leaveCall := by
  have stays : env.StaysAlive after.leaveCall := framed.stays
  have entered : (env.enterCall call).StaysAlive env := .refl env
  refine ⟨framed.lexical.of_scopes rfl, stays, fun other elsewhere scope found => ?_⟩
  exact framed.others other (fun around => elsewhere (around.later entered)) scope found

end Framed

end Environment

namespace Evaluation

/-- What is evaluated in a scope changes only that scope and those around it. -/
theorem framed_discipline :
    Discipline (fun scope s t => s.env.IsLexical scope → Environment.Framed scope s.env t.env)
      (fun s scope outer => s.env.IsLexical scope → s.env.Around scope outer) where
  refl := .refl
  trans first second lexical := (first lexical).trans lexical (second (first lexical).lexical)
  behind before isAround later lexical := by
    have first := before lexical
    refine first.trans lexical (later (fun _ => ?_) first.lexical)
    exact (isAround lexical).later first.stays
  entered isAround lexical := by
    have around := isAround (lexical.of_scopes rfl)
    exact around.later (.refl _)
  outwards isAround framed lexical := by
    have around := isAround lexical
    exact (framed (lexical.outer around)).inwards lexical around
  mixin found lexical := lexical.home.mixin? found
  function found lexical := lexical.home.function? found
  declare lexical := .declare lexical _ _
  assign lexical := .assign lexical _ _
  define lexical := .define lexical _ _ _ _
  opening framed lexical := .opened lexical (framed lexical.push)
  calling framed lexical := (framed (lexical.of_scopes rfl)).calling
  inside framed := framed
  named framed := framed
  inFile framed := framed
  importing framed := framed
  reporting := .refl

section Course

variable {context : Context} {start s t : State} {scope inner : ScopeId}

/-- What comes to be evaluated is evaluated in a scope that is alive. -/
theorem Opens.isLexical
    (opens : Opens context (fun s scope outer => s.env.IsLexical scope → s.env.Around scope outer)
      start scope s inner t)
    (before : start.env.IsLexical scope) (framed : Environment.Framed scope start.env s.env) :
    t.env.IsLexical inner := by
  have lexical := framed.lexical
  cases opens with
  | same => exact lexical
  | named => exact lexical
  | opened => exact lexical.push
  | declared name value => exact (Environment.Framed.declare lexical name value).lexical
  | including => exact lexical.of_scopes rfl
  | calling isAround => exact (lexical.outer (isAround lexical)).of_scopes rfl
  | applying isAround => exact lexical.outer ((isAround before).later framed.stays)
  | importing => exact lexical

theorem Step.isLexical {p q : Point} (step : Step context p q)
    (lexical : p.state.env.IsLexical p.scope) : q.state.env.IsLexical q.scope := by
  obtain ⟨t, framed, opens⟩ := step.passes framed_discipline
  exact opens.isLexical lexical (framed lexical)

theorem Reached.isLexical {source : String} {entry : Option SourceId} {root : Statement} {p : Point}
    (reached : Reached context source entry root p) : p.state.env.IsLexical p.scope := by
  induction reached with
  | refl => exact ⟨Environment.isArena_initial, Environment.keepsHome_initial, Nat.zero_lt_one⟩
  | tail _ step ih => exact step.isLexical ih

end Course

end Evaluation

end Stylesheet
