import Stylesheet.Proofs.Bindings
import Stylesheet.Proofs.Compiler.Blocks
import Stylesheet.Proofs.Evaluation.Failure

/-! The runs of a loop share the scope that was opened for the loop. What one of them declares stays
declared in all later ones. -/

namespace Stylesheet

namespace Environment

/-- A scope has a variable of its own. -/
def Declares (env : Environment) (id : ScopeId) (name : String) : Prop :=
  ∃ scope, env.scopes[id]? = some scope ∧ scope.values.contains (Text.normalizeName name) = true

/-- All scopes that are alive stay so and keep their variables, whatever the values are. -/
def KeepsNames (env after : Environment) : Prop :=
  ∀ (id : ScopeId) (scope : Scope), env.scopes[id]? = some scope →
    ∃ later, after.scopes[id]? = some later ∧
      ∀ key, scope.values.contains key = true → later.values.contains key = true

variable {env middle after : Environment} {id : ScopeId} {name : String}

theorem KeepsNames.refl (env : Environment) : env.KeepsNames env :=
  fun _ scope found => ⟨scope, found, fun _ held => held⟩

theorem KeepsNames.trans (first : env.KeepsNames middle) (second : middle.KeepsNames after) :
    env.KeepsNames after := by
  intro id scope found
  obtain ⟨between, stays, names⟩ := first id scope found
  obtain ⟨later, still, more⟩ := second id between stays
  exact ⟨later, still, fun key held => more key (names key held)⟩

theorem Declares.later (declares : env.Declares id name) (keeps : env.KeepsNames after) :
    after.Declares id name := by
  obtain ⟨scope, found, held⟩ := declares
  obtain ⟨later, still, names⟩ := keeps id scope found
  exact ⟨later, still, names _ held⟩

theorem keepsNames_modify (env : Environment) (id : ScopeId) {f : Scope → Scope}
    (names : ∀ (scope : Scope) (key : String), scope.values.contains key = true →
      (f scope).values.contains key = true) :
    env.KeepsNames { env with scopes := env.scopes.modify id f } := by
  intro other scope found
  by_cases same : id = other
  · exact ⟨f scope, by simp [Array.getElem?_modify, same, found], names scope⟩
  · exact ⟨scope, by simp [Array.getElem?_modify, same, found], fun _ held => held⟩

theorem keepsNames_declare (env : Environment) (id : ScopeId) (name : String) (value : Value) :
    env.KeepsNames (env.declare id name value) := by
  refine env.keepsNames_modify id fun scope key held => ?_
  by_cases same : key = Text.normalizeName name
  · simp [Bindings.contains, same]
  · rwa [Bindings.contains, Bindings.find?_insert_of_ne same]

theorem keepsNames_define (env : Environment) (id : ScopeId) (callable : Callable) :
    env.KeepsNames (env.define id callable) := by
  have kept : env.KeepsNames (env.capture callable.scope) := by
    intro other scope found
    obtain ⟨captured, later, -⟩ := (keepsMore_capture env callable.scope).scopes other scope found
    exact ⟨_, later, fun _ held => held⟩
  refine kept.trans (keepsNames_modify _ id fun scope key held => ?_)
  split <;> exact held

/-- A scope that is opened and closed again leaves those before it with their variables. -/
theorem KeepsNames.opened {parent : ScopeId} (keeps : (env.push parent).1.KeepsNames after) :
    env.KeepsNames (after.pop env.scopes.size) := by
  intro id scope found
  have alive := (Array.getElem?_eq_some_iff.mp found).1
  obtain ⟨later, still, names⟩ := keeps id scope (getElem?_push found parent)
  rcases pop_eq after env.scopes.size with unchanged | ⟨-, last, -, popped⟩
  · rw [unchanged]
    exact ⟨later, still, names⟩
  · rw [popped]
    exact ⟨later, getElem?_pop still last (Nat.ne_of_lt alive), names⟩

/-- A variable of the scope itself is found, whatever is around the scope. -/
theorem Declares.exists_value (declares : env.Declares id name) :
    ∃ value, env.valueOf? id name = some value := by
  obtain ⟨scope, found, held⟩ := declares
  obtain ⟨value, isValue⟩ := Option.isSome_iff_exists.mp held
  refine ⟨value, ?_⟩
  simp [valueOf?, lookup, findScope?_of_found _ found, held, found, isValue]

/-- The scope that is found has what was asked for. -/
theorem exists_of_findScope? {p : Scope → Bool} {found : ScopeId}
    (isFound : env.findScope? p id = some found) :
    ∃ scope, env.scopes[found]? = some scope ∧ p scope = true := by
  fun_induction findScope? env p id with
  | case1 => cases isFound
  | case2 id scope held holds =>
    cases isFound
    exact ⟨scope, held, holds⟩
  | case3 => cases isFound
  | case4 id scope held fails parent inside earlier ih => exact ih isFound
  | case5 => cases isFound

/-- An assignment to a variable that is not found declares it. -/
theorem declares_assign {scope : Scope} (found : env.scopes[id]? = some scope)
    (undefined : env.valueOf? id name = none) (value : Value) :
    (env.assign id name value).Declares id name := by
  have nowhere : env.findScope?
      (fun scope => scope.values.contains (Text.normalizeName name)) id = none := by
    by_contra somewhere
    obtain ⟨other, isFound⟩ := Option.ne_none_iff_exists'.mp somewhere
    obtain ⟨holder, held, holds⟩ := exists_of_findScope? isFound
    obtain ⟨value, isValue⟩ := Option.isSome_iff_exists.mp holds
    simp [valueOf?, lookup, isFound, held, isValue] at undefined
  have declared : (env.declare id name value).Declares id name := by
    refine ⟨{ scope with values := scope.values.insert (Text.normalizeName name) value }, ?_, ?_⟩
    · simp [declare, Array.getElem?_modify, found]
    · simp [Bindings.contains]
  simpa [assign, nowhere] using declared

end Environment

namespace Evaluation

/-- Whatever is evaluated, all scopes keep their variables. -/
theorem names_discipline :
    Discipline (fun _ (s t : State) => s.env.KeepsNames t.env) (fun _ _ _ => True) where
  refl := .refl _
  trans := .trans
  behind before _ later := before.trans (later trivial)
  entered _ := trivial
  outwards _ related := related
  mixin _ := trivial
  function _ := trivial
  declare := Environment.keepsNames_declare _ _ _ _
  assign := Environment.keepsNames_declare _ _ _ _
  define := Environment.keepsNames_define _ _ _
  opening related := related.opened
  calling related := related
  inside related := related
  named related := related
  inFile related := related
  importing related := related
  reporting := .refl _

variable {context : Context} {o p q r b : Point}

theorem Opens.keepsNames {around : State → ScopeId → ScopeId → Prop} {start s t : State}
    {scope inner : ScopeId} (opens : Opens context around start scope s inner t) :
    s.env.KeepsNames t.env := by
  cases opens with
  | opened =>
    intro id scope found
    exact ⟨scope, Environment.getElem?_push found _, fun _ held => held⟩
  | declared name value => exact Environment.keepsNames_declare _ _ _ _
  | _ => exact .refl _

theorem Step.keepsNames (step : Step context p q) : p.state.env.KeepsNames q.state.env := by
  obtain ⟨t, keeps, opens⟩ := step.passes names_discipline
  exact keeps.trans opens.keepsNames

/-- The body of a loop that is going on. -/
def Task.loopBody? : Task → Option (List Statement)
  | .whileHolds _ body _ _ _ | .forIntegers _ _ body _ _ _ | .forValues _ body _ _ => some body
  | _ => none

/-- A loop goes on with the next run of its body. -/
structure NextRun (context : Context) (p q : Point) : Prop where
  step : Step context p q
  running : p.task.loopBody?.isSome
  goesOn : q.task.loopBody?.isSome

/-- Whatever belongs to a loop that is going on happens in its scope. -/
theorem Step.scope_of_loop (step : Step context p q) (running : p.task.loopBody?.isSome) :
    q.scope = p.scope := by
  cases step <;> first | rfl | cases running

/-- A loop starts in a new scope. -/
theorem Step.fresh_of_loop (step : Step context p q) (outside : p.task.loopBody? = none)
    (running : q.task.loopBody?.isSome) :
    q.state.env.scopes[q.scope]? = some (Environment.freshScope (some p.scope)) := by
  cases step with
  | loopWhile => simp [State.scoped, Environment.push]
  | loopCount => simp [State.scoped, Environment.push]
  | loopEach => simp [State.scoped, Environment.push]
  | whileNext => cases outside
  | countNext => cases outside
  | eachNext => cases outside
  | _ => cases running

theorem lookUp_ok {state : State} {scope : ScopeId} {name : String} {value : Value}
    (found : state.env.valueOf? scope name = some value) (line : Nat) (span : Span) :
    lookUp scope name line span context state = .ok value.withoutSpelling state := by
  rw [lookUp, get_bind, found]
  rfl

/-- A default is not assigned to a variable that is found. -/
theorem assign_guarded_ok {state : State} {scope : ScopeId} {name : String} {value : Value}
    (found : state.env.valueOf? scope name = some value) (run : Runner) (e : Expr) :
    assign run scope name e true context state = .ok () state := by
  rw [assign, get_bind, found]
  rfl

theorem NextRun.scope_of_later (later : Relation.ReflTransGen (NextRun context) p q) :
    q.scope = p.scope := by
  induction later with
  | refl => rfl
  | tail _ next ih => exact (next.step.scope_of_loop next.running).trans ih

theorem NextRun.keepsNames (later : Relation.ReflTransGen (NextRun context) p q) :
    p.state.env.KeepsNames q.state.env := by
  induction later with
  | refl => exact .refl _
  | tail _ next ih => exact ih.trans next.step.keepsNames

theorem NextRun.isSome_loopBody? (later : Relation.ReflTransGen (NextRun context) p q)
    (running : p.task.loopBody?.isSome) : q.task.loopBody?.isSome := by
  cases later with
  | refl => exact running
  | tail _ next => exact next.goesOn

/-- All runs of a loop share one scope, which is new when the loop starts. A variable that a run
assigns to and that is not found belongs to this scope, and what the scope has after a run it has in
all later ones: there, the variable can be read before anything is assigned to it, both in the
condition and in the body, and a default is not assigned to it. -/
theorem runs_share_scope (starts : Step context o p) (outside : o.task.loopBody? = none)
    (running : p.task.loopBody?.isSome) (run : Relation.ReflTransGen (NextRun context) p q)
    (later : Relation.ReflTransGen (NextRun context) q r) (within : Step context r b) :
    p.state.env.scopes[p.scope]? = some (Environment.freshScope (some o.scope)) ∧
    q.scope = p.scope ∧ r.scope = p.scope ∧ b.scope = p.scope ∧
    ∀ name,
      (b.state.env.valueOf? p.scope name = none → ∀ value,
        (b.state.env.assign p.scope name value).Declares p.scope name) ∧
      (q.state.env.Declares p.scope name →
        (∃ value, ∀ line span, lookUp p.scope name line span context b.state = .ok value b.state) ∧
        ∀ run value, assign run p.scope name value true context b.state = .ok () b.state) := by
  have fresh := starts.fresh_of_loop outside running
  have inLoop : r.task.loopBody?.isSome :=
    NextRun.isSome_loopBody? later (NextRun.isSome_loopBody? run running)
  have here : r.scope = p.scope := (NextRun.scope_of_later later).trans (NextRun.scope_of_later run)
  have keeps : q.state.env.KeepsNames b.state.env :=
    (NextRun.keepsNames later).trans within.keepsNames
  refine ⟨fresh, NextRun.scope_of_later run, here, (within.scope_of_loop inLoop).trans here,
    fun name => ⟨fun undefined value => ?_, fun declared => ?_⟩⟩
  · obtain ⟨scope, alive, -⟩ := ((NextRun.keepsNames run).trans keeps) p.scope _ fresh
    exact Environment.declares_assign alive undefined value
  · obtain ⟨value, found⟩ := (declared.later keeps).exists_value
    exact ⟨⟨_, lookUp_ok found⟩, assign_guarded_ok found⟩

/-- The body of a loop that gives a variable a value. -/
def remembering : List Statement :=
  [.mk (.assign "v" (.mk (.literal (.unquoted "a")) 1 ⟨0, 1⟩) true) [] 1 ⟨0, 1⟩ none]

def twoValues : Value :=
  .list [.unquoted "x", .unquoted "y"] .comma

/-- A loop over two values. -/
def loopOverTwo : Statement :=
  .mk (.loopEach "i" (.mk (.literal twoValues) 1 ⟨0, 1⟩)) remembering 1 ⟨0, 1⟩ none

/-- The second run of the loop finds the variable of the first one. -/
theorem runs_share_scope_of_two :
    let context : Context := ⟨.default, .empty, []⟩
    let start := Compilation.start .default "" none
    ∃ p q b : Point,
      Step context ⟨0, 0, .content loopOverTwo, start⟩ p ∧ NextRun context p q ∧ Step context q b ∧
      b.task = .statements remembering ∧ q.state.env.Declares p.scope "v" ∧
      ∃ value, lookUp p.scope "v" 1 ⟨0, 1⟩ context b.state = .ok value b.state := by
  intro context start
  let p : Point := ⟨0, 1, .forValues "i" remembering [] [.unquoted "x", .unquoted "y"],
    start.scoped 0⟩
  have list : expr (runner 0) 0 (.mk (.literal twoValues) 1 ⟨0, 1⟩) context start =
    .ok twoValues start := rfl
  have few : twoValues.toItems.length ≤ context.options.maxLoopIterations := by decide
  have starts : Step context ⟨0, 0, .content loopOverTwo, start⟩ p := .loopEach list few
  let inFirst := p.state.declaring 1 "i" (.unquoted "x")
  let q : Point := ⟨0, 1, .forValues "i" remembering [[]] [.unquoted "y"],
    inFirst.declaring 1 "v" (.unquoted "a")⟩
  have run : statements (runner 0) 1 remembering context inFirst = .ok .nothing q.state := by
    with_unfolding_all rfl
  have next : NextRun context p q := ⟨.eachNext run rfl, rfl, rfl⟩
  have within : Step context q ⟨0, 1, .statements remembering,
    q.state.declaring 1 "i" (.unquoted "y")⟩ := .eachBody
  have declared : q.state.env.Declares p.scope "v" := ⟨_, rfl, by decide +kernel⟩
  obtain ⟨-, -, -, -, shares⟩ := runs_share_scope starts rfl rfl (.single next) .refl within
  obtain ⟨value, found⟩ := ((shares "v").2 declared).1
  exact ⟨p, q, _, starts, next, within, rfl, declared, value, found 1 ⟨0, 1⟩⟩

/-- A loop whose runs give a variable its value unless it has one. -/
def rememberingSource : String :=
  ".a { @each $i in x, y { $v: $i !default; b: $v; } }"

/-- The second run finds the value that the first one gave. -/
theorem runs_not_fresh :
    ((Compiler.braces.compileTree rememberingSource).run Compiler.noFiles).1.toOption.map
      (·.toText ⟨.compressed, false⟩) = some ".a{b:x;b:x}\n" := by
  have spelled : rememberingSource.toList = _ := String.toList_ofList
  rw [Compiler.run_compileTree, Compilation.run, Statement.parse_of_toList spelled]
  decide +kernel

end Evaluation

end Stylesheet
