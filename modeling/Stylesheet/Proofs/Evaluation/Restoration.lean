import Mathlib.Tactic.ByContra
import Stylesheet.Proofs.Evaluation.Discipline
import Stylesheet.Proofs.Scope.Arena

/-! What evaluation restores. Calls, imports, the stylesheet at hand, its name and the statement
around are the same at the end of whatever is evaluated as at its start, also when it fails, and the
scopes that were alive are still alive and stand where they stood. -/

namespace Stylesheet

namespace Environment

/-- All scopes that are alive stay so, each inside of the same one. -/
def StaysAlive (env after : Environment) : Prop :=
  ∀ (id : ScopeId) (scope : Scope), env.scopes[id]? = some scope →
    ∃ later, after.scopes[id]? = some later ∧ later.parent = scope.parent

variable {env middle after : Environment}

theorem StaysAlive.refl (env : Environment) : env.StaysAlive env :=
  fun _ scope found => ⟨scope, found, rfl⟩

theorem StaysAlive.trans (first : env.StaysAlive middle) (second : middle.StaysAlive after) :
    env.StaysAlive after := by
  intro id scope found
  obtain ⟨between, stays, same⟩ := first id scope found
  obtain ⟨later, still, again⟩ := second id between stays
  exact ⟨later, still, again.trans same⟩

theorem StaysAlive.size_le (stays : env.StaysAlive after) :
    env.scopes.size ≤ after.scopes.size := by
  by_contra fewer
  obtain ⟨later, found, _⟩ := stays after.scopes.size _
    (Array.getElem?_eq_getElem (Nat.lt_of_not_le fewer))
  rw [Array.getElem?_size] at found
  cases found

theorem staysAlive_modify (env : Environment) (id : ScopeId) {f : Scope → Scope}
    (parent : ∀ scope, (f scope).parent = scope.parent) :
    env.StaysAlive { env with scopes := env.scopes.modify id f } := by
  intro other scope found
  by_cases same : id = other
  · exact ⟨f scope, by simp [Array.getElem?_modify, same, found], parent scope⟩
  · exact ⟨scope, by simp [Array.getElem?_modify, same, found], rfl⟩

theorem staysAlive_declare (env : Environment) (id : ScopeId) (name : String) (value : Value) :
    env.StaysAlive (env.declare id name value) :=
  env.staysAlive_modify id fun _ => rfl

theorem KeepsMore.staysAlive (more : env.KeepsMore after) : env.StaysAlive after := by
  intro id scope found
  obtain ⟨captured, later, _⟩ := more.scopes id scope found
  exact ⟨_, later, rfl⟩

theorem staysAlive_define (env : Environment) (id : ScopeId) (callable : Callable) :
    env.StaysAlive (env.define id callable) := by
  refine (env.keepsMore_capture callable.scope).staysAlive.trans (staysAlive_modify _ id ?_)
  intro scope
  split <;> rfl

/-- A scope that is opened and closed again leaves those before it alive. -/
theorem StaysAlive.opened {parent : ScopeId} (stays : (env.push parent).1.StaysAlive after) :
    env.StaysAlive (after.pop env.scopes.size) := by
  intro id scope found
  have alive := (Array.getElem?_eq_some_iff.mp found).1
  obtain ⟨later, still, same⟩ := stays id scope (getElem?_push found parent)
  rcases pop_eq after env.scopes.size with unchanged | ⟨-, last, -, popped⟩
  · rw [unchanged]
    exact ⟨later, still, same⟩
  · rw [popped]
    exact ⟨later, getElem?_pop still last (Nat.ne_of_lt alive), same⟩

end Environment

namespace Evaluation

/-- The second state is as the first one, apart from what was defined, assigned, imported and
reported in between. -/
structure State.Restored (s t : State) : Prop where
  calls : t.env.calls = s.env.calls
  importStack : t.importStack = s.importStack
  file : t.file = s.file
  filename : t.filename = s.filename
  parent : t.parent = s.parent
  scopes : s.env.StaysAlive t.env

theorem State.Restored.refl (s : State) : s.Restored s :=
  ⟨rfl, rfl, rfl, rfl, rfl, .refl s.env⟩

theorem State.Restored.trans {s t u : State} (first : s.Restored t) (second : t.Restored u) :
    s.Restored u :=
  ⟨second.calls.trans first.calls, second.importStack.trans first.importStack,
    second.file.trans first.file, second.filename.trans first.filename,
    second.parent.trans first.parent, first.scopes.trans second.scopes⟩

theorem restored_discipline :
    Discipline (fun _ => State.Restored) (fun _ _ _ => True) where
  refl := .refl _
  trans := .trans
  behind before _ later := before.trans (later trivial)
  entered _ := trivial
  outwards _ related := related
  mixin _ := trivial
  function _ := trivial
  declare := ⟨rfl, rfl, rfl, rfl, rfl, Environment.staysAlive_declare _ _ _ _⟩
  assign := ⟨rfl, rfl, rfl, rfl, rfl, Environment.staysAlive_declare _ _ _ _⟩
  define := ⟨Environment.calls_capture _ _, rfl, rfl, rfl, rfl, Environment.staysAlive_define _ _ _⟩
  opening related :=
    ⟨(Environment.calls_pop _ _).trans related.calls, related.importStack, related.file,
      related.filename, related.parent, related.scopes.opened⟩
  calling related := by
    refine ⟨?_, related.importStack, related.file, related.filename, related.parent, related.scopes⟩
    exact congrArg (List.drop 1) related.calls
  inside related :=
    ⟨related.calls, related.importStack, related.file, related.filename, rfl, related.scopes⟩
  named related :=
    ⟨related.calls, related.importStack, related.file, rfl, related.parent, related.scopes⟩
  inFile related :=
    ⟨related.calls, related.importStack, rfl, related.filename, related.parent, related.scopes⟩
  importing related := by
    refine ⟨related.calls, ?_, related.file, related.filename, related.parent, related.scopes⟩
    exact (congrArg List.dropLast related.importStack).trans List.dropLast_concat
  reporting := ⟨rfl, rfl, rfl, rfl, rfl, .refl _⟩

/-- A statement restores what it changes for its own evaluation, from any state and in any scope,
whether it succeeds or fails. -/
theorem statement_restores (context : Context) (depth : Nat) (scope : ScopeId) (s : Statement)
    (state : State) :
    state.Restored (final (statement (runner depth) scope s context state)) :=
  leaves_statement restored_discipline (runner_keepsTo restored_discipline context depth) scope s
    state

end Evaluation

end Stylesheet
