import Stylesheet.Proofs.Scope.Arena
import Stylesheet.Proofs.Scope.Unnamed

/-! Environments that share some scopes and correspond in all that were opened since. What else is
alive in them may be anything, and any number of scopes, so that what was opened since may have other
numbers. Whatever is done with corresponding scopes keeps this. -/

namespace Stylesheet

/-- Which scopes of an environment correspond to which ones of another: some are shared, and those
from a number on are the same ones as those from another number on. -/
structure Shift where
  base : Nat
  base' : Nat
  shared : Nat → Prop
  pos : 0 < base
  pos' : 0 < base'
  lt : ∀ {id}, shared id → id < base
  lt' : ∀ {id}, shared id → id < base'

namespace Shift

/-- The number of a scope in the other environment. -/
def move (f : Shift) (id : Nat) : Nat :=
  if id < f.base then id else id - f.base + f.base'

/-- A scope has one that corresponds to it. -/
def Sees (f : Shift) (id : Nat) : Prop :=
  f.shared id ∨ f.base ≤ id

def Paired (f : Shift) (id id' : ScopeId) : Prop :=
  f.Sees id ∧ id' = f.move id

variable {f : Shift} {id other : Nat}

theorem move_shared (shared : f.shared id) : f.move id = id := if_pos (f.lt shared)

theorem move_since (since : f.base ≤ id) : f.move id = id - f.base + f.base' :=
  if_neg (Nat.not_lt_of_le since)

theorem move_lt_iff (sees : f.Sees id) (seesOther : f.Sees other) :
    f.move id < f.move other ↔ id < other := by
  rcases sees with shared | since
  · have below := f.lt shared
    have below' := f.lt' shared
    rw [move_shared shared]
    rcases seesOther with sharedOther | since
    · rw [move_shared sharedOther]
    · rw [move_since since]
      omega
  · rw [move_since since]
    rcases seesOther with shared | sinceOther
    · have below := f.lt shared
      have below' := f.lt' shared
      rw [move_shared shared]
      omega
    · rw [move_since sinceOther]
      omega

theorem move_inj (sees : f.Sees id) (seesOther : f.Sees other) :
    f.move id = f.move other ↔ id = other := by
  have below := move_lt_iff sees seesOther
  have above := move_lt_iff seesOther sees
  omega

end Shift

/-- The same mixin or function in the other environment. -/
def Callable.moved (f : Shift) (callable : Callable) : Callable :=
  { callable with scope := f.move callable.scope }

def Scope.moved (f : Shift) (scope : Scope) : Scope :=
  { scope with
    parent := scope.parent.map f.move
    mixins := scope.mixins.mapValues (Callable.moved f)
    functions := scope.functions.mapValues (Callable.moved f) }

/-- All that a scope refers to has something that corresponds to it. -/
structure Scope.IsClosed (f : Shift) (scope : Scope) : Prop where
  parent : ∀ parent, scope.parent = some parent → f.Sees parent
  callables : ∀ callable ∈ scope.callables, f.Sees callable.scope

/-- Corresponding scopes hold the same, and the same calls are active. -/
structure Shift.Relates (f : Shift) (env env' : Environment) : Prop where
  calls : env'.calls = env.calls
  base : f.base ≤ env.scopes.size
  size : env'.scopes.size = f.move env.scopes.size
  scopes : ∀ {id}, f.Sees id → env'.scopes[f.move id]? = env.scopes[id]?.map (Scope.moved f)
  closed : ∀ {id scope}, f.Sees id → env.scopes[id]? = some scope → scope.IsClosed f

namespace Shift.Relates

variable {f : Shift} {env env' : Environment} {id : ScopeId}

theorem found (r : f.Relates env env') (sees : f.Sees id) {scope : Scope}
    (isFound : env.scopes[id]? = some scope) :
    env'.scopes[f.move id]? = some (scope.moved f) := by
  rw [r.scopes sees, isFound]
  rfl

/-- Going outwards from a scope with a corresponding one leads to such scopes only. -/
theorem sees_of_findScope? (r : f.Relates env env') (sees : f.Sees id) {p : Scope → Bool}
    {target : ScopeId} (isFound : env.findScope? p id = some target) : f.Sees target := by
  fun_induction Environment.findScope? env p id with
  | case1 => cases isFound
  | case2 =>
    cases isFound
    exact sees
  | case3 => cases isFound
  | case4 id scope found fails parent inside earlier ih =>
    exact ih ((r.closed sees found).parent parent inside) isFound
  | case5 => cases isFound

theorem findScope? (r : f.Relates env env') (sees : f.Sees id) {p q : Scope → Bool}
    (same : ∀ scope, q (Scope.moved f scope) = p scope) :
    env'.findScope? q (f.move id) = (env.findScope? p id).map f.move := by
  fun_induction Environment.findScope? env p id with
  | case1 id missing =>
    have gone := r.scopes sees
    rw [missing] at gone
    rw [Environment.findScope?, gone]
    rfl
  | case2 id scope found holds =>
    rw [Environment.findScope?_of_found q (r.found sees found), same, if_pos holds]
    rfl
  | case3 id scope found fails alone =>
    have top : (scope.moved f).parent = none := congrArg (Option.map f.move) alone
    rw [Environment.findScope?_of_found q (r.found sees found), same, if_neg fails, top]
    rfl
  | case4 id scope found fails parent inside earlier ih =>
    have seesParent := (r.closed sees found).parent parent inside
    have isParent : (scope.moved f).parent = some (f.move parent) :=
      congrArg (Option.map f.move) inside
    rw [Environment.findScope?_of_found q (r.found sees found), same, if_neg fails, isParent]
    simp only [(Shift.move_lt_iff seesParent sees).mpr earlier, if_true]
    exact ih seesParent
  | case5 id scope found fails parent inside late =>
    have seesParent := (r.closed sees found).parent parent inside
    have isParent : (scope.moved f).parent = some (f.move parent) :=
      congrArg (Option.map f.move) inside
    rw [Environment.findScope?_of_found q (r.found sees found), same, if_neg fails, isParent]
    simp only [mt (Shift.move_lt_iff seesParent sees).mp late, if_false]
    rfl

theorem lookup (r : f.Relates env env') (sees : f.Sees id) {α β : Type} {g : α → β}
    {table : Scope → Bindings String α} {other : Scope → Bindings String β}
    (same : ∀ scope, other (Scope.moved f scope) = (table scope).mapValues g) (name : String) :
    env'.lookup other (f.move id) name = (env.lookup table id name).map g := by
  have found := r.findScope? sees
    (p := fun scope => (table scope).contains (Text.normalizeName name))
    (q := fun scope => (other scope).contains (Text.normalizeName name))
    fun scope => by rw [same, Bindings.contains_mapValues]
  unfold Environment.lookup
  simp only [bind, found]
  cases isFound : env.findScope? (fun scope => (table scope).contains (Text.normalizeName name)) id with
  | none => rfl
  | some target =>
    simp only [Option.map_some, Option.bind_some, r.scopes (r.sees_of_findScope? sees isFound)]
    cases env.scopes[target]? with
    | none => rfl
    | some scope => simp only [Option.map_some, Option.bind_some, same, Bindings.find?_mapValues]

theorem valueOf? (r : f.Relates env env') (sees : f.Sees id) (name : String) :
    env'.valueOf? (f.move id) name = env.valueOf? id name := by
  have same : ∀ scope, (Scope.moved f scope).values = scope.values.mapValues (fun value => value) := by
    intro scope
    change scope.values = _
    induction scope.values with
    | nil => rfl
    | cons entry rest ih => rw [Bindings.mapValues, ← ih]
  have found := r.lookup sees same name
  rwa [Option.map_id'] at found

/-- What is looked up in a scope refers to a scope with a corresponding one. -/
theorem sees_of_lookup (r : f.Relates env env') (sees : f.Sees id)
    {table : Scope → Bindings String Callable}
    (among : ∀ (scope : Scope) (name : String) (callable : Callable),
      (table scope).find? name = some callable → callable ∈ scope.callables)
    {name : String} {callable : Callable} (found : env.lookup table id name = some callable) :
    f.Sees callable.scope := by
  unfold Environment.lookup at found
  simp only [Option.bind_eq_bind, Option.bind_eq_some_iff] at found
  obtain ⟨target, isFound, scope, held, isNamed⟩ := found
  have closed := r.closed (r.sees_of_findScope? sees isFound) held
  exact closed.callables callable (among scope _ _ isNamed)

/-- A scope is opened in both environments. -/
theorem push (r : f.Relates env env') (sees : f.Sees id) :
    f.Relates (env.push id).1 (env'.push (f.move id)).1 := by
  have last : f.Sees env.scopes.size := .inr r.base
  refine ⟨r.calls, ?_, ?_, fun {other} seesOther => ?_, fun {other scope} seesOther found => ?_⟩
  · simp only [Environment.push, Array.size_push]
    exact Nat.le_succ_of_le r.base
  · simp only [Environment.push, Array.size_push, r.size]
    have base := r.base
    rw [Shift.move_since base, Shift.move_since (Nat.le_succ_of_le base)]
    omega
  · simp only [Environment.push, Array.getElem?_push, r.size, Shift.move_inj seesOther last]
    split
    · rfl
    · exact r.scopes seesOther
  · simp only [Environment.push, Array.getElem?_push] at found
    split at found
    · cases found
      refine ⟨fun parent inside => ?_, fun callable member => by cases member⟩
      cases inside
      exact sees
    · exact r.closed seesOther found

/-- The scopes that were opened at the same time are closed in both environments, or kept in both. -/
theorem pop (r : f.Relates env env') {id : Nat} (since : f.base ≤ id) :
    f.Relates (env.pop id) (env'.pop (f.move id)) := by
  have captured : env'.scopes[f.move id]?.any (·.captured) = env.scopes[id]?.any (·.captured) := by
    rw [r.scopes (.inr since)]
    cases env.scopes[id]? <;> rfl
  have size := r.size
  have base := r.base
  have pos := f.pos
  have pos' := f.pos'
  rw [Shift.move_since base] at size
  have first : (f.move id = 0) = (id = 0) := by
    rw [Shift.move_since since]
    exact propext ⟨fun _ => by omega, fun _ => by omega⟩
  have isLast : (f.move id + 1 != env'.scopes.size) = (id + 1 != env.scopes.size) := by
    rw [Shift.move_since since, Bool.eq_iff_iff, bne_iff_ne, bne_iff_ne]
    omega
  unfold Environment.pop
  rw [captured, isLast]
  simp only [first]
  split
  · exact r
  · rename_i free
    have last : id + 1 = env.scopes.size := by
      simp only [Bool.or_eq_true, decide_eq_true_eq, bne_iff_ne, ne_eq, not_or, not_not] at free
      exact free.1.2
    refine ⟨r.calls, ?_, ?_, fun {other} seesOther => ?_, fun {other scope} seesOther found => ?_⟩
    · rw [Array.size_pop, ← last]
      exact since
    · have isLast : f.move (id + 1 - 1) = id + 1 - 1 - f.base + f.base' := Shift.move_since since
      rw [Array.size_pop, Array.size_pop, ← last, isLast]
      omega
    · have before : other < env.scopes.size - 1 ↔ f.move other < env'.scopes.size - 1 := by
        have order := Shift.move_lt_iff seesOther (.inr since : f.Sees id)
        rw [Shift.move_since since] at order
        omega
      rw [Array.getElem?_pop, Array.getElem?_pop]
      simp only [before]
      split
      · exact r.scopes seesOther
      · rfl
    · rw [Array.getElem?_pop] at found
      split at found
      · exact r.closed seesOther found
      · cases found

/-- Corresponding scopes are changed in the same way. -/
theorem modify (r : f.Relates env env') (sees : f.Sees id) {g g' : Scope → Scope}
    (same : ∀ scope, g' (Scope.moved f scope) = Scope.moved f (g scope))
    (closed : ∀ scope, scope.IsClosed f → (g scope).IsClosed f) :
    f.Relates { env with scopes := env.scopes.modify id g }
      { env' with scopes := env'.scopes.modify (f.move id) g' } := by
  refine ⟨r.calls, ?_, ?_, fun {other} seesOther => ?_, fun {other scope} seesOther found => ?_⟩
  · rw [Array.size_modify]
    exact r.base
  · rw [Array.size_modify, Array.size_modify]
    exact r.size
  · rw [Array.getElem?_modify, Array.getElem?_modify]
    simp only [Shift.move_inj sees seesOther, r.scopes seesOther]
    split
    · cases env.scopes[other]? with
      | none => rfl
      | some scope => simp only [Option.map_some, same]
    · rfl
  · obtain ⟨old, before, rfl | ⟨-, rfl⟩⟩ := Environment.exists_of_modify found
    · exact r.closed seesOther before
    · exact closed old (r.closed seesOther before)

theorem declare (r : f.Relates env env') (sees : f.Sees id) (name : String) (value : Value) :
    f.Relates (env.declare id name value) (env'.declare (f.move id) name value) :=
  r.modify sees (fun _ => rfl) fun _ closed => ⟨closed.parent, closed.callables⟩

theorem assign (r : f.Relates env env') (sees : f.Sees id) (name : String) (value : Value) :
    f.Relates (env.assign id name value) (env'.assign (f.move id) name value) := by
  unfold Environment.assign
  dsimp only
  rw [r.findScope? sees (p := fun scope => scope.values.contains (Text.normalizeName name))
    fun _ => rfl]
  cases found : env.findScope? (fun scope => scope.values.contains (Text.normalizeName name)) id with
  | none => exact r.declare sees name value
  | some target => exact r.declare (r.sees_of_findScope? sees found) name value

theorem capture (r : f.Relates env env') (sees : f.Sees id) :
    f.Relates (env.capture id) (env'.capture (f.move id)) := by
  have mark {env env' : Environment} {id : ScopeId} (r : f.Relates env env') (sees : f.Sees id) :
      f.Relates
        { env with scopes := env.scopes.modify id fun scope => { scope with captured := true } }
        { env' with
          scopes := env'.scopes.modify (f.move id) fun scope => { scope with captured := true } } :=
    r.modify sees (fun _ => rfl) fun _ closed => ⟨closed.parent, closed.callables⟩
  revert env'
  fun_induction Environment.capture env id with
  | case1 env id missing =>
    intro env' r
    have gone := r.scopes sees
    rw [missing] at gone
    rw [Environment.capture, gone]
    exact r
  | case2 env id scope found kept =>
    intro env' r
    have isKept : (scope.moved f).captured = true := kept
    rw [Environment.capture, r.found sees found]
    simp only [isKept, if_true]
    exact r
  | case3 env id scope found fresh marked alone =>
    intro env' r
    have isFresh : ¬(scope.moved f).captured = true := fresh
    have top : (scope.moved f).parent = none := congrArg (Option.map f.move) alone
    rw [Environment.capture, r.found sees found]
    simp only [isFresh, Bool.false_eq_true, if_false, top]
    exact mark r sees
  | case4 env id scope found fresh marked parent inside earlier ih =>
    intro env' r
    have isFresh : ¬(scope.moved f).captured = true := fresh
    have seesParent := (r.closed sees found).parent parent inside
    have isParent : (scope.moved f).parent = some (f.move parent) :=
      congrArg (Option.map f.move) inside
    have goesOn : env'.capture (f.move id) = Environment.capture { env' with
        scopes := env'.scopes.modify (f.move id) fun scope => { scope with captured := true } }
        (f.move parent) := by
      rw [Environment.capture, r.found sees found]
      simp only [isFresh, Bool.false_eq_true, if_false, isParent,
        (Shift.move_lt_iff seesParent sees).mpr earlier, dite_true]
    rw [goesOn]
    exact ih seesParent (mark r sees)
  | case5 env id scope found fresh marked parent inside late =>
    intro env' r
    have isFresh : ¬(scope.moved f).captured = true := fresh
    have seesParent := (r.closed sees found).parent parent inside
    have isParent : (scope.moved f).parent = some (f.move parent) :=
      congrArg (Option.map f.move) inside
    rw [Environment.capture, r.found sees found]
    simp only [isFresh, Bool.false_eq_true, if_false, isParent,
      mt (Shift.move_lt_iff seesParent sees).mp late, dite_false]
    exact mark r sees

theorem define (r : f.Relates env env') (sees : f.Sees id) (kind : CallableKind) (name : String)
    (params : List Param) (body : List Statement) :
    f.Relates (env.define id ⟨kind, name, params, id, body⟩)
      (env'.define (f.move id) ⟨kind, name, params, f.move id, body⟩) := by
  refine (r.capture sees).modify sees (fun scope => ?_) fun scope closed => ⟨?_, ?_⟩
  · cases kind <;> simp only [Scope.moved, Bindings.mapValues_insert] <;> rfl
  · cases kind <;> exact closed.parent
  · intro callable member
    rcases Environment.mem_callables_of_defined member with old | rfl
    · exact closed.callables callable old
    · exact sees

end Shift.Relates

end Stylesheet
