import Mathlib.Logic.Basic
import Mathlib.Tactic.Conv
import Stylesheet.Proofs.Scope.Definitions

/-! The scopes of an environment as an arena. Whatever is done to it with scopes that are alive, each
scope but the first has an earlier one around it, and what a definition may need later stays. So a
name means what the innermost scope that has it says, along a chain that ends at the first scope. -/

namespace Stylesheet

namespace Text

theorem normalizeName_normalizeName (name : String) :
    normalizeName (normalizeName name) = normalizeName name := by
  unfold normalizeName replaceChar
  apply String.toList_injective
  simp only [String.toList_map, List.map_map]
  refine List.map_congr_left fun c _ => ?_
  by_cases same : c = '_'
  · subst same
    rfl
  · simp [same]

end Text

namespace Bindings

variable {α : Type u}

/-- The value of a name, where `_` and `-` are the same character. -/
def named? (bindings : Bindings String α) (name : String) : Option α :=
  (List.find? (fun entry => Text.normalizeName entry.1 == Text.normalizeName name) bindings).map
    (·.2)

/-- All names in a table have one spelling. -/
def IsNormal (bindings : Bindings String α) : Prop :=
  ∀ entry ∈ bindings, Text.normalizeName entry.1 = entry.1

theorem isNormal_nil : IsNormal ([] : Bindings String α) := by
  intro entry member
  cases member

theorem IsNormal.insert {bindings : Bindings String α} (normal : bindings.IsNormal) (name : String)
    (value : α) : IsNormal (bindings.insert (Text.normalizeName name) value) := by
  intro entry member
  rcases mem_of_mem_insert member with rfl | old
  · exact Text.normalizeName_normalizeName name
  · exact normal entry old

theorem IsNormal.named? {bindings : Bindings String α} (normal : bindings.IsNormal)
    (name : String) : bindings.named? name = bindings.find? (Text.normalizeName name) := by
  induction bindings with
  | nil => rfl
  | cons entry rest ih =>
    obtain ⟨key, value⟩ := entry
    have isKey : Text.normalizeName key = key := normal (key, value) List.mem_cons_self
    have others := ih fun entry member => normal entry (List.mem_cons_of_mem _ member)
    unfold Bindings.named? Bindings.find? at others ⊢
    rw [List.find?_cons, List.lookup_cons, isKey]
    by_cases same : key = Text.normalizeName name
    · simp [same]
    · rw [beq_eq_false_iff_ne.mpr same, beq_eq_false_iff_ne.mpr (Ne.symm same)]
      exact others

end Bindings

namespace Scope

/-- All mixins and functions of a scope. -/
def callables (scope : Scope) : List Callable :=
  scope.mixins.map (·.2) ++ scope.functions.map (·.2)

theorem mem_callables_of_mixin {scope : Scope} {name : String} {callable : Callable}
    (found : scope.mixins.find? name = some callable) : callable ∈ scope.callables :=
  List.mem_append_left _ (List.mem_map.mpr ⟨_, Bindings.mem_of_find? found, rfl⟩)

theorem mem_callables_of_function {scope : Scope} {name : String} {callable : Callable}
    (found : scope.functions.find? name = some callable) : callable ∈ scope.callables :=
  List.mem_append_right _ (List.mem_map.mpr ⟨_, Bindings.mem_of_find? found, rfl⟩)

/-- The names in the tables of a scope have one spelling. -/
structure IsNormal (scope : Scope) : Prop where
  values : scope.values.IsNormal
  mixins : scope.mixins.IsNormal
  functions : scope.functions.IsNormal

end Scope

namespace Environment

/-- A scope that is alive and is kept. -/
def IsCaptured (env : Environment) (id : ScopeId) : Prop :=
  ∃ scope, env.scopes[id]? = some scope ∧ scope.captured = true

/-- The first scope stands alone, all others have an earlier one around them, and what is around a
kept scope or a definition is kept. -/
structure IsArena (env : Environment) : Prop where
  first : ∃ scope, env.scopes[0]? = some scope ∧ scope.parent = none
  earlier : ∀ (id : ScopeId) (scope : Scope), env.scopes[id]? = some scope → id ≠ 0 →
    ∃ parent, scope.parent = some parent ∧ parent < id
  captures : ∀ (id : ScopeId) (scope : Scope) (parent : ScopeId), env.scopes[id]? = some scope →
    scope.captured = true → scope.parent = some parent → env.IsCaptured parent
  defined : ∀ (id : ScopeId) (scope : Scope), env.scopes[id]? = some scope →
    ∀ callable ∈ scope.callables, env.IsCaptured callable.scope
  normal : ∀ (id : ScopeId) (scope : Scope), env.scopes[id]? = some scope → scope.IsNormal

/-- The scopes from one outwards: each stands in the next, and the last one in none. -/
inductive Chain (env : Environment) : ScopeId → List Scope → Prop where
  | last {id : ScopeId} {scope : Scope} (found : env.scopes[id]? = some scope)
      (alone : scope.parent = none) : Chain env id [scope]
  | within {id parent : ScopeId} {scope : Scope} {outer : List Scope}
      (found : env.scopes[id]? = some scope) (inside : scope.parent = some parent)
      (chain : Chain env parent outer) : Chain env id (scope :: outer)

variable {env : Environment}

theorem IsArena.parent_lt (arena : env.IsArena) {id parent : ScopeId} {scope : Scope}
    (found : env.scopes[id]? = some scope) (inside : scope.parent = some parent) :
    parent < id := by
  by_cases outermost : id = 0
  · subst outermost
    obtain ⟨first, isFirst, alone⟩ := arena.first
    rw [found] at isFirst
    cases isFirst
    rw [alone] at inside
    cases inside
  · obtain ⟨other, same, less⟩ := arena.earlier id scope found outermost
    rw [inside] at same
    cases same
    exact less

/-- Going outwards from a scope ends, and all scopes on the way are alive. -/
theorem IsArena.exists_chain (arena : env.IsArena) (id : ScopeId) (alive : id < env.scopes.size) :
    ∃ chain, env.Chain id chain := by
  induction id using Nat.strongRecOn with
  | _ id ih =>
    have found : env.scopes[id]? = some env.scopes[id] := Array.getElem?_eq_getElem alive
    cases inside : env.scopes[id].parent with
    | none => exact ⟨_, .last found inside⟩
    | some parent =>
      have less := arena.parent_lt found inside
      obtain ⟨outer, chain⟩ := ih parent less (Nat.lt_trans less alive)
      exact ⟨_, .within found inside chain⟩

theorem calls_pop (env : Environment) (id : ScopeId) : (env.pop id).calls = env.calls := by
  unfold pop
  split
  · rfl
  · rfl

theorem calls_capture (env : Environment) (id : ScopeId) : (env.capture id).calls = env.calls := by
  fun_induction capture env id with
  | case1 => rfl
  | case2 => rfl
  | case3 => rfl
  | case4 => assumption
  | case5 => rfl

section Lookups

variable {α : Type} {table : Scope → Bindings String α} {id parent : ScopeId} {scope : Scope}

theorem findScope?_of_found (p : Scope → Bool) (found : env.scopes[id]? = some scope) :
    env.findScope? p id =
      if p scope then some id
      else match scope.parent with
        | none => none
        | some parent => if parent < id then env.findScope? p parent else none := by
  conv_lhs => rw [findScope?, found]
  rfl

theorem lookup_of_last (found : env.scopes[id]? = some scope) (alone : scope.parent = none)
    (name : String) :
    env.lookup table id name = (table scope).find? (Text.normalizeName name) := by
  unfold lookup
  simp only [findScope?_of_found _ found]
  cases own : (table scope).find? (Text.normalizeName name) with
  | none => simp [Bindings.contains, own, alone]
  | some value => simp [Bindings.contains, own, found]

theorem lookup_of_within (found : env.scopes[id]? = some scope) (inside : scope.parent = some parent)
    (earlier : parent < id) (name : String) :
    env.lookup table id name =
      ((table scope).find? (Text.normalizeName name)).or (env.lookup table parent name) := by
  unfold lookup
  simp only [findScope?_of_found _ found]
  cases own : (table scope).find? (Text.normalizeName name) with
  | none => simp [Bindings.contains, own, inside, earlier]
  | some value => simp [Bindings.contains, own, found]

/-- What a name means depends on the scopes alone. -/
theorem findScope?_congr {after : Environment} (same : after.scopes = env.scopes)
    (p : Scope → Bool) (id : ScopeId) : after.findScope? p id = env.findScope? p id := by
  fun_induction findScope? env p id with
  | case1 id missing => rw [findScope?, same, missing]
  | case2 id scope found holds =>
    rw [findScope?_of_found p (same ▸ found), if_pos holds]
  | case3 id scope found fails alone =>
    rw [findScope?_of_found p (same ▸ found), if_neg fails, alone]
  | case4 id scope found fails parent inside earlier ih =>
    rw [findScope?_of_found p (same ▸ found), if_neg fails, inside]
    simp only [earlier, if_true, ih]
  | case5 id scope found fails parent inside late =>
    rw [findScope?_of_found p (same ▸ found), if_neg fails, inside]
    simp only [late, if_false]

theorem lookup_congr {after : Environment} (same : after.scopes = env.scopes) (id : ScopeId)
    (name : String) : after.lookup table id name = env.lookup table id name := by
  simp only [lookup, findScope?_congr same, same]

theorem lookup_enterCall (call : Call) (id : ScopeId) (name : String) :
    (env.enterCall call).lookup table id name = env.lookup table id name :=
  have same : (env.enterCall call).scopes = env.scopes := rfl
  lookup_congr same id name

/-- A lookup goes through the chain of scopes and stops at the first one that has the name. -/
theorem IsArena.lookup_eq (arena : env.IsArena)
    (normal : ∀ scope : Scope, scope.IsNormal → (table scope).IsNormal) {chain : List Scope}
    (isChain : env.Chain id chain) (name : String) :
    env.lookup table id name = chain.findSome? fun scope => (table scope).named? name := by
  induction isChain with
  | last found alone =>
    rw [lookup_of_last found alone, List.findSome?_singleton,
      (normal _ (arena.normal _ _ found)).named?]
  | within found inside chain ih =>
    rw [lookup_of_within found inside (arena.parent_lt found inside), ih, List.findSome?_cons,
      (normal _ (arena.normal _ _ found)).named?]
    cases (table _).find? (Text.normalizeName name) <;> rfl

end Lookups

section Steps

variable {id : ScopeId}

theorem isArena_initial : initial.IsArena := by
  have only {id : ScopeId} {scope : Scope} (found : initial.scopes[id]? = some scope) :
      scope = freshScope none := by
    simpa [initial] using Array.mem_of_getElem? found
  refine ⟨⟨_, rfl, rfl⟩, ?_, ?_, ?_, ?_⟩
  · intro id scope found notFirst
    simp [initial, notFirst] at found
  · intro id scope parent found captured
    rw [only found] at captured
    cases captured
  · intro id scope found callable member
    rw [only found] at member
    cases member
  · intro id scope found
    rw [only found]
    exact ⟨Bindings.isNormal_nil, Bindings.isNormal_nil, Bindings.isNormal_nil⟩

theorem getElem?_push {scope : Scope} (found : env.scopes[id]? = some scope) (parent : ScopeId) :
    (env.push parent).1.scopes[id]? = some scope := by
  have alive := (Array.getElem?_eq_some_iff.mp found).1
  simp [Environment.push, Array.getElem?_push, Nat.ne_of_lt alive, found]

theorem IsCaptured.push (captured : env.IsCaptured id) (parent : ScopeId) :
    (env.push parent).1.IsCaptured id := by
  obtain ⟨scope, found, kept⟩ := captured
  exact ⟨scope, getElem?_push found parent, kept⟩

theorem IsArena.push (arena : env.IsArena) {parent : ScopeId} (alive : parent < env.scopes.size) :
    (env.push parent).1.IsArena := by
  have cases {id : ScopeId} {scope : Scope} (found : (env.push parent).1.scopes[id]? = some scope) :
      (id = env.scopes.size ∧ scope = freshScope (some parent)) ∨ env.scopes[id]? = some scope := by
    simp only [Environment.push, Array.getElem?_push] at found
    split at found
    · cases found
      exact .inl ⟨‹_›, rfl⟩
    · exact .inr found
  refine ⟨?_, ?_, ?_, ?_, ?_⟩
  · obtain ⟨scope, found, alone⟩ := arena.first
    exact ⟨scope, getElem?_push found parent, alone⟩
  · intro id scope found notFirst
    rcases cases found with ⟨rfl, rfl⟩ | old
    · exact ⟨parent, rfl, alive⟩
    · exact arena.earlier id scope old notFirst
  · intro id scope outer found captured inside
    rcases cases found with ⟨rfl, rfl⟩ | old
    · cases captured
    · exact (arena.captures id scope outer old captured inside).push parent
  · intro id scope found callable member
    rcases cases found with ⟨rfl, rfl⟩ | old
    · cases member
    · exact (arena.defined id scope old callable member).push parent
  · intro id scope found
    rcases cases found with ⟨rfl, rfl⟩ | old
    · exact ⟨Bindings.isNormal_nil, Bindings.isNormal_nil, Bindings.isNormal_nil⟩
    · exact arena.normal id scope old

/-- The last scope goes away, unless it is the first one or kept. -/
theorem pop_eq (env : Environment) (id : ScopeId) :
    env.pop id = env ∨
      (id ≠ 0 ∧ id + 1 = env.scopes.size ∧ ¬ env.IsCaptured id ∧
        env.pop id = { env with scopes := env.scopes.pop }) := by
  unfold Environment.pop
  split
  · exact .inl rfl
  · rename_i free
    simp only [Bool.or_eq_true, decide_eq_true_eq, bne_iff_ne, ne_eq, not_or, not_not,
      Bool.not_eq_true] at free
    obtain ⟨⟨notFirst, last⟩, fresh⟩ := free
    refine .inr ⟨notFirst, last, ?_, rfl⟩
    rintro ⟨scope, found, kept⟩
    simp [found, kept] at fresh

theorem getElem?_pop {other : ScopeId} {scope : Scope} (found : env.scopes[other]? = some scope)
    (last : id + 1 = env.scopes.size) (differs : other ≠ id) :
    env.scopes.pop[other]? = some scope := by
  have alive := (Array.getElem?_eq_some_iff.mp found).1
  have before : other < id := 
    Nat.lt_of_le_of_ne (Nat.le_of_lt_succ (Nat.lt_of_lt_of_eq alive last.symm)) differs
  rw [Array.getElem?_pop, ← last, Nat.add_sub_cancel, if_pos before, found]

/-- Nothing that is kept goes away with the last scope, and no scope has the last one around it. -/
theorem IsArena.pop (arena : env.IsArena) (id : ScopeId) : (env.pop id).IsArena := by
  rcases pop_eq env id with same | ⟨notFirst, last, fresh, popped⟩
  · rw [same]
    exact arena
  · rw [popped]
    have old {other : ScopeId} {scope : Scope}
        (found : env.scopes.pop[other]? = some scope) : env.scopes[other]? = some scope := by
      rw [Array.getElem?_pop] at found
      split at found
      · exact found
      · cases found
    have stays {other : ScopeId} (captured : env.IsCaptured other) :
        IsCaptured { env with scopes := env.scopes.pop } other := by
      have differs : other ≠ id := by
        rintro rfl
        exact fresh captured
      obtain ⟨scope, found, kept⟩ := captured
      exact ⟨scope, getElem?_pop found last differs, kept⟩
    refine ⟨?_, ?_, ?_, ?_, ?_⟩
    · obtain ⟨scope, found, alone⟩ := arena.first
      exact ⟨scope, getElem?_pop found last notFirst.symm, alone⟩
    · exact fun other scope found => arena.earlier other scope (old found)
    · exact fun other scope parent found captured inside =>
        stays (arena.captures other scope parent (old found) captured inside)
    · exact fun other scope found callable member =>
        stays (arena.defined other scope (old found) callable member)
    · exact fun other scope found => arena.normal other scope (old found)

/-- A scope is changed, but not what is around it. -/
theorem exists_of_modify {f : Scope → Scope} {other : ScopeId} {scope : Scope}
    (found : (env.scopes.modify id f)[other]? = some scope) :
    ∃ old, env.scopes[other]? = some old ∧ (scope = old ∨ id = other ∧ scope = f old) := by
  rw [Array.getElem?_modify] at found
  split at found
  · obtain ⟨old, before, rfl⟩ := Option.map_eq_some_iff.mp found
    exact ⟨old, before, .inr ⟨‹_›, rfl⟩⟩
  · exact ⟨scope, found, .inl rfl⟩

theorem IsCaptured.modify (captured : env.IsCaptured id) {target : ScopeId} {f : Scope → Scope}
    (kept : ∀ scope, scope.captured = true → (f scope).captured = true) :
    IsCaptured { env with scopes := env.scopes.modify target f } id := by
  obtain ⟨scope, found, isKept⟩ := captured
  by_cases same : target = id
  · exact ⟨f scope, by simp [Array.getElem?_modify, same, found], kept scope isKept⟩
  · exact ⟨scope, by simp [Array.getElem?_modify, same, found], isKept⟩

/-- The tables of a scope change. -/
theorem IsArena.modify (arena : env.IsArena) {f : Scope → Scope}
    (parent : ∀ scope, (f scope).parent = scope.parent)
    (captured : ∀ scope, (f scope).captured = scope.captured)
    (callables : ∀ scope, ∀ callable ∈ (f scope).callables,
      callable ∈ scope.callables ∨ env.IsCaptured callable.scope)
    (normal : ∀ scope, scope.IsNormal → (f scope).IsNormal) :
    IsArena { env with scopes := env.scopes.modify id f } := by
  have stays {other : ScopeId} (kept : env.IsCaptured other) :
      IsCaptured { env with scopes := env.scopes.modify id f } other :=
    kept.modify fun scope isKept => (captured scope).trans isKept
  refine ⟨?_, ?_, ?_, ?_, ?_⟩
  · obtain ⟨scope, found, alone⟩ := arena.first
    by_cases same : id = 0
    · exact ⟨f scope, by simp [Array.getElem?_modify, same, found], (parent scope).trans alone⟩
    · exact ⟨scope, by simp [Array.getElem?_modify, same, found], alone⟩
  · intro other scope found notFirst
    obtain ⟨old, before, rfl | ⟨-, rfl⟩⟩ := exists_of_modify found
    · exact arena.earlier other _ before notFirst
    · rw [parent]
      exact arena.earlier other _ before notFirst
  · intro other scope outer found kept inside
    obtain ⟨old, before, rfl | ⟨-, rfl⟩⟩ := exists_of_modify found
    · exact stays (arena.captures other _ outer before kept inside)
    · rw [parent] at inside
      rw [captured] at kept
      exact stays (arena.captures other _ outer before kept inside)
  · intro other scope found callable member
    obtain ⟨old, before, rfl | ⟨-, rfl⟩⟩ := exists_of_modify found
    · exact stays (arena.defined other _ before callable member)
    · rcases callables old callable member with earlier | isKept
      · exact stays (arena.defined other _ before callable earlier)
      · exact stays isKept
  · intro other scope found
    obtain ⟨old, before, rfl | ⟨-, rfl⟩⟩ := exists_of_modify found
    · exact arena.normal other _ before
    · exact normal old (arena.normal other _ before)

theorem IsArena.declare (arena : env.IsArena) (id : ScopeId) (name : String) (value : Value) :
    (env.declare id name value).IsArena :=
  arena.modify (fun _ => rfl) (fun _ => rfl) (fun _ _ => .inl) fun _ normal =>
    ⟨normal.values.insert name value, normal.mixins, normal.functions⟩

theorem IsArena.assign (arena : env.IsArena) (id : ScopeId) (name : String) (value : Value) :
    (env.assign id name value).IsArena :=
  arena.declare _ name value

/-- The scopes are the same, but more of them may be kept. -/
structure KeepsMore (env after : Environment) : Prop where
  size : after.scopes.size = env.scopes.size
  scopes : ∀ (id : ScopeId) (scope : Scope), env.scopes[id]? = some scope →
    ∃ captured, after.scopes[id]? = some { scope with captured } ∧
      (scope.captured = true → captured = true)

theorem KeepsMore.refl (env : Environment) : env.KeepsMore env :=
  ⟨rfl, fun _ scope found => ⟨scope.captured, found, fun kept => kept⟩⟩

theorem KeepsMore.trans {middle after : Environment} (first : env.KeepsMore middle)
    (second : middle.KeepsMore after) : env.KeepsMore after := by
  refine ⟨second.size.trans first.size, fun id scope found => ?_⟩
  obtain ⟨_, between, kept⟩ := first.scopes id scope found
  obtain ⟨captured, found, further⟩ := second.scopes id _ between
  exact ⟨captured, found, fun isKept => further (kept isKept)⟩

theorem KeepsMore.isCaptured {after : Environment} (more : env.KeepsMore after)
    (captured : env.IsCaptured id) : after.IsCaptured id := by
  obtain ⟨scope, found, kept⟩ := captured
  obtain ⟨_, found, further⟩ := more.scopes id scope found
  exact ⟨_, found, further kept⟩

theorem KeepsMore.exists_before {after : Environment} (more : env.KeepsMore after) {scope : Scope}
    (found : after.scopes[id]? = some scope) :
    ∃ old, env.scopes[id]? = some old ∧ scope = { old with captured := scope.captured } := by
  have alive := (Array.getElem?_eq_some_iff.mp found).1
  rw [more.size] at alive
  obtain ⟨captured, same, _⟩ := more.scopes id _ (Array.getElem?_eq_getElem alive)
  refine ⟨_, Array.getElem?_eq_getElem alive, ?_⟩
  rw [found] at same
  cases same
  rfl

theorem keepsMore_mark (env : Environment) (id : ScopeId) :
    env.KeepsMore
      { env with scopes := env.scopes.modify id fun scope => { scope with captured := true } } := by
  refine ⟨Array.size_modify, fun other scope found => ?_⟩
  by_cases same : id = other
  · exact ⟨true, by simp [Array.getElem?_modify, same, found], fun _ => rfl⟩
  · exact ⟨scope.captured, by simp [Array.getElem?_modify, same, found], fun kept => kept⟩

theorem keepsMore_capture (env : Environment) (id : ScopeId) : env.KeepsMore (env.capture id) := by
  fun_induction capture env id with
  | case1 => exact .refl _
  | case2 => exact .refl _
  | case3 env id => exact keepsMore_mark env id
  | case4 env id scope found fresh marked parent inside earlier ih =>
    exact (keepsMore_mark env id).trans ih
  | case5 env id => exact keepsMore_mark env id

/-- What is around a kept scope is kept, if it is not the one that is kept next. -/
def KeepsAround (env : Environment) (next : Option ScopeId) : Prop :=
  ∀ (id : ScopeId) (scope : Scope) (parent : ScopeId), env.scopes[id]? = some scope →
    scope.captured = true → scope.parent = some parent → env.IsCaptured parent ∨ next = some parent

theorem isCaptured_mark (alive : id < env.scopes.size) :
    IsCaptured
      { env with scopes := env.scopes.modify id fun scope => { scope with captured := true } } id :=
  ⟨_, by rw [Array.getElem?_modify, if_pos rfl, Array.getElem?_eq_getElem alive]; rfl, rfl⟩

/-- Once a scope is kept, only the one around it may have to be kept next. -/
theorem KeepsAround.mark (keeps : env.KeepsAround (some id)) {scope : Scope}
    (found : env.scopes[id]? = some scope) :
    KeepsAround
      { env with scopes := env.scopes.modify id fun scope => { scope with captured := true } }
      scope.parent := by
  intro other changed parent isChanged kept inside
  obtain ⟨old, before, rfl | ⟨rfl, rfl⟩⟩ := exists_of_modify isChanged
  · rcases keeps other _ parent before kept inside with isKept | next
    · exact .inl ((keepsMore_mark env id).isCaptured isKept)
    · cases next
      exact .inl (isCaptured_mark (Array.getElem?_eq_some_iff.mp found).1)
  · rw [found] at before
    cases before
    exact .inr inside

/-- Keeping a scope goes outwards until what is around is kept already. -/
theorem IsArena.capture_spec (id : ScopeId)
    (earlier : ∀ (id : ScopeId) (scope : Scope) (parent : ScopeId), env.scopes[id]? = some scope →
      scope.parent = some parent → parent < id)
    (keeps : env.KeepsAround (some id)) (alive : id < env.scopes.size) :
    (env.capture id).KeepsAround none ∧ (env.capture id).IsCaptured id := by
  fun_induction capture env id with
  | case1 env id missing =>
    rw [Array.getElem?_eq_getElem alive] at missing
    cases missing
  | case2 env id scope found kept =>
    have isKept : env.IsCaptured id := ⟨scope, found, kept⟩
    refine ⟨?_, isKept⟩
    intro other inner parent isInner innerKept inside
    rcases keeps other inner parent isInner innerKept inside with around | next
    · exact .inl around
    · cases next
      exact .inl isKept
  | case3 env id scope found fresh marked alone =>
    have marks := keeps.mark found
    rw [alone] at marks
    exact ⟨marks, isCaptured_mark alive⟩
  | case4 env id scope found fresh marked parent inside isEarlier ih =>
    have marks := keeps.mark found
    rw [inside] at marks
    have more : env.KeepsMore marked := keepsMore_mark env id
    have stillEarlier (other : ScopeId) (inner : Scope) (outer : ScopeId)
        (isInner : marked.scopes[other]? = some inner) (within : inner.parent = some outer) :
        outer < other := by
      obtain ⟨old, before, same⟩ := more.exists_before isInner
      rw [same] at within
      exact earlier other old outer before within
    have stillAlive : parent < marked.scopes.size := by
      rw [more.size]
      exact Nat.lt_trans isEarlier alive
    refine ⟨(ih stillEarlier marks stillAlive).1, ?_⟩
    exact (keepsMore_capture marked parent).isCaptured (isCaptured_mark alive)
  | case5 env id scope found fresh marked parent inside late =>
    exact absurd (earlier id scope parent found inside) late

theorem IsArena.capture (arena : env.IsArena) (alive : id < env.scopes.size) :
    (env.capture id).IsArena ∧ (env.capture id).IsCaptured id := by
  have more := keepsMore_capture env id
  have keeps : env.KeepsAround (some id) := fun other scope parent found kept inside =>
    .inl (arena.captures other scope parent found kept inside)
  obtain ⟨around, isKept⟩ := capture_spec id (fun _ _ _ => arena.parent_lt) keeps alive
  refine ⟨⟨?_, ?_, ?_, ?_, ?_⟩, isKept⟩
  · obtain ⟨scope, found, alone⟩ := arena.first
    obtain ⟨_, found, _⟩ := more.scopes 0 scope found
    exact ⟨_, found, alone⟩
  · intro other scope found notFirst
    obtain ⟨old, before, same⟩ := more.exists_before found
    rw [same]
    exact arena.earlier other old before notFirst
  · intro other scope parent found kept inside
    rcases around other scope parent found kept inside with isKept | none
    · exact isKept
    · cases none
  · intro other scope found callable member
    obtain ⟨old, before, same⟩ := more.exists_before found
    rw [same] at member
    exact more.isCaptured (arena.defined other old before callable member)
  · intro other scope found
    obtain ⟨old, before, same⟩ := more.exists_before found
    rw [same]
    have normal := arena.normal other old before
    exact ⟨normal.values, normal.mixins, normal.functions⟩

/-- A definition adds nothing else to a scope. -/
theorem mem_callables_of_defined {scope : Scope} {callable other : Callable} {key : String}
    (member : other ∈ Scope.callables
      (match callable.kind with
        | .mixin => { scope with mixins := scope.mixins.insert key callable }
        | .function => { scope with functions := scope.functions.insert key callable })) :
    other ∈ scope.callables ∨ other = callable := by
  have added {table : Bindings String Callable}
      (inserted : other ∈ (table.insert key callable).map (·.2)) :
      other ∈ table.map (·.2) ∨ other = callable := by
    obtain ⟨entry, isEntry, rfl⟩ := List.mem_map.mp inserted
    rcases Bindings.mem_of_mem_insert isEntry with rfl | old
    · exact .inr rfl
    · exact .inl (List.mem_map_of_mem old)
  unfold Scope.callables at member ⊢
  rw [List.mem_append]
  split at member
  · rcases List.mem_append.mp member with inMixins | inFunctions
    · exact (added inMixins).imp_left .inl
    · exact .inl (.inr inFunctions)
  · rcases List.mem_append.mp member with inMixins | inFunctions
    · exact .inl (.inl inMixins)
    · exact (added inFunctions).imp_left .inr

theorem IsArena.define (arena : env.IsArena) (id : ScopeId) {callable : Callable}
    (alive : callable.scope < env.scopes.size) : (env.define id callable).IsArena := by
  obtain ⟨captured, isKept⟩ := arena.capture alive
  refine captured.modify (fun scope => ?_) (fun scope => ?_) (fun scope other member => ?_)
    fun scope normal => ?_
  · split <;> rfl
  · split <;> rfl
  · refine (mem_callables_of_defined member).imp_right ?_
    rintro rfl
    exact isKept
  · split
    · exact ⟨normal.values, normal.mixins.insert _ callable, normal.functions⟩
    · exact ⟨normal.values, normal.mixins, normal.functions.insert _ callable⟩

end Steps

/-- What can be done with the scopes of an environment. -/
inductive Operation where
  | push (parent : ScopeId)
  | pop (id : ScopeId)
  | assign (id : ScopeId) (name : String) (value : Value)
  | declare (id : ScopeId) (name : String) (value : Value)
  | define (id : ScopeId) (callable : Callable)
  | lookUp (id : ScopeId) (name : String)

namespace Operation

/-- The scopes that an operation is about. -/
def scopes : Operation → List ScopeId
  | push id | pop id | assign id _ _ | declare id _ _ | lookUp id _ => [id]
  | define id callable => [id, callable.scope]

/-- All scopes that an operation is about are alive. -/
def isAlive (env : Environment) (operation : Operation) : Bool :=
  operation.scopes.all (· < env.scopes.size)

def apply (env : Environment) : Operation → Environment
  | push parent => (env.push parent).1
  | pop id => env.pop id
  | assign id name value => env.assign id name value
  | declare id name value => env.declare id name value
  | define id callable => env.define id callable
  | lookUp _ _ => env

end Operation

/-- Do some operations in order. -/
def applyAll (env : Environment) (operations : List Operation) : Environment :=
  operations.foldl Operation.apply env

/-- Each operation is about scopes that are alive when its turn comes. -/
def areAlive (env : Environment) : List Operation → Bool
  | [] => true
  | operation :: rest => operation.isAlive env && areAlive (operation.apply env) rest

theorem IsArena.apply (arena : env.IsArena) {operation : Operation}
    (alive : operation.isAlive env = true) : (operation.apply env).IsArena := by
  simp only [Operation.isAlive, List.all_eq_true, decide_eq_true_eq] at alive
  cases operation with
  | push parent => exact arena.push (alive parent List.mem_cons_self)
  | pop id => exact arena.pop id
  | assign id name value => exact arena.assign id name value
  | declare id name value => exact arena.declare id name value
  | define id callable => exact arena.define id (alive callable.scope (by simp [Operation.scopes]))
  | lookUp id name => exact arena

theorem IsArena.applyAll (arena : env.IsArena) {operations : List Operation}
    (alive : env.areAlive operations = true) : (env.applyAll operations).IsArena := by
  induction operations generalizing env with
  | nil => exact arena
  | cons operation rest ih =>
    rw [areAlive, Bool.and_eq_true] at alive
    exact ih (arena.apply alive.1) alive.2

/-- Whatever is done with scopes that are alive, the scopes stay an arena, so that going outwards from
any of them ends and meets only scopes that are alive, and a name has the binding of the first of
them that has the name. -/
theorem lookups_go_outwards (operations : List Operation)
    (alive : initial.areAlive operations = true) :
    let env := initial.applyAll operations
    env.IsArena ∧ ∀ id < env.scopes.size, ∃ chain, env.Chain id chain ∧ ∀ name,
      env.valueOf? id name = chain.findSome? (·.values.named? name) ∧
      env.mixin? id name = chain.findSome? (·.mixins.named? name) ∧
      env.function? id name = chain.findSome? (·.functions.named? name) := by
  intro env
  have arena : env.IsArena := isArena_initial.applyAll alive
  refine ⟨arena, fun id isAlive => ?_⟩
  obtain ⟨chain, isChain⟩ := arena.exists_chain id isAlive
  exact ⟨chain, isChain, fun name =>
    ⟨arena.lookup_eq (fun _ normal => normal.values) isChain name,
      arena.lookup_eq (fun _ normal => normal.mixins) isChain name,
      arena.lookup_eq (fun _ normal => normal.functions) isChain name⟩⟩

/-- A function is defined in the second scope, which therefore stays when it is closed; the third
scope goes away. -/
def closingSample : List Operation :=
  [.declare 0 "main_width" (.unquoted "a"), .push 0, .declare 1 "main-width" (.unquoted "b"),
    .define 1 ⟨.function, "f", [], 1, []⟩, .pop 1, .push 1, .assign 2 "main_width" (.unquoted "c"),
    .pop 2, .lookUp 1 "main_width"]

theorem lookups_go_outwards_of_closing :
    initial.areAlive closingSample = true ∧
      let env := initial.applyAll closingSample
      env.scopes.size = 2 ∧ env.IsArena ∧ ∃ chain, env.Chain 1 chain ∧
        env.valueOf? 1 "main-width" = chain.findSome? (·.values.named? "main-width") := by
  have facts : initial.areAlive closingSample = true ∧
      (initial.applyAll closingSample).scopes.size = 2 := by
    simp [closingSample, areAlive, applyAll, Operation.isAlive, Operation.scopes, Operation.apply,
      initial, freshScope, push, pop, declare, assign, define, capture, findScope?,
      Bindings.contains, Bindings.find?, Bindings.insert, Text.normalizeName, Text.replaceChar,
      ← String.toList_inj]
  obtain ⟨alive, size⟩ := facts
  obtain ⟨arena, lookups⟩ := lookups_go_outwards closingSample alive
  obtain ⟨chain, isChain, found⟩ := lookups 1 (by rw [size]; decide)
  exact ⟨alive, size, arena, chain, isChain, (found "main-width").1⟩

end Environment

end Stylesheet
