import Stylesheet.Scope.Environment

/-! What is known of all mixins and functions of an environment. Scopes come and go and variables
change, but only a definition adds to them, and a lookup finds one of them. -/

namespace Stylesheet

namespace Bindings

variable {κ : Type u} {ν : Type v} [BEq κ] [LawfulBEq κ] {key : κ} {value : ν}

theorem mem_of_find? {bindings : Bindings κ ν} (found : bindings.find? key = some value) :
    (key, value) ∈ bindings := by
  induction bindings with
  | nil => cases found
  | cons entry rest ih =>
    obtain ⟨other, old⟩ := entry
    unfold find? at found ih
    rw [List.lookup_cons] at found
    by_cases same : key = other
    · subst same
      simp only [BEq.rfl, Option.some.injEq] at found
      rw [found]
      exact List.mem_cons_self
    · rw [beq_eq_false_iff_ne.mpr same] at found
      exact List.mem_cons_of_mem _ (ih found)

theorem mem_of_mem_insert {bindings : Bindings κ ν} {entry : κ × ν}
    (member : entry ∈ bindings.insert key value) : entry = (key, value) ∨ entry ∈ bindings := by
  induction bindings with
  | nil => exact .inl (List.mem_singleton.mp member)
  | cons first rest ih =>
    obtain ⟨other, old⟩ := first
    unfold insert at member
    split at member
    · rename_i same
      rw [← eq_of_beq same] at member
      rcases List.mem_cons.mp member with new | later
      · exact .inl new
      · exact .inr (List.mem_cons_of_mem _ later)
    · rcases List.mem_cons.mp member with head | later
      · exact .inr (head ▸ List.mem_cons_self)
      · rcases ih later with new | kept
        · exact .inl new
        · exact .inr (List.mem_cons_of_mem _ kept)

end Bindings

/-- An entry of a table of mixins or functions, of which something is known. -/
structure IsDefinition (known : Callable → Prop) (kind : CallableKind)
    (entry : String × Callable) : Prop where
  key : entry.1 = Text.normalizeName entry.2.name
  kind : entry.2.kind = kind
  known : known entry.2

structure Scope.AllKnown (known : Callable → Prop) (scope : Scope) : Prop where
  mixins : ∀ entry ∈ scope.mixins, IsDefinition known .mixin entry
  functions : ∀ entry ∈ scope.functions, IsDefinition known .function entry

namespace Environment

/-- Something is known of all mixins and functions. -/
def AllKnown (known : Callable → Prop) (env : Environment) : Prop :=
  ∀ (id : ScopeId) (scope : Scope), env.scopes[id]? = some scope → scope.AllKnown known

variable {known : Callable → Prop} {env : Environment}

theorem allKnown_initial : initial.AllKnown known := by
  intro id scope found
  have first : scope = freshScope none := by
    simpa [initial, Array.getElem?_singleton] using (Array.mem_of_getElem? found)
  subst first
  constructor <;> intro entry member <;> cases member

theorem AllKnown.push (all : env.AllKnown known) (parent : ScopeId) :
    (env.push parent).1.AllKnown known := by
  intro id scope found
  simp only [Environment.push, Array.getElem?_push] at found
  split at found
  · cases found
    constructor <;> intro entry member <;> cases member
  · exact all id scope found

theorem AllKnown.pop (all : env.AllKnown known) (id : ScopeId) : (env.pop id).AllKnown known := by
  unfold Environment.pop
  split
  · exact all
  · intro other scope found
    simp only [Array.getElem?_pop] at found
    split at found
    · exact all other scope found
    · cases found

/-- A change of one scope. -/
theorem AllKnown.modify (all : env.AllKnown known) (id : ScopeId) {f : Scope → Scope}
    (change : ∀ scope, scope.AllKnown known → (f scope).AllKnown known) :
    AllKnown known { env with scopes := env.scopes.modify id f } := by
  intro other scope found
  simp only [Array.getElem?_modify] at found
  split at found
  · obtain ⟨old, before, rfl⟩ := Option.map_eq_some_iff.mp found
    exact change old (all other old before)
  · exact all other scope found

theorem AllKnown.declare (all : env.AllKnown known) (id : ScopeId) (name : String)
    (value : Value) : (env.declare id name value).AllKnown known :=
  all.modify id fun _ before => ⟨before.mixins, before.functions⟩

theorem AllKnown.assign (all : env.AllKnown known) (id : ScopeId) (name : String)
    (value : Value) : (env.assign id name value).AllKnown known :=
  all.declare _ name value

theorem AllKnown.capture (all : env.AllKnown known) (id : ScopeId) :
    (env.capture id).AllKnown known := by
  fun_induction env.capture id with
  | case1 => exact all
  | case2 => exact all
  | case3 => exact all.modify _ fun _ before => ⟨before.mixins, before.functions⟩
  | case4 env id scope found open_ marked parent isParent earlier ih =>
    exact ih (all.modify _ fun _ before => ⟨before.mixins, before.functions⟩)
  | case5 => exact all.modify _ fun _ before => ⟨before.mixins, before.functions⟩

theorem AllKnown.define (all : env.AllKnown known) (id : ScopeId) {callable : Callable}
    (isKnown : known callable) : (env.define id callable).AllKnown known := by
  apply (all.capture callable.scope).modify id
  intro scope before
  have added {kind : CallableKind} (same : callable.kind = kind)
      {table : Bindings String Callable} (old : ∀ entry ∈ table, IsDefinition known kind entry) :
      ∀ entry ∈ table.insert (Text.normalizeName callable.name) callable,
        IsDefinition known kind entry := by
    intro entry member
    rcases Bindings.mem_of_mem_insert member with rfl | earlier
    · exact ⟨rfl, same, isKnown⟩
    · exact old entry earlier
  split
  · rename_i kind
    exact ⟨added kind before.mixins, before.functions⟩
  · rename_i kind
    exact ⟨before.mixins, added kind before.functions⟩

/-- What is looked up stands in the table of a scope. -/
theorem exists_of_lookup {table : Scope → Bindings String α} {id : ScopeId} {name : String}
    {value : α} (found : env.lookup table id name = some value) :
    ∃ (other : ScopeId) (scope : Scope), env.scopes[other]? = some scope ∧
      (Text.normalizeName name, value) ∈ table scope := by
  unfold lookup at found
  obtain ⟨other, _, found⟩ := Option.bind_eq_some_iff.mp found
  obtain ⟨scope, isScope, found⟩ := Option.bind_eq_some_iff.mp found
  exact ⟨other, scope, isScope, Bindings.mem_of_find? found⟩

theorem AllKnown.mixin? (all : env.AllKnown known) {id : ScopeId} {name : String}
    {mixin : Callable} (found : env.mixin? id name = some mixin) :
    IsDefinition known .mixin (Text.normalizeName name, mixin) := by
  obtain ⟨other, scope, isScope, member⟩ := exists_of_lookup found
  exact (all other scope isScope).mixins _ member

theorem AllKnown.function? (all : env.AllKnown known) {id : ScopeId} {name : String}
    {function : Callable} (found : env.function? id name = some function) :
    IsDefinition known .function (Text.normalizeName name, function) := by
  obtain ⟨other, scope, isScope, member⟩ := exists_of_lookup found
  exact (all other scope isScope).functions _ member

end Environment

end Stylesheet
