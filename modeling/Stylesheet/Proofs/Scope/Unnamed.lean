import Mathlib.Data.List.Basic
import Stylesheet.Scope.Environment

/-! Environments without the names of files. What is looked up in them, and how they change, goes by
everything but the files that definitions and calls stand in. -/

namespace Stylesheet

namespace Bindings

variable {κ : Type u} {ν : Type v} {μ : Type w} [BEq κ]

/-- Every value changed in the same way. -/
def mapValues (f : ν → μ) : Bindings κ ν → Bindings κ μ
  | [] => []
  | (key, value) :: rest => (key, f value) :: mapValues f rest

theorem find?_mapValues (f : ν → μ) (bindings : Bindings κ ν) (key : κ) :
    (bindings.mapValues f).find? key = (bindings.find? key).map f := by
  induction bindings with
  | nil => rfl
  | cons entry rest ih =>
    obtain ⟨other, value⟩ := entry
    unfold find? at ih ⊢
    rw [mapValues, List.lookup_cons, List.lookup_cons]
    cases key == other with
    | true => rfl
    | false => exact ih

theorem contains_mapValues (f : ν → μ) (bindings : Bindings κ ν) (key : κ) :
    (bindings.mapValues f).contains key = bindings.contains key := by
  unfold contains
  rw [find?_mapValues, Option.isSome_map]

theorem mapValues_insert (f : ν → μ) (bindings : Bindings κ ν) (key : κ) (value : ν) :
    (bindings.insert key value).mapValues f = (bindings.mapValues f).insert key (f value) := by
  induction bindings with
  | nil => rfl
  | cons entry rest ih =>
    obtain ⟨other, old⟩ := entry
    rw [insert, mapValues, insert]
    split
    · rfl
    · rw [mapValues, ih]

end Bindings

def Call.unnamed (call : Call) : Call :=
  { call with filename := none }

def Callable.unnamed (callable : Callable) : Callable :=
  { callable with body := Statement.withFilenames none callable.body }

def Scope.unnamed (scope : Scope) : Scope :=
  { scope with
    mixins := scope.mixins.mapValues Callable.unnamed
    functions := scope.functions.mapValues Callable.unnamed }

namespace Environment

/-- An environment without the names of files. -/
def unnamed (env : Environment) : Environment :=
  ⟨env.scopes.map Scope.unnamed, env.calls.map Call.unnamed⟩

variable (env : Environment) (id : ScopeId) (name : String)

theorem unnamed_scope : env.unnamed.scopes[id]? = env.scopes[id]?.map Scope.unnamed := by
  simp [unnamed]

theorem findScope?_unnamed {p q : Scope → Bool} (same : ∀ scope, q (Scope.unnamed scope) = p scope) :
    env.unnamed.findScope? q id = env.findScope? p id := by
  fun_induction findScope? env p id with
  | case1 id missing =>
    rw [findScope?, unnamed_scope, missing]
    rfl
  | case2 id scope found holds =>
    rw [findScope?, unnamed_scope, found]
    simp only [Option.map_some, same, holds, if_true]
  | case3 id scope found fails top =>
    rw [findScope?, unnamed_scope, found]
    have isTop : (Scope.unnamed scope).parent = none := top
    simp only [Option.map_some, same, fails, isTop, Bool.false_eq_true, if_false]
  | case4 id scope found fails parent isParent earlier ih =>
    rw [findScope?, unnamed_scope, found]
    have isParent : (Scope.unnamed scope).parent = some parent := isParent
    simp only [Option.map_some, same, fails, isParent, Bool.false_eq_true, if_false, earlier, dite_true]
    exact ih
  | case5 id scope found fails parent isParent later =>
    rw [findScope?, unnamed_scope, found]
    have isParent : (Scope.unnamed scope).parent = some parent := isParent
    simp only [Option.map_some, same, fails, isParent, Bool.false_eq_true, if_false, later, dite_false]

theorem lookup_unnamed {f : α → β} {table : Scope → Bindings String α}
    {bare : Scope → Bindings String β}
    (same : ∀ scope, bare (Scope.unnamed scope) = (table scope).mapValues f) :
    env.unnamed.lookup bare id name = (env.lookup table id name).map f := by
  have found := env.findScope?_unnamed id
    (p := fun scope => (table scope).contains (Text.normalizeName name))
    (q := fun scope => (bare scope).contains (Text.normalizeName name))
    fun scope => by rw [same, Bindings.contains_mapValues]
  unfold lookup
  simp only [bind, found]
  cases env.findScope? (fun scope => (table scope).contains (Text.normalizeName name)) id with
  | none => rfl
  | some target =>
    simp only [Option.bind_some, unnamed_scope]
    cases env.scopes[target]? with
    | none => rfl
    | some scope => simp only [Option.map_some, Option.bind_some, same, Bindings.find?_mapValues]

theorem mixin?_unnamed : env.unnamed.mixin? id name = (env.mixin? id name).map Callable.unnamed :=
  env.lookup_unnamed id name fun _ => rfl

theorem function?_unnamed :
    env.unnamed.function? id name = (env.function? id name).map Callable.unnamed :=
  env.lookup_unnamed id name fun _ => rfl

theorem valueOf?_unnamed : env.unnamed.valueOf? id name = env.valueOf? id name := by
  have same : ∀ scope, (Scope.unnamed scope).values = scope.values.mapValues (fun value => value) := by
    intro scope
    change scope.values = _
    induction scope.values with
    | nil => rfl
    | cons entry rest ih => rw [Bindings.mapValues, ← ih]
  have found := env.lookup_unnamed id name same
  rwa [Option.map_id'] at found

theorem length_calls_unnamed : env.unnamed.calls.length = env.calls.length :=
  List.length_map _

theorem includeLoop?_unnamed : env.unnamed.includeLoop? name = env.includeLoop? name := by
  unfold includeLoop? unnamed
  simp only [List.filter_map, ← List.map_reverse, List.map_map, Function.comp_def, Call.unnamed]

theorem unnamed_push : (env.push id).1.unnamed = (env.unnamed.push id).1 := by
  simp only [push, unnamed, Array.map_push]
  rfl

theorem push_unnamed : (env.unnamed.push id).2 = (env.push id).2 := by
  simp [push, unnamed]

theorem unnamed_pop : (env.pop id).unnamed = env.unnamed.pop id := by
  have captured : env.unnamed.scopes[id]?.any (·.captured) = env.scopes[id]?.any (·.captured) := by
    rw [unnamed_scope]
    cases env.scopes[id]? <;> rfl
  have size : env.unnamed.scopes.size = env.scopes.size := by simp [unnamed]
  unfold pop
  rw [captured, size]
  split
  · rfl
  · simp [unnamed]

theorem unnamed_modify {f g : Scope → Scope}
    (same : ∀ scope, (f scope).unnamed = g (Scope.unnamed scope)) :
    unnamed { env with scopes := env.scopes.modify id f } =
      { env.unnamed with scopes := env.unnamed.scopes.modify id g } := by
  simp only [unnamed]
  congr 1
  apply Array.ext_getElem?
  intro i
  simp only [Array.getElem?_map, Array.getElem?_modify]
  split
  · cases env.scopes[i]? with
    | none => rfl
    | some scope => simp only [Option.map_some, same]
  · rfl

theorem unnamed_declare (value : Value) :
    (env.declare id name value).unnamed = env.unnamed.declare id name value :=
  env.unnamed_modify id fun _ => rfl

theorem unnamed_assign (value : Value) :
    (env.assign id name value).unnamed = env.unnamed.assign id name value := by
  have target : env.unnamed.findScope? (fun scope => scope.values.contains (Text.normalizeName name)) id =
      env.findScope? (fun scope => scope.values.contains (Text.normalizeName name)) id :=
    env.findScope?_unnamed id fun _ => rfl
  unfold assign
  dsimp only
  rw [unnamed_declare, target]

theorem unnamed_capture : (env.capture id).unnamed = env.unnamed.capture id := by
  fun_induction capture env id with
  | case1 env id missing =>
    rw [capture, unnamed_scope, missing]
    rfl
  | case2 env id scope found kept =>
    rw [capture, unnamed_scope, found]
    have kept : (Scope.unnamed scope).captured = true := kept
    simp only [Option.map_some, kept, if_true]
  | case3 env id scope found fresh marked top =>
    rw [capture, unnamed_scope, found]
    have fresh : ¬(Scope.unnamed scope).captured = true := fresh
    have top : (Scope.unnamed scope).parent = none := top
    simp only [Option.map_some, fresh, top]
    exact env.unnamed_modify id fun _ => rfl
  | case4 env id scope found fresh marked parent isParent earlier ih =>
    have same : marked.unnamed = { env.unnamed with
        scopes := env.unnamed.scopes.modify id fun scope => { scope with captured := true } } :=
      env.unnamed_modify id fun _ => rfl
    rw [ih, same]
    conv_rhs => rw [capture, unnamed_scope, found]
    have fresh : ¬(Scope.unnamed scope).captured = true := fresh
    have isParent : (Scope.unnamed scope).parent = some parent := isParent
    simp only [Option.map_some, fresh, Bool.false_eq_true, if_false, isParent, earlier, dite_true]
  | case5 env id scope found fresh marked parent isParent later =>
    rw [capture, unnamed_scope, found]
    have fresh : ¬(Scope.unnamed scope).captured = true := fresh
    have isParent : (Scope.unnamed scope).parent = some parent := isParent
    simp only [Option.map_some, fresh, isParent, later, dite_false]
    exact env.unnamed_modify id fun _ => rfl

theorem unnamed_define (callable : Callable) :
    (env.define id callable).unnamed = env.unnamed.define id callable.unnamed := by
  obtain ⟨kind, name, params, home, body⟩ := callable
  have captured := env.unnamed_capture home
  unfold define
  cases kind with
  | _ =>
    dsimp only [Callable.unnamed]
    rw [← captured]
    refine unnamed_modify _ _ fun scope => ?_
    simp only [Scope.unnamed, Callable.unnamed, Bindings.mapValues_insert]

theorem unnamed_enterCall (call : Call) :
    (env.enterCall call).unnamed = env.unnamed.enterCall call.unnamed :=
  rfl

theorem unnamed_leaveCall : env.leaveCall.unnamed = env.unnamed.leaveCall := by
  simp only [leaveCall, unnamed, List.map_drop]

end Environment

end Stylesheet
