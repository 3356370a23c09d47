import Stylesheet.Compilation
import Stylesheet.Proofs.Evaluation.Agreement
import Stylesheet.Proofs.Import.Names

/-! Evaluation ends. Each call that becomes active uses up some of the limit on calls, and each one
of the imports takes one of finitely many stylesheets that can be found, since none is imported
inside of itself. So calls and imports are nested only so deep, and what would be done below that
depth does not matter. -/

namespace Stylesheet.Evaluation

/-- Evaluation that leaves calls and imports to another runner. -/
def Runner.above (deeper : Runner) : Runner :=
  ⟨fun e scope => Evaluation.expr deeper scope e, fun body scope => statements deeper scope body⟩

/-- Evaluation that goes through `depth` calls and imports by itself and leaves those inside of
them to another runner. -/
def Runner.levels (deeper : Runner) : (depth : Nat) → Runner
  | 0 => deeper
  | depth + 1 => (deeper.levels depth).above

/-- The runner that refuses everything. -/
def Runner.refusing : Runner :=
  ⟨fun _ _ => throw exhausted, fun _ _ => throw exhausted⟩

theorem runner_eq_levels (depth : Nat) : runner depth = Runner.refusing.levels depth := by
  induction depth with
  | zero => rfl
  | succ depth ih =>
    unfold runner Runner.levels
    rw [ih]
    rfl

/-- Evaluate a whole stylesheet; calls and imports are left to a runner. -/
def stylesheetWith (run : Runner) (root : Statement) : Evaluating Css := do
  let outcome ← statements run Environment.global root.children
  return .node .root outcome.css root.line root.filename

theorem stylesheet_eq (root : Statement) (context : Context) (state : State) :
    stylesheet root context state =
      stylesheetWith (Runner.refusing.levels (depthBound context)) root context state := by
  rw [← runner_eq_levels]
  rfl

/-- What can be active during the evaluation of a stylesheet: not too many calls, and different
stylesheets that importers have, below those that were there at the start. -/
structure Standing.IsPossible (context : Context) (entry : List SourceId) (here : Standing) :
    Prop where
  calls : here.calls.length ≤ context.options.maxCallDepth
  imports : ∃ imported : List SourceId, here.imports = entry ++ imported ∧ imported.Nodup ∧
    ∀ id ∈ imported, Importers.HasName context.importers id

/-- How many more calls and imports can become active. -/
def Standing.room (context : Context) (entry : List SourceId) (here : Standing) : Nat :=
  (context.options.maxCallDepth - here.calls.length) +
    (entry.length + Importers.chainBound context.importers - here.imports.length)

section Room

variable {context : Context} {entry : List SourceId} {here inner : Standing}

theorem Standing.isPossible_start : Standing.IsPossible context entry ⟨[], entry⟩ :=
  ⟨Nat.zero_le _, [], by simp⟩

theorem Standing.IsPossible.nests (possible : here.IsPossible context entry)
    (nests : Nests context here inner) : inner.IsPossible context entry := by
  obtain ⟨fewCalls, imported, isImports, distinct, named⟩ := possible
  cases nests with
  | call call room => exact ⟨room, imported, isImports, distinct, named⟩
  | @importing calls imports uri base id source found fresh =>
    dsimp only at isImports
    refine ⟨fewCalls, imported ++ [id], ?_, ?_, ?_⟩
    · exact (congrArg (· ++ [id]) isImports).trans (List.append_assoc entry imported [id])
    · have new : id ∉ imported := by
        intro member
        apply fresh
        rw [isImports]
        exact List.mem_append_right entry member
      exact distinct.append (List.nodup_singleton id) (by simpa using new)
    · intro other member
      rcases List.mem_append.mp member with old | last
      · exact named other old
      · rw [List.mem_singleton.mp last]
        exact Importers.hasName_of_resolve found

theorem Standing.IsPossible.length_imports (possible : here.IsPossible context entry) :
    here.imports.length ≤ entry.length + Importers.chainBound context.importers := by
  obtain ⟨_, imported, isImports, distinct, named⟩ := possible
  have few := Importers.length_le_chainBound distinct named
  rw [isImports, List.length_append]
  omega

/-- Each call and each import leaves less room. -/
theorem Standing.IsPossible.room_lt (possible : here.IsPossible context entry)
    (nests : Nests context here inner) : inner.room context entry < here.room context entry := by
  have few := (possible.nests nests).length_imports
  unfold Standing.room
  cases nests with
  | call call room =>
    simp only [List.length_cons] at few ⊢
    omega
  | importing found fresh =>
    simp only [List.length_append, List.length_singleton] at few ⊢
    omega

theorem Standing.IsPossible.below (possible : here.IsPossible context entry)
    (path : Relation.TransGen (Nests context) here inner) :
    inner.IsPossible context entry ∧ inner.room context entry < here.room context entry := by
  induction path with
  | single nests => exact ⟨possible.nests nests, possible.room_lt nests⟩
  | tail _ nests ih =>
    obtain ⟨between, less⟩ := ih
    exact ⟨between.nests nests, (between.room_lt nests).trans less⟩

end Room

section Depth

variable {one other : Context} {entry : List SourceId} {here : Standing} {deeper deeper' : Runner}

theorem Runner.agree_above {run run' : Runner} (alike : one.Alike other)
    (below : Runner.AgreeBelow one other here run run') :
    Runner.Agree one other here run.above run'.above :=
  ⟨fun e scope => agrees_expr alike below scope e,
    fun body scope => agrees_statements alike below scope body⟩

/-- By induction on the room that is left: whatever becomes active inside has less of it, and is
evaluated with one level less. -/
theorem Runner.agreeBelow_levels (alike : one.Alike other) (room : Nat)
    (possible : here.IsPossible one entry) (enough : here.room one entry ≤ room)
    {depth depth' : Nat} (deep : room ≤ depth) (deep' : room ≤ depth') :
    Runner.AgreeBelow one other here (deeper.levels depth) (deeper'.levels depth') := by
  induction room generalizing here depth depth' with
  | zero =>
    intro inner path
    have less := (possible.below path).2
    omega
  | succ room ih =>
    intro inner path
    obtain ⟨innerPossible, less⟩ := possible.below path
    obtain ⟨depth, rfl⟩ := Nat.exists_eq_succ_of_ne_zero (Nat.ne_zero_of_lt deep)
    obtain ⟨depth', rfl⟩ := Nat.exists_eq_succ_of_ne_zero (Nat.ne_zero_of_lt deep')
    apply Runner.agree_above alike
    exact ih innerPossible (by omega) (Nat.le_of_succ_le_succ deep) (Nat.le_of_succ_le_succ deep')

/-- Enough levels give the same result, whatever takes over below them. -/
theorem agrees_stylesheetWith (alike : one.Alike other) {depth depth' : Nat}
    (deep : one.options.maxCallDepth + Importers.chainBound one.importers ≤ depth)
    (deep' : one.options.maxCallDepth + Importers.chainBound one.importers ≤ depth')
    (root : Statement) :
    Agrees one other ⟨[], entry⟩ ⟨[], entry⟩ (stylesheetWith (deeper.levels depth) root)
      (stylesheetWith (deeper'.levels depth') root) := by
  have enough : Standing.room one entry ⟨[], entry⟩ ≤
      one.options.maxCallDepth + Importers.chainBound one.importers := by
    simp only [Standing.room, List.length_nil]
    omega
  have below : Runner.AgreeBelow one other ⟨[], entry⟩ (deeper.levels depth)
      (deeper'.levels depth') :=
    Runner.agreeBelow_levels alike _ Standing.isPossible_start enough deep deep'
  exact (agrees_statements alike below Environment.global root.children).bind fun _ => .pure

/-- The evaluation of a stylesheet goes the same way in contexts that are alike, also if they do not
allow for the same depth of calls and imports. -/
theorem matches_stylesheet (alike : one.Alike other) (root : Statement) {s t : State}
    (stands : s.standing = ⟨[], entry⟩) (same : s.Alike t) :
    Matches one other ⟨[], entry⟩ (stylesheet root one s) (stylesheet root other t) := by
  let bound := fun context : Context =>
    context.options.maxCallDepth + Importers.chainBound context.importers
  let deep := bound one + bound other
  have onLeft : Agrees one one ⟨[], entry⟩ ⟨[], entry⟩
      (stylesheetWith (Runner.refusing.levels (depthBound one)) root)
      (stylesheetWith (Runner.refusing.levels deep) root) :=
    agrees_stylesheetWith (.refl one) (Nat.le_succ _) (Nat.le_add_right _ _) root
  have across : Agrees one other ⟨[], entry⟩ ⟨[], entry⟩
      (stylesheetWith (Runner.refusing.levels deep) root)
      (stylesheetWith (Runner.refusing.levels deep) root) :=
    agrees_stylesheetWith alike (Nat.le_add_right _ _) (Nat.le_add_right _ _) root
  have onRight : Agrees other other ⟨[], entry⟩ ⟨[], entry⟩
      (stylesheetWith (Runner.refusing.levels deep) root)
      (stylesheetWith (Runner.refusing.levels (depthBound other)) root) :=
    agrees_stylesheetWith (.refl other) (Nat.le_add_left _ _) (Nat.le_succ _) root
  rw [stylesheet_eq, stylesheet_eq]
  obtain ⟨log, rfl⟩ := same
  have first := onLeft s s stands ⟨s.log, rfl⟩
  have second := across s { s with log } stands ⟨log, rfl⟩
  exact (first.prepend second).append (onRight _ _ stands ⟨log, rfl⟩)

/-- The evaluation of a stylesheet ends with one tree or one error, however deep calls and imports
are followed. What would be done with those that are nested deeper than there are calls allowed and
stylesheets to import does not matter, because there are none. -/
theorem stylesheet_ends (context : Context) (root : Statement) (source : String)
    (entry : Option SourceId) :
    let start := Compilation.start context.options source entry
    let bound := context.options.maxCallDepth + Importers.chainBound context.importers
    ∃ result : Except Diagnostic Css,
      ended (stylesheet root context start) = result ∧
      ∀ (deeper : Runner) (extra : Nat),
        ended (stylesheetWith (deeper.levels (bound + extra)) root context start) = result := by
  intro start bound
  refine ⟨_, rfl, fun deeper extra => ?_⟩
  have agrees : Agrees context context ⟨[], entry.toList⟩ ⟨[], entry.toList⟩
      (stylesheetWith (deeper.levels (bound + extra)) root)
      (stylesheetWith (Runner.refusing.levels (depthBound context)) root) :=
    agrees_stylesheetWith (.refl context) (Nat.le_add_right bound extra) (Nat.le_succ bound) root
  rw [stylesheet_eq]
  exact (agrees start start rfl ⟨start.log, rfl⟩).ended

end Depth

end Stylesheet.Evaluation
