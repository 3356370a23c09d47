import Stylesheet.Compilation
import Stylesheet.Proofs.Evaluation.Outside
import Stylesheet.Proofs.Import.Canonical
import Stylesheet.Proofs.Import.Staleness

/-! Which imports of a stylesheet are seen when it is asked what it depends on. Evaluation can come
to statements in blocks and in the other branches of conditionals; the list of imports goes through
blocks only. The check of the nesting leaves no imports right inside of a branch, and so those that
are missed stand in a rule, a media query or a directive of another branch. -/

namespace Stylesheet

/-- Evaluation looks at what stands in the block of such a statement, at once or when it is called
upon. -/
def StatementKind.opens : StatementKind → Bool
  | .comment _ _ | .charset _ | .importing _ | .assign _ _ _ | .includeMixin _ _ | .returning _
  | .extend _ | .debug _ | .warn _ => false
  | _ => true

/-- A statement that stands in the output around what is in its block. -/
def StatementKind.surrounds : StatementKind → Bool
  | .rule _ | .media _ | .directive _ _ _ => true
  | _ => false

namespace Evaluation

/-- What stands below a statement that opens no block does not matter. -/
theorem simpleStatement_of_not_opens {kind : StatementKind} (closed : kind.opens = false)
    (run : Runner) (scope : ScopeId) (place : Place) (children others : List Statement)
    (body other : ScopeId → Evaluating Outcome) :
    simpleStatement run scope place children body kind =
      simpleStatement run scope place others other kind := by
  cases kind with
  | importing target => cases target <;> rfl
  | comment | charset | assign | includeMixin | returning | extend | debug | warn => rfl
  | _ => cases closed

end Evaluation

namespace Statement

/-- Evaluation of a statement can come to another one of the same stylesheet. -/
inductive Reaches : Statement → Statement → Prop where
  | here {s : Statement} : Reaches s s
  | inside {s t u : Statement} (opens : s.kind.opens = true) (member : t ∈ s.children)
      (further : Reaches t u) : Reaches s u
  | otherwise {s t u : Statement} {condition : Option Expr}
      (kind : s.kind = .branch condition (some t)) (further : Reaches t u) : Reaches s u

/-- Evaluation of a stylesheet can come to an import of this name. -/
def ReachesImport (root : Statement) (uri : String) : Prop :=
  ∃ s ∈ root.children, ∃ t, s.Reaches t ∧ t.kind = .importing (.stylesheet uri)

/-- There is an import of this name below the other branch of a conditional, in a rule, a media
query or a directive. -/
inductive Hides (uri : String) (s : Statement) : Prop where
  | intro {conditional other block t : Statement} {condition : Option Expr}
      (reaches : s.Reaches conditional) (kind : conditional.kind = .branch condition (some other))
      (within : other.Reaches block) (surrounds : block.kind.surrounds = true)
      (further : block.Reaches t) (isImport : t.kind = .importing (.stylesheet uri))

/-- A stylesheet with an import of this name that is hidden in another branch. -/
def HidesImport (root : Statement) (uri : String) : Prop :=
  ∃ s ∈ root.children, s.Hides uri

section Reaching

variable {s t u : Statement} {uri : String}

theorem Reaches.trans (first : s.Reaches t) (second : t.Reaches u) : s.Reaches u := by
  induction first with
  | here => exact second
  | inside opens member _ ih => exact .inside opens member (ih second)
  | otherwise kind _ ih => exact .otherwise kind (ih second)

theorem Hides.lift (reaches : s.Reaches t) (hides : t.Hides uri) : s.Hides uri := by
  obtain ⟨before, kind, within, surrounds, further, isImport⟩ := hides
  exact ⟨reaches.trans before, kind, within, surrounds, further, isImport⟩

theorem importsOfAll_eq_flatMap (found : List Statement) :
    importsOfAll found = found.flatMap imports := by
  induction found with
  | nil => rfl
  | cons first rest ih => rw [importsOfAll, ih, List.flatMap_cons]

/-- The list has what stands in the block of a statement. -/
theorem mem_imports_of_mem (member : t ∈ s.children) (listed : uri ∈ t.imports) :
    uri ∈ s.imports := by
  have below : uri ∈ importsOfAll s.children := by
    rw [importsOfAll_eq_flatMap]
    exact List.mem_flatMap_of_mem member listed
  fun_cases imports s with
  | case1 own => exact List.mem_cons_of_mem own below
  | case2 => exact below

theorem mem_imports_of_kind (kind : s.kind = .importing (.stylesheet uri)) : uri ∈ s.imports := by
  cases s with
  | mk own children line span filename =>
    cases kind
    rw [imports]
    exact List.mem_cons_self

end Reaching

mutual

/-- The names of the imports that evaluation of a statement can come to. -/
def reachedImports : Statement → List String
  | .mk (.importing (.stylesheet uri)) _ _ _ _ => [uri]
  | .mk (.branch _ (some other)) children _ _ _ => reachedOfAll children ++ reachedImports other
  | .mk kind children _ _ _ => if kind.opens then reachedOfAll children else []

def reachedOfAll : List Statement → List String
  | [] => []
  | s :: rest => reachedImports s ++ reachedOfAll rest

end

theorem reachedOfAll_eq_flatMap (found : List Statement) :
    reachedOfAll found = found.flatMap reachedImports := by
  induction found with
  | nil => rfl
  | cons first rest ih => rw [reachedOfAll, ih, List.flatMap_cons]

mutual

theorem exists_of_mem_reachedImports {uri : String} :
    (s : Statement) → uri ∈ s.reachedImports →
      ∃ t, s.Reaches t ∧ t.kind = .importing (.stylesheet uri)
  | s, member => by
    fun_cases reachedImports s with
    | case1 own =>
      rw [reachedImports, List.mem_singleton] at member
      exact ⟨_, .here, member ▸ rfl⟩
    | case2 condition other children line span filename =>
      rw [reachedImports, List.mem_append] at member
      rcases member with inside | otherwise
      · obtain ⟨t, isChild, u, reaches, isImport⟩ := exists_of_mem_reachedOfAll children inside
        exact ⟨u, .inside rfl isChild reaches, isImport⟩
      · obtain ⟨u, reaches, isImport⟩ := exists_of_mem_reachedImports other otherwise
        exact ⟨u, .otherwise rfl reaches, isImport⟩
    | case3 kind children line span filename _ _ opens =>
      rw [reachedImports, if_pos opens] at member
      · obtain ⟨t, isChild, u, reaches, isImport⟩ := exists_of_mem_reachedOfAll children member
        exact ⟨u, .inside opens isChild reaches, isImport⟩
      all_goals assumption
    | case4 kind children line span filename _ _ closed =>
      rw [reachedImports, if_neg closed] at member
      · cases member
      all_goals assumption

theorem exists_of_mem_reachedOfAll {uri : String} :
    (found : List Statement) → uri ∈ reachedOfAll found →
      ∃ s ∈ found, ∃ t, s.Reaches t ∧ t.kind = .importing (.stylesheet uri)
  | [], member => by cases member
  | s :: rest, member => by
    rw [reachedOfAll, List.mem_append] at member
    rcases member with first | behind
    · exact ⟨s, List.mem_cons_self, exists_of_mem_reachedImports s first⟩
    · obtain ⟨t, member, found⟩ := exists_of_mem_reachedOfAll rest behind
      exact ⟨t, List.mem_cons_of_mem s member, found⟩

end

section Reached

variable {s t : Statement} {uri : String}

theorem mem_reachedImports_of_mem (opens : s.kind.opens = true) (member : t ∈ s.children)
    (reached : uri ∈ t.reachedImports) : uri ∈ s.reachedImports := by
  have below : uri ∈ reachedOfAll s.children := by
    rw [reachedOfAll_eq_flatMap]
    exact List.mem_flatMap_of_mem member reached
  fun_cases reachedImports s with
  | case1 => cases opens
  | case2 => exact List.mem_append_left _ below
  | case3 => exact below
  | case4 kind children line span filename _ _ closed => exact absurd opens closed

theorem mem_reachedImports (reaches : s.Reaches t)
    (isImport : t.kind = .importing (.stylesheet uri)) : uri ∈ s.reachedImports := by
  induction reaches with
  | @here s =>
    cases s with
    | mk own children line span filename =>
      cases isImport
      rw [reachedImports]
      exact List.mem_singleton_self uri
  | inside opens member _ ih => exact mem_reachedImports_of_mem opens member (ih isImport)
  | @otherwise s other _ condition kind _ ih =>
    cases s with
    | mk own children line span filename =>
      cases kind
      rw [reachedImports]
      exact List.mem_append_right _ (ih isImport)

end Reached

theorem reachesImport_iff (root : Statement) (uri : String) :
    root.ReachesImport uri ↔ uri ∈ reachedOfAll root.children := by
  constructor
  · rintro ⟨s, member, t, reaches, isImport⟩
    rw [reachedOfAll_eq_flatMap]
    exact List.mem_flatMap_of_mem member (mem_reachedImports reaches isImport)
  · exact exists_of_mem_reachedOfAll root.children

instance (root : Statement) (uri : String) : Decidable (root.ReachesImport uri) :=
  decidable_of_iff _ (reachesImport_iff root uri).symm

end Statement

namespace Nesting

open Statement

variable {parent direct : Enclosure} {s t : Statement} {uri : String}

/-- Mixins and control directives must not have imports, and functions and properties have room for
none. -/
theorem violation?_import (parent direct : Enclosure) (uri : String) :
    violation? parent direct (.importing (.stylesheet uri)) = none ↔
      (parent ≠ .function ∧ parent ≠ .property) ∧
        direct ≠ .control ∧ direct ≠ .mixin ∧ direct ≠ .inclusion := by
  cases parent <;> cases direct <;>
    simp [violation?, isFunctionStatement, isPropertyStatement]

/-- A block with an import right inside of it surrounds the import in the output. -/
theorem surrounds_of_import (fits : Fits parent direct s) (opens : s.kind.opens = true)
    (member : t ∈ s.children) (isImport : t.kind = .importing (.stylesheet uri)) :
    s.kind.surrounds = true := by
  have here := (fits.inner t member).here
  rw [isImport, violation?_import] at here
  cases s with
  | mk kind children line span filename =>
    cases fits.parsed with
    | intro notRoot =>
      cases kind with
      | rule | media | directive => rfl
      | root => exact absurd rfl notRoot
      | property | defineFunction =>
        simp [Statement.kind, Enclosure.ofKind, Enclosure.isTransparent] at here
      | defineMixin | branch | loopWhile | loopCount | loopEach =>
        simp [Statement.kind, Enclosure.ofKind] at here
      | _ => cases opens

/-- The other branch of a conditional is a branch itself and never an import. -/
theorem otherwise_not_import {condition : Option Expr} (fits : Fits parent direct s)
    (kind : s.kind = .branch condition (some t)) : t.kind ≠ .importing (.stylesheet uri) := by
  intro isImport
  cases fits.parsed with
  | intro _ isBranch =>
    have branches : t.kind.isBranch = true := isBranch condition t kind
    rw [isImport] at branches
    cases branches

/-- By induction on the way to it: an import is the statement itself or has something around it. -/
theorem exists_surrounds (fits : Fits parent direct s) (reaches : s.Reaches t)
    (isImport : t.kind = .importing (.stylesheet uri)) :
    s = t ∨ ∃ block, s.Reaches block ∧ block.kind.surrounds = true ∧ block.Reaches t := by
  induction reaches generalizing parent direct with
  | here => exact .inl rfl
  | inside opens member further ih =>
    rcases ih (fits.inner _ member) isImport with rfl | ⟨block, reaches, surrounds, leads⟩
    · exact .inr ⟨_, .here, surrounds_of_import fits opens member isImport, .inside opens member .here⟩
    · exact .inr ⟨block, .inside opens member reaches, surrounds, leads⟩
  | otherwise kind further ih =>
    rcases ih (fits.otherwise kind) isImport with rfl | ⟨block, reaches, surrounds, leads⟩
    · exact absurd isImport (otherwise_not_import fits kind)
    · exact .inr ⟨block, .otherwise kind reaches, surrounds, leads⟩

/-- By induction on the way to it: an import is listed, or the way leads through another branch. -/
theorem listed_or_hidden (fits : Fits parent direct s) (reaches : s.Reaches t)
    (isImport : t.kind = .importing (.stylesheet uri)) : uri ∈ s.imports ∨ s.Hides uri := by
  induction reaches generalizing parent direct with
  | here => exact .inl (mem_imports_of_kind isImport)
  | inside opens member further ih =>
    rcases ih (fits.inner _ member) isImport with listed | hidden
    · exact .inl (mem_imports_of_mem member listed)
    · exact .inr (hidden.lift (.inside opens member .here))
  | otherwise kind further ih =>
    rcases exists_surrounds (fits.otherwise kind) further isImport with
      rfl | ⟨block, within, surrounds, leads⟩
    · exact absurd isImport (otherwise_not_import fits kind)
    · exact .inr ⟨.here, kind, within, surrounds, leads, isImport⟩

/-- In a stylesheet with the nesting in order, evaluation comes only to imports that are listed and
to hidden ones. -/
theorem listed_or_hidden_of_check {text : String} {dialect : Dialect} {filename : Option String}
    {root : Statement} (read : Statement.parse text dialect filename = .ok root)
    (accepted : check root = .ok ()) (reaches : root.ReachesImport uri) :
    uri ∈ root.imports ∨ root.HidesImport uri := by
  obtain ⟨s, member, t, leads, isImport⟩ := reaches
  have none : violations .root .root root.children = [] := by
    unfold check at accepted
    split at accepted
    · assumption
    · cases accepted
  have fits := fits_of_violations none (parse_allParsed read) s member
  rcases listed_or_hidden fits leads isImport with listed | hidden
  · exact .inl (mem_imports_of_mem member listed)
  · exact .inr ⟨s, member, hidden⟩

end Nesting

namespace Staleness

variable {files : FileTree} {importers : List Importer} {id : SourceId} {root : Statement}

/-- A stylesheet that is found and can be read, with what it is read into. -/
inductive HasTree (files : FileTree) (importers : List Importer) (id : SourceId)
    (root : Statement) : Prop where
  | intro {importer : Importer} {source : ImportedSource}
      (isImporter : importers[id.importer]? = some importer)
      (isFound : (importer.find files id.uri none).1 = .ok (some source))
      (read : Statement.parse source.contents source.dialect (some id.uri) = .ok root)

theorem imports?_of_hasTree (tree : HasTree files importers id root) :
    imports? files importers id = root.imports.mapM (target? files importers id) := by
  obtain ⟨isImporter, isFound, read⟩ := tree
  simp [imports?, isImporter, isFound, read, Except.toOption]

theorem exists_target {uri : String} {uris : List String} {found : List SourceId}
    (resolved : uris.mapM (target? files importers id) = some found) (member : uri ∈ uris) :
    ∃ target ∈ found, target? files importers id uri = some target := by
  induction uris generalizing found with
  | nil => cases member
  | cons first rest ih =>
    rw [List.mapM_cons] at resolved
    obtain ⟨target, isTarget, others⟩ := Option.bind_eq_some_iff.mp resolved
    obtain ⟨targets, areTargets, same⟩ := Option.bind_eq_some_iff.mp others
    cases same
    rcases List.mem_cons.mp member with rfl | behind
    · exact ⟨target, List.mem_cons_self, isTarget⟩
    · obtain ⟨other, isMember, isOther⟩ := ih areTargets behind
      exact ⟨other, List.mem_cons_of_mem target isMember, isOther⟩

/-- Whatever was asked before, the answer says what the tree of the stylesheet imports. -/
theorem dependenciesOf_of_hasTree {known : Staleness} (sound : known.IsSound files importers)
    (tree : HasTree files importers id root) :
    ((dependenciesOf files importers id).run known).1 =
      root.imports.mapM (target? files importers id) := by
  obtain ⟨found, after, ran, _, _, same⟩ := keeps_dependenciesOf id known sound rfl
  rw [ran, ← imports?_of_hasTree tree]
  exact same

/-- Every import that evaluation can come to is listed and its stylesheet is a dependency, unless it
stands in a rule, a media query or a directive of another branch of a conditional. -/
theorem reached_imports_listed {text : String} {dialect : Dialect} {filename : Option String}
    {uri : String} (read : Statement.parse text dialect filename = .ok root)
    (accepted : Nesting.check root = .ok ()) (reaches : root.ReachesImport uri) :
    root.HidesImport uri ∨ uri ∈ root.imports ∧
      ∀ files importers id known found, HasTree files importers id root →
        known.IsSound files importers →
        ((dependenciesOf files importers id).run known).1 = some found →
        ∃ target ∈ found, target? files importers id uri = some target := by
  rcases Nesting.listed_or_hidden_of_check read accepted reaches with listed | hidden
  · refine .inr ⟨listed, ?_⟩
    intro files importers id known found tree sound isFound
    rw [dependenciesOf_of_hasTree sound tree] at isFound
    exact exists_target isFound listed
  · exact .inl hidden

/-- A stylesheet with this text, beside one that it can import. -/
def beside (text : String) : List Importer :=
  [.memory [("main.scss", text), ("_x.scss", "$y: z;")] 0]

theorem hasTree_beside {text : String} (read : Statement.parse text .scss (some "main.scss") = .ok root) :
    HasTree .empty (beside text) ⟨0, "main.scss"⟩ root := by
  have told : Importer.dialectOf? "main.scss" = some .scss := by with_unfolding_all rfl
  have found := (@Importer.find_self_iff .empty
    (.memory [("main.scss", text), ("_x.scss", "$y: z;")] 0) "main.scss" text rfl).mpr
      ⟨by simp [told], trivial⟩
  rw [Importer.dialectOf, told] at found
  exact ⟨rfl, found, read⟩

/-- An import at some depth, though not in another branch. -/
def nestedText : String :=
  "@media print\x7b@if a==b\x7bc\x7b@import 'x';\x7d\x7d@else\x7b\x7d\x7d"

/-- An import in a rule of another branch. -/
def elseText : String :=
  "@if a==b\x7b\x7d@else\x7bc\x7b@import 'x';d:$y\x7d\x7d"

/-- Both texts are read as stylesheets with an import, which is listed for the first one only. The
other one compiles, and imports what the listing misses. -/
theorem nestedText_elseText_outcomes :
    ((Statement.parse nestedText .scss (some "main.scss")).toOption.any fun root =>
      (Nesting.check root).toOption.isSome && decide (root.ReachesImport "x")) = true ∧
    ((Statement.parse elseText .scss (some "main.scss")).toOption.any fun root =>
      (Nesting.check root).toOption.isSome && decide (root.ReachesImport "x") &&
        decide ("x" ∉ root.imports)) = true ∧
    target? .empty (beside elseText) ⟨0, "main.scss"⟩ "x" = some ⟨0, "_x.scss"⟩ ∧
    ((dependenciesOf .empty (beside elseText) ⟨0, "main.scss"⟩).run initial).1 = some [] ∧
    (Compilation.run ⟨{ Options.default with dialect := .scss }, .empty, beside elseText⟩ elseText
      (some ⟨0, "main.scss"⟩)).1.toOption.map Compiled.dependencies = some [⟨0, "_x.scss"⟩] := by
  have spelled : nestedText.toList = _ := String.toList_ofList
  have spelled_else : elseText.toList = _ := String.toList_ofList
  refine ⟨?_, ?_, by decide +kernel, by decide +kernel, ?_⟩
  · rw [Statement.parse_of_toList spelled]
    decide +kernel
  · rw [Statement.parse_of_toList spelled_else]
    decide +kernel
  · rw [Compilation.run, Statement.parse_of_toList spelled_else]
    decide +kernel

theorem reached_imports_listed_of_nested :
    ∃ root, Statement.parse nestedText .scss (some "main.scss") = .ok root ∧
      Nesting.check root = .ok () ∧ root.ReachesImport "x" ∧
      HasTree .empty (beside nestedText) ⟨0, "main.scss"⟩ root ∧
      (root.HidesImport "x" ∨ "x" ∈ root.imports ∧
        ∀ files importers id known found, HasTree files importers id root →
          known.IsSound files importers →
          ((dependenciesOf files importers id).run known).1 = some found →
          ∃ target ∈ found, target? files importers id "x" = some target) := by
  have check := nestedText_elseText_outcomes.1
  cases read : Statement.parse nestedText .scss (some "main.scss") with
  | error error =>
    rw [read] at check
    cases check
  | ok root =>
    rw [read] at check
    simp only [Except.toOption, Option.any_some, Bool.and_eq_true, decide_eq_true_eq] at check
    obtain ⟨accepted, reaches⟩ := check
    cases isAccepted : Nesting.check root with
    | error errors => simp [isAccepted] at accepted
    | ok =>
      exact ⟨root, rfl, isAccepted, reaches, hasTree_beside read,
        reached_imports_listed read isAccepted reaches⟩

/-- Compiling the stylesheet imports the other one, which is not among the dependencies that are
found without compiling. -/
theorem else_import_not_listed :
    ∃ root, Statement.parse elseText .scss (some "main.scss") = .ok root ∧
      Nesting.check root = .ok () ∧ root.ReachesImport "x" ∧ "x" ∉ root.imports ∧
      HasTree .empty (beside elseText) ⟨0, "main.scss"⟩ root ∧
      target? .empty (beside elseText) ⟨0, "main.scss"⟩ "x" = some ⟨0, "_x.scss"⟩ ∧
      ((dependenciesOf .empty (beside elseText) ⟨0, "main.scss"⟩).run initial).1 = some [] ∧
      (Compilation.run ⟨{ Options.default with dialect := .scss }, .empty, beside elseText⟩ elseText
        (some ⟨0, "main.scss"⟩)).1.toOption.map Compiled.dependencies = some [⟨0, "_x.scss"⟩] := by
  obtain ⟨-, check, outcomes⟩ := nestedText_elseText_outcomes
  cases read : Statement.parse elseText .scss (some "main.scss") with
  | error error =>
    rw [read] at check
    cases check
  | ok root =>
    rw [read] at check
    simp only [Except.toOption, Option.any_some, Bool.and_eq_true, decide_eq_true_eq] at check
    obtain ⟨⟨accepted, reaches⟩, unlisted⟩ := check
    cases isAccepted : Nesting.check root with
    | error errors => simp [isAccepted] at accepted
    | ok =>
      exact ⟨root, rfl, isAccepted, reaches, unlisted, hasTree_beside read, outcomes⟩

end Staleness

end Stylesheet
