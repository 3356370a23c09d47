import Stylesheet.Proofs.Css.Declarations
import Stylesheet.Proofs.Css.QueryMeaning

/-! The queries that declarations stand under. Flattening puts one query around a declaration, the
text that stands for all queries around it in the source, up to the nearest block of a directive. -/

namespace Stylesheet

open MediaQuery (merge)

/-- A declaration by its full name, with the queries around it, outermost first. -/
structure Declared where
  queries : List String
  name : String
  value : Value

/-- The declaration with one query for all that are around it. -/
def Declared.merged (d : Declared) : Declared :=
  { d with queries := merge d.queries }

namespace Css

/-- What a property declares itself. -/
def ownDeclared (style : Style) (queries : List String) (name : String) (value : Option Value) :
    List Declared :=
  if Flatten.hasText style value then value.toList.map fun v => ⟨queries, name, v⟩ else []

mutual

/-- The declarations of a tree, nested or flat. Queries count up to the nearest block of a
directive, and names up to the nearest node that is no property. -/
def declared (style : Style) (queries : List String) (outer : Option String) : Css → List Declared
  | ⟨.property name value, children, _, _, _, _⟩ =>
    let full := match outer with
      | none => name
      | some outer => outer ++ "-" ++ name
    ownDeclared style queries full value ++ declaredOfAll style queries (some full) children
  | ⟨.rule _, children, _, _, _, _⟩ => declaredOfAll style queries none children
  | ⟨.media query, children, _, _, _, _⟩ => declaredOfAll style (queries ++ [query]) none children
  | ⟨.directive _ _ _, children, _, _, _, _⟩ => declaredOfAll style [] none children
  | _ => []

def declaredOfAll (style : Style) (queries : List String) (outer : Option String) :
    List Css → List Declared
  | [] => []
  | c :: rest => declared style queries outer c ++ declaredOfAll style queries outer rest

end

/-- The declarations of flat nodes that stand inside queries: the queries are joined into one, also
with that of a node which is a query itself. -/
def placed (style : Style) (queries : List String) (c : Css) : List Declared :=
  match c.kind with
  | .media inner => declaredOfAll style (merge (queries ++ [inner])) none c.children
  | _ => declared style (merge queries) none c

section Placed

variable {style : Style} {queries : List String} {below : List Css}

theorem declaredOfAll_eq (outer : Option String) (nodes : List Css) :
    declaredOfAll style queries outer nodes = nodes.flatMap (declared style queries outer) := by
  induction nodes with
  | nil => rfl
  | cons c rest ih => rw [declaredOfAll, ih, List.flatMap_cons]

theorem map_merged_ownDeclared (name : String) (value : Option Value) :
    (ownDeclared style queries name value).map Declared.merged =
      ownDeclared style (merge queries) name value := by
  unfold ownDeclared
  split
  · rw [List.map_map]
    rfl
  · rfl

/-- The reading takes no note of the layout. -/
theorem placed_layout (c : Css) (tabs : Nat) (groupEnd : Bool) :
    placed style queries { c with tabs, groupEnd } = placed style queries c := by
  obtain ⟨kind, children, line, filename, oldTabs, oldEnd⟩ := c
  cases kind <;> simp only [placed, declared]

theorem placed_of_not_media {c : Css} (other : c.isMedia = false) :
    placed style queries c = declared style (merge queries) none c := by
  obtain ⟨kind, children, line, filename, tabs, groupEnd⟩ := c
  cases kind with
  | media => cases other
  | _ => rfl

/-- At the top the joined queries are those of the tree. -/
theorem placed_nil (c : Css) : placed style [] c = declared style [] none c := by
  obtain ⟨kind, children, line, filename, tabs, groupEnd⟩ := c
  cases kind with
  | media query => simp [placed, declared, merge]
  | _ => rfl

theorem flatMap_placed_setGroupEnd (value : Bool) (nodes : List Css) :
    (Flatten.setGroupEnd value nodes).flatMap (placed style queries) =
      nodes.flatMap (placed style queries) := by
  rcases List.eq_nil_or_concat' nodes with rfl | ⟨before, last, rfl⟩
  · rfl
  · simp only [Flatten.setGroupEnd, List.getLast?_concat, List.dropLast_concat, List.flatMap_append,
      List.flatMap_singleton]
    rw [placed_layout last last.tabs value]

theorem flatMap_placed_own {own : List Css} (plain : ∀ c ∈ own, c.isMedia = false) :
    own.flatMap (placed style queries) = declaredOfAll style (merge queries) none own := by
  rw [declaredOfAll_eq]
  exact List.flatMap_congr fun c member => placed_of_not_media (plain c member)

/-- Putting a rule together moves its declarations, but not to other queries. -/
theorem placed_assembleRule {rule : Css} {selector : Selector} (kind : rule.kind = .rule selector)
    (outermost : Bool) (below : List Css) :
    ((Flatten.assembleRule style rule outermost below).flatMap (placed style queries)).Perm
      (below.flatMap (placed style queries)) := by
  let moves := fun c : Css => c.isRule || c.isMedia
  have plain : ∀ c ∈ Flatten.ownOfRule style below, c.isMedia = false := by
    intro c own
    have kept := (List.mem_filter.mp own).2
    simp only [Bool.and_eq_true, Bool.not_eq_true', Bool.or_eq_false_iff] at kept
    exact kept.1.2
  -- a comment that is left out declares nothing
  have own : (Flatten.ownOfRule style below).flatMap (placed style queries) =
      (below.filter fun c => !moves c).flatMap (placed style queries) := by
    have twice : Flatten.ownOfRule style below = (below.filter fun c => !moves c).filter
        fun c => !(style.isCompressed && c.isPlainComment) := by
      rw [List.filter_filter]
      exact List.filter_congr fun c _ => Bool.and_comm _ _
    rw [twice]
    apply flatMap_filter_of_nil
    intro c _ dropped
    obtain ⟨kind, children, line, filename, tabs, groupEnd⟩ := c
    cases kind <;> simp [isPlainComment] at dropped
    simp [placed, declared]
  have deeper : ∀ p : Bool, ((below.filter moves).map fun c =>
      if p then { c with tabs := c.tabs + 1 } else c).flatMap (placed style queries) =
        (below.filter moves).flatMap (placed style queries) := by
    intro p
    rw [List.flatMap_map]
    apply List.flatMap_congr
    intro c _
    cases p with
    | true => exact placed_layout c (c.tabs + 1) c.groupEnd
    | false => rfl
  have found : ((Flatten.assembleRule style rule false below).flatMap (placed style queries)) =
      (Flatten.ownOfRule style below).flatMap (placed style queries) ++
        (below.filter moves).flatMap (placed style queries) := by
    unfold Flatten.assembleRule
    simp only [Bool.false_eq_true, if_false]
    split
    · rename_i empty
      rw [show Flatten.ownOfRule style below = [] from List.isEmpty_iff.mp empty]
      rfl
    · obtain ⟨_, children, line, filename, tabs, groupEnd⟩ := rule
      subst kind
      rw [List.flatMap_cons, deeper, flatMap_placed_own plain]
      rfl
  have outer : (Flatten.assembleRule style rule outermost below).flatMap (placed style queries) =
      (Flatten.assembleRule style rule false below).flatMap (placed style queries) := by
    cases outermost with
    | false => rfl
    | true => exact flatMap_placed_setGroupEnd true _
  rw [outer, found, own]
  exact flatMap_split moves _ below

/-- Putting a query together puts it around all declarations below it. -/
theorem placed_assembleMedia {media : Css} {query : String} (kind : media.kind = .media query)
    (below : List Css) :
    ((Flatten.assembleMedia media query below).flatMap (placed style queries)).Perm
      (below.flatMap (placed style (queries ++ [query]))) := by
  let own := below.filter fun c => !c.isMedia
  have plain : ∀ c ∈ own, c.isMedia = false := by
    intro c member
    simpa using (List.mem_filter.mp member).2
  have joined : ((below.filter isMedia).map (Flatten.joinQuery query)).flatMap
      (placed style queries) =
        (below.filter isMedia).flatMap (placed style (queries ++ [query])) := by
    rw [List.flatMap_map]
    apply List.flatMap_congr
    intro c member
    obtain ⟨kind, children, line, filename, tabs, groupEnd⟩ := c
    cases kind with
    | media inner => simp only [Flatten.joinQuery, placed, MediaQuery.merge_concat_join]
    | _ => cases (List.mem_filter.mp member).2
  have found : (Flatten.assembleMedia media query below).flatMap (placed style queries) =
      own.flatMap (placed style (queries ++ [query])) ++
        (below.filter isMedia).flatMap (placed style (queries ++ [query])) := by
    unfold Flatten.assembleMedia
    simp only
    split
    · rename_i empty
      rw [show own = [] from List.isEmpty_iff.mp empty, joined]
      rfl
    · obtain ⟨_, children, line, filename, tabs, groupEnd⟩ := media
      subst kind
      rw [List.flatMap_cons, joined, flatMap_placed_own plain]
      rfl
  rw [found]
  exact flatMap_split isMedia _ below

/-- A declaration with a value stands in front of those below it. -/
theorem placed_assembleProperty (context : Flatten.Context) {name : String} {value : Option Value}
    {line : Nat} {filename : Option String} {tabs : Nat} {groupEnd : Bool} {out : List Css}
    (assembled : Flatten.assembleProperty
      (Flatten.joinName style context ⟨.property name value, [], line, filename, tabs, groupEnd⟩ name
        value).1
      (Flatten.joinName style context ⟨.property name value, [], line, filename, tabs, groupEnd⟩ name
        value).2 (Flatten.hasText style value) below = .ok out) :
    out.flatMap (placed style queries) =
      ownDeclared style (merge queries) (Flatten.joinName style context
        ⟨.property name value, [], line, filename, tabs, groupEnd⟩ name value).2 value ++
        below.flatMap (placed style queries) := by
  unfold Flatten.assembleProperty at assembled
  split at assembled
  · rename_i filled
    cases assembled
    cases context <;> simp [Flatten.joinName, placed, declared, declaredOfAll]
  · rename_i bare
    split at assembled
    · cases assembled
    · cases assembled
      simp [ownDeclared, bare]

end Placed

section Tree

variable {style : Style}

/-- Nothing is declared by a node, and it stays as it is or goes. -/
private theorem placed_leaf {queries : List String} {c : Css} {out : List Css}
    (silent : placed style queries c = []) (leaf : out = [] ∨ out = [c]) :
    out.flatMap (placed style queries) = [] := by
  rcases leaf with rfl | rfl
  · rfl
  · simp [silent]

mutual

/-- Flattening a node inside queries joins them around its declarations. -/
theorem node_placed (context : Flatten.Context) :
    ∀ (c : Css) {state final : Flatten.State} {out : List Css},
      Flatten.node style context c state = .ok (out, final) → ∀ queries : List String,
      (out.flatMap (placed style queries)).Perm
        ((declared style queries context.name? c).map Declared.merged)
  | ⟨.rule selector, children, line, filename, tabs, groupEnd⟩, _, _, _, ok, queries => by
    obtain ⟨resolved, below, _, inner, rfl⟩ := Flatten.node_rule_ok ok
    exact (placed_assembleRule rfl _ below).trans (nodes_placed _ children inner queries)
  | ⟨.media query, children, line, filename, tabs, groupEnd⟩, _, _, _, ok, queries => by
    cases inRule : context.isRule with
    | true =>
      obtain ⟨selector, ruleLine, ruleFilename, ruleTabs, rfl⟩ := Flatten.exists_of_isRule inRule
      obtain ⟨below, inner, rfl⟩ := Flatten.node_media_in_rule_ok ok
      refine (placed_assembleMedia rfl _).trans ?_
      rw [flatMap_placed_setGroupEnd]
      exact (placed_assembleRule rfl _ below).trans (nodes_placed _ children inner _)
    | false =>
      obtain ⟨below, inner, rfl⟩ := Flatten.node_media_ok inRule ok
      exact (placed_assembleMedia rfl below).trans (nodes_placed _ children inner _)
  | ⟨.property name value, children, line, filename, tabs, groupEnd⟩, _, _, _, ok, queries => by
    obtain ⟨below, inner, assembled⟩ := Flatten.node_property_ok ok
    rw [placed_assembleProperty context assembled]
    have later := nodes_placed _ children inner queries
    have source : declared style queries context.name?
        ⟨.property name value, children, line, filename, tabs, groupEnd⟩ =
        ownDeclared style queries (Flatten.joinName style context
          ⟨.property name value, [], line, filename, tabs, groupEnd⟩ name value).2 value ++
        declaredOfAll style queries (some (Flatten.joinName style context
          ⟨.property name value, [], line, filename, tabs, groupEnd⟩ name value).2) children := by
      cases context <;> rfl
    rw [source, List.map_append, map_merged_ownDeclared]
    exact later.append_left _
  | ⟨.directive name params hasBlock, children, line, filename, tabs, groupEnd⟩, _, _, _, ok, _ => by
    obtain ⟨below, inner, rfl⟩ := Flatten.node_directive_ok ok
    have fresh := nodes_placed _ children inner []
    have top : below.flatMap (placed style []) = declaredOfAll style [] none below := by
      rw [declaredOfAll_eq]
      exact List.flatMap_congr fun c _ => placed_nil c
    rw [top] at fresh
    simpa [placed, declared, Flatten.Context.name?] using fresh
  | ⟨.extend selector, children, line, filename, tabs, groupEnd⟩, _, _, _, ok, _ => by
    rw [(Flatten.node_extend_ok ok).1]
    simp [declared]
  | ⟨.charset name, children, line, filename, tabs, groupEnd⟩, _, _, _, ok, _ => by
    rw [placed_leaf (by simp [placed, declared]) (Flatten.node_charset_ok ok)]
    simp [declared]
  | ⟨.comment text preserved, children, line, filename, tabs, groupEnd⟩, _, _, _, ok, _ => by
    rw [placed_leaf (by simp [placed, declared]) (.inr (Flatten.pure_ok ok).1)]
    simp [declared]
  | ⟨.importing uri, children, line, filename, tabs, groupEnd⟩, _, _, _, ok, _ => by
    rw [placed_leaf (by simp [placed, declared]) (.inr (Flatten.pure_ok ok).1)]
    simp [declared]
  | ⟨.root, children, line, filename, tabs, groupEnd⟩, _, _, _, ok, _ => by
    rw [placed_leaf (by simp [placed, declared]) (.inr (Flatten.pure_ok ok).1)]
    simp [declared]

theorem nodes_placed (context : Flatten.Context) :
    ∀ (children : List Css) {state final : Flatten.State} {out : List Css},
      Flatten.nodes style context children state = .ok (out, final) → ∀ queries : List String,
      (out.flatMap (placed style queries)).Perm
        ((declaredOfAll style queries context.name? children).map Declared.merged)
  | [], _, _, _, ok, _ => by
    obtain ⟨rfl, _⟩ := Flatten.nodes_nil_ok ok
    exact .refl _
  | c :: rest, _, _, _, ok, queries => by
    obtain ⟨first, others, middle, head, tail, rfl⟩ := Flatten.nodes_cons_ok ok
    rw [List.flatMap_append, declaredOfAll, List.map_append]
    exact (node_placed context c head queries).append (nodes_placed context rest tail queries)

end

end Tree

/-- The declarations of a flat tree are those of the source, each under the joined query. -/
theorem declared_flatten {root flat : Css} {style : Style} {extensions : Extensions}
    (ok : root.flatten style = .ok (flat, extensions)) :
    (declaredOfAll style [] none flat.children).Perm
      ((declaredOfAll style [] none root.children).map Declared.merged) := by
  obtain ⟨children, final, found, rfl⟩ := flatten_ok ok
  have whole := nodes_placed .root root.children found []
  rw [List.flatMap_congr fun c _ => placed_nil c, ← declaredOfAll_eq] at whole
  exact whole

/-- Flattening joins all queries around a declaration into one. The joined query holds wherever they
all do; it holds nowhere else exactly if each of its parts demands each of them, and so whenever none
of them is a list. -/
theorem flatten_joins_queries {root flat : Css} {style : Style} {extensions : Extensions}
    (ok : root.flatten style = .ok (flat, extensions)) :
    (declaredOfAll style [] none flat.children).Perm
        ((declaredOfAll style [] none root.children).map Declared.merged) ∧
      ∀ d ∈ declaredOfAll style [] none root.children,
        (∀ truth, MediaQuery.HoldAll truth d.queries → MediaQuery.HoldAll truth d.merged.queries) ∧
        ((∀ truth, MediaQuery.HoldAll truth d.merged.queries ↔ MediaQuery.HoldAll truth d.queries) ↔
          ∀ text ∈ d.merged.queries, ∀ part ∈ MediaQuery.parts text, ∀ query ∈ d.queries,
            MediaQuery.Demands part query) ∧
        ((∀ query ∈ d.queries, ',' ∉ query.toList) → ∀ truth,
          MediaQuery.HoldAll truth d.merged.queries ↔ MediaQuery.HoldAll truth d.queries) := by
  refine ⟨declared_flatten ok, ?_⟩
  intro d _
  refine ⟨fun _ => MediaQuery.holdAll_merge, MediaQuery.holdAll_merge_iff d.queries, ?_⟩
  intro plain
  exact (MediaQuery.holdAll_merge_iff d.queries).mpr (MediaQuery.demands_of_no_comma plain)

/-- A declaration in a rule between two queries. -/
def queriedSample (outer inner : String) : Css :=
  let declaration := node (.property "top" (some (.unquoted "auto"))) [] 1 none
  let rule := node (.rule [[.compound (.mk none [.className "a"])]])
    [node (.media inner) [declaration] 1 none] 1 none
  node .root [node (.media outer) [rule] 1 none] 1 none

theorem declared_queriedSample (outer inner : String) :
    declaredOfAll .nested [] none (queriedSample outer inner).children =
      [⟨[outer, inner], "top", .unquoted "auto"⟩] := by
  have filled : Flatten.hasText .nested (some (.unquoted "auto")) = true := by decide +kernel
  simp [queriedSample, node, declaredOfAll, declared, ownDeclared, filled]

theorem flatten_joins_queries_of_single :
    ∃ flat extensions, (queriedSample "screen" "(color)").flatten .nested = .ok (flat, extensions) ∧
      (declaredOfAll .nested [] none flat.children).Perm
        [⟨["screen and (color)"], "top", .unquoted "auto"⟩] ∧
      ∀ truth, MediaQuery.HoldAll truth ["screen and (color)"] ↔
        MediaQuery.HoldAll truth ["screen", "(color)"] := by
  have succeeds : ((queriedSample "screen" "(color)").flatten .nested).isOk = true := by
    decide +kernel
  obtain ⟨⟨flat, extensions⟩, ok⟩ := exists_of_isOk succeeds
  obtain ⟨perm, exactly⟩ := flatten_joins_queries ok
  rw [declared_queriedSample] at perm exactly
  refine ⟨flat, extensions, ok, perm, ?_⟩
  exact (exactly _ (List.mem_singleton_self _)).2.2 (by decide)

/-- Inside of a list a query is joined with its last part only: the declaration shows on every
screen, with or without colours. -/
theorem flatten_query_not_conjunction :
    ∃ flat extensions d truth,
      (queriedSample "screen, print" "(color)").flatten .nested = .ok (flat, extensions) ∧
      d ∈ declaredOfAll .nested [] none (queriedSample "screen, print" "(color)").children ∧
      d.merged ∈ declaredOfAll .nested [] none flat.children ∧
      MediaQuery.HoldAll truth d.merged.queries ∧ ¬ MediaQuery.HoldAll truth d.queries := by
  have succeeds : ((queriedSample "screen, print" "(color)").flatten .nested).isOk = true := by
    decide +kernel
  obtain ⟨⟨flat, extensions⟩, ok⟩ := exists_of_isOk succeeds
  let d : Declared := ⟨["screen, print", "(color)"], "top", .unquoted "auto"⟩
  have source := declared_queriedSample "screen, print" "(color)"
  have perm := declared_flatten ok
  rw [source] at perm
  have text : d.merged.queries = ["screen, print and (color)"] := by decide
  have joined : MediaQuery.parts "screen, print and (color)" =
      [[["screen".toList]], [["print".toList], ["(color)".toList]]] := by decide
  have inner : MediaQuery.parts "(color)" = [[["(color)".toList]]] := by decide
  refine ⟨flat, extensions, d, (· = ["screen".toList]), ok, by simp [source, d],
    perm.mem_iff.mpr (List.mem_singleton_self _), ?_, ?_⟩
  · intro query member
    rw [text, List.mem_singleton] at member
    subst member
    exact ⟨_, by rw [joined]; exact List.mem_cons_self .., by simp⟩
  · intro all
    obtain ⟨part, member, holds⟩ := all "(color)" (by simp [d])
    rw [inner, List.mem_singleton] at member
    subst member
    exact absurd (holds _ (List.mem_singleton_self _)) (by decide)

end Css

end Stylesheet
