import Mathlib.Tactic.MkIffOfInductiveProp
import Stylesheet.Proofs.Css.Flattening

/-! The shape of a flat tree: no request to extend is left, rules hold neither rules nor queries,
queries hold no queries, neither of them is empty, and every declaration stands alone with a value
that has a text. -/

namespace Stylesheet.Css

/-- Something is true of a node and of all nodes below it. -/
inductive Everywhere (p : Css → Prop) : Css → Prop where
  | intro (here : p c) (below : ∀ d ∈ c.children, Everywhere p d) : Everywhere p c

theorem Everywhere.here {p : Css → Prop} {c : Css} (all : c.Everywhere p) : p c := by
  cases all with
  | intro here below => exact here

theorem Everywhere.inner {p : Css → Prop} {c : Css} (all : c.Everywhere p) :
    ∀ d ∈ c.children, d.Everywhere p := by
  cases all with
  | intro here below => exact below

theorem everywhere_mk {p : Css → Prop} {kind : CssKind} {children : List Css} {line tabs : Nat}
    {filename : Option String} {groupEnd : Bool} :
    Everywhere p ⟨kind, children, line, filename, tabs, groupEnd⟩ ↔
      p ⟨kind, children, line, filename, tabs, groupEnd⟩ ∧ ∀ d ∈ children, d.Everywhere p :=
  ⟨fun all => ⟨all.here, all.inner⟩, fun both => .intro both.1 both.2⟩

/-- Comments, character sets, imports and requests to extend; nothing stands below them. -/
def isLeaf (c : Css) : Bool :=
  match c.kind with
  | .comment _ _ | .charset _ | .importing _ | .extend _ => true
  | _ => false

/-- A node as evaluation gives it below the root. -/
@[mk_iff isSource_iff]
structure IsSource (c : Css) : Prop where
  notRoot : c.kind ≠ .root
  leaf : c.isLeaf = true → c.children = []

/-- A node as flattening gives it for output in a style. -/
structure IsFlat (style : Style) (c : Css) : Prop where
  notExtend : ∀ selector, c.kind ≠ .extend selector
  rule : c.isRule = true →
    c.children ≠ [] ∧ ∀ d ∈ c.children, d.isRule = false ∧ d.isMedia = false
  media : c.isMedia = true → c.children ≠ [] ∧ ∀ d ∈ c.children, d.isMedia = false
  property : ∀ name value, c.kind = .property name value →
    c.children = [] ∧ ∃ v text, value = some v ∧ v.toCss style = .ok text ∧ text ≠ ""

section Flat

variable {style : Style} {below out : List Css}

theorem exists_text_of_hasText {value : Option Value}
    (filled : Flatten.hasText style value = true) :
    ∃ v text, value = some v ∧ v.toCss style = .ok text ∧ text ≠ "" := by
  unfold Flatten.hasText at filled
  split at filled
  · cases filled
  · rename_i v
    split at filled
    · rename_i text found
      refine ⟨v, text, rfl, found, ?_⟩
      rintro rfl
      simp at filled
    · cases filled

/-- Flatness takes no note of the layout. -/
theorem Everywhere.layout {c : Css} (flat : c.Everywhere (IsFlat style)) (tabs : Nat)
    (groupEnd : Bool) : Everywhere (IsFlat style) { c with tabs, groupEnd } :=
  .intro ⟨flat.here.notExtend, flat.here.rule, flat.here.media, flat.here.property⟩ flat.inner

/-- A node of another kind than those that flattening has rules for. -/
private theorem isFlat_of_kind {c : Css} (rule : c.isRule = false) (media : c.isMedia = false)
    (property : c.isProperty = false) (extend : ∀ selector, c.kind ≠ .extend selector) :
    IsFlat style c where
  notExtend := extend
  rule := by simp [rule]
  media := by simp [media]
  property := by
    intro name value kind
    simp [isProperty, kind] at property

theorem assembleRule_isFlat {rule : Css} {outermost : Bool} (isRule : rule.isRule = true)
    (flat : ∀ c ∈ below, c.Everywhere (IsFlat style)) :
    ∀ x ∈ Flatten.assembleRule style rule outermost below, x.Everywhere (IsFlat style) := by
  intro x member
  rcases Flatten.mem_assembleRule member with ⟨filled, groupEnd, rfl⟩ |
    ⟨y, source, _, tabs, groupEnd, rfl⟩
  · obtain ⟨kind, children, line, filename, tabs, oldEnd⟩ := rule
    cases kind with
    | rule selector =>
      have stays : ∀ c ∈ Flatten.ownOfRule style below, c.isRule = false ∧ c.isMedia = false := by
        intro c own
        have kept := (List.mem_filter.mp own).2
        simp only [Bool.and_eq_true, Bool.not_eq_true', Bool.or_eq_false_iff] at kept
        exact kept.1
      refine .intro ⟨by simp, fun _ => ⟨filled, stays⟩, by simp [isMedia], by simp⟩ ?_
      intro c own
      exact flat c (List.mem_filter.mp own).1
    | _ => cases isRule
  · exact (flat y source).layout tabs groupEnd

theorem assembleMedia_isFlat {media : Css} {query : String} (isMedia : media.isMedia = true)
    (flat : ∀ c ∈ below, c.Everywhere (IsFlat style)) :
    ∀ x ∈ Flatten.assembleMedia media query below, x.Everywhere (IsFlat style) := by
  intro x member
  rcases Flatten.mem_assembleMedia member with ⟨filled, rfl⟩ | ⟨y, source, inner, kind, rfl⟩
  · obtain ⟨kind, children, line, filename, tabs, groupEnd⟩ := media
    cases kind with
    | media text =>
      have stays : ∀ c ∈ below.filter fun c => !c.isMedia, c.isMedia = false := by
        intro c own
        simpa using (List.mem_filter.mp own).2
      refine .intro ⟨by simp, by simp [isRule], fun _ => ⟨filled, stays⟩, by simp⟩ ?_
      intro c own
      exact flat c (List.mem_filter.mp own).1
    | _ => cases isMedia
  · have own := (flat y source).here
    refine .intro ⟨by simp, by simp [isRule], ?_, by simp⟩ (flat y source).inner
    intro _
    exact own.media (by simp [Css.isMedia, kind])

theorem setGroupEnd_isFlat {found : List Css} (value : Bool)
    (flat : ∀ c ∈ found, c.Everywhere (IsFlat style)) :
    ∀ x ∈ Flatten.setGroupEnd value found, x.Everywhere (IsFlat style) := by
  intro x member
  obtain ⟨y, source, groupEnd, rfl⟩ := Flatten.mem_setGroupEnd member
  exact (flat y source).layout y.tabs groupEnd

theorem assembleProperty_isFlat {c : Css} {name : String} {value : Option Value}
    (kind : c.kind = .property name value)
    (assembled : Flatten.assembleProperty c name (Flatten.hasText style value) below = .ok out)
    (flat : ∀ c ∈ below, c.Everywhere (IsFlat style)) :
    ∀ x ∈ out, x.Everywhere (IsFlat style) := by
  intro x member
  rcases Flatten.mem_assembleProperty assembled member with ⟨filled, rfl⟩ | inner
  · refine .intro ⟨by simp [kind], by simp [isRule, kind], by simp [isMedia, kind], ?_⟩ (by simp)
    intro other value' same
    cases kind.symm.trans same
    exact ⟨rfl, exists_text_of_hasText filled⟩
  · exact flat x inner

end Flat

section Tree

variable {style : Style}

/-- A leaf that stays as it is. -/
private theorem leaf_isFlat {c : Css} (source : c.Everywhere IsSource) (leaf : c.isLeaf = true)
    (extend : ∀ selector, c.kind ≠ .extend selector) : c.Everywhere (IsFlat style) := by
  have empty := source.here.leaf leaf
  refine .intro ?_ (by simp [empty])
  apply isFlat_of_kind _ _ _ extend
  all_goals
    obtain ⟨kind, children, line, filename, tabs, groupEnd⟩ := c
    cases kind <;> simp [isLeaf, isRule, isMedia, isProperty] at *

mutual

/-- Flattening a node gives flat nodes, in every context. -/
theorem node_isFlat (context : Flatten.Context) :
    ∀ (c : Css) {state final : Flatten.State} {out : List Css}, c.Everywhere IsSource →
      Flatten.node style context c state = .ok (out, final) →
      ∀ x ∈ out, x.Everywhere (IsFlat style)
  | ⟨.rule selector, children, line, filename, tabs, groupEnd⟩, _, _, _, source, ok => by
    obtain ⟨resolved, below, _, inner, rfl⟩ := Flatten.node_rule_ok ok
    exact assembleRule_isFlat rfl (nodes_isFlat _ children source.inner inner)
  | ⟨.media query, children, line, filename, tabs, groupEnd⟩, _, _, _, source, ok => by
    cases inRule : context.isRule with
    | true =>
      -- the copy of the rule is put together as any rule, then the query around it
      obtain ⟨selector, ruleLine, ruleFilename, ruleTabs, rfl⟩ := Flatten.exists_of_isRule inRule
      obtain ⟨below, inner, rfl⟩ := Flatten.node_media_in_rule_ok ok
      have flat := nodes_isFlat _ children source.inner inner
      exact assembleMedia_isFlat rfl (setGroupEnd_isFlat false (assembleRule_isFlat rfl flat))
    | false =>
      obtain ⟨below, inner, rfl⟩ := Flatten.node_media_ok inRule ok
      exact assembleMedia_isFlat rfl (nodes_isFlat _ children source.inner inner)
  | ⟨.property name value, children, line, filename, tabs, groupEnd⟩, _, _, _, source, ok => by
    obtain ⟨below, inner, assembled⟩ := Flatten.node_property_ok ok
    exact assembleProperty_isFlat (Flatten.joinName_kind style context _ name rfl) assembled
      (nodes_isFlat _ children source.inner inner)
  | ⟨.directive name params hasBlock, children, line, filename, tabs, groupEnd⟩, _, _, _, source,
      ok => by
    obtain ⟨below, inner, rfl⟩ := Flatten.node_directive_ok ok
    intro x member
    rw [List.mem_singleton] at member
    subst member
    exact .intro (isFlat_of_kind rfl rfl rfl (by simp)) (nodes_isFlat _ children source.inner inner)
  | ⟨.extend selector, children, line, filename, tabs, groupEnd⟩, _, _, _, _, ok => by
    rw [(Flatten.node_extend_ok ok).1]
    simp
  | ⟨.charset name, children, line, filename, tabs, groupEnd⟩, _, _, _, source, ok => by
    rcases Flatten.node_charset_ok ok with rfl | rfl
    · simp
    · simpa using leaf_isFlat source rfl (by simp)
  | ⟨.comment text preserved, children, line, filename, tabs, groupEnd⟩, _, _, _, source, ok => by
    rw [(Flatten.pure_ok ok).1]
    simpa using leaf_isFlat source rfl (by simp)
  | ⟨.importing uri, children, line, filename, tabs, groupEnd⟩, _, _, _, source, ok => by
    rw [(Flatten.pure_ok ok).1]
    simpa using leaf_isFlat source rfl (by simp)
  | ⟨.root, children, line, filename, tabs, groupEnd⟩, _, _, _, source, _ =>
    absurd rfl source.here.notRoot

theorem nodes_isFlat (context : Flatten.Context) :
    ∀ (children : List Css) {state final : Flatten.State} {out : List Css},
      (∀ c ∈ children, c.Everywhere IsSource) →
      Flatten.nodes style context children state = .ok (out, final) →
      ∀ x ∈ out, x.Everywhere (IsFlat style)
  | [], _, _, _, _, ok => by
    obtain ⟨rfl, _⟩ := Flatten.nodes_nil_ok ok
    simp
  | c :: rest, _, _, _, source, ok => by
    obtain ⟨first, others, middle, head, tail, rfl⟩ := Flatten.nodes_cons_ok ok
    have here := node_isFlat context c (source c (List.mem_cons_self ..)) head
    have later := nodes_isFlat context rest
      (fun d member => source d (List.mem_cons_of_mem _ member)) tail
    intro x member
    rcases List.mem_append.mp member with early | late
    · exact here x early
    · exact later x late

end

end Tree

/-- A flat tree has the shape that printing relies on, whatever the source and the style. -/
theorem flatten_isFlat {root flat : Css} {style : Style} {extensions : Extensions}
    (isRoot : root.kind = .root) (source : ∀ c ∈ root.children, c.Everywhere IsSource)
    (ok : root.flatten style = .ok (flat, extensions)) : flat.Everywhere (IsFlat style) := by
  obtain ⟨children, final, found, rfl⟩ := flatten_ok ok
  refine .intro ?_ (nodes_isFlat .root root.children source found)
  apply isFlat_of_kind
  all_goals simp [node, isRule, isMedia, isProperty, isRoot]

/-- Rules, queries and properties in one another, with a rule that only extends. -/
def shapeSample : Css :=
  let named := fun name => [[.compound (.mk none [.className name])]]
  let property := fun name value children => node (.property name value) children 1 none
  node .root [
    node (.rule (named "a")) [
      node (.comment "/* kept */" false) [] 1 none,
      property "font" none [property "size" (some (.unquoted "small")) []],
      node (.media "print") [
        node (.rule (named "b")) [property "left" (some (.unquoted "auto")) []] 1 none,
        node (.media "(color)") [property "top" (some (.unquoted "auto")) []] 1 none] 1 none] 1 none,
    node (.rule (named "c")) [node (.extend (named "a")) [] 1 none] 1 none] 1 none

theorem flatten_isFlat_of_sample :
    shapeSample.kind = .root ∧ (∀ c ∈ shapeSample.children, c.Everywhere IsSource) ∧
      ∃ flat extensions, shapeSample.flatten .compressed = .ok (flat, extensions) ∧
        flat.Everywhere (IsFlat .compressed) := by
  have source : ∀ c ∈ shapeSample.children, c.Everywhere IsSource := by
    simp [shapeSample, node, everywhere_mk, isSource_iff, isLeaf]
  have succeeds : (shapeSample.flatten .compressed).isOk = true := by decide +kernel
  obtain ⟨⟨flat, extensions⟩, ok⟩ := exists_of_isOk succeeds
  exact ⟨rfl, source, flat, extensions, ok, flatten_isFlat rfl source ok⟩

end Stylesheet.Css
