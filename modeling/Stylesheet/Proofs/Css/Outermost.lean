import Stylesheet.Proofs.Css.Shape

/-! What stands outside of all blocks only: character sets, and imports that are left to the browser.
Flattening brings none of them into a block, and leaves one character set at most. -/

namespace Stylesheet.Css

/-- What stands outside of all blocks only. -/
def isOutermost (c : Css) : Bool :=
  match c.kind with
  | .charset _ | .importing _ => true
  | _ => false

def isCharset (c : Css) : Bool :=
  match c.kind with
  | .charset _ => true
  | _ => false

theorem isOutermost_of_isCharset {c : Css} (isCharset : c.isCharset = true) :
    c.isOutermost = true := by
  obtain ⟨kind, children, line, filename, tabs, groupEnd⟩ := c
  cases kind with
  | charset name => rfl
  | _ => cases isCharset

/-- A node as it may stand in another one. -/
structure IsInner (c : Css) : Prop where
  inside : c.isOutermost = false
  leaf : c.isLeaf = true → c.children = []

/-- A node as it may stand outside of all blocks. -/
structure IsTop (c : Css) : Prop where
  leaf : c.isLeaf = true → c.children = []
  inner : ∀ d ∈ c.children, d.Everywhere IsInner

theorem Everywhere.isTop {c : Css} (inner : c.Everywhere IsInner) : c.IsTop :=
  ⟨inner.here.leaf, inner.inner⟩

theorem IsTop.isInner {c : Css} (top : c.IsTop) (inside : c.isOutermost = false) :
    c.Everywhere IsInner :=
  .intro ⟨inside, top.leaf⟩ top.inner

/-- Among some nodes a character set is declared once, and not at all if one has been seen. -/
def DeclaresOnce : Bool → List Css → Prop
  | _, [] => True
  | seen, c :: rest => (c.isCharset = true → seen = false) ∧ DeclaresOnce (seen || c.isCharset) rest

theorem declaresOnce_append {seen : Bool} {first others : List Css}
    (early : DeclaresOnce seen first) (late : DeclaresOnce (seen || first.any isCharset) others) :
    DeclaresOnce seen (first ++ others) := by
  induction first generalizing seen with
  | nil => simpa using late
  | cons c rest ih =>
    refine ⟨early.1, ih early.2 ?_⟩
    rwa [Bool.or_assoc]

theorem declaresOnce_of_none {seen : Bool} {found : List Css} (none : found.any isCharset = false) :
    DeclaresOnce seen found := by
  induction found generalizing seen with
  | nil => trivial
  | cons c rest ih =>
    obtain ⟨here, behind⟩ := Bool.or_eq_false_iff.mp none
    exact ⟨fun isCharset => absurd isCharset (by simp [here]), ih behind⟩

theorem declaresOnce_map {f : Css → Css} (same : ∀ c, (f c).isCharset = c.isCharset) {seen : Bool}
    {found : List Css} : DeclaresOnce seen (found.map f) ↔ DeclaresOnce seen found := by
  induction found generalizing seen with
  | nil => rfl
  | cons c rest ih => rw [List.map_cons, DeclaresOnce, DeclaresOnce, same, ih]

section Assembled

variable {style : Style} {below out : List Css}

theorem Everywhere.isInner_layout {c : Css} (inner : c.Everywhere IsInner) (tabs : Nat)
    (groupEnd : Bool) : Everywhere IsInner { c with tabs, groupEnd } :=
  .intro ⟨inner.here.inside, inner.here.leaf⟩ inner.inner

/-- A rule, a query or a property, with nodes below it that may stand there. -/
theorem isInner_of_holds {c : Css} (holds : (c.isRule || c.isMedia || c.isProperty) = true)
    (inner : ∀ d ∈ c.children, d.Everywhere IsInner) : c.Everywhere IsInner := by
  obtain ⟨kind, children, line, filename, tabs, groupEnd⟩ := c
  refine .intro ?_ inner
  cases kind with
  | rule | media | property => exact ⟨rfl, nofun⟩
  | _ => cases holds

theorem assembleRule_isInner {rule : Css} {outermost : Bool} (isRule : rule.isRule = true)
    (inner : ∀ c ∈ below, c.Everywhere IsInner) :
    ∀ x ∈ Flatten.assembleRule style rule outermost below, x.Everywhere IsInner := by
  intro x member
  rcases Flatten.mem_assembleRule member with ⟨_, groupEnd, rfl⟩ | ⟨y, source, _, tabs, groupEnd, rfl⟩
  · refine isInner_of_holds ?_ fun c own => inner c (List.mem_filter.mp own).1
    change (rule.isRule || rule.isMedia || rule.isProperty) = true
    rw [isRule, Bool.true_or, Bool.true_or]
  · exact (inner y source).isInner_layout tabs groupEnd

theorem assembleMedia_isInner {media : Css} {query : String} (isMedia : media.isMedia = true)
    (inner : ∀ c ∈ below, c.Everywhere IsInner) :
    ∀ x ∈ Flatten.assembleMedia media query below, x.Everywhere IsInner := by
  intro x member
  rcases Flatten.mem_assembleMedia member with ⟨_, rfl⟩ | ⟨y, source, _, _, rfl⟩
  · refine isInner_of_holds ?_ fun c own => inner c (List.mem_filter.mp own).1
    change (media.isRule || media.isMedia || media.isProperty) = true
    rw [isMedia, Bool.or_true, Bool.true_or]
  · exact isInner_of_holds rfl (inner y source).inner

theorem setGroupEnd_isInner {found : List Css} (value : Bool)
    (inner : ∀ c ∈ found, c.Everywhere IsInner) :
    ∀ x ∈ Flatten.setGroupEnd value found, x.Everywhere IsInner := by
  intro x member
  obtain ⟨y, source, groupEnd, rfl⟩ := Flatten.mem_setGroupEnd member
  exact (inner y source).isInner_layout y.tabs groupEnd

theorem assembleProperty_isInner {c : Css} {name : String} {value : Option Value} {hasValue : Bool}
    (kind : c.kind = .property name value)
    (assembled : Flatten.assembleProperty c name hasValue below = .ok out)
    (inner : ∀ c ∈ below, c.Everywhere IsInner) : ∀ x ∈ out, x.Everywhere IsInner := by
  intro x member
  rcases Flatten.mem_assembleProperty assembled member with ⟨_, rfl⟩ | source
  · exact isInner_of_holds (by simp [isProperty, kind]) (by simp)
  · exact inner x source

end Assembled

section Tree

variable {style : Style}

mutual

/-- Flattening a node that may stand in another one gives such nodes, and no character set is seen. -/
theorem node_isInner (context : Flatten.Context) :
    ∀ (c : Css) {state final : Flatten.State} {out : List Css}, c.Everywhere IsInner →
      Flatten.node style context c state = .ok (out, final) →
      (∀ x ∈ out, x.Everywhere IsInner) ∧ final.charsetSeen = state.charsetSeen
  | ⟨.rule selector, children, line, filename, tabs, groupEnd⟩, _, _, _, inner, ok => by
    obtain ⟨resolved, below, _, found, rfl⟩ := Flatten.node_rule_ok ok
    obtain ⟨held, same⟩ := nodes_isInner _ children inner.inner found
    exact ⟨assembleRule_isInner rfl held, same⟩
  | ⟨.media query, children, line, filename, tabs, groupEnd⟩, _, _, _, inner, ok => by
    cases inRule : context.isRule with
    | true =>
      obtain ⟨selector, ruleLine, ruleFilename, ruleTabs, rfl⟩ := Flatten.exists_of_isRule inRule
      obtain ⟨below, found, rfl⟩ := Flatten.node_media_in_rule_ok ok
      obtain ⟨held, same⟩ := nodes_isInner _ children inner.inner found
      exact ⟨assembleMedia_isInner rfl (setGroupEnd_isInner false (assembleRule_isInner rfl held)),
        same⟩
    | false =>
      obtain ⟨below, found, rfl⟩ := Flatten.node_media_ok inRule ok
      obtain ⟨held, same⟩ := nodes_isInner _ children inner.inner found
      exact ⟨assembleMedia_isInner rfl held, same⟩
  | ⟨.property name value, children, line, filename, tabs, groupEnd⟩, _, _, _, inner, ok => by
    obtain ⟨below, found, assembled⟩ := Flatten.node_property_ok ok
    obtain ⟨held, same⟩ := nodes_isInner _ children inner.inner found
    exact ⟨assembleProperty_isInner (Flatten.joinName_kind style context _ name rfl) assembled held,
      same⟩
  | ⟨.directive name params hasBlock, children, line, filename, tabs, groupEnd⟩, _, _, _, inner,
      ok => by
    obtain ⟨below, found, rfl⟩ := Flatten.node_directive_ok ok
    obtain ⟨held, same⟩ := nodes_isInner _ children inner.inner found
    refine ⟨fun x member => ?_, same⟩
    rw [List.mem_singleton.mp member]
    exact .intro ⟨rfl, nofun⟩ held
  | ⟨.extend selector, children, line, filename, tabs, groupEnd⟩, _, _, _, _, ok => by
    obtain ⟨rfl, same⟩ := Flatten.node_extend_ok ok
    exact ⟨List.forall_mem_nil _, same⟩
  | ⟨.charset name, children, line, filename, tabs, groupEnd⟩, _, _, _, inner, _ =>
    nomatch inner.here.inside
  | ⟨.importing uri, children, line, filename, tabs, groupEnd⟩, _, _, _, inner, _ =>
    nomatch inner.here.inside
  | ⟨.comment text preserved, children, line, filename, tabs, groupEnd⟩, _, _, _, inner, ok
  | ⟨.root, children, line, filename, tabs, groupEnd⟩, _, _, _, inner, ok => by
    obtain ⟨rfl, rfl⟩ := Flatten.pure_ok ok
    exact ⟨by simpa using inner, rfl⟩

theorem nodes_isInner (context : Flatten.Context) :
    ∀ (children : List Css) {state final : Flatten.State} {out : List Css},
      (∀ c ∈ children, c.Everywhere IsInner) →
      Flatten.nodes style context children state = .ok (out, final) →
      (∀ x ∈ out, x.Everywhere IsInner) ∧ final.charsetSeen = state.charsetSeen
  | [], _, _, _, _, ok => by
    obtain ⟨rfl, rfl⟩ := Flatten.nodes_nil_ok ok
    exact ⟨List.forall_mem_nil _, rfl⟩
  | c :: rest, _, _, _, inner, ok => by
    obtain ⟨first, others, middle, head, tail, rfl⟩ := Flatten.nodes_cons_ok ok
    obtain ⟨here, same⟩ := node_isInner context c (inner c List.mem_cons_self) head
    obtain ⟨later, same'⟩ := nodes_isInner context rest
      (fun d member => inner d (List.mem_cons_of_mem c member)) tail
    exact ⟨List.forall_mem_append.mpr ⟨here, later⟩, same'.trans same⟩

end

/-- Outside of all blocks a node gives such nodes, and a character set if none has been seen. -/
theorem node_isTop {c : Css} {state final : Flatten.State} {out : List Css} (top : c.IsTop)
    (ok : Flatten.node style .root c state = .ok (out, final)) :
    (∀ x ∈ out, x.IsTop) ∧ DeclaresOnce state.charsetSeen out ∧
      final.charsetSeen = (state.charsetSeen || out.any isCharset) := by
  cases inside : c.isOutermost with
  | false =>
    obtain ⟨inner, same⟩ := node_isInner .root c (top.isInner inside) ok
    have none : out.any isCharset = false := by
      refine List.any_eq_false.mpr fun x member isCharset => ?_
      have outer := isOutermost_of_isCharset isCharset
      rw [(inner x member).here.inside] at outer
      cases outer
    refine ⟨fun x member => (inner x member).isTop, declaresOnce_of_none none, ?_⟩
    rw [none, Bool.or_false, same]
  | true =>
    obtain ⟨kind, children, line, filename, tabs, groupEnd⟩ := c
    cases kind with
    | charset name =>
      rcases Flatten.node_charset_cases ok with ⟨seen, rfl, rfl⟩ | ⟨fresh, rfl, rfl⟩
      · exact ⟨List.forall_mem_nil _, trivial, (Bool.or_false _).symm⟩
      · refine ⟨by simpa using top, ⟨fun _ => fresh, trivial⟩, ?_⟩
        simp [isCharset]
    | importing uri =>
      obtain ⟨rfl, rfl⟩ := Flatten.pure_ok ok
      refine ⟨by simpa using top, declaresOnce_of_none rfl, ?_⟩
      simp [isCharset]
    | _ => cases inside

theorem nodes_isTop {found out : List Css} {state final : Flatten.State}
    (top : ∀ c ∈ found, c.IsTop) (ok : Flatten.nodes style .root found state = .ok (out, final)) :
    (∀ x ∈ out, x.IsTop) ∧ DeclaresOnce state.charsetSeen out := by
  induction found generalizing state out with
  | nil =>
    obtain ⟨rfl, _⟩ := Flatten.nodes_nil_ok ok
    exact ⟨List.forall_mem_nil _, trivial⟩
  | cons c rest ih =>
    obtain ⟨first, others, middle, head, tail, rfl⟩ := Flatten.nodes_cons_ok ok
    obtain ⟨here, once, seen⟩ := node_isTop (top c List.mem_cons_self) head
    obtain ⟨later, again⟩ := ih (fun d member => top d (List.mem_cons_of_mem c member)) tail
    rw [seen] at again
    exact ⟨List.forall_mem_append.mpr ⟨here, later⟩, declaresOnce_append once again⟩

end Tree

end Stylesheet.Css
