import Stylesheet.Proofs.Compiler.Blocks
import Stylesheet.Proofs.Css.Outermost
import Stylesheet.Proofs.Evaluation.Parts

/-! A compiled stylesheet is a flat tree, with character sets and imports at its top only. Evaluation
gives the nodes that flattening takes, and extensions change the selectors of a flat tree but not its
shape. -/

namespace Stylesheet

namespace Css

variable {style : Style}

theorem isRule_extendSelectors (map : ExtendMap) (c : Css) :
    (c.extendSelectors map).isRule = c.isRule := by
  fun_cases extendSelectors map c with
  | case1 => rfl
  | case2 => rfl

theorem isMedia_extendSelectors (map : ExtendMap) (c : Css) :
    (c.extendSelectors map).isMedia = c.isMedia := by
  fun_cases extendSelectors map c with
  | case1 => rfl
  | case2 => rfl

theorem kind_extendSelectors {map : ExtendMap} {c : Css} (other : c.isRule = false) :
    (c.extendSelectors map).kind = c.kind := by
  obtain ⟨kind, children, line, filename, tabs, groupEnd⟩ := c
  cases kind with
  | rule selector => cases other
  | _ => rfl

theorem IsFlat.extendSelectors {c : Css} (flat : IsFlat style c) (map : ExtendMap) :
    IsFlat style (c.extendSelectors map) := by
  have children := children_extendSelectors map c
  have filled : c.children ≠ [] → (c.extendSelectors map).children ≠ [] := by
    rw [children]
    exact fun filled empty => filled (List.map_eq_nil_iff.mp empty)
  have inner : ∀ {p : Css → Prop}, (∀ d, p d → p (d.extendSelectors map)) →
      (∀ d ∈ c.children, p d) → ∀ d ∈ (c.extendSelectors map).children, p d := by
    intro p kept all d member
    rw [children] at member
    obtain ⟨e, isChild, rfl⟩ := List.mem_map.mp member
    exact kept e (all e isChild)
  constructor
  · intro selector isKind
    cases isRule : c.isRule with
    | false => exact flat.notExtend selector ((kind_extendSelectors isRule).symm.trans isKind)
    | true =>
      rw [← isRule_extendSelectors map, Css.isRule, isKind] at isRule
      cases isRule
  · intro isRule
    rw [isRule_extendSelectors] at isRule
    obtain ⟨some, alone⟩ := flat.rule isRule
    exact ⟨filled some, inner (p := fun d => d.isRule = false ∧ d.isMedia = false)
      (fun d own => ⟨(isRule_extendSelectors map d).trans own.1,
        (isMedia_extendSelectors map d).trans own.2⟩) alone⟩
  · intro isMedia
    rw [isMedia_extendSelectors] at isMedia
    obtain ⟨some, alone⟩ := flat.media isMedia
    exact ⟨filled some, inner (p := fun d => d.isMedia = false)
      (fun d own => (isMedia_extendSelectors map d).trans own) alone⟩
  · intro name value isKind
    have notRule : c.isRule = false := by
      rw [← isRule_extendSelectors map, Css.isRule, isKind]
    rw [kind_extendSelectors notRule] at isKind
    obtain ⟨empty, shown⟩ := flat.property name value isKind
    exact ⟨by rw [children, empty]; rfl, shown⟩

/-- What extensions change nowhere stays true of a whole tree. -/
theorem Everywhere.extendSelectors {p : Css → Prop} {map : ExtendMap} {c : Css}
    (kept : ∀ d, p d → p (d.extendSelectors map)) (all : c.Everywhere p) :
    (c.extendSelectors map).Everywhere p := by
  induction all with
  | intro here _ ih =>
    refine .intro (kept _ here) fun d member => ?_
    rw [children_extendSelectors] at member
    obtain ⟨e, isChild, rfl⟩ := List.mem_map.mp member
    exact ih e isChild

section Outermost

variable {map : ExtendMap} {c : Css}

theorem isCharset_extendSelectors (map : ExtendMap) (c : Css) :
    (c.extendSelectors map).isCharset = c.isCharset := by
  fun_cases extendSelectors map c <;> rfl

theorem leaf_extendSelectors (leaf : c.isLeaf = true → c.children = []) :
    (c.extendSelectors map).isLeaf = true → (c.extendSelectors map).children = [] := by
  have same : (c.extendSelectors map).isLeaf = c.isLeaf := by
    fun_cases extendSelectors map c <;> rfl
  rw [same, children_extendSelectors, List.map_eq_nil_iff]
  exact leaf

theorem IsInner.extendSelectors (inner : c.IsInner) : (c.extendSelectors map).IsInner := by
  have same : (c.extendSelectors map).isOutermost = c.isOutermost := by
    fun_cases Css.extendSelectors map c <;> rfl
  exact ⟨same.trans inner.inside, leaf_extendSelectors inner.leaf⟩

theorem IsTop.extendSelectors (top : c.IsTop) : (c.extendSelectors map).IsTop := by
  refine ⟨leaf_extendSelectors top.leaf, fun d member => ?_⟩
  rw [children_extendSelectors] at member
  obtain ⟨e, isChild, rfl⟩ := List.mem_map.mp member
  exact (top.inner e isChild).extendSelectors fun _ inner => inner.extendSelectors

end Outermost

theorem kind_apply (extensions : Extensions) {root : Css} (isRoot : root.kind = .root) :
    (extensions.apply root).1.kind = .root := by
  unfold Extensions.apply
  split
  · exact isRoot
  · exact (kind_extendSelectors (by rw [isRule, isRoot])).trans isRoot

theorem children_apply (extensions : Extensions) (root : Css) :
    (extensions.apply root).1.children = root.children ∨
      (extensions.apply root).1.children = root.children.map (extendSelectors extensions.map) := by
  unfold Extensions.apply
  split
  · exact .inl rfl
  · exact .inr (children_extendSelectors extensions.map root)

/-- What extensions do not change stays true of all nodes at the top. -/
theorem forall_apply {p : Css → Prop} (extensions : Extensions) {root : Css}
    (kept : ∀ c, p c → p (c.extendSelectors extensions.map)) (all : ∀ c ∈ root.children, p c) :
    ∀ c ∈ (extensions.apply root).1.children, p c := by
  rcases children_apply extensions root with same | same
  · rw [same]
    exact all
  · rw [same]
    intro c member
    obtain ⟨d, isChild, rfl⟩ := List.mem_map.mp member
    exact kept d (all d isChild)

theorem DeclaresOnce.apply {extensions : Extensions} {root : Css} {seen : Bool}
    (once : DeclaresOnce seen root.children) :
    DeclaresOnce seen (extensions.apply root).1.children := by
  rcases children_apply extensions root with same | same
  · rwa [same]
  · rw [same]
    exact (declaresOnce_map (isCharset_extendSelectors extensions.map)).mpr once

end Css

namespace Evaluation

open Nesting Statement

variable {context : Context} {entry : List Statement}

/-- Nothing stands below a leaf, and the root stands below nothing. -/
theorem isGiven_isSource : IsGiven context entry fun _ _ c => c.Everywhere Css.IsSource where
  made := by
    intro parent checked direct s c _ makes below
    generalize s.kind = kind at makes below
    refine .intro ?_ below
    cases makes with
    | rule | property | directive | media => exact ⟨nofun, nofun⟩
    | comment | charset | importing | extend => exact ⟨nofun, fun _ => rfl⟩
  included := fun _ _ inner => inner
  imported := fun _ _ inner => inner

/-- What was checked outside of all blocks stands there. -/
theorem Allowed.isRoot {parent checked direct : Enclosure} {s : Statement}
    (allowed : Allowed context entry parent checked direct s) (isRoot : checked = .root) :
    parent = .root := by
  rcases allowed.place with same | same | same
  · exact same.symm.trans isRoot
  · cases same.symm.trans isRoot
  · cases same.symm.trans isRoot

theorem root_of_charset {checked direct : Enclosure} {name : String}
    (fits : violation? checked direct (.charset name) = none) : checked = .root := by
  cases checked with
  | root => rfl
  | _ => cases fits

theorem root_of_importing {checked direct : Enclosure} {text : Template}
    (fits : violation? checked direct (.importing (.css text)) = none) : checked = .root := by
  cases checked with
  | root => rfl
  | function | property => cases fits
  | _ =>
    unfold violation? at fits
    dsimp only at fits
    split at fits
    · cases fits
    · split at fits
      · cases fits
      · split at fits <;> cases fits

/-- Character sets, and imports that are left to the browser, are given outside of all blocks only. -/
theorem isGiven_isTop : IsGiven context entry fun parent _ c =>
    c.IsTop ∧ (c.isOutermost = true → parent = .root) where
  made := by
    intro parent checked direct s c allowed makes below
    have here := allowed.fits.here
    generalize s.kind = kind at makes below here
    have inner (notRoot : Enclosure.ofKind kind ≠ .root) : ∀ d ∈ c.children, d.Everywhere Css.IsInner := by
      intro d member
      obtain ⟨top, outermost⟩ := below d member
      refine top.isInner (Bool.eq_false_iff.mpr fun isOutermost => notRoot (outermost isOutermost))
    cases makes with
    | rule | property | directive | media => exact ⟨⟨nofun, inner nofun⟩, nofun⟩
    | comment | extend => exact ⟨⟨fun _ => rfl, inner nofun⟩, nofun⟩
    | charset =>
      exact ⟨⟨fun _ => rfl, inner nofun⟩, fun _ => allowed.isRoot (root_of_charset here)⟩
    | importing =>
      exact ⟨⟨fun _ => rfl, inner nofun⟩, fun _ => allowed.isRoot (root_of_importing here)⟩
  included := fun _ _ inner => inner
  imported := fun _ _ inner => inner

end Evaluation

namespace Compilation

open Evaluation

section Run

variable {context : Context} {source : String} {entry : Option SourceId} {compiled : Compiled}

/-- A compiled stylesheet is a root above flat nodes. -/
theorem run_isFlat (ran : (run context source entry).1 = .ok compiled) :
    compiled.tree.kind = .root ∧
      ∀ c ∈ compiled.tree.children, c.Everywhere (Css.IsFlat context.options.style) := by
  obtain ⟨root, tree, state, flat, extensions, parsed, checked, evaluated, flattened, isTree⟩ :=
    run_ok ran
  obtain ⟨isRoot, source⟩ := stylesheet_given isGiven_isSource
    (Statement.parse_allParsed parsed) checked rfl rfl evaluated
  obtain ⟨children, final, found, rfl⟩ := Css.flatten_ok flattened
  rw [isTree]
  exact ⟨Css.kind_apply extensions isRoot,
    Css.forall_apply extensions (fun _ flat => flat.extendSelectors fun _ here => here.extendSelectors _)
      (Css.nodes_isFlat .root tree.children source found)⟩

/-- Nothing in a compiled stylesheet is in a block that stands outside of all blocks only, and a
character set is declared once. -/
theorem run_isTop (ran : (run context source entry).1 = .ok compiled) :
    (∀ c ∈ compiled.tree.children, c.IsTop) ∧ Css.DeclaresOnce false compiled.tree.children := by
  obtain ⟨root, tree, state, flat, extensions, parsed, checked, evaluated, flattened, isTree⟩ :=
    run_ok ran
  obtain ⟨_, given⟩ := stylesheet_given isGiven_isTop
    (Statement.parse_allParsed parsed) checked rfl rfl evaluated
  obtain ⟨children, final, found, rfl⟩ := Css.flatten_ok flattened
  obtain ⟨top, once⟩ := Css.nodes_isTop (fun c member => (given c member).1) found
  rw [isTree]
  exact ⟨Css.forall_apply extensions (fun _ top => top.extendSelectors) top, once.apply⟩

end Run

end Compilation

end Stylesheet
