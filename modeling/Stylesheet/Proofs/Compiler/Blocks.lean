import Stylesheet.Compiler
import Stylesheet.Proofs.Css.Flattening
import Stylesheet.Proofs.Evaluation.Given

/-! Declarations stand in blocks. A compiled stylesheet has no declaration outside of all rules,
queries and directives, unless a mixin with a property at its top is included there: bodies of
mixins are checked where they are written, and not again where they are included. -/

namespace Stylesheet

namespace Css

/-- Something with a block that keeps declarations together. -/
def isBlock (c : Css) : Bool :=
  match c.kind with
  | .rule _ | .media _ | .directive _ _ _ => true
  | _ => false

/-- There is no declaration outside of a block in a node. -/
def IsContained (c : Css) : Prop :=
  c.isBlock = true ∨ (c.isProperty = false ∧ c.children = [])

/-- A whole tree without a declaration outside of a block. -/
structure IsContainedTree (root : Css) : Prop where
  isRoot : root.kind = .root
  top : ∀ c ∈ root.children, c.IsContained

/-- A node stands in another one, with no block around it there. -/
inductive Exposes : Css → Css → Prop where
  | self : Exposes c c
  | inner (isOpen : c.isBlock = false) (member : d ∈ c.children) (deeper : Exposes d x) :
      Exposes c x

theorem IsContained.not_property {c x : Css} (contained : c.IsContained) (exposes : c.Exposes x) :
    x.isProperty = false := by
  cases exposes with
  | self =>
    rcases contained with isBlock | alone
    · obtain ⟨kind, children, line, filename, tabs, groupEnd⟩ := c
      cases kind with
      | property => cases isBlock
      | _ => rfl
    · exact alone.1
  | inner isOpen member deeper =>
    rcases contained with isBlock | alone
    · rw [isOpen] at isBlock
      cases isBlock
    · rw [alone.2] at member
      cases member

theorem isBlock_of_moves {c : Css} (moves : (c.isRule || c.isMedia) = true) : c.isBlock = true := by
  obtain ⟨kind, children, line, filename, tabs, groupEnd⟩ := c
  cases kind with
  | rule => rfl
  | media => rfl
  | _ => cases moves

section Flatten

variable {style : Style} {state final : Flatten.State} {out : List Css}

/-- Outside of all blocks, flattening gives no declaration for a node that is none. -/
theorem node_isContained {c : Css} (contained : c.IsContained)
    (ok : Flatten.node style .root c state = .ok (out, final)) : ∀ x ∈ out, x.IsContained := by
  obtain ⟨kind, children, line, filename, tabs, groupEnd⟩ := c
  cases kind with
  | rule selector =>
    obtain ⟨resolved, below, _, _, rfl⟩ := Flatten.node_rule_ok ok
    intro x member
    rcases Flatten.mem_assembleRule member with ⟨_, groupEnd, rfl⟩ | ⟨y, _, moves, tabs, groupEnd, rfl⟩
    · exact .inl rfl
    · exact .inl (isBlock_of_moves moves)
  | media query =>
    obtain ⟨below, _, rfl⟩ := Flatten.node_media_ok rfl ok
    intro x member
    rcases Flatten.mem_assembleMedia member with ⟨_, rfl⟩ | ⟨y, _, inner, _, rfl⟩
    · exact .inl rfl
    · exact .inl rfl
  | directive name params hasBlock =>
    obtain ⟨below, _, rfl⟩ := Flatten.node_directive_ok ok
    intro x member
    rw [List.mem_singleton.mp member]
    exact .inl rfl
  | property name value =>
    rcases contained with isBlock | alone
    · cases isBlock
    · cases alone.1
  | extend selector =>
    rw [(Flatten.node_extend_ok ok).1]
    simp
  | charset name =>
    rcases Flatten.node_charset_ok ok with rfl | rfl
    · simp
    · simpa using contained
  | _ =>
    obtain ⟨rfl, -⟩ := Flatten.pure_ok ok
    simpa using contained

theorem nodes_isContained {found : List Css} (contained : ∀ c ∈ found, c.IsContained)
    (ok : Flatten.nodes style .root found state = .ok (out, final)) : ∀ x ∈ out, x.IsContained := by
  induction found generalizing state out with
  | nil =>
    obtain ⟨rfl, -⟩ := Flatten.nodes_nil_ok ok
    simp
  | cons c rest ih =>
    obtain ⟨first, others, middle, head, tail, rfl⟩ := Flatten.nodes_cons_ok ok
    intro x member
    rcases List.mem_append.mp member with early | late
    · exact node_isContained (contained c List.mem_cons_self) head x early
    · exact ih (fun d member => contained d (List.mem_cons_of_mem c member)) tail x late

end Flatten

theorem extendAll_eq_map (map : ExtendMap) (found : List Css) :
    extendAll map found = found.map (extendSelectors map) := by
  induction found with
  | nil => rfl
  | cons c rest ih => simp [extendAll, ih]

theorem children_extendSelectors (map : ExtendMap) (c : Css) :
    (c.extendSelectors map).children = c.children.map (extendSelectors map) := by
  rw [← extendAll_eq_map]
  fun_cases extendSelectors map c <;> rfl

theorem isBlock_extendSelectors (map : ExtendMap) (c : Css) :
    (c.extendSelectors map).isBlock = c.isBlock := by
  fun_cases extendSelectors map c <;> rfl

theorem isProperty_extendSelectors (map : ExtendMap) (c : Css) :
    (c.extendSelectors map).isProperty = c.isProperty := by
  fun_cases extendSelectors map c <;> rfl

theorem IsContained.extendSelectors {c : Css} (contained : c.IsContained) (map : ExtendMap) :
    (c.extendSelectors map).IsContained := by
  unfold IsContained
  rw [isBlock_extendSelectors, isProperty_extendSelectors, children_extendSelectors]
  rcases contained with isBlock | ⟨notProperty, empty⟩
  · exact .inl isBlock
  · exact .inr ⟨notProperty, by rw [empty]; rfl⟩

theorem IsContainedTree.not_property {root x : Css} (contained : root.IsContainedTree)
    (exposes : root.Exposes x) : x.isProperty = false := by
  cases exposes with
  | self => simp [isProperty, contained.isRoot]
  | inner _ member deeper => exact (contained.top _ member).not_property deeper

theorem IsContainedTree.flatten {root flat : Css} {style : Style} {extensions : Extensions}
    (contained : root.IsContainedTree) (ok : root.flatten style = .ok (flat, extensions)) :
    flat.IsContainedTree := by
  obtain ⟨children, final, found, rfl⟩ := flatten_ok ok
  exact ⟨contained.isRoot, nodes_isContained contained.top found⟩

theorem IsContainedTree.extended {root : Css} (contained : root.IsContainedTree)
    (extensions : Extensions) : (extensions.apply root).1.IsContainedTree := by
  unfold Extensions.apply
  split
  · exact contained
  · constructor
    · obtain ⟨kind, children, line, filename, tabs, groupEnd⟩ := root
      cases contained.isRoot
      rfl
    · intro c member
      rw [children_extendSelectors] at member
      obtain ⟨d, isChild, rfl⟩ := List.mem_map.mp member
      exact (contained.top d isChild).extendSelectors extensions.map

end Css

namespace Evaluation

open Nesting Statement

/-- No property comes from a mixin to a place outside of all blocks. -/
def Contained (context : Context) (entry : List Statement) : Prop :=
  ∀ s name value, Outside context entry .mixin s → s.kind ≠ .property name value

section Statements

variable {context : Context} {entry : List Statement} {parent checked direct : Enclosure}

/-- A property cannot come to stand outside of all blocks, unless it comes from a mixin. -/
theorem Allowed.property_inside (contained : Contained context entry) {s : Statement}
    (allowed : Allowed context entry parent checked direct s) {name : Template}
    {value : Option Expr} (kind : s.kind = .property name value) : parent ≠ .root := by
  rintro rfl
  have here := allowed.fits.here
  rw [kind] at here
  -- only the check of a mixin accepts it without a block around
  rcases allowed.place with rfl | rfl | rfl
  · simp [violation?] at here
  · exact contained s name value (allowed.outside rfl (by simp)) kind
  · simp [violation?, isFunctionStatement] at here

/-- Where nothing but the root is around, no declaration is given outside of a block. -/
theorem isGiven_isContained (contained : Contained context entry) :
    IsGiven context entry fun parent _ c => parent = .root → c.IsContained where
  made := by
    rintro parent checked direct s c allowed makes _ rfl
    generalize kind : s.kind = statement at makes
    cases makes with
    | property => exact absurd rfl (allowed.property_inside contained kind)
    | rule | directive | media => exact .inl rfl
    | comment | charset | importing | extend => exact .inr ⟨rfl, rfl⟩
  included := fun _ _ inner => inner
  imported := fun _ _ inner => inner

/-- A stylesheet that was checked gives a tree without a declaration outside of all blocks. -/
theorem stylesheet_isContained {root : Statement} {tree : Css} {state final : State}
    (contained : Contained context root.children) (parsed : AllParsed root.children)
    (accepted : Nesting.check root = .ok ()) (fresh : state.env = .initial)
    (atRoot : state.parent = .root)
    (ok : stylesheet root context state = .ok tree final) : tree.IsContainedTree := by
  obtain ⟨isRoot, nodes⟩ :=
    stylesheet_given (isGiven_isContained contained) parsed accepted fresh atRoot ok
  exact ⟨isRoot, fun c member => nodes c member rfl⟩

end Statements

end Evaluation

namespace Compilation

open Evaluation

/-- What a compilation that succeeds has done. -/
theorem run_ok {context : Context} {source : String} {entry : Option SourceId}
    {compiled : Compiled} (ok : (run context source entry).1 = .ok compiled) :
    ∃ root tree state flat extensions,
      Statement.parse source context.options.dialect context.options.filename = .ok root ∧
      Nesting.check root = .ok () ∧
      Evaluation.stylesheet root context (start context.options source entry) = .ok tree state ∧
      tree.flatten context.options.style = .ok (flat, extensions) ∧
      compiled.tree = (extensions.apply flat).1 := by
  unfold run at ok
  dsimp only at ok
  cases parsed : Statement.parse source context.options.dialect context.options.filename with
  | error error => simp [parsed] at ok
  | ok root =>
    cases checked : Nesting.check root with
    | error errors => simp [parsed, checked] at ok
    | ok _ =>
      cases evaluated : Evaluation.stylesheet root context (start context.options source entry) with
      | error error state => simp [parsed, checked, evaluated] at ok
      | ok tree state =>
        cases flattened : tree.flatten context.options.style with
        | error error => simp [parsed, checked, evaluated, flattened] at ok
        | ok pair =>
          simp only [parsed, checked, evaluated, flattened, Except.ok.injEq] at ok
          subst ok
          exact ⟨root, tree, state, pair.1, pair.2, rfl, checked, evaluated, flattened, rfl⟩

end Compilation

namespace Compiler

open Evaluation

/-- What the evaluation of a text sees. -/
def context (compiler : Compiler) (workspace : Workspace) : Context :=
  ⟨compiler.options, workspace.files, compiler.allImporters⟩

theorem run_compileTree (compiler : Compiler) (source : String) (workspace : Workspace) :
    ((compiler.compileTree source).run workspace).1 =
      (Compilation.run (compiler.context workspace) source none).1.map (·.tree) :=
  rfl

/-- No mixin brings a property outside of all blocks of a text. -/
def SplicesNoProperty (compiler : Compiler) (workspace : Workspace) (source : String) : Prop :=
  ∀ root, Statement.parse source compiler.options.dialect compiler.options.filename = .ok root →
    Contained (compiler.context workspace) root.children

/-- A compiled stylesheet is a root, below which every declaration stands in a block. -/
theorem declarations_stand_in_blocks {compiler : Compiler} {workspace : Workspace}
    {source : String} {tree : Css}
    (compiled : ((compiler.compileTree source).run workspace).1 = .ok tree)
    (spliced : compiler.SplicesNoProperty workspace source) :
    tree.kind = .root ∧ ∀ x, tree.Exposes x → x.isProperty = false := by
  have result := (run_compileTree compiler source workspace).symm.trans compiled
  cases ran : (Compilation.run (compiler.context workspace) source none).1 with
  | error error => simp [ran, Except.map] at result
  | ok found =>
    obtain ⟨root, nested, state, flat, extensions, parsed, checked, evaluated, flattened, same⟩ :=
      Compilation.run_ok ran
    have contained : nested.IsContainedTree :=
      stylesheet_isContained (spliced root parsed) (Statement.parse_allParsed parsed) checked rfl
        rfl evaluated
    have extended := (contained.flatten flattened).extended extensions
    have isTree : tree = (extensions.apply flat).1 := by
      rw [ran] at result
      cases result
      exact same
    rw [isTree]
    exact ⟨extended.isRoot, fun x exposes => extended.not_property exposes⟩

/-- A statement that outside of all blocks brings nothing there but the bodies of some mixins. -/
def bringsOnly (names : List String) (s : Statement) : Bool :=
  match s.kind with
  | .includeMixin name _ => names.contains (Text.normalizeName name)
  | kind => Enclosure.ofKind kind != .control && Enclosure.ofKind kind != .importing

/-- A statement at the top of a mixin that is included outside of all blocks. -/
def isHarmless (names : List String) (s : Statement) : Bool :=
  bringsOnly names s && Enclosure.ofKind s.kind != .property

/-- Only some mixins are included outside of all blocks, and there is no property at the top of
one of these. -/
def splicesOnly (names : List String) (entry : List Statement) : Bool :=
  entry.all fun s => bringsOnly names s &&
    match s.kind with
    | .defineMixin name _ =>
      !names.contains (Text.normalizeName name) || s.children.all (isHarmless names)
    | _ => true

theorem not_control_of_bringsOnly {names : List String} {s : Statement}
    (only : bringsOnly names s = true) : Enclosure.ofKind s.kind ≠ .control := by
  unfold bringsOnly at only
  split at only
  · rename_i kind
    simp [kind, Enclosure.ofKind]
  · simp only [Bool.and_eq_true, bne_iff_ne] at only
    exact only.1

/-- The check follows all ways by which a statement may come outside of all blocks. -/
theorem contained_of_splicesOnly {context : Context} {names : List String}
    {entry : List Statement} (only : splicesOnly names entry = true) : Contained context entry := by
  have listed : ∀ s ∈ entry, bringsOnly names s = true := by
    intro s member
    exact (Bool.and_eq_true_iff.mp (List.all_eq_true.mp only s member)).1
  have body : ∀ d ∈ entry, ∀ name params, d.kind = .defineMixin name params →
      Text.normalizeName name ∈ names → ∀ s ∈ d.children, isHarmless names s = true := by
    intro d member name params kind isNamed s inside
    have checked := (Bool.and_eq_true_iff.mp (List.all_eq_true.mp only d member)).2
    simp only [kind, List.contains_iff_mem.mpr isNamed, Bool.not_true, Bool.false_or] at checked
    exact List.all_eq_true.mp checked s inside
  have reaches : ∀ checked s, Outside context entry checked s →
      bringsOnly names s = true ∧ (checked = .root → s ∈ entry) ∧
        (checked = .mixin → isHarmless names s = true) := by
    intro checked s outside
    induction outside with
    | top member => exact ⟨listed _ member, fun _ => member, nofun⟩
    | imported outside kind brings member ih =>
      have refused := ih.1
      simp [bringsOnly, kind, Enclosure.ofKind] at refused
    | controlled outside control member ih =>
      exact absurd control (not_control_of_bringsOnly ih.1)
    | otherwise outside kind ih =>
      have notControl := not_control_of_bringsOnly ih.1
      simp [kind, Enclosure.ofKind] at notControl
    | included outside kind definition defines same member ih ihDefinition =>
      have isNamed := ih.1
      simp only [bringsOnly, kind, same] at isNamed
      have harmless := body _ (ihDefinition.2.1 rfl) _ _ defines (List.contains_iff_mem.mp isNamed)
        _ member
      exact ⟨(Bool.and_eq_true_iff.mp harmless).1, nofun, fun _ => harmless⟩
  intro s name value outside kind
  have harmless := (reaches .mixin s outside).2.2 rfl
  simp [isHarmless, kind, Enclosure.ofKind] at harmless

/-- A compiler of the dialect with braces that finds no imports. -/
def braces : Compiler := ⟨{ Options.default with dialect := .scss }, []⟩

def noFiles : Workspace := ⟨.empty, [], [], [], 0⟩

/-- A mixin that brings a rule outside of all blocks, and one that brings a property into it. -/
def wrappedSource : String :=
  "@mixin inner { a: b; }\n@mixin outer { .x { @include inner; } }\n@include outer;"

theorem declarations_stand_in_blocks_of_wrapped :
    braces.SplicesNoProperty noFiles wrappedSource ∧
      ∃ tree, ((braces.compileTree wrappedSource).run noFiles).1 = .ok tree ∧
        tree.kind = .root ∧ ∀ x, tree.Exposes x → x.isProperty = false := by
  have spelled : wrappedSource.toList = _ := String.toList_ofList
  have spliced : braces.SplicesNoProperty noFiles wrappedSource := by
    intro root parsed
    have check : (Statement.parse wrappedSource .scss none).toOption.all
        (fun root => splicesOnly ["outer"] root.children) = true := by
      rw [Statement.parse_of_toList spelled]
      decide +kernel
    have same : Statement.parse wrappedSource .scss none = .ok root := parsed
    rw [same] at check
    exact contained_of_splicesOnly check
  have succeeds : ((braces.compileTree wrappedSource).run noFiles).1.isOk = true := by
    rw [run_compileTree, Compilation.run, Statement.parse_of_toList spelled]
    decide +kernel
  obtain ⟨tree, compiled⟩ := exists_of_isOk succeeds
  exact ⟨spliced, tree, compiled, declarations_stand_in_blocks compiled spliced⟩

/-- A mixin that brings a property outside of all blocks. -/
def splicedSource : String :=
  "@mixin m { a: b; }\n@include m;"

/-- The property passes the check of the mixin, and nothing checks it where it is included. -/
theorem declaration_outside_blocks :
    ∃ tree, ((braces.compileTree splicedSource).run noFiles).1 = .ok tree ∧
      ∃ x ∈ tree.children, x.isProperty = true := by
  have spelled : splicedSource.toList = _ := String.toList_ofList
  have found : ((braces.compileTree splicedSource).run noFiles).1.toOption.any
      (fun tree => tree.children.any Css.isProperty) = true := by
    rw [run_compileTree, Compilation.run, Statement.parse_of_toList spelled]
    decide +kernel
  cases compiled : ((braces.compileTree splicedSource).run noFiles).1 with
  | error error =>
    rw [compiled] at found
    cases found
  | ok tree =>
    rw [compiled] at found
    exact ⟨tree, rfl, List.any_eq_true.mp found⟩

end Compiler

end Stylesheet
