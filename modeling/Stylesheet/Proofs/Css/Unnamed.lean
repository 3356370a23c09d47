import Mathlib.Data.List.Basic
import Stylesheet.Css.Flatten
import Stylesheet.Css.Source

/-! Trees without the names of files. Flattening and extending go by everything but these names, and
no dialect writes them. -/

namespace Stylesheet

namespace Css

mutual

/-- A node and all below it, in no file. -/
def unnamed : Css → Css
  | ⟨kind, children, line, _, tabs, groupEnd⟩ =>
    ⟨kind, unnamedAll children, line, none, tabs, groupEnd⟩

def unnamedAll : List Css → List Css
  | [] => []
  | c :: rest => unnamed c :: unnamedAll rest

end

theorem unnamedAll_eq_map (nodes : List Css) : unnamedAll nodes = nodes.map unnamed := by
  induction nodes with
  | nil => rfl
  | cons c rest ih => rw [unnamedAll, ih, List.map_cons]

theorem unnamedAll_append (first second : List Css) :
    unnamedAll (first ++ second) = unnamedAll first ++ unnamedAll second := by
  simp only [unnamedAll_eq_map, List.map_append]

theorem unnamed_kind (c : Css) : c.unnamed.kind = c.kind := by
  obtain ⟨kind, children, line, filename, tabs, groupEnd⟩ := c
  rfl

theorem unnamed_line (c : Css) : c.unnamed.line = c.line := by
  obtain ⟨kind, children, line, filename, tabs, groupEnd⟩ := c
  rfl

theorem unnamed_children (c : Css) : c.unnamed.children = unnamedAll c.children := by
  obtain ⟨kind, children, line, filename, tabs, groupEnd⟩ := c
  rfl

/-- The kind of a node decides what is kept, and the kind stays. -/
theorem unnamedAll_filter {p : Css → Bool} (byKind : ∀ c d : Css, c.kind = d.kind → p c = p d)
    (nodes : List Css) : unnamedAll (nodes.filter p) = (unnamedAll nodes).filter p := by
  have same : p ∘ unnamed = p := funext fun c => byKind _ _ c.unnamed_kind
  rw [unnamedAll_eq_map, unnamedAll_eq_map, List.filter_map, same]

theorem unnamedAll_isEmpty (nodes : List Css) : (unnamedAll nodes).isEmpty = nodes.isEmpty := by
  cases nodes <;> rfl

end Css

namespace SourceText

open Css

mutual

theorem node_unnamed (dialect : Dialect) (depth : Nat) :
    (c : Css) → node dialect depth c.unnamed = node dialect depth c
  | ⟨kind, children, line, filename, tabs, groupEnd⟩ => by
    have below := nodes_unnamed dialect (depth + 1) children
    unfold unnamed node
    cases kind with
    | rule | media => simp only [below]
    | directive => simp only [below, unnamedAll_isEmpty]
    | property name value => cases value <;> rfl
    | _ => rfl

theorem nodes_unnamed (dialect : Dialect) (depth : Nat) :
    (found : List Css) → nodes dialect depth (unnamedAll found) = nodes dialect depth found
  | [] => rfl
  | c :: rest => by
    rw [unnamedAll, nodes, nodes, node_unnamed dialect depth c, nodes_unnamed dialect depth rest]

end

end SourceText

namespace Css

/-- The source of a stylesheet does not name files. -/
theorem toSource_unnamed (root : Css) (dialect : Dialect) :
    root.unnamed.toSource dialect = root.toSource dialect := by
  unfold toSource
  rw [unnamed_children, unnamedAll_eq_map, List.map_map]
  simp only [Function.comp_def, SourceText.node_unnamed]

end Css

namespace ExtendRequest

def unnamed (request : ExtendRequest) : ExtendRequest :=
  { request with filename := none }

end ExtendRequest

namespace Extensions

def unnamed (extensions : Extensions) : Extensions :=
  { extensions with requests := extensions.requests.map ExtendRequest.unnamed }

theorem unnamed_add (extensions : Extensions) (target : Compound) (extender : Chain) (line : Nat)
    (filename : Option String) :
    (extensions.add target extender line filename).unnamed =
      extensions.unnamed.add target extender line none := by
  unfold add unnamed
  dsimp only
  split
  · rfl
  · simp only [List.map_append, List.map_cons, List.map_nil]
    rfl

mutual

theorem extendSelectors_unnamed (map : ExtendMap) :
    (c : Css) → c.unnamed.extendSelectors map = (c.extendSelectors map).unnamed
  | ⟨kind, children, line, filename, tabs, groupEnd⟩ => by
    have below := extendAll_unnamed map children
    cases kind with
    | _ => simp only [Css.unnamed, Css.extendSelectors, below]

theorem extendAll_unnamed (map : ExtendMap) :
    (found : List Css) →
      Css.extendAll map (Css.unnamedAll found) = Css.unnamedAll (Css.extendAll map found)
  | [] => rfl
  | c :: rest => by
    rw [Css.unnamedAll, Css.extendAll, Css.extendAll, Css.unnamedAll, extendSelectors_unnamed map c,
      extendAll_unnamed map rest]

end

/-- Extending a tree is blind to the names of files. -/
theorem apply_unnamed (extensions : Extensions) (root : Css) :
    (extensions.unnamed.apply root.unnamed).1 = (extensions.apply root).1.unnamed := by
  unfold apply
  have same : extensions.unnamed.map = extensions.map := rfl
  rw [same]
  split
  · rfl
  · exact extendSelectors_unnamed _ root

end Extensions

namespace Flatten

open Css

def Context.unnamed : Context → Context
  | .rule selector line _ tabs => .rule selector line none tabs
  | context => context

theorem Context.unnamed_selector? (context : Context) :
    context.unnamed.selector? = context.selector? := by
  cases context <;> rfl

theorem Context.unnamed_isRule (context : Context) : context.unnamed.isRule = context.isRule := by
  cases context <;> rfl

def State.unnamed (state : State) : State :=
  { state with extensions := state.extensions.unnamed }

theorem unnamedAll_setGroupEnd (value : Bool) (nodes : List Css) :
    unnamedAll (setGroupEnd value nodes) = setGroupEnd value (unnamedAll nodes) := by
  unfold setGroupEnd
  rw [unnamedAll_eq_map nodes, List.getLast?_map]
  cases nodes.getLast? with
  | none => rfl
  | some last =>
    obtain ⟨kind, children, line, filename, tabs, groupEnd⟩ := last
    simp only [Option.map_some, unnamedAll_eq_map, List.map_append, List.map_dropLast,
      List.map_cons, List.map_nil, unnamed]

theorem unnamedAll_assembleRule (style : Style) (rule : Css) (outermost : Bool)
    (below : List Css) :
    unnamedAll (assembleRule style rule outermost below) =
      assembleRule style rule.unnamed outermost (unnamedAll below) := by
  have inner := unnamedAll_filter (p := fun c => c.isRule || c.isMedia)
    (fun c d same => by simp only [isRule, isMedia, same]) below
  have own := unnamedAll_filter
    (p := fun c => !(c.isRule || c.isMedia) && !(style.isCompressed && c.isPlainComment))
    (fun c d same => by simp only [isRule, isMedia, isPlainComment, same]) below
  have deeper : ∀ nodes : List Css,
      unnamedAll (nodes.map fun c => if style == .nested then { c with tabs := c.tabs + 1 } else c) =
        (unnamedAll nodes).map fun c =>
          if style == .nested then { c with tabs := c.tabs + 1 } else c := by
    intro nodes
    simp only [unnamedAll_eq_map, List.map_map, List.map_inj_left, Function.comp_apply]
    rintro ⟨kind, children, line, filename, tabs, groupEnd⟩ -
    split <;> rfl
  have unmarked : unnamedAll (assembleRule style rule false below) =
      assembleRule style rule.unnamed false (unnamedAll below) := by
    unfold assembleRule
    dsimp only
    rw [← own, ← inner, unnamedAll_isEmpty, if_neg Bool.false_ne_true, if_neg Bool.false_ne_true]
    split
    · rfl
    · rw [← deeper]
      obtain ⟨kind, children, line, filename, tabs, groupEnd⟩ := rule
      rfl
  cases outermost with
  | false => exact unmarked
  | true => exact (unnamedAll_setGroupEnd true _).trans (congrArg (setGroupEnd true) unmarked)

theorem unnamed_joinQuery (query : String) (c : Css) :
    (joinQuery query c).unnamed = joinQuery query c.unnamed := by
  obtain ⟨kind, children, line, filename, tabs, groupEnd⟩ := c
  cases kind <;> rfl

theorem unnamedAll_assembleMedia (media : Css) (query : String) (below : List Css) :
    unnamedAll (assembleMedia media query below) =
      assembleMedia media.unnamed query (unnamedAll below) := by
  have inner := unnamedAll_filter (p := isMedia) (fun c d same => by simp only [isMedia, same]) below
  have own := unnamedAll_filter (p := fun c => !c.isMedia)
    (fun c d same => by simp only [isMedia, same]) below
  have joined : ∀ nodes : List Css,
      unnamedAll (nodes.map (joinQuery query)) = (unnamedAll nodes).map (joinQuery query) := by
    intro nodes
    simp only [unnamedAll_eq_map, List.map_map, List.map_inj_left, Function.comp_apply]
    exact fun c _ => unnamed_joinQuery query c
  unfold assembleMedia
  dsimp only
  rw [← own, ← inner, unnamedAll_isEmpty]
  split
  · exact joined _
  · rw [← joined]
    obtain ⟨kind, children, line, filename, tabs, groupEnd⟩ := media
    rfl

/-- Flattening without the names of files gives the same without them, or fails as well. -/
def Forgets (action bare : Flattening (List Css)) : Prop :=
  ∀ state, (bare (State.unnamed state)).toOption =
    (action state).toOption.map fun found => (unnamedAll found.1, found.2.unnamed)

section Rules

variable {action bare : Flattening (List Css)} {out out' : List Css}

theorem Forgets.pure (same : out' = unnamedAll out) : Forgets (pure out) (pure out') := by
  subst same
  exact fun _ => rfl

theorem Forgets.bind {next bareNext : List Css → Flattening (List Css)}
    (start : Forgets action bare) (behind : ∀ found, Forgets (next found) (bareNext (unnamedAll found))) :
    Forgets (action >>= next) (bare >>= bareNext) := by
  intro state
  have first := start state
  simp only [Bind.bind, StateT.bind, Except.bind]
  generalize action state = result at first ⊢
  generalize bare (State.unnamed state) = bareResult at first ⊢
  cases result with
  | error error =>
    cases bareResult with
    | error error' => rfl
    | ok found => cases first
  | ok found =>
    cases bareResult with
    | error error' => cases first
    | ok bareFound =>
      cases first
      exact behind found.1 found.2

/-- What does not touch the state and fails on both sides or on none. -/
theorem Forgets.lift_bind {result : Except Diagnostic α} {next bareNext : α → Flattening (List Css)}
    (behind : ∀ a, Forgets (next a) (bareNext a)) :
    Forgets (liftM result >>= next) (liftM result >>= bareNext) := by
  intro state
  cases result with
  | error error => rfl
  | ok a => exact behind a state

theorem Forgets.located {line : Nat} {filename filename' : Option String}
    (forgets : Forgets action bare) :
    Forgets (located line filename action) (located line filename' bare) := by
  intro state
  have same := forgets state
  unfold Flatten.located
  generalize action state = result at same ⊢
  generalize bare (State.unnamed state) = bareResult at same ⊢
  cases result <;> cases bareResult <;> first | rfl | exact same

end Rules

theorem resolve_unnamed (selector : Selector) (context : Context) (line : Nat) :
    resolve selector context.unnamed line = resolve selector context line := by
  unfold resolve
  rw [context.unnamed_selector?]

theorem recordExtenders_unnamed {target : Compound} {line : Nat} {filename : Option String}
    (extensions : Extensions) (chains : List Chain) :
    recordExtenders target line none extensions.unnamed chains =
      (recordExtenders target line filename extensions chains).map Extensions.unnamed := by
  induction chains generalizing extensions with
  | nil => rfl
  | cons extender rest ih =>
    unfold recordExtenders
    split
    · rfl
    · rw [← extensions.unnamed_add target extender line filename]
      exact ih _

theorem recordRequest_unnamed {parent : Selector} {line : Nat} {filename : Option String}
    (extensions : Extensions) (chains : List Chain) :
    recordRequest parent line none extensions.unnamed chains =
      (recordRequest parent line filename extensions chains).map Extensions.unnamed := by
  induction chains generalizing extensions with
  | nil => rfl
  | cons chain rest ih =>
    unfold recordRequest
    cases extendTarget line chain with
    | error error => rfl
    | ok target =>
      have recorded : recordExtenders target line none extensions.unnamed parent =
          (recordExtenders target line filename extensions parent).map Extensions.unnamed :=
        recordExtenders_unnamed extensions parent
      simp only [bind, Except.bind, recorded]
      cases recordExtenders target line filename extensions parent with
      | error error => rfl
      | ok extended => exact ih extended

/-- A request to extend is recorded and leaves nothing in the tree. -/
theorem node_extend {style : Style} {parent selector : Selector} {children : List Css}
    {ruleLine ruleTabs line tabs : Nat} {ruleFilename filename : Option String} {groupEnd : Bool}
    (state : State) :
    node style (.rule parent ruleLine ruleFilename ruleTabs)
        ⟨.extend selector, children, line, filename, tabs, groupEnd⟩ state =
      (recordRequest parent line filename state.extensions selector).map fun extensions =>
        ([], { state with extensions }) := by
  unfold node
  simp only [bind, StateT.bind, get, getThe, MonadStateOf.get, StateT.get, pure, Except.pure,
    Except.bind, liftM, monadLift, MonadLift.monadLift, StateT.lift]
  cases recordRequest parent line filename state.extensions selector <;> rfl

theorem forgets_property {action bare : Flattening (List Css)} (c : Css) (name : String)
    (hasValue : Bool) (below : Forgets action bare) :
    Forgets (do assembleProperty c name hasValue (← action))
      (do assembleProperty c.unnamed name hasValue (← bare)) := by
  refine below.bind fun found state => ?_
  obtain ⟨kind, children, line, filename, tabs, groupEnd⟩ := c
  cases hasValue with
  | true => rfl
  | false => cases found <;> rfl

mutual

theorem forgets_node (style : Style) (context : Context) :
    (c : Css) → Forgets (node style context c) (node style context.unnamed c.unnamed)
  | ⟨.rule selector, children, line, filename, tabs, groupEnd⟩ => by
    unfold unnamed node
    rw [resolve_unnamed, context.unnamed_isRule]
    refine .lift_bind fun resolved => ?_
    have below := forgets_nodes style (.rule resolved line filename tabs) children
    refine below.bind fun found => .pure ?_
    rw [unnamedAll_assembleRule]
    rfl
  | ⟨.media query, children, line, filename, tabs, groupEnd⟩ => by
    have outside := forgets_nodes style .media children
    have whole : Forgets
        (do
          let below ← nodes style .media children
          return assembleMedia ⟨.media query, [], line, filename, tabs, groupEnd⟩ query below)
        (do
          let below ← nodes style .media (unnamedAll children)
          return assembleMedia ⟨.media query, [], line, none, tabs, groupEnd⟩ query below) :=
      outside.bind fun found => .pure
        (unnamedAll_assembleMedia ⟨.media query, [], line, filename, tabs, groupEnd⟩ query found).symm
    cases context with
    | rule selector ruleLine ruleFilename ruleTabs =>
      unfold unnamed node
      refine .lift_bind fun resolved => ?_
      have below := forgets_nodes style (.rule resolved ruleLine ruleFilename ruleTabs) children
      refine below.bind fun found => .pure ?_
      rw [unnamedAll_assembleMedia, unnamedAll_setGroupEnd, unnamedAll_assembleRule]
      rfl
    | _ =>
      unfold unnamed node
      exact whole
  | ⟨.property name value, children, line, filename, tabs, groupEnd⟩ => by
    unfold unnamed node
    cases context with
    | property outer outerTabs outerValue =>
      exact forgets_property _ _ _ (forgets_nodes style (.property _ _ _) children)
    | _ => exact forgets_property _ _ _ (forgets_nodes style (.property _ _ _) children)
  | ⟨.extend selector, children, line, filename, tabs, groupEnd⟩ => by
    intro state
    cases context with
    | rule parent ruleLine ruleFilename ruleTabs =>
      rw [Context.unnamed, node_extend, unnamed, node_extend, State.unnamed,
        recordRequest_unnamed state.extensions selector]
      cases recordRequest parent line filename state.extensions selector <;> rfl
    | _ => rfl
  | ⟨.charset name, children, line, filename, tabs, groupEnd⟩ => by
    rintro ⟨extensions, seen⟩
    unfold unnamed node
    cases seen <;> rfl
  | ⟨.directive name params hasBlock, children, line, filename, tabs, groupEnd⟩ => by
    unfold unnamed node
    exact (forgets_nodes style .directive children).bind fun found => .pure rfl
  | ⟨.root, children, line, filename, tabs, groupEnd⟩ => by
    unfold unnamed node
    exact .pure rfl
  | ⟨.comment text preserved, children, line, filename, tabs, groupEnd⟩ => by
    unfold unnamed node
    exact .pure rfl
  | ⟨.importing uri, children, line, filename, tabs, groupEnd⟩ => by
    unfold unnamed node
    exact .pure rfl

/-- Flattening is blind to the names of files. -/
theorem forgets_nodes (style : Style) (context : Context) :
    (found : List Css) →
      Forgets (nodes style context found) (nodes style context.unnamed (unnamedAll found))
  | [] => .pure rfl
  | c :: rest => by
    unfold unnamedAll nodes
    rw [c.unnamed_line]
    refine (forgets_node style context c).located.bind fun first => ?_
    exact (forgets_nodes style context rest).bind fun others =>
      .pure (unnamedAll_append first others).symm

end

end Flatten

namespace Css

theorem flatten_unnamed (root : Css) (style : Style) :
    (root.unnamed.flatten style).toOption =
      (root.flatten style).toOption.map fun found => (found.1.unnamed, found.2.unnamed) := by
  have same := Flatten.forgets_nodes style .root root.children ⟨.empty, false⟩
  rw [← unnamed_children] at same
  change (Flatten.nodes style .root root.unnamed.children ⟨.empty, false⟩).toOption = _ at same
  unfold flatten
  simp only [bind, Except.bind, StateT.run]
  generalize Flatten.nodes style .root root.children ⟨.empty, false⟩ = result at same ⊢
  generalize Flatten.nodes style .root root.unnamed.children ⟨.empty, false⟩ = bare at same ⊢
  obtain ⟨kind, children, line, filename, tabs, groupEnd⟩ := root
  cases result <;> cases bare <;> cases same <;> rfl

/-- A tree flattened, with all extensions made. -/
def finish (root : Css) (style : Style) : Option Css :=
  (root.flatten style).toOption.map fun found => (found.2.apply found.1).1

theorem finish_unnamed (root : Css) (style : Style) :
    root.unnamed.finish style = (root.finish style).map unnamed := by
  unfold finish
  rw [flatten_unnamed, Option.map_map, Option.map_map]
  congr 1
  funext found
  exact found.2.apply_unnamed found.1

/-- Trees that differ in the names of files only are finished to such trees, or neither of them is. -/
theorem map_unnamed_finish {root other : Css} (same : root.unnamed = other.unnamed) (style : Style) :
    (root.finish style).map unnamed = (other.finish style).map unnamed := by
  rw [← finish_unnamed, ← finish_unnamed, same]

end Css

end Stylesheet
