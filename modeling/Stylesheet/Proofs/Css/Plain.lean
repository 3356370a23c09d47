import Mathlib.Tactic.MkIffOfInductiveProp
import Stylesheet.Css.Printer
import Stylesheet.Proofs.Css.Shape
import Stylesheet.Proofs.Text.Essence

/-! The text of a flat tree apart from any style. Selectors and values without colors differ from
style to style in spaces only, and so a tree has one plain text, in which every declaration has its
value and its semicolon. Flattening leaves no declaration without a value. -/

namespace Stylesheet

open Text

section Selectors

theorem unspaced_comma (style : Style) : unspaced style.comma = [','] := by
  cases style <;> decide

theorem unspaced_spaceBeforeCompound (style : Style) (before : Chain.Before) :
    unspaced (spaceBeforeCompound style before) = [] := by
  cases style <;> cases before <;> decide

theorem unspaced_spaceBeforeCombinator (style : Style) (before : Chain.Before) :
    unspaced (spaceBeforeCombinator style before) = [] := by
  cases style <;> cases before <;> decide

variable (one other : Style)

mutual

theorem Simple.unspaced_toCss : (s : Simple) → unspaced (s.toCss one) = unspaced (s.toCss other)
  | .className _ => rfl
  | .id _ => rfl
  | .element _ _ => rfl
  | .universal _ => rfl
  | .parent => rfl
  | .attribute _ _ _ _ => rfl
  | .pseudo _ _ _ => rfl
  | .selectorPseudo name argument => by
    simp only [Simple.toCss, unspaced_append, unspaced_intercalate, unspaced_comma,
      Selector.unspaced_chainTexts argument]

theorem Simple.unspaced_listToCss :
    (simples : List Simple) →
      unspaced (Simple.listToCss one simples) = unspaced (Simple.listToCss other simples)
  | [] => rfl
  | s :: rest => by
    simp only [Simple.listToCss, unspaced_append, Simple.unspaced_toCss s,
      Simple.unspaced_listToCss rest]

theorem Compound.unspaced_toCss :
    (c : Compound) → unspaced (c.toCss one) = unspaced (c.toCss other)
  | .mk none rest => by
    simp only [Compound.toCss, Simple.unspaced_listToCss rest]
  | .mk (some base) rest => by
    simp only [Compound.toCss, unspaced_append, Simple.unspaced_toCss base,
      Simple.unspaced_listToCss rest]

theorem Chain.unspaced_toCssFrom (before : Chain.Before) :
    (components : List Component) →
      unspaced (Chain.toCssFrom one before components) =
        unspaced (Chain.toCssFrom other before components)
  | [] => rfl
  | .compound c :: rest => by
    simp only [Chain.toCssFrom, unspaced_append, unspaced_spaceBeforeCompound,
      Compound.unspaced_toCss c, Chain.unspaced_toCssFrom .compound rest]
  | .combinator c :: rest => by
    simp only [Chain.toCssFrom, unspaced_append, unspaced_spaceBeforeCombinator,
      Chain.unspaced_toCssFrom .combinator rest]

theorem Selector.unspaced_chainTexts :
    (chains : List (List Component)) →
      (Selector.chainTexts one chains).map unspaced = (Selector.chainTexts other chains).map unspaced
  | [] => rfl
  | chain :: rest => by
    simp only [Selector.chainTexts, List.map_cons, Chain.unspaced_toCssFrom .start chain,
      Selector.unspaced_chainTexts rest]

end

/-- A selector is the same in all styles up to spaces. -/
theorem Selector.unspaced_toCss (selector : Selector) :
    unspaced (selector.toCss one) = unspaced (selector.toCss other) := by
  simp only [Selector.toCss, unspaced_intercalate, unspaced_comma,
    Selector.unspaced_chainTexts one other selector]

end Selectors

section Values

mutual

/-- A value without colors in it. -/
def Value.isColorless : Value → Bool
  | .color _ => false
  | .list items _ => Value.areColorless items
  | _ => true

def Value.areColorless : List Value → Bool
  | [] => true
  | item :: rest => item.isColorless && Value.areColorless rest

end

/-- The text of a value in a declaration. -/
def Value.written (style : Style) (value : Value) : String :=
  match value.toCss style with
  | .ok css => css
  | .error _ => value.inspect

theorem unspaced_separator (style : Style) (separator : Separator) :
    unspaced (separator.toText style) = unspaced (separator.toText .compressed) := by
  cases separator <;> cases style <;> decide

/-- What follows from results that look the same looks the same, if it does not depend on more than
the look of them. -/
private theorem map_bind_congr {α β γ δ ε : Type} {x y : Except ε α} {look : α → γ}
    {next next' : α → Except ε β} {lookAt : β → δ} (same : x.map look = y.map look)
    (further : ∀ a b, look a = look b → (next a).map lookAt = (next' b).map lookAt) :
    (x >>= next).map lookAt = (y >>= next').map lookAt := by
  cases x with
  | error error =>
    cases y with
    | error error' =>
      cases same
      rfl
    | ok b => cases same
  | ok a =>
    cases y with
    | error error => cases same
    | ok b => exact further a b (Except.ok.inj same)

variable (one other : Style)

mutual

theorem Value.unspaced_toCss :
    (value : Value) → value.isColorless = true →
      (value.toCss one).map unspaced = (value.toCss other).map unspaced
  | .number _, _ => rfl
  | .color _, colorless => by cases colorless
  | .text _ _, _ => rfl
  | .bool _, _ => rfl
  | .list [] _, _ => rfl
  | .list (item :: rest) separator, colorless => by
    unfold Value.toCss
    refine map_bind_congr (Value.unspaced_itemsToCss (item :: rest) colorless) ?_
    intro texts texts' same
    simp only [Except.map, unspaced_intercalate, same, unspaced_separator one,
      unspaced_separator other]

theorem Value.unspaced_itemsToCss :
    (items : List Value) → Value.areColorless items = true →
      (Value.itemsToCss one items).map (List.map unspaced) =
        (Value.itemsToCss other items).map (List.map unspaced)
  | [], _ => rfl
  | item :: rest, colorless => by
    obtain ⟨here, later⟩ := Bool.and_eq_true_iff.mp colorless
    unfold Value.itemsToCss
    split
    · exact Value.unspaced_itemsToCss rest later
    · refine map_bind_congr (Value.unspaced_toCss item here) fun head head' heads => ?_
      refine map_bind_congr (Value.unspaced_itemsToCss rest later) fun tail tail' tails => ?_
      simp only [Except.map, List.map_cons, heads, tails]

end

/-- A value without colors is the same in all styles up to spaces. -/
theorem Value.unspaced_written {value : Value} (colorless : value.isColorless = true) :
    unspaced (value.written one) = unspaced (value.written other) := by
  have same := Value.unspaced_toCss one other value colorless
  unfold Value.written
  cases first : value.toCss one with
  | error error =>
    cases second : value.toCss other with
    | error error' => rfl
    | ok text => simp [first, second, Except.map] at same
  | ok text =>
    cases second : value.toCss other with
    | error error => simp [first, second, Except.map] at same
    | ok text' => simpa [first, second, Except.map] using same

end Values

namespace Css

mutual

/-- The text of a node without a layout. Every declaration has its semicolon. -/
def plain : Css → String
  | ⟨.rule selector, children, _, _, _, _⟩ =>
    selector.toCss .compressed ++ "\x7b" ++ plainAll children ++ "\x7d"
  | ⟨.property name (some value), _, _, _, _, _⟩ =>
    name ++ ":" ++ value.written .compressed ++ ";"
  | ⟨.directive name params hasBlock, children, _, _, _, _⟩ =>
    if hasBlock then directiveHead name params ++ "\x7b" ++ plainAll children ++ "\x7d"
    else directiveHead name params ++ ";"
  | ⟨.media query, children, _, _, _, _⟩ =>
    "@media " ++ query ++ "\x7b" ++ plainAll children ++ "\x7d"
  | ⟨.importing uri, _, _, _, _, _⟩ => "@import " ++ uri ++ ";"
  | _ => ""

def plainAll : List Css → String
  | [] => ""
  | c :: rest => plain c ++ plainAll rest

end

/-- The texts that a node itself has. -/
def ownTexts (c : Css) : List String :=
  match c.kind with
  | .rule selector => [selector.toCss .compressed]
  | .property name (some value) => [name, value.written .compressed]
  | .directive name params _ => [name, params]
  | .media query => [query]
  | .importing uri => [uri]
  | _ => []

def isComment (c : Css) : Bool :=
  match c.kind with
  | .comment _ _ => true
  | _ => false

/-- A node that does not declare a value with colors in it. -/
def isColorless (c : Css) : Bool :=
  match c.kind with
  | .property _ (some value) => value.isColorless
  | _ => true

/-- A node that all styles write alike: it is no comment and has only ASCII text and no colors, and
if it is a rule it has nothing but declarations in it. -/
@[mk_iff isComparable_iff]
structure IsComparable (c : Css) : Prop where
  ascii : ∀ text ∈ c.ownTexts, IsAscii text
  notComment : c.isComment = false
  colorless : c.isColorless = true
  rule : c.isRule = true → ∀ d ∈ c.children, d.isProperty = true

instance (c : Css) : Decidable c.IsComparable :=
  decidable_of_iff _ (isComparable_iff c).symm

/-- Every declaration that is written has a value. -/
inductive Filled : Css → Prop where
  | declaration {c : Css} {name : String} {value : Value}
      (kind : c.kind = .property name (some value)) : Filled c
  | block {c : Css} (notProperty : c.isProperty = false) (inner : ∀ d ∈ c.children, Filled d) :
      Filled c
  | leaf {c : Css} (isLeaf : c.isLeaf = true ∨ c.kind = .root) : Filled c

theorem plainAll_eq_join (children : List Css) :
    plainAll children = String.join (children.map plain) := by
  induction children with
  | nil => rfl
  | cons c rest ih => rw [plainAll, ih, List.map_cons, String.join_cons]

theorem Filled.inner {c : Css} (filled : c.Filled) (notProperty : c.isProperty = false)
    (notLeaf : c.isLeaf = false) (notRoot : c.kind ≠ .root) : ∀ d ∈ c.children, d.Filled := by
  cases filled with
  | declaration kind => simp [isProperty, kind] at notProperty
  | block _ inner => exact inner
  | leaf isLeaf => simp [notLeaf, notRoot] at isLeaf

theorem Filled.exists_value {c : Css} {name : String} {value : Option Value} (filled : c.Filled)
    (kind : c.kind = .property name value) : ∃ v, value = some v := by
  cases filled with
  | declaration other =>
    cases kind.symm.trans other
    exact ⟨_, rfl⟩
  | block notProperty => simp [isProperty, kind] at notProperty
  | leaf isLeaf => simp [Css.isLeaf, kind] at isLeaf


section Flattened

variable {style : Style} {below out : List Css}

theorem Filled.layout {c : Css} (filled : c.Filled) (tabs : Nat) (groupEnd : Bool) :
    Filled { c with tabs, groupEnd } := by
  cases filled with
  | declaration kind => exact .declaration kind
  | block notProperty inner => exact .block notProperty inner
  | leaf isLeaf => exact .leaf isLeaf

theorem assembleRule_filled {rule : Css} {outermost : Bool} (isRule : rule.isProperty = false)
    (filled : ∀ c ∈ below, c.Filled) :
    ∀ x ∈ Flatten.assembleRule style rule outermost below, x.Filled := by
  intro x member
  rcases Flatten.mem_assembleRule member with ⟨_, groupEnd, rfl⟩ | ⟨y, source, _, tabs, groupEnd, rfl⟩
  · exact .block isRule fun c own => filled c (List.mem_filter.mp own).1
  · exact (filled y source).layout tabs groupEnd

theorem assembleMedia_filled {media : Css} {query : String} (isMedia : media.isProperty = false)
    (filled : ∀ c ∈ below, c.Filled) :
    ∀ x ∈ Flatten.assembleMedia media query below, x.Filled := by
  intro x member
  rcases Flatten.mem_assembleMedia member with ⟨_, rfl⟩ | ⟨y, source, inner, kind, rfl⟩
  · exact .block isMedia fun c own => filled c (List.mem_filter.mp own).1
  · refine .block rfl ((filled y source).inner ?_ ?_ ?_)
    all_goals simp [isProperty, isLeaf, kind]

theorem setGroupEnd_filled {found : List Css} (value : Bool) (filled : ∀ c ∈ found, c.Filled) :
    ∀ x ∈ Flatten.setGroupEnd value found, x.Filled := by
  intro x member
  obtain ⟨y, source, groupEnd, rfl⟩ := Flatten.mem_setGroupEnd member
  exact (filled y source).layout y.tabs groupEnd

theorem assembleProperty_filled {c : Css} {name : String} {value : Option Value}
    (kind : c.kind = .property name value)
    (assembled : Flatten.assembleProperty c name (Flatten.hasText style value) below = .ok out)
    (filled : ∀ c ∈ below, c.Filled) : ∀ x ∈ out, x.Filled := by
  intro x member
  rcases Flatten.mem_assembleProperty assembled member with ⟨hasText, rfl⟩ | inner
  · obtain ⟨v, _, rfl, _⟩ := exists_text_of_hasText hasText
    exact .declaration kind
  · exact filled x inner

mutual

/-- Flattening a node gives declarations with values, in every context. -/
theorem node_filled (context : Flatten.Context) :
    ∀ (c : Css) {state final : Flatten.State} {out : List Css},
      Flatten.node style context c state = .ok (out, final) → ∀ x ∈ out, x.Filled
  | ⟨.rule selector, children, line, filename, tabs, groupEnd⟩, _, _, _, ok => by
    obtain ⟨resolved, below, _, inner, rfl⟩ := Flatten.node_rule_ok ok
    exact assembleRule_filled rfl (nodes_filled _ children inner)
  | ⟨.media query, children, line, filename, tabs, groupEnd⟩, _, _, _, ok => by
    cases inRule : context.isRule with
    | true =>
      obtain ⟨selector, ruleLine, ruleFilename, ruleTabs, rfl⟩ := Flatten.exists_of_isRule inRule
      obtain ⟨below, inner, rfl⟩ := Flatten.node_media_in_rule_ok ok
      have filled := nodes_filled _ children inner
      exact assembleMedia_filled rfl (setGroupEnd_filled false (assembleRule_filled rfl filled))
    | false =>
      obtain ⟨below, inner, rfl⟩ := Flatten.node_media_ok inRule ok
      exact assembleMedia_filled rfl (nodes_filled _ children inner)
  | ⟨.property name value, children, line, filename, tabs, groupEnd⟩, _, _, _, ok => by
    obtain ⟨below, inner, assembled⟩ := Flatten.node_property_ok ok
    exact assembleProperty_filled (Flatten.joinName_kind style context _ name rfl) assembled
      (nodes_filled _ children inner)
  | ⟨.directive name params hasBlock, children, line, filename, tabs, groupEnd⟩, _, _, _, ok => by
    obtain ⟨below, inner, rfl⟩ := Flatten.node_directive_ok ok
    intro x member
    rw [List.mem_singleton] at member
    subst member
    exact .block rfl (nodes_filled _ children inner)
  | ⟨.extend selector, children, line, filename, tabs, groupEnd⟩, _, _, _, ok => by
    rw [(Flatten.node_extend_ok ok).1]
    simp
  | ⟨.charset name, children, line, filename, tabs, groupEnd⟩, _, _, _, ok => by
    rcases Flatten.node_charset_ok ok with rfl | rfl
    · simp
    · simpa using .leaf (.inl rfl)
  | ⟨.comment text preserved, children, line, filename, tabs, groupEnd⟩, _, _, _, ok => by
    rw [(Flatten.pure_ok ok).1]
    simpa using .leaf (.inl rfl)
  | ⟨.importing uri, children, line, filename, tabs, groupEnd⟩, _, _, _, ok => by
    rw [(Flatten.pure_ok ok).1]
    simpa using .leaf (.inl rfl)
  | ⟨.root, children, line, filename, tabs, groupEnd⟩, _, _, _, ok => by
    rw [(Flatten.pure_ok ok).1]
    simpa using .leaf (.inr rfl)

theorem nodes_filled (context : Flatten.Context) :
    ∀ (children : List Css) {state final : Flatten.State} {out : List Css},
      Flatten.nodes style context children state = .ok (out, final) → ∀ x ∈ out, x.Filled
  | [], _, _, _, ok => by
    obtain ⟨rfl, _⟩ := Flatten.nodes_nil_ok ok
    simp
  | c :: rest, _, _, _, ok => by
    obtain ⟨first, others, middle, head, tail, rfl⟩ := Flatten.nodes_cons_ok ok
    intro x member
    rcases List.mem_append.mp member with early | late
    · exact node_filled context c head x early
    · exact nodes_filled context rest tail x late

end

end Flattened

end Css

end Stylesheet
