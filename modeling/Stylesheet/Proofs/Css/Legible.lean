import Stylesheet.Proofs.Css.Outermost
import Stylesheet.Proofs.Evaluation.Constants
import Stylesheet.Proofs.Statement.BracesReading
import Stylesheet.Proofs.Statement.IndentedReading
import Stylesheet.Selector.Parser

/-! Trees of which the source is read back. Each node of such a tree is written as a block, as a
statement without one or as a comment, with a text in which nothing is special and that stands for what
is in the node. -/

namespace Stylesheet

/-- What stands behind the name of a directive. -/
def DirectiveHead.paramsText (head : DirectiveHead) : String :=
  head.params.elim "" fun params => String.ofList params.text

namespace Css

/-- A node that is written as a statement from which it is read back. A comment stays as it is in the
style. -/
inductive IsLegible (style : Style) : Css → Prop where
  | rule {c : Css} {selector : Selector} (kind : c.kind = .rule selector) (head : RuleHead)
      (isText : selector.toCss .nested = String.ofList head.text)
      (again : ∀ line, Selector.parse (String.ofList head.text) line = .ok selector)
      (isTop : selector.hasParentRef = false) : IsLegible style c
  | media {c : Css} (query : Phrase) (kind : c.kind = .media (String.ofList query.text)) :
      IsLegible style c
  | directive {c : Css} (head : DirectiveHead)
      (kind : c.kind = .directive (String.ofList head.name.text) head.paramsText true)
      (filled : c.children ≠ []) : IsLegible style c
  | property {c : Css} {value : Value} (name : PropertyName)
      (kind : c.kind = .property (String.ofList name.text) (some value))
      (trimmed : Text.trim (String.ofList name.text) = String.ofList name.text)
      (written : WrittenValue) (faithful : written.IsFaithful)
      (isText : value.toCss .nested = .ok (String.ofList written.text)) : IsLegible style c
  | statement {c : Css} (head : DirectiveHead)
      (kind : c.kind = .directive (String.ofList head.name.text) head.paramsText false)
      (empty : c.children = []) : IsLegible style c
  | charset {c : Css} (name : CharsetName) (kind : c.kind = .charset (String.ofList name.text)) :
      IsLegible style c
  | importing {c : Css} (target : BrowserImport)
      (kind : c.kind = .importing (String.ofList target.text)) : IsLegible style c
  | comment {c : Css} (remark : Remark)
      (kind : c.kind = .comment (String.ofList remark.text) remark.isKept)
      (stays : style.isCompressed = true → remark.isKept = true) : IsLegible style c

/-- What may stand right inside of a node of a flat tree. -/
def admits (kind : CssKind) (c : Css) : Bool :=
  !c.isOutermost && match kind with
  | .rule _ => !c.isRule && !c.isMedia
  | .media _ => !c.isMedia
  | _ => true

end Css

/-- The text in front of a block is that of a node. -/
def Opening.Heads : Opening → CssKind → Prop
  | .rule head, .rule selector =>
    selector.toCss .nested = String.ofList head.text ∧
      (∀ line, Selector.parse (String.ofList head.text) line = .ok selector) ∧
      selector.hasParentRef = false
  | .media query, .media text => text = String.ofList query.text
  | .directive head, .directive name params hasBlock =>
    name = String.ofList head.name.text ∧ params = head.paramsText ∧ hasBlock = true
  | _, _ => False

/-- A statement without a block is written for a node. -/
def Leaf.Prints : Leaf → CssKind → Prop
  | declaration name value, kind =>
    Text.trim (String.ofList name.text) = String.ofList name.text ∧ value.IsFaithful ∧
      ∃ v, kind = .property (String.ofList name.text) (some v) ∧
        v.toCss .nested = .ok (String.ofList value.text)
  | directive head, kind =>
    kind = .directive (String.ofList head.name.text) head.paramsText false
  | charset name, kind => kind = .charset (String.ofList name.text)
  | importing target, kind => kind = .importing (String.ofList target.text)

namespace Written

variable (style : Style)

mutual

/-- A statement is written for a node of a flat tree, and stays as it is in a style. -/
def Prints : Written → Css → Prop
  | block opening body, c =>
    opening.Heads c.kind ∧ c.children ≠ [] ∧ (∀ d ∈ c.children, Css.admits c.kind d = true) ∧
      PrintsAll body c.children
  | leaf l, c => c.children = [] ∧ l.Prints c.kind
  | comment remark, c =>
    c.children = [] ∧ c.kind = .comment (String.ofList remark.text) remark.isKept ∧
      (style.isCompressed = true → remark.isKept = true)

def PrintsAll : List Written → List Css → Prop
  | [], [] => True
  | w :: rest, c :: others => w.Prints c ∧ PrintsAll rest others
  | _, _ => False

end

end Written

namespace Css

variable {made style : Style}

mutual

/-- A flat node that is legible is written as some statement. -/
theorem exists_prints : (c : Css) → c.Everywhere (IsFlat made) → c.IsTop →
    c.Everywhere (IsLegible style) → ∃ w : Written, w.Prints style c
  | ⟨kind, children, line, filename, tabs, groupEnd⟩, flat, top, legible => by
    obtain ⟨body, below⟩ := exists_printsAll children flat.inner
      (fun d member => (top.inner d member).isTop) legible.inner
    have inside : ∀ d ∈ children, d.isOutermost = false := fun d member =>
      (top.inner d member).here.inside
    cases legible.here with
    | rule isKind head isText again isTop =>
      cases isKind
      obtain ⟨filled, alone⟩ := flat.here.rule rfl
      refine ⟨.block (.rule head) body, ⟨isText, again, isTop⟩, filled, fun d member => ?_, below⟩
      obtain ⟨notRule, notMedia⟩ := alone d member
      simp [admits, inside d member, notRule, notMedia]
    | media query isKind =>
      cases isKind
      obtain ⟨filled, alone⟩ := flat.here.media rfl
      refine ⟨.block (.media query) body, rfl, filled, fun d member => ?_, below⟩
      simp [admits, inside d member, alone d member]
    | directive head isKind filled =>
      cases isKind
      refine ⟨.block (.directive head) body, ⟨rfl, rfl, rfl⟩, filled, fun d member => ?_, below⟩
      simp [admits, inside d member]
    | property name isKind trimmed written faithful isText =>
      cases isKind
      obtain ⟨empty, _⟩ := flat.here.property _ _ rfl
      exact ⟨.leaf (.declaration name written), empty, trimmed, faithful, _, rfl, isText⟩
    | statement head isKind empty => exact ⟨.leaf (.directive head), empty, isKind⟩
    | charset name isKind =>
      cases isKind
      exact ⟨.leaf (.charset name), top.leaf rfl, rfl⟩
    | importing target isKind =>
      cases isKind
      exact ⟨.leaf (.importing target), top.leaf rfl, rfl⟩
    | comment remark isKind stays =>
      cases isKind
      exact ⟨.comment remark, top.leaf rfl, rfl, stays⟩

theorem exists_printsAll : (found : List Css) → (∀ c ∈ found, c.Everywhere (IsFlat made)) →
    (∀ c ∈ found, c.IsTop) → (∀ c ∈ found, c.Everywhere (IsLegible style)) →
    ∃ written, Written.PrintsAll style written found
  | [], _, _, _ => ⟨[], trivial⟩
  | c :: rest, flat, top, legible => by
    have others {p : Css → Prop} (all : ∀ d ∈ c :: rest, p d) : ∀ d ∈ rest, p d :=
      fun d member => all d (List.mem_cons_of_mem c member)
    have first {p : Css → Prop} (all : ∀ d ∈ c :: rest, p d) : p c := all c List.mem_cons_self
    obtain ⟨w, prints⟩ := exists_prints c (first flat) (first top) (first legible)
    obtain ⟨written, behind⟩ := exists_printsAll rest (others flat) (others top) (others legible)
    exact ⟨w :: written, prints, behind⟩

end

/-- The text of a value, as its declaration is written. -/
def shownText (value : Value) : String :=
  match value.toCss .nested with
  | .ok text => text
  | .error _ => value.inspect

/-- What a node is, with the text of its value for the value. -/
def shownKind : CssKind → CssKind
  | .property name (some value) => .property name (some (.unquoted (shownText value)))
  | kind => kind

mutual

/-- A tree without places and layout, and with texts for values. -/
def unplaced : Css → Css
  | ⟨kind, children, _, _, _, _⟩ => node (shownKind kind) (unplacedAll children) 0 none

def unplacedAll : List Css → List Css
  | [] => []
  | c :: rest => unplaced c :: unplacedAll rest

end

end Css

namespace Css

theorem unplacedAll_eq_map (found : List Css) : unplacedAll found = found.map unplaced := by
  induction found with
  | nil => rfl
  | cons c rest ih => rw [unplacedAll, ih, List.map_cons]

/-- Places do not tell what may stand where. -/
theorem tests_unplaced (c : Css) :
    c.unplaced.isRule = c.isRule ∧ c.unplaced.isMedia = c.isMedia ∧
      c.unplaced.isOutermost = c.isOutermost ∧ c.unplaced.isCharset = c.isCharset := by
  obtain ⟨kind, children, line, filename, tabs, groupEnd⟩ := c
  cases kind with
  | property name value => cases value <;> exact ⟨rfl, rfl, rfl, rfl⟩
  | _ => exact ⟨rfl, rfl, rfl, rfl⟩

theorem admits_unplaced (kind : CssKind) (c : Css) :
    admits (shownKind kind) c.unplaced = admits kind c := by
  obtain ⟨isRule, isMedia, isOutermost, _⟩ := c.tests_unplaced
  cases kind with
  | property name value => cases value <;> simp only [shownKind, admits, isOutermost]
  | _ => simp only [shownKind, admits, isRule, isMedia, isOutermost]

theorem declaresOnce_unplacedAll {seen : Bool} {found : List Css} :
    DeclaresOnce seen (unplacedAll found) ↔ DeclaresOnce seen found := by
  rw [unplacedAll_eq_map]
  exact declaresOnce_map fun c => c.tests_unplaced.2.2.2

end Css

namespace Opening

variable {opening : Opening} {kind other : CssKind}

/-- The text in front of a block tells what the node is. -/
theorem Heads.shownKind_eq (first : opening.Heads kind) (second : opening.Heads other) :
    Css.shownKind kind = Css.shownKind other := by
  match opening, kind, other, first, second with
  | .rule head, .rule selector, .rule selector', ⟨_, again, _⟩, ⟨_, again', _⟩ =>
    cases (again 0).symm.trans (again' 0)
    rfl
  | .media query, .media text, .media text', isText, isText' =>
    cases Eq.trans isText (Eq.symm isText')
    rfl
  | .directive head, .directive _ _ _, .directive _ _ _, ⟨isName, isParams, hasBlock⟩,
      ⟨isName', isParams', hasBlock'⟩ =>
    rw [isName, isParams, hasBlock, isName', isParams', hasBlock']

theorem selector_eq {head : RuleHead} {selector : Selector}
    (isText : selector.toCss .nested = String.ofList head.text) (dialect : Dialect) :
    SourceText.selector dialect selector = String.ofList (head.source dialect) := by
  have starts : (String.ofList head.text).startsWith ":" = (head.text.head? == some ':') := by
    rw [Bool.eq_iff_iff, String.startsWith_string_iff, beq_iff_eq, List.head?_eq_some_iff]
    simp only [String.toList_ofList]
    exact exists_congr fun more => eq_comm
  unfold SourceText.selector RuleHead.source
  rw [isText]
  dsimp only
  rw [starts]
  split
  · simp
  · rfl

theorem directiveHead_eq (head : DirectiveHead) :
    Css.directiveHead (String.ofList head.name.text) head.paramsText =
      String.ofList (Opening.directive head).text := by
  unfold Css.directiveHead DirectiveHead.paramsText
  rw [text]
  cases head.params with
  | none => simp [paramsText]
  | some params =>
    obtain ⟨x, more, isCons, _⟩ := params.exists_cons
    simp [paramsText, isCons, String.ext_iff]

theorem mediaHead_eq (query : Phrase) :
    "@media " ++ String.ofList query.text = String.ofList (Opening.media query).text := by
  simp [text, paramsText, String.ext_iff]

end Opening

namespace Leaf.Prints

theorem source_eq (dialect : Dialect) : (l : Leaf) → (c : Css) → (depth : Nat) → c.children = [] →
    l.Prints c.kind →
    SourceText.node dialect depth c = SourceText.statement dialect depth (String.ofList l.text)
  | .declaration name value, ⟨_, _, _, _, _, _⟩, depth, _, prints => by
    obtain ⟨_, _, v, rfl, isText⟩ := prints
    rw [SourceText.node, isText]
    refine congrArg (SourceText.statement dialect depth) ?_
    simp [Leaf.text, String.ext_iff]
  | .directive head, ⟨_, _, _, _, _, _⟩, depth, rfl, rfl => by
    rw [SourceText.node, Opening.directiveHead_eq]
    rfl
  | .charset name, ⟨_, _, _, _, _, _⟩, depth, _, rfl => by
    rw [SourceText.node]
    refine congrArg (SourceText.statement dialect depth) ?_
    simp [Leaf.text, String.ext_iff]
  | .importing target, ⟨_, _, _, _, _, _⟩, depth, _, rfl => by
    rw [SourceText.node]
    refine congrArg (SourceText.statement dialect depth) ?_
    simp [Leaf.text, String.ext_iff]

theorem shownKind_eq {l : Leaf} {kind other : CssKind} (first : l.Prints kind)
    (second : l.Prints other) : Css.shownKind kind = Css.shownKind other := by
  cases l with
  | declaration name value =>
    obtain ⟨_, _, v, rfl, isText⟩ := first
    obtain ⟨_, _, v', rfl, isText'⟩ := second
    rw [Css.shownKind, Css.shownKind, Css.shownText, Css.shownText, isText, isText']
  | directive | charset | importing => rw [Eq.trans first (Eq.symm second)]

end Leaf.Prints

namespace Written

section Texts

variable {style : Style} (dialect : Dialect)

mutual

/-- The source of a node is the text of the statement that is written for it. -/
theorem Prints.node_eq : (w : Written) → (c : Css) → (depth : Nat) → w.Prints style c →
    SourceText.node dialect depth c = w.text dialect depth
  | .block opening body, ⟨kind, children, line, filename, tabs, groupEnd⟩, depth, prints => by
    obtain ⟨heads, filled, _, below⟩ := prints
    have inner := PrintsAll.nodes_eq body children (depth + 1) below
    have notEmpty : children.isEmpty = false := by simpa using filled
    match opening, kind, heads with
    | .rule head, .rule selector, ⟨isText, _⟩ =>
      rw [SourceText.node, text, inner, Opening.selector_eq isText]
      rfl
    | .media query, .media _, rfl =>
      rw [SourceText.node, text, inner, Opening.mediaHead_eq]
      rfl
    | .directive head, .directive _ _ _, ⟨rfl, rfl, rfl⟩ =>
      rw [SourceText.node, text, inner, Opening.directiveHead_eq, notEmpty, Bool.and_false,
        Bool.not_false, Bool.and_true, if_pos rfl]
      rfl
  | .leaf l, c, depth, prints => Leaf.Prints.source_eq dialect l c depth prints.1 prints.2
  | .comment remark, ⟨_, _, _, _, _, _⟩, depth, prints => by
    obtain ⟨_, isKind, _⟩ := prints
    cases isKind
    rw [SourceText.node, text]

theorem PrintsAll.nodes_eq : (found : List Written) → (children : List Css) → (depth : Nat) →
    PrintsAll style found children →
    SourceText.nodes dialect depth children = textOfAll dialect depth found
  | [], [], _, _ => rfl
  | w :: rest, c :: others, depth, prints => by
    rw [SourceText.nodes, textOfAll, Prints.node_eq w c depth prints.1,
      PrintsAll.nodes_eq rest others depth prints.2]

end

end Texts

variable {style : Style}

mutual

/-- What is written for a node tells the node, up to its place and layout. -/
theorem Prints.unplaced_eq : (w : Written) → (c d : Css) → w.Prints style c → w.Prints style d →
    c.unplaced = d.unplaced
  | .block opening body, ⟨kind, children, _, _, _, _⟩, ⟨kind', children', _, _, _, _⟩, first,
      second => by
    have inner := PrintsAll.unplacedAll_eq body children children' first.2.2.2 second.2.2.2
    have heads : opening.Heads kind := first.1
    rw [Css.unplaced, Css.unplaced, inner, heads.shownKind_eq second.1]
  | .leaf l, ⟨kind, children, _, _, _, _⟩, ⟨kind', children', _, _, _, _⟩, first, second => by
    obtain ⟨rfl, isKind⟩ := first
    obtain ⟨rfl, isKind'⟩ := second
    rw [Css.unplaced, Css.unplaced, isKind.shownKind_eq isKind']
  | .comment remark, ⟨kind, children, _, _, _, _⟩, ⟨kind', children', _, _, _, _⟩, first,
      second => by
    obtain ⟨rfl, rfl, _⟩ := first
    obtain ⟨rfl, rfl, _⟩ := second
    rfl

theorem PrintsAll.unplacedAll_eq : (found : List Written) → (children others : List Css) →
    PrintsAll style found children → PrintsAll style found others →
    Css.unplacedAll children = Css.unplacedAll others
  | [], [], [], _, _ => rfl
  | w :: rest, c :: children, d :: others, first, second => by
    rw [Css.unplacedAll, Css.unplacedAll, Prints.unplaced_eq w c d first.1 second.1,
      PrintsAll.unplacedAll_eq rest children others first.2 second.2]

end

/-- A block is written for any node of the same kind below which the same is written. -/
theorem Prints.block {opening : Opening} {body : List Written} {c d : Css}
    (prints : (block opening body).Prints style c) (heads : opening.Heads d.kind)
    (below : PrintsAll style body d.children) : (Written.block opening body).Prints style d := by
  obtain ⟨first, filled, admitted, inner⟩ := prints
  have same := PrintsAll.unplacedAll_eq body c.children d.children inner below
  rw [Css.unplacedAll_eq_map, Css.unplacedAll_eq_map] at same
  refine ⟨heads, fun empty => ?_, fun x member => ?_, below⟩
  · rw [empty] at same
    exact filled (List.map_eq_nil_iff.mp same)
  · have shown : x.unplaced ∈ c.children.map Css.unplaced := by
      rw [same]
      exact List.mem_map_of_mem member
    obtain ⟨y, isChild, isSame⟩ := List.mem_map.mp shown
    rw [← Css.admits_unplaced, ← isSame, ← first.shownKind_eq heads, Css.admits_unplaced]
    exact admitted y isChild

mutual

theorem Prints.filled : (w : Written) → (c : Css) → w.Prints style c → w.Filled
  | .block opening body, c, prints => by
    refine ⟨fun _ empty => ?_, PrintsAll.allFilled body c.children prints.2.2.2⟩
    subst empty
    have below := prints.2.2.2
    cases children : c.children with
    | nil => exact prints.2.1 children
    | cons d rest =>
      rw [children] at below
      exact below
  | .leaf _, _, _ | .comment _, _, _ => trivial

theorem PrintsAll.allFilled : (found : List Written) → (children : List Css) →
    PrintsAll style found children → AllFilled found
  | [], _, _ => trivial
  | w :: rest, c :: others, prints =>
    ⟨Prints.filled w c prints.1, PrintsAll.allFilled rest others prints.2⟩

end

end Written

end Stylesheet
