import Stylesheet.Proofs.Compiler.Blocks
import Stylesheet.Proofs.Evaluation.Parts

/-! Flattening does not depend on the style of the output. Styles differ in the layout and in which
comments they keep; what remains of a flat tree without both is the same in all styles, and so are
the recorded extensions and the error. -/

namespace Stylesheet

namespace Css

/-- A comment that is not preserved, or a rule or query with nothing in it. -/
def isSpent (c : Css) : Bool :=
  c.isPlainComment || ((c.isRule || c.isMedia) && c.children.isEmpty)

mutual

/-- What remains of a node when its layout and the comments that are not preserved are erased, and
then rules and queries without children are removed, from the bottom up. -/
def remains : Css → List Css
  | ⟨kind, children, line, filename, _, _⟩ =>
    if isSpent ⟨kind, remainsOfAll children, line, filename, 0, false⟩ then []
    else [⟨kind, remainsOfAll children, line, filename, 0, false⟩]

def remainsOfAll : List Css → List Css
  | [] => []
  | c :: rest => remains c ++ remainsOfAll rest

end

theorem remainsOfAll_append (first second : List Css) :
    remainsOfAll (first ++ second) = remainsOfAll first ++ remainsOfAll second := by
  induction first with
  | nil => rfl
  | cons c rest ih => simp [remainsOfAll, ih]

/-- What remains takes no note of the layout. -/
theorem remains_layout (c : Css) (tabs : Nat) (groupEnd : Bool) :
    remains { c with tabs, groupEnd } = c.remains := by
  obtain ⟨kind, children, line, filename, _, _⟩ := c
  simp only [remains]

theorem remainsOfAll_map {f : Css → Css} (same : ∀ c, (f c).remains = c.remains)
    (nodes : List Css) : remainsOfAll (nodes.map f) = remainsOfAll nodes := by
  induction nodes with
  | nil => rfl
  | cons c rest ih => simp [remainsOfAll, same, ih]

theorem remainsOfAll_setGroupEnd (value : Bool) (nodes : List Css) :
    remainsOfAll (Flatten.setGroupEnd value nodes) = remainsOfAll nodes := by
  unfold Flatten.setGroupEnd
  split
  · rename_i last isLast
    obtain ⟨front, rfl⟩ := List.getLast?_eq_some_iff.mp isLast
    rw [List.dropLast_concat, remainsOfAll_append, remainsOfAll_append]
    simp only [remainsOfAll, List.append_nil]
    rw [remains_layout last last.tabs value]
  · rename_i none
    rw [List.getLast?_eq_none_iff.mp none]

/-- The kind of a node decides where it goes, and the kind stays. -/
theorem remainsOfAll_filter {p : Css → Bool}
    (byKind : ∀ c d : Css, c.kind = d.kind → p c = p d) (nodes : List Css) :
    remainsOfAll (nodes.filter p) = (remainsOfAll nodes).filter p := by
  induction nodes with
  | nil => rfl
  | cons c rest ih =>
    have kept : ∀ d ∈ c.remains, p d = p c := by
      intro d member
      obtain ⟨kind, children, line, filename, tabs, groupEnd⟩ := c
      unfold remains at member
      split at member
      · cases member
      · rw [List.mem_singleton.mp member]
        exact byKind _ _ rfl
    rw [remainsOfAll, List.filter_append, ← ih]
    cases holds : p c with
    | true =>
      rw [List.filter_cons_of_pos holds, remainsOfAll,
        List.filter_eq_self.mpr fun d member => (kept d member).trans holds]
    | false =>
      rw [List.filter_cons_of_neg (by simp [holds]),
        List.filter_eq_nil_iff.mpr fun d (member : d ∈ c.remains) => by simp [kept d member, holds],
        List.nil_append]

/-- Comments that are not preserved do not remain. -/
theorem remainsOfAll_filter_plain (nodes : List Css) :
    remainsOfAll (nodes.filter fun c => !c.isPlainComment) = remainsOfAll nodes := by
  induction nodes with
  | nil => rfl
  | cons c rest ih =>
    cases plain : c.isPlainComment with
    | false => rw [List.filter_cons_of_pos (by simp [plain]), remainsOfAll, remainsOfAll, ih]
    | true =>
      have gone : c.remains = [] := by
        obtain ⟨kind, children, line, filename, tabs, groupEnd⟩ := c
        unfold remains
        rw [if_pos]
        exact Bool.or_eq_true_iff.mpr (.inl plain)
      rw [List.filter_cons_of_neg (by simp [plain]), remainsOfAll, ih, gone, List.nil_append]

end Css

namespace Flatten

open Css

/-- What remains of a rule, from what remains below it. -/
def remainsOfRule (rule : Css) (below : List Css) : List Css :=
  let own := below.filter fun c => !(c.isRule || c.isMedia)
  let inner := below.filter fun c => c.isRule || c.isMedia
  if own.isEmpty then inner else { rule with children := own, tabs := 0, groupEnd := false } :: inner

/-- What remains of a query, from what remains below it. -/
def remainsOfMedia (media : Css) (query : String) (below : List Css) : List Css :=
  let own := below.filter fun c => !c.isMedia
  let inner := (below.filter Css.isMedia).map (joinQuery query)
  if own.isEmpty then inner else { media with children := own, tabs := 0, groupEnd := false } :: inner

/-- A rule or a query around some nodes remains if something remains in it. -/
theorem remains_block {c : Css} (isBlock : (c.isRule || c.isMedia) = true) (own : List Css) :
    remains { c with children := own } =
      if (remainsOfAll own).isEmpty then []
      else [{ c with children := remainsOfAll own, tabs := 0, groupEnd := false }] := by
  obtain ⟨kind, children, line, filename, tabs, groupEnd⟩ := c
  unfold remains
  cases kind with
  | rule selector => simp [isSpent, isRule, isPlainComment]
  | media query => simp [isSpent, isMedia, isPlainComment]
  | _ => cases isBlock

theorem remainsOfAll_own (style : Style) (below : List Css) :
    remainsOfAll (ownOfRule style below) =
      (remainsOfAll below).filter fun c => !(c.isRule || c.isMedia) := by
  have byKind : ∀ c d : Css, c.kind = d.kind →
      (!(c.isRule || c.isMedia)) = !(d.isRule || d.isMedia) := by
    intro c d same
    simp only [isRule, isMedia, same]
  unfold ownOfRule
  cases compressed : style.isCompressed with
  | false =>
    simp only [Bool.false_and, Bool.not_false, Bool.and_true]
    exact remainsOfAll_filter byKind below
  | true =>
    simp only [Bool.true_and, ← List.filter_filter]
    rw [remainsOfAll_filter byKind, remainsOfAll_filter_plain]

theorem remainsOfAll_assembleRule (style : Style) {rule : Css} (isRule : rule.isRule = true)
    (outermost : Bool) (below : List Css) :
    remainsOfAll (assembleRule style rule outermost below) =
      remainsOfRule rule (remainsOfAll below) := by
  have unmarked : remainsOfAll (assembleRule style rule outermost below) =
      remainsOfAll (assembleRule style rule false below) := by
    cases outermost with
    | false => rfl
    | true => exact remainsOfAll_setGroupEnd true _
  have inner : remainsOfAll (below.filter fun c => c.isRule || c.isMedia) =
      (remainsOfAll below).filter fun c => c.isRule || c.isMedia :=
    remainsOfAll_filter (fun c d same => by simp only [Css.isRule, isMedia, same]) below
  have deeper : ∀ c : Css,
      remains (if style == .nested then { c with tabs := c.tabs + 1 } else c) = c.remains := by
    intro c
    split
    · exact remains_layout c (c.tabs + 1) c.groupEnd
    · rfl
  have own := remainsOfAll_own style below
  rw [unmarked]
  unfold assembleRule remainsOfRule
  simp only [Bool.false_eq_true, if_false]
  split
  · rename_i empty
    -- nothing of its own was found, so nothing remains of it either
    have none : remainsOfAll (ownOfRule style below) = [] := by
      unfold ownOfRule
      rw [List.isEmpty_iff.mp empty]
      rfl
    rw [inner, ← own, none]
    rfl
  · rw [remainsOfAll, remainsOfAll_map deeper, inner]
    have here := remains_block (c := rule) (by simp [isRule]) (ownOfRule style below)
    rw [own] at here
    unfold ownOfRule at here
    rw [here]
    split
    · rfl
    · rfl

theorem remains_joinQuery (query : String) (c : Css) :
    (joinQuery query c).remains = c.remains.map (joinQuery query) := by
  obtain ⟨kind, children, line, filename, tabs, groupEnd⟩ := c
  cases kind with
  | media inner =>
    have same : ∀ text, isSpent ⟨.media text, remainsOfAll children, line, filename, 0, false⟩ =
        (remainsOfAll children).isEmpty := fun _ => rfl
    simp only [joinQuery, remains, same]
    split
    · rfl
    · rfl
  | _ =>
    simp only [joinQuery, remains]
    split
    · rfl
    · rfl

theorem remainsOfAll_assembleMedia {media : Css} (isMedia : media.isMedia = true) (query : String)
    (below : List Css) :
    remainsOfAll (assembleMedia media query below) =
      remainsOfMedia media query (remainsOfAll below) := by
  have inner : remainsOfAll ((below.filter Css.isMedia).map (joinQuery query)) =
      ((remainsOfAll below).filter Css.isMedia).map (joinQuery query) := by
    rw [← remainsOfAll_filter fun c d same => by simp only [Css.isMedia, same]]
    generalize below.filter Css.isMedia = queries
    induction queries with
    | nil => rfl
    | cons c rest ih => simp [remainsOfAll, remains_joinQuery, ih]
  have own : remainsOfAll (below.filter fun c => !c.isMedia) =
      (remainsOfAll below).filter fun c => !c.isMedia :=
    remainsOfAll_filter (fun c d same => by simp only [Css.isMedia, same]) below
  unfold assembleMedia remainsOfMedia
  dsimp only
  split
  · rename_i empty
    rw [inner, ← own, List.isEmpty_iff.mp empty]
    rfl
  · rw [remainsOfAll, inner, remains_block (by simp [isMedia]), own]
    split
    · rfl
    · rfl

end Flatten

/-! ### Values -/

namespace Color

theorem hexText_ne_empty (color : Color) : color.hexText ≠ "" := by
  simp [hexText]

theorem ne_empty_of_name? {color : Color} {name : String} (named : color.name? = some name) :
    name ≠ "" := by
  obtain ⟨entry, found, rfl⟩ := Option.map_eq_some_iff.mp named
  have filled : ∀ entry ∈ names, entry.1 ≠ "" := by decide
  exact filled entry (List.mem_of_find?_eq_some found)

theorem shortestText_ne_empty (color : Color) : color.shortestText ≠ "" := by
  unfold shortestText
  extract_lets short
  have filled : short ≠ "" := by
    unfold short
    split
    · split
      · simp
      · exact color.hexText_ne_empty
    · exact color.hexText_ne_empty
  split
  · rename_i name isNamed
    split
    · exact ne_empty_of_name? isNamed
    · exact filled
  · exact filled

/-- A color has a text in every style. -/
theorem toCss_ne_empty (color : Color) (style : Style) : color.toCss style ≠ "" := by
  unfold toCss
  split
  · change "rgba(" ++ _ ++ ")" ≠ ""
    simp
  · split
    · exact color.shortestText_ne_empty
    · split
      · rename_i text isText
        obtain ⟨spelling, _, rfl⟩ := Option.map_eq_some_iff.mp isText
        exact spelling.filled
      · cases named : color.name? with
        | none => exact color.hexText_ne_empty
        | some name => exact ne_empty_of_name? named

end Color

namespace Value

/-- Items are joined to nothing only if there is none, or a single one without a text. -/
theorem isEmpty_intercalate {separator : String} (filled : separator ≠ "") (parts : List String) :
    (separator.intercalate parts).isEmpty =
      match parts.map String.isEmpty with
      | [] => true
      | [empty] => empty
      | _ => false := by
  match parts with
  | [] => rfl
  | [part] => rfl
  | first :: second :: rest =>
    have long : separator.intercalate (first :: second :: rest) ≠ "" := by
      rw [String.intercalate_cons_cons]
      simp [filled]
    simpa using long

mutual

/-- Whether a value has a text does not depend on the style. -/
theorem map_isEmpty_toCss (s t : Style) :
    (v : Value) → (v.toCss s).map String.isEmpty = (v.toCss t).map String.isEmpty
  | number n => by simp only [toCss]
  | color c => by
    have text : ∀ style, (c.toCss style).isEmpty = false := by
      intro style
      simpa using c.toCss_ne_empty style
    simp only [toCss, Except.map, text]
  | text content quoted => by simp only [toCss]
  | bool b => by simp only [toCss]
  | list [] separator => by simp only [toCss]
  | list (item :: rest) separator => by
    have items := map_isEmpty_itemsToCss s t (item :: rest)
    have filled : ∀ style, separator.toText style ≠ "" := by
      intro style
      cases separator <;> cases style <;> decide
    have joined : ∀ style parts, ((separator.toText style).intercalate parts).isEmpty =
        match parts.map String.isEmpty with
        | [] => true
        | [empty] => empty
        | _ => false := fun style parts => isEmpty_intercalate (filled style) parts
    simp only [toCss]
    generalize itemsToCss s (item :: rest) = one at items ⊢
    generalize itemsToCss t (item :: rest) = other at items ⊢
    cases one <;> cases other <;> simp_all [Except.map, bind, Except.bind]

theorem map_isEmpty_itemsToCss (s t : Style) :
    (items : List Value) → (itemsToCss s items).map (List.map String.isEmpty) =
      (itemsToCss t items).map (List.map String.isEmpty)
  | [] => by simp only [itemsToCss]
  | item :: rest => by
    have first := map_isEmpty_toCss s t item
    have others := map_isEmpty_itemsToCss s t rest
    simp only [itemsToCss]
    split
    · exact others
    · generalize item.toCss s = one at first ⊢
      generalize item.toCss t = other at first ⊢
      generalize itemsToCss s rest = ones at others ⊢
      generalize itemsToCss t rest = more at others ⊢
      cases one <;> cases other <;> cases ones <;> cases more <;>
        simp_all [Except.map, bind, Except.bind]

end

end Value

namespace Flatten

open Css

theorem hasText_style (s t : Style) (value : Option Value) :
    hasText s value = hasText t value := by
  cases value with
  | none => rfl
  | some v =>
    have same := v.map_isEmpty_toCss s t
    unfold hasText
    dsimp only
    generalize v.toCss s = one at same ⊢
    generalize v.toCss t = other at same ⊢
    cases one <;> cases other <;> simp_all [Except.map]

/-- Contexts that differ in the layout only. -/
inductive Context.Alike : Context → Context → Prop where
  | refl (context : Context) : Alike context context
  | property (name : String) (tabs tabs' : Nat) (hasValue : Bool) :
      Alike (.property name tabs hasValue) (.property name tabs' hasValue)

/-- What is seen of a result in every style: what remains of the nodes, and the state. -/
def seen (result : Except Diagnostic (List Css × State)) : Except Diagnostic (List Css × State) :=
  result.map fun found => (remainsOfAll found.1, found.2)

/-- Two ways to flatten of which the same is seen. -/
def SeenAlike (a b : Flattening (List Css)) : Prop :=
  ∀ state, seen (a state) = seen (b state)

section Rules

variable {a b : Flattening (List Css)} {next next' : List Css → Flattening (List Css)}

theorem SeenAlike.refl (a : Flattening (List Css)) : SeenAlike a a :=
  fun _ => rfl

theorem SeenAlike.pure {out out' : List Css} (same : remainsOfAll out = remainsOfAll out') :
    SeenAlike (pure out) (pure out') := by
  intro state
  change seen (.ok (out, state)) = seen (.ok (out', state))
  simp only [seen, Except.map, same]

theorem SeenAlike.lift_bind {action : Except Diagnostic α} {next next' : α → Flattening (List Css)}
    (behind : ∀ a, SeenAlike (next a) (next' a)) :
    SeenAlike (liftM action >>= next) (liftM action >>= next') := by
  intro state
  cases action with
  | error error => rfl
  | ok a => exact behind a state

theorem SeenAlike.bind (first : SeenAlike a b)
    (behind : ∀ {state middle below below'}, a state = .ok (below, middle) →
      b state = .ok (below', middle) → remainsOfAll below = remainsOfAll below' →
      seen (next below middle) = seen (next' below' middle)) :
    SeenAlike (a >>= next) (b >>= next') := by
  intro state
  have same := first state
  simp only [Bind.bind, StateT.bind, Except.bind]
  cases found : a state with
  | error error =>
    cases found' : b state with
    | error error' => simpa [seen, found, found', Except.map] using same
    | ok pair => simp [seen, found, found', Except.map] at same
  | ok pair =>
    cases found' : b state with
    | error error => simp [seen, found, found', Except.map] at same
    | ok pair' =>
      simp only [seen, found, found', Except.map, Except.ok.injEq, Prod.mk.injEq] at same
      obtain ⟨below, middle⟩ := pair
      obtain ⟨below', middle'⟩ := pair'
      obtain ⟨remain, rfl⟩ := same
      exact behind found found' remain

theorem SeenAlike.located (line : Nat) (filename : Option String) (same : SeenAlike a b) :
    SeenAlike (located line filename a) (located line filename b) := by
  intro state
  have result := same state
  unfold Flatten.located
  cases found : a state with
  | error error =>
    cases found' : b state with
    | error error' =>
      simp only [seen, found, found', Except.map, Except.error.injEq] at result
      rw [result]
    | ok pair => simp [seen, found, found', Except.map] at result
  | ok pair =>
    cases found' : b state with
    | error error => simp [seen, found, found', Except.map] at result
    | ok pair' => simpa [seen, found, found', Except.map] using result

end Rules

section Parts

variable {style : Style} {context : Context} {state final : State} {out : List Css}

/-- A property or a comment is not lost. -/
theorem node_ne_nil_of_part {c : Css} (part : c.isPropertyPart = true)
    (ok : node style context c state = .ok (out, final)) : out ≠ [] := by
  obtain ⟨kind, children, line, filename, tabs, groupEnd⟩ := c
  cases kind with
  | property name value =>
    obtain ⟨below, _, assembled⟩ := node_property_ok ok
    unfold assembleProperty at assembled
    split at assembled
    · cases assembled
      simp
    · split at assembled
      · cases assembled
      · rename_i filled
        cases assembled
        simpa using filled
  | comment text preserved =>
    rw [(pure_ok ok).1]
    simp
  | _ => cases part

theorem isEmpty_nodes_of_parts {children : List Css}
    (parts : ∀ c ∈ children, c.isPropertyPart = true)
    (ok : nodes style context children state = .ok (out, final)) :
    out.isEmpty = children.isEmpty := by
  cases children with
  | nil => rw [(nodes_nil_ok ok).1]
  | cons c rest =>
    obtain ⟨first, others, middle, head, _, rfl⟩ := nodes_cons_ok ok
    have filled := node_ne_nil_of_part (parts c List.mem_cons_self) head
    cases first with
    | nil => exact absurd rfl filled
    | cons => rfl

end Parts

section Nodes

variable {s t : Style} {context context' : Context}

theorem Context.Alike.selector? (alike : context.Alike context') :
    context.selector? = context'.selector? := by
  cases alike with
  | refl => rfl
  | property => rfl

theorem resolve_alike (alike : context.Alike context') (selector : Selector) (line : Nat) :
    resolve selector context line = resolve selector context' line := by
  unfold resolve
  rw [alike.selector?]

/-- The full name of a property and the property by that name, up to its layout. -/
theorem joinName_alike (alike : context.Alike context') (c : Css) (name : String)
    (value : Option Value) :
    (joinName s context c name value).2 = (joinName t context' c name value).2 ∧
      ∃ tabs, (joinName t context' c name value).1 =
        { (joinName s context c name value).1 with tabs } := by
  obtain ⟨kind, children, line, filename, tabs, groupEnd⟩ := c
  cases alike with
  | refl context =>
    cases context with
    | property => exact ⟨rfl, _, rfl⟩
    | _ => exact ⟨rfl, tabs, rfl⟩
  | property => exact ⟨rfl, _, rfl⟩

/-- A declaration is put together in the same way, if there is something below it in both styles
or in none. -/
theorem seen_assembleProperty {c c' : Css} {tabs : Nat} (same : c' = { c with tabs })
    {name : String} {hasValue : Bool} {below below' : List Css}
    (remain : remainsOfAll below = remainsOfAll below') (empty : below.isEmpty = below'.isEmpty)
    (state : State) :
    seen ((liftM (assembleProperty c name hasValue below) : Flattening (List Css)) state) =
      seen ((liftM (assembleProperty c' name hasValue below') : Flattening (List Css)) state) := by
  subst same
  have front : remainsOfAll ({ c with children := [] } :: below) =
      remainsOfAll ({ c with children := [], tabs } :: below') := by
    rw [remainsOfAll, remainsOfAll, remain]
    exact congrArg (· ++ _) (remains_layout { c with children := [] } tabs c.groupEnd).symm
  unfold assembleProperty
  rw [← empty]
  cases hasValue with
  | true => exact SeenAlike.pure front state
  | false =>
    cases below.isEmpty with
    | true => rfl
    | false => exact SeenAlike.pure remain state

-- The induction follows the tree; each case puts together what is seen below it.
mutual

theorem node_seenAlike (context context' : Context) (alike : context.Alike context') :
    (c : Css) → c.Everywhere HoldsParts → SeenAlike (node s context c) (node t context' c)
  | ⟨.rule selector, children, line, filename, tabs, groupEnd⟩, static => by
    unfold node
    rw [resolve_alike alike]
    have outermost : (!context.isRule) = !context'.isRule := by
      cases alike with
      | refl => rfl
      | property => rfl
    refine .lift_bind fun resolved => ?_
    refine (nodes_seenAlike _ _ (.refl _) children static.inner).bind fun _ _ remain => ?_
    apply SeenAlike.pure
    rw [remainsOfAll_assembleRule s rfl, remainsOfAll_assembleRule t rfl, remain]
  | ⟨.media query, children, line, filename, tabs, groupEnd⟩, static => by
    have plain : ∀ below below', remainsOfAll below = remainsOfAll below' →
        remainsOfAll (assembleMedia ⟨.media query, [], line, filename, tabs, groupEnd⟩ query below) =
        remainsOfAll
          (assembleMedia ⟨.media query, [], line, filename, tabs, groupEnd⟩ query below') := by
      intro below below' remain
      rw [remainsOfAll_assembleMedia rfl, remainsOfAll_assembleMedia rfl, remain]
    unfold node
    cases alike with
    | refl context =>
      cases context with
      | rule selector ruleLine ruleFilename ruleTabs =>
        refine .lift_bind fun resolved => ?_
        refine (nodes_seenAlike _ _ (.refl _) children static.inner).bind fun _ _ remain => ?_
        apply SeenAlike.pure
        apply plain
        rw [remainsOfAll_setGroupEnd, remainsOfAll_setGroupEnd, remainsOfAll_assembleRule s rfl,
          remainsOfAll_assembleRule t rfl, remain]
      | _ =>
        refine (nodes_seenAlike _ _ (.refl _) children static.inner).bind fun _ _ remain => ?_
        exact SeenAlike.pure (plain _ _ remain) _
    | property =>
      refine (nodes_seenAlike _ _ (.refl _) children static.inner).bind fun _ _ remain => ?_
      exact SeenAlike.pure (plain _ _ remain) _
  | ⟨.property name value, children, line, filename, tabs, groupEnd⟩, static => by
    have parts : ∀ d ∈ children, d.isPropertyPart = true := static.here rfl
    obtain ⟨sameName, outerTabs, sameNode⟩ := joinName_alike (s := s) (t := t) alike
      ⟨.property name value, [], line, filename, tabs, groupEnd⟩ name value
    unfold node
    dsimp only
    rw [hasText_style s t value, ← sameName]
    refine (nodes_seenAlike _ _ (.property _ _ _ _) children static.inner).bind ?_
    intro state middle below below' found found' remain
    refine seen_assembleProperty sameNode remain ?_ middle
    rw [isEmpty_nodes_of_parts parts found, isEmpty_nodes_of_parts parts found']
  | ⟨.directive name params hasBlock, children, line, filename, tabs, groupEnd⟩, static => by
    unfold node
    refine (nodes_seenAlike _ _ (.refl _) children static.inner).bind fun _ _ remain => ?_
    apply SeenAlike.pure
    simp only [remainsOfAll, remains, remain]
  | ⟨.extend selector, children, line, filename, tabs, groupEnd⟩, _ => by
    unfold node
    cases alike with
    | refl => exact .refl _
    | property => exact .refl _
  | ⟨.charset name, children, line, filename, tabs, groupEnd⟩, _ => by
    unfold node
    exact .refl _
  | ⟨.comment text preserved, children, line, filename, tabs, groupEnd⟩, _ => .refl _
  | ⟨.importing uri, children, line, filename, tabs, groupEnd⟩, _ => .refl _
  | ⟨.root, children, line, filename, tabs, groupEnd⟩, _ => .refl _

theorem nodes_seenAlike (context context' : Context) (alike : context.Alike context') :
    (children : List Css) → (∀ c ∈ children, c.Everywhere HoldsParts) →
      SeenAlike (nodes s context children) (nodes t context' children)
  | [], _ => .refl _
  | c :: rest, static => by
    unfold nodes
    have head := node_seenAlike context context' alike c (static c List.mem_cons_self)
    have tail := nodes_seenAlike context context' alike rest
      fun d member => static d (List.mem_cons_of_mem c member)
    refine (head.located c.line c.filename).bind fun _ _ first => ?_
    refine tail.bind (fun _ _ others => ?_) _
    apply SeenAlike.pure
    rw [remainsOfAll_append, remainsOfAll_append, first, others]

end

end Nodes

end Flatten

namespace Css

/-- In all styles the same remains of the flat tree and the same extensions are recorded, or
flattening fails with the same error. -/
theorem flatten_across_styles {root : Css} (static : root.IsStaticSource) (s t : Style) :
    (root.flatten s).map (fun found => (found.1.remains, found.2)) =
      (root.flatten t).map fun found => (found.1.remains, found.2) := by
  have same := Flatten.nodes_seenAlike (s := s) (t := t) .root .root (.refl _) root.children
    static.holdsParts ⟨.empty, false⟩
  unfold flatten
  simp only [StateT.run, bind, Except.bind]
  generalize Flatten.nodes s .root root.children ⟨.empty, false⟩ = one at same ⊢
  generalize Flatten.nodes t .root root.children ⟨.empty, false⟩ = other at same ⊢
  cases one <;> cases other <;> simp_all [Flatten.seen, Except.map, pure, Except.pure, node, remains]

/-- A rule and a query that hold nothing but a comment, and properties below others. -/
def commentedSource : String :=
  "a { /* b */ } @media print { c { /* d */ e { f: g; @extend a; } } h { i: { /* j */ k: l; } } }"

theorem flatten_across_styles_of_comments :
    ∃ root : Css, root.IsStaticSource ∧ ∃ nested compressed,
      root.flatten .nested = .ok nested ∧ root.flatten .compressed = .ok compressed ∧
      nested.1.remains = compressed.1.remains ∧ nested.2 = compressed.2 := by
  have spelled : commentedSource.toList = _ := String.toList_ofList
  have succeeds : (Compilation.run (Compiler.braces.context Compiler.noFiles) commentedSource
      none).1.isOk = true := by
    rw [Compilation.run, Statement.parse_of_toList spelled]
    decide +kernel
  obtain ⟨compiled, ok⟩ := exists_of_isOk succeeds
  obtain ⟨root, tree, state, flat, extensions, parsed, accepted, evaluated, flattened, _⟩ :=
    Compilation.run_ok ok
  have static : tree.IsStaticSource :=
    ⟨_, commentedSource, none, root, state, parsed, accepted, evaluated⟩
  have same := flatten_across_styles static .nested .compressed
  have nested : tree.flatten .nested = .ok (flat, extensions) := flattened
  cases compressed : tree.flatten .compressed with
  | error error => simp [nested, compressed, Except.map] at same
  | ok other =>
    simp only [nested, compressed, Except.map, Except.ok.injEq, Prod.mk.injEq] at same
    exact ⟨tree, static, (flat, extensions), other, nested, compressed, same.1, same.2⟩

end Css

end Stylesheet
