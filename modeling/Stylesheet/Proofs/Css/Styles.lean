import Stylesheet.Proofs.Css.Plain

/-! The four styles write the same. What each style puts around declarations, rules and blocks comes
to the plain text of the tree, if blanks and the semicolons in front of closing braces do not
count. -/

namespace Stylesheet

open Text

namespace Layout

open Css

variable {style : Style} {tabs : Nat}

/-- The semicolon that is not written until something follows a declaration. -/
def pending (style : Style) (afterProperty : Bool) : String :=
  if style.isCompressed && afterProperty then ";" else ""

theorem pending_false (style : Style) : pending style false = "" := by
  simp [pending]

theorem pending_of_not_compressed (loose : style.isCompressed = false) (afterProperty : Bool) :
    pending style afterProperty = "" := by
  simp [pending, loose]

theorem spells_declaration {name : String} {value : Value} (isName : IsAscii name)
    (isValue : IsAscii (value.written .compressed)) (colorless : value.isColorless = true) :
    Spells (declaration ⟨style, false⟩ tabs name value ++ pending style true)
      (name ++ ":" ++ value.written .compressed ++ ";") := by
  have spells := spells_of_unspaced isValue (Value.unspaced_written style .compressed colorless)
  have head := (spells_indent tabs).append isName.spells
  have colon : Spells ":" ":" := IsAscii.spells (by decide)
  have wide : Spells ": " ":" := spells_of_unblanked (by decide) (by decide)
  change Spells ((if style.isCompressed then indent tabs ++ name ++ ":" ++ value.written style
    else indent tabs ++ name ++ ": " ++ value.written style ++ ";") ++ _) _
  unfold pending
  cases style.isCompressed with
  | true => simpa using ((head.append colon).append spells).append spells_semicolon
  | false => simpa using ((head.append wide).append spells).append spells_semicolon

/-- The declarations of a rule with blanks between them. -/
theorem spells_spread {head selector opens divider closes gap : String}
    {declarations plains : List String} (isHead : Spells head selector)
    (isOpen : Spells opens "\x7b") (isDivider : Spells divider "") (isClose : Spells closes "\x7d")
    (isGap : Spells gap "") (each : List.Forall₂ Spells declarations plains) :
    Spells (head ++ opens ++ divider.intercalate declarations ++ closes ++ gap)
      (selector ++ "\x7b" ++ String.join plains ++ "\x7d") := by
  simpa using (((isHead.append isOpen).append (spells_intercalate isDivider each)).append
    isClose).append isGap

theorem spells_rule {selector : Selector} {groupEnd : Bool} {declarations plains : List String}
    (isSelector : IsAscii (selector.toCss .compressed))
    (each : List.Forall₂ (fun text plain => Spells (text ++ pending style true) plain)
      declarations plains) :
    Spells (rule ⟨style, false⟩ tabs selector groupEnd declarations)
      (selector.toCss .compressed ++ "\x7b" ++ String.join plains ++ "\x7d") := by
  have head : Spells (indent tabs ++ selector.toCss style) (selector.toCss .compressed) := by
    simpa using (spells_indent tabs).append
      (spells_of_unspaced isSelector (Selector.unspaced_toCss style .compressed selector))
  have gap : Spells (if groupEnd then "\n" else "") "" := by
    split
    · exact spells_line
    · exact spells_empty
  have opens : Spells " \x7b\n" "\x7b" := spells_of_unblanked (by decide) (by decide)
  have closes : Spells " \x7d" "\x7d" := spells_of_unblanked (by decide) (by decide)
  cases style with
  | compressed =>
    have tight : Spells "\x7b" "\x7b" := IsAscii.spells (by decide)
    simpa [rule, String.append_assoc] using (head.append tight).append (spells_separated each)
  | nested =>
    exact spells_spread head opens spells_line closes gap
      (by simpa [pending, Style.isCompressed] using each)
  | compact =>
    have opens : Spells " \x7b " "\x7b" := spells_of_unblanked (by decide) (by decide)
    exact spells_spread head opens spells_space closes gap
      (by simpa [pending, Style.isCompressed] using each)
  | expanded =>
    have closes : Spells ("\n" ++ indent tabs ++ "\x7d") "\x7d" := by
      simpa using (spells_line.append (spells_indent tabs)).append spells_brace
    have whole := spells_spread head opens spells_line closes gap
      (by simpa [pending, Style.isCompressed] using each)
    simpa [rule, String.append_assoc] using whole

/-- Text that goes on in the block of a directive, behind what was written there before. -/
def added (layout : Layout) (tabs : Nat) (isFirst afterProperty : Bool) (text : String) (c : Css) :
    String :=
  match layout.style with
  | .compact =>
    if c.isProperty then
      text ++ node layout (if isFirst || afterProperty then 0 else tabs + 1) c ++ " "
    else
      let text := if afterProperty then dropLast text ++ "\n" else text
      let own := node layout (tabs + 1) c
      text ++ Text.trimEnd (if isFirst then Text.trimStart own else own) ++ "\n"
  | .compressed => text ++ (if afterProperty then ";" else "") ++ node layout 0 c
  | .nested | .expanded => text ++ node layout (tabs + 1) c ++ "\n"

theorem items_cons (layout : Layout) (isFirst afterProperty : Bool) (text : String) (c : Css)
    (rest : List Css) :
    items layout tabs isFirst afterProperty text (c :: rest) =
      if layout.isVisible c then
        items layout tabs false c.isProperty (added layout tabs isFirst afterProperty text c) rest
      else items layout tabs isFirst afterProperty text rest := by
  rw [items]
  cases layout.isVisible c <;> rfl

/-- In this style a node comes to its plain text, at every indentation, if it is written at all. -/
structure WritesPlain (style : Style) (c : Css) : Prop where
  shown : isVisible ⟨style, false⟩ c = true → ∀ tabs,
    Spells (node ⟨style, false⟩ tabs c ++ pending style c.isProperty) (plain c)
  hidden : isVisible ⟨style, false⟩ c = false → plain c = ""

/-- In compact style declarations leave a space behind them. -/
def EndsInSpace (style : Style) (afterProperty : Bool) (text : String) : Prop :=
  style = .compact → afterProperty = true → text.toList.getLast? = some ' '

section Items

variable {c : Css} {isFirst afterProperty : Bool} {text before : String}

theorem endsInSpace_added :
    EndsInSpace style c.isProperty (added ⟨style, false⟩ tabs isFirst afterProperty text c) := by
  rintro rfl isProperty
  simp [added, isProperty]

/-- Where every declaration has its semicolon, only blanks come in between. -/
theorem spells_added_of_loose (loose : style.isCompressed = false)
    (own : ∀ tabs, Spells (node ⟨style, false⟩ tabs c) (plain c)) (spells : Spells text before)
    (ends : EndsInSpace style afterProperty text) :
    Spells (added ⟨style, false⟩ tabs isFirst afterProperty text c) (before ++ plain c) := by
  cases style with
  | compressed => cases loose
  | nested | expanded => simpa [added] using (spells.append (own (tabs + 1))).append spells_line
  | compact =>
    unfold added
    dsimp only
    split
    · simpa using (spells.append (own _)).append spells_space
    · have kept : Spells (if afterProperty then dropLast text ++ "\n" else text) before := by
        split
        · rename_i after
          simpa [dropLast] using (spells.dropLast (ends rfl after) (by decide)).append spells_line
        · exact spells
      have trimmed : Spells (Text.trimEnd (if isFirst then Text.trimStart
          (node ⟨.compact, false⟩ (tabs + 1) c) else node ⟨.compact, false⟩ (tabs + 1) c))
          (plain c) := by
        split
        · exact (own _).trimStart.trimEnd
        · exact (own _).trimEnd
      simpa using (kept.append trimmed).append spells_line

/-- One step in a block: what was written before, and the node at hand. -/
theorem spells_added
    (own : ∀ tabs, Spells (node ⟨style, false⟩ tabs c ++ pending style c.isProperty) (plain c))
    (spells : Spells (text ++ pending style afterProperty) before)
    (ends : EndsInSpace style afterProperty text) :
    Spells (added ⟨style, false⟩ tabs isFirst afterProperty text c ++ pending style c.isProperty)
      (before ++ plain c) := by
  cases compressed : style.isCompressed with
  | false =>
    simp only [pending_of_not_compressed compressed, String.append_empty] at own spells ⊢
    exact spells_added_of_loose compressed own spells ends
  | true =>
    cases style with
    | compressed =>
      simpa [added, pending, Style.isCompressed, String.append_assoc] using spells.append (own 0)
    | _ => cases compressed

/-- By induction on what is left of the block: a brace behind it closes the last declaration. -/
theorem spells_items {children : List Css} (each : ∀ c ∈ children, WritesPlain style c)
    (spells : Spells (text ++ pending style afterProperty) before)
    (ends : EndsInSpace style afterProperty text) :
    Spells (items ⟨style, false⟩ tabs isFirst afterProperty text children ++ "\x7d")
      (before ++ plainAll children ++ "\x7d") := by
  induction children generalizing isFirst afterProperty text before with
  | nil =>
    rw [items, plainAll, String.append_empty]
    unfold pending at spells
    split at spells
    · exact spells.close
    · exact (String.append_empty ▸ spells).append spells_brace
  | cons c rest ih =>
    have own := each c List.mem_cons_self
    have others := fun d member => each d (List.mem_cons_of_mem c member)
    rw [items_cons, plainAll]
    cases visible : isVisible ⟨style, false⟩ c with
    | true =>
      have step := @spells_added _ tabs c isFirst _ _ _ (own.shown visible) spells ends
      rw [if_pos rfl, ← String.append_assoc]
      exact ih others step endsInSpace_added
    | false =>
      rw [own.hidden visible, String.empty_append]
      exact ih others spells ends

end Items

theorem spells_closeBlock (style : Style) : Spells (closeBlock ⟨style, false⟩) "\x7d" := by
  cases style <;> exact spells_of_unblanked (by decide) (by decide)

theorem spells_openBlock {head : String} (ascii : IsAscii head) :
    Spells (openBlock ⟨style, false⟩ tabs head) (head ++ "\x7b") := by
  have indented : Spells (indent tabs ++ head) head := by
    simpa using (spells_indent tabs).append ascii.spells
  cases style with
  | compressed => exact ascii.spells.append (IsAscii.spells (by decide))
  | compact => exact indented.append (spells_of_unblanked (by decide) (by decide))
  | nested | expanded => exact indented.append (spells_of_unblanked (by decide) (by decide))

/-- A block of a directive or a media query. -/
def block (layout : Layout) (tabs : Nat) (head : String) (children : List Css) : String :=
  Text.trimEnd (items layout tabs true false (layout.openBlock tabs head) children) ++
    layout.closeBlock

theorem spells_block {head : String} {children : List Css} (ascii : IsAscii head)
    (each : ∀ c ∈ children, WritesPlain style c) :
    Spells (block ⟨style, false⟩ tabs head children)
      (head ++ "\x7b" ++ plainAll children ++ "\x7d") := by
  have start : Spells (openBlock ⟨style, false⟩ tabs head ++ pending style false)
      (head ++ "\x7b") := by
    rw [pending_false, String.append_empty]
    exact spells_openBlock ascii
  have inner := @spells_items style tabs true false _ _ children each start (by rintro _ ⟨⟩)
  have text : IsAscii (items ⟨style, false⟩ tabs true false (openBlock ⟨style, false⟩ tabs head)
      children) := by
    intro c member
    apply inner.ascii c
    rw [String.toList_append]
    exact List.mem_append_left _ member
  exact (text.spells.trimEnd.append (spells_closeBlock style)).trans inner

theorem spells_emptyBlock {head : String} (ascii : IsAscii head) :
    Spells (head ++ " \x7b\x7d") (head ++ "\x7b" ++ plainAll [] ++ "\x7d") := by
  have braces : Spells " \x7b\x7d" ("\x7b" ++ plainAll [] ++ "\x7d") :=
    spells_of_unblanked (by decide) (by decide)
  simpa only [String.append_assoc] using ascii.spells.append braces

/-- Only a line end is dropped behind a media query. -/
theorem spells_media {head before : String} {children : List Css}
    (spells : Spells (block ⟨style, false⟩ tabs head children) before) (groupEnd : Bool) :
    Spells
      (if !style.isCompressed && !groupEnd && (block ⟨style, false⟩ tabs head children).endsWith "\n"
        then dropLast (block ⟨style, false⟩ tabs head children)
        else block ⟨style, false⟩ tabs head children) before := by
  split
  · rename_i drops
    have loose : style.isCompressed = false := by
      simp only [Bool.and_eq_true, Bool.not_eq_true'] at drops
      exact drops.1.1
    apply spells.dropLast (c := '\n') ?_ (by decide)
    rw [block, String.toList_append]
    cases style with
    | compressed => cases loose
    | _ => simp [closeBlock]
  · exact spells

theorem isAscii_directiveHead {name params : String} (isName : IsAscii name)
    (areParams : IsAscii params) : IsAscii (directiveHead name params) := by
  unfold directiveHead
  split
  · exact isAscii_append (by decide) isName
  · exact isAscii_append (isAscii_append (isAscii_append (by decide) isName) (by decide)) areParams

theorem forall₂_nodes {children : List Css} {same : String → String → Prop}
    (visible : ∀ c ∈ children, isVisible ⟨style, false⟩ c = true)
    (each : ∀ c ∈ children, same (node ⟨style, false⟩ tabs c) (plain c)) :
    List.Forall₂ same (nodes ⟨style, false⟩ tabs children) (children.map plain) := by
  induction children with
  | nil => exact .nil
  | cons c rest ih =>
    rw [nodes, if_pos (visible c List.mem_cons_self)]
    refine .cons (each c List.mem_cons_self) (ih ?_ ?_)
    · exact fun d member => visible d (List.mem_cons_of_mem c member)
    · exact fun d member => each d (List.mem_cons_of_mem c member)

theorem isVisible_of_isProperty {layout : Layout} {c : Css} (isProperty : c.isProperty = true) :
    layout.isVisible c = true := by
  obtain ⟨kind, children, line, filename, tabs, groupEnd⟩ := c
  cases kind with
  | property => rfl
  | _ => cases isProperty

theorem hidden_plain {c : Css} (notComment : c.isComment = false) {layout : Layout}
    (hidden : layout.isVisible c = false) : plain c = "" := by
  obtain ⟨kind, children, line, filename, tabs, groupEnd⟩ := c
  cases kind with
  | charset => rfl
  | comment => cases notComment
  | _ => cases hidden

/-- Every style writes the plain text of a node. By induction on the tree. -/
theorem writesPlain_node {c : Css} (all : c.Everywhere IsComparable) (filled : c.Filled) :
    WritesPlain style c := by
  induction all with
  | @intro c here below ih =>
    refine ⟨fun visible tabs => ?_, hidden_plain here.notComment⟩
    obtain ⟨kind, children, line, filename, ownTabs, groupEnd⟩ := c
    cases kind with
    | root | extend =>
      rw [node, isProperty, pending_false, plain]
      · exact spells_empty
      all_goals simp
    | charset => cases visible
    | comment => cases here.notComment
    | importing uri =>
      have isUri : IsAscii uri := here.ascii uri (by simp [ownTexts])
      rw [node, isProperty, pending_false, plain, String.append_empty]
      exact (isAscii_append (by decide) isUri).spells.append spells_semicolon
    | property name value =>
      obtain ⟨value, rfl⟩ := filled.exists_value rfl
      rw [node, isProperty, plain]
      exact spells_declaration (here.ascii name (by simp [ownTexts]))
        (here.ascii _ (by simp [ownTexts])) here.colorless
    | rule selector =>
      have isSelector := here.ascii (selector.toCss .compressed) (by simp [ownTexts])
      have inner := filled.inner rfl rfl (by simp)
      have declarations := here.rule rfl
      have visible : ∀ d ∈ children, isVisible ⟨style, false⟩ d = true :=
        fun d member => isVisible_of_isProperty (declarations d member)
      rw [node, isProperty, pending_false, plain, String.append_empty, plainAll_eq_join]
      refine spells_rule isSelector (forall₂_nodes visible fun d member => ?_)
      have own := (ih d member (inner d member)).shown (visible d member)
      simpa [declarations d member] using own _
    | directive name params hasBlock =>
      have head := isAscii_directiveHead (here.ascii name (by simp [ownTexts]))
        (here.ascii params (by simp [ownTexts]))
      have each := fun d member => ih d member (filled.inner rfl rfl (by simp) d member)
      rw [node, isProperty, pending_false, plain, String.append_empty]
      cases hasBlock with
      | false => exact head.spells.append spells_semicolon
      | true =>
        cases children with
        | nil => exact spells_emptyBlock head
        | cons d rest => exact spells_block head each
    | media query =>
      have head := isAscii_append (by decide : IsAscii "@media ")
        (here.ascii query (by simp [ownTexts]))
      have each := fun d member => ih d member (filled.inner rfl rfl (by simp) d member)
      rw [node, isProperty, pending_false, plain, String.append_empty]
      cases children with
      | nil => exact spells_emptyBlock head
      | cons d rest => exact spells_media (spells_block head each) groupEnd

/-- The nodes of a whole stylesheet, each with the divider behind it. -/
theorem spells_top {children : List Css} {divider : String} (isDivider : Spells divider "")
    (top : ∀ c ∈ children, c.isProperty = false) (each : ∀ c ∈ children, WritesPlain style c) :
    Spells (String.join ((nodes ⟨style, false⟩ tabs children).map (· ++ divider)))
      (plainAll children) := by
  induction children with
  | nil =>
    rw [nodes, List.map_nil, plainAll]
    exact spells_empty
  | cons c rest ih =>
    have own := each c List.mem_cons_self
    have others := ih (fun d member => top d (List.mem_cons_of_mem c member))
      fun d member => each d (List.mem_cons_of_mem c member)
    rw [nodes, plainAll]
    cases visible : isVisible ⟨style, false⟩ c with
    | true =>
      have first := own.shown visible tabs
      rw [top c List.mem_cons_self, pending_false, String.append_empty] at first
      rw [if_pos rfl, List.map_cons, String.join_cons]
      simpa using (first.append isDivider).append others
    | false =>
      rw [own.hidden visible, String.empty_append]
      exact others

end Layout

namespace Css

section Texts

variable {flat : Css}

/-- An ASCII text needs no character set. -/
theorem essence_of_spells {text plain charset divider : String} (spells : Spells text plain) :
    essence (if text.isEmpty then ""
      else if text.toList.all (·.toNat < 0x80) then text ++ "\n"
      else "@charset \"" ++ charset ++ "\";" ++ divider ++ text ++ "\n").toList =
    essence plain.toList := by
  split
  · rename_i empty
    rw [String.isEmpty_iff.mp empty] at spells
    simpa using spells.same []
  · have ascii : text.toList.all (·.toNat < 0x80) = true := by
      rw [List.all_eq_true]
      exact fun c member => decide_eq_true (spells.ascii c member)
    rw [if_pos ascii]
    simpa using (spells.append spells_line).same []

/-- A stylesheet in any style comes to its plain text. -/
theorem essence_toText (style : Style) (comparable : flat.Everywhere IsComparable)
    (filled : ∀ c ∈ flat.children, c.Filled) (top : ∀ c ∈ flat.children, c.isProperty = false) :
    essence (flat.toText ⟨style, false⟩).toList = essence (plainAll flat.children).toList := by
  have divider : Spells (if style.isCompressed then "" else "\n") "" := by
    split
    · exact spells_empty
    · exact spells_line
  have each : ∀ c ∈ flat.children, Layout.WritesPlain style c :=
    fun c member => Layout.writesPlain_node (comparable.inner c member) (filled c member)
  exact essence_of_spells (Layout.spells_top divider top each).trimEnd

/-- All styles write the same, and that is the plain text of the tree. -/
theorem toText_styles {source : Css} {written : Style} {extensions : Extensions}
    (flattened : source.flatten written = .ok (flat, extensions))
    (comparable : flat.Everywhere IsComparable)
    (top : ∀ c ∈ flat.children, c.isProperty = false) (one other : Style) :
    essence (flat.toText ⟨one, false⟩).toList = essence (flat.toText ⟨other, false⟩).toList ∧
      essence (flat.toText ⟨one, false⟩).toList = essence (plainAll flat.children).toList := by
  have filled : ∀ c ∈ flat.children, c.Filled := by
    obtain ⟨children, final, found, rfl⟩ := flatten_ok flattened
    exact nodes_filled .root source.children found
  have first := essence_toText one comparable filled top
  have second := essence_toText other comparable filled top
  exact ⟨first.trans second.symm, first⟩

private def sampleRule (name : String) (children : List Css) : Css :=
  node (.rule [[.compound (.mk none [.className name])]]) children 1 none

private def sampleProperty (name : String) : Css :=
  node (.property name (some (.list [.unquoted "b", .unquoted "c"] .comma))) [] 1 none

/-- A media query in a rule, in the block of a directive. -/
def styledSample : Css :=
  node .root [
    node (.charset "utf-8") [] 1 none,
    node (.importing "url(d)") [] 1 none,
    node (.directive "supports" "(e)" true) [
      sampleProperty "f",
      node (.directive "g" "" false) [] 1 none,
      sampleRule "h" [
        sampleProperty "i", sampleProperty "j", node (.media "print") [sampleProperty "k"] 1 none]] 1 none] 1 none

/-- What flattening makes of it for nested output. -/
def flatSample : Css :=
  let query := node (.media "print") [sampleRule "h" [sampleProperty "k"]] 1 none
  node .root [
    node (.charset "utf-8") [] 1 none,
    node (.importing "url(d)") [] 1 none,
    node (.directive "supports" "(e)" true) [
      sampleProperty "f",
      node (.directive "g" "" false) [] 1 none,
      sampleRule "h" [sampleProperty "i", sampleProperty "j"],
      { query with tabs := 1, groupEnd := true }] 1 none] 1 none

theorem toText_styles_of_sample :
    ∃ extensions, styledSample.flatten .nested = .ok (flatSample, extensions) ∧
      flatSample.Everywhere IsComparable ∧ (∀ c ∈ flatSample.children, c.isProperty = false) ∧
      ∀ one other, essence (flatSample.toText ⟨one, false⟩).toList =
          essence (flatSample.toText ⟨other, false⟩).toList ∧
        essence (flatSample.toText ⟨one, false⟩).toList =
          essence (plainAll flatSample.children).toList := by
  have flattened : ∃ extensions, styledSample.flatten .nested = .ok (flatSample, extensions) := by
    with_unfolding_all exact ⟨_, rfl⟩
  have comparable : flatSample.Everywhere IsComparable := by
    simp only [flatSample, sampleRule, sampleProperty, node, everywhere_mk, List.forall_mem_cons, List.not_mem_nil,
      false_imp_iff, implies_true, and_true]
    decide +kernel
  have top : ∀ c ∈ flatSample.children, c.isProperty = false := by decide +kernel
  obtain ⟨extensions, ok⟩ := flattened
  exact ⟨extensions, ok, comparable, top, toText_styles ok comparable top⟩

end Texts

end Css

end Stylesheet
