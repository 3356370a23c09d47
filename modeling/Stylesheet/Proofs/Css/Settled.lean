import Stylesheet.Proofs.Css.Independence
import Stylesheet.Proofs.Css.Legible

/-! A tree for which source is written is settled: flattening it anew moves nothing, leaves nothing
out and records no extension. Only the layout may change. -/

namespace Stylesheet

open Css

/-- The text of a value is not empty. -/
theorem WrittenValue.text_ne_empty (value : WrittenValue) :
    String.ofList value.text ≠ "" := by
  intro empty
  have ends := value.ends
  rw [String.ofList_eq_empty_iff.mp empty] at ends
  cases ends

namespace Flatten

/-- A place where a node stays as it is, whatever stands in front of it. -/
def Context.takes (context : Context) (c : Css) : Bool :=
  !c.isCharset && match context with
  | .property .. => false
  | .rule .. => !c.isRule && !c.isMedia
  | _ => true

section Blocks

variable {style : Style} {below : List Css}

theorem setGroupEnd_singleton (value : Bool) (c : Css) :
    setGroupEnd value [c] = [{ c with groupEnd := value }] := rfl

theorem assembleRule_settled {rule : Css} (filled : below ≠ [])
    (stays : ∀ c ∈ below,
      c.isRule = false ∧ c.isMedia = false ∧ (style.isCompressed && c.isPlainComment) = false) :
    assembleRule style rule true below = [{ rule with children := below, groupEnd := true }] := by
  have own : below.filter (fun c => !(c.isRule || c.isMedia) &&
      !(style.isCompressed && c.isPlainComment)) = below := by
    refine List.filter_eq_self.mpr fun c member => ?_
    obtain ⟨notRule, notMedia, kept⟩ := stays c member
    simp [notRule, notMedia, kept]
  have inner : below.filter (fun c => c.isRule || c.isMedia) = [] := by
    refine List.filter_eq_nil_iff.mpr fun c member => ?_
    obtain ⟨notRule, notMedia, _⟩ := stays c member
    simp [notRule, notMedia]
  have notEmpty : below.isEmpty = false := by simpa using filled
  unfold assembleRule
  simp only [own, inner, notEmpty, Bool.false_eq_true, if_false, if_true, List.map_nil]
  exact setGroupEnd_singleton true _

theorem assembleMedia_settled {media : Css} {query : String} (filled : below ≠ [])
    (stays : ∀ c ∈ below, c.isMedia = false) :
    assembleMedia media query below = [{ media with children := below }] := by
  have own : below.filter (fun c => !c.isMedia) = below :=
    List.filter_eq_self.mpr fun c member => by simp [stays c member]
  have inner : below.filter Css.isMedia = [] :=
    List.filter_eq_nil_iff.mpr fun c member => by simp [stays c member]
  have notEmpty : below.isEmpty = false := by simpa using filled
  unfold assembleMedia
  simp only [own, inner, notEmpty, List.map_nil, Bool.false_eq_true, if_false]

theorem hasText_of_shown {v : Value} {text : String} (shown : v.toCss .nested = .ok text)
    (filled : text ≠ "") : hasText style (some v) = true := by
  rw [hasText_style style .nested]
  unfold hasText
  simp [shown, filled]

theorem located_eq {line : Nat} {filename : Option String} {action : Flattening α}
    {state final : State} {a : α} (ok : action state = .ok (a, final)) :
    located line filename action state = .ok (a, final) := by
  unfold located
  rw [ok]

end Blocks

section Nodes

variable {children : List Css} {line : Nat} {filename : Option String} {tabs : Nat} {groupEnd : Bool}
  {style : Style} {context : Context} {state : State}

theorem nodes_cons_eq {c d : Css} {rest others : List Css} {middle final : State}
    (first : node style context c state = .ok ([d], middle))
    (behind : nodes style context rest middle = .ok (others, final)) :
    nodes style context (c :: rest) state = .ok (d :: others, final) := by
  unfold nodes
  change (located _ _ _ _ >>= fun found => _) = _
  rw [located_eq first]
  change (nodes style context rest middle >>= fun found => _) = _
  rw [behind]
  rfl

theorem node_rule_eq {selector : Selector} {below : List Css} (isTop : selector.hasParentRef = false)
    (outside : context.isRule = false)
    (inner : nodes style (.rule selector line filename tabs) children state = .ok (below, state)) :
    node style context ⟨.rule selector, children, line, filename, tabs, groupEnd⟩ state =
      .ok (assembleRule style ⟨.rule selector, [], line, filename, tabs, groupEnd⟩ true below,
        state) := by
  have noSelector : context.selector? = none := by
    cases context with
    | rule => cases outside
    | _ => rfl
  have resolved : resolve selector context line = .ok selector := by
    unfold resolve Selector.resolveParent
    simp [noSelector, isTop]
  unfold node
  rw [resolved, outside]
  change (nodes _ _ _ _ >>= fun found => _) = _
  rw [inner]
  rfl

theorem node_media_eq {query : String} {below : List Css} (outside : context.isRule = false)
    (inner : nodes style .media children state = .ok (below, state)) :
    node style context ⟨.media query, children, line, filename, tabs, groupEnd⟩ state =
      .ok (assembleMedia ⟨.media query, [], line, filename, tabs, groupEnd⟩ query below, state) := by
  unfold node
  cases context with
  | rule => cases outside
  | _ =>
    change (nodes _ _ _ _ >>= fun found => _) = _
    rw [inner]
    rfl

theorem node_directive_eq {name params : String} {hasBlock : Bool} {below : List Css}
    (inner : nodes style .directive children state = .ok (below, state)) :
    node style context ⟨.directive name params hasBlock, children, line, filename, tabs, groupEnd⟩
      state = .ok ([⟨.directive name params hasBlock, below, line, filename, tabs, groupEnd⟩],
        state) := by
  unfold node
  change (nodes _ _ _ _ >>= fun found => _) = _
  rw [inner]
  rfl

theorem node_property_eq {name : String} {value : Option Value}
    (outside : ∀ name tabs hasValue, context ≠ .property name tabs hasValue)
    (filled : hasText style value = true) :
    node style context ⟨.property name value, [], line, filename, tabs, groupEnd⟩ state =
      .ok ([⟨.property name value, [], line, filename, tabs, groupEnd⟩], state) := by
  unfold node nodes
  cases context with
  | property name tabs hasValue => exact absurd rfl (outside name tabs hasValue)
  | _ =>
    simp only [joinName, filled]
    rfl

theorem node_charset_eq {name : String} (fresh : state.charsetSeen = false) :
    node style context ⟨.charset name, children, line, filename, tabs, groupEnd⟩ state =
      .ok ([⟨.charset name, children, line, filename, tabs, groupEnd⟩],
        { state with charsetSeen := true }) := by
  unfold node
  change (ite (state.charsetSeen = true) (pure []) _ : Flattening _) state = _
  rw [fresh]
  rfl

theorem nodes_nil_eq : nodes style context [] state = .ok ([], state) := by
  unfold nodes
  rfl

end Nodes

end Flatten

open Flatten

theorem Css.not_charset_of_admits {kind : CssKind} {c : Css} (admitted : admits kind c = true) :
    c.isCharset = false := by
  obtain ⟨inside, _⟩ := Bool.and_eq_true_iff.mp admitted
  cases isCharset : c.isCharset with
  | false => rfl
  | true =>
    rw [isOutermost_of_isCharset isCharset] at inside
    cases inside

/-- A statement without a block stays as it is. -/
theorem Leaf.Prints.flatten (style : Style) {l : Leaf} {kind : CssKind} {line tabs : Nat} {filename : Option String}
    {groupEnd : Bool} {context : Context} (prints : l.Prints kind)
    (taken : context.takes ⟨kind, [], line, filename, tabs, groupEnd⟩ = true) (state : State) :
    node style context ⟨kind, [], line, filename, tabs, groupEnd⟩ state =
      .ok ([⟨kind, [], line, filename, tabs, groupEnd⟩], state) := by
  cases l with
  | declaration name value =>
    obtain ⟨_, _, v, rfl, shown⟩ := prints
    refine node_property_eq ?_ (hasText_of_shown shown value.text_ne_empty)
    rintro _ _ _ rfl
    cases taken
  | directive head =>
    obtain rfl := prints
    exact node_directive_eq nodes_nil_eq
  | charset name =>
    obtain rfl := prints
    cases taken
  | importing target =>
    obtain rfl := prints
    unfold Flatten.node
    rfl

namespace Written

variable {style : Style}

/-- Compressed output leaves out no comment for which something is written. -/
theorem Prints.keeps : (w : Written) → (c : Css) → w.Prints style c →
    (style.isCompressed && c.isPlainComment) = false
  | .block opening body, ⟨kind, children, line, filename, tabs, groupEnd⟩, prints => by
    have heads : opening.Heads kind := prints.1
    have notComment : isPlainComment ⟨kind, children, line, filename, tabs, groupEnd⟩ = false := by
      cases opening <;> cases kind <;> first | rfl | exact absurd heads id
    rw [notComment, Bool.and_false]
  | .leaf l, ⟨kind, children, line, filename, tabs, groupEnd⟩, prints => by
    have isKind : l.Prints kind := prints.2
    have notComment : isPlainComment ⟨kind, children, line, filename, tabs, groupEnd⟩ = false := by
      cases l with
      | declaration name value =>
        obtain ⟨_, _, v, rfl, _⟩ := isKind
        rfl
      | directive | charset | importing =>
        obtain rfl := isKind
        rfl
    rw [notComment, Bool.and_false]
  | .comment remark, c, prints => by
    obtain ⟨_, isKind, stays⟩ := prints
    unfold isPlainComment
    rw [isKind]
    cases compressed : style.isCompressed with
    | false => rfl
    | true => simp [stays compressed]

theorem PrintsAll.keeps (found : List Written) (nodes : List Css)
    (prints : PrintsAll style found nodes) :
    ∀ c ∈ nodes, (style.isCompressed && c.isPlainComment) = false := by
  induction found generalizing nodes with
  | nil => cases nodes with
    | nil => exact List.forall_mem_nil _
    | cons c others => exact absurd prints id
  | cons w rest ih => cases nodes with
    | nil => exact absurd prints id
    | cons c others =>
      intro d member
      rcases List.mem_cons.mp member with rfl | behind
      · exact Prints.keeps w d prints.1
      · exact ih others prints.2 d behind

variable (style)

mutual

/-- A node for which something is written stays at its place, and the same is written for it. -/
theorem Prints.flatten : (w : Written) → (c : Css) → w.Prints style c → (context : Context) →
    context.takes c = true → (state : State) →
    ∃ d, node style context c state = .ok ([d], state) ∧ w.Prints style d
  | .block opening body, ⟨kind, children, line, filename, tabs, groupEnd⟩, prints, context, taken,
      state => by
    obtain ⟨heads, filled, admitted, inner⟩ := id prints
    have inside : ∀ d ∈ children, d.isCharset = false := fun d member =>
      not_charset_of_admits (admitted d member)
    match opening, kind, heads with
    | .rule head, .rule selector, ⟨isText, again, isTop⟩ =>
      have outside : context.isRule = false := by
        cases context with
        | rule => cases taken
        | _ => rfl
      have stays : ∀ d ∈ children,
          (Context.rule selector line filename tabs).takes d = true := fun d member => by
        obtain ⟨_, alone⟩ := Bool.and_eq_true_iff.mp (admitted d member)
        exact Bool.and_eq_true_iff.mpr ⟨by rw [inside d member]; rfl, alone⟩
      obtain ⟨below, found, printed⟩ := PrintsAll.flatten body children inner
        (.rule selector line filename tabs) stays state
      have settled := prints.block (d := ⟨.rule selector, below, line, filename, tabs, true⟩)
        prints.1 printed
      refine ⟨_, ?_, settled⟩
      rw [node_rule_eq isTop outside found, assembleRule_settled settled.2.1]
      intro d member
      obtain ⟨_, alone⟩ := Bool.and_eq_true_iff.mp (settled.2.2.1 d member)
      simp only [Bool.and_eq_true, Bool.not_eq_true'] at alone
      exact ⟨alone.1, alone.2, PrintsAll.keeps body below printed d member⟩
    | .media query, .media text, isText =>
      have outside : context.isRule = false := by
        cases context with
        | rule => simp [Context.takes, isMedia] at taken
        | _ => rfl
      obtain ⟨below, found, printed⟩ := PrintsAll.flatten body children inner .media
        (fun d member => by simp [Context.takes, inside d member]) state
      have settled := prints.block (d := ⟨.media text, below, line, filename, tabs, groupEnd⟩)
        prints.1 printed
      refine ⟨_, ?_, settled⟩
      rw [node_media_eq outside found, assembleMedia_settled settled.2.1]
      intro d member
      obtain ⟨_, alone⟩ := Bool.and_eq_true_iff.mp (settled.2.2.1 d member)
      simpa using alone
    | .directive head, .directive name params hasBlock, isHead =>
      obtain ⟨below, found, printed⟩ := PrintsAll.flatten body children inner .directive
        (fun d member => by simp [Context.takes, inside d member]) state
      exact ⟨_, node_directive_eq found,
        prints.block (d := ⟨.directive name params hasBlock, below, line, filename, tabs, groupEnd⟩)
          prints.1 printed⟩
  | .leaf l, ⟨kind, children, line, filename, tabs, groupEnd⟩, prints, context, taken, state => by
    obtain ⟨empty, isKind⟩ := id prints
    obtain rfl : children = [] := empty
    exact ⟨_, isKind.flatten style taken state, prints⟩
  | .comment remark, ⟨kind, children, line, filename, tabs, groupEnd⟩, prints, context, _, state => by
    obtain ⟨_, isKind, _⟩ := id prints
    obtain rfl : kind = _ := isKind
    refine ⟨_, ?_, prints⟩
    unfold Flatten.node
    rfl

theorem PrintsAll.flatten : (found : List Written) → (children : List Css) →
    PrintsAll style found children → (context : Context) →
    (∀ c ∈ children, context.takes c = true) → (state : State) →
    ∃ below, nodes style context children state = .ok (below, state) ∧ PrintsAll style found below
  | [], [], _, context, _, state => ⟨[], nodes_nil_eq, trivial⟩
  | w :: rest, c :: others, prints, context, taken, state => by
    obtain ⟨d, first, own⟩ :=
      Prints.flatten w c prints.1 context (taken c List.mem_cons_self) state
    obtain ⟨below, behind, more⟩ := PrintsAll.flatten rest others prints.2 context
      (fun d member => taken d (List.mem_cons_of_mem c member)) state
    exact ⟨d :: below, nodes_cons_eq first behind, own, more⟩

end

/-- Outside of all blocks only a character set changes the state, and it stays if it is the first. -/
theorem Prints.flatten_top (w : Written) (c : Css) (prints : w.Prints style c) (state : State)
    (fresh : c.isCharset = true → state.charsetSeen = false) :
    ∃ d, node style .root c state =
        .ok ([d], { state with charsetSeen := state.charsetSeen || c.isCharset }) ∧
      w.Prints style d := by
  cases isCharset : c.isCharset with
  | false =>
    rw [Bool.or_false]
    exact Prints.flatten style w c prints .root (by simp [Context.takes, isCharset]) state
  | true =>
    obtain ⟨kind, children, line, filename, tabs, groupEnd⟩ := c
    cases kind with
    | charset name =>
      rw [Bool.or_true]
      exact ⟨_, node_charset_eq (fresh isCharset), prints⟩
    | _ => cases isCharset

theorem PrintsAll.flatten_top (found : List Written) (children : List Css)
    (prints : PrintsAll style found children) (extensions : Extensions) (seen : Bool)
    (once : DeclaresOnce seen children) :
    ∃ below last, nodes style .root children ⟨extensions, seen⟩ = .ok (below, ⟨extensions, last⟩) ∧
      PrintsAll style found below := by
  induction found generalizing children seen with
  | nil => cases children with
    | nil => exact ⟨[], seen, nodes_nil_eq, trivial⟩
    | cons c others => exact absurd prints id
  | cons w rest ih => cases children with
    | nil => exact absurd prints id
    | cons c others =>
      obtain ⟨d, first, own⟩ := Prints.flatten_top style w c prints.1 ⟨extensions, seen⟩ once.1
      obtain ⟨below, last, behind, more⟩ := ih others prints.2 (seen || c.isCharset) once.2
      exact ⟨d :: below, last, nodes_cons_eq first behind, own, more⟩

end Written

end Stylesheet
