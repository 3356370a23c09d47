import Stylesheet.Css.Flatten

/-! What a step of flattening has done when it succeeds, for each kind of node, and which nodes are
put together for rules, queries and properties. -/

namespace Stylesheet

theorem exists_of_isOk {result : Except ε α} (ok : result.isOk = true) : ∃ a, result = .ok a := by
  cases result with
  | error error => cases ok
  | ok a => exact ⟨a, rfl⟩

namespace Flatten

variable {style : Style} {context : Context} {state final : State} {out : List Css}

theorem bind_ok {action : Flattening α} {next : α → Flattening β} {result : β}
    (ok : (action >>= next) state = .ok (result, final)) :
    ∃ found middle, action state = .ok (found, middle) ∧ next found middle = .ok (result, final) := by
  simp only [bind, StateT.bind, Except.bind] at ok
  cases first : action state with
  | error error => simp [first] at ok
  | ok pair =>
    rw [first] at ok
    exact ⟨pair.1, pair.2, rfl, ok⟩

theorem lift_ok {action : Except Diagnostic α} {result : α}
    (ok : (liftM action : Flattening α) state = .ok (result, final)) :
    action = .ok result ∧ final = state := by
  cases action with
  | error error => cases ok
  | ok value =>
    cases ok
    exact ⟨rfl, rfl⟩

theorem pure_ok {value result : α} (ok : (pure value : Flattening α) state = .ok (result, final)) :
    result = value ∧ final = state := by
  cases ok
  exact ⟨rfl, rfl⟩

theorem located_ok {line : Nat} {filename : Option String} {action : Flattening α} {result : α}
    (ok : located line filename action state = .ok (result, final)) :
    action state = .ok (result, final) := by
  unfold located at ok
  cases found : action state with
  | error error => simp [found] at ok
  | ok pair => simpa [found] using ok

theorem resolve_ok {selector resolved : Selector} {line : Nat}
    (ok : resolve selector context line = .ok resolved) :
    selector.resolveParent context.selector? = .ok resolved := by
  unfold resolve at ok
  split at ok
  · rename_i found
    cases ok
    exact found
  · cases ok

theorem exists_of_isRule (inRule : context.isRule = true) :
    ∃ selector line filename tabs, context = .rule selector line filename tabs := by
  cases context with
  | rule selector line filename tabs => exact ⟨selector, line, filename, tabs, rfl⟩
  | _ => cases inRule

attribute [local simp] nodes

theorem nodes_nil_ok (ok : nodes style context [] state = .ok (out, final)) :
    out = [] ∧ final = state := by
  have done : (pure [] : Flattening (List Css)) state = .ok (out, final) := by simpa using ok
  exact pure_ok done

theorem nodes_cons_ok {c : Css} {rest : List Css}
    (ok : nodes style context (c :: rest) state = .ok (out, final)) :
    ∃ first others middle, node style context c state = .ok (first, middle) ∧
      nodes style context rest middle = .ok (others, final) ∧ out = first ++ others := by
  unfold nodes at ok
  obtain ⟨first, middle, head, rest⟩ := bind_ok ok
  obtain ⟨others, last, tail, done⟩ := bind_ok rest
  obtain ⟨rfl, rfl⟩ := pure_ok done
  exact ⟨first, others, middle, located_ok head, tail, rfl⟩

section Node

variable {children : List Css} {line : Nat} {filename : Option String} {tabs : Nat}
  {groupEnd : Bool}

theorem node_rule_ok {selector : Selector}
    (ok : node style context ⟨.rule selector, children, line, filename, tabs, groupEnd⟩ state =
      .ok (out, final)) :
    ∃ resolved below, selector.resolveParent context.selector? = .ok resolved ∧
      nodes style (.rule resolved line filename tabs) children state = .ok (below, final) ∧
      out = assembleRule style ⟨.rule resolved, [], line, filename, tabs, groupEnd⟩
        (!context.isRule) below := by
  unfold node at ok
  obtain ⟨resolved, middle, lifted, rest⟩ := bind_ok ok
  obtain ⟨below, last, inner, done⟩ := bind_ok rest
  obtain ⟨found, rfl⟩ := lift_ok lifted
  obtain ⟨rfl, rfl⟩ := pure_ok done
  exact ⟨resolved, below, resolve_ok found, inner, rfl⟩

/-- Inside a rule a media query is flattened around a copy of the rule. -/
theorem node_media_in_rule_ok {query : String} {selector : Selector} {ruleLine ruleTabs : Nat}
    {ruleFilename : Option String}
    (ok : node style (.rule selector ruleLine ruleFilename ruleTabs)
      ⟨.media query, children, line, filename, tabs, groupEnd⟩ state = .ok (out, final)) :
    ∃ below, nodes style (.rule selector ruleLine ruleFilename ruleTabs) children state =
        .ok (below, final) ∧
      out = assembleMedia ⟨.media query, [], line, filename, tabs, groupEnd⟩ query
        (setGroupEnd false (assembleRule style
          ⟨.rule selector, [], ruleLine, ruleFilename, ruleTabs, false⟩ true below)) := by
  unfold node at ok
  obtain ⟨resolved, middle, lifted, rest⟩ := bind_ok ok
  obtain ⟨below, last, inner, done⟩ := bind_ok rest
  obtain ⟨found, rfl⟩ := lift_ok lifted
  obtain ⟨rfl, rfl⟩ := pure_ok done
  have same : resolved = selector := by
    have unchanged := resolve_ok found
    simp only [Context.selector?, Selector.resolveParent] at unchanged
    split at unchanged
    · cases unchanged
    · cases unchanged
      rfl
  subst same
  exact ⟨below, inner, rfl⟩

theorem node_media_ok {query : String} (outside : context.isRule = false)
    (ok : node style context ⟨.media query, children, line, filename, tabs, groupEnd⟩ state =
      .ok (out, final)) :
    ∃ below, nodes style .media children state = .ok (below, final) ∧
      out = assembleMedia ⟨.media query, [], line, filename, tabs, groupEnd⟩ query below := by
  unfold node at ok
  cases context with
  | rule => simp [Context.isRule] at outside
  | _ =>
    obtain ⟨below, last, inner, done⟩ := bind_ok ok
    obtain ⟨rfl, rfl⟩ := pure_ok done
    exact ⟨below, inner, rfl⟩

theorem node_property_ok {name : String} {value : Option Value}
    (ok : node style context ⟨.property name value, children, line, filename, tabs, groupEnd⟩ state =
      .ok (out, final)) :
    ∃ below, nodes style
        (.property (joinName style context
            ⟨.property name value, [], line, filename, tabs, groupEnd⟩ name value).2
          (joinName style context
            ⟨.property name value, [], line, filename, tabs, groupEnd⟩ name value).1.tabs
          (hasText style value)) children state = .ok (below, final) ∧
      assembleProperty
        (joinName style context ⟨.property name value, [], line, filename, tabs, groupEnd⟩ name value).1
        (joinName style context ⟨.property name value, [], line, filename, tabs, groupEnd⟩ name value).2
        (hasText style value) below = .ok out := by
  unfold node at ok
  obtain ⟨below, last, inner, lifted⟩ := bind_ok ok
  obtain ⟨found, rfl⟩ := lift_ok lifted
  exact ⟨below, inner, found⟩

theorem node_extend_ok {selector : Selector}
    (ok : node style context ⟨.extend selector, children, line, filename, tabs, groupEnd⟩ state =
      .ok (out, final)) : out = [] ∧ final.charsetSeen = state.charsetSeen := by
  unfold node at ok
  cases context with
  | rule =>
    obtain ⟨now, _, isState, rest⟩ := bind_ok ok
    obtain ⟨recorded, _, lifted, rest⟩ := bind_ok rest
    obtain ⟨_, _, stored, done⟩ := bind_ok rest
    obtain ⟨rfl, rfl⟩ := pure_ok done
    cases isState
    obtain ⟨_, rfl⟩ := lift_ok lifted
    cases stored
    exact ⟨rfl, rfl⟩
  | _ => cases ok

/-- Only the first declaration of a character set stays. -/
theorem node_charset_cases {name : String}
    (ok : node style context ⟨.charset name, children, line, filename, tabs, groupEnd⟩ state =
      .ok (out, final)) :
    (state.charsetSeen = true ∧ out = [] ∧ final = state) ∨
      (state.charsetSeen = false ∧ out = [⟨.charset name, children, line, filename, tabs, groupEnd⟩] ∧
        final = { state with charsetSeen := true }) := by
  unfold node at ok
  obtain ⟨now, _, isState, rest⟩ := bind_ok ok
  cases isState
  split at rest
  · rename_i seen
    obtain ⟨rfl, rfl⟩ := pure_ok rest
    exact .inl ⟨seen, rfl, rfl⟩
  · rename_i fresh
    obtain ⟨_, _, stored, done⟩ := bind_ok rest
    obtain ⟨rfl, rfl⟩ := pure_ok done
    cases stored
    exact .inr ⟨by simpa using fresh, rfl, rfl⟩

theorem node_charset_ok {name : String}
    (ok : node style context ⟨.charset name, children, line, filename, tabs, groupEnd⟩ state =
      .ok (out, final)) :
    out = [] ∨ out = [⟨.charset name, children, line, filename, tabs, groupEnd⟩] :=
  (node_charset_cases ok).imp (·.2.1) (·.2.1)

theorem node_directive_ok {name params : String} {hasBlock : Bool}
    (ok : node style context
      ⟨.directive name params hasBlock, children, line, filename, tabs, groupEnd⟩ state =
        .ok (out, final)) :
    ∃ below, nodes style .directive children state = .ok (below, final) ∧
      out = [⟨.directive name params hasBlock, below, line, filename, tabs, groupEnd⟩] := by
  unfold node at ok
  obtain ⟨below, last, inner, done⟩ := bind_ok ok
  obtain ⟨rfl, rfl⟩ := pure_ok done
  exact ⟨below, inner, rfl⟩

end Node

section Assembled

variable {below : List Css} {x : Css}

theorem mem_setGroupEnd {value : Bool} {found : List Css} (member : x ∈ setGroupEnd value found) :
    ∃ y ∈ found, ∃ groupEnd, x = { y with groupEnd } := by
  unfold setGroupEnd at member
  split at member
  · rename_i last isLast
    rcases List.mem_append.mp member with early | final
    · exact ⟨x, (List.dropLast_sublist _).subset early, x.groupEnd, by cases x; rfl⟩
    · exact ⟨last, List.mem_of_getLast? isLast, value, List.mem_singleton.mp final⟩
  · cases member

/-- What stays in a rule. -/
def ownOfRule (style : Style) (below : List Css) : List Css :=
  below.filter fun c => !(c.isRule || c.isMedia) && !(style.isCompressed && c.isPlainComment)

/-- What is put together for a rule is the rule around what stays in it, which is something, and
what moves out of it, up to the layout. -/
theorem mem_assembleRule {rule : Css} {outermost : Bool}
    (member : x ∈ assembleRule style rule outermost below) :
    (ownOfRule style below ≠ [] ∧
      ∃ groupEnd, x = { rule with children := ownOfRule style below, groupEnd }) ∨
    ∃ y ∈ below, (y.isRule || y.isMedia) = true ∧
      ∃ tabs groupEnd, x = { y with tabs, groupEnd } := by
  -- the flag of the last node is all that being outermost changes
  have unmarked : ∃ y ∈ assembleRule style rule false below, ∃ groupEnd, x = { y with groupEnd } := by
    cases outermost with
    | false => exact ⟨x, member, x.groupEnd, by cases x; rfl⟩
    | true => exact mem_setGroupEnd member
  obtain ⟨y, found, groupEnd, rfl⟩ := unmarked
  unfold assembleRule at found
  simp only [Bool.false_eq_true, if_false] at found
  split at found
  · obtain ⟨source, moved⟩ := List.mem_filter.mp found
    exact .inr ⟨y, source, moved, y.tabs, groupEnd, rfl⟩
  · rename_i filled
    rcases List.mem_cons.mp found with rfl | inner
    · exact .inl ⟨fun empty => filled (List.isEmpty_iff.mpr empty), groupEnd, rfl⟩
    · obtain ⟨z, kept, rfl⟩ := List.mem_map.mp inner
      obtain ⟨source, moved⟩ := List.mem_filter.mp kept
      refine .inr ⟨z, source, moved, ?_⟩
      split
      · exact ⟨z.tabs + 1, groupEnd, rfl⟩
      · exact ⟨z.tabs, groupEnd, rfl⟩

/-- What is put together for a query is the query around what is no query, and the inner queries,
each joined with it. -/
theorem mem_assembleMedia {media : Css} {query : String}
    (member : x ∈ assembleMedia media query below) :
    ((below.filter fun c => !c.isMedia) ≠ [] ∧
      x = { media with children := below.filter fun c => !c.isMedia }) ∨
    ∃ y ∈ below, ∃ inner, y.kind = .media inner ∧
      x = { y with kind := .media (query ++ " and " ++ inner) } := by
  have joined : ∀ z ∈ (below.filter Css.isMedia).map (joinQuery query), ∃ y ∈ below, ∃ inner,
      y.kind = .media inner ∧ z = { y with kind := .media (query ++ " and " ++ inner) } := by
    intro z found
    obtain ⟨⟨kind, children, line, filename, tabs, groupEnd⟩, kept, rfl⟩ := List.mem_map.mp found
    obtain ⟨source, isMedia⟩ := List.mem_filter.mp kept
    cases kind with
    | media inner => exact ⟨_, source, inner, rfl, rfl⟩
    | _ => cases isMedia
  unfold assembleMedia at member
  simp only at member
  split at member
  · exact .inr (joined x member)
  · rename_i filled
    rcases List.mem_cons.mp member with same | inner
    · exact .inl ⟨fun empty => filled (List.isEmpty_iff.mpr empty), same⟩
    · exact .inr (joined x inner)

/-- A declaration has a value, or something stands below it. -/
theorem mem_assembleProperty {c : Css} {name : String} {hasValue : Bool} {out : List Css}
    (assembled : assembleProperty c name hasValue below = .ok out) (member : x ∈ out) :
    (hasValue = true ∧ x = { c with children := [] }) ∨ x ∈ below := by
  unfold assembleProperty at assembled
  split at assembled
  · rename_i filled
    cases assembled
    rcases List.mem_cons.mp member with same | inner
    · exact .inl ⟨filled, same⟩
    · exact .inr inner
  · split at assembled
    · cases assembled
    · cases assembled
      exact .inr member

/-- A full name changes nothing else that counts: the node declares the same value. -/
theorem joinName_kind (style : Style) (context : Context) (c : Css) (name : String)
    {value : Option Value} (kind : c.kind = .property name value) :
    (joinName style context c name value).1.kind =
      .property (joinName style context c name value).2 value := by
  cases context with
  | property => rfl
  | _ => exact kind

end Assembled

end Flatten

theorem Css.flatten_ok {root flat : Css} {style : Style} {extensions : Extensions}
    (ok : root.flatten style = .ok (flat, extensions)) :
    ∃ children final, Flatten.nodes style .root root.children ⟨.empty, false⟩ =
        .ok (children, final) ∧
      flat = .node root.kind children root.line root.filename := by
  unfold Css.flatten at ok
  cases found : (Flatten.nodes style .root root.children).run ⟨.empty, false⟩ with
  | error error => simp [found, bind, Except.bind] at ok
  | ok pair =>
    rw [found] at ok
    cases ok
    exact ⟨pair.1, pair.2, found, rfl⟩

end Stylesheet
