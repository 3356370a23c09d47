import Mathlib.Data.List.Perm.Basic
import Stylesheet.Proofs.Css.Flattening

/-! Flattening keeps the declarations. They are read off the nested tree directly, with the rules,
queries and names around them, and off the flat tree as it stands; both give the same blocks of
declarations, each in its order. -/

namespace Stylesheet

/-- A block of a directive, with what stands around the directive. -/
structure DirectiveBlock where
  name : String
  params : String
  query : Option String
  selector : Option Selector

/-- What stands around a declaration. -/
structure Place where
  query : Option String
  selector : Option Selector
  /-- The blocks of directives, the nearest first. -/
  blocks : List DirectiveBlock

namespace Place

def top : Place := ⟨none, none, []⟩

def inRule (place : Place) (selector : Selector) : Place :=
  { place with selector := some selector }

/-- Queries inside one another are joined. -/
def inMedia (place : Place) (query : String) : Place :=
  { place with query := some (match place.query with
      | none => query
      | some outer => outer ++ " and " ++ query) }

def outsideRules (place : Place) : Place :=
  { place with selector := none }

/-- Inside its block a directive starts anew. -/
def inDirective (place : Place) (name params : String) : Place :=
  ⟨none, none, ⟨name, params, place.query, place.selector⟩ :: place.blocks⟩

end Place

/-- The declarations that stand directly in one place, in order. -/
structure Block where
  place : Place
  declarations : List (String × Value)

/-- The name a context gives to the properties in it. -/
def Flatten.Context.name? : Flatten.Context → Option String
  | .property name _ _ => some name
  | _ => none

namespace Css

mutual

/-- The declarations of a property and of those nested in it, by their full names. -/
def sourceDeclarations (style : Style) (outer : Option String) : Css → List (String × Value)
  | ⟨.property name value, children, _, _, _, _⟩ =>
    let full := match outer with
      | none => name
      | some outer => outer ++ "-" ++ name
    (if Flatten.hasText style value then value.toList.map fun v => (full, v) else []) ++
      sourceDeclarationsOfAll style (some full) children
  | _ => []

def sourceDeclarationsOfAll (style : Style) (outer : Option String) :
    List Css → List (String × Value)
  | [] => []
  | c :: rest => sourceDeclarations style outer c ++ sourceDeclarationsOfAll style outer rest

end

mutual

/-- The blocks of a nested tree: a rule is resolved against the one around it, a query keeps the
rule around it. There are none if a rule cannot be resolved. -/
def sourceBlocks (style : Style) (place : Place) : Css → Option (List Block)
  | ⟨.rule selector, children, _, _, _, _⟩ =>
    match selector.resolveParent place.selector with
    | .ok resolved =>
      (sourceBlocksOfAll style (place.inRule resolved) children).map
        (⟨place.inRule resolved, sourceDeclarationsOfAll style none children⟩ :: ·)
    | .error _ => none
  | ⟨.media query, children, _, _, _, _⟩ =>
    (sourceBlocksOfAll style (place.inMedia query) children).map
      (⟨place.inMedia query, sourceDeclarationsOfAll style none children⟩ :: ·)
  | ⟨.directive name params _, children, _, _, _, _⟩ =>
    (sourceBlocksOfAll style (place.inDirective name params) children).map
      (⟨place.inDirective name params, sourceDeclarationsOfAll style none children⟩ :: ·)
  | _ => some []

def sourceBlocksOfAll (style : Style) (place : Place) : List Css → Option (List Block)
  | [] => some []
  | c :: rest =>
    match sourceBlocks style place c, sourceBlocksOfAll style place rest with
    | some first, some others => some (first ++ others)
    | _, _ => none

end

/-- A declaration of a flat tree. -/
def declaration? (c : Css) : Option (String × Value) :=
  match c.kind with
  | .property name (some value) => some (name, value)
  | _ => none

mutual

/-- The blocks of a flat tree. Selectors and names are taken as they stand, and a query stands
outside of rules. -/
def flatBlocks (place : Place) : Css → List Block
  | ⟨.rule selector, children, _, _, _, _⟩ =>
    ⟨place.inRule selector, children.filterMap declaration?⟩ ::
      flatBlocksOfAll (place.inRule selector) children
  | ⟨.media query, children, _, _, _, _⟩ =>
    ⟨(place.inMedia query).outsideRules, children.filterMap declaration?⟩ ::
      flatBlocksOfAll (place.inMedia query).outsideRules children
  | ⟨.directive name params _, children, _, _, _, _⟩ =>
    ⟨place.inDirective name params, children.filterMap declaration?⟩ ::
      flatBlocksOfAll (place.inDirective name params) children
  | _ => []

def flatBlocksOfAll (place : Place) : List Css → List Block
  | [] => []
  | c :: rest => flatBlocks place c ++ flatBlocksOfAll place rest

end

/-- All blocks of a nested stylesheet. -/
def nestedReading (style : Style) (root : Css) : Option (List Block) :=
  (sourceBlocksOfAll style .top root.children).map
    (⟨.top, sourceDeclarationsOfAll style none root.children⟩ :: ·)

/-- All blocks of a flat stylesheet. -/
def flatReading (root : Css) : List Block :=
  ⟨.top, root.children.filterMap declaration?⟩ :: flatBlocksOfAll .top root.children

/-- What may stand inside a property. -/
def isPropertyPart (c : Css) : Bool :=
  match c.kind with
  | .property _ _ | .comment _ _ => true
  | _ => false

mutual

/-- Whether properties contain only properties and comments. -/
def hasPlainProperties : Css → Bool
  | ⟨.property _ _, children, _, _, _, _⟩ =>
    children.all isPropertyPart && haveAllPlainProperties children
  | ⟨_, children, _, _, _, _⟩ => haveAllPlainProperties children

def haveAllPlainProperties : List Css → Bool
  | [] => true
  | c :: rest => hasPlainProperties c && haveAllPlainProperties rest

end

theorem flatBlocksOfAll_eq (place : Place) (nodes : List Css) :
    flatBlocksOfAll place nodes = nodes.flatMap (flatBlocks place) := by
  induction nodes with
  | nil => rfl
  | cons c rest ih => rw [flatBlocksOfAll, ih, List.flatMap_cons]

/-- The reading takes no note of the layout. -/
theorem flatBlocks_layout (place : Place) (c : Css) (tabs : Nat) (groupEnd : Bool) :
    flatBlocks place { c with tabs, groupEnd } = flatBlocks place c := by
  obtain ⟨kind, children, line, filename, oldTabs, oldEnd⟩ := c
  cases kind <;> simp only [flatBlocks]

theorem flatBlocksOfAll_map_tabs (place : Place) (tabs : Css → Nat) (p : Bool) (nodes : List Css) :
    flatBlocksOfAll place (nodes.map fun c => if p then { c with tabs := tabs c } else c) =
      flatBlocksOfAll place nodes := by
  rw [flatBlocksOfAll_eq, flatBlocksOfAll_eq, List.flatMap_map]
  apply List.flatMap_congr
  intro c _
  split
  · exact flatBlocks_layout place c (tabs c) c.groupEnd
  · rfl

theorem flatBlocks_setGroupEnd (place : Place) (value : Bool) (nodes : List Css) :
    flatBlocksOfAll place (Flatten.setGroupEnd value nodes) = flatBlocksOfAll place nodes := by
  rcases List.eq_nil_or_concat' nodes with rfl | ⟨before, last, rfl⟩
  · rfl
  · simp only [Flatten.setGroupEnd, List.getLast?_concat, List.dropLast_concat, flatBlocksOfAll_eq,
      List.flatMap_append, List.flatMap_singleton]
    rw [flatBlocks_layout place last last.tabs value]

/-- Rules and queries do not depend on the rule around them. -/
theorem flatBlocks_outsideRules (place : Place) {c : Css} (moves : (c.isRule || c.isMedia) = true) :
    flatBlocks place.outsideRules c = flatBlocks place c := by
  obtain ⟨kind, children, line, filename, tabs, groupEnd⟩ := c
  cases kind <;> simp only [isRule, isMedia, Bool.or_false, Bool.false_eq_true] at moves
  · rfl
  · rfl

theorem flatBlocks_inRule (place : Place) (selector : Selector) {c : Css}
    (moves : (c.isRule || c.isMedia) = true) :
    flatBlocks (place.inRule selector) c = flatBlocks place c := by
  rw [← flatBlocks_outsideRules (place.inRule selector) moves,
    ← flatBlocks_outsideRules place moves]
  rfl

/-- A query joined with the one around it reads as if it stood inside. -/
theorem flatBlocks_joinQuery (place : Place) (query : String) {c : Css}
    (media : c.isMedia = true) :
    flatBlocks place (Flatten.joinQuery query c) = flatBlocks (place.inMedia query) c := by
  obtain ⟨kind, children, line, filename, tabs, groupEnd⟩ := c
  cases kind <;> simp only [isMedia, Bool.false_eq_true] at media
  rename_i inner
  have joined : place.inMedia (query ++ " and " ++ inner) = (place.inMedia query).inMedia inner := by
    unfold Place.inMedia
    cases place.query <;> simp [String.append_assoc]
  simp only [Flatten.joinQuery, flatBlocks, joined]

theorem declaration?_of_moves {c : Css} (moves : (c.isRule || c.isMedia) = true) :
    declaration? c = none := by
  obtain ⟨kind, children, line, filename, tabs, groupEnd⟩ := c
  cases kind <;> simp [isRule, isMedia] at moves
  · rfl
  · rfl

theorem declaration?_of_isPlainComment {c : Css} (comment : c.isPlainComment = true) :
    declaration? c = none ∧ ∀ place, flatBlocks place c = [] := by
  obtain ⟨kind, children, line, filename, tabs, groupEnd⟩ := c
  cases kind <;> simp [isPlainComment] at comment
  exact ⟨rfl, fun _ => by simp only [flatBlocks]⟩

end Css

def Block.isFilled (b : Block) : Bool :=
  !b.declarations.isEmpty

/-- The same blocks, in any order; blocks without declarations do not count. -/
def SameBlocks (first second : List Block) : Prop :=
  (first.filter Block.isFilled).Perm (second.filter Block.isFilled)

namespace SameBlocks

theorem refl (blocks : List Block) : SameBlocks blocks blocks :=
  List.Perm.refl _

theorem of_perm {first second : List Block} (perm : first.Perm second) : SameBlocks first second :=
  perm.filter _

theorem trans {first second third : List Block} (left : SameBlocks first second)
    (right : SameBlocks second third) : SameBlocks first third :=
  List.Perm.trans left right

theorem symm {first second : List Block} (same : SameBlocks first second) :
    SameBlocks second first :=
  List.Perm.symm same

theorem append {first second first' second' : List Block} (left : SameBlocks first second)
    (right : SameBlocks first' second') : SameBlocks (first ++ first') (second ++ second') := by
  unfold SameBlocks at left right ⊢
  rw [List.filter_append, List.filter_append]
  exact left.append right

theorem cons (b : Block) {first second : List Block} (same : SameBlocks first second) :
    SameBlocks (b :: first) (b :: second) :=
  append (refl [b]) same

/-- A block without declarations may be left out. -/
theorem cons_of_empty {b : Block} (empty : b.declarations = []) (blocks : List Block) :
    SameBlocks blocks (b :: blocks) := by
  simp [SameBlocks, Block.isFilled, empty, List.Perm.refl]

end SameBlocks

namespace Css

theorem filterMap_filter_of_none {p : α → Bool} {f : α → Option β} {items : List α}
    (none : ∀ item ∈ items, p item = false → f item = none) :
    (items.filter p).filterMap f = items.filterMap f := by
  induction items with
  | nil => rfl
  | cons item rest ih =>
    have later := ih fun x member => none x (List.mem_cons_of_mem _ member)
    by_cases kept : p item = true
    · simp [List.filterMap_cons, kept, later]
    · have dropped := none item (List.mem_cons_self ..) (by simpa using kept)
      simp [kept, later, dropped]

theorem flatMap_filter_of_nil {p : α → Bool} {f : α → List β} {items : List α}
    (none : ∀ item ∈ items, p item = false → f item = []) :
    (items.filter p).flatMap f = items.flatMap f := by
  induction items with
  | nil => rfl
  | cons item rest ih =>
    have later := ih fun x member => none x (List.mem_cons_of_mem _ member)
    by_cases kept : p item = true
    · simp [kept, later]
    · have dropped := none item (List.mem_cons_self ..) (by simpa using kept)
      simp [kept, later, dropped]

theorem flatMap_split (moves : α → Bool) (f : α → List β) (nodes : List α) :
    ((nodes.filter fun c => !moves c).flatMap f ++ (nodes.filter moves).flatMap f).Perm
      (nodes.flatMap f) := by
  rw [← List.flatMap_append]
  apply List.Perm.flatMap_right
  exact List.perm_append_comm.trans (List.filter_append_perm moves nodes)

/-- What is put together for a rule reads as the rule with all that is flattened below it. -/
theorem sameBlocks_assembleRule (style : Style) (place : Place) {rule : Css} {selector : Selector}
    (kind : rule.kind = .rule selector) (outermost : Bool) (below : List Css) :
    SameBlocks (flatBlocksOfAll place (Flatten.assembleRule style rule outermost below))
      (⟨place.inRule selector, below.filterMap declaration?⟩ ::
        flatBlocksOfAll (place.inRule selector) below) := by
  let moves := fun c : Css => c.isRule || c.isMedia
  let stays := fun c : Css => !moves c && !(style.isCompressed && c.isPlainComment)
  have declarations : (below.filter stays).filterMap declaration? =
      below.filterMap declaration? := by
    apply filterMap_filter_of_none
    intro c _ leaves
    simp only [stays, Bool.and_eq_false_iff, Bool.not_eq_false', Bool.and_eq_true] at leaves
    rcases leaves with moved | ⟨_, comment⟩
    · exact declaration?_of_moves moved
    · exact (declaration?_of_isPlainComment comment).1
  have own : (below.filter stays).flatMap (flatBlocks (place.inRule selector)) =
      (below.filter fun c => !moves c).flatMap (flatBlocks (place.inRule selector)) := by
    have twice : below.filter stays = (below.filter fun c => !moves c).filter
        fun c => !(style.isCompressed && c.isPlainComment) := by
      rw [List.filter_filter]
      exact List.filter_congr fun c _ => Bool.and_comm _ _
    rw [twice]
    apply flatMap_filter_of_nil
    intro c _ comment
    simp only [Bool.not_eq_false', Bool.and_eq_true] at comment
    exact (declaration?_of_isPlainComment comment.2).2 _
  have inner : ∀ nodes : List Css, (∀ c ∈ nodes, moves c = true) →
      flatBlocksOfAll place nodes = nodes.flatMap (flatBlocks (place.inRule selector)) := by
    intro nodes moved
    rw [flatBlocksOfAll_eq]
    exact List.flatMap_congr fun c member => (flatBlocks_inRule place selector (moved c member)).symm
  have whole : SameBlocks ((below.filter stays).flatMap (flatBlocks (place.inRule selector)) ++
      flatBlocksOfAll place (below.filter moves)) (flatBlocksOfAll (place.inRule selector) below) := by
    rw [own, inner _ fun c member => (List.mem_filter.mp member).2, flatBlocksOfAll_eq]
    exact .of_perm (flatMap_split moves _ below)
  have layout : ∀ found, flatBlocksOfAll place
      (if outermost then Flatten.setGroupEnd true found else found) = flatBlocksOfAll place found := by
    intro found
    split
    · exact flatBlocks_setGroupEnd place true found
    · rfl
  unfold Flatten.assembleRule
  simp only
  rw [layout]
  split
  · rename_i empty
    have none : below.filter stays = [] := List.isEmpty_iff.mp empty
    rw [none] at whole declarations
    exact whole.trans (.cons_of_empty declarations.symm _)
  · obtain ⟨_, _, line, filename, tabs, groupEnd⟩ := rule
    subst kind
    rw [flatBlocksOfAll, flatBlocks, flatBlocksOfAll_map_tabs, List.cons_append]
    rw [← declarations, flatBlocksOfAll_eq _ (below.filter _)]
    exact .cons _ whole

/-- What is put together for a query reads as the query with all that is flattened below it. -/
theorem sameBlocks_assembleMedia (place : Place) {media : Css} {query : String}
    (kind : media.kind = .media query) (below : List Css) :
    SameBlocks (flatBlocksOfAll place (Flatten.assembleMedia media query below))
      (⟨(place.inMedia query).outsideRules, below.filterMap declaration?⟩ ::
        flatBlocksOfAll (place.inMedia query).outsideRules below) := by
  have declarations : (below.filter fun c => !c.isMedia).filterMap declaration? =
      below.filterMap declaration? := by
    apply filterMap_filter_of_none
    intro c _ moved
    exact declaration?_of_moves (by simp_all)
  have inner : flatBlocksOfAll place ((below.filter isMedia).map (Flatten.joinQuery query)) =
      (below.filter isMedia).flatMap (flatBlocks (place.inMedia query).outsideRules) := by
    rw [flatBlocksOfAll_eq, List.flatMap_map]
    apply List.flatMap_congr
    intro c member
    have moved := (List.mem_filter.mp member).2
    rw [flatBlocks_joinQuery place query moved]
    exact (flatBlocks_outsideRules _ (by simp [moved])).symm
  have whole : SameBlocks
      ((below.filter fun c => !c.isMedia).flatMap (flatBlocks (place.inMedia query).outsideRules) ++
        flatBlocksOfAll place ((below.filter isMedia).map (Flatten.joinQuery query)))
      (flatBlocksOfAll (place.inMedia query).outsideRules below) := by
    rw [inner, flatBlocksOfAll_eq]
    exact .of_perm (flatMap_split isMedia _ below)
  unfold Flatten.assembleMedia
  simp only
  split
  · rename_i empty
    have none : (below.filter fun c => !c.isMedia) = [] := List.isEmpty_iff.mp empty
    rw [none] at whole declarations
    exact whole.trans (.cons_of_empty declarations.symm _)
  · obtain ⟨_, _, line, filename, tabs, groupEnd⟩ := media
    subst kind
    rw [flatBlocksOfAll, flatBlocks, List.cons_append]
    rw [← declarations, flatBlocksOfAll_eq _ (below.filter _)]
    exact .cons _ whole

private theorem moves_of_mem_setGroupEnd (value : Bool) {nodes : List Css}
    (moved : ∀ c ∈ nodes, (c.isRule || c.isMedia) = true) :
    ∀ c ∈ Flatten.setGroupEnd value nodes, (c.isRule || c.isMedia) = true := by
  rcases List.eq_nil_or_concat' nodes with rfl | ⟨before, last, rfl⟩
  · simp [Flatten.setGroupEnd]
  · intro c member
    simp only [Flatten.setGroupEnd, List.getLast?_concat, List.dropLast_concat] at member
    rcases List.mem_append.mp member with early | final
    · exact moved c (List.mem_append_left _ early)
    · rw [List.mem_singleton] at final
      subst final
      exact moved last (List.mem_append_right _ (List.mem_singleton_self _))

/-- Nothing but rules and queries is left outside of a rule. -/
theorem moves_of_mem_assembleRule (style : Style) {rule : Css} (isRule : rule.isRule = true)
    (outermost : Bool) (below : List Css) :
    ∀ c ∈ Flatten.assembleRule style rule outermost below, (c.isRule || c.isMedia) = true := by
  have inner : ∀ c ∈ below.filter fun c => c.isRule || c.isMedia,
      (c.isRule || c.isMedia) = true :=
    fun c member => (List.mem_filter.mp member).2
  have found : ∀ own (deeper : Bool), ∀ c ∈ { rule with children := own } ::
      (below.filter fun c => c.isRule || c.isMedia).map
        fun c => if deeper then { c with tabs := c.tabs + 1 } else c,
      (c.isRule || c.isMedia) = true := by
    intro own deeper c member
    rcases List.mem_cons.mp member with rfl | member
    · exact Bool.or_eq_true_iff.mpr (.inl isRule)
    · obtain ⟨old, source, rfl⟩ := List.mem_map.mp member
      split
      · exact inner old source
      · exact inner old source
  unfold Flatten.assembleRule
  simp only
  by_cases empty : (below.filter fun c => !(c.isRule || c.isMedia) &&
      !(style.isCompressed && c.isPlainComment)).isEmpty = true
  · rw [if_pos empty]
    split
    · exact moves_of_mem_setGroupEnd _ inner
    · exact inner
  · rw [if_neg empty]
    split
    · exact moves_of_mem_setGroupEnd _ (found _ _)
    · exact found _ _

/-- Nothing but queries is left outside of a query. -/
theorem moves_of_mem_assembleMedia {media : Css} {query : String} (isMedia : media.isMedia = true)
    (below : List Css) :
    ∀ c ∈ Flatten.assembleMedia media query below, (c.isRule || c.isMedia) = true := by
  have inner : ∀ c ∈ (below.filter Css.isMedia).map (Flatten.joinQuery query),
      (c.isRule || c.isMedia) = true := by
    intro c member
    obtain ⟨⟨kind, _⟩, source, rfl⟩ := List.mem_map.mp member
    have found := (List.mem_filter.mp source).2
    cases kind <;> simp_all [Css.isMedia, Flatten.joinQuery]
  unfold Flatten.assembleMedia
  simp only
  split
  · exact inner
  · intro c member
    rcases List.mem_cons.mp member with rfl | member
    · exact Bool.or_eq_true_iff.mpr (.inr isMedia)
    · exact inner c member

section Property

variable {style : Style}

/-- Parts of properties are declarations and comments; they open no block. -/
theorem flatBlocks_of_isPropertyPart (place : Place) {c : Css} (part : c.isPropertyPart = true) :
    flatBlocks place c = [] := by
  obtain ⟨kind, children, line, filename, tabs, groupEnd⟩ := c
  cases kind <;> simp [isPropertyPart] at part
  · simp only [flatBlocks]
  · simp only [flatBlocks]

/-- A property by its full name, and the declarations below it. -/
private theorem declarations_of_property (context : Flatten.Context) {name : String}
    {value : Option Value} {line : Nat} {filename : Option String} {tabs : Nat} {groupEnd : Bool}
    {below out : List Css} (parts : ∀ x ∈ below, x.isPropertyPart = true)
    (assembled : Flatten.assembleProperty
      (Flatten.joinName style context ⟨.property name value, [], line, filename, tabs, groupEnd⟩ name
        value).1
      (Flatten.joinName style context ⟨.property name value, [], line, filename, tabs, groupEnd⟩ name
        value).2 (Flatten.hasText style value) below = .ok out) :
    (∀ x ∈ out, x.isPropertyPart = true) ∧
      out.filterMap declaration? =
        (if Flatten.hasText style value then value.toList.map fun v =>
          ((Flatten.joinName style context
            ⟨.property name value, [], line, filename, tabs, groupEnd⟩ name value).2, v) else []) ++
        below.filterMap declaration? := by
  unfold Flatten.assembleProperty at assembled
  split at assembled
  · rename_i filled
    cases assembled
    cases value with
    | none => simp [Flatten.hasText] at filled
    | some v =>
      rw [if_pos filled]
      cases context <;> simp [Flatten.joinName, declaration?, isPropertyPart] <;> exact parts
  · rename_i bare
    split at assembled
    · cases assembled
    · cases assembled
      exact ⟨parts, by simp [bare]⟩

mutual

theorem node_of_part (context : Flatten.Context) :
    ∀ (c : Css) {state final : Flatten.State} {out : List Css}, c.isPropertyPart = true →
      c.hasPlainProperties = true → Flatten.node style context c state = .ok (out, final) →
      (∀ x ∈ out, x.isPropertyPart = true) ∧
        out.filterMap declaration? = sourceDeclarations style context.name? c
  | ⟨.property name value, children, line, filename, tabs, groupEnd⟩, _, _, _, _, plain, ok => by
    obtain ⟨below, inner, assembled⟩ := Flatten.node_property_ok ok
    simp only [hasPlainProperties, Bool.and_eq_true] at plain
    obtain ⟨parts, same⟩ := nodes_of_parts _ children plain.1 plain.2 inner
    obtain ⟨parts', same'⟩ := declarations_of_property context parts assembled
    refine ⟨parts', ?_⟩
    rw [same', same]
    cases context <;> simp only [sourceDeclarations, Flatten.Context.name?, Flatten.joinName]
  | ⟨.comment text preserved, children, line, filename, tabs, groupEnd⟩, _, _, _, _, _, ok => by
    cases ok
    simp [isPropertyPart, declaration?, sourceDeclarations]
  | ⟨.root, _, _, _, _, _⟩, _, _, _, part, _, _ => by simp [isPropertyPart] at part
  | ⟨.rule _, _, _, _, _, _⟩, _, _, _, part, _, _ => by simp [isPropertyPart] at part
  | ⟨.directive _ _ _, _, _, _, _, _⟩, _, _, _, part, _, _ => by simp [isPropertyPart] at part
  | ⟨.media _, _, _, _, _, _⟩, _, _, _, part, _, _ => by simp [isPropertyPart] at part
  | ⟨.charset _, _, _, _, _, _⟩, _, _, _, part, _, _ => by simp [isPropertyPart] at part
  | ⟨.importing _, _, _, _, _, _⟩, _, _, _, part, _, _ => by simp [isPropertyPart] at part
  | ⟨.extend _, _, _, _, _, _⟩, _, _, _, part, _, _ => by simp [isPropertyPart] at part

theorem nodes_of_parts (context : Flatten.Context) :
    ∀ (children : List Css) {state final : Flatten.State} {out : List Css},
      children.all isPropertyPart = true → haveAllPlainProperties children = true →
      Flatten.nodes style context children state = .ok (out, final) →
      (∀ x ∈ out, x.isPropertyPart = true) ∧
        out.filterMap declaration? = sourceDeclarationsOfAll style context.name? children
  | [], _, _, _, _, _, ok => by
    obtain ⟨rfl, _⟩ := Flatten.nodes_nil_ok ok
    exact ⟨by simp, rfl⟩
  | c :: rest, _, _, _, parts, plain, ok => by
    obtain ⟨first, others, middle, head, tail, rfl⟩ := Flatten.nodes_cons_ok ok
    simp only [List.all_cons, Bool.and_eq_true] at parts
    simp only [haveAllPlainProperties, Bool.and_eq_true] at plain
    have here := node_of_part context c parts.1 plain.1 head
    have later := nodes_of_parts context rest parts.2 plain.2 tail
    constructor
    · intro x member
      rcases List.mem_append.mp member with early | late
      · exact here.1 x early
      · exact later.1 x late
    · rw [List.filterMap_append, here.2, later.2, sourceDeclarationsOfAll]

end

end Property

/-- A context that is no property, and a place of the same rule. -/
structure Fits (context : Flatten.Context) (place : Place) : Prop where
  selector : context.selector? = place.selector
  name : context.name? = none

/-- Flat nodes read as their source does. -/
def ReadsAs (place : Place) (out : List Css) (blocks : Option (List Block))
    (declarations : List (String × Value)) : Prop :=
  (∃ inner, blocks = some inner ∧ SameBlocks (flatBlocksOfAll place out) inner) ∧
    out.filterMap declaration? = declarations

section Nodes

variable {style : Style} {context : Flatten.Context} {place : Place} {state final : Flatten.State}
  {children out : List Css} {line : Nat} {filename : Option String} {tabs : Nat} {groupEnd : Bool}

private theorem filterMap_declaration_of_moves {nodes : List Css}
    (moved : ∀ c ∈ nodes, (c.isRule || c.isMedia) = true) : nodes.filterMap declaration? = [] :=
  List.filterMap_eq_nil_iff.mpr fun c member => declaration?_of_moves (moved c member)

/-- A node that opens no block and declares nothing, and stays as it is or goes. -/
private theorem readsAs_leaf {c : Css} (silent : ∀ place, flatBlocks place c = [])
    (none : declaration? c = none) (leaf : out = [] ∨ out = [c]) : ReadsAs place out (some []) [] := by
  rcases leaf with rfl | rfl
  · exact ⟨⟨[], rfl, .refl _⟩, rfl⟩
  · refine ⟨⟨[], rfl, ?_⟩, by simp [none]⟩
    simp [flatBlocksOfAll, silent, SameBlocks.refl]

private theorem readsAs_rule {selector resolved : Selector}
    {below : List Css} {outermost : Bool}
    (resolves : selector.resolveParent place.selector = .ok resolved)
    (inner : ReadsAs (place.inRule resolved) below
      (sourceBlocksOfAll style (place.inRule resolved) children)
      (sourceDeclarationsOfAll style none children)) :
    ReadsAs place
      (Flatten.assembleRule style ⟨.rule resolved, [], line, filename, tabs, groupEnd⟩ outermost below)
      (sourceBlocks style place ⟨.rule selector, children, line, filename, tabs, groupEnd⟩) [] := by
  obtain ⟨⟨blocks, found, same⟩, declared⟩ := inner
  refine ⟨⟨_, by simp only [sourceBlocks, resolves, found, Option.map_some]; rfl, ?_⟩,
    filterMap_declaration_of_moves (moves_of_mem_assembleRule style rfl _ _)⟩
  rw [← declared]
  exact (sameBlocks_assembleRule style place rfl outermost below).trans (.cons _ same)

/-- A query in a rule: what is put together for the copy of the rule takes the query's place. -/
private theorem readsAs_media_in_rule {query : String} {selector : Selector} {below : List Css}
    {ruleLine ruleTabs : Nat} {ruleFilename : Option String}
    (inside : place.selector = some selector)
    (inner : ReadsAs (place.inMedia query) below
      (sourceBlocksOfAll style (place.inMedia query) children)
      (sourceDeclarationsOfAll style none children)) :
    ReadsAs place
      (Flatten.assembleMedia ⟨.media query, [], line, filename, tabs, groupEnd⟩ query
        (Flatten.setGroupEnd false (Flatten.assembleRule style
          ⟨.rule selector, [], ruleLine, ruleFilename, ruleTabs, false⟩ true below)))
      (sourceBlocks style place ⟨.media query, children, line, filename, tabs, groupEnd⟩) [] := by
  obtain ⟨⟨blocks, found, same⟩, declared⟩ := inner
  let copy : Css := ⟨.rule selector, [], ruleLine, ruleFilename, ruleTabs, false⟩
  have moved := moves_of_mem_setGroupEnd false (moves_of_mem_assembleRule style
    (rfl : copy.isRule = true) true below)
  have back : (place.inMedia query).outsideRules.inRule selector = place.inMedia query := by
    simp [Place.inRule, Place.outsideRules, Place.inMedia, inside]
  have ruled : SameBlocks (flatBlocksOfAll (place.inMedia query).outsideRules
      (Flatten.setGroupEnd false (Flatten.assembleRule style copy true below)))
      (⟨place.inMedia query, sourceDeclarationsOfAll style none children⟩ :: blocks) := by
    rw [flatBlocks_setGroupEnd, ← declared]
    have whole := sameBlocks_assembleRule style (place.inMedia query).outsideRules
      (rfl : copy.kind = .rule selector) true below
    rw [back] at whole
    exact whole.trans (.cons _ same)
  constructor
  · refine ⟨_, by simp only [sourceBlocks, found, Option.map_some]; rfl, ?_⟩
    have queried := sameBlocks_assembleMedia place
      (rfl : (⟨.media query, [], line, filename, tabs, groupEnd⟩ : Css).kind = .media query)
      (Flatten.setGroupEnd false (Flatten.assembleRule style copy true below))
    rw [filterMap_declaration_of_moves moved] at queried
    exact (queried.trans (SameBlocks.cons_of_empty rfl _).symm).trans ruled
  · exact filterMap_declaration_of_moves (moves_of_mem_assembleMedia rfl _)

private theorem readsAs_media {query : String} {below : List Css} (outside : place.selector = none)
    (inner : ReadsAs (place.inMedia query) below
      (sourceBlocksOfAll style (place.inMedia query) children)
      (sourceDeclarationsOfAll style none children)) :
    ReadsAs place
      (Flatten.assembleMedia ⟨.media query, [], line, filename, tabs, groupEnd⟩ query below)
      (sourceBlocks style place ⟨.media query, children, line, filename, tabs, groupEnd⟩) [] := by
  obtain ⟨⟨blocks, found, same⟩, declared⟩ := inner
  have back : (place.inMedia query).outsideRules = place.inMedia query := by
    simp [Place.outsideRules, Place.inMedia, outside]
  constructor
  · refine ⟨_, by simp only [sourceBlocks, found, Option.map_some]; rfl, ?_⟩
    have queried := sameBlocks_assembleMedia place
      (rfl : (⟨.media query, [], line, filename, tabs, groupEnd⟩ : Css).kind = .media query) below
    rw [back, declared] at queried
    exact queried.trans (.cons _ same)
  · exact filterMap_declaration_of_moves (moves_of_mem_assembleMedia rfl below)

private theorem readsAs_directive {name params : String} {hasBlock : Bool} {below : List Css}
    (inner : ReadsAs (place.inDirective name params) below
      (sourceBlocksOfAll style (place.inDirective name params) children)
      (sourceDeclarationsOfAll style none children)) :
    ReadsAs place [⟨.directive name params hasBlock, below, line, filename, tabs, groupEnd⟩]
      (sourceBlocks style place
        ⟨.directive name params hasBlock, children, line, filename, tabs, groupEnd⟩) [] := by
  obtain ⟨⟨blocks, found, same⟩, declared⟩ := inner
  refine ⟨⟨_, by simp only [sourceBlocks, found, Option.map_some]; rfl, ?_⟩, by simp [declaration?]⟩
  simp only [flatBlocksOfAll, flatBlocks, List.append_nil, declared]
  exact .cons _ same

private theorem readsAs_parts {declarations : List (String × Value)}
    (parts : ∀ c ∈ out, c.isPropertyPart = true)
    (declared : out.filterMap declaration? = declarations) :
    ReadsAs place out (some []) declarations := by
  refine ⟨⟨[], rfl, ?_⟩, declared⟩
  have silent : flatBlocksOfAll place out = [] := by
    rw [flatBlocksOfAll_eq, List.flatMap_eq_nil_iff]
    exact fun c member => flatBlocks_of_isPropertyPart place (parts c member)
  rw [silent]
  exact .refl _

private theorem readsAs_append {first others rest : List Css} {c : Css}
    (here : ReadsAs place first (sourceBlocks style place c) (sourceDeclarations style none c))
    (later : ReadsAs place others (sourceBlocksOfAll style place rest)
      (sourceDeclarationsOfAll style none rest)) :
    ReadsAs place (first ++ others) (sourceBlocksOfAll style place (c :: rest))
      (sourceDeclarationsOfAll style none (c :: rest)) := by
  obtain ⟨⟨early, found, same⟩, declared⟩ := here
  obtain ⟨⟨late, found', same'⟩, declared'⟩ := later
  refine ⟨⟨early ++ late, by simp only [sourceBlocksOfAll, found, found'], ?_⟩, ?_⟩
  · rw [flatBlocksOfAll_eq, List.flatMap_append, ← flatBlocksOfAll_eq, ← flatBlocksOfAll_eq]
    exact same.append same'
  · rw [List.filterMap_append, declared, declared', sourceDeclarationsOfAll]

end Nodes

section Tree

variable {style : Style}

mutual

/-- Flattening a node keeps its declarations, wherever it stands. -/
theorem node_readsAs (context : Flatten.Context) (place : Place) (fits : Fits context place) :
    ∀ (c : Css) {state final : Flatten.State} {out : List Css}, c.hasPlainProperties = true →
      Flatten.node style context c state = .ok (out, final) →
      ReadsAs place out (sourceBlocks style place c) (sourceDeclarations style none c)
  | ⟨.rule selector, children, line, filename, tabs, groupEnd⟩, _, _, _, plain, ok => by
    obtain ⟨resolved, below, resolves, inner, rfl⟩ := Flatten.node_rule_ok ok
    rw [fits.selector] at resolves
    exact readsAs_rule resolves (nodes_readsAs (.rule resolved line filename tabs)
      (place.inRule resolved) ⟨rfl, rfl⟩ children plain inner)
  | ⟨.media query, children, line, filename, tabs, groupEnd⟩, _, _, _, plain, ok => by
    have selector := fits.selector
    cases context with
    | rule parent ruleLine ruleFilename ruleTabs =>
      obtain ⟨below, inner, rfl⟩ := Flatten.node_media_in_rule_ok ok
      exact readsAs_media_in_rule selector.symm (nodes_readsAs
        (.rule parent ruleLine ruleFilename ruleTabs) (place.inMedia query) ⟨selector, rfl⟩ children
        plain inner)
    | property => cases fits.name
    | _ =>
      obtain ⟨below, inner, rfl⟩ := Flatten.node_media_ok rfl ok
      exact readsAs_media selector.symm (nodes_readsAs .media (place.inMedia query)
        ⟨selector, rfl⟩ children plain inner)
  | ⟨.directive name params hasBlock, children, line, filename, tabs, groupEnd⟩, _, _, _, plain, ok => by
    obtain ⟨below, inner, rfl⟩ := Flatten.node_directive_ok ok
    exact readsAs_directive (nodes_readsAs .directive (place.inDirective name params) ⟨rfl, rfl⟩
      children plain inner)
  | ⟨.property name value, children, line, filename, tabs, groupEnd⟩, _, _, _, plain, ok => by
    obtain ⟨parts, declared⟩ := node_of_part context _ rfl plain ok
    rw [fits.name] at declared
    exact readsAs_parts parts declared
  | ⟨.comment text preserved, children, line, filename, tabs, groupEnd⟩, _, _, _, _, ok =>
    readsAs_leaf (fun _ => rfl) rfl (.inr (Flatten.pure_ok ok).1)
  | ⟨.importing uri, children, line, filename, tabs, groupEnd⟩, _, _, _, _, ok =>
    readsAs_leaf (fun _ => rfl) rfl (.inr (Flatten.pure_ok ok).1)
  | ⟨.root, children, line, filename, tabs, groupEnd⟩, _, _, _, _, ok =>
    readsAs_leaf (fun _ => rfl) rfl (.inr (Flatten.pure_ok ok).1)
  | ⟨.charset name, children, line, filename, tabs, groupEnd⟩, _, _, _, _, ok =>
    readsAs_leaf (fun _ => rfl) rfl (Flatten.node_charset_ok ok)
  | ⟨.extend selector, children, line, filename, tabs, groupEnd⟩, _, _, _, _, ok => by
    rw [(Flatten.node_extend_ok ok).1]
    exact ⟨⟨[], rfl, .refl _⟩, rfl⟩

theorem nodes_readsAs (context : Flatten.Context) (place : Place) (fits : Fits context place) :
    ∀ (children : List Css) {state final : Flatten.State} {out : List Css},
      haveAllPlainProperties children = true →
      Flatten.nodes style context children state = .ok (out, final) →
      ReadsAs place out (sourceBlocksOfAll style place children)
        (sourceDeclarationsOfAll style none children)
  | [], _, _, _, _, ok => by
    obtain ⟨rfl, _⟩ := Flatten.nodes_nil_ok ok
    exact ⟨⟨[], rfl, .refl _⟩, rfl⟩
  | c :: rest, _, _, _, plain, ok => by
    obtain ⟨first, others, middle, head, tail, rfl⟩ := Flatten.nodes_cons_ok ok
    simp only [haveAllPlainProperties, Bool.and_eq_true] at plain
    exact readsAs_append (node_readsAs context place fits c plain.1 head)
      (nodes_readsAs context place fits rest plain.2 tail)

end

end Tree

end Css

/-- The declarations of a block, each with the query and the selector it stands under. -/
def Block.entries (b : Block) : List (Option String × Option Selector × String × Value) :=
  b.declarations.map fun declaration => (b.place.query, b.place.selector, declaration)

namespace SameBlocks

theorem entries {first second : List Block} (same : SameBlocks first second) :
    (first.flatMap Block.entries).Perm (second.flatMap Block.entries) := by
  have unfilled : ∀ blocks : List Block,
      (blocks.filter Block.isFilled).flatMap Block.entries = blocks.flatMap Block.entries := by
    intro blocks
    apply Css.flatMap_filter_of_nil
    intro b _ empty
    simp_all [Block.isFilled, Block.entries]
  rw [← unfilled first, ← unfilled second]
  exact List.Perm.flatMap_right Block.entries same

end SameBlocks

namespace Css

/-- Flattening loses, doubles and changes no declaration: both readings give the same entries, and
the same filled blocks, so the declarations of one block also keep their order. -/
theorem flatten_keeps_declarations {root flat : Css} {style : Style} {extensions : Extensions}
    (plain : haveAllPlainProperties root.children = true)
    (ok : root.flatten style = .ok (flat, extensions)) :
    ∃ source, root.nestedReading style = some source ∧
      (flat.flatReading.flatMap Block.entries).Perm (source.flatMap Block.entries) ∧
      (flat.flatReading.filter Block.isFilled).Perm (source.filter Block.isFilled) := by
  obtain ⟨children, final, found, rfl⟩ := flatten_ok ok
  obtain ⟨⟨blocks, read, same⟩, declared⟩ :=
    nodes_readsAs .root .top ⟨rfl, rfl⟩ root.children plain found
  have whole : SameBlocks (flatReading (.node root.kind children root.line root.filename))
      (⟨.top, sourceDeclarationsOfAll style none root.children⟩ :: blocks) := by
    unfold flatReading
    rw [← declared]
    exact .cons _ same
  exact ⟨_, by rw [nestedReading, read]; rfl, whole.entries, whole⟩

/-- A rule with a declaration, a query around a nested declaration, and a rule inside. -/
def nestedSample : Css :=
  let declaration := fun name text children =>
    node (.property name text) children 1 none
  node .root [
    node (.rule [[.compound (.mk none [.className "a"])]]) [
      declaration "color" (some (.unquoted "red")) [],
      node (.media "print") [
        declaration "font" none [declaration "size" (some (.unquoted "small")) []],
        node (.media "(color)") [declaration "top" (some (.unquoted "auto")) []] 1 none] 1 none,
      node (.rule [[.compound (.mk (some .parent) [.className "b"])]]) [
        declaration "left" (some (.unquoted "auto")) []] 1 none] 1 none] 1 none

theorem flatten_keeps_declarations_of_sample :
    haveAllPlainProperties nestedSample.children = true ∧
      ∃ flat extensions source, nestedSample.flatten .nested = .ok (flat, extensions) ∧
        nestedSample.nestedReading .nested = some source ∧
        (flat.flatReading.flatMap Block.entries).Perm (source.flatMap Block.entries) ∧
        (flat.flatReading.filter Block.isFilled).Perm (source.filter Block.isFilled) := by
  have plain : haveAllPlainProperties nestedSample.children = true := by decide
  have succeeds : (nestedSample.flatten .nested).isOk = true := by decide +kernel
  obtain ⟨⟨flat, extensions⟩, ok⟩ : ∃ found, nestedSample.flatten .nested = .ok found := by
    cases found : nestedSample.flatten .nested with
    | error error => simp [found, Except.isOk, Except.toBool] at succeeds
    | ok pair => exact ⟨pair, rfl⟩
  obtain ⟨source, read, entries, blocks⟩ := flatten_keeps_declarations plain ok
  exact ⟨plain, flat, extensions, source, ok, read, entries, blocks⟩

end Css

end Stylesheet
