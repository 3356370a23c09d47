import Stylesheet.Nesting
import Stylesheet.Proofs.Css.Independence
import Stylesheet.Proofs.Css.Legible
import Stylesheet.Proofs.Evaluation.Constants

/-! What is read from the source of a legible tree evaluates to a tree for which the same is written.
There is nothing in it that the state or the context could change: its texts have no expressions in
them, and its values are constant. -/

namespace Stylesheet

theorem Opening.kind_ne_branch (opening : Opening) (condition : Option Expr)
    (other : Option Statement) : opening.kind ≠ .branch condition other := by
  cases opening <;> nofun

theorem Leaf.kind_ne_branch (l : Leaf) (condition : Option Expr) (other : Option Statement) :
    l.kind ≠ .branch condition other := by
  cases l <;> nofun

theorem Remark.kind_ne_branch (remark : Remark) (condition : Option Expr)
    (other : Option Statement) : remark.kind ≠ .branch condition other := nofun

theorem Statement.children_eq_nil {kind own : StatementKind} {children : List Statement} {line : Nat}
    {span : Span} {old filename : Option String} (plain : ∀ condition other, own ≠ .branch condition other)
    (same : (Statement.mk kind children line span old).unplaced =
      (Statement.mk own [] 0 default none).withFilename filename) :
    kind.unplaced = own ∧ children = [] := by
  rw [Statement.withFilename_of_not_branch plain, Statement.unplaced] at same
  obtain ⟨isKind, below, _⟩ := Statement.mk.inj same
  refine ⟨isKind, ?_⟩
  cases children with
  | nil => rfl
  | cons s others =>
    rw [Statement.unplacedAll, Statement.withFilenames] at below
    cases below

namespace Written

mutual

/-- A statement is what is read for a written one, wherever it stands. -/
def Reads : Written → Statement → Prop
  | block opening body, s => s.kind.unplaced = opening.kind ∧ ReadsAll body s.children
  | leaf l, s => s.kind.unplaced = l.kind ∧ s.children = []
  | comment remark, s => s.kind.unplaced = remark.kind ∧ s.children = []

def ReadsAll : List Written → List Statement → Prop
  | [], [] => True
  | w :: rest, s :: others => w.Reads s ∧ ReadsAll rest others
  | _, _ => False

end

mutual

theorem reads_of_unplaced (filename : Option String) : (w : Written) → (s : Statement) →
    s.unplaced = w.statement.withFilename filename → w.Reads s
  | .block opening body, .mk kind children line span old, same => by
    rw [statement, Statement.withFilename_of_not_branch opening.kind_ne_branch, Statement.unplaced]
      at same
    obtain ⟨isKind, below, _⟩ := Statement.mk.inj same
    exact ⟨isKind, readsAll_of_unplaced filename body children below⟩
  | .leaf l, .mk kind children line span old, same => Statement.children_eq_nil l.kind_ne_branch same
  | .comment remark, .mk kind children line span old, same =>
    Statement.children_eq_nil remark.kind_ne_branch same

theorem readsAll_of_unplaced (filename : Option String) : (found : List Written) →
    (read : List Statement) →
    Statement.unplacedAll read = Statement.withFilenames filename (statements found) →
    ReadsAll found read
  | [], [], _ => trivial
  | w :: rest, s :: others, same => by
    rw [Statement.unplacedAll, statements, Statement.withFilenames] at same
    obtain ⟨first, behind⟩ := List.cons.inj same
    exact ⟨reads_of_unplaced filename w s first, readsAll_of_unplaced filename rest others behind⟩
  | [], _ :: _, same => by
    rw [Statement.unplacedAll, statements, Statement.withFilenames] at same
    cases same
  | _ :: _, [], same => by
    rw [Statement.unplacedAll, statements, Statement.withFilenames] at same
    cases same

end

end Written

namespace Nesting

variable {style : Style}

/-- A block in which blocks and declarations are allowed. -/
def isOpen (parent : Enclosure) : Bool :=
  [Enclosure.rule, .directive, .media].contains parent

theorem violation?_unplaced (parent direct : Enclosure) (kind : StatementKind) :
    violation? parent direct kind.unplaced = violation? parent direct kind := by
  cases kind with
  | importing target => cases target <;> rfl
  | _ => rfl

theorem ofKind_unplaced (kind : StatementKind) :
    Enclosure.ofKind kind.unplaced = Enclosure.ofKind kind := by
  cases kind <;> rfl

theorem isOpen_opening (opening : Opening) : isOpen (Enclosure.ofKind opening.kind) = true := by
  cases opening <;> rfl

theorem violation?_opening {parent : Enclosure} (allowed : parent = .root ∨ isOpen parent = true)
    (direct : Enclosure) (opening : Opening) : violation? parent direct opening.kind = none := by
  cases parent with
  | root | rule | directive | media => cases opening <;> rfl
  | _ => exact absurd allowed (by decide)

/-- A node may stand in `parent`, right inside of `direct`. -/
def MayStand (parent direct : Enclosure) (c : Css) : Prop :=
  (c.isProperty = true → isOpen parent = true) ∧
    (c.isOutermost = true → parent = .root ∧ direct = .root)

theorem violation?_leaf {parent direct : Enclosure}
    (allowed : parent = .root ∨ isOpen parent = true) {c : Css} (placed : MayStand parent direct c)
    {l : Leaf} (prints : l.Prints c.kind) : violation? parent direct l.kind = none := by
  obtain ⟨kind, children, line, filename, tabs, groupEnd⟩ := c
  cases l with
  | declaration name value =>
    obtain ⟨_, _, v, isKind, _⟩ := prints
    cases isKind
    have isInside := placed.1 rfl
    cases parent with
    | rule | directive | media => rfl
    | _ => cases isInside
  | directive head =>
    cases parent with
    | root | rule | directive | media => rfl
    | _ => exact absurd allowed (by decide)
  | charset name =>
    cases prints
    obtain ⟨rfl, rfl⟩ := placed.2 rfl
    rfl
  | importing target =>
    cases prints
    obtain ⟨rfl, rfl⟩ := placed.2 rfl
    rfl

theorem violation?_remark {parent : Enclosure} (allowed : parent = .root ∨ isOpen parent = true)
    (direct : Enclosure) (remark : Remark) : violation? parent direct remark.kind = none := by
  cases parent with
  | root | rule | directive | media => rfl
  | _ => exact absurd allowed (by decide)

theorem otherwise_of_not_branch {parent : Enclosure} {kind : StatementKind}
    (plain : ∀ condition other, kind ≠ .branch condition other) : otherwise parent kind = [] := by
  unfold otherwise
  split
  · exact absurd rfl (plain _ _)
  · rfl

theorem not_branch_of_unplaced {kind other : StatementKind} (same : kind.unplaced = other)
    (plain : ∀ condition otherwise, other ≠ .branch condition otherwise) :
    ∀ condition otherwise, kind ≠ .branch condition otherwise := by
  rintro condition otherwise rfl
  exact plain _ _ same.symm

theorem below_of_empty {parent : Enclosure} {kind own : StatementKind} {line : Nat} {span : Span}
    {filename : Option String} (isKind : kind.unplaced = own)
    (plain : ∀ condition other, own ≠ .branch condition other) :
    below parent (.mk kind [] line span filename) = [] := by
  unfold below
  rw [otherwise_of_not_branch (not_branch_of_unplaced isKind plain)]
  unfold violations
  rfl

mutual

/-- Below a statement that is written for a node everything is allowed. -/
theorem below_written (parent : Enclosure) : (w : Written) → (s : Statement) → (c : Css) →
    w.Reads s → w.Prints style c → below parent s = []
  | .block opening body, .mk kind children line span filename, c, ⟨isKind, inner⟩, prints => by
    have isKind : kind.unplaced = opening.kind := isKind
    have own : isOpen (Enclosure.ofKind kind) = true := by
      rw [← ofKind_unplaced kind]
      exact (congrArg (fun kind => isOpen (Enclosure.ofKind kind)) isKind).trans
        (isOpen_opening opening)
    have solid : (Enclosure.ofKind kind).isTransparent = false := by
      cases enclosure : Enclosure.ofKind kind with
      | rule | directive | media => rfl
      | _ =>
        rw [enclosure] at own
        cases own
    have placed : ∀ d ∈ c.children, MayStand (Enclosure.ofKind kind) (Enclosure.ofKind kind) d := by
      refine fun d member => ⟨fun _ => own, fun outermost => ?_⟩
      obtain ⟨inside, _⟩ := Bool.and_eq_true_iff.mp (prints.2.2.1 d member)
      rw [outermost] at inside
      cases inside
    unfold below
    simp only [solid, Bool.false_eq_true, if_false]
    rw [violations_written (.inr own) _ body children c.children inner prints.2.2.2 placed,
      otherwise_of_not_branch (not_branch_of_unplaced isKind opening.kind_ne_branch)]
    rfl
  | .leaf l, .mk kind children line span filename, c, ⟨isKind, empty⟩, _ => by
    obtain rfl : children = [] := empty
    exact below_of_empty isKind l.kind_ne_branch
  | .comment remark, .mk kind children line span filename, c, ⟨isKind, empty⟩, _ => by
    obtain rfl : children = [] := empty
    exact below_of_empty isKind remark.kind_ne_branch

/-- What is written for nodes may stand where the nodes may. -/
theorem violations_written {parent : Enclosure} (allowed : parent = .root ∨ isOpen parent = true)
    (direct : Enclosure) : (found : List Written) → (read : List Statement) → (nodes : List Css) →
    Written.ReadsAll found read → Written.PrintsAll style found nodes →
    (∀ c ∈ nodes, MayStand parent direct c) → violations parent direct read = []
  | [], [], _, _, _, _ => rfl
  | w :: rest, s :: others, c :: nodes, ⟨first, behind⟩, ⟨prints, after⟩, placed => by
    have fits : violation? parent direct s.kind = none := by
      rw [← violation?_unplaced]
      cases w with
      | block opening body =>
        rw [show s.kind.unplaced = opening.kind from first.1]
        exact violation?_opening allowed direct opening
      | leaf l =>
        rw [show s.kind.unplaced = l.kind from first.1]
        exact violation?_leaf allowed (placed c List.mem_cons_self) prints.2
      | comment remark =>
        rw [show s.kind.unplaced = remark.kind from first.1]
        exact violation?_remark allowed direct remark
    unfold violations
    rw [fits, below_written parent w s c first prints, violations_written allowed direct rest others
      nodes behind after fun d member => placed d (List.mem_cons_of_mem c member)]
    rfl

end

end Nesting

theorem DirectiveHead.params_template (head : DirectiveHead) :
    head.params.elim [] Phrase.template = Template.ofText head.paramsText := by
  unfold DirectiveHead.paramsText
  cases head.params <;> rfl

theorem DirectiveHead.trim_paramsText (head : DirectiveHead) :
    Text.trim head.paramsText = head.paramsText := by
  unfold DirectiveHead.paramsText
  cases head.params with
  | none => rfl
  | some params => exact params.trim

/-- What is written for an import has no blank in front or behind. -/
theorem BrowserImport.trim (target : BrowserImport) :
    Text.trim (String.ofList target.text) = String.ofList target.text := by
  obtain ⟨x, more, isName, notBlank⟩ := target.isName.exists_cons
  obtain ⟨front, last, isConcat, ends⟩ := target.exists_concat
  have isText : target.text = x :: (more ++ Opening.paramsText target.media) := by
    rw [text, isName, List.cons_append]
  exact Text.trim_of_ends isText notBlank isConcat (endsLine_notBlank ends)

namespace Evaluation

variable (run : Runner) (scope : ScopeId) (place : Place)

theorem gives_template {parts : Template} {content : String}
    (isText : Part.unplacedAll parts = Template.ofText content) :
    Gives (template run scope parts) (· = content) := by
  unfold Template.ofText Template.pushText at isText
  match parts with
  | [] =>
    split at isText
    · rename_i empty
      rw [String.isEmpty_iff.mp empty]
      unfold template
      exact .pure rfl
    · cases isText
  | part :: rest =>
    split at isText
    · cases isText
    · obtain ⟨isPart, isRest⟩ := List.cons.inj isText
      cases part with
      | expr e => cases isPart
      | text content =>
        cases isPart
        cases rest with
        | cons => cases isRest
        | nil =>
          unfold template template
          exact Gives.bind (p := (· = "")) (.pure rfl) fun _ empty =>
            .pure (by rw [empty, String.append_empty])

theorem gives_trimmedText {parts : Template} {content : String}
    (isText : Part.unplacedAll parts = Template.ofText content)
    (trimmed : Text.trim content = content) :
    Gives (trimmedText run scope parts) (· = content) :=
  (gives_template run scope isText).bind fun _ same => .pure (by rw [same, trimmed])

theorem gives_selectorOf {parts : Template} {phrase : Phrase} {selector : Selector}
    (isText : Part.unplacedAll parts = phrase.template)
    (again : ∀ line, Selector.parse (String.ofList phrase.text) line = .ok selector) :
    Gives (selectorOf run scope place parts) (· = selector) := by
  refine (gives_template run scope isText).bind fun text same => ?_
  rw [same, phrase.trim, again]
  exact .pure rfl

theorem gives_cssText (e : Expr) {value : Value} {text : String}
    (shown : value.toCss .nested = .ok text) : Gives (cssText e value) fun _ => True := by
  refine Gives.read.after fun context => ?_
  have same := Value.map_isEmpty_toCss .nested context.options.style value
  rw [shown] at same
  cases ok : value.toCss context.options.style with
  | error error =>
    rw [ok] at same
    cases same
  | ok text => exact .pure trivial

variable {style : Style}

/-- A statement gives a node for which it is written. -/
def GivesFor (style : Style) (w : Written) (action : Evaluating Outcome) : Prop :=
  Gives action fun outcome => outcome.returned = none ∧ ∃ c, outcome.css = [c] ∧ w.Prints style c

variable {body : ScopeId → Evaluating Outcome} {opening : Opening} {inner : List Written}

theorem givesFor_block {c : Css} (prints : (Written.block opening inner).Prints style c)
    {kind : StatementKind} (isKind : kind.unplaced = opening.kind) {children : List Statement}
    (below : ∀ scope, Gives (body scope) fun outcome => Written.PrintsAll style inner outcome.css) :
    GivesFor style (.block opening inner) (simpleStatement run scope place children body kind) := by
  have finish : ∀ {parent : Enclosure} (own : CssKind), opening.Heads own →
      GivesFor style (.block opening inner) (do
        return .ofCss (place.node own (← nested parent scope body))) := by
    intro parent own heads
    exact (Gives.nested below).bind fun _ nodes => .pure ⟨rfl, _, rfl, prints.block heads nodes⟩
  obtain ⟨own, held, line, filename, tabs, groupEnd⟩ := c
  cases opening with
  | rule head =>
    cases kind with
    | rule selector =>
      cases own with
      | rule resolved =>
        refine (gives_selectorOf run scope place (StatementKind.rule.inj isKind) prints.1.2.1).bind
          fun found same => ?_
        rw [same]
        exact finish _ prints.1
      | _ => exact absurd prints.1 id
    | _ => cases isKind
  | media query =>
    cases kind with
    | media text =>
      refine (gives_trimmedText run scope (StatementKind.media.inj isKind) query.trim).bind
        fun found same => ?_
      rw [same]
      exact finish (.media (String.ofList query.text)) rfl
    | _ => cases isKind
  | directive head =>
    cases kind with
    | directive name params hasBlock =>
      obtain ⟨rfl, isParams, rfl⟩ := StatementKind.directive.inj isKind
      rw [head.params_template] at isParams
      refine (gives_trimmedText run scope isParams head.trim_paramsText).bind fun found same => ?_
      rw [same]
      exact finish (.directive (String.ofList head.name.text) head.paramsText true)
        ⟨rfl, rfl, rfl⟩
    | _ => cases isKind

theorem givesFor_leaf {l : Leaf} {c : Css} (prints : l.Prints c.kind) {kind : StatementKind}
    (isKind : kind.unplaced = l.kind) {children : List Statement}
    (below : ∀ scope, Gives (body scope) fun outcome => outcome.css = []) :
    GivesFor style (.leaf l) (simpleStatement run scope place children body kind) := by
  cases l with
  | declaration name value =>
    obtain ⟨trimmed, ⟨result, constant, shown⟩, _⟩ := prints
    cases kind with
    | property parts e =>
      obtain ⟨isName, isValue⟩ := StatementKind.property.inj isKind
      obtain ⟨e, rfl, isExpr⟩ := Option.map_eq_some_iff.mp isValue
      refine (gives_trimmedText run scope isName trimmed).bind fun text isText => ?_
      refine (constant e isExpr run scope).bind fun v isResult => ?_
      subst isText isResult
      refine (gives_cssText e shown).after fun _ => ?_
      refine (Gives.nested (q := (· = [])) below).bind fun held empty => ?_
      exact .pure ⟨rfl, _, rfl, empty, trimmed, ⟨v, constant, shown⟩, _, rfl, shown⟩
    | _ => cases isKind
  | directive head =>
    cases kind with
    | directive name params hasBlock =>
      obtain ⟨rfl, isParams, rfl⟩ := StatementKind.directive.inj isKind
      rw [head.params_template] at isParams
      refine (gives_trimmedText run scope isParams head.trim_paramsText).bind fun found same => ?_
      rw [same]
      refine (Gives.nested (q := (· = [])) below).bind fun held empty => ?_
      exact .pure ⟨rfl, _, rfl, empty, rfl⟩
    | _ => cases isKind
  | charset name =>
    cases kind with
    | charset text =>
      cases isKind
      exact .pure ⟨rfl, _, rfl, rfl, rfl⟩
    | _ => cases isKind
  | importing target =>
    cases kind with
    | importing other =>
      cases other with
      | css text =>
        have isText := ImportTarget.css.inj (StatementKind.importing.inj isKind)
        refine (gives_trimmedText run scope isText target.trim).bind fun found same => ?_
        rw [same]
        exact .pure ⟨rfl, _, rfl, rfl, rfl⟩
      | stylesheet uri => cases isKind
    | _ => cases isKind

theorem givesFor_comment {remark : Remark} {c : Css} (prints : (Written.comment remark).Prints style c)
    {kind : StatementKind} (isKind : kind.unplaced = remark.kind) {children : List Statement} :
    GivesFor style (.comment remark) (simpleStatement run scope place children body kind) := by
  cases kind with
  | comment text silent =>
    obtain ⟨isText, rfl⟩ := StatementKind.comment.inj isKind
    refine (gives_template run scope isText).bind fun found same => ?_
    rw [same]
    exact .pure ⟨rfl, _, rfl, rfl, rfl, prints.2.2⟩
  | _ => cases isKind

theorem gives_nothing (scope : ScopeId) :
    Gives (statements run scope []) fun outcome => outcome.css = [] := by
  unfold statements
  exact .pure rfl

mutual

/-- A statement that is read from the source of a node gives a node with the same source. -/
theorem givesFor_statement (scope : ScopeId) : (w : Written) → (s : Statement) → (c : Css) →
    w.Reads s → w.Prints style c → GivesFor style w (statement run scope s)
  | .block opening inner, .mk kind children line span filename, c, ⟨isKind, reads⟩, prints => by
    have isKind : kind.unplaced = opening.kind := isKind
    have below : ∀ scope, Gives (statements run scope children) fun outcome =>
        Written.PrintsAll style inner outcome.css := fun scope =>
      (gives_statements scope inner children c.children reads prints.2.2.2).weaken
        fun _ both => both.2
    rw [statement.eq_2 _ _ _ _ _ _ _
      (Nesting.not_branch_of_unplaced isKind opening.kind_ne_branch)]
    exact Gives.forStatement
      (givesFor_block run scope ⟨line, span, filename⟩ prints isKind below)
  | .leaf l, .mk kind children line span filename, c, ⟨isKind, empty⟩, prints => by
    obtain rfl : children = [] := empty
    have isKind : kind.unplaced = l.kind := isKind
    rw [statement.eq_2 _ _ _ _ _ _ _ (Nesting.not_branch_of_unplaced isKind l.kind_ne_branch)]
    exact Gives.forStatement
      (givesFor_leaf run scope ⟨line, span, filename⟩ prints.2 isKind (gives_nothing run))
  | .comment remark, .mk kind children line span filename, c, ⟨isKind, _⟩, prints => by
    have isKind : kind.unplaced = remark.kind := isKind
    rw [statement.eq_2 _ _ _ _ _ _ _ (Nesting.not_branch_of_unplaced isKind remark.kind_ne_branch)]
    exact Gives.forStatement (givesFor_comment run scope ⟨line, span, filename⟩ prints isKind)

theorem gives_statements (scope : ScopeId) : (found : List Written) → (read : List Statement) →
    (nodes : List Css) → Written.ReadsAll found read → Written.PrintsAll style found nodes →
    Gives (statements run scope read) fun outcome =>
      outcome.returned = none ∧ Written.PrintsAll style found outcome.css
  | [], [], _, _, _ => by
    unfold statements
    exact .pure ⟨rfl, trivial⟩
  | w :: rest, s :: others, c :: nodes, ⟨reads, behind⟩, ⟨prints, after⟩ => by
    unfold statements
    refine (givesFor_statement scope w s c reads prints).bind fun first ⟨goesOn, d, isNode, own⟩ => ?_
    rw [goesOn]
    refine (gives_statements scope rest others nodes behind after).bind fun last ⟨returned, more⟩ => ?_
    refine .pure ⟨returned, ?_⟩
    rw [isNode]
    exact ⟨own, more⟩

end

end Evaluation

end Stylesheet
