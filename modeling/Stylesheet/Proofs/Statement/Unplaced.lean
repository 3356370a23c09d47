import Stylesheet.Statement.Parser

/-! Trees without places: what two source texts have to agree on to be the same stylesheet. -/

namespace Stylesheet

mutual

/-- An expression without its place and without those in it. -/
def Expr.unplaced : Expr → Expr
  | .mk form _ _ => .mk form.unplaced 0 default

def Form.unplaced : Form → Form
  | .literal value => .literal value
  | .variable name => .variable name
  | .text quoted parts => .text quoted (Part.unplacedAll parts)
  | .interpolation before middle behind spaceBefore spaceAfter =>
    .interpolation (Expr.unplacedSide before) middle.unplaced (Expr.unplacedSide behind)
      spaceBefore spaceAfter
  | .list items separator => .list (Expr.unplacedAll items) separator
  | .binary op left right => .binary op left.unplaced right.unplaced
  | .unary op operand => .unary op operand.unplaced
  | .call name args => .call name args.unplaced
  | .paren inner => .paren inner.unplaced

def Part.unplaced : Part → Part
  | .text content => .text content
  | .expr e => .expr e.unplaced

def Arguments.unplaced : Arguments → Arguments
  | .mk positional keywords => .mk (Expr.unplacedAll positional) (Expr.unplacedNamed keywords)

def Expr.unplacedSide : Option Expr → Option Expr
  | none => none
  | some e => some e.unplaced

def Expr.unplacedAll : List Expr → List Expr
  | [] => []
  | e :: rest => e.unplaced :: Expr.unplacedAll rest

def Expr.unplacedNamed : List (String × Expr) → List (String × Expr)
  | [] => []
  | (name, e) :: rest => (name, e.unplaced) :: Expr.unplacedNamed rest

def Part.unplacedAll : List Part → List Part
  | [] => []
  | part :: rest => part.unplaced :: Part.unplacedAll rest

end

def Param.unplaced (param : Param) : Param :=
  ⟨param.name, param.defaultValue.map Expr.unplaced⟩

def ImportTarget.unplaced : ImportTarget → ImportTarget
  | .stylesheet uri => .stylesheet uri
  | .css text => .css (Part.unplacedAll text)

mutual

/-- A statement without its place and without those in it. The file stays. -/
def Statement.unplaced : Statement → Statement
  | .mk kind children _ _ filename =>
    .mk kind.unplaced (Statement.unplacedAll children) 0 default filename

def StatementKind.unplaced : StatementKind → StatementKind
  | .root => .root
  | .rule selector => .rule (Part.unplacedAll selector)
  | .property name value => .property (Part.unplacedAll name) (value.map Expr.unplaced)
  | .comment text silent => .comment (Part.unplacedAll text) silent
  | .directive name params hasBlock => .directive name (Part.unplacedAll params) hasBlock
  | .media query => .media (Part.unplacedAll query)
  | .charset name => .charset name
  | .importing target => .importing target.unplaced
  | .assign name value guarded => .assign name value.unplaced guarded
  | .defineMixin name params => .defineMixin name (params.map Param.unplaced)
  | .includeMixin name args => .includeMixin name args.unplaced
  | .defineFunction name params => .defineFunction name (params.map Param.unplaced)
  | .returning value => .returning value.unplaced
  | .extend selector => .extend (Part.unplacedAll selector)
  | .branch condition otherwise =>
    .branch (condition.map Expr.unplaced) (Statement.unplacedSide otherwise)
  | .loopWhile condition => .loopWhile condition.unplaced
  | .loopCount counter start stop inclusive =>
    .loopCount counter start.unplaced stop.unplaced inclusive
  | .loopEach item list => .loopEach item list.unplaced
  | .debug value => .debug value.unplaced
  | .warn value => .warn value.unplaced

def Statement.unplacedSide : Option Statement → Option Statement
  | none => none
  | some s => some s.unplaced

def Statement.unplacedAll : List Statement → List Statement
  | [] => []
  | s :: rest => s.unplaced :: Statement.unplacedAll rest

end

theorem Part.unplacedAll_ofText (content : String) :
    Part.unplacedAll (Template.ofText content) = Template.ofText content := by
  unfold Template.ofText Template.pushText
  split
  · rfl
  · rfl

namespace Statement

theorem unplacedAll_append (first second : List Statement) :
    unplacedAll (first ++ second) = unplacedAll first ++ unplacedAll second := by
  induction first with
  | nil => rfl
  | cons s rest ih => rw [List.cons_append, unplacedAll, unplacedAll, ih, List.cons_append]

theorem unplaced_leaf_withChildren (kind : StatementKind) (line : Nat) (span : Span)
    (children : List Statement) :
    ((leaf kind line span).withChildren children).unplaced =
      (leaf kind.unplaced 0 default).withChildren (unplacedAll children) := by
  rw [leaf, withChildren, unplaced]
  rfl

theorem hasBlock_unplaced (s : Statement) : s.unplaced.hasBlock = s.hasBlock := by
  obtain ⟨kind, children, line, span, filename⟩ := s
  cases kind with
  | property name value => cases children <;> rfl
  | _ => rfl

mutual

/-- The file is no place. -/
theorem unplaced_withFilename (filename : Option String) :
    (s : Statement) → (s.withFilename filename).unplaced = s.unplaced.withFilename filename
  | .mk kind children line span old => by
    have inner := unplacedAll_withFilenames filename children
    cases kind with
    | branch condition otherwise =>
      cases otherwise with
      | none =>
        simp only [withFilename, unplaced, StatementKind.unplaced, Statement.unplacedSide, inner]
      | some branch =>
        have other := unplaced_withFilename filename branch
        simp only [withFilename, unplaced, StatementKind.unplaced, Statement.unplacedSide, inner,
          other]
    | _ => simp only [withFilename, unplaced, StatementKind.unplaced, inner]

theorem unplacedAll_withFilenames (filename : Option String) :
    (found : List Statement) →
      unplacedAll (withFilenames filename found) = withFilenames filename (unplacedAll found)
  | [] => by simp only [withFilenames, unplacedAll]
  | s :: rest => by
    simp only [withFilenames, unplacedAll, unplaced_withFilename filename s,
      unplacedAll_withFilenames filename rest]

end

end Statement

end Stylesheet
