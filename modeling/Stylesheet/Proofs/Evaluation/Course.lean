import Mathlib.Logic.Relation
import Stylesheet.Compilation
import Stylesheet.Proofs.Evaluation.Discipline

/-! The course of an evaluation: what comes to be evaluated on the way, in which scope and from which
state. A step leads from something to a part of it, or to what it calls or imports, once everything
that comes before has succeeded. All that happens to the state in between is what the parts before
leave behind, and then one change that the evaluation of the part begins with. -/

namespace Stylesheet.Evaluation

/-- Something that is evaluated. -/
inductive Task where
  | expr (e : Expr)
  | exprs (items : List Expr)
  | namedExprs (args : List (String × Expr))
  | template (parts : List Part)
  | arguments (args : Arguments)
  | statements (body : List Statement)
  | statement (s : Statement)
  /-- What a statement does once its file is known. -/
  | content (s : Statement)
  /-- A mixin that counts as called. -/
  | included (name : String) (args : Arguments) (line : Nat) (span : Span)
  /-- A mixin or function with the values of its arguments. -/
  | applied (callable : Callable) (positional : List Value) (keywords : List (String × Value))
      (line : Nat) (span : Span)
  /-- The rest of the parameters, and then the body. -/
  | bound (callable : Callable) (params : List Param) (positional : List Value)
      (keywords : List (String × Value)) (line : Nat) (span : Span)
  /-- The rest of a loop, with what it gave so far. -/
  | whileHolds (condition : Expr) (body : List Statement) (tooMany : Diagnostic)
      (runs : List (List Css)) (remaining : Nat)
  | forIntegers (counter : String) (units : Units) (body : List Statement)
      (runs : List (List Css)) (next : Int) (remaining : Nat)
  | forValues (item : String) (body : List Statement) (runs : List (List Css))
      (values : List Value)

/-- What a statement does once its file is known. -/
def content (run : Runner) (scope : ScopeId) : Statement → Evaluating Outcome
  | .mk (.branch condition otherwise) children _ _ _ => do
    if ← isTaken run scope condition then
      inScope scope fun inner => statements run inner children
    else otherBranch run scope otherwise
  | .mk kind children line span filename =>
    simpleStatement run scope ⟨line, span, filename⟩ children
      (fun inner => statements run inner children) kind

theorem statement_eq (run : Runner) (scope : ScopeId) (s : Statement) :
    statement run scope s = forStatement s.line s.filename (content run scope s) := by
  obtain ⟨kind, children, line, span, filename⟩ := s
  cases kind <;> rfl

/-- One value of a count. -/
def countTo (units : Units) (i : Int) : Value :=
  .number (Number.ofUnits (Double.ofInt i) units)

/-- An action without its result. -/
def silently (action : Evaluating α) : Evaluating Unit := do
  let _ ← action
  return ()

theorem final_silently (action : Evaluating α) (context : Context) (state : State) :
    final (silently action context state) = final (action context state) := by
  simp only [silently, Bind.bind, ReaderT.bind, EStateM.bind]
  cases action context state <;> rfl

/-- What an `@include` gives once its mixin counts as called. -/
def included (run : Runner) (scope : ScopeId) (mixin : Callable) (args : Arguments) (line : Nat)
    (span : Span) : Evaluating Outcome := do
  let (positional, keywords) ← arguments run scope args
  let outcome ← withArguments run mixin positional keywords line span (run.body mixin.body)
  return ⟨outcome.css, none⟩

/-- The evaluation of a task, without its result. -/
def perform (run : Runner) (scope : ScopeId) : Task → Evaluating Unit
  | .expr e => silently (expr run scope e)
  | .exprs items => silently (exprs run scope items)
  | .namedExprs args => silently (namedExprs run scope args)
  | .template parts => silently (template run scope parts)
  | .arguments args => silently (arguments run scope args)
  | .statements body => silently (statements run scope body)
  | .statement s => silently (statement run scope s)
  | .content s => silently (content run scope s)
  | .included name args line span => do
    match (← get).env.mixin? scope name with
    | none => return ()
    | some mixin => silently (Evaluation.included run scope mixin args line span)
  | .applied callable positional keywords line span =>
    silently (withArguments run callable positional keywords line span (run.body callable.body))
  | .bound callable params positional keywords line span => silently do
    bindParams run callable scope (fun message => callError message line span) params positional
      keywords
    run.body callable.body scope
  | .whileHolds condition body tooMany runs remaining =>
    silently (whileHolds (return (← expr run scope condition).isTruthy)
      (statements run scope body) tooMany runs remaining)
  | .forIntegers counter units body runs next remaining =>
    silently (forIntegers
      (fun i => do
        modifyEnv (·.declare scope counter (countTo units i))
        statements run scope body)
      runs next remaining)
  | .forValues item body runs values =>
    silently (forValues
      (fun value => do
        modifyEnv (·.declare scope item value)
        statements run scope body)
      runs values)

/-- The template that a statement starts with. -/
def firstTemplate? : StatementKind → Option Template
  | .rule parts | .property parts _ | .directive _ parts _ | .media parts | .extend parts
  | .importing (.css parts) => some parts
  | .comment parts silent => if silent then none else some parts
  | _ => none

/-- The expression that a statement starts with. -/
def firstExpr? : StatementKind → Option Expr
  | .returning e | .loopCount _ e _ _ | .loopEach _ e | .debug e | .warn e => some e
  | .branch condition _ => condition
  | _ => none

/-- What comes before the block of a rule, a property, an `@media` or a directive, and how the block
counts for nesting. -/
def heading? (run : Runner) (scope : ScopeId) (place : Place) :
    StatementKind → Option (Enclosure × Evaluating Unit)
  | .rule parts => some (.rule, do
    let _ ← selectorOf run scope place parts
    return ())
  | .property parts value => some (.property, do
    let _ ← trimmedText run scope parts
    match value with
    | none => return ()
    | some e => do
      let _ ← cssText e (← expr run scope e)
      return ())
  | .directive _ parts _ => some (.directive, do
    let _ ← trimmedText run scope parts
    return ())
  | .media parts => some (.media, do
    let _ ← trimmedText run scope parts
    return ())
  | _ => none

/-- The units, the first value and the number of values of a count. -/
def countOf (run : Runner) (scope : ScopeId) (line : Nat) (span : Span) (start stop : Expr)
    (inclusive : Bool) : Evaluating (Units × Int × Nat) := do
  let first ← wholeNumber start (← expr run scope start)
  let last ← wholeNumber stop (← expr run scope stop)
  let last ← ofValue stop.line stop.span (last.coerce first.units)
  let final := if inclusive then last.value else last.value - 1
  let limit := (← options).maxLoopIterations
  if final - first.value + 1 > Double.ofNat limit then throw (loopLimit "@for" limit line span)
  else
    let low := Double.toCount first.value
    return (first.units, low, (Double.toCount final - low + 1).toNat)

theorem loopCount_eq (run : Runner) (scope : ScopeId) (line : Nat) (span : Span) (counter : String)
    (start stop : Expr) (inclusive : Bool) (body : ScopeId → Evaluating Outcome) :
    loopCount run scope line span counter start stop inclusive body = (do
      let (units, low, count) ← countOf run scope line span start stop inclusive
      inScope scope fun inner =>
        forIntegers
          (fun i => do
            modifyEnv (·.declare inner counter (countTo units i))
            body inner)
          [] low count) := by
  simp only [loopCount, countOf, bind_assoc]
  refine bind_congr fun _ => bind_congr fun _ => bind_congr fun _ => bind_congr fun _ => ?_
  refine bind_congr fun last => bind_congr fun _ => ?_
  generalize (if inclusive = true then last.value else last.value - 1) = final
  split
  · rfl
  · rfl

/-- A mixin or function is applied in the scope it was defined in. -/
def Task.IsAt (scope : ScopeId) : Task → Prop
  | .applied callable _ _ _ _ => callable.scope = scope
  | _ => True

/-- A place in the course of an evaluation, with the number of calls and imports that may still be
nested in it. -/
structure Point where
  depth : Nat
  scope : ScopeId
  task : Task
  state : State

/-- The evaluation at a point. -/
def Point.perform (context : Context) (p : Point) : EStateM.Result Diagnostic State Unit :=
  Evaluation.perform (runner p.depth) p.scope p.task context p.state

/-- A call is entered. -/
def State.entering (state : State) (call : Call) : State :=
  { state with env := state.env.enterCall call }

/-- A scope is opened. -/
def State.scoped (state : State) (parent : ScopeId) : State :=
  { state with env := (state.env.push parent).1 }

def State.declaring (state : State) (scope : ScopeId) (name : String) (value : Value) : State :=
  { state with env := state.env.declare scope name value }

/-- The evaluation at one point leads to the one at another. -/
inductive Step (context : Context) : Point → Point → Prop where
  | text {d scope s quoted parts line span} :
      Step context ⟨d, scope, .expr (.mk (.text quoted parts) line span), s⟩
        ⟨d, scope, .template parts, s⟩
  | before {d scope s before middle behind spaceBefore spaceAfter line span} :
      Step context
        ⟨d, scope, .expr (.mk (.interpolation (some before) middle behind spaceBefore spaceAfter)
          line span), s⟩
        ⟨d, scope, .expr before, s⟩
  | middle {d scope s t before middle behind spaceBefore spaceAfter line span left}
      (ok : side (runner d) scope before context s = .ok left t) :
      Step context
        ⟨d, scope, .expr (.mk (.interpolation before middle behind spaceBefore spaceAfter)
          line span), s⟩
        ⟨d, scope, .expr middle, t⟩
  | behind {d scope s t u v before middle behind spaceBefore spaceAfter line span left value center}
      (ok : side (runner d) scope before context s = .ok left t)
      (middleOk : expr (runner d) scope middle context t = .ok value u)
      (textOk : interpolatedText middle value context u = .ok center v) :
      Step context
        ⟨d, scope, .expr (.mk (.interpolation before middle (some behind) spaceBefore spaceAfter)
          line span), s⟩
        ⟨d, scope, .expr behind, v⟩
  | items {d scope s items separator line span} :
      Step context ⟨d, scope, .expr (.mk (.list items separator) line span), s⟩
        ⟨d, scope, .exprs items, s⟩
  | left {d scope s op left right line span} :
      Step context ⟨d, scope, .expr (.mk (.binary op left right) line span), s⟩
        ⟨d, scope, .expr left, s⟩
  | right {d scope s t op left right line span value}
      (ok : expr (runner d) scope left context s = .ok value t) (needed : decides op value = false) :
      Step context ⟨d, scope, .expr (.mk (.binary op left right) line span), s⟩
        ⟨d, scope, .expr right, t⟩
  | operand {d scope s op operand line span} :
      Step context ⟨d, scope, .expr (.mk (.unary op operand) line span), s⟩
        ⟨d, scope, .expr operand, s⟩
  | paren {d scope s inner line span} :
      Step context ⟨d, scope, .expr (.mk (.paren inner) line span), s⟩ ⟨d, scope, .expr inner, s⟩
  | callArguments {d scope s name args line span} :
      Step context ⟨d, scope, .expr (.mk (.call name args) line span), s⟩
        ⟨d, scope, .arguments args, s⟩
  | called {d scope s t name args line span positional keywords function}
      (ok : arguments (runner d) scope args context s = .ok (positional, keywords) t)
      (found : t.env.function? scope name = some function)
      (allowed : checkDepth line span context t = .ok () t) :
      Step context ⟨d, scope, .expr (.mk (.call name args) line span), s⟩
        ⟨d, function.scope, .applied function positional keywords line span,
          t.entering ⟨.function, function.name, line, t.filename⟩⟩
  | head {d scope s e rest} : Step context ⟨d, scope, .exprs (e :: rest), s⟩ ⟨d, scope, .expr e, s⟩
  | tail {d scope s t e rest value} (ok : expr (runner d) scope e context s = .ok value t) :
      Step context ⟨d, scope, .exprs (e :: rest), s⟩ ⟨d, scope, .exprs rest, t⟩
  | namedHead {d scope s name e rest} :
      Step context ⟨d, scope, .namedExprs ((name, e) :: rest), s⟩ ⟨d, scope, .expr e, s⟩
  | namedTail {d scope s t name e rest value}
      (ok : expr (runner d) scope e context s = .ok value t) :
      Step context ⟨d, scope, .namedExprs ((name, e) :: rest), s⟩ ⟨d, scope, .namedExprs rest, t⟩
  | part {d scope s e rest} :
      Step context ⟨d, scope, .template (.expr e :: rest), s⟩ ⟨d, scope, .expr e, s⟩
  | behindPart {d scope s t u e rest value text}
      (ok : expr (runner d) scope e context s = .ok value t)
      (textOk : interpolatedText e value context t = .ok text u) :
      Step context ⟨d, scope, .template (.expr e :: rest), s⟩ ⟨d, scope, .template rest, u⟩
  | behindText {d scope s text rest} :
      Step context ⟨d, scope, .template (.text text :: rest), s⟩ ⟨d, scope, .template rest, s⟩
  | positional {d scope s args} :
      Step context ⟨d, scope, .arguments args, s⟩ ⟨d, scope, .exprs args.positional, s⟩
  | keywords {d scope s t args values}
      (ok : exprs (runner d) scope args.positional context s = .ok values t) :
      Step context ⟨d, scope, .arguments args, s⟩ ⟨d, scope, .namedExprs args.keywords, t⟩
  | first {d scope s first rest} :
      Step context ⟨d, scope, .statements (first :: rest), s⟩ ⟨d, scope, .statement first, s⟩
  | next {d scope s t first rest outcome}
      (ok : statement (runner d) scope first context s = .ok outcome t)
      (goesOn : outcome.returned = none) :
      Step context ⟨d, scope, .statements (first :: rest), s⟩ ⟨d, scope, .statements rest, t⟩
  | content {d scope s statement} :
      Step context ⟨d, scope, .statement statement, s⟩
        ⟨d, scope, .content statement, { s with filename := statement.filename }⟩
  | root {d scope s children line span filename} :
      Step context ⟨d, scope, .content (.mk .root children line span filename), s⟩
        ⟨d, scope, .statements children, s⟩
  | startTemplate {d scope s kind children line span filename parts}
      (starts : firstTemplate? kind = some parts) :
      Step context ⟨d, scope, .content (.mk kind children line span filename), s⟩
        ⟨d, scope, .template parts, s⟩
  | startExpr {d scope s kind children line span filename e} (starts : firstExpr? kind = some e) :
      Step context ⟨d, scope, .content (.mk kind children line span filename), s⟩
        ⟨d, scope, .expr e, s⟩
  | propertyValue {d scope s t parts e children line span filename word}
      (ok : trimmedText (runner d) scope parts context s = .ok word t) :
      Step context ⟨d, scope, .content (.mk (.property parts (some e)) children line span filename), s⟩
        ⟨d, scope, .expr e, t⟩
  | assigned {d scope s name e guarded children line span filename}
      (free : (guarded && (s.env.valueOf? scope name).isSome) = false) :
      Step context ⟨d, scope, .content (.mk (.assign name e guarded) children line span filename), s⟩
        ⟨d, scope, .expr e, s⟩
  | block {d scope s t kind children line span filename parent head}
      (isHeading : heading? (runner d) scope ⟨line, span, filename⟩ kind = some (parent, head))
      (ok : head context s = .ok () t) :
      Step context ⟨d, scope, .content (.mk kind children line span filename), s⟩
        ⟨d, t.env.scopes.size, .statements children, { t.scoped scope with parent }⟩
  | taken {d scope s t condition otherwise children line span filename}
      (ok : isTaken (runner d) scope condition context s = .ok true t) :
      Step context
        ⟨d, scope, .content (.mk (.branch condition otherwise) children line span filename), s⟩
        ⟨d, t.env.scopes.size, .statements children, t.scoped scope⟩
  | otherwise {d scope s t condition otherwise children line span filename}
      (ok : isTaken (runner d) scope condition context s = .ok false t) :
      Step context
        ⟨d, scope, .content (.mk (.branch condition (some otherwise)) children line span filename), s⟩
        ⟨d, scope, .statement otherwise, t⟩
  | loopWhile {d scope s condition children line span filename} :
      Step context ⟨d, scope, .content (.mk (.loopWhile condition) children line span filename), s⟩
        ⟨d, s.env.scopes.size,
          .whileHolds condition children
            (loopLimit "@while" context.options.maxLoopIterations line span) []
            context.options.maxLoopIterations,
          s.scoped scope⟩
  | loopStop {d scope s t u counter start stop inclusive children line span filename value number}
      (ok : expr (runner d) scope start context s = .ok value t)
      (whole : wholeNumber start value context t = .ok number u) :
      Step context
        ⟨d, scope, .content (.mk (.loopCount counter start stop inclusive) children line span
          filename), s⟩
        ⟨d, scope, .expr stop, u⟩
  | loopCount {d scope s t counter start stop inclusive children line span filename units low count}
      (ok : countOf (runner d) scope line span start stop inclusive context s =
        .ok (units, low, count) t) :
      Step context
        ⟨d, scope, .content (.mk (.loopCount counter start stop inclusive) children line span
          filename), s⟩
        ⟨d, t.env.scopes.size, .forIntegers counter units children [] low count, t.scoped scope⟩
  | loopEach {d scope s t item list children line span filename value}
      (ok : expr (runner d) scope list context s = .ok value t)
      (few : value.toItems.length ≤ context.options.maxLoopIterations) :
      Step context ⟨d, scope, .content (.mk (.loopEach item list) children line span filename), s⟩
        ⟨d, t.env.scopes.size, .forValues item children [] value.toItems, t.scoped scope⟩
  | whileTest {d scope s condition body tooMany runs remaining} :
      Step context ⟨d, scope, .whileHolds condition body tooMany runs remaining, s⟩
        ⟨d, scope, .expr condition, s⟩
  | whileBody {d scope s t condition body tooMany runs remaining value}
      (ok : expr (runner d) scope condition context s = .ok value t) (holds : value.isTruthy = true) :
      Step context ⟨d, scope, .whileHolds condition body tooMany runs (remaining + 1), s⟩
        ⟨d, scope, .statements body, t⟩
  | whileNext {d scope s t u condition body tooMany runs remaining value outcome}
      (ok : expr (runner d) scope condition context s = .ok value t) (holds : value.isTruthy = true)
      (bodyOk : statements (runner d) scope body context t = .ok outcome u)
      (goesOn : outcome.returned = none) :
      Step context ⟨d, scope, .whileHolds condition body tooMany runs (remaining + 1), s⟩
        ⟨d, scope, .whileHolds condition body tooMany (outcome.css :: runs) remaining, u⟩
  | countBody {d scope s counter units body runs next remaining} :
      Step context ⟨d, scope, .forIntegers counter units body runs next (remaining + 1), s⟩
        ⟨d, scope, .statements body, s.declaring scope counter (countTo units next)⟩
  | countNext {d scope s t counter units body runs next remaining outcome}
      (ok : statements (runner d) scope body context
        (s.declaring scope counter (countTo units next)) = .ok outcome t)
      (goesOn : outcome.returned = none) :
      Step context ⟨d, scope, .forIntegers counter units body runs next (remaining + 1), s⟩
        ⟨d, scope, .forIntegers counter units body (outcome.css :: runs) (next + 1) remaining, t⟩
  | eachBody {d scope s item body runs value rest} :
      Step context ⟨d, scope, .forValues item body runs (value :: rest), s⟩
        ⟨d, scope, .statements body, s.declaring scope item value⟩
  | eachNext {d scope s t item body runs value rest outcome}
      (ok : statements (runner d) scope body context (s.declaring scope item value) = .ok outcome t)
      (goesOn : outcome.returned = none) :
      Step context ⟨d, scope, .forValues item body runs (value :: rest), s⟩
        ⟨d, scope, .forValues item body (outcome.css :: runs) rest, t⟩
  | including {d scope s name args children line span filename mixin}
      (noLoop : s.env.includeLoop? name = none) (found : s.env.mixin? scope name = some mixin)
      (allowed : checkDepth line span context s = .ok () s) :
      Step context ⟨d, scope, .content (.mk (.includeMixin name args) children line span filename), s⟩
        ⟨d, scope, .included name args line span, s.entering ⟨.mixin, name, line, filename⟩⟩
  | includedArguments {d scope s name args line span mixin}
      (found : s.env.mixin? scope name = some mixin) :
      Step context ⟨d, scope, .included name args line span, s⟩ ⟨d, scope, .arguments args, s⟩
  | included {d scope s t name args line span mixin positional keywords}
      (found : s.env.mixin? scope name = some mixin)
      (ok : arguments (runner d) scope args context s = .ok (positional, keywords) t) :
      Step context ⟨d, scope, .included name args line span, s⟩
        ⟨d, mixin.scope, .applied mixin positional keywords line span, t⟩
  | applied {d s callable positional keywords line span}
      (fits : misfit? callable positional.length (keywords.map (·.1)) = none) :
      Step context ⟨d, callable.scope, .applied callable positional keywords line span, s⟩
        ⟨d, s.env.scopes.size, .bound callable callable.params positional keywords line span,
          s.scoped callable.scope⟩
  | boundValue {d scope s callable param params value values keywords line span} :
      Step context ⟨d, scope, .bound callable (param :: params) (value :: values) keywords line span, s⟩
        ⟨d, scope, .bound callable params values keywords line span,
          s.declaring scope param.name value⟩
  | boundKeyword {d scope s callable param params keywords line span value others}
      (isNamed : takeKeyword param.name keywords = some (value, others)) :
      Step context ⟨d, scope, .bound callable (param :: params) [] keywords line span, s⟩
        ⟨d, scope, .bound callable params [] others line span, s.declaring scope param.name value⟩
  | default {d scope s callable param params keywords line span e}
      (unnamed : takeKeyword param.name keywords = none) (isDefault : param.defaultValue = some e) :
      Step context ⟨d + 1, scope, .bound callable (param :: params) [] keywords line span, s⟩
        ⟨d, scope, .expr e, s⟩
  | boundDefault {d scope s t callable param params keywords line span e value}
      (unnamed : takeKeyword param.name keywords = none) (isDefault : param.defaultValue = some e)
      (ok : (runner d).expr e scope context s = .ok value t) :
      Step context ⟨d, scope, .bound callable (param :: params) [] keywords line span, s⟩
        ⟨d, scope, .bound callable params [] keywords line span,
          t.declaring scope param.name value⟩
  | body {d scope s callable values keywords line span} :
      Step context ⟨d + 1, scope, .bound callable [] values keywords line span, s⟩
        ⟨d, scope, .statements callable.body, s⟩
  | importing {d scope s log uri children line span filename id source dependencies root}
      (found : Importers.resolve context.files context.importers uri s.file =
        (.ok (some (id, source)), log))
      (fresh : id ∉ s.importStack)
      (isDependencies : dependencies =
        if s.dependencies.contains id then s.dependencies else s.dependencies ++ [id])
      (parsed : Statement.parse source.contents source.dialect (some source.canonical) = .ok root)
      (accepted : Nesting.checkImported s.parent root.children = .ok ()) :
      Step context
        ⟨d + 1, scope, .content (.mk (.importing (.stylesheet uri)) children line span filename), s⟩
        ⟨d, scope, .statements root.children,
          { s with
            log := s.log ++ log
            importStack := s.importStack ++ [id]
            dependencies
            sources := s.sources.insert source.canonical source.contents
            file := some id }⟩

/-- A change of the scope and the state that the evaluation of a part begins with. A mixin was looked
up at the start, before its arguments were evaluated. -/
inductive Opens (context : Context) (around : State → ScopeId → ScopeId → Prop) (start : State) :
    ScopeId → State → ScopeId → State → Prop where
  | same {scope s} : Opens context around start scope s scope s
  | named {scope s} (filename : Option String) :
      Opens context around start scope s scope { s with filename }
  | opened {scope s} (parent : Enclosure) :
      Opens context around start scope s s.env.scopes.size { s.scoped scope with parent }
  | declared {scope s} (name : String) (value : Value) :
      Opens context around start scope s scope (s.declaring scope name value)
  | including {scope s name line filename} (noLoop : s.env.includeLoop? name = none)
      (room : s.env.calls.length < context.options.maxCallDepth) :
      Opens context around start scope s scope (s.entering ⟨.mixin, name, line, filename⟩)
  | calling {scope outer s name line filename} (isAround : around s scope outer)
      (room : s.env.calls.length < context.options.maxCallDepth) :
      Opens context around start scope s outer (s.entering ⟨.function, name, line, filename⟩)
  | applying {scope outer s} (isAround : around start scope outer) :
      Opens context around start scope s outer s
  | importing {scope s id} (fresh : id ∉ s.importStack) (dependencies : List SourceId)
      (sources : Bindings String String) :
      Opens context around start scope s scope
        { s with importStack := s.importStack ++ [id], dependencies, sources, file := some id }

/-- The check of the depth lets a call pass exactly if one more is not too many. -/
theorem checkDepth_ok_iff {context : Context} {s t : State} {line : Nat} {span : Span} :
    checkDepth line span context s = .ok () t ↔
      s.env.calls.length < context.options.maxCallDepth ∧ t = s := by
  change (if _ then _ else _ : Evaluating Unit) context s = _ ↔ _
  split
  · rename_i full
    exact iff_of_false nofun fun room => Nat.not_lt_of_le full room.1
  · rename_i notFull
    refine ⟨fun ok => ⟨Nat.lt_of_not_le notFull, ?_⟩, fun room => ?_⟩
    · cases ok
      rfl
    · rw [room.2]
      rfl

section Passing

variable {rel : ScopeId → State → State → Prop} {around : State → ScopeId → ScopeId → Prop}
  {context : Context}

theorem leaves_heading (d : Discipline rel around) {run : Runner} (runs : run.KeepsTo rel context)
    {scope : ScopeId} {place : Place} {kind : StatementKind} {parent : Enclosure}
    {head : Evaluating Unit} (isHeading : heading? run scope place kind = some (parent, head)) :
    Leaves context (rel scope) head := by
  cases kind with
  | rule parts =>
    cases isHeading
    exact d.bind (d.selectorOf runs) fun _ => d.pure
  | property parts value =>
    cases isHeading
    refine d.bind (d.trimmedText runs) fun _ => ?_
    cases value with
    | none => exact d.pure
    | some e => exact d.bind (leaves_expr d runs e) fun _ => d.bind d.cssText fun _ => d.pure
  | directive word parts block =>
    cases isHeading
    exact d.bind (d.trimmedText runs) fun _ => d.pure
  | media parts =>
    cases isHeading
    exact d.bind (d.trimmedText runs) fun _ => d.pure
  | _ => cases isHeading

theorem leaves_content (d : Discipline rel around) {run : Runner} (runs : run.KeepsTo rel context)
    (scope : ScopeId) (s : Statement) : Leaves context (rel scope) (content run scope s) := by
  obtain ⟨kind, children, line, span, filename⟩ := s
  have block (inner : ScopeId) := leaves_statements d runs inner children
  cases kind with
  | branch condition otherwise =>
    unfold content
    refine d.bind (d.isTaken (d.calls runs)) fun _ => leaves_ite (d.inScope block) ?_
    exact leaves_otherBranch d runs scope otherwise
  | _ =>
    unfold content
    exact d.simpleStatement runs block _

theorem leaves_perform (d : Discipline rel around) {run : Runner} (runs : run.KeepsTo rel context)
    {scope : ScopeId} {task : Task} (home : task.IsAt scope) :
    Leaves context (rel scope) (perform run scope task) := by
  cases task with
  | expr e => exact d.bind (leaves_expr d runs e) fun _ => d.pure
  | exprs items => exact d.bind (leaves_exprs d runs items) fun _ => d.pure
  | namedExprs args => exact d.bind (leaves_namedExprs d runs args) fun _ => d.pure
  | template parts => exact d.bind (leaves_template d runs parts) fun _ => d.pure
  | arguments args => exact d.bind (d.arguments runs) fun _ => d.pure
  | statements body => exact d.bind (leaves_statements d runs scope body) fun _ => d.pure
  | statement s => exact d.bind (leaves_statement d runs scope s) fun _ => d.pure
  | content s => exact d.bind (leaves_content d runs scope s) fun _ => d.pure
  | included name args line span =>
    refine leaves_get fun state => ?_
    cases found : state.env.mixin? scope name with
    | none => exact d.refl
    | some mixin =>
      dsimp only
      rw [final_silently]
      refine d.bindAround (d.arguments runs) (fun given state isAround => ?_) (d.mixin found)
      exact d.outwards isAround (d.bind (d.withArguments runs.expr (runs.body _)) (fun _ => d.pure) state)
  | applied callable positional keywords line span =>
    cases home
    exact d.bind (d.withArguments runs.expr (runs.body _)) fun _ => d.pure
  | bound callable params positional keywords line span =>
    refine d.bind (d.bind (d.bindParams (fun e => runs.expr e scope) _ _ _) fun _ => runs.body _ scope) fun _ => d.pure
  | whileHolds condition body tooMany runs' remaining =>
    refine d.bind (d.whileHolds ?_ (leaves_statements d runs scope body) _) fun _ => d.pure
    exact d.bind (leaves_expr d runs condition) fun _ => d.pure
  | forIntegers counter units body runs' next remaining =>
    refine d.bind (d.forIntegers (fun i => ?_) _) fun _ => d.pure
    exact d.bind d.declaring fun _ => leaves_statements d runs scope body
  | forValues item body runs' values =>
    refine d.bind (d.forValues (fun value => ?_) _) fun _ => d.pure
    exact d.bind d.declaring fun _ => leaves_statements d runs scope body

theorem leaves_countOf (d : Discipline rel around) {run : Runner} (runs : run.KeepsTo rel context)
    {scope : ScopeId} {line : Nat} {span : Span} {start stop : Expr} {inclusive : Bool} :
    Leaves context (rel scope) (countOf run scope line span start stop inclusive) := by
  refine d.bind (leaves_expr d runs start) fun _ => d.bind d.wholeNumber fun _ => ?_
  refine d.bind (leaves_expr d runs stop) fun _ => d.bind d.wholeNumber fun _ => ?_
  exact d.bind d.ofValue fun _ => leaves_options fun _ => leaves_ite d.throw d.pure

/-- All that happens to the state before the evaluation of a part is what the parts before leave
behind and one change. -/
theorem Step.passes (d : Discipline rel around) {p q : Point} (step : Step context p q) :
    ∃ t, rel p.scope p.state t ∧ Opens context around p.state p.scope t q.scope q.state := by
  have runs (depth : Nat) := runner_keepsTo d context depth
  cases step with
  | text => exact ⟨_, d.refl, .same⟩
  | before => exact ⟨_, d.refl, .same⟩
  | middle ok => exact ⟨_, (leaves_side d (runs _) _).ok ok, .same⟩
  | behind ok middleOk textOk =>
    have first := (leaves_side d (runs _) _).ok ok
    have second := d.trans first ((leaves_expr d (runs _) _).ok middleOk)
    exact ⟨_, d.trans second (d.interpolatedText.ok textOk), .same⟩
  | items => exact ⟨_, d.refl, .same⟩
  | left => exact ⟨_, d.refl, .same⟩
  | right ok => exact ⟨_, (leaves_expr d (runs _) _).ok ok, .same⟩
  | operand => exact ⟨_, d.refl, .same⟩
  | paren => exact ⟨_, d.refl, .same⟩
  | callArguments => exact ⟨_, d.refl, .same⟩
  | called ok found allowed =>
    have room := (checkDepth_ok_iff.mp allowed).1
    exact ⟨_, (d.arguments (runs _)).ok ok, .calling (d.function found) room⟩
  | head => exact ⟨_, d.refl, .same⟩
  | tail ok => exact ⟨_, (leaves_expr d (runs _) _).ok ok, .same⟩
  | namedHead => exact ⟨_, d.refl, .same⟩
  | namedTail ok => exact ⟨_, (leaves_expr d (runs _) _).ok ok, .same⟩
  | part => exact ⟨_, d.refl, .same⟩
  | behindPart ok textOk =>
    have first := (leaves_expr d (runs _) _).ok ok
    exact ⟨_, d.trans first (d.interpolatedText.ok textOk), .same⟩
  | behindText => exact ⟨_, d.refl, .same⟩
  | positional => exact ⟨_, d.refl, .same⟩
  | keywords ok => exact ⟨_, (leaves_exprs d (runs _) _).ok ok, .same⟩
  | first => exact ⟨_, d.refl, .same⟩
  | next ok => exact ⟨_, (leaves_statement d (runs _) _ _).ok ok, .same⟩
  | content => exact ⟨_, d.refl, .named _⟩
  | root => exact ⟨_, d.refl, .same⟩
  | startTemplate => exact ⟨_, d.refl, .same⟩
  | startExpr => exact ⟨_, d.refl, .same⟩
  | propertyValue ok => exact ⟨_, (d.trimmedText (runs _)).ok ok, .same⟩
  | assigned => exact ⟨_, d.refl, .same⟩
  | block isHeading ok => exact ⟨_, (leaves_heading d (runs _) isHeading).ok ok, .opened _⟩
  | taken ok => exact ⟨_, (d.isTaken (d.calls (runs _))).ok ok, .opened _⟩
  | otherwise ok => exact ⟨_, (d.isTaken (d.calls (runs _))).ok ok, .same⟩
  | loopWhile => exact ⟨_, d.refl, .opened _⟩
  | loopStop ok whole =>
    have first := (leaves_expr d (runs _) _).ok ok
    exact ⟨_, d.trans first (d.wholeNumber.ok whole), .same⟩
  | loopCount ok => exact ⟨_, (leaves_countOf d (runs _)).ok ok, .opened _⟩
  | loopEach ok => exact ⟨_, (leaves_expr d (runs _) _).ok ok, .opened _⟩
  | whileTest => exact ⟨_, d.refl, .same⟩
  | whileBody ok => exact ⟨_, (leaves_expr d (runs _) _).ok ok, .same⟩
  | whileNext ok _ bodyOk =>
    have first := (leaves_expr d (runs _) _).ok ok
    exact ⟨_, d.trans first ((leaves_statements d (runs _) _ _).ok bodyOk), .same⟩
  | countBody => exact ⟨_, d.refl, .declared _ _⟩
  | countNext ok =>
    exact ⟨_, d.trans d.declare ((leaves_statements d (runs _) _ _).ok ok), .same⟩
  | eachBody => exact ⟨_, d.refl, .declared _ _⟩
  | eachNext ok =>
    exact ⟨_, d.trans d.declare ((leaves_statements d (runs _) _ _).ok ok), .same⟩
  | including noLoop _ allowed =>
    exact ⟨_, d.refl, .including noLoop (checkDepth_ok_iff.mp allowed).1⟩
  | includedArguments => exact ⟨_, d.refl, .same⟩
  | included found ok =>
    have given := (d.arguments (runs _)).ok ok
    exact ⟨_, given, .applying (d.mixin found)⟩
  | applied => exact ⟨_, d.refl, .opened _⟩
  | boundValue => exact ⟨_, d.refl, .declared _ _⟩
  | boundKeyword => exact ⟨_, d.refl, .declared _ _⟩
  | default => exact ⟨_, d.refl, .same⟩
  | boundDefault _ _ ok => exact ⟨_, ((runs _).expr _ _).ok ok, .declared _ _⟩
  | body => exact ⟨_, d.refl, .same⟩
  | @importing _ _ s log _ _ _ _ _ _ _ _ _ _ fresh =>
    let reported := { s with log := s.log ++ log }
    exact ⟨reported, d.reporting, .importing (s := reported) fresh _ _⟩

end Passing

/-- An evaluation starts with the statements of a stylesheet, in the global scope. -/
def Point.start (context : Context) (source : String) (entry : Option SourceId) (root : Statement) :
    Point :=
  ⟨depthBound context, Environment.global, .statements root.children,
    Compilation.start context.options source entry⟩

/-- What comes to be evaluated for a stylesheet. -/
def Reached (context : Context) (source : String) (entry : Option SourceId) (root : Statement) :
    Point → Prop :=
  Relation.ReflTransGen (Step context) (Point.start context source entry root)

theorem Step.isAt {context : Context} {p q : Point} (step : Step context p q) :
    q.task.IsAt q.scope := by
  cases step with
  | called => rfl
  | included => rfl
  | _ => trivial

theorem Reached.isAt {context : Context} {source : String} {entry : Option SourceId}
    {root : Statement} {p : Point} (reached : Reached context source entry root p) :
    p.task.IsAt p.scope := by
  cases reached with
  | refl => trivial
  | tail _ step => exact step.isAt

end Stylesheet.Evaluation
