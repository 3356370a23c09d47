import Stylesheet.Proofs.Evaluation.Failure
import Stylesheet.Proofs.Evaluation.Termination

/-! The course of an evaluation leaves nothing out. Bodies of mixins and functions, defaults of
parameters and imported stylesheets are left to a runner, and a runner is asked for nothing but what
is reached by steps. So it does not matter what runners do anywhere else. -/

namespace Stylesheet.Evaluation

/-- Runners, by the number of calls and imports that may still be nested, that evaluate what they are
asked for at the expected points. At all other points they may do anything. -/
structure EvaluatesAt (context : Context) (expected : Point → Prop) (run : Nat → Runner) : Prop where
  last : run 0 = runner 0
  expr : ∀ {depth e scope s}, expected ⟨depth, scope, .expr e, s⟩ →
    (run (depth + 1)).expr e scope context s = Evaluation.expr (run depth) scope e context s
  body : ∀ {depth body scope s}, expected ⟨depth, scope, .statements body, s⟩ →
    (run (depth + 1)).body body scope context s = statements (run depth) scope body context s

/-- All that comes to be evaluated at a point and from there on is expected. -/
def Point.Within (context : Context) (expected : Point → Prop) (p : Point) : Prop :=
  ∀ q, Relation.ReflTransGen (Step context) p q → expected q

/-- Two actions go the same way from a state. -/
def SameAt (context : Context) (s : State) (a b : Evaluating α) : Prop :=
  a context s = b context s

/-- A runner does the same as the one of a depth wherever all that follows is expected. -/
structure Runner.SameWithin (context : Context) (expected : Point → Prop) (depth : Nat)
    (run : Runner) : Prop where
  expr : ∀ {e scope s},
    (∀ inner, depth = inner + 1 → Point.Within context expected ⟨inner, scope, .expr e, s⟩) →
    SameAt context s ((runner depth).expr e scope) (run.expr e scope)
  body : ∀ {body scope s},
    (∀ inner, depth = inner + 1 → Point.Within context expected ⟨inner, scope, .statements body, s⟩) →
    SameAt context s ((runner depth).body body scope) (run.body body scope)

section Rules

variable {context : Context} {expected : Point → Prop} {p q : Point} {s t u : State}

theorem silently_ok {action : Evaluating α} {a : α} (ok : action context s = .ok a t) :
    silently action context s = .ok () t :=
  bind_of_ok ok

theorem Point.Within.here (within : p.Within context expected) : expected p :=
  within p .refl

theorem Point.Within.step (within : p.Within context expected) (step : Step context p q) :
    q.Within context expected :=
  fun last path => within last (.head step path)

theorem SameAt.refl {action : Evaluating α} : SameAt context s action action :=
  rfl

/-- Actions go the same way if their first parts do, and then the rest from where these end. -/
theorem SameAt.bind {first first' : Evaluating α} {next next' : α → Evaluating β}
    (start : SameAt context s first first')
    (behind : ∀ a t, first context s = .ok a t → SameAt context t (next a) (next' a)) :
    SameAt context s (first >>= next) (first' >>= next') := by
  unfold SameAt at start
  simp only [SameAt, Bind.bind, ReaderT.bind, EStateM.bind, ← start]
  cases ran : first context s with
  | ok a t => exact behind a t ran
  | error error t => rfl

theorem SameAt.map {first first' : Evaluating α} {next : α → Evaluating β}
    (start : SameAt context s first first') : SameAt context s (first >>= next) (first' >>= next) :=
  start.bind fun _ _ _ => .refl

theorem SameAt.behind {first : Evaluating α} {next next' : α → Evaluating β}
    (behind : ∀ a t, first context s = .ok a t → SameAt context t (next a) (next' a)) :
    SameAt context s (first >>= next) (first >>= next') :=
  SameAt.refl.bind behind

theorem SameAt.ensuring {action action' : Evaluating α} (same : SameAt context s action action')
    (restore : State → State) :
    SameAt context s (ensuring restore action) (ensuring restore action') := by
  unfold SameAt at same
  simp only [SameAt, Evaluation.ensuring, same]

theorem SameAt.amending {action action' : Evaluating α} (same : SameAt context s action action')
    (amend : Diagnostic → Diagnostic) :
    SameAt context s (amending amend action) (amending amend action') := by
  unfold SameAt at same
  simp only [SameAt, Evaluation.amending, same]

theorem SameAt.inScope {scope : ScopeId} {action action' : ScopeId → Evaluating α}
    (same : SameAt context (s.scoped scope) (action s.env.scopes.size) (action' s.env.scopes.size)) :
    SameAt context s (inScope scope action) (inScope scope action') :=
  same.ensuring (popScope s.env.scopes.size)

theorem SameAt.duringCall {call : Call} {action action' : Evaluating α}
    (same : SameAt context (s.entering call) action action') :
    SameAt context s (duringCall call action) (duringCall call action') :=
  same.ensuring fun state => { state with env := state.env.leaveCall }

theorem SameAt.nested {parent : Enclosure} {scope : ScopeId}
    {body body' : ScopeId → Evaluating Outcome}
    (same : SameAt context { s.scoped scope with parent } (body s.env.scopes.size)
      (body' s.env.scopes.size)) :
    SameAt context s (nested parent scope body) (nested parent scope body') := by
  have inner : SameAt context { s with parent } (Evaluation.inScope scope body)
      (Evaluation.inScope scope body') := same.inScope
  exact SameAt.map (inner.ensuring fun state => { state with parent := s.parent })

theorem SameAt.inFile {file : SourceId} {action action' : Evaluating α}
    (same : SameAt context { s with file := some file } action action') :
    SameAt context s (inFile file action) (inFile file action') :=
  same.ensuring fun state => { state with file := s.file }

theorem SameAt.forStatement {line : Nat} {filename : Option String} {action action' : Evaluating α}
    (same : SameAt context { s with filename } action action') :
    SameAt context s (forStatement line filename action) (forStatement line filename action') :=
  (same.ensuring fun state => { state with filename := s.filename }).amending _

theorem of_lift {result : Except Diagnostic α} {a : α} (ok : lift result context s = .ok a t) :
    result = .ok a ∧ t = s := by
  cases result with
  | ok b =>
    cases ok
    exact ⟨rfl, rfl⟩
  | error error => cases ok

theorem of_firstError {result : Except (List Diagnostic) α} {a : α}
    (ok : firstError result context s = .ok a t) : result = .ok a ∧ t = s := by
  cases result with
  | ok b =>
    cases ok
    exact ⟨rfl, rfl⟩
  | error errors => cases ok

end Rules

section Calls

variable {context : Context} {expected : Point → Prop} {d : Nat} {run : Runner} {scope : ScopeId}
  {s t : State}

/-- The rest of the parameters and the body. By induction on the parameters: each of them is one step
of the course. -/
theorem same_bound (same : run.SameWithin context expected d) {callable : Callable} {line : Nat}
    {span : Span} {params : List Param} {values : List Value} {keywords : List (String × Value)}
    (within : Point.Within context expected
      ⟨d, scope, .bound callable params values keywords line span, s⟩) :
    SameAt context s
      (do
        bindParams (runner d) callable scope (fun message => callError message line span) params
          values keywords
        (runner d).body callable.body scope)
      (do
        bindParams run callable scope (fun message => callError message line span) params values
          keywords
        run.body callable.body scope) := by
  induction params generalizing values keywords s with
  | nil =>
    refine same.body fun inner isInner => ?_
    subst isInner
    exact within.step .body
  | cons param params ih =>
    cases values with
    | cons value values => exact ih (within.step .boundValue)
    | nil =>
      unfold bindParams
      split
      · rename_i value others isNamed
        exact ih (within.step (.boundKeyword isNamed))
      · rename_i unnamed
        split
        · rename_i e isDefault
          rw [bind_assoc, bind_assoc]
          refine SameAt.bind (same.expr fun inner isInner => ?_) fun value t ok => ?_
          · subst isInner
            exact within.step (.default unnamed isDefault)
          · rw [bind_assoc, bind_assoc]
            exact ih (within.step (.boundDefault unnamed isDefault ok))
        · exact .refl

theorem same_applied (same : run.SameWithin context expected d) {callable : Callable}
    {positional : List Value} {keywords : List (String × Value)} {line : Nat} {span : Span}
    (within : Point.Within context expected
      ⟨d, callable.scope, .applied callable positional keywords line span, s⟩) :
    SameAt context s
      (withArguments (runner d) callable positional keywords line span
        ((runner d).body callable.body))
      (withArguments run callable positional keywords line span (run.body callable.body)) := by
  unfold withArguments
  cases fits : misfit? callable positional.length (keywords.map (·.1)) with
  | some message => exact .refl
  | none => exact .inScope (same_bound same (within.step (.applied fits)))

/-- A call with the values of its arguments. -/
theorem same_call (same : run.SameWithin context expected d) {name : String} {args : Arguments}
    {positional : List Value} {keywords : List (String × Value)} {line : Nat} {span : Span}
    (within : Point.Within context expected ⟨d, scope, .expr (.mk (.call name args) line span), s⟩)
    (ok : arguments (runner d) scope args context s = .ok (positional, keywords) t) :
    SameAt context t (call (runner d) scope name positional keywords line span)
      (call run scope name positional keywords line span) := by
  refine .behind fun state u got => ?_
  cases got
  cases found : t.env.function? scope name with
  | none => exact .refl
  | some function =>
    refine .behind fun _ u allowed => ?_
    obtain ⟨-, rfl⟩ := checkDepth_ok_iff.mp allowed
    refine .behind fun _ v got => ?_
    cases got
    exact SameAt.map (.duringCall (same_applied same (within.step (.called ok found allowed))))

end Calls

section Expressions

variable {context : Context} {expected : Point → Prop} {d : Nat} {run : Runner} {scope : ScopeId}

mutual

theorem same_expr (same : run.SameWithin context expected d) :
    (e : Expr) → {s : State} → Point.Within context expected ⟨d, scope, .expr e, s⟩ →
      SameAt context s (expr (runner d) scope e) (expr run scope e)
  | .mk (.literal _) _ _, _, _ => .refl
  | .mk (.variable _) _ _, _, _ => .refl
  | .mk (.text _ parts) _ _, _, within => .map (same_template same parts (within.step .text))
  | .mk (.interpolation before middle behind _ _) _ _, _, within => by
    refine SameAt.bind (same_side same before fun e isBefore => ?_) fun left t ok => ?_
    · subst isBefore
      exact within.step .before
    refine SameAt.bind (same_expr same middle (within.step (.middle ok))) fun value u middleOk => ?_
    refine .behind fun center v textOk => .map (same_side same behind fun e isBehind => ?_)
    subst isBehind
    exact within.step (.behind ok middleOk textOk)
  | .mk (.list items _) _ _, _, within => .map (same_exprs same items (within.step .items))
  | .mk (.binary op left right) _ _, _, within => by
    refine SameAt.bind (same_expr same left (within.step .left)) fun value t ok => ?_
    split
    · exact .refl
    · rename_i needed
      exact .map (same_expr same right (within.step (.right ok (Bool.eq_false_iff.mpr needed))))
  | .mk (.unary _ operand) _ _, _, within => .map (same_expr same operand (within.step .operand))
  | .mk (.call name (.mk positional keywords)) _ _, _, within => by
    have given := within.step .callArguments
    rw [expr_call, expr_call]
    refine SameAt.bind ?_ fun _ _ ok => same_call same within ok
    refine SameAt.bind (same_exprs same positional (given.step .positional)) fun values t ok => ?_
    exact .map (same_namedExprs same keywords (given.step (.keywords ok)))
  | .mk (.paren inner) _ _, _, within => .map (same_expr same inner (within.step .paren))

theorem same_side (same : run.SameWithin context expected d) :
    (e : Option Expr) → {s : State} →
      (∀ inner, e = some inner → Point.Within context expected ⟨d, scope, .expr inner, s⟩) →
      SameAt context s (side (runner d) scope e) (side run scope e)
  | none, _, _ => .refl
  | some e, _, within => .map (same_expr same e (within e rfl))

theorem same_exprs (same : run.SameWithin context expected d) :
    (items : List Expr) → {s : State} → Point.Within context expected ⟨d, scope, .exprs items, s⟩ →
      SameAt context s (exprs (runner d) scope items) (exprs run scope items)
  | [], _, _ => .refl
  | e :: rest, _, within => by
    refine SameAt.bind (same_expr same e (within.step .head)) fun _ _ ok => ?_
    exact .map (same_exprs same rest (within.step (.tail ok)))

theorem same_namedExprs (same : run.SameWithin context expected d) :
    (args : List (String × Expr)) → {s : State} →
      Point.Within context expected ⟨d, scope, .namedExprs args, s⟩ →
      SameAt context s (namedExprs (runner d) scope args) (namedExprs run scope args)
  | [], _, _ => .refl
  | (_, e) :: rest, _, within => by
    refine SameAt.bind (same_expr same e (within.step .namedHead)) fun _ _ ok => ?_
    exact .map (same_namedExprs same rest (within.step (.namedTail ok)))

theorem same_template (same : run.SameWithin context expected d) :
    (parts : List Part) → {s : State} →
      Point.Within context expected ⟨d, scope, .template parts, s⟩ →
      SameAt context s (template (runner d) scope parts) (template run scope parts)
  | [], _, _ => .refl
  | .text _ :: rest, _, within => .map (same_template same rest (within.step .behindText))
  | .expr e :: rest, _, within => by
    refine SameAt.bind (same_expr same e (within.step .part)) fun _ _ ok => ?_
    exact .behind fun _ _ textOk => .map (same_template same rest (within.step (.behindPart ok textOk)))

end

variable {s : State}

theorem same_arguments (same : run.SameWithin context expected d) {args : Arguments}
    (within : Point.Within context expected ⟨d, scope, .arguments args, s⟩) :
    SameAt context s (arguments (runner d) scope args) (arguments run scope args) :=
  .bind (same_exprs same args.positional (within.step .positional)) fun _ _ ok =>
    .map (same_namedExprs same args.keywords (within.step (.keywords ok)))

theorem same_trimmedText (same : run.SameWithin context expected d) {parts : Template}
    (within : Point.Within context expected ⟨d, scope, .template parts, s⟩) :
    SameAt context s (trimmedText (runner d) scope parts) (trimmedText run scope parts) :=
  .map (same_template same parts within)

theorem same_selectorOf (same : run.SameWithin context expected d) {place : Place} {parts : Template}
    (within : Point.Within context expected ⟨d, scope, .template parts, s⟩) :
    SameAt context s (selectorOf (runner d) scope place parts) (selectorOf run scope place parts) :=
  .map (same_template same parts within)

end Expressions

/-- A runner does the same with the statements of a block. -/
def SameBlock (context : Context) (expected : Point → Prop) (d : Nat) (run : Runner)
    (body : List Statement) : Prop :=
  ∀ {scope s}, Point.Within context expected ⟨d, scope, .statements body, s⟩ →
    SameAt context s (statements (runner d) scope body) (statements run scope body)

section Loops

variable {context : Context} {expected : Point → Prop} {d : Nat} {run : Runner} {scope : ScopeId}
  {body : List Statement} {runs : List (List Css)} {s : State}

theorem same_whileHolds (same : run.SameWithin context expected d)
    (block : SameBlock context expected d run body) {condition : Expr} {tooMany : Diagnostic}
    {remaining : Nat}
    (within : Point.Within context expected
      ⟨d, scope, .whileHolds condition body tooMany runs remaining, s⟩) :
    SameAt context s
      (whileHolds (return (← expr (runner d) scope condition).isTruthy)
        (statements (runner d) scope body) tooMany runs remaining)
      (whileHolds (return (← expr run scope condition).isTruthy) (statements run scope body) tooMany
        runs remaining) := by
  have test {s : State} {runs remaining} (within : Point.Within context expected
      ⟨d, scope, .whileHolds condition body tooMany runs remaining, s⟩) :
      SameAt context s (do return (← expr (runner d) scope condition).isTruthy)
        (do return (← expr run scope condition).isTruthy) :=
    .map (same_expr same condition (within.step .whileTest))
  induction remaining generalizing runs s with
  | zero =>
    unfold whileHolds
    exact .map (test within)
  | succ remaining ih =>
    unfold whileHolds
    refine SameAt.bind (test within) fun holds t tested => ?_
    obtain ⟨value, u, ok, ended⟩ := bind_ok tested
    cases ended
    split
    · rename_i holds
      refine SameAt.bind (block (within.step (.whileBody ok holds))) fun outcome v bodyOk => ?_
      split
      · exact .refl
      · rename_i goesOn
        exact ih (within.step (.whileNext ok holds bodyOk goesOn))
    · exact .refl

theorem same_forIntegers (block : SameBlock context expected d run body) {counter : String}
    {units : Units} {next : Int} {remaining : Nat}
    (within : Point.Within context expected
      ⟨d, scope, .forIntegers counter units body runs next remaining, s⟩) :
    SameAt context s
      (forIntegers
        (fun i => do
          modifyEnv (·.declare scope counter (countTo units i))
          statements (runner d) scope body)
        runs next remaining)
      (forIntegers
        (fun i => do
          modifyEnv (·.declare scope counter (countTo units i))
          statements run scope body)
        runs next remaining) := by
  induction remaining generalizing runs next s with
  | zero =>
    unfold forIntegers
    exact .refl
  | succ remaining ih =>
    unfold forIntegers
    refine SameAt.bind (.behind fun _ t declared => ?_) fun outcome u ok => ?_
    · cases declared
      exact block (within.step .countBody)
    · split
      · exact .refl
      · rename_i goesOn
        exact ih (within.step (.countNext ok goesOn))

theorem same_forValues (block : SameBlock context expected d run body) {item : String}
    {values : List Value}
    (within : Point.Within context expected ⟨d, scope, .forValues item body runs values, s⟩) :
    SameAt context s
      (forValues
        (fun value => do
          modifyEnv (·.declare scope item value)
          statements (runner d) scope body)
        runs values)
      (forValues
        (fun value => do
          modifyEnv (·.declare scope item value)
          statements run scope body)
        runs values) := by
  induction values generalizing runs s with
  | nil =>
    unfold forValues
    exact .refl
  | cons value values ih =>
    unfold forValues
    refine SameAt.bind (.behind fun _ t declared => ?_) fun outcome u ok => ?_
    · cases declared
      exact block (within.step .eachBody)
    · split
      · exact .refl
      · rename_i goesOn
        exact ih (within.step (.eachNext ok goesOn))

end Loops

section Statements

variable {context : Context} {expected : Point → Prop} {d : Nat} {run : Runner} {scope : ScopeId}
  {children : List Statement} {line : Nat} {span : Span} {filename : Option String} {s : State}

theorem same_property (same : run.SameWithin context expected d)
    (block : SameBlock context expected d run children) {parts : Template} {value : Option Expr}
    (within : Point.Within context expected
      ⟨d, scope, .content (.mk (.property parts value) children line span filename), s⟩) :
    SameAt context s
      (property (runner d) scope ⟨line, span, filename⟩ parts value
        fun inner => statements (runner d) inner children)
      (property run scope ⟨line, span, filename⟩ parts value
        fun inner => statements run inner children) := by
  refine SameAt.bind (same_trimmedText same (within.step (.startTemplate rfl))) fun word t ok => ?_
  cases value with
  | none => exact .map (.nested (block (within.step (.block rfl (silently_ok ok)))))
  | some e =>
    dsimp only
    refine SameAt.bind (same_expr same e (within.step (.propertyValue ok))) fun value u valueOk => ?_
    refine .behind fun text v textOk => .map (.nested (block (within.step (.block rfl ?_))))
    exact (bind_of_ok ok).trans ((bind_of_ok valueOk).trans (silently_ok textOk))

theorem same_included (same : run.SameWithin context expected d) {mixin : Callable} {name : String}
    {args : Arguments} (found : s.env.mixin? scope name = some mixin)
    (within : Point.Within context expected ⟨d, scope, .included name args line span, s⟩) :
    SameAt context s (included (runner d) scope mixin args line span)
      (included run scope mixin args line span) := by
  refine SameAt.bind (same_arguments same (within.step (.includedArguments found))) fun given t ok => ?_
  exact .map (same_applied same (within.step (.included found ok)))

theorem same_includeMixin (same : run.SameWithin context expected d) {name : String}
    {args : Arguments}
    (within : Point.Within context expected
      ⟨d, scope, .content (.mk (.includeMixin name args) children line span filename), s⟩) :
    SameAt context s (includeMixin (runner d) scope ⟨line, span, filename⟩ name args)
      (includeMixin run scope ⟨line, span, filename⟩ name args) := by
  refine .behind fun state t got => ?_
  cases got
  dsimp only
  split
  · exact .refl
  rename_i noLoop
  split
  · exact .refl
  rename_i mixin found
  refine .behind fun _ t allowed => ?_
  obtain ⟨-, rfl⟩ := checkDepth_ok_iff.mp allowed
  have still := (Environment.lookup_enterCall ⟨.mixin, name, line, filename⟩ scope name).trans found
  have entered := within.step (.including noLoop found allowed)
  exact .amending (.duringCall (same_included same still entered)) _

theorem same_importStylesheet (same : run.SameWithin context expected d) {uri : String}
    (within : Point.Within context expected
      ⟨d, scope, .content (.mk (.importing (.stylesheet uri)) children line span filename), s⟩) :
    SameAt context s (importStylesheet (runner d) scope line span filename uri)
      (importStylesheet run scope line span filename uri) := by
  refine .behind fun here t got => ?_
  cases got
  dsimp only
  refine .behind fun state t got => ?_
  cases got
  obtain ⟨⟨found, log⟩, answer⟩ :
      ∃ answer, Importers.resolve context.files context.importers uri s.file = answer := ⟨_, rfl⟩
  rw [answer]
  refine .behind fun _ t logged => ?_
  cases logged
  dsimp only
  split
  · exact .refl
  · exact .refl
  rename_i id source
  refine .behind fun _ t entered => ?_
  obtain ⟨fresh, rfl⟩ := of_enterImport entered
  refine .amending (.ensuring ?_ _) _
  refine .behind fun _ t got => ?_
  cases got
  refine .behind fun root t read => ?_
  obtain ⟨parsed, rfl⟩ := of_lift read
  refine .behind fun state t got => ?_
  cases got
  refine .behind fun _ t checked => ?_
  obtain ⟨accepted, rfl⟩ := of_firstError checked
  refine .map (.inFile (same.body fun inner isInner => ?_))
  subst isInner
  exact within.step (.importing answer fresh rfl parsed accepted)

theorem same_isTaken (same : run.SameWithin context expected d) {condition : Option Expr}
    {otherwise : Option Statement}
    (within : Point.Within context expected
      ⟨d, scope, .content (.mk (.branch condition otherwise) children line span filename), s⟩) :
    SameAt context s (isTaken (runner d) scope condition) (isTaken run scope condition) := by
  cases condition with
  | none => exact .refl
  | some e => exact .map (same_expr same e (within.step (.startExpr rfl)))

theorem same_countOf (same : run.SameWithin context expected d) {counter : String}
    {start stop : Expr} {inclusive : Bool}
    (within : Point.Within context expected
      ⟨d, scope, .content (.mk (.loopCount counter start stop inclusive) children line span filename),
        s⟩) :
    SameAt context s (countOf (runner d) scope line span start stop inclusive)
      (countOf run scope line span start stop inclusive) := by
  refine SameAt.bind (same_expr same start (within.step (.startExpr rfl))) fun value t ok => ?_
  refine .behind fun number u whole => ?_
  exact .map (same_expr same stop (within.step (.loopStop ok whole)))

/-- What a statement does once its file is known. The other branch of a conditional is left open. -/
theorem same_content (same : run.SameWithin context expected d) {kind : StatementKind}
    (block : SameBlock context expected d run children)
    (other : ∀ {condition otherwise t}, kind = .branch condition otherwise →
      isTaken (runner d) scope condition context s = .ok false t →
      SameAt context t (otherBranch (runner d) scope otherwise) (otherBranch run scope otherwise))
    (within : Point.Within context expected
      ⟨d, scope, .content (.mk kind children line span filename), s⟩) :
    SameAt context s (content (runner d) scope (.mk kind children line span filename))
      (content run scope (.mk kind children line span filename)) := by
  cases kind with
  | root => exact block (within.step .root)
  | rule parts =>
    refine SameAt.bind (same_selectorOf same (within.step (.startTemplate rfl))) fun _ t ok => ?_
    exact .map (.nested (block (within.step (.block rfl (silently_ok ok)))))
  | property parts value => exact same_property same block within
  | comment parts silent =>
    unfold content simpleStatement
    dsimp only
    split
    · exact .refl
    · rename_i shown
      exact .map (same_template same parts (within.step (.startTemplate (if_neg shown))))
  | directive word parts hasBlock =>
    refine SameAt.bind (same_trimmedText same (within.step (.startTemplate rfl))) fun _ t ok => ?_
    exact .map (.nested (block (within.step (.block rfl (silently_ok ok)))))
  | media parts =>
    refine SameAt.bind (same_trimmedText same (within.step (.startTemplate rfl))) fun _ t ok => ?_
    exact .map (.nested (block (within.step (.block rfl (silently_ok ok)))))
  | importing target =>
    cases target with
    | stylesheet uri => exact same_importStylesheet same within
    | css parts => exact .map (same_trimmedText same (within.step (.startTemplate rfl)))
  | assign name e guarded =>
    refine SameAt.map (.behind fun state t got => ?_)
    cases got
    split
    · exact .refl
    · rename_i free
      exact .map (same_expr same e (within.step (.assigned (Bool.eq_false_iff.mpr free))))
  | includeMixin name args => exact same_includeMixin same within
  | returning e => exact .map (same_expr same e (within.step (.startExpr rfl)))
  | extend parts => exact .map (same_selectorOf same (within.step (.startTemplate rfl)))
  | branch condition otherwise =>
    refine SameAt.bind (same_isTaken same within) fun taken t ok => ?_
    split
    · rename_i isTaken
      rw [isTaken] at ok
      exact .inScope (block (within.step (.taken ok)))
    · rename_i skipped
      rw [Bool.eq_false_iff.mpr skipped] at ok
      exact other rfl ok
  | loopWhile condition =>
    refine .behind fun limits t got => ?_
    cases got
    exact .inScope (same_whileHolds same block (within.step .loopWhile))
  | loopCount counter start stop inclusive =>
    change SameAt context s (Evaluation.loopCount _ _ _ _ _ _ _ _ _)
      (Evaluation.loopCount _ _ _ _ _ _ _ _ _)
    rw [loopCount_eq, loopCount_eq]
    refine SameAt.bind (same_countOf same within) fun bounds t ok => ?_
    exact .inScope (same_forIntegers block (within.step (.loopCount ok)))
  | loopEach item list =>
    refine SameAt.bind (same_expr same list (within.step (.startExpr rfl))) fun value t ok => ?_
    refine .behind fun limits t got => ?_
    cases got
    dsimp only
    split
    · exact .refl
    · rename_i few
      exact .inScope (same_forValues block (within.step (.loopEach ok (Nat.le_of_not_lt few))))
  | debug e => exact .map (same_expr same e (within.step (.startExpr rfl)))
  | warn e => exact .map (same_expr same e (within.step (.startExpr rfl)))
  | _ =>
    unfold content simpleStatement
    exact .refl

mutual

theorem same_statement (same : run.SameWithin context expected d) :
    (statement : Statement) → {scope : ScopeId} → {s : State} →
      Point.Within context expected ⟨d, scope, .statement statement, s⟩ →
      SameAt context s (Evaluation.statement (runner d) scope statement)
        (Evaluation.statement run scope statement)
  | .mk kind children line span filename, scope, s, within => by
    have block : SameBlock context expected d run children := same_statements same children
    rw [statement_eq, statement_eq]
    have known := within.step .content
    refine .forStatement (same_content same block (fun {condition otherwise t} isBranch ok => ?_) known)
    subst isBranch
    refine same_otherBranch same otherwise fun branch isBranch => ?_
    subst isBranch
    exact known.step (.otherwise ok)

theorem same_otherBranch (same : run.SameWithin context expected d) :
    (otherwise : Option Statement) → {scope : ScopeId} → {s : State} →
      (∀ branch, otherwise = some branch →
        Point.Within context expected ⟨d, scope, .statement branch, s⟩) →
      SameAt context s (otherBranch (runner d) scope otherwise) (otherBranch run scope otherwise)
  | none, _, _, _ => .refl
  | some branch, _, _, within => same_statement same branch (within branch rfl)

theorem same_statements (same : run.SameWithin context expected d) :
    (body : List Statement) → SameBlock context expected d run body
  | [], _, _, _ => .refl
  | first :: rest, _, _, within => by
    refine SameAt.bind (same_statement same first (within.step .first)) fun outcome t ok => ?_
    split
    · exact .refl
    · rename_i goesOn
      exact .map (same_statements same rest (within.step (.next ok goesOn)))

end

end Statements

section Whole

variable {context : Context} {expected : Point → Prop} {run : Nat → Runner}

/-- By induction on the depth: what a runner is asked for is a point of the course one level below. -/
theorem EvaluatesAt.sameWithin (evaluates : EvaluatesAt context expected run) (depth : Nat) :
    (run depth).SameWithin context expected depth := by
  induction depth with
  | zero =>
    rw [evaluates.last]
    exact ⟨fun _ => .refl, fun _ => .refl⟩
  | succ depth ih =>
    refine ⟨fun {e scope s} within => ?_, fun {body scope s} within => ?_⟩
    · have here := within depth rfl
      exact (same_expr ih e here).trans (evaluates.expr here.here).symm
    · have here := within depth rfl
      exact (same_statements ih body here).trans (evaluates.body here.here).symm

/-- A whole stylesheet is evaluated in the same way by all runners that evaluate what they are asked
for where its course leads. -/
theorem EvaluatesAt.stylesheet_eq {source : String} {entry : Option SourceId} {root : Statement}
    (evaluates : EvaluatesAt context expected run)
    (reaches : ∀ p, Reached context source entry root p → expected p) :
    stylesheet root context (Compilation.start context.options source entry) =
      stylesheetWith (run (depthBound context)) root context
        (Compilation.start context.options source entry) := by
  have same := evaluates.sameWithin (depthBound context)
  exact SameAt.map (same_statements same root.children reaches)

end Whole

end Stylesheet.Evaluation
