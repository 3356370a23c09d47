import Mathlib.Data.Prod.Lex
import Stylesheet.Proofs.Evaluation.Failure

/-! Where an evaluation fails. Each step of its course leads to something smaller, so that a failure
comes from a point at which nothing else fails. There, if it is about an expression or a call, the
error has a line of it and nothing more. -/

namespace Stylesheet

/-- The lines of an expression that it can fail with by itself: its own, and those of what it is
written together with as text. -/
def Expr.lines : Expr → List Nat
  | .mk (.interpolation before middle behind _ _) line _ =>
    line :: (before.toList ++ middle :: behind.toList).map Expr.line
  | .mk _ line _ => [line]

namespace Evaluation

/-- The evaluation at a point fails, and nothing that is evaluated for it does. -/
structure Point.FailsItself (context : Context) (p : Point) : Prop where
  fails : p.Fails context
  alone : ∀ q, Step context p q → ¬ q.Fails context

section Descent

/-- How many calls and imports may still be nested. What is done for a call once its arguments are
there stands between those outside of it and those inside. -/
def Point.height (p : Point) : Nat :=
  match p.task with
  | .applied .. | .bound .. => 2 * p.depth
  | _ => 2 * p.depth + 1

noncomputable def Task.size : Task → Nat
  | .expr e => 2 * sizeOf e
  | .exprs items => 2 * sizeOf items
  | .namedExprs args => 2 * sizeOf args
  | .template parts => 2 * sizeOf parts
  | .arguments args => 2 * sizeOf args
  | .statements body => 2 * sizeOf body
  | .statement s => 2 * sizeOf s + 1
  | .content s => 2 * sizeOf s
  | .included _ args _ _ => 2 * sizeOf args + 1
  | .applied callable _ _ _ _ => callable.params.length + 1
  | .bound _ params _ _ _ _ => params.length
  | .whileHolds condition body _ _ _ => 2 * sizeOf condition + 2 * sizeOf body + 1
  | .forIntegers _ _ body _ _ _ => 2 * sizeOf body + 1
  | .forValues _ body _ _ => 2 * sizeOf body + 1

/-- How often a loop may still run. -/
def Task.runs : Task → Nat
  | .whileHolds _ _ _ _ remaining => remaining
  | .forIntegers _ _ _ _ _ remaining => remaining
  | .forValues _ _ _ values => values.length
  | _ => 0

theorem sizeOf_firstTemplate {kind : StatementKind} {parts : Template}
    (starts : firstTemplate? kind = some parts) : sizeOf parts < sizeOf kind := by
  unfold firstTemplate? at starts
  repeat' split at starts
  all_goals cases starts
  all_goals simp
  all_goals omega

theorem sizeOf_firstExpr {kind : StatementKind} {e : Expr} (starts : firstExpr? kind = some e) :
    sizeOf e < sizeOf kind := by
  unfold firstExpr? at starts
  split at starts
  all_goals cases starts
  all_goals simp
  all_goals omega

theorem sizeOf_positional (args : Arguments) : sizeOf args.positional < sizeOf args := by
  obtain ⟨positional, keywords⟩ := args
  simp only [Arguments.positional, Arguments.mk.sizeOf_spec]
  omega

theorem sizeOf_keywords (args : Arguments) : sizeOf args.keywords < sizeOf args := by
  obtain ⟨positional, keywords⟩ := args
  simp only [Arguments.keywords, Arguments.mk.sizeOf_spec]
  omega

/-- What comes to be evaluated next is smaller. -/
theorem Step.smaller {context : Context} {p q : Point} (step : Step context p q) :
    q.height < p.height ∨ q.height = p.height ∧
      (q.task.size < p.task.size ∨ q.task.size = p.task.size ∧ q.task.runs < p.task.runs) := by
  cases step with
  | positional => simp [Point.height, Task.size, sizeOf_positional]
  | keywords => simp [Point.height, Task.size, sizeOf_keywords]
  | startTemplate starts =>
    have := sizeOf_firstTemplate starts
    simp [Point.height, Task.size]
    omega
  | startExpr starts =>
    have := sizeOf_firstExpr starts
    simp [Point.height, Task.size]
    omega
  | _ =>
    simp [Point.height, Task.size, Task.runs]
    try omega

noncomputable def Point.measure (p : Point) : ℕ ×ₗ ℕ ×ₗ ℕ :=
  toLex (p.height, toLex (p.task.size, p.task.runs))

/-- No evaluation goes on forever. -/
theorem Step.wellFounded (context : Context) : WellFounded fun q p => Step context p q := by
  refine Subrelation.wf ?_ (InvImage.wf Point.measure wellFounded_lt)
  intro q p step
  simp only [InvImage, Point.measure, Prod.Lex.toLex_lt_toLex]
  exact step.smaller

end Descent

section Lines

/-- Where an action fails, its error has one of some lines and no other place. -/
def FailsAt (context : Context) (lines : List Nat) (action : Evaluating α) : Prop :=
  ∀ s error, FailsWith context s action error → ∃ line ∈ lines, error.trace = [Frame.atLine line]

variable {context : Context} {s : State} {run : Runner} {scope : ScopeId} {lines : List Nat}
  {line : Nat} {span : Span} {error : Diagnostic}

theorem FailsWith.of_bind {first : Evaluating α} {next : α → Evaluating β}
    (fails : FailsWith context s (first >>= next) error) :
    FailsWith context s first error ∨
      ∃ a t, first context s = .ok a t ∧ FailsWith context t (next a) error := by
  obtain ⟨after, failed⟩ := fails
  cases found : first context s with
  | ok a t =>
    simp only [Bind.bind, ReaderT.bind, EStateM.bind, found] at failed
    exact .inr ⟨a, t, rfl, after, failed⟩
  | error other t =>
    simp only [Bind.bind, ReaderT.bind, EStateM.bind, found] at failed
    cases failed
    exact .inl ⟨_, found⟩

theorem not_failsWith_pure {a : α} : ¬ FailsWith context s (pure a : Evaluating α) error :=
  fun ⟨_, failed⟩ => by cases failed

/-- What is made of a result does not fail. -/
theorem FailsWith.of_map {first : Evaluating α} {f : α → β}
    (fails : FailsWith context s (first >>= fun a => Pure.pure (f a)) error) :
    FailsWith context s first error := by
  rcases of_bind fails with inner | ⟨_, _, _, never⟩
  · exact inner
  · exact absurd never not_failsWith_pure

theorem FailsAt.pure {a : α} : FailsAt context lines (pure a : Evaluating α) :=
  fun _ _ fails => absurd fails not_failsWith_pure

theorem FailsAt.throw {error : Diagnostic} (member : line ∈ lines)
    (isAt : error.trace = [Frame.atLine line]) :
    FailsAt context lines (throw error : Evaluating α) := by
  rintro s _ ⟨after, failed⟩
  cases failed
  exact ⟨line, member, isAt⟩

theorem FailsAt.bind {first : Evaluating α} {next : α → Evaluating β}
    (start : FailsAt context lines first) (behind : ∀ a, FailsAt context lines (next a)) :
    FailsAt context lines (first >>= next) := by
  intro s error fails
  rcases FailsWith.of_bind fails with early | ⟨a, t, _, late⟩
  · exact start s error early
  · exact behind a t error late

theorem FailsAt.ite {condition : Prop} [Decidable condition] {one other : Evaluating α}
    (left : FailsAt context lines one) (right : FailsAt context lines other) :
    FailsAt context lines (if condition then one else other) := by
  split
  · exact left
  · exact right

theorem FailsAt.trace {action : Evaluating α} (failsAt : FailsAt context [line] action)
    (fails : FailsWith context s action error) : error.trace = [Frame.atLine line] := by
  simpa using failsAt s error fails

theorem FailsAt.ofValue {result : Except ValueError α} (member : line ∈ lines) :
    FailsAt context lines (ofValue line span result) := by
  cases result with
  | ok a => exact .pure
  | error error => exact .throw member rfl

theorem not_failsWith_get : ¬ FailsWith context s get error :=
  fun ⟨_, failed⟩ => by cases failed

theorem FailsAt.get : FailsAt context lines get :=
  fun _ _ fails => absurd fails not_failsWith_get

theorem FailsAt.options : FailsAt context lines options :=
  fun _ _ ⟨_, failed⟩ => by cases failed

theorem FailsAt.lookUp {name : String} (member : line ∈ lines) :
    FailsAt context lines (lookUp scope name line span) := by
  refine .bind .get fun state => ?_
  split
  · exact .pure
  · exact .throw member rfl

theorem FailsAt.cssText {e : Expr} {value : Value} (member : e.line ∈ lines) :
    FailsAt context lines (cssText e value) :=
  .bind .options fun _ => .ofValue member

theorem FailsAt.interpolatedText {e : Expr} {value : Value} (member : e.line ∈ lines) :
    FailsAt context lines (interpolatedText e value) :=
  .bind .options fun _ => .ofValue member

theorem FailsAt.wholeNumber {e : Expr} {value : Value} (member : e.line ∈ lines) :
    FailsAt context lines (wholeNumber e value) := by
  unfold Evaluation.wholeNumber
  repeat' split
  · exact .pure
  · exact .throw member rfl
  · exact .throw member rfl

theorem FailsAt.checkDepth (member : line ∈ lines) :
    FailsAt context lines (checkDepth line span) := by
  refine .bind .options fun _ => .bind .get fun _ => ?_
  split
  · exact .throw member rfl
  · exact .pure

theorem FailsAt.plainCall {name : String} {positional : List Value}
    {keywords : List (String × Value)} (member : line ∈ lines) :
    FailsAt context lines (plainCall name positional keywords line span) := by
  unfold Evaluation.plainCall
  split
  · exact .throw member rfl
  · exact .bind .options fun _ => .bind (.ofValue member) fun _ => .pure

end Lines

section Inside

variable {context : Context} {s : State} {scope : ScopeId} {error : Diagnostic}

theorem FailsWith.of_ensuring {restore : State → State} {action : Evaluating α}
    (fails : FailsWith context s (Evaluation.ensuring restore action) error) :
    FailsWith context s action error := by
  obtain ⟨after, failed⟩ := fails
  cases ended : action context s with
  | ok a t =>
    simp only [Evaluation.ensuring, ended] at failed
    cases failed
  | error other t =>
    simp only [Evaluation.ensuring, ended] at failed
    cases failed
    exact ⟨_, ended⟩

theorem FailsWith.of_inScope {action : ScopeId → Evaluating α}
    (fails : FailsWith context s (Evaluation.inScope scope action) error) :
    FailsWith context (s.scoped scope) (action s.env.scopes.size) error := by
  have inner : FailsWith context (s.scoped scope)
    (Evaluation.ensuring (popScope s.env.scopes.size) (action s.env.scopes.size)) error := fails
  exact of_ensuring inner

theorem FailsWith.of_duringCall {call : Call} {action : Evaluating α}
    (fails : FailsWith context s (Evaluation.duringCall call action) error) :
    FailsWith context (s.entering call) action error :=
  of_ensuring fails

theorem FailsWith.of_nested {parent : Enclosure} {body : ScopeId → Evaluating Outcome}
    (fails : FailsWith context s (Evaluation.nested parent scope body) error) :
    FailsWith context { s.scoped scope with parent } (body s.env.scopes.size) error :=
  of_inScope (of_ensuring (of_map fails))

end Inside

section Origin

variable {context : Context} {d : Nat} {scope : ScopeId} {s : State} {error : Diagnostic}

/-- A call with its arguments that fails, and not in the function. -/
theorem trace_of_call {name : String} {args : Arguments} {line : Nat} {span : Span} {t : State}
    {positional : List Value} {keywords : List (String × Value)}
    (alone : ∀ q, Step context ⟨d, scope, .expr (.mk (.call name args) line span), s⟩ q →
      ¬ q.Fails context)
    (ok : arguments (runner d) scope args context s = .ok (positional, keywords) t)
    (failed : FailsWith context t (call (runner d) scope name positional keywords line span) error) :
    error.trace = [Frame.atLine line] := by
  have member : line ∈ [line] := List.mem_singleton_self line
  rcases FailsWith.of_bind failed with inner | ⟨_, _, got, failed⟩
  · exact absurd inner not_failsWith_get
  cases got
  cases found : t.env.function? scope name with
  | none =>
    rw [found] at failed
    dsimp only at failed
    split at failed
    · exact (FailsAt.plainCall member).trace failed
    · split at failed
      · exact absurd failed not_failsWith_pure
      · exact (FailsAt.throw member rfl).trace failed
      · exact (FailsAt.throw member rfl).trace failed
  | some function =>
    rw [found] at failed
    dsimp only at failed
    unfold callFunction at failed
    rcases FailsWith.of_bind failed with early | ⟨_, _, checked, entered⟩
    · exact (FailsAt.checkDepth member).trace early
    obtain ⟨-, rfl⟩ := checkDepth_ok_iff.mp checked
    rcases FailsWith.of_bind entered with early | ⟨_, _, got, called⟩
    · exact absurd early not_failsWith_get
    cases got
    rcases FailsWith.of_bind called with inside | ⟨outcome, u, _, left⟩
    · have inner := FailsWith.of_duringCall inside
      exact absurd ⟨error, failsWith_silently.mpr inner⟩ (alone _ (.called ok found checked))
    · split at left
      · exact absurd left not_failsWith_pure
      · exact (FailsAt.throw member rfl).trace left

/-- An expression that fails, and nothing that is evaluated for it. -/
theorem trace_of_expr {e : Expr}
    (alone : ∀ q, Step context ⟨d, scope, .expr e, s⟩ q → ¬ q.Fails context)
    (failed : FailsWith context s (expr (runner d) scope e) error) :
    ∃ line ∈ e.lines, error.trace = [Frame.atLine line] := by
  obtain ⟨form, line, span⟩ := e
  cases form with
  | literal value => exact absurd failed not_failsWith_pure
  | «variable» name => exact FailsAt.lookUp List.mem_cons_self s error failed
  | text quoted parts =>
    exact absurd ⟨error, failsWith_silently.mpr (FailsWith.of_map failed)⟩ (alone _ .text)
  | interpolation before middle behind spaceBefore spaceAfter =>
    rcases FailsWith.of_bind failed with inner | ⟨left, t, ok, failed⟩
    · cases before with
      | none => exact absurd inner not_failsWith_pure
      | some before =>
        rcases FailsWith.of_bind inner with inner | ⟨_, t, _, failed⟩
        · exact absurd ⟨error, failsWith_silently.mpr inner⟩ (alone _ .before)
        · exact FailsAt.cssText (by simp [Expr.lines]) t error failed
    rcases FailsWith.of_bind failed with inner | ⟨value, u, middleOk, failed⟩
    · exact absurd ⟨error, failsWith_silently.mpr inner⟩ (alone _ (.middle ok))
    rcases FailsWith.of_bind failed with failed | ⟨center, v, textOk, failed⟩
    · exact FailsAt.interpolatedText (by simp [Expr.lines]) u error failed
    have failed := FailsWith.of_map failed
    cases behind with
    | none => exact absurd failed not_failsWith_pure
    | some behind =>
      rcases FailsWith.of_bind failed with inner | ⟨_, t, _, failed⟩
      · exact absurd ⟨error, failsWith_silently.mpr inner⟩ (alone _ (.behind ok middleOk textOk))
      · exact FailsAt.cssText (by simp [Expr.lines]) t error failed
  | list items separator =>
    exact absurd ⟨error, failsWith_silently.mpr (FailsWith.of_map failed)⟩ (alone _ .items)
  | binary op left right =>
    rcases FailsWith.of_bind failed with inner | ⟨value, t, ok, failed⟩
    · exact absurd ⟨error, failsWith_silently.mpr inner⟩ (alone _ .left)
    · cases needed : decides op value with
      | true =>
        rw [if_pos needed] at failed
        exact absurd failed not_failsWith_pure
      | false =>
        simp only [needed] at failed
        rcases FailsWith.of_bind failed with inner | ⟨_, u, _, failed⟩
        · exact absurd ⟨error, failsWith_silently.mpr inner⟩ (alone _ (.right ok needed))
        · exact FailsAt.ofValue List.mem_cons_self u error failed
  | unary op operand =>
    rcases FailsWith.of_bind failed with inner | ⟨_, t, _, failed⟩
    · exact absurd ⟨error, failsWith_silently.mpr inner⟩ (alone _ .operand)
    · exact FailsAt.ofValue List.mem_cons_self t error failed
  | call name args =>
    rw [expr_call] at failed
    rcases FailsWith.of_bind failed with inner | ⟨given, t, ok, failed⟩
    · exact absurd ⟨error, failsWith_silently.mpr inner⟩ (alone _ .callArguments)
    · exact ⟨line, List.mem_cons_self, trace_of_call alone ok failed⟩
  | paren inner =>
    exact absurd ⟨error, failsWith_silently.mpr (FailsWith.of_map failed)⟩ (alone _ .paren)

/-- Text that fails at an expression in it, where the value cannot be written out. -/
theorem trace_of_template {e : Expr} {rest : List Part}
    (alone : ∀ q, Step context ⟨d, scope, .template (.expr e :: rest), s⟩ q → ¬ q.Fails context)
    (failed : FailsWith context s (template (runner d) scope (.expr e :: rest)) error) :
    error.trace = [Frame.atLine e.line] := by
  rcases FailsWith.of_bind failed with early | ⟨value, t, ok, written⟩
  · exact absurd ⟨error, failsWith_silently.mpr early⟩ (alone _ .part)
  rcases FailsWith.of_bind written with early | ⟨text, u, textOk, rested⟩
  · exact (FailsAt.interpolatedText (List.mem_singleton_self e.line)).trace early
  have rest := FailsWith.of_map rested
  exact absurd ⟨error, failsWith_silently.mpr rest⟩ (alone _ (.behindPart ok textOk))

/-- A declaration whose value cannot be written out. -/
theorem trace_of_property {parts : Template} {e : Expr} {children : List Statement} {line : Nat}
    {span : Span} {filename : Option String}
    (alone : ∀ q, Step context
      ⟨d, scope, .content (.mk (.property parts (some e)) children line span filename), s⟩ q →
        ¬ q.Fails context)
    (failed : FailsWith context s (content (runner d) scope
      (.mk (.property parts (some e)) children line span filename)) error) :
    error.trace = [Frame.atLine e.line] := by
  rcases FailsWith.of_bind failed with early | ⟨word, t, ok, named⟩
  · have inner := FailsWith.of_map early
    exact absurd ⟨error, failsWith_silently.mpr inner⟩ (alone _ (.startTemplate rfl))
  rcases FailsWith.of_bind named with early | ⟨value, u, valueOk, valued⟩
  · exact absurd ⟨error, failsWith_silently.mpr early⟩ (alone _ (.propertyValue ok))
  rcases FailsWith.of_bind valued with early | ⟨text, v, textOk, written⟩
  · exact (FailsAt.cssText (List.mem_singleton_self e.line)).trace early
  rw [pure_bind] at written
  have inner := FailsWith.of_nested (FailsWith.of_map written)
  refine absurd ⟨error, failsWith_silently.mpr inner⟩ (alone _ (.block rfl ?_))
  simp only [Bind.bind, ReaderT.bind, EStateM.bind, ok, valueOk, textOk]
  rfl

/-- An `@for` whose bounds are no whole numbers or do not fit together, or that would run too
often. -/
theorem trace_of_loopCount {counter : String} {start stop : Expr} {inclusive : Bool}
    {children : List Statement} {line : Nat} {span : Span} {filename : Option String}
    (alone : ∀ q, Step context
      ⟨d, scope, .content (.mk (.loopCount counter start stop inclusive) children line span filename),
        s⟩ q → ¬ q.Fails context)
    (failed : FailsWith context s (content (runner d) scope
      (.mk (.loopCount counter start stop inclusive) children line span filename)) error) :
    ∃ l ∈ [start.line, stop.line, line], error.trace = [Frame.atLine l] := by
  change FailsWith _ _ (loopCount _ _ _ _ _ _ _ _ _) _ at failed
  rw [loopCount_eq] at failed
  rcases FailsWith.of_bind failed with bounds | ⟨⟨units, low, count⟩, t, ok, looped⟩
  · rcases FailsWith.of_bind bounds with early | ⟨value, t, ok, first⟩
    · exact absurd ⟨error, failsWith_silently.mpr early⟩ (alone _ (.startExpr rfl))
    rcases FailsWith.of_bind first with early | ⟨number, u, whole, stopped⟩
    · exact FailsAt.wholeNumber (by simp) t error early
    rcases FailsWith.of_bind stopped with early | ⟨value, v, _, second⟩
    · exact absurd ⟨error, failsWith_silently.mpr early⟩ (alone _ (.loopStop ok whole))
    have rest : FailsAt context [start.line, stop.line, line] (do
        let last ← wholeNumber stop value
        let last ← ofValue stop.line stop.span (last.coerce number.units)
        let final := if inclusive then last.value else last.value - 1
        let limit := (← options).maxLoopIterations
        if final - number.value + 1 > Double.ofNat limit then throw (loopLimit "@for" limit line span)
        else
          let low := Double.toCount number.value
          return (number.units, low, (Double.toCount final - low + 1).toNat)) := by
      refine .bind (.wholeNumber (by simp)) fun _ => .bind (.ofValue (by simp)) fun _ => ?_
      exact .bind .options fun _ => .ite (.throw (by simp) rfl) .pure
    exact rest v error second
  · have inner := FailsWith.of_inScope looped
    exact absurd ⟨error, failsWith_silently.mpr inner⟩ (alone _ (.loopCount ok))

/-- A mixin or function whose parameters do not take the arguments that are given. -/
theorem trace_of_applied {callable : Callable} {positional : List Value}
    {keywords : List (String × Value)} {line : Nat} {span : Span}
    (alone : ∀ q, Step context
      ⟨d, callable.scope, .applied callable positional keywords line span, s⟩ q → ¬ q.Fails context)
    (failed : FailsWith context s (withArguments (runner d) callable positional keywords line span
      ((runner d).body callable.body)) error) :
    error.trace = [Frame.atLine line] := by
  unfold withArguments at failed
  cases fits : misfit? callable positional.length (keywords.map (·.1)) with
  | some message =>
    simp only [fits] at failed
    exact (FailsAt.throw (List.mem_singleton_self line) rfl).trace failed
  | none =>
    simp only [fits] at failed
    have inner := FailsWith.of_inScope failed
    exact absurd ⟨error, failsWith_silently.mpr inner⟩ (alone _ (.applied fits))

/-- A mixin or function one of whose parameters has no value. -/
theorem trace_of_bound {callable : Callable} {param : Param} {params : List Param}
    {positional : List Value} {keywords : List (String × Value)} {line : Nat} {span : Span}
    (alone : ∀ q, Step context
      ⟨d, scope, .bound callable (param :: params) positional keywords line span, s⟩ q →
        ¬ q.Fails context)
    (required : param.defaultValue = none)
    (failed : FailsWith context s (do
      bindParams (runner d) callable scope (fun message => callError message line span)
        (param :: params) positional keywords
      (runner d).body callable.body scope) error) :
    error.trace = [Frame.atLine line] := by
  cases positional with
  | cons value values => exact absurd ⟨error, failsWith_silently.mpr failed⟩ (alone _ .boundValue)
  | nil =>
    unfold bindParams at failed
    cases named : takeKeyword param.name keywords with
    | some given =>
      simp only [named] at failed
      exact absurd ⟨error, failsWith_silently.mpr failed⟩ (alone _ (.boundKeyword named))
    | none =>
      simp only [named, required] at failed
      rcases FailsWith.of_bind failed with early | ⟨_, _, missing, _⟩
      · exact (FailsAt.throw (List.mem_singleton_self line) rfl).trace early
      · cases missing

end Origin

/-- The lines of the expressions or of the call that a task evaluates by itself, if it evaluates any
and can fail with nothing else. An `@for` checks its bounds, and how far they are apart. -/
def Task.lines? : Task → Option (List Nat)
  | .expr e => some e.lines
  | .template (.expr e :: _) => some [e.line]
  | .content (.mk (.property _ (some e)) _ _ _ _) => some [e.line]
  | .content (.mk (.loopCount _ start stop _) _ line _ _) => some [start.line, stop.line, line]
  | .applied _ _ _ line _ => some [line]
  | .bound _ (⟨_, none⟩ :: _) _ _ line _ => some [line]
  | _ => none

/-- Where an evaluation fails at an expression or a call, its error has a line of that, and no
file. -/
theorem Point.FailsItself.trace {context : Context} {p : Point} {lines : List Nat}
    {error : Diagnostic} (fails : p.FailsItself context) (isAt : p.task.IsAt p.scope)
    (about : p.task.lines? = some lines) (failed : p.FailsWith context error) :
    ∃ line ∈ lines, error.trace = [Frame.atLine line] := by
  obtain ⟨-, alone⟩ := fails
  obtain ⟨d, scope, task, s⟩ := p
  dsimp only at isAt about
  unfold Task.lines? at about
  split at about
  all_goals cases about
  · exact trace_of_expr alone (failsWith_silently.mp failed)
  · exact ⟨_, List.mem_cons_self, trace_of_template alone (failsWith_silently.mp failed)⟩
  · exact ⟨_, List.mem_cons_self, trace_of_property alone (failsWith_silently.mp failed)⟩
  · exact trace_of_loopCount alone (failsWith_silently.mp failed)
  · cases isAt
    exact ⟨_, List.mem_cons_self, trace_of_applied alone (failsWith_silently.mp failed)⟩
  · exact ⟨_, List.mem_cons_self, trace_of_bound alone rfl (failsWith_silently.mp failed)⟩

/-- A variable that is not defined fails, and nothing inside. -/
theorem failsItself_undefined {context : Context} {d line : Nat} {scope : ScopeId} {name : String}
    {span : Span} {s : State} (missing : s.env.valueOf? scope name = none) :
    Point.FailsItself context ⟨d, scope, .expr (.mk (.variable name) line span), s⟩ := by
  have undefined : Fails context s (lookUp scope name line span) := by
    refine ⟨?error, s, ?failed⟩
    case failed =>
      unfold lookUp
      simp only [get_bind, missing]
      rfl
  exact ⟨fails_silently.mpr undefined, fun q step => by cases step⟩

/-- What fails has a point inside that fails by itself. -/
theorem Point.Fails.origin {context : Context} {p : Point} (fails : p.Fails context) :
    ∃ q, Relation.ReflTransGen (Step context) p q ∧ q.FailsItself context := by
  induction p using (Step.wellFounded context).induction with
  | _ p ih =>
    by_cases alone : ∀ q, Step context p q → ¬ q.Fails context
    · exact ⟨p, .refl, fails, alone⟩
    · simp only [not_forall, not_not] at alone
      obtain ⟨q, step, inner⟩ := alone
      obtain ⟨r, course, origin⟩ := ih q step inner
      exact ⟨r, .head step course, origin⟩

end Evaluation

end Stylesheet
