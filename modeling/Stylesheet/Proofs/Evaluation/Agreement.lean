import Mathlib.Data.List.TakeWhile
import Mathlib.Logic.Relation
import Stylesheet.Evaluation.Statement
import Stylesheet.Proofs.Scope.Arena

/-! Evaluations that go the same way. Two contexts may differ in what is not looked at or only
logged, and two runners in what they do with calls and imports that are nested too deep. What is
evaluated with either gives the same nodes, values and errors, as long as the runners agree on
whatever can be active inside of it. Where the limits on calls and loops are not the same, one of
the two may also stop at a limit. -/

namespace Stylesheet

namespace Diagnostic

theorem fault_locate (d : Diagnostic) (frame : Frame) : (d.locate frame).fault = d.fault := by
  unfold locate
  split
  · rfl
  · rfl

end Diagnostic

namespace Evaluation

/-- An evaluation in one context finds and is told the same as in the other. -/
structure Context.Alike (one other : Context) : Prop where
  style : one.options.style = other.options.style
  resolve : ∀ uri base, (Importers.resolve one.files one.importers uri base).1 =
    (Importers.resolve other.files other.importers uri base).1

theorem Context.Alike.refl (context : Context) : context.Alike context :=
  ⟨rfl, fun _ _ => rfl⟩

/-- Calls and loops may go as far in one context as in the other. -/
structure Context.SameLimits (one other : Context) : Prop where
  maxCallDepth : one.options.maxCallDepth = other.options.maxCallDepth
  maxLoopIterations : one.options.maxLoopIterations = other.options.maxLoopIterations

theorem Context.SameLimits.refl (context : Context) : context.SameLimits context :=
  ⟨rfl, rfl⟩

/-- The error of a limit, where limits are not the same. One evaluation may end with it although the
other one does not. -/
structure IsStop (one other : Context) (error : Diagnostic) : Prop where
  fault : error.fault = some .limitExceeded
  differ : ¬ one.SameLimits other

/-- States that differ in the log only. -/
def State.Alike (s t : State) : Prop :=
  ∃ log, t = { s with log }

theorem State.Alike.trans {s t u : State} (first : s.Alike t) (second : t.Alike u) :
    s.Alike u := by
  obtain ⟨_, rfl⟩ := first
  obtain ⟨log, rfl⟩ := second
  exact ⟨log, rfl⟩

/-- The calls and the imports that are active. -/
structure Standing where
  calls : List Call
  imports : List SourceId

def State.standing (state : State) : Standing :=
  ⟨state.env.calls, state.importStack⟩

/-- One more call or import is active. -/
inductive Nests (context : Context) : Standing → Standing → Prop where
  | call {calls : List Call} {imports : List SourceId} (call : Call)
      (room : calls.length < context.options.maxCallDepth) :
      Nests context ⟨calls, imports⟩ ⟨call :: calls, imports⟩
  | importing {calls : List Call} {imports : List SourceId} {uri : String}
      {base : Option SourceId} {id : SourceId} {source : ImportedSource}
      (found : (Importers.resolve context.files context.importers uri base).1 =
        .ok (some (id, source)))
      (fresh : id ∉ imports) : Nests context ⟨calls, imports⟩ ⟨calls, imports ++ [id]⟩

/-- Two evaluations ended in the same way, or one of them stopped at a limit. `after` is active after
a success. -/
inductive Matches (one other : Context) (after : Standing) :
    EStateM.Result Diagnostic State α → EStateM.Result Diagnostic State α → Prop where
  | ok {a : α} {s t : State} (stands : s.standing = after) (alike : s.Alike t) :
      Matches one other after (.ok a s) (.ok a t)
  | error {error : Diagnostic} {s t : State} (alike : s.Alike t) :
      Matches one other after (.error error s) (.error error t)
  | left {error : Diagnostic} {s : State} {result : EStateM.Result Diagnostic State α}
      (stop : IsStop one other error) : Matches one other after (.error error s) result
  | right {error : Diagnostic} {t : State} {result : EStateM.Result Diagnostic State α}
      (stop : IsStop one other error) : Matches one other after result (.error error t)

/-- What an evaluation gives in the end, or its error. -/
def ended : EStateM.Result Diagnostic State α → Except Diagnostic α
  | .ok a _ => .ok a
  | .error error _ => .error error

theorem Matches.ended {context : Context} {after : Standing}
    {result result' : EStateM.Result Diagnostic State α}
    (matched : Matches context context after result result') : ended result = ended result' := by
  cases matched with
  | ok stands alike => rfl
  | error alike => rfl
  | left stop => exact absurd (.refl context) stop.differ
  | right stop => exact absurd (.refl context) stop.differ

section Chains

variable {one other : Context} {after : Standing}
  {result middle result' : EStateM.Result Diagnostic State α}

theorem Matches.prepend (first : Matches one one after result middle)
    (second : Matches one other after middle result') : Matches one other after result result' := by
  cases first with
  | ok stands alike =>
    cases second with
    | ok _ further => exact .ok stands (alike.trans further)
    | right stop => exact .right stop
  | error alike =>
    cases second with
    | error further => exact .error (alike.trans further)
    | left stop => exact .left stop
    | right stop => exact .right stop
  | left stop => exact absurd (.refl one) stop.differ
  | right stop => exact absurd (.refl one) stop.differ

theorem Matches.append (first : Matches one other after result middle)
    (second : Matches other other after middle result') :
    Matches one other after result result' := by
  cases second with
  | ok stands alike =>
    cases first with
    | ok stands before => exact .ok stands (before.trans alike)
    | left stop => exact .left stop
  | error alike =>
    cases first with
    | error before => exact .error (before.trans alike)
    | left stop => exact .left stop
    | right stop => exact .right stop
  | left stop => exact absurd (.refl other) stop.differ
  | right stop => exact absurd (.refl other) stop.differ

end Chains

/-- Two actions, each in its context, go the same way from states that differ in the log only.
`before` is active at their start and `after` is active after a success. -/
def Agrees (one other : Context) (before after : Standing) (a b : Evaluating α) : Prop :=
  ∀ s t, s.standing = before → s.Alike t → Matches one other after (a one s) (b other t)

section Rules

variable {one other : Context} {before middle after : Standing}

theorem Agrees.pure {a : α} : Agrees one other before before (pure a) (pure a) :=
  fun _ _ stands alike => .ok stands alike

theorem Agrees.throw {error : Diagnostic} :
    Agrees one other before after (throw error : Evaluating α) (throw error) :=
  fun _ _ _ alike => .error alike

theorem Agrees.stopLeft {error : Diagnostic} {a : Evaluating α} (stop : IsStop one other error) :
    Agrees one other before after (MonadExcept.throw error) a :=
  fun _ _ _ _ => .left stop

theorem Agrees.stopRight {error : Diagnostic} {a : Evaluating α} (stop : IsStop one other error) :
    Agrees one other before after a (MonadExcept.throw error) :=
  fun _ _ _ _ => .right stop

theorem Agrees.bind {first first' : Evaluating α} {next next' : α → Evaluating β}
    (start : Agrees one other before middle first first')
    (behind : ∀ a, Agrees one other middle after (next a) (next' a)) :
    Agrees one other before after (first >>= next) (first' >>= next') := by
  intro s t stands alike
  have matched := start s t stands alike
  simp only [Bind.bind, ReaderT.bind, EStateM.bind]
  generalize first one s = result at matched ⊢
  generalize first' other t = result' at matched ⊢
  cases matched with
  | ok stands alike => exact behind _ _ _ stands alike
  | error alike => exact .error alike
  | left stop => exact .left stop
  | right stop => exact .right stop

theorem Agrees.ite {condition : Prop} [Decidable condition] {a a' b b' : Evaluating α}
    (left : Agrees one other before after a a') (right : Agrees one other before after b b') :
    Agrees one other before after (if condition then a else b)
      (if condition then a' else b') := by
  split
  · exact left
  · exact right

/-- Something goes on unless it is beyond a limit. Where only one of the two is, it stops. -/
theorem Agrees.limited {beyond beyond' : Prop} [Decidable beyond] [Decidable beyond']
    {error error' : Diagnostic} {a a' : Evaluating α}
    (fault : error.fault = some .limitExceeded) (fault' : error'.fault = some .limitExceeded)
    (same : one.SameLimits other → (beyond ↔ beyond') ∧ error = error')
    (agrees : ¬ beyond → Agrees one other before after a a') :
    Agrees one other before after (if beyond then MonadExcept.throw error else a)
      (if beyond' then MonadExcept.throw error' else a') := by
  by_cases limits : one.SameLimits other
  · obtain ⟨both, rfl⟩ := same limits
    by_cases isBeyond : beyond
    · rw [if_pos isBeyond, if_pos (both.mp isBeyond)]
      exact .throw
    · rw [if_neg isBeyond, if_neg (mt both.mpr isBeyond)]
      exact agrees isBeyond
  · by_cases isBeyond : beyond
    · rw [if_pos isBeyond]
      exact .stopLeft ⟨fault, limits⟩
    · rw [if_neg isBeyond]
      split
      · exact .stopRight ⟨fault', limits⟩
      · exact agrees isBeyond

/-- What is read from the states is the same, apart from the log. -/
theorem Agrees.get {next next' : State → Evaluating α}
    (behind : ∀ s log, s.standing = before →
      Agrees one other before after (next s) (next' { s with log })) :
    Agrees one other before after (get >>= next) (get >>= next') := by
  rintro s t stands ⟨log, rfl⟩
  exact behind s log stands s { s with log } stands ⟨log, rfl⟩

theorem Agrees.read {next next' : Context → Evaluating α}
    (behind : Agrees one other before after (next one) (next' other)) :
    Agrees one other before after (read >>= next) (read >>= next') :=
  behind

theorem Agrees.options {next next' : Options → Evaluating α}
    (behind : Agrees one other before after (next one.options) (next' other.options)) :
    Agrees one other before after (options >>= next) (options >>= next') :=
  behind

theorem Agrees.modify {change : State → State}
    (stands : ∀ s, s.standing = before → (change s).standing = after)
    (unlogged : ∀ s log, (change s).Alike (change { s with log })) :
    Agrees one other before after (modify change) (modify change) := by
  rintro s t start ⟨log, rfl⟩
  exact .ok (stands s start) (unlogged s log)

theorem Agrees.ensuring {restore : State → State} {a a' : Evaluating α}
    (stands : ∀ s, s.standing = middle → (restore s).standing = after)
    (unlogged : ∀ s log, (restore s).Alike (restore { s with log }))
    (agrees : Agrees one other before middle a a') :
    Agrees one other before after (ensuring restore a) (ensuring restore a') := by
  intro s t start alike
  have matched := agrees s t start alike
  unfold Evaluation.ensuring
  generalize a one s = result at matched ⊢
  generalize a' other t = result' at matched ⊢
  cases matched with
  | ok inside alike =>
    obtain ⟨log, rfl⟩ := alike
    exact .ok (stands _ inside) (unlogged _ log)
  | error alike =>
    obtain ⟨log, rfl⟩ := alike
    exact .error (unlogged _ log)
  | left stop => exact .left stop
  | right stop => exact .right stop

theorem Agrees.amending {amend : Diagnostic → Diagnostic} {a a' : Evaluating α}
    (faults : ∀ error, (amend error).fault = error.fault)
    (agrees : Agrees one other before after a a') :
    Agrees one other before after (amending amend a) (amending amend a') := by
  intro s t start alike
  have matched := agrees s t start alike
  unfold Evaluation.amending
  generalize a one s = result at matched ⊢
  generalize a' other t = result' at matched ⊢
  cases matched with
  | ok stands alike => exact .ok stands alike
  | error alike => exact .error alike
  | left stop => exact .left ⟨(faults _).trans stop.fault, stop.differ⟩
  | right stop => exact .right ⟨(faults _).trans stop.fault, stop.differ⟩

theorem Agrees.lift {result : Except Diagnostic α} :
    Agrees one other before before (lift result) (lift result) := by
  unfold Evaluation.lift
  split
  · exact .pure
  · exact .throw

theorem Agrees.ofValue {line : Nat} {span : Span} {result : Except ValueError α} :
    Agrees one other before before (ofValue line span result) (ofValue line span result) := by
  unfold Evaluation.ofValue
  split
  · exact .pure
  · exact .throw

theorem Agrees.modifyEnv {change : Environment → Environment}
    (keeps : ∀ env, (change env).calls = env.calls) :
    Agrees one other before before (modifyEnv change) (modifyEnv change) := by
  refine .modify (fun s stands => ?_) fun s log => ⟨log, rfl⟩
  rw [← stands]
  exact congrArg (Standing.mk · s.importStack) (keeps s.env)

/-- What is logged may be different. -/
theorem Agrees.logEntries {entries entries' : Log} :
    Agrees one other before before (logEntries entries) (logEntries entries') := by
  rintro s t stands ⟨log, rfl⟩
  exact .ok stands ⟨log ++ entries', rfl⟩

/-- One side may log something where the other one does not. -/
theorem Agrees.logging {condition condition' : Bool} {entries entries' : Log}
    {a a' : Evaluating α} (agrees : Agrees one other before after a a') :
    Agrees one other before after
      (if condition = true then Evaluation.logEntries entries >>= fun _ => a else a)
      (if condition' = true then Evaluation.logEntries entries' >>= fun _ => a' else a') := by
  rintro s t stands ⟨log, rfl⟩
  have regardless (left right : Log) :
      Matches one other after (a one { s with log := left }) (a' other { s with log := right }) :=
    agrees _ _ stands ⟨right, rfl⟩
  cases condition with
  | false =>
    cases condition' with
    | false => exact regardless s.log log
    | true => exact regardless s.log (log ++ entries')
  | true =>
    cases condition' with
    | false => exact regardless (s.log ++ entries) log
    | true => exact regardless (s.log ++ entries) (log ++ entries')

theorem Agrees.warn {warning : Diagnostic} :
    Agrees one other before before (warn warning) (warn warning) :=
  .options (.logging (.modify (fun _ stands => stands) fun _ log => ⟨log, rfl⟩))

theorem Agrees.inScope {scope : ScopeId} {action action' : ScopeId → Evaluating α}
    (agrees : ∀ inner, Agrees one other before after (action inner) (action' inner)) :
    Agrees one other before after (inScope scope action) (inScope scope action') := by
  have opens : Agrees one other before before (pushScope scope) (pushScope scope) := by
    rintro s t stands ⟨log, rfl⟩
    exact .ok stands ⟨log, rfl⟩
  refine opens.bind fun inner => (agrees inner).ensuring (fun s stands => ?_) fun s log => ⟨log, rfl⟩
  rw [← stands]
  exact congrArg (Standing.mk · s.importStack) (Environment.calls_pop s.env inner)

/-- The state is changed before an action. -/
theorem agrees_entering {change : State → State} {a a' : Evaluating α}
    (stands : ∀ s, s.standing = before → (change s).standing = middle)
    (unlogged : ∀ s log, (change s).Alike (change { s with log }))
    (agrees : Agrees one other middle after a a') :
    Agrees one other before after (do modify change; a) (do modify change; a') :=
  (Agrees.modify stands unlogged).bind fun _ => agrees

/-- During a call one more call is active. -/
theorem Agrees.duringCall {calls : List Call} {imports : List SourceId} {call : Call}
    {a a' : Evaluating α}
    (agrees : Agrees one other ⟨call :: calls, imports⟩ ⟨call :: calls, imports⟩ a a') :
    Agrees one other ⟨calls, imports⟩ ⟨calls, imports⟩ (duringCall call a) (duringCall call a') := by
  refine agrees_entering (fun s stands => ?_) (fun s log => ⟨log, rfl⟩)
    (agrees.ensuring (fun s stands => ?_) fun s log => ⟨log, rfl⟩)
  · obtain ⟨rfl, rfl⟩ := Standing.mk.inj stands
    rfl
  · obtain ⟨isCalls, rfl⟩ := Standing.mk.inj stands
    simp [State.standing, Environment.leaveCall, isCalls]

theorem Agrees.inside {parent : Enclosure} {a a' : Evaluating α}
    (agrees : Agrees one other before after a a') :
    Agrees one other before after (inside parent a) (inside parent a') :=
  .get fun _ _ _ => agrees_entering (fun _ stands => stands) (fun _ log => ⟨log, rfl⟩)
    (agrees.ensuring (fun _ stands => stands) fun _ log => ⟨log, rfl⟩)

theorem Agrees.forStatement {line : Nat} {filename : Option String} {a a' : Evaluating α}
    (agrees : Agrees one other before after a a') :
    Agrees one other before after (forStatement line filename a) (forStatement line filename a') :=
  .get fun _ _ _ => agrees_entering (fun _ stands => stands) (fun _ log => ⟨log, rfl⟩)
    (.amending (fun error => error.fault_locate _)
      (agrees.ensuring (fun _ stands => stands) fun _ log => ⟨log, rfl⟩))

theorem Agrees.inFile {file : SourceId} {a a' : Evaluating α}
    (agrees : Agrees one other before after a a') :
    Agrees one other before after (inFile file a) (inFile file a') :=
  .get fun _ _ _ => agrees_entering (fun _ stands => stands) (fun _ log => ⟨log, rfl⟩)
    (agrees.ensuring (fun _ stands => stands) fun _ log => ⟨log, rfl⟩)

end Rules

/-- What two runners do goes the same way, with these calls and imports active. -/
structure Runner.Agree (one other : Context) (here : Standing) (run run' : Runner) : Prop where
  expr : ∀ e scope, Agrees one other here here (run.expr e scope) (run'.expr e scope)
  body : ∀ body scope, Agrees one other here here (run.body body scope) (run'.body body scope)

/-- Two runners agree on whatever can be active inside. -/
def Runner.AgreeBelow (one other : Context) (here : Standing) (run run' : Runner) : Prop :=
  ∀ inner, Relation.TransGen (Nests one) here inner → Runner.Agree one other inner run run'

section Calls

variable {one other : Context} {here inner after : Standing} {run run' : Runner}

theorem Runner.AgreeBelow.agree (below : Runner.AgreeBelow one other here run run')
    (nests : Nests one here inner) : Runner.Agree one other inner run run' :=
  below inner (.single nests)

theorem Runner.AgreeBelow.within (below : Runner.AgreeBelow one other here run run')
    (nests : Nests one here inner) : Runner.AgreeBelow one other inner run run' :=
  fun deeper path => below deeper (.head nests path)

theorem guard_eq {condition : Prop} [Decidable condition] {error : Diagnostic}
    {a : Evaluating α} :
    ((if condition then throw error else pure () : Evaluating Unit) >>= fun _ => a) =
      if condition then throw error else a := by
  split
  · rfl
  · rfl

/-- Where a call is not too deep there is room for one more. -/
theorem Agrees.checkDepth {calls : List Call} {imports : List SourceId}
    {line : Nat} {span : Span} {a a' : Evaluating α}
    (agrees : calls.length < one.options.maxCallDepth →
      Agrees one other ⟨calls, imports⟩ after a a') :
    Agrees one other ⟨calls, imports⟩ after (do Evaluation.checkDepth line span; a)
      (do Evaluation.checkDepth line span; a') := by
  simp only [Evaluation.checkDepth, bind_assoc]
  refine .options (.get fun s log stands => ?_)
  obtain ⟨rfl, rfl⟩ := Standing.mk.inj stands
  rw [guard_eq, guard_eq]
  refine .limited ?_ ?_ (fun limits => ?_) fun room => agrees (Nat.lt_of_not_ge room)
  · exact Diagnostic.fault_locate _ _
  · exact Diagnostic.fault_locate _ _
  · simp only [limits.maxCallDepth, and_self]

theorem Agrees.bindParams (agree : Runner.Agree one other here run run') {callable : Callable}
    {scope : ScopeId} {fail : String → Diagnostic} (params : List Param) (values : List Value)
    (keywords : List (String × Value)) :
    Agrees one other here here (bindParams run callable scope fail params values keywords)
      (bindParams run' callable scope fail params values keywords) := by
  induction params generalizing values keywords with
  | nil => exact .pure
  | cons param params ih =>
    have declares (value : Value) : Agrees one other here here
        (Evaluation.modifyEnv (·.declare scope param.name value))
        (Evaluation.modifyEnv (·.declare scope param.name value)) :=
      .modifyEnv fun _ => rfl
    cases values with
    | cons value values => exact (declares value).bind fun _ => ih values keywords
    | nil =>
      unfold Evaluation.bindParams
      split
      · exact (declares _).bind fun _ => ih [] _
      · split
        · exact (agree.expr _ scope).bind fun value => (declares value).bind fun _ => ih [] keywords
        · exact .throw

theorem Agrees.withArguments (agree : Runner.Agree one other here run run') {callable : Callable}
    {positional : List Value} {keywords : List (String × Value)} {line : Nat} {span : Span}
    {action action' : ScopeId → Evaluating α}
    (agrees : ∀ scope, Agrees one other here here (action scope) (action' scope)) :
    Agrees one other here here
      (withArguments run callable positional keywords line span action)
      (withArguments run' callable positional keywords line span action') := by
  unfold Evaluation.withArguments
  dsimp only
  split
  · exact .throw
  · exact .inScope fun scope => (Agrees.bindParams agree _ _ _).bind fun _ => agrees scope

theorem Agrees.callFunction
    (below : Runner.AgreeBelow one other here run run') {function : Callable}
    {positional : List Value} {keywords : List (String × Value)} {line : Nat} {span : Span} :
    Agrees one other here here (callFunction run function positional keywords line span)
      (callFunction run' function positional keywords line span) := by
  refine .checkDepth fun room => .get fun s log _ => ?_
  have agree := below.agree (.call ⟨.function, function.name, line, s.filename⟩ room)
  refine (Agrees.duringCall (.withArguments agree (agree.body function.body))).bind fun outcome => ?_
  split
  · exact .pure
  · exact .throw

theorem Agrees.plainCall (alike : one.Alike other) {name : String} {positional : List Value}
    {keywords : List (String × Value)} {line : Nat} {span : Span} :
    Agrees one other here here (plainCall name positional keywords line span)
      (plainCall name positional keywords line span) := by
  unfold Evaluation.plainCall
  split
  · exact .throw
  · refine .options ?_
    rw [alike.style]
    exact Agrees.ofValue.bind fun _ => .pure

theorem Agrees.call (alike : one.Alike other)
    (below : Runner.AgreeBelow one other here run run') {scope : ScopeId} {name : String}
    {positional : List Value} {keywords : List (String × Value)} {line : Nat} {span : Span} :
    Agrees one other here here (call run scope name positional keywords line span)
      (call run' scope name positional keywords line span) := by
  refine .get fun s log _ => ?_
  dsimp only
  split
  · exact .callFunction below
  · split
    · exact .plainCall alike
    · split
      · exact .pure
      · exact .throw
      · exact .throw

theorem Agrees.lookUp {scope : ScopeId} {name : String} {line : Nat} {span : Span} :
    Agrees one other here here (lookUp scope name line span) (lookUp scope name line span) := by
  refine .get fun s log _ => ?_
  dsimp only
  split
  · exact .pure
  · exact .throw

theorem Agrees.cssText (alike : one.Alike other) {e : Expr} {value : Value} :
    Agrees one other here here (cssText e value) (cssText e value) := by
  refine .options ?_
  rw [alike.style]
  exact .ofValue

theorem Agrees.interpolatedText (alike : one.Alike other) {e : Expr} {value : Value} :
    Agrees one other here here (interpolatedText e value) (interpolatedText e value) := by
  refine .options ?_
  rw [alike.style]
  exact .ofValue

end Calls

section Expressions

variable {one other : Context} {here : Standing} {run run' : Runner}

mutual

theorem agrees_expr (alike : one.Alike other) (below : Runner.AgreeBelow one other here run run')
    (scope : ScopeId) :
    (e : Expr) → Agrees one other here here (expr run scope e) (expr run' scope e)
  | .mk (.literal value) _ _ => .pure
  | .mk (.variable name) _ _ => .lookUp
  | .mk (.text quoted parts) _ _ => (agrees_template alike below scope parts).bind fun _ => .pure
  | .mk (.interpolation before middle behind _ _) _ _ => by
    refine (agrees_side alike below scope before).bind fun _ => ?_
    refine (agrees_expr alike below scope middle).bind fun _ => ?_
    refine (Agrees.interpolatedText alike).bind fun _ => ?_
    exact (agrees_side alike below scope behind).bind fun _ => .pure
  | .mk (.list items _) _ _ => (agrees_exprs alike below scope items).bind fun _ => .pure
  | .mk (.binary op left right) _ _ => by
    refine (agrees_expr alike below scope left).bind fun _ => .ite .pure ?_
    exact (agrees_expr alike below scope right).bind fun _ => .ofValue
  | .mk (.unary _ operand) _ _ => (agrees_expr alike below scope operand).bind fun _ => .ofValue
  | .mk (.call name (.mk positional keywords)) _ _ =>
    (agrees_exprs alike below scope positional).bind fun _ =>
      (agrees_namedExprs alike below scope keywords).bind fun _ => .call alike below
  | .mk (.paren inner) _ _ => (agrees_expr alike below scope inner).bind fun _ => .pure

theorem agrees_side (alike : one.Alike other) (below : Runner.AgreeBelow one other here run run')
    (scope : ScopeId) :
    (e : Option Expr) → Agrees one other here here (side run scope e) (side run' scope e)
  | none => .pure
  | some e => (agrees_expr alike below scope e).bind fun _ => .cssText alike

theorem agrees_exprs (alike : one.Alike other) (below : Runner.AgreeBelow one other here run run')
    (scope : ScopeId) :
    (items : List Expr) → Agrees one other here here (exprs run scope items) (exprs run' scope items)
  | [] => .pure
  | e :: rest => (agrees_expr alike below scope e).bind fun _ =>
      (agrees_exprs alike below scope rest).bind fun _ => .pure

theorem agrees_namedExprs (alike : one.Alike other)
    (below : Runner.AgreeBelow one other here run run') (scope : ScopeId) :
    (items : List (String × Expr)) →
      Agrees one other here here (namedExprs run scope items) (namedExprs run' scope items)
  | [] => .pure
  | (_, e) :: rest => (agrees_expr alike below scope e).bind fun _ =>
      (agrees_namedExprs alike below scope rest).bind fun _ => .pure

theorem agrees_template (alike : one.Alike other)
    (below : Runner.AgreeBelow one other here run run') (scope : ScopeId) :
    (parts : List Part) →
      Agrees one other here here (template run scope parts) (template run' scope parts)
  | [] => .pure
  | .text _ :: rest => (agrees_template alike below scope rest).bind fun _ => .pure
  | .expr e :: rest => (agrees_expr alike below scope e).bind fun _ =>
      (Agrees.interpolatedText alike).bind fun _ =>
        (agrees_template alike below scope rest).bind fun _ => .pure

end

theorem Agrees.arguments (alike : one.Alike other)
    (below : Runner.AgreeBelow one other here run run') {scope : ScopeId} {args : Arguments} :
    Agrees one other here here (arguments run scope args) (arguments run' scope args) :=
  (agrees_exprs alike below scope args.positional).bind fun _ =>
    (agrees_namedExprs alike below scope args.keywords).bind fun _ => .pure

end Expressions

section Loops

variable {one other : Context} {here : Standing} {run run' : Runner}

/-- A loop goes on or ends after a run of its body. -/
theorem Agrees.goOn {outcome : Outcome} {runs : List (List Css)} {more more' : Evaluating Outcome}
    (rest : Agrees one other here here more more') :
    Agrees one other here here
      (match outcome.returned with
        | some value => Pure.pure (gather (outcome.css :: runs) (some value))
        | none => more)
      (match outcome.returned with
        | some value => Pure.pure (gather (outcome.css :: runs) (some value))
        | none => more') := by
  split
  · exact .pure
  · exact rest

theorem Agrees.whileHolds {condition condition' : Evaluating Bool} {body body' : Evaluating Outcome}
    {tooMany tooMany' : Diagnostic} (test : Agrees one other here here condition condition')
    (once : Agrees one other here here body body')
    (fault : tooMany.fault = some .limitExceeded) (fault' : tooMany'.fault = some .limitExceeded)
    (remaining remaining' : Nat)
    (same : one.SameLimits other → remaining = remaining' ∧ tooMany = tooMany')
    {runs : List (List Css)} :
    Agrees one other here here (whileHolds condition body tooMany runs remaining)
      (whileHolds condition' body' tooMany' runs remaining') := by
  -- One of the two loops may be used up first. Then the limits differ, and it stops.
  induction remaining generalizing remaining' runs with
  | zero =>
    cases remaining' with
    | zero =>
      refine test.bind fun _ => .limited fault fault' (fun limits => ?_) fun _ => .pure
      exact ⟨Iff.rfl, (same limits).2⟩
    | succ remaining' =>
      refine test.bind fun _ => .ite (.stopLeft ⟨fault, fun limits => ?_⟩) .pure
      cases (same limits).1
  | succ remaining ih =>
    cases remaining' with
    | zero =>
      refine test.bind fun _ => .ite (.stopRight ⟨fault', fun limits => ?_⟩) .pure
      cases (same limits).1
    | succ remaining' =>
      refine test.bind fun _ => .ite (once.bind fun outcome => ?_) .pure
      refine .goOn (ih remaining' fun limits => ?_)
      exact ⟨Nat.succ.inj (same limits).1, (same limits).2⟩

theorem Agrees.forIntegers {body body' : Int → Evaluating Outcome}
    (once : ∀ i, Agrees one other here here (body i) (body' i)) (remaining : Nat) {next : Int}
    {runs : List (List Css)} :
    Agrees one other here here (forIntegers body runs next remaining)
      (forIntegers body' runs next remaining) := by
  induction remaining generalizing runs next with
  | zero => exact .pure
  | succ remaining ih => exact (once next).bind fun outcome => .goOn ih

theorem Agrees.forValues {body body' : Value → Evaluating Outcome}
    (once : ∀ value, Agrees one other here here (body value) (body' value)) (values : List Value)
    {runs : List (List Css)} :
    Agrees one other here here (forValues body runs values) (forValues body' runs values) := by
  induction values generalizing runs with
  | nil => exact .pure
  | cons value values ih => exact (once value).bind fun outcome => .goOn ih

theorem Agrees.wholeNumber {e : Expr} {value : Value} :
    Agrees one other here here (wholeNumber e value) (wholeNumber e value) := by
  unfold Evaluation.wholeNumber
  split
  · exact .ite .pure .throw
  · exact .throw

theorem fault_loopLimit {directive : String} {limit line : Nat} {span : Span} :
    (loopLimit directive limit line span).fault = some .limitExceeded :=
  Diagnostic.fault_locate _ _

variable {scope : ScopeId} {line : Nat} {span : Span} {body body' : ScopeId → Evaluating Outcome}

theorem Agrees.loopWhile (alike : one.Alike other)
    (below : Runner.AgreeBelow one other here run run') {condition : Expr}
    (once : ∀ inner, Agrees one other here here (body inner) (body' inner)) :
    Agrees one other here here (loopWhile run scope line span condition body)
      (loopWhile run' scope line span condition body') := by
  refine .options (.inScope fun inner => .whileHolds ?_ (once inner) ?_ ?_ _ _ fun limits => ?_)
  · exact (agrees_expr alike below inner condition).bind fun _ => .pure
  · exact fault_loopLimit
  · exact fault_loopLimit
  · simp only [limits.maxLoopIterations, and_self]

theorem Agrees.loopCount (alike : one.Alike other)
    (below : Runner.AgreeBelow one other here run run') {counter : String} {start stop : Expr}
    {inclusive : Bool} (once : ∀ inner, Agrees one other here here (body inner) (body' inner)) :
    Agrees one other here here
      (loopCount run scope line span counter start stop inclusive body)
      (loopCount run' scope line span counter start stop inclusive body') := by
  refine (agrees_expr alike below scope start).bind fun _ => Agrees.wholeNumber.bind fun _ => ?_
  refine (agrees_expr alike below scope stop).bind fun _ => Agrees.wholeNumber.bind fun _ => ?_
  refine Agrees.ofValue.bind fun _ => .options (.limited fault_loopLimit fault_loopLimit ?_ ?_)
  · intro limits
    simp only [limits.maxLoopIterations, and_self]
  refine fun _ => .inScope fun inner => .forIntegers (fun i => ?_) _
  exact Agrees.bind (.modifyEnv fun _ => rfl) fun _ => once inner

theorem Agrees.loopEach (alike : one.Alike other)
    (below : Runner.AgreeBelow one other here run run') {item : String} {list : Expr}
    (once : ∀ inner, Agrees one other here here (body inner) (body' inner)) :
    Agrees one other here here (loopEach run scope line span item list body)
      (loopEach run' scope line span item list body') := by
  refine (agrees_expr alike below scope list).bind fun _ =>
    .options (.limited fault_loopLimit fault_loopLimit ?_ ?_)
  · intro limits
    simp only [limits.maxLoopIterations, and_self]
  refine fun _ => .inScope fun inner => .forValues (fun value => ?_) _
  exact Agrees.bind (.modifyEnv fun _ => rfl) fun _ => once inner

end Loops

section Imports

variable {one other : Context} {here after : Standing} {run run' : Runner} {scope : ScopeId}

/-- A stylesheet that is entered was not being imported. -/
theorem Agrees.enterImport {calls : List Call} {imports : List SourceId} {id : SourceId}
    {line : Nat} {span : Span} {a a' : Evaluating α}
    (agrees : id ∉ imports → Agrees one other ⟨calls, imports ++ [id]⟩ after a a') :
    Agrees one other ⟨calls, imports⟩ after (do Evaluation.enterImport id line span; a)
      (do Evaluation.enterImport id line span; a') := by
  simp only [Evaluation.enterImport, bind_assoc]
  refine .get fun s log stands => ?_
  obtain ⟨rfl, rfl⟩ := Standing.mk.inj stands
  dsimp only
  split
  · rename_i none
    have fresh : id ∉ s.importStack := by
      intro member
      have missed := List.dropWhile_eq_nil_iff.mp none id member
      simp at missed
    rintro t t' - -
    exact agrees fresh _ _ rfl ⟨log, rfl⟩
  · exact .throw

theorem Agrees.firstError {result : Except (List Diagnostic) α} :
    Agrees one other here here (firstError result) (firstError result) := by
  unfold Evaluation.firstError
  split
  · exact .pure
  · exact .throw

theorem Agrees.importSource (agree : Runner.Agree one other here run run') {id : SourceId}
    {source : ImportedSource} :
    Agrees one other here here (importSource run scope id source)
      (importSource run' scope id source) := by
  refine agrees_entering (fun _ stands => stands) (fun _ log => ⟨log, rfl⟩) ?_
  refine Agrees.lift.bind fun root => .get fun _ _ _ => Agrees.firstError.bind fun _ => ?_
  exact (Agrees.inFile (agree.body root.children scope)).bind fun _ => .pure

theorem Agrees.importStylesheet (alike : one.Alike other)
    (below : Runner.AgreeBelow one other here run run') {line : Nat} {span : Span}
    {filename : Option String} {uri : String} :
    Agrees one other here here (importStylesheet run scope line span filename uri)
      (importStylesheet run' scope line span filename uri) := by
  refine .read (.get fun s log stands => ?_)
  have same := alike.resolve uri s.file
  generalize resolved : Importers.resolve one.files one.importers uri s.file = result at same ⊢
  generalize Importers.resolve other.files other.importers uri s.file = result' at same ⊢
  obtain ⟨found, _⟩ := result
  obtain ⟨_, _⟩ := result'
  cases same
  refine Agrees.logEntries.bind fun _ => ?_
  split
  · exact .throw
  · exact .throw
  · rename_i id source
    refine .enterImport fun fresh => .amending (fun _ => rfl) ?_
    have nests : Nests one here ⟨here.calls, here.imports ++ [id]⟩ :=
      .importing (congrArg Prod.fst resolved) fresh
    refine (Agrees.importSource (below.agree nests)).ensuring (fun s stands => ?_)
      fun s log => ⟨log, rfl⟩
    obtain ⟨calls, stack⟩ := Standing.mk.inj stands
    simp [State.standing, calls, stack]

end Imports

section Statements

variable {one other : Context} {here : Standing} {run run' : Runner} {scope : ScopeId}

theorem Agrees.trimmedText (alike : one.Alike other)
    (below : Runner.AgreeBelow one other here run run') {parts : Template} :
    Agrees one other here here (trimmedText run scope parts) (trimmedText run' scope parts) :=
  (agrees_template alike below scope parts).bind fun _ => .pure

theorem Agrees.selectorOf (alike : one.Alike other)
    (below : Runner.AgreeBelow one other here run run') {place : Place} {selector : Template} :
    Agrees one other here here (selectorOf run scope place selector)
      (selectorOf run' scope place selector) := by
  refine (agrees_template alike below scope selector).bind fun text => ?_
  split
  · exact .pure
  · exact .throw

theorem Agrees.nested {parent : Enclosure} {body body' : ScopeId → Evaluating Outcome}
    (agrees : ∀ inner, Agrees one other here here (body inner) (body' inner)) :
    Agrees one other here here (nested parent scope body) (nested parent scope body') :=
  Agrees.bind (.inside (.inScope agrees)) fun _ => .pure

theorem Agrees.property (alike : one.Alike other)
    (below : Runner.AgreeBelow one other here run run') {place : Place} {name : Template}
    {value : Option Expr} {body body' : ScopeId → Evaluating Outcome}
    (agrees : ∀ inner, Agrees one other here here (body inner) (body' inner)) :
    Agrees one other here here (property run scope place name value body)
      (property run' scope place name value body') := by
  refine (Agrees.trimmedText alike below).bind fun name => ?_
  cases value with
  | none => exact Agrees.bind .pure fun _ => (Agrees.nested agrees).bind fun _ => .pure
  | some e =>
    refine (agrees_expr alike below scope e).bind fun _ => (Agrees.cssText alike).bind fun _ => ?_
    exact Agrees.bind .pure fun _ => (Agrees.nested agrees).bind fun _ => .pure

theorem Agrees.includeMixin (alike : one.Alike other)
    (below : Runner.AgreeBelow one other here run run') {place : Place} {name : String}
    {args : Arguments} :
    Agrees one other here here (includeMixin run scope place name args)
      (includeMixin run' scope place name args) := by
  refine .get fun s log _ => ?_
  dsimp only
  split
  · exact .throw
  · split
    · exact .throw
    · rename_i mixin _
      refine .checkDepth fun room => .amending (fun error => error.fault_locate _) (.duringCall ?_)
      -- The arguments are evaluated during the call, so they may call one level less.
      have nests : Nests one here ⟨_ :: here.calls, here.imports⟩ :=
        .call ⟨.mixin, name, place.line, place.filename⟩ room
      refine (Agrees.arguments alike (below.within nests)).bind fun given => ?_
      have agree := below.agree nests
      exact (Agrees.withArguments agree (agree.body mixin.body)).bind fun _ => .pure

theorem Agrees.debugValue {place : Place} {value : Value} :
    Agrees one other here here (debugValue place value) (debugValue place value) :=
  .options (.logging .pure)

theorem Agrees.warnAbout {place : Place} {value : Value} :
    Agrees one other here here (warnAbout place value) (warnAbout place value) :=
  .get fun _ _ _ => .warn

theorem Agrees.assign (alike : one.Alike other)
    (below : Runner.AgreeBelow one other here run run') {name : String} {value : Expr}
    {guarded : Bool} :
    Agrees one other here here (assign run scope name value guarded)
      (assign run' scope name value guarded) := by
  refine .get fun _ _ _ => .ite .pure ?_
  exact (agrees_expr alike below scope value).bind fun _ => .modifyEnv fun _ => rfl

theorem Agrees.define {kind : CallableKind} {name : String} {params : List Param}
    {body : List Statement} :
    Agrees one other here here (define kind name params scope body)
      (define kind name params scope body) :=
  .modifyEnv fun env => Environment.calls_capture env scope

theorem Agrees.isTaken (alike : one.Alike other)
    (below : Runner.AgreeBelow one other here run run') {condition : Option Expr} :
    Agrees one other here here (isTaken run scope condition) (isTaken run' scope condition) := by
  cases condition with
  | none => exact .pure
  | some e => exact (agrees_expr alike below scope e).bind fun _ => .pure

theorem Agrees.simpleStatement (alike : one.Alike other)
    (below : Runner.AgreeBelow one other here run run') {place : Place}
    {children : List Statement} {body body' : ScopeId → Evaluating Outcome}
    (agrees : ∀ inner, Agrees one other here here (body inner) (body' inner))
    (kind : StatementKind) :
    Agrees one other here here (simpleStatement run scope place children body kind)
      (simpleStatement run' scope place children body' kind) := by
  unfold Evaluation.simpleStatement
  cases kind with
  | root => exact agrees scope
  | rule selector =>
    refine (Agrees.selectorOf alike below).bind fun _ => ?_
    exact (Agrees.nested agrees).bind fun _ => .pure
  | property name value => exact .property alike below agrees
  | comment text silent =>
    exact .ite .pure ((agrees_template alike below scope text).bind fun _ => .pure)
  | directive name params hasBlock =>
    refine (Agrees.trimmedText alike below).bind fun _ => ?_
    exact (Agrees.nested agrees).bind fun _ => .pure
  | media query =>
    refine (Agrees.trimmedText alike below).bind fun _ => ?_
    exact (Agrees.nested agrees).bind fun _ => .pure
  | charset name => exact .pure
  | importing target =>
    cases target with
    | stylesheet uri => exact .importStylesheet alike below
    | css text => exact (Agrees.trimmedText alike below).bind fun _ => .pure
  | assign name value guarded => exact (Agrees.assign alike below).bind fun _ => .pure
  | defineMixin name params => exact Agrees.define.bind fun _ => .pure
  | defineFunction name params => exact Agrees.define.bind fun _ => .pure
  | includeMixin name args => exact .includeMixin alike below
  | returning value => exact (agrees_expr alike below scope value).bind fun _ => .pure
  | extend selector => exact (Agrees.selectorOf alike below).bind fun _ => .pure
  | branch condition otherwise => exact .pure
  | loopWhile condition => exact .loopWhile alike below agrees
  | loopCount counter start stop inclusive => exact .loopCount alike below agrees
  | loopEach item list => exact .loopEach alike below agrees
  | debug value =>
    refine (agrees_expr alike below scope value).bind fun _ => ?_
    exact Agrees.debugValue.bind fun _ => .pure
  | warn value =>
    refine (agrees_expr alike below scope value).bind fun _ => ?_
    exact Agrees.warnAbout.bind fun _ => .pure

mutual

theorem agrees_statement (alike : one.Alike other)
    (below : Runner.AgreeBelow one other here run run') (scope : ScopeId) : (s : Statement) →
      Agrees one other here here (statement run scope s) (statement run' scope s)
  | .mk kind children line span filename => by
    have block (inner : ScopeId) := agrees_statements alike below inner children
    cases kind with
    | branch condition otherwise =>
      unfold statement
      refine .forStatement ((Agrees.isTaken alike below).bind fun _ => .ite (.inScope block) ?_)
      exact agrees_otherBranch alike below scope otherwise
    | _ =>
      unfold statement
      exact .forStatement (.simpleStatement alike below block _)

theorem agrees_otherBranch (alike : one.Alike other)
    (below : Runner.AgreeBelow one other here run run') (scope : ScopeId) :
    (otherwise : Option Statement) →
      Agrees one other here here (otherBranch run scope otherwise) (otherBranch run' scope otherwise)
  | none => .pure
  | some s => agrees_statement alike below scope s

theorem agrees_statements (alike : one.Alike other)
    (below : Runner.AgreeBelow one other here run run') (scope : ScopeId) :
    (body : List Statement) →
      Agrees one other here here (statements run scope body) (statements run' scope body)
  | [] => .pure
  | s :: rest => by
    refine (agrees_statement alike below scope s).bind fun first => ?_
    split
    · exact .pure
    · exact (agrees_statements alike below scope rest).bind fun _ => .pure

end

end Statements

end Evaluation

end Stylesheet
