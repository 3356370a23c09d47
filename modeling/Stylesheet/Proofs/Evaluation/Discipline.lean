import Stylesheet.Evaluation.Statement

/-! What an evaluation leaves behind, whether it succeeds or fails. Every change of the state is made
in a scope, or between a change and its restoration. A relation of states that allows for these holds
between the start and the end of whatever is evaluated. -/

namespace Stylesheet.Evaluation

/-- The state at the end, also of a failure. -/
def final : EStateM.Result Diagnostic State α → State
  | .ok _ state => state
  | .error _ state => state

/-- An action ends in a state that is related to the one it started in, also when it fails. -/
def Leaves (context : Context) (rel : State → State → Prop) (action : Evaluating α) : Prop :=
  ∀ state, rel state (final (action context state))

/-- Changes of the state that add up, and doing nothing is one of them. -/
structure Composes (rel : ScopeId → State → State → Prop) : Prop where
  refl : ∀ {scope s}, rel scope s s
  trans : ∀ {scope s t u}, rel scope s t → rel scope t u → rel scope s u

/-- How the state may change during what is evaluated in a scope, apart from calls, definitions and
blocks. -/
structure LocalDiscipline (rel : ScopeId → State → State → Prop) : Prop extends Composes rel where
  declare : ∀ {scope name value s}, rel scope s { s with env := s.env.declare scope name value }
  assign : ∀ {scope name value s}, rel scope s { s with env := s.env.assign scope name value }
  opening : ∀ {scope s t}, rel s.env.scopes.size { s with env := (s.env.push scope).1 } t →
    rel scope s (popScope s.env.scopes.size t)
  calling : ∀ {scope call s t}, rel scope { s with env := s.env.enterCall call } t →
    rel scope s { t with env := t.env.leaveCall }
  named : ∀ {scope filename s t}, rel scope { s with filename } t →
    rel scope s { t with filename := s.filename }
  reporting : ∀ {scope warnings sources log s}, rel scope s { s with warnings, sources, log }

/-- How the state may change during what is evaluated in a scope. `around` tells which scopes count
as the scope itself or one around it; what is called is evaluated in one of those. -/
structure Discipline (rel : ScopeId → State → State → Prop)
    (around : State → ScopeId → ScopeId → Prop) : Prop extends LocalDiscipline rel where
  behind : ∀ {scope outer s t u}, rel scope s t → around s scope outer →
    (around t scope outer → rel scope t u) → rel scope s u
  entered : ∀ {scope outer call s}, around s scope outer →
    around { s with env := s.env.enterCall call } scope outer
  outwards : ∀ {scope outer s t}, around s scope outer → rel outer s t → rel scope s t
  mixin : ∀ {scope name callable s}, s.env.mixin? scope name = some callable →
    around s scope callable.scope
  function : ∀ {scope name callable s}, s.env.function? scope name = some callable →
    around s scope callable.scope
  define : ∀ {scope kind name params body s},
    rel scope s { s with env := s.env.define scope ⟨kind, name, params, scope, body⟩ }
  inside : ∀ {scope parent s t}, rel scope { s with parent } t →
    rel scope s { t with parent := s.parent }
  inFile : ∀ {scope file s t}, rel scope { s with file } t → rel scope s { t with file := s.file }
  importing : ∀ {scope id dependencies s t},
    rel scope { s with importStack := s.importStack ++ [id], dependencies } t →
    rel scope s { t with importStack := t.importStack.dropLast }

variable {rel : ScopeId → State → State → Prop} {around : State → ScopeId → ScopeId → Prop}
  {context : Context} {scope : ScopeId} {state : State}

/-- Whatever a runner evaluates elsewhere, it keeps to what is allowed in the scope. -/
structure Runner.KeepsTo (rel : ScopeId → State → State → Prop) (context : Context)
    (run : Runner) : Prop where
  expr : ∀ e scope, Leaves context (rel scope) (run.expr e scope)
  body : ∀ body scope, Leaves context (rel scope) (run.body body scope)

theorem Leaves.at {rel : State → State → Prop} {action : Evaluating α}
    (leaves : Leaves context rel action) : rel state (final (action context state)) :=
  leaves state

theorem Leaves.ok {rel : State → State → Prop} {action : Evaluating α} {a : α} {after : State}
    (leaves : Leaves context rel action) (ok : action context state = .ok a after) :
    rel state after := by
  have related := leaves state
  rwa [ok] at related

section Rules

variable (d : Composes rel)
include d

theorem Composes.pure {a : α} : Leaves context (rel scope) (pure a) :=
  fun _ => d.refl

theorem Composes.throw {error : Diagnostic} :
    Leaves context (rel scope) (throw error : Evaluating α) :=
  fun _ => d.refl

theorem Composes.bind {first : Evaluating α} {next : α → Evaluating β}
    (start : Leaves context (rel scope) first)
    (behind : ∀ a, Leaves context (rel scope) (next a)) :
    Leaves context (rel scope) (first >>= next) := by
  intro state
  have before := start state
  simp only [Bind.bind, ReaderT.bind, EStateM.bind]
  cases found : first context state with
  | error error middle =>
    rw [found] at before
    exact before
  | ok a middle =>
    rw [found] at before
    exact d.trans before (behind a middle)

omit d in
theorem leaves_ite {condition : Prop} [Decidable condition] {one other : Evaluating α}
    {rel : State → State → Prop} (left : Leaves context rel one)
    (right : Leaves context rel other) :
    Leaves context rel (if condition then one else other) := by
  split
  · exact left
  · exact right

omit d in
/-- What was read of the state is known of the state that an action goes on from. -/
theorem leaves_get {rel : State → State → Prop} {next : State → Evaluating α}
    (behind : ∀ state, rel state (final (next state context state))) :
    Leaves context rel (get >>= next) :=
  behind

omit d in
theorem leaves_state {rel : State → State → Prop} {next : State → Evaluating α}
    (behind : ∀ state, Leaves context rel (next state)) : Leaves context rel (get >>= next) :=
  fun state => behind state state

omit d in
theorem leaves_read {rel : State → State → Prop} {next : Context → Evaluating α}
    (behind : Leaves context rel (next context)) : Leaves context rel (read >>= next) :=
  behind

omit d in
theorem leaves_options {rel : State → State → Prop} {next : Options → Evaluating α}
    (behind : ∀ options, Leaves context rel (next options)) :
    Leaves context rel (options >>= next) :=
  behind context.options

omit d in
theorem final_ensuring {restore : State → State} {action : Evaluating α} :
    final (ensuring restore action context state) = restore (final (action context state)) := by
  unfold ensuring
  cases action context state <;> rfl

omit d in
theorem final_amending {amend : Diagnostic → Diagnostic} {action : Evaluating α} :
    final (amending amend action context state) = final (action context state) := by
  unfold amending
  cases action context state <;> rfl

theorem Composes.lift {result : Except Diagnostic α} :
    Leaves context (rel scope) (lift result) := by
  unfold Evaluation.lift
  split
  · exact d.pure
  · exact d.throw

theorem Composes.ofValue {line : Nat} {span : Span} {result : Except ValueError α} :
    Leaves context (rel scope) (ofValue line span result) := by
  unfold Evaluation.ofValue
  split
  · exact d.pure
  · exact d.throw

end Rules

section Rules

variable (d : LocalDiscipline rel)
include d

theorem LocalDiscipline.logEntries {entries : Log} : Leaves context (rel scope) (logEntries entries) :=
  fun _ => d.reporting

theorem LocalDiscipline.warn {warning : Diagnostic} : Leaves context (rel scope) (warn warning) := by
  refine leaves_options fun _ => leaves_ite (d.bind d.logEntries fun _ => ?_) ?_
  all_goals exact fun _ => d.reporting

theorem LocalDiscipline.inScope {action : ScopeId → Evaluating α}
    (leaves : ∀ inner, Leaves context (rel inner) (action inner)) :
    Leaves context (rel scope) (inScope scope action) := by
  intro state
  change rel scope state (final (ensuring _ (action state.env.scopes.size) context _))
  rw [final_ensuring]
  exact d.opening (leaves _ _)

theorem LocalDiscipline.duringCall {call : Call} {action : Evaluating α}
    (leaves : rel scope { state with env := state.env.enterCall call }
      (final (action context { state with env := state.env.enterCall call }))) :
    rel scope state (final (duringCall call action context state)) := by
  change rel scope state (final (ensuring _ action context _))
  rw [final_ensuring]
  exact d.calling leaves

theorem LocalDiscipline.forStatement {line : Nat} {filename : Option String} {action : Evaluating α}
    (leaves : Leaves context (rel scope) action) :
    Leaves context (rel scope) (forStatement line filename action) := by
  intro state
  change rel scope state (final (amending _ (ensuring _ action) context _))
  rw [final_amending, final_ensuring]
  exact d.named (leaves _)

end Rules

section Rules

variable (d : Discipline rel around)
include d

/-- What is around a scope stays around it behind an action. -/
theorem Discipline.bindAround {first : Evaluating α} {next : α → Evaluating β} {outer : ScopeId}
    (start : Leaves context (rel scope) first)
    (behind : ∀ a state, around state scope outer → rel scope state (final (next a context state)))
    (isAround : around state scope outer) :
    rel scope state (final ((first >>= next) context state)) := by
  have before := start state
  simp only [Bind.bind, ReaderT.bind, EStateM.bind]
  cases found : first context state with
  | error error middle =>
    rw [found] at before
    exact before
  | ok a middle =>
    rw [found] at before
    exact d.behind before isAround (behind a middle)

theorem Discipline.insideOf {parent : Enclosure} {action : Evaluating α}
    (leaves : Leaves context (rel scope) action) :
    Leaves context (rel scope) (Evaluation.inside parent action) := by
  intro state
  change rel scope state (final (ensuring _ action context _))
  rw [final_ensuring]
  exact d.inside (leaves _)

theorem Discipline.inFileOf {file : SourceId} {action : Evaluating α}
    (leaves : Leaves context (rel scope) action) :
    Leaves context (rel scope) (Evaluation.inFile file action) := by
  intro state
  change rel scope state (final (ensuring _ action context _))
  rw [final_ensuring]
  exact d.inFile (leaves _)

end Rules

section Calls

variable (d : Composes rel)
include d

theorem Composes.checkDepth {line : Nat} {span : Span} :
    Leaves context (rel scope) (checkDepth line span) :=
  leaves_options fun _ => leaves_state fun _ => leaves_ite d.throw d.pure

theorem Composes.plainCall {name : String} {positional : List Value}
    {keywords : List (String × Value)} {line : Nat} {span : Span} :
    Leaves context (rel scope) (plainCall name positional keywords line span) := by
  unfold Evaluation.plainCall
  split
  · exact d.throw
  · exact leaves_options fun _ => d.bind d.ofValue fun _ => d.pure

theorem Composes.lookUp {name : String} {line : Nat} {span : Span} :
    Leaves context (rel scope) (lookUp scope name line span) := by
  refine leaves_state fun _ => ?_
  split
  · exact d.pure
  · exact d.throw

theorem Composes.cssText {e : Expr} {value : Value} :
    Leaves context (rel scope) (cssText e value) :=
  leaves_options fun _ => d.ofValue

theorem Composes.interpolatedText {e : Expr} {value : Value} :
    Leaves context (rel scope) (interpolatedText e value) :=
  leaves_options fun _ => d.ofValue

end Calls

section Calls

variable {run : Runner} (d : LocalDiscipline rel)
include d

theorem LocalDiscipline.declaring {name : String} {value : Value} :
    Leaves context (rel scope) (modifyEnv (·.declare scope name value)) :=
  fun _ => d.declare

theorem LocalDiscipline.bindParams {callable : Callable} {fail : String → Diagnostic}
    (defaults : ∀ e, Leaves context (rel scope) (run.expr e scope)) (params : List Param)
    (values : List Value) (keywords : List (String × Value)) :
    Leaves context (rel scope) (bindParams run callable scope fail params values keywords) := by
  induction params generalizing values keywords with
  | nil => exact d.pure
  | cons param params ih =>
    cases values with
    | cons value values => exact d.bind d.declaring fun _ => ih values keywords
    | nil =>
      unfold Evaluation.bindParams
      split
      · exact d.bind d.declaring fun _ => ih [] _
      · split
        · exact d.bind (defaults _) fun value => d.bind d.declaring fun _ => ih [] keywords
        · exact d.throw

theorem LocalDiscipline.withArguments {callable : Callable} {positional : List Value}
    {keywords : List (String × Value)} {line : Nat} {span : Span} {action : ScopeId → Evaluating α}
    (defaults : ∀ e inner, Leaves context (rel inner) (run.expr e inner))
    (once : ∀ inner, Leaves context (rel inner) (action inner)) :
    Leaves context (rel callable.scope)
      (withArguments run callable positional keywords line span action) := by
  unfold Evaluation.withArguments
  dsimp only
  split
  · exact d.throw
  · refine d.inScope fun inner => d.bind (d.bindParams (fun e => defaults e inner) _ _ _) ?_
    exact fun _ => once inner

theorem LocalDiscipline.callFunction {function : Callable} {positional : List Value}
    {keywords : List (String × Value)} {line : Nat} {span : Span}
    (defaults : ∀ e inner, Leaves context (rel inner) (run.expr e inner))
    (once : ∀ inner, Leaves context (rel inner) (run.body function.body inner)) :
    Leaves context (rel function.scope)
      (callFunction run function positional keywords line span) := by
  refine d.bind d.checkDepth fun _ => leaves_get fun state => d.bind (fun state => ?_)
    (fun outcome => ?_) state
  · exact d.duringCall (d.withArguments defaults once _)
  · split
    · exact d.pure
    · exact d.throw

end Calls

/-- Whatever function of the stylesheet is called from a scope, the call keeps to what is allowed in
that scope. -/
def Runner.CallsKeepTo (rel : ScopeId → State → State → Prop) (context : Context)
    (run : Runner) : Prop :=
  ∀ {scope name function positional keywords line span state},
    state.env.function? scope name = some function →
      rel scope state
        (final (callFunction run function positional keywords line span context state))

section Expressions

variable {run : Runner}

theorem Composes.call (d : Composes rel) (calls : run.CallsKeepTo rel context)
    {name : String} {positional : List Value} {keywords : List (String × Value)} {line : Nat}
    {span : Span} : Leaves context (rel scope) (call run scope name positional keywords line span) := by
  refine leaves_get fun state => ?_
  cases found : state.env.function? scope name with
  | some function => exact calls found
  | none =>
    dsimp only
    refine Leaves.at ?_
    split
    · exact d.plainCall
    · split
      · exact d.pure
      · exact d.throw
      · exact d.throw

mutual

/-- An expression changes the state only by the functions that it calls. -/
theorem Composes.expr (d : Composes rel) (calls : run.CallsKeepTo rel context) :
    (e : Expr) → Leaves context (rel scope) (expr run scope e)
  | .mk (.literal value) _ _ => d.pure
  | .mk (.variable name) _ _ => d.lookUp
  | .mk (.text quoted parts) _ _ => d.bind (d.template calls parts) fun _ => d.pure
  | .mk (.interpolation before middle behind _ _) _ _ => by
    refine d.bind (d.side calls before) fun _ => d.bind (d.expr calls middle) fun _ => ?_
    refine d.bind d.interpolatedText fun _ => ?_
    exact d.bind (d.side calls behind) fun _ => d.pure
  | .mk (.list items _) _ _ => d.bind (d.exprs calls items) fun _ => d.pure
  | .mk (.binary op left right) _ _ => by
    refine d.bind (d.expr calls left) fun _ => leaves_ite d.pure ?_
    exact d.bind (d.expr calls right) fun _ => d.ofValue
  | .mk (.unary _ operand) _ _ => d.bind (d.expr calls operand) fun _ => d.ofValue
  | .mk (.call name (.mk positional keywords)) _ _ =>
    d.bind (d.exprs calls positional) fun _ =>
      d.bind (d.namedExprs calls keywords) fun _ => d.call calls
  | .mk (.paren inner) _ _ => d.bind (d.expr calls inner) fun _ => d.pure

theorem Composes.side (d : Composes rel) (calls : run.CallsKeepTo rel context) :
    (e : Option Expr) → Leaves context (rel scope) (side run scope e)
  | none => d.pure
  | some e => d.bind (d.expr calls e) fun _ => d.cssText

theorem Composes.exprs (d : Composes rel) (calls : run.CallsKeepTo rel context) :
    (items : List Expr) → Leaves context (rel scope) (exprs run scope items)
  | [] => d.pure
  | e :: rest => d.bind (d.expr calls e) fun _ => d.bind (d.exprs calls rest) fun _ => d.pure

theorem Composes.namedExprs (d : Composes rel) (calls : run.CallsKeepTo rel context) :
    (args : List (String × Expr)) → Leaves context (rel scope) (namedExprs run scope args)
  | [] => d.pure
  | (_, e) :: rest =>
    d.bind (d.expr calls e) fun _ => d.bind (d.namedExprs calls rest) fun _ => d.pure

theorem Composes.template (d : Composes rel) (calls : run.CallsKeepTo rel context) :
    (parts : List Part) → Leaves context (rel scope) (template run scope parts)
  | [] => d.pure
  | .text _ :: rest => d.bind (d.template calls rest) fun _ => d.pure
  | .expr e :: rest =>
    d.bind (d.expr calls e) fun _ => d.bind d.interpolatedText fun _ =>
      d.bind (d.template calls rest) fun _ => d.pure

end

end Expressions

section Loops

variable (d : Composes rel)
include d

/-- A loop goes on or ends after a run of its body. -/
theorem Composes.goOn {outcome : Outcome} {runs : List (List Css)} {more : Evaluating Outcome}
    (rest : Leaves context (rel scope) more) :
    Leaves context (rel scope)
      (match outcome.returned with
        | some value => Pure.pure (gather (outcome.css :: runs) (some value))
        | none => more) := by
  split
  · exact d.pure
  · exact rest

theorem Composes.whileHolds {condition : Evaluating Bool} {body : Evaluating Outcome}
    {tooMany : Diagnostic} (test : Leaves context (rel scope) condition)
    (once : Leaves context (rel scope) body) (remaining : Nat) {runs : List (List Css)} :
    Leaves context (rel scope) (whileHolds condition body tooMany runs remaining) := by
  induction remaining generalizing runs with
  | zero => exact d.bind test fun _ => leaves_ite d.throw d.pure
  | succ remaining ih =>
    exact d.bind test fun _ => leaves_ite (d.bind once fun outcome => d.goOn ih) d.pure

theorem Composes.forIntegers {body : Int → Evaluating Outcome}
    (once : ∀ i, Leaves context (rel scope) (body i)) (remaining : Nat) {next : Int}
    {runs : List (List Css)} :
    Leaves context (rel scope) (forIntegers body runs next remaining) := by
  induction remaining generalizing runs next with
  | zero => exact d.pure
  | succ remaining ih => exact d.bind (once next) fun outcome => d.goOn ih

theorem Composes.forValues {body : Value → Evaluating Outcome}
    (once : ∀ value, Leaves context (rel scope) (body value)) (values : List Value)
    {runs : List (List Css)} : Leaves context (rel scope) (forValues body runs values) := by
  induction values generalizing runs with
  | nil => exact d.pure
  | cons value values ih => exact d.bind (once value) fun outcome => d.goOn ih

theorem Composes.wholeNumber {e : Expr} {value : Value} :
    Leaves context (rel scope) (wholeNumber e value) := by
  unfold Evaluation.wholeNumber
  split
  · exact leaves_ite d.pure d.throw
  · exact d.throw

theorem Composes.isTaken {run : Runner} (calls : run.CallsKeepTo rel context)
    {condition : Option Expr} :
    Leaves context (rel scope) (isTaken run scope condition) := by
  cases condition with
  | none => exact d.pure
  | some e => exact d.bind (d.expr calls e) fun _ => d.pure

end Loops

section Loops

variable (d : LocalDiscipline rel) {run : Runner} (calls : run.CallsKeepTo rel context) {line : Nat}
  {span : Span} {body : ScopeId → Evaluating Outcome} (once : ∀ inner, Leaves context (rel inner) (body inner))
include d calls once

theorem LocalDiscipline.loopWhile {condition : Expr} :
    Leaves context (rel scope) (loopWhile run scope line span condition body) := by
  refine leaves_options fun _ => d.inScope fun inner => d.whileHolds ?_ (once inner) _
  exact d.bind (d.expr calls condition) fun _ => d.pure

theorem LocalDiscipline.loopCount {counter : String} {start stop : Expr} {inclusive : Bool} :
    Leaves context (rel scope)
      (loopCount run scope line span counter start stop inclusive body) := by
  refine d.bind (d.expr calls start) fun _ => d.bind d.wholeNumber fun _ => ?_
  refine d.bind (d.expr calls stop) fun _ => d.bind d.wholeNumber fun _ => ?_
  refine d.bind d.ofValue fun _ => leaves_options fun _ => leaves_ite d.throw ?_
  exact d.inScope fun inner => d.forIntegers (fun i => d.bind d.declaring fun _ => once inner) _

theorem LocalDiscipline.loopEach {item : String} {list : Expr} :
    Leaves context (rel scope) (loopEach run scope line span item list body) := by
  refine d.bind (d.expr calls list) fun _ => leaves_options fun _ => leaves_ite d.throw ?_
  exact d.inScope fun inner => d.forValues (fun value => d.bind d.declaring fun _ => once inner) _

end Loops

section Controls

variable {run : Runner} (d : LocalDiscipline rel) (calls : run.CallsKeepTo rel context)
include d

theorem LocalDiscipline.debugValue {place : Place} {value : Value} :
    Leaves context (rel scope) (debugValue place value) :=
  leaves_options fun _ => leaves_ite d.logEntries d.pure

theorem LocalDiscipline.warnAbout {place : Place} {value : Value} :
    Leaves context (rel scope) (warnAbout place value) :=
  leaves_state fun _ => d.warn

include calls

theorem LocalDiscipline.assigning {name : String} {value : Expr} {guarded : Bool} :
    Leaves context (rel scope) (Evaluation.assign run scope name value guarded) := by
  refine leaves_state fun _ => leaves_ite d.pure ?_
  exact d.bind (d.expr calls value) fun value => fun _ => d.assign

end Controls

section Runs

variable {run : Runner} (d : Discipline rel around) (runs : run.KeepsTo rel context)
include d runs

/-- A function is called from a scope that its own one is around. -/
theorem Discipline.calls : run.CallsKeepTo rel context := fun found =>
  d.outwards (d.function found) (d.callFunction runs.expr (runs.body _) _)

theorem leaves_expr (e : Expr) : Leaves context (rel scope) (expr run scope e) :=
  d.expr (d.calls runs) e

theorem leaves_side (e : Option Expr) : Leaves context (rel scope) (side run scope e) :=
  d.side (d.calls runs) e

theorem leaves_exprs (items : List Expr) : Leaves context (rel scope) (exprs run scope items) :=
  d.exprs (d.calls runs) items

theorem leaves_namedExprs (args : List (String × Expr)) :
    Leaves context (rel scope) (namedExprs run scope args) :=
  d.namedExprs (d.calls runs) args

theorem leaves_template (parts : List Part) :
    Leaves context (rel scope) (template run scope parts) :=
  d.template (d.calls runs) parts

theorem Discipline.arguments {args : Arguments} :
    Leaves context (rel scope) (arguments run scope args) :=
  d.bind (leaves_exprs d runs args.positional) fun _ =>
    d.bind (leaves_namedExprs d runs args.keywords) fun _ => d.pure

end Runs

section Imports

variable (d : Discipline rel around)
include d

theorem Discipline.firstError {result : Except (List Diagnostic) α} :
    Leaves context (rel scope) (firstError result) := by
  unfold Evaluation.firstError
  split
  · exact d.pure
  · exact d.throw

theorem Discipline.importSource {run : Runner} (runs : run.KeepsTo rel context) {id : SourceId}
    {source : ImportedSource} : Leaves context (rel scope) (importSource run scope id source) := by
  refine d.bind (fun _ => d.reporting) fun _ => d.bind d.lift fun root => ?_
  refine leaves_state fun _ => d.bind d.firstError fun _ => ?_
  exact d.bind (d.inFileOf (runs.body root.children scope)) fun _ => d.pure

/-- A stylesheet is on the stack while it is imported, unless that fails at once. -/
theorem Discipline.enterImport {id : SourceId} {line : Nat} {span : Span}
    {amend : Diagnostic → Diagnostic} {action : Evaluating α}
    (leaves : Leaves context (rel scope) action) :
    Leaves context (rel scope) (do
      Evaluation.enterImport id line span
      amending amend
        (ensuring (fun state => { state with importStack := state.importStack.dropLast }) action)) := by
  simp only [Evaluation.enterImport, bind_assoc]
  refine leaves_get fun state => ?_
  split
  · change rel scope state (final (amending _ (ensuring _ action) context _))
    rw [final_amending, final_ensuring]
    exact d.importing (leaves _)
  · exact d.refl

theorem Discipline.importStylesheet {run : Runner} (runs : run.KeepsTo rel context) {line : Nat}
    {span : Span} {filename : Option String} {uri : String} :
    Leaves context (rel scope) (importStylesheet run scope line span filename uri) := by
  refine leaves_read (leaves_state fun state => ?_)
  dsimp only
  refine d.bind d.logEntries fun _ => ?_
  split
  · exact d.throw
  · exact d.throw
  · exact d.enterImport (d.importSource runs)

end Imports

section Statements

variable {run : Runner} (d : Discipline rel around) (runs : run.KeepsTo rel context)
include d runs

theorem Discipline.trimmedText {parts : Template} :
    Leaves context (rel scope) (trimmedText run scope parts) :=
  d.bind (leaves_template d runs parts) fun _ => d.pure

theorem Discipline.selectorOf {place : Place} {selector : Template} :
    Leaves context (rel scope) (selectorOf run scope place selector) := by
  refine d.bind (leaves_template d runs selector) fun text => ?_
  split
  · exact d.pure
  · exact d.throw

omit runs in
theorem Discipline.nested {parent : Enclosure} {body : ScopeId → Evaluating Outcome}
    (once : ∀ inner, Leaves context (rel inner) (body inner)) :
    Leaves context (rel scope) (nested parent scope body) :=
  d.bind (d.insideOf (d.inScope once)) fun _ => d.pure

theorem Discipline.property {place : Place} {name : Template} {value : Option Expr}
    {body : ScopeId → Evaluating Outcome}
    (once : ∀ inner, Leaves context (rel inner) (body inner)) :
    Leaves context (rel scope) (property run scope place name value body) := by
  refine d.bind (d.trimmedText runs) fun name => ?_
  cases value with
  | none => exact d.bind d.pure fun _ => d.bind (d.nested once) fun _ => d.pure
  | some e =>
    refine d.bind (leaves_expr d runs e) fun value => d.bind d.cssText fun _ => ?_
    exact d.bind d.pure fun _ => d.bind (d.nested once) fun _ => d.pure

/-- A mixin is included from a scope that its own one is around, also when its arguments have been
evaluated. -/
theorem Discipline.includeMixin {place : Place} {name : String} {args : Arguments} :
    Leaves context (rel scope) (includeMixin run scope place name args) := by
  refine leaves_get fun state => ?_
  dsimp only
  cases state.env.includeLoop? name with
  | some cycle => exact d.refl
  | none =>
    cases found : state.env.mixin? scope name with
    | none => exact d.refl
    | some mixin =>
      refine d.bindAround d.checkDepth (fun _ state isAround => ?_) (d.mixin found)
      rw [final_amending]
      refine d.duringCall (d.bindAround (d.arguments runs) (fun given state isAround => ?_)
        (d.entered isAround))
      refine d.outwards isAround (d.bind ?_ (fun _ => d.pure) state)
      exact d.withArguments runs.expr (runs.body mixin.body)

omit runs in
theorem Discipline.defining {kind : CallableKind} {name : String} {params : List Param}
    {body : List Statement} :
    Leaves context (rel scope) (Evaluation.define kind name params scope body) :=
  fun _ => d.define

theorem Discipline.simpleStatement {place : Place} {children : List Statement}
    {body : ScopeId → Evaluating Outcome}
    (once : ∀ inner, Leaves context (rel inner) (body inner)) (kind : StatementKind) :
    Leaves context (rel scope) (simpleStatement run scope place children body kind) := by
  unfold Evaluation.simpleStatement
  cases kind with
  | root => exact once scope
  | rule selector =>
    refine d.bind (d.selectorOf runs) fun _ => ?_
    exact d.bind (d.nested once) fun _ => d.pure
  | property name value => exact d.property runs once
  | comment text silent =>
    exact leaves_ite d.pure (d.bind (leaves_template d runs text) fun _ => d.pure)
  | directive name params hasBlock =>
    refine d.bind (d.trimmedText runs) fun _ => ?_
    exact d.bind (d.nested once) fun _ => d.pure
  | media query =>
    refine d.bind (d.trimmedText runs) fun _ => ?_
    exact d.bind (d.nested once) fun _ => d.pure
  | charset name => exact d.pure
  | importing target =>
    cases target with
    | stylesheet uri => exact d.importStylesheet runs
    | css text => exact d.bind (d.trimmedText runs) fun _ => d.pure
  | assign name value guarded => exact d.bind (d.assigning (d.calls runs)) fun _ => d.pure
  | defineMixin name params => exact d.bind d.defining fun _ => d.pure
  | defineFunction name params => exact d.bind d.defining fun _ => d.pure
  | includeMixin name args => exact d.includeMixin runs
  | returning value => exact d.bind (leaves_expr d runs value) fun _ => d.pure
  | extend selector => exact d.bind (d.selectorOf runs) fun _ => d.pure
  | branch condition otherwise => exact d.pure
  | loopWhile condition => exact d.loopWhile (d.calls runs) once
  | loopCount counter start stop inclusive => exact d.loopCount (d.calls runs) once
  | loopEach item list => exact d.loopEach (d.calls runs) once
  | debug value =>
    exact d.bind (leaves_expr d runs value) fun _ => d.bind d.debugValue fun _ => d.pure
  | warn value =>
    exact d.bind (leaves_expr d runs value) fun _ => d.bind d.warnAbout fun _ => d.pure

end Statements

section Statements

variable {run : Runner}

mutual

theorem leaves_statement (d : Discipline rel around) (runs : run.KeepsTo rel context)
    (scope : ScopeId) : (s : Statement) → Leaves context (rel scope) (statement run scope s)
  | .mk kind children line span filename => by
    have block (inner : ScopeId) := leaves_statements d runs inner children
    cases kind with
    | branch condition otherwise =>
      unfold statement
      refine d.forStatement (d.bind (d.isTaken (d.calls runs)) fun _ => leaves_ite (d.inScope block) ?_)
      exact leaves_otherBranch d runs scope otherwise
    | _ =>
      unfold statement
      exact d.forStatement (d.simpleStatement runs block _)

theorem leaves_otherBranch (d : Discipline rel around) (runs : run.KeepsTo rel context)
    (scope : ScopeId) :
    (otherwise : Option Statement) → Leaves context (rel scope) (otherBranch run scope otherwise)
  | none => d.pure
  | some s => leaves_statement d runs scope s

theorem leaves_statements (d : Discipline rel around) (runs : run.KeepsTo rel context)
    (scope : ScopeId) :
    (body : List Statement) → Leaves context (rel scope) (statements run scope body)
  | [] => d.pure
  | s :: rest => by
    refine d.bind (leaves_statement d runs scope s) fun first => ?_
    split
    · exact d.pure
    · exact d.bind (leaves_statements d runs scope rest) fun _ => d.pure

end

/-- Evaluation keeps to what is allowed, however deep calls and imports are followed. -/
theorem runner_keepsTo (d : Discipline rel around) (context : Context) (depth : Nat) :
    (runner depth).KeepsTo rel context := by
  induction depth with
  | zero => exact ⟨fun _ _ => d.throw, fun _ _ => d.throw⟩
  | succ depth ih =>
    exact ⟨fun e scope => leaves_expr d ih e, fun body scope => leaves_statements d ih scope body⟩

end Statements

end Stylesheet.Evaluation
