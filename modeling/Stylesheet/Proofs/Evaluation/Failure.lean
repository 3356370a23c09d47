import Mathlib.Data.List.TakeWhile
import Stylesheet.Proofs.Evaluation.Course
import Stylesheet.Proofs.Evaluation.Keeps
import Stylesheet.Proofs.Scope.Arena

/-! A failure anywhere ends the whole evaluation: nothing that is around something catches its
error. -/

namespace Stylesheet.Evaluation

/-- An action fails in a state with an error. -/
def FailsWith (context : Context) (state : State) (action : Evaluating α) (error : Diagnostic) :
    Prop :=
  ∃ after, action context state = .error error after

/-- An action fails in a state. -/
def Fails (context : Context) (state : State) (action : Evaluating α) : Prop :=
  ∃ error, FailsWith context state action error

/-- The evaluation at a point fails with an error. -/
def Point.FailsWith (context : Context) (p : Point) (error : Diagnostic) : Prop :=
  Evaluation.FailsWith context p.state (Evaluation.perform (runner p.depth) p.scope p.task) error

/-- The evaluation at a point fails. -/
def Point.Fails (context : Context) (p : Point) : Prop :=
  Evaluation.Fails context p.state (Evaluation.perform (runner p.depth) p.scope p.task)

section Rules

variable {context : Context} {s t : State} {scope : ScopeId} {error : Diagnostic}

theorem bind_of_ok {first : Evaluating α} {next : α → Evaluating β} {a : α}
    (ok : first context s = .ok a t) : (first >>= next) context s = next a context t := by
  simp only [Bind.bind, ReaderT.bind, EStateM.bind, ok]

theorem bind_of_error {first : Evaluating α} {next : α → Evaluating β}
    (failed : first context s = .error error t) : (first >>= next) context s = .error error t := by
  simp only [Bind.bind, ReaderT.bind, EStateM.bind, failed]

theorem FailsWith.bind {first : Evaluating α} {next : α → Evaluating β}
    (fails : FailsWith context s first error) : FailsWith context s (first >>= next) error := by
  obtain ⟨after, failed⟩ := fails
  exact ⟨after, bind_of_error failed⟩

/-- What comes later fails from the state that what comes before leaves behind. -/
theorem fails_behind {first : Evaluating α} {next : α → Evaluating β} {a : α}
    (ok : first context s = .ok a t) (fails : FailsWith context t (next a) error) :
    FailsWith context s (first >>= next) error := by
  obtain ⟨after, failed⟩ := fails
  exact ⟨after, (bind_of_ok ok).trans failed⟩

theorem FailsWith.assoc {first : Evaluating α} {next : α → Evaluating β} {last : β → Evaluating γ}
    (fails : FailsWith context s (first >>= fun a => next a >>= last) error) :
    FailsWith context s (first >>= next >>= last) error := by
  rwa [bind_assoc]

theorem failsWith_silently {action : Evaluating α} :
    FailsWith context s (silently action) error ↔ FailsWith context s action error := by
  refine ⟨fun ⟨after, failed⟩ => ?_, FailsWith.bind⟩
  cases ended : action context s with
  | ok a middle =>
    simp only [silently, Bind.bind, ReaderT.bind, EStateM.bind, ended] at failed
    cases failed
  | error other middle =>
    simp only [silently, Bind.bind, ReaderT.bind, EStateM.bind, ended] at failed
    cases failed
    exact ⟨_, ended⟩

theorem fails_silently {action : Evaluating α} :
    Fails context s (silently action) ↔ Fails context s action :=
  exists_congr fun _ => failsWith_silently

theorem FailsWith.ensuring {action : Evaluating α} (fails : FailsWith context s action error)
    (restore : State → State) : FailsWith context s (ensuring restore action) error := by
  obtain ⟨after, failed⟩ := fails
  exact ⟨restore after, by simp only [Evaluation.ensuring, failed]⟩

theorem FailsWith.amending {amend : Diagnostic → Diagnostic} {action : Evaluating α}
    (fails : FailsWith context s action error) :
    FailsWith context s (amending amend action) (amend error) := by
  obtain ⟨after, failed⟩ := fails
  exact ⟨after, by simp only [Evaluation.amending, failed]⟩

theorem FailsWith.inScope {action : ScopeId → Evaluating α}
    (fails : FailsWith context (s.scoped scope) (action s.env.scopes.size) error) :
    FailsWith context s (inScope scope action) error :=
  fails.ensuring (popScope s.env.scopes.size)

theorem FailsWith.duringCall {call : Call} {action : Evaluating α}
    (fails : FailsWith context (s.entering call) action error) :
    FailsWith context s (duringCall call action) error :=
  fails.ensuring (fun state => { state with env := state.env.leaveCall })

theorem FailsWith.nested {parent : Enclosure} {body : ScopeId → Evaluating Outcome}
    (fails : FailsWith context { s.scoped scope with parent } (body s.env.scopes.size) error) :
    FailsWith context s (nested parent scope body) error := by
  refine FailsWith.bind ?_
  have inner : FailsWith context { s with parent } (Evaluation.inScope scope body) error :=
    fails.inScope
  exact inner.ensuring (fun state => { state with parent := s.parent })

theorem FailsWith.forStatement {line : Nat} {filename : Option String} {action : Evaluating α}
    (fails : FailsWith context { s with filename } action error) :
    FailsWith context s (forStatement line filename action)
      (error.locate ⟨filename, some line, none⟩) :=
  (fails.ensuring (fun state => { state with filename := s.filename })).amending

end Rules

theorem expr_call (run : Runner) (scope : ScopeId) (name : String) (args : Arguments) (line : Nat)
    (span : Span) :
    expr run scope (.mk (.call name args) line span) = (do
      let (positional, keywords) ← arguments run scope args
      call run scope name positional keywords line span) := by
  obtain ⟨positional, keywords⟩ := args
  simp only [expr, arguments, bind_assoc, pure_bind, Arguments.positional, Arguments.keywords]

theorem get_bind (next : State → Evaluating α) (context : Context) (state : State) :
    (get >>= next) context state = next state context state :=
  rfl

theorem enterImport_ok {context : Context} {s : State} {id : SourceId} {line : Nat} {span : Span}
    (fresh : id ∉ s.importStack) :
    enterImport id line span context s = .ok ()
      { s with
        importStack := s.importStack ++ [id]
        dependencies :=
          if s.dependencies.contains id then s.dependencies else s.dependencies ++ [id] } := by
  have none : s.importStack.dropWhile (· != id) = [] := by
    refine List.dropWhile_eq_nil_iff.mpr fun other member => ?_
    simpa using fun same : other = id => fresh (same ▸ member)
  unfold enterImport
  simp only [get_bind, none]
  rfl

theorem of_enterImport {context : Context} {s t : State} {id : SourceId} {line : Nat} {span : Span}
    (ok : enterImport id line span context s = .ok () t) :
    id ∉ s.importStack ∧
      t = { s with
        importStack := s.importStack ++ [id]
        dependencies :=
          if s.dependencies.contains id then s.dependencies else s.dependencies ++ [id] } := by
  have fresh : id ∉ s.importStack := by
    intro active
    cases cycle : s.importStack.dropWhile (· != id) with
    | nil => simpa using List.dropWhile_eq_nil_iff.mp cycle id active
    | cons first rest =>
      unfold enterImport at ok
      simp only [get_bind, cycle] at ok
      cases ok
  rw [enterImport_ok fresh] at ok
  cases ok
  exact ⟨fresh, rfl⟩

theorem isTruthy_ok {context : Context} {s t : State} {action : Evaluating Value} {value : Value}
    (ok : action context s = .ok value t) (holds : value.isTruthy = true) :
    (do return (← action).isTruthy : Evaluating Bool) context s = .ok true t := by
  rw [← holds]
  simp only [Bind.bind, ReaderT.bind, EStateM.bind, ok]
  rfl

theorem failsWith_included {context : Context} {s : State} {run : Runner} {scope : ScopeId}
    {name : String} {args : Arguments} {line : Nat} {span : Span} {mixin : Callable}
    {error : Diagnostic} (found : s.env.mixin? scope name = some mixin) :
    FailsWith context s (perform run scope (.included name args line span)) error ↔
      FailsWith context s (included run scope mixin args line span) error := by
  have entered : perform run scope (.included name args line span) context s =
      silently (included run scope mixin args line span) context s := by
    unfold perform
    simp only [get_bind, found]
  unfold FailsWith
  rw [entered]
  exact failsWith_silently

/-- The heading of a block is evaluated before the block. -/
theorem failsWith_heading {context : Context} {s t : State} {run : Runner} {scope : ScopeId}
    {kind : StatementKind} {children : List Statement} {line : Nat} {span : Span}
    {filename : Option String} {parent : Enclosure} {head : Evaluating Unit} {error : Diagnostic}
    (isHeading : heading? run scope ⟨line, span, filename⟩ kind = some (parent, head))
    (ok : head context s = .ok () t)
    (fails : FailsWith context { t.scoped scope with parent }
      (statements run t.env.scopes.size children) error) :
    FailsWith context s (content run scope (.mk kind children line span filename)) error := by
  have block : FailsWith context t
      (nested parent scope fun inner => statements run inner children) error := fails.nested
  cases kind with
  | rule parts =>
    cases isHeading
    obtain ⟨selector, u, found, same⟩ := bind_ok ok
    cases same
    exact fails_behind found block.bind
  | property parts value =>
    cases isHeading
    obtain ⟨word, u, found, rest⟩ := bind_ok ok
    refine fails_behind found ?_
    cases value with
    | none =>
      cases rest
      exact fails_behind rfl block.bind
    | some e =>
      obtain ⟨value, v, valueOk, rest⟩ := bind_ok rest
      obtain ⟨text, w, textOk, rest⟩ := bind_ok rest
      cases rest
      exact fails_behind valueOk (fails_behind textOk (fails_behind rfl block.bind))
  | directive word parts block =>
    cases isHeading
    obtain ⟨params, u, found, same⟩ := bind_ok ok
    cases same
    exact fails_behind found (FailsWith.bind block)
  | media parts =>
    cases isHeading
    obtain ⟨query, u, found, same⟩ := bind_ok ok
    cases same
    exact fails_behind found block.bind
  | _ => cases isHeading

/-- How an error changes on its way from what is evaluated to what it is evaluated for. -/
inductive Turn where
  | plain
  /-- Out of a statement, whose place it is given. -/
  | statement (s : Statement)
  /-- Out of an `@include` with its arguments. -/
  | including (line : Nat) (name : String) (filename : Option String)
  /-- Out of an imported stylesheet. -/
  | importing (line : Nat) (filename : Option String)
  /-- Out of the default of a parameter; nothing is added to the error. -/
  | default (callable : Callable)

/-- What is evaluated next, and for what, tells what happens to an error. -/
def Task.turn (outer inner : Task) : Turn :=
  match inner, outer with
  | .content _, .statement s => .statement s
  | .included .., .content (.mk (.includeMixin name _) _ line _ filename) =>
    .including line name filename
  | .statements _, .content (.mk (.importing _) _ line _ filename) => .importing line filename
  | .expr _, .bound callable .. => .default callable
  | _, _ => .plain

def Turn.amend : Turn → Diagnostic → Diagnostic
  | .plain, error | .default _, error => error
  | .statement s, error => error.locate ⟨s.filename, some s.line, none⟩
  | .including line name filename, error =>
    (error.locate ⟨none, some line, some name⟩).addFrame ⟨filename, some line, none⟩
  | .importing line filename, error => error.addFrame ⟨filename, some line, none⟩

/-- No import has a block. -/
theorem turn_of_heading {run : Runner} {scope : ScopeId} {place : Place} {kind : StatementKind}
    {inner : Enclosure} {head : Evaluating Unit} {children body : List Statement} {line : Nat}
    {span : Span} {filename : Option String}
    (isHeading : heading? run scope place kind = some (inner, head)) :
    Task.turn (.content (.mk kind children line span filename)) (.statements body) = .plain := by
  cases kind with
  | importing => cases isHeading
  | _ => rfl

/-- What is evaluated inside of something fails with it, and its error is completed on the way. -/
theorem Step.failsWith {context : Context} {p q : Point} {error : Diagnostic}
    (step : Step context p q) (fails : q.FailsWith context error) :
    p.FailsWith context ((p.task.turn q.task).amend error) := by
  cases step with
  | text =>
    exact failsWith_silently.mpr (failsWith_silently.mp fails).bind
  | before =>
    exact failsWith_silently.mpr (failsWith_silently.mp fails).bind.bind
  | middle ok =>
    refine failsWith_silently.mpr (fails_behind ok ?_)
    exact (failsWith_silently.mp fails).bind
  | behind ok middleOk textOk =>
    refine failsWith_silently.mpr (fails_behind ok (fails_behind middleOk (fails_behind textOk ?_)))
    exact (failsWith_silently.mp fails).bind.bind
  | items => exact failsWith_silently.mpr (failsWith_silently.mp fails).bind
  | left => exact failsWith_silently.mpr (failsWith_silently.mp fails).bind
  | right ok needed => 
    refine failsWith_silently.mpr (fails_behind ok ?_)
    rw [if_neg (by simp [needed])]
    exact (failsWith_silently.mp fails).bind
  | operand => exact failsWith_silently.mpr (failsWith_silently.mp fails).bind
  | paren => exact failsWith_silently.mpr (failsWith_silently.mp fails).bind
  | callArguments =>
    refine failsWith_silently.mpr ?_
    rw [expr_call]
    exact (failsWith_silently.mp fails).bind
  | called ok found allowed =>
    refine failsWith_silently.mpr ?_
    rw [expr_call]
    refine fails_behind ok (fails_behind rfl ?_)
    simp only [found]
    refine fails_behind allowed (fails_behind rfl ?_)
    exact (failsWith_silently.mp fails).duringCall.bind
  | head => exact failsWith_silently.mpr (failsWith_silently.mp fails).bind
  | tail ok => exact failsWith_silently.mpr (fails_behind ok (failsWith_silently.mp fails).bind)
  | namedHead => exact failsWith_silently.mpr (failsWith_silently.mp fails).bind
  | namedTail ok => exact failsWith_silently.mpr (fails_behind ok (failsWith_silently.mp fails).bind)
  | part => exact failsWith_silently.mpr (failsWith_silently.mp fails).bind
  | behindPart ok textOk =>
    refine failsWith_silently.mpr (fails_behind ok (fails_behind textOk ?_))
    exact (failsWith_silently.mp fails).bind
  | behindText => exact failsWith_silently.mpr (failsWith_silently.mp fails).bind
  | positional => exact failsWith_silently.mpr (failsWith_silently.mp fails).bind
  | keywords ok => exact failsWith_silently.mpr (fails_behind ok (failsWith_silently.mp fails).bind)
  | first => exact failsWith_silently.mpr (failsWith_silently.mp fails).bind
  | next ok goesOn =>
    refine failsWith_silently.mpr (fails_behind ok ?_)
    simp only [goesOn]
    exact (failsWith_silently.mp fails).bind
  | content => 
    refine failsWith_silently.mpr ?_
    rw [statement_eq]
    exact (failsWith_silently.mp fails).forStatement
  | root => exact failsWith_silently.mpr (failsWith_silently.mp fails)
  | @startTemplate _ _ _ kind _ _ _ _ _ starts =>
    refine failsWith_silently.mpr ?_
    have start := failsWith_silently.mp fails
    cases kind with
    | rule | property | directive | media | extend =>
      cases starts
      exact start.bind.bind
    | comment parts silent => 
      cases silent with
      | true => cases starts
      | false =>
        cases starts
        exact start.bind
    | importing target =>
      cases target with
      | stylesheet => cases starts
      | css => 
        cases starts
        exact start.bind.bind
    | _ => cases starts
  | @startExpr _ _ _ kind _ _ _ _ _ starts =>
    refine failsWith_silently.mpr ?_
    have start := failsWith_silently.mp fails
    cases kind with
    | branch condition otherwise =>
      cases starts
      exact start.bind.bind
    | returning | loopCount | loopEach | debug | warn =>
      cases starts
      exact start.bind
    | _ => cases starts
  | propertyValue ok =>
    refine failsWith_silently.mpr (fails_behind ok ?_)
    exact (failsWith_silently.mp fails).bind
  | assigned free =>
    refine failsWith_silently.mpr (FailsWith.bind (fails_behind rfl ?_))
    rw [if_neg (by simp [free])]
    exact (failsWith_silently.mp fails).bind
  | block isHeading ok =>
    rw [turn_of_heading isHeading]
    exact failsWith_silently.mpr (failsWith_heading isHeading ok (failsWith_silently.mp fails))
  | taken ok =>
    refine failsWith_silently.mpr (fails_behind ok ?_)
    exact (failsWith_silently.mp fails).inScope
  | otherwise ok =>
    refine failsWith_silently.mpr (fails_behind ok ?_)
    exact (failsWith_silently.mp fails)
  | loopWhile =>
    refine failsWith_silently.mpr (fails_behind rfl ?_)
    exact (failsWith_silently.mp fails).inScope
  | loopStop ok whole =>
    refine failsWith_silently.mpr (fails_behind ok (fails_behind whole ?_))
    exact (failsWith_silently.mp fails).bind
  | loopCount ok =>
    refine failsWith_silently.mpr ?_
    change FailsWith _ _ (Evaluation.loopCount _ _ _ _ _ _ _ _ _) _
    rw [loopCount_eq]
    refine fails_behind ok ?_
    exact (failsWith_silently.mp fails).inScope
  | loopEach ok few =>
    refine failsWith_silently.mpr (fails_behind ok (fails_behind rfl ?_))
    rw [if_neg (Nat.not_lt_of_le few)]
    exact (failsWith_silently.mp fails).inScope
  | @whileTest _ _ _ _ _ _ _ remaining =>
    refine failsWith_silently.mpr ?_
    cases remaining with
    | zero => exact (failsWith_silently.mp fails).bind.bind
    | succ remaining => exact (failsWith_silently.mp fails).bind.bind
  | whileBody ok holds =>
    have test : (do return (← expr _ _ _).isTruthy : Evaluating Bool) context _ = .ok true _ :=
      isTruthy_ok ok holds
    refine failsWith_silently.mpr (fails_behind test ?_)
    exact (failsWith_silently.mp fails).bind
  | whileNext ok holds bodyOk goesOn =>
    refine failsWith_silently.mpr (fails_behind (isTruthy_ok ok holds) (fails_behind bodyOk ?_))
    simp only [goesOn]
    exact failsWith_silently.mp fails
  | countBody =>
    refine failsWith_silently.mpr (FailsWith.bind (fails_behind rfl ?_))
    exact failsWith_silently.mp fails
  | countNext ok goesOn =>
    refine failsWith_silently.mpr (fails_behind ok ?_)
    simp only [goesOn]
    exact failsWith_silently.mp fails
  | eachBody =>
    refine failsWith_silently.mpr (FailsWith.bind (fails_behind rfl ?_))
    exact failsWith_silently.mp fails
  | eachNext ok goesOn =>
    refine failsWith_silently.mpr (fails_behind ok ?_)
    simp only [goesOn]
    exact failsWith_silently.mp fails
  | @including _ scope s name _ _ line _ filename mixin noLoop found allowed =>
    let call : Call := ⟨.mixin, name, line, filename⟩
    refine failsWith_silently.mpr (fails_behind rfl ?_)
    simp only [noLoop, found]
    refine fails_behind allowed (FailsWith.amending (FailsWith.duringCall ?_))
    have still : (s.entering call).env.mixin? scope name = some mixin :=
      (Environment.lookup_enterCall call scope name).trans found
    exact (failsWith_included still).mp fails
  | includedArguments found => exact (failsWith_included found).mpr (failsWith_silently.mp fails).bind
  | included found ok =>
    refine (failsWith_included found).mpr (fails_behind ok ?_)
    exact (failsWith_silently.mp fails).bind
  | applied fits =>
    refine failsWith_silently.mpr ?_
    unfold withArguments
    simp only [fits]
    exact (failsWith_silently.mp fails).inScope
  | boundValue =>
    refine failsWith_silently.mpr (FailsWith.assoc (fails_behind rfl ?_))
    exact failsWith_silently.mp fails
  | boundKeyword isNamed =>
    refine failsWith_silently.mpr ?_
    unfold bindParams
    simp only [isNamed]
    exact FailsWith.assoc (fails_behind rfl (failsWith_silently.mp fails))
  | default unnamed isDefault =>
    refine failsWith_silently.mpr ?_
    unfold bindParams
    simp only [unnamed, isDefault]
    exact (failsWith_silently.mp fails).bind.bind
  | boundDefault unnamed isDefault ok =>
    refine failsWith_silently.mpr ?_
    unfold bindParams
    simp only [unnamed, isDefault]
    refine FailsWith.assoc (fails_behind ok (FailsWith.assoc (fails_behind rfl ?_)))
    exact failsWith_silently.mp fails
  | body => exact failsWith_silently.mpr (fails_behind rfl (failsWith_silently.mp fails))
  | @importing d scope s log uri _ _ _ _ id source dependencies root found fresh isDependencies
      parsed accepted =>
    refine failsWith_silently.mpr ?_
    change FailsWith _ _ (importStylesheet _ _ _ _ _ _) _
    unfold importStylesheet
    refine fails_behind rfl (fails_behind rfl ?_)
    simp only [found]
    refine fails_behind rfl ?_
    refine fails_behind (enterImport_ok fresh) (FailsWith.amending (FailsWith.ensuring ?_ _))
    refine fails_behind rfl ?_
    simp only [parsed]
    refine fails_behind rfl (fails_behind rfl ?_)
    simp only [accepted]
    subst isDependencies
    refine fails_behind rfl ?_
    have inner := (failsWith_silently.mp fails)
    exact (inner.ensuring (fun state => { state with file := s.file })).bind

theorem Step.fails {context : Context} {p q : Point} (step : Step context p q)
    (fails : q.Fails context) : p.Fails context := by
  obtain ⟨error, failed⟩ := fails
  exact ⟨_, step.failsWith failed⟩

/-- The whole evaluation fails as its statements do. -/
theorem failsWith_stylesheet {context : Context} {source : String} {entry : Option SourceId}
    {root : Statement} {error : Diagnostic}
    (fails : (Point.start context source entry root).FailsWith context error) :
    Evaluation.FailsWith context (Compilation.start context.options source entry)
      (stylesheet root) error :=
  fails_behind rfl (failsWith_silently.mp fails).bind

/-- The whole evaluation fails with anything that comes to be evaluated for it. -/
theorem Reached.fails {context : Context} {source : String} {entry : Option SourceId}
    {root : Statement} {p : Point} (reached : Reached context source entry root p)
    (fails : p.Fails context) :
    Evaluation.Fails context (Compilation.start context.options source entry) (stylesheet root) := by
  induction reached with
  | refl =>
    obtain ⟨error, failed⟩ := fails
    exact ⟨error, failsWith_stylesheet failed⟩
  | tail _ step ih => exact ih (step.fails fails)

end Stylesheet.Evaluation
