import Stylesheet.Proofs.Evaluation.Checked
import Stylesheet.Proofs.Evaluation.Origin
import Stylesheet.Proofs.Statement.Filenames

/-! The file that an error names. An expression or a call fails with a line and without a file; the
file comes from what is around. The first statement around that has a file gives it, unless an
`@include` or an import comes first and closes the frame. For most expressions that statement is the
one they stand in. The arguments of an `@include` get no file, and the default of a parameter gets
the file of the statement that makes the call. -/

namespace Stylesheet

namespace Diagnostic

/-- The file that an error names in the end, where `around` is the file that comes to be added to
its outermost frame. It is the innermost frame that counts. -/
def fileUnder (d : Diagnostic) (around : Option String) : Option String :=
  match d.trace with
  | [] => around
  | [frame] => frame.filename <|> around
  | frame :: _ => frame.filename

variable (d : Diagnostic) (frame : Frame) (around : Option String)

theorem fileUnder_none : d.fileUnder none = d.filename := by
  obtain ⟨severity, fault, message, labels, help, trace⟩ := d
  match trace with
  | [] => rfl
  | [first] =>
    change (first.filename <|> none) = first.filename
    simp
  | first :: second :: rest => rfl

theorem fileUnder_locate :
    (d.locate frame).fileUnder around = d.fileUnder (frame.filename <|> around) := by
  unfold locate
  split
  · next unknown =>
    have unnamed : frame.filename = none := by
      simp only [Frame.isUnknown, Bool.and_eq_true, Option.isNone_iff_eq_none] at unknown
      exact unknown.1.1
    rw [unnamed]
    rfl
  · obtain ⟨severity, fault, message, labels, help, trace⟩ := d
    match trace with
    | [] => rfl
    | [first] =>
      change ((first.filename <|> frame.filename) <|> around) =
        (first.filename <|> (frame.filename <|> around))
      cases first.filename <;> rfl
    | [first, second] => rfl
    | first :: second :: third :: rest => rfl

theorem fileUnder_addFrame : (d.addFrame frame).fileUnder around = d.fileUnder none := by
  rw [fileUnder_none]
  obtain ⟨severity, fault, message, labels, help, trace⟩ := d
  match trace with
  | [] => rfl
  | [first] => rfl
  | first :: second :: rest => rfl

theorem line_locate {line : Nat} (known : d.line = some line) :
    (d.locate frame).line = some line := by
  unfold locate
  split
  · exact known
  · obtain ⟨severity, fault, message, labels, help, trace⟩ := d
    match trace with
    | [first] =>
      change (first.line <|> frame.line) = some line
      have isLine : first.line = some line := known
      rw [isLine]
      rfl
    | [first, second] => exact known
    | first :: second :: third :: rest => exact known

theorem line_addFrame {line : Nat} (known : d.line = some line) :
    (d.addFrame frame).line = some line := by
  obtain ⟨severity, fault, message, labels, help, trace⟩ := d
  cases trace with
  | nil => cases known
  | cons first rest => exact known

end Diagnostic

namespace Evaluation

section Files

variable {context : Context} {file : Option String} {s : Statement}

/-- All statements name the file that they are written in. -/
theorem StandsIn.filename {source : String} {root : Statement}
    (parsed : Statement.parse source context.options.dialect context.options.filename = .ok root)
    (stands : StandsIn context root.children file s) : s.filename = file := by
  suffices named : ∃ raw : Statement, s = raw.withFilename file by
    obtain ⟨raw, rfl⟩ := named
    exact raw.filename_withFilename file
  induction stands with
  | top member => exact Statement.exists_of_parse parsed member
  | imported _ _ _ parsed member => exact Statement.exists_of_parse parsed member
  | child _ member ih =>
    obtain ⟨raw, rfl⟩ := ih
    rw [Statement.children_withFilename] at member
    obtain ⟨raw, -, same⟩ := Statement.exists_of_mem_withFilenames member
    exact ⟨raw, same⟩
  | otherwise _ kind ih =>
    obtain ⟨⟨own, children, line, span, old⟩, rfl⟩ := ih
    cases own with
    | branch condition other =>
      rw [Statement.withFilename_branch] at kind
      obtain ⟨-, isOther⟩ := StatementKind.branch.inj kind
      obtain ⟨raw, -, rfl⟩ := Option.map_eq_some_iff.mp isOther
      exact ⟨raw, rfl⟩
    | _ =>
      rw [Statement.withFilename_of_not_branch (by simp)] at kind
      cases kind

end Files

/-- Where something is evaluated. -/
structure Trail where
  /-- The file that it is written in. -/
  home : Option String
  /-- The file that an error is given that has none. -/
  named : Option String
  /-- It is a statement or belongs to one, and not to an `@include` or a parameter. -/
  direct : Bool

/-- How what is evaluated next is written elsewhere, and how its errors are completed. -/
inductive Turn.Leads (context : Context) (entry : List Statement) : Turn → Trail → Trail → Prop where
  | plain : Leads context entry .plain trail trail
  | statement (stands : StandsIn context entry file s) :
      Leads context entry (.statement s) trail ⟨file, file <|> trail.named, true⟩
  | including : Leads context entry (.including line name filename) trail ⟨trail.home, none, false⟩
  | importing : Leads context entry (.importing line filename) trail ⟨trail.home, none, false⟩
  /-- A default is written where its mixin or function is defined. -/
  | default (stands : StandsIn context entry file d) (defines : Defines d callable) :
      Leads context entry (.default callable) trail ⟨file, trail.named, false⟩

/-- What comes to be evaluated for a stylesheet, with the trail to it. -/
inductive Traced (context : Context) (source : String) (entry : Option SourceId) (root : Statement) :
    Trail → Point → Prop where
  | start : Traced context source entry root ⟨context.options.filename, none, false⟩
      (Point.start context source entry root)
  | step {inner : Trail} (traced : Traced context source entry root trail p)
      (step : Step context p q)
      (leads : (p.task.turn q.task).Leads context root.children trail inner) :
      Traced context source entry root inner q

section Trails

variable {context : Context} {source : String} {entry : Option SourceId} {root : Statement}
  {trail inner : Trail} {p q : Point} {turn : Turn} {error : Diagnostic}

theorem Turn.Leads.fileUnder_amend
    (parsed : Statement.parse source context.options.dialect context.options.filename = .ok root)
    (leads : turn.Leads context root.children trail inner) :
    (turn.amend error).fileUnder trail.named = error.fileUnder inner.named := by
  cases leads with
  | plain | default => rfl
  | @statement file s _ stands =>
    have named := stands.filename parsed
    simp only [Turn.amend, Diagnostic.fileUnder_locate, named]
  | including =>
    simp only [Turn.amend, Diagnostic.fileUnder_addFrame, Diagnostic.fileUnder_locate]
    rfl
  | importing => exact error.fileUnder_addFrame _ _

theorem Turn.line_amend {line : Nat} (known : error.line = some line) :
    (turn.amend error).line = some line := by
  cases turn with
  | plain | default => exact known
  | statement => exact error.line_locate _ known
  | including => exact Diagnostic.line_addFrame _ _ (error.line_locate _ known)
  | importing => exact error.line_addFrame _ known

theorem Traced.reached (traced : Traced context source entry root trail p) :
    Reached context source entry root p := by
  induction traced with
  | start => exact .refl
  | step _ step _ ih => exact ih.tail step

/-- Everything that comes to be evaluated for a stylesheet that was checked is written somewhere. -/
theorem exists_leads {checked : Enclosure} (isChecked : p.IsChecked context root.children checked)
    (q : Point) (trail : Trail) :
    ∃ inner, (p.task.turn q.task).Leads context root.children trail inner := by
  have task := isChecked.task
  unfold Task.turn
  split
  · next s _ isStatement =>
    rw [isStatement] at task
    obtain ⟨direct, allowed⟩ := task
    obtain ⟨file, stands⟩ := allowed.written
    exact ⟨_, .statement stands⟩
  · exact ⟨_, .including⟩
  · exact ⟨_, .importing⟩
  · next callable _ _ _ _ _ _ isBound =>
    rw [isBound] at task
    obtain ⟨file, d, stands, defines⟩ := task.1.written
    exact ⟨_, .default stands defines⟩
  · exact ⟨_, .plain⟩

/-- What belongs to a statement of a file gets the name of that file. -/
theorem Traced.named_eq_home (traced : Traced context source entry root trail p) :
    trail.direct = true → trail.home.isSome = true → trail.named = trail.home := by
  induction traced with
  | start => exact nofun
  | step _ _ leads ih =>
    generalize Task.turn _ _ = turn at leads
    cases leads with
    | plain => exact ih
    | @statement file =>
      intro _ isFile
      cases file with
      | none => cases isFile
      | some name => rfl
    | including | importing | default => exact nofun

/-- The whole evaluation fails with the error of a point, completed on the way. -/
theorem Traced.failsWith
    (parsed : Statement.parse source context.options.dialect context.options.filename = .ok root)
    (traced : Traced context source entry root trail p) (failed : p.FailsWith context error) :
    ∃ whole,
      FailsWith context (Compilation.start context.options source entry) (stylesheet root) whole ∧
      whole.filename = error.fileUnder trail.named ∧
      ∀ line, error.line = some line → whole.line = some line := by
  induction traced generalizing error with
  | start =>
    exact ⟨error, failsWith_stylesheet failed, error.fileUnder_none.symm, fun _ known => known⟩
  | step _ step leads ih =>
    obtain ⟨whole, fails, file, lines⟩ := ih (step.failsWith failed)
    refine ⟨whole, fails, file.trans (leads.fileUnder_amend parsed), fun line known => ?_⟩
    exact lines line (Turn.line_amend known)

/-- Where a point fails by itself, at an expression or a call, the whole evaluation fails with a line
of that, and with the file that the trail names. -/
theorem Traced.error_of_origin {lines : List Nat}
    (parsed : Statement.parse source context.options.dialect context.options.filename = .ok root)
    (traced : Traced context source entry root trail p) (origin : p.FailsItself context)
    (about : p.task.lines? = some lines) :
    ∃ whole after, stylesheet root context (Compilation.start context.options source entry) =
        .error whole after ∧
      (∃ line ∈ lines, whole.line = some line) ∧ whole.filename = trail.named := by
  obtain ⟨own, failed⟩ := origin.fails
  obtain ⟨line, member, isAt⟩ := origin.trace traced.reached.isAt about failed
  obtain ⟨whole, ⟨after, fails⟩, file, lined⟩ := traced.failsWith parsed failed
  refine ⟨whole, after, fails, ⟨line, member, lined line ?_⟩, ?_⟩
  · cases own
    cases isAt
    rfl
  · rw [file, Diagnostic.fileUnder, isAt]
    rfl

/-- What is traced has a trace to what is evaluated for it. -/
theorem Traced.extend (parsed : Statement.AllParsed root.children)
    (accepted : Nesting.check root = .ok ()) (traced : Traced context source entry root trail p)
    (course : Relation.ReflTransGen (Step context) p q) :
    ∃ inner, Traced context source entry root inner q := by
  induction course with
  | refl => exact ⟨trail, traced⟩
  | tail _ step ih =>
    obtain ⟨middle, traced⟩ := ih
    obtain ⟨checked, isChecked⟩ := traced.reached.isChecked parsed accepted
    obtain ⟨inner, leads⟩ := exists_leads isChecked _ middle
    exact ⟨inner, traced.step step leads⟩

end Trails

/-- A compilation whose evaluation fails gives the error of the evaluation. This comes from a point
that fails by itself. If that is at an expression or a call, the innermost frame of the error has a
line of it, and the file that the trail to it names. It is the file that it is written in, if it
belongs to a statement of a file and not to an `@include` or to a parameter. -/
theorem error_names_file (context : Context) (source : String) (entry : Option SourceId)
    {root : Statement}
    (parsed : Statement.parse source context.options.dialect context.options.filename = .ok root)
    (accepted : Nesting.check root = .ok ()) {error : Diagnostic} {after : State}
    (failed : stylesheet root context (Compilation.start context.options source entry) =
      .error error after) :
    (Compilation.run context source entry).1 = .error (Compilation.withSource after source error) ∧
      (∃ trail p, Traced context source entry root trail p ∧ p.FailsItself context) ∧
      ∀ trail p lines, Traced context source entry root trail p → p.FailsItself context →
        p.task.lines? = some lines →
        (∃ line ∈ lines, error.line = some line) ∧ error.filename = trail.named ∧
          (trail.direct = true → trail.home.isSome = true → error.filename = trail.home) := by
  refine ⟨?compiled, ?origin, ?places⟩
  case compiled => simp only [Compilation.run, parsed, accepted, failed]
  case origin =>
    have statementsFail : (Point.start context source entry root).Fails context := by
      rcases FailsWith.of_bind ⟨after, failed⟩ with early | ⟨_, _, got, late⟩
      · obtain ⟨_, never⟩ := early
        cases never
      · cases got
        exact ⟨error, failsWith_silently.mpr (FailsWith.of_map late)⟩
    obtain ⟨p, course, origin⟩ := Point.Fails.origin statementsFail
    obtain ⟨trail, traced⟩ :=
      Traced.start.extend (Statement.parse_allParsed parsed) accepted course
    exact ⟨trail, p, traced, origin⟩
  case places =>
    intro trail p lines traced origin about
    obtain ⟨whole, _, again, lined, named⟩ := traced.error_of_origin parsed origin about
    cases failed.symm.trans again
    exact ⟨lined, named, fun direct isFile => named.trans (traced.named_eq_home direct isFile)⟩

section Imported

/-- A stylesheet that imports another one. -/
def importingText : String := "@import \"b\";"

/-- The other stylesheet is in memory. -/
def beside (text : String) : Context :=
  ⟨{ Options.default with dialect := .scss, filename := some "main.scss" }, .empty,
    [.memory [("_b.scss", text)] 0]⟩

def importStatement (span : Span) : Statement :=
  .mk (.importing (.stylesheet "b")) [] 1 span (some "main.scss")

def importingRoot (span stop : Span) : Statement :=
  .mk .root [importStatement span] 1 stop (some "main.scss")

def starting (text : String) : State :=
  Compilation.start (beside text).options importingText none

/-- The other stylesheet was found. -/
def entered (text : String) : State :=
  { starting text with
    importStack := [⟨0, "_b.scss"⟩]
    dependencies := [⟨0, "_b.scss"⟩]
    sources := (starting text).sources.insert "_b.scss" text
    file := some ⟨0, "_b.scss"⟩ }

variable {text : String} {root s : Statement} {span stop : Span}

/-- Whether only the import is read. -/
def isImporting : Except ε Statement → Bool
  | .ok (.mk .root [.mk (.importing (.stylesheet "b")) [] 1 _ (some "main.scss")] 1 _
      (some "main.scss")) => true
  | _ => false

theorem exists_importing (text : String) :
    ∃ span stop, Statement.parse importingText (beside text).options.dialect
      (beside text).options.filename = .ok (importingRoot span stop) := by
  have check : isImporting (Statement.parse importingText .scss (some "main.scss")) = true := by
    decide +kernel
  unfold isImporting at check
  split at check
  · next span stop read => exact ⟨span, stop, read⟩
  · cases check

theorem accepted_importing (span stop : Span) :
    Nesting.check (importingRoot span stop) = .ok () :=
  rfl

theorem resolve_beside (text : String) :
    Importers.resolve (beside text).files (beside text).importers "b" none =
      (.ok (some (⟨0, "_b.scss"⟩, ⟨text, .scss, "_b.scss"⟩)), []) := by
  with_unfolding_all rfl

/-- The evaluation comes to the statements of the other stylesheet. -/
theorem traced_imported (parsed : Statement.parse text .scss (some "_b.scss") = .ok root)
    (accepted : Nesting.checkImported .root root.children = .ok ()) :
    Traced (beside text) importingText none (importingRoot span stop) ⟨some "main.scss", none, false⟩
      ⟨65, Environment.global, .statements root.children, entered text⟩ := by
  have first : Traced (beside text) importingText none (importingRoot span stop)
      ⟨some "main.scss", none, false⟩
      ⟨66, Environment.global, .statement (importStatement span), starting text⟩ :=
    .step .start .first .plain
  have content : Traced (beside text) importingText none (importingRoot span stop)
      ⟨some "main.scss", some "main.scss", true⟩
      ⟨66, Environment.global, .content (importStatement span), starting text⟩ :=
    .step first .content (.statement (.top List.mem_cons_self))
  have step : Step (beside text)
      ⟨66, Environment.global, .content (importStatement span), starting text⟩
      ⟨65, Environment.global, .statements root.children, entered text⟩ :=
    @Step.importing (beside text) 65 Environment.global (starting text) [] "b" [] 1 span
      (some "main.scss") ⟨0, "_b.scss"⟩ ⟨text, .scss, "_b.scss"⟩ _ root (resolve_beside text)
      List.not_mem_nil rfl parsed accepted
  exact .step content step .importing

theorem standsIn_imported (parsed : Statement.parse text .scss (some "_b.scss") = .ok root)
    (member : s ∈ root.children) :
    StandsIn (beside text) (importingRoot span stop).children (some "_b.scss") s := by
  have found : (Importers.resolve (beside text).files (beside text).importers "b" none).1 =
      .ok (some (⟨0, "_b.scss"⟩, ⟨text, .scss, "_b.scss"⟩)) := by
    rw [resolve_beside]
  have imports : StandsIn (beside text) (importingRoot span stop).children (some "main.scss")
      (importStatement span) := .top List.mem_cons_self
  exact imports.imported rfl found parsed member

/-- A variable is assigned a value that is not defined. -/
def assigningText : String := "$x: $y;"

def assigning (span inner : Span) : Statement :=
  .mk (.assign "x" (.mk (.variable "y") 1 inner) false) [] 1 span (some "_b.scss")

/-- Whether only the assignment is read. -/
def isAssigning : Except ε Statement → Bool
  | .ok (.mk .root [.mk (.assign "x" (.mk (.variable "y") 1 _) false) [] 1 _ (some "_b.scss")]
      1 _ (some "_b.scss")) => true
  | _ => false

theorem exists_assigning :
    ∃ own inner last, Statement.parse assigningText .scss (some "_b.scss") =
      .ok (.mk .root [assigning own inner] 1 last (some "_b.scss")) := by
  have check : isAssigning (Statement.parse assigningText .scss (some "_b.scss")) = true := by
    decide +kernel
  unfold isAssigning at check
  split at check
  · next inner own last read => exact ⟨own, inner, last, read⟩
  · cases check

theorem traced_assigning {own inner last : Span}
    (parsed : Statement.parse assigningText .scss (some "_b.scss") =
      .ok (.mk .root [assigning own inner] 1 last (some "_b.scss"))) :
    ∃ s, Traced (beside assigningText) importingText none (importingRoot span stop)
        ⟨some "_b.scss", some "_b.scss", true⟩ ⟨65, 0, .expr (.mk (.variable "y") 1 inner), s⟩ ∧
      s.env.valueOf? 0 "y" = none := by
  have imported : Traced (beside assigningText) importingText none (importingRoot span stop)
      ⟨some "main.scss", none, false⟩
      ⟨65, 0, .statements [assigning own inner], entered assigningText⟩ :=
    traced_imported parsed rfl
  have first : Traced (beside assigningText) importingText none (importingRoot span stop)
      ⟨some "main.scss", none, false⟩
      ⟨65, 0, .statement (assigning own inner), entered assigningText⟩ :=
    .step imported .first .plain
  have content := first.step .content (.statement (standsIn_imported parsed List.mem_cons_self))
  exact ⟨_, content.step (.assigned rfl) .plain, by with_unfolding_all rfl⟩

theorem error_names_file_of_assigning :
    ∃ root error after trail p,
      Statement.parse importingText (beside assigningText).options.dialect
        (beside assigningText).options.filename = .ok root ∧
      Nesting.check root = .ok () ∧
      stylesheet root (beside assigningText) (starting assigningText) = .error error after ∧
      Traced (beside assigningText) importingText none root trail p ∧
      p.FailsItself (beside assigningText) ∧ p.task.lines? = some [1] ∧
      trail.home = some "_b.scss" ∧ error.line = some 1 ∧ error.filename = some "_b.scss" := by
  obtain ⟨span, stop, parsed⟩ := exists_importing assigningText
  obtain ⟨own, inner, last, read⟩ := exists_assigning
  obtain ⟨s, traced, missing⟩ := traced_assigning read
  have origin : Point.FailsItself (beside assigningText)
      ⟨65, 0, .expr (.mk (.variable "y") 1 inner), s⟩ := failsItself_undefined missing
  obtain ⟨error, after, failed⟩ := traced.reached.fails origin.fails
  have accepted := accepted_importing span stop
  obtain ⟨-, -, places⟩ :=
    error_names_file (beside assigningText) importingText none parsed accepted failed
  obtain ⟨⟨line, member, isLine⟩, -, atHome⟩ := places _ _ _ traced origin rfl
  cases List.mem_singleton.mp member
  exact ⟨_, error, after, _, _, parsed, accepted, failed, traced, origin, rfl, rfl, isLine,
    atHome rfl rfl⟩

/-- The argument of an `@include` is not defined. -/
def argumentText : String := "@mixin m($x) \x7b\x7d\n@include m($y);"

def emptyMixin : Callable := ⟨.mixin, "m", [⟨"x", none⟩], 0, []⟩

def defining (span : Span) : Statement :=
  .mk (.defineMixin "m" [⟨"x", none⟩]) [] 1 span (some "_b.scss")

def argument (span : Span) : Expr := .mk (.variable "y") 2 span

def including (span inner : Span) : Statement :=
  .mk (.includeMixin "m" (.mk [argument inner] [])) [] 2 span (some "_b.scss")

/-- The mixin is defined. -/
def definedMixin : State :=
  { entered argumentText with env := (entered argumentText).env.define 0 emptyMixin }

/-- The mixin is included. -/
def activeMixin : State :=
  { definedMixin with filename := some "_b.scss" }.entering ⟨.mixin, "m", 2, some "_b.scss"⟩

/-- Whether the definition of the mixin is read, and behind it the call of it. -/
def isIncluding : Except ε Statement → Bool
  | .ok (.mk .root [.mk (.defineMixin "m" [⟨"x", none⟩]) [] 1 _ (some "_b.scss"),
      .mk (.includeMixin "m" (.mk [.mk (.variable "y") 2 _] [])) [] 2 _ (some "_b.scss")]
      1 _ (some "_b.scss")) => true
  | _ => false

theorem exists_argument :
    ∃ first own inner last, Statement.parse argumentText .scss (some "_b.scss") =
      .ok (.mk .root [defining first, including own inner] 1 last (some "_b.scss")) := by
  have check : isIncluding (Statement.parse argumentText .scss (some "_b.scss")) = true := by
    rw [Statement.parse_of_toList
      (show argumentText.toList = _ from String.toList_ofList)]
    decide +kernel
  unfold isIncluding at check
  split at check
  · next first inner own last read => exact ⟨first, own, inner, last, read⟩
  · cases check

theorem traced_argument {first own inner last : Span}
    (parsed : Statement.parse argumentText .scss (some "_b.scss") =
      .ok (.mk .root [defining first, including own inner] 1 last (some "_b.scss"))) :
    ∃ s, Traced (beside argumentText) importingText none (importingRoot span stop)
        ⟨some "_b.scss", none, false⟩ ⟨65, 0, .expr (argument inner), s⟩ ∧
      s.env.valueOf? 0 "y" = none := by
  have imported : Traced (beside argumentText) importingText none (importingRoot span stop)
      ⟨some "main.scss", none, false⟩
      ⟨65, 0, .statements [defining first, including own inner], entered argumentText⟩ :=
    traced_imported parsed rfl
  have next : Traced (beside argumentText) importingText none (importingRoot span stop)
      ⟨some "main.scss", none, false⟩ ⟨65, 0, .statements [including own inner], definedMixin⟩ :=
    .step imported (.next (by rfl : _ = EStateM.Result.ok Outcome.nothing definedMixin) rfl) .plain
  have statement : Traced (beside argumentText) importingText none (importingRoot span stop)
      ⟨some "main.scss", none, false⟩ ⟨65, 0, .statement (including own inner), definedMixin⟩ :=
    .step next .first .plain
  have content := statement.step .content
    (.statement (standsIn_imported parsed (List.mem_cons_of_mem _ List.mem_cons_self)))
  have found : definedMixin.env.mixin? 0 "m" = some emptyMixin := by with_unfolding_all rfl
  have still : activeMixin.env.mixin? 0 "m" = some emptyMixin := by with_unfolding_all rfl
  have included : Traced (beside argumentText) importingText none (importingRoot span stop)
      ⟨some "_b.scss", none, false⟩
      ⟨65, 0, .included "m" (.mk [argument inner] []) 2 own, activeMixin⟩ :=
    .step content (.including (by with_unfolding_all rfl) found (by with_unfolding_all rfl))
      .including
  have arguments : Traced (beside argumentText) importingText none (importingRoot span stop)
      ⟨some "_b.scss", none, false⟩ ⟨65, 0, .arguments (.mk [argument inner] []), activeMixin⟩ :=
    .step included (.includedArguments still) .plain
  have items : Traced (beside argumentText) importingText none (importingRoot span stop)
      ⟨some "_b.scss", none, false⟩ ⟨65, 0, .exprs [argument inner], activeMixin⟩ :=
    .step arguments .positional .plain
  exact ⟨activeMixin, .step items .head .plain, by with_unfolding_all rfl⟩

/-- The error of an argument names no file, and it comes with the text of a file that the argument
is not written in. -/
theorem argument_in_no_file :
    ∃ root error after trail p,
      Statement.parse importingText (beside argumentText).options.dialect
        (beside argumentText).options.filename = .ok root ∧
      Nesting.check root = .ok () ∧
      stylesheet root (beside argumentText) (starting argumentText) = .error error after ∧
      Traced (beside argumentText) importingText none root trail p ∧
      p.FailsItself (beside argumentText) ∧ p.task.lines? = some [2] ∧
      trail.home = some "_b.scss" ∧ error.line = some 2 ∧ error.filename = none ∧
      (Compilation.run (beside argumentText) importingText none).1 =
        .error (.stylesheet [error] importingText) := by
  obtain ⟨span, stop, parsed⟩ := exists_importing argumentText
  obtain ⟨first, own, inner, last, read⟩ := exists_argument
  obtain ⟨s, traced, missing⟩ := traced_argument read
  have origin : Point.FailsItself (beside argumentText) ⟨65, 0, .expr (argument inner), s⟩ :=
    failsItself_undefined missing
  obtain ⟨error, after, failed, ⟨line, member, isLine⟩, named⟩ :=
    traced.error_of_origin parsed origin rfl
  cases List.mem_singleton.mp member
  have accepted := accepted_importing span stop
  refine ⟨_, error, after, _, _, parsed, accepted, failed, traced, origin, rfl, rfl, isLine, named,
    ?_⟩
  rw [Compilation.run, parsed]
  simp only [accepted]
  rw [failed]
  simp only [Compilation.withSource, named, Option.bind_none, Option.getD_none]

end Imported

end Evaluation

end Stylesheet
