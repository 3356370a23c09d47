import Stylesheet.Proofs.Evaluation.Course
import Stylesheet.Proofs.Evaluation.Given

/-! The check of the nesting holds at every point of an evaluation. It sees a stylesheet before
anything is evaluated and an imported one at its place; mixins and functions are checked where they
are defined and evaluated elsewhere. What comes to be evaluated was checked in one of these places,
and only the bodies of functions were checked as such. -/

namespace Stylesheet

/-- How a mixin or function counts for the nesting in its body. -/
def CallableKind.enclosure : CallableKind → Enclosure
  | .mixin => .mixin
  | .function => .function

namespace Evaluation

open Nesting Statement

/-- All parameters of a function have their values, so that its body comes next. -/
def Task.EntersFunction : Task → Prop
  | .bound callable [] _ _ _ _ => callable.kind = .function
  | _ => False

/-- The statements of a task may be evaluated in `parent`. They were checked in `checked`, and those
of a mixin or function that is called were checked in its body. -/
def Task.CheckedIn (context : Context) (entry : List Statement) (parent checked : Enclosure) :
    Task → Prop
  | .statements body | .whileHolds _ body _ _ _ | .forIntegers _ _ body _ _ _
  | .forValues _ body _ _ => ∃ direct, ∀ s ∈ body, Allowed context entry parent checked direct s
  | .statement s | .content s => ∃ direct, Allowed context entry parent checked direct s
  | .included name _ _ _ => ∀ mixin,
      IsDefinition (IsDefined context entry) .mixin (Text.normalizeName name, mixin) →
      ∀ s ∈ mixin.body, Allowed context entry parent .mixin .mixin s
  | .applied callable _ _ _ _ | .bound callable _ _ _ _ _ => IsDefined context entry callable ∧
      ∀ s ∈ callable.body,
        Allowed context entry parent callable.kind.enclosure callable.kind.enclosure s
  | _ => True

/-- What is evaluated at a point was checked in `checked`, and so were all definitions. -/
structure Point.IsChecked (context : Context) (entry : List Statement) (checked : Enclosure)
    (p : Point) : Prop where
  definitions : p.state.env.AllKnown (IsDefined context entry)
  outside : p.state.parent ≠ .function
  task : p.task.CheckedIn context entry p.state.parent checked

section Keeping

variable {context : Context} {entry : List Statement} {parent : Enclosure} {run : Runner}
  {scope : ScopeId} {s t : State}

/-- Nothing is asked of the nodes that are given. -/
theorem isGiven_anything : IsGiven context entry fun _ _ _ => True :=
  ⟨fun _ _ _ => trivial, fun _ _ _ => trivial, fun _ _ _ => trivial⟩

theorem Keeps.heading (runs : run.Gives context entry fun _ _ _ => True) {place : Place}
    {kind : StatementKind} {inner : Enclosure} {head : Evaluating Unit}
    (isHeading : heading? run scope place kind = some (inner, head)) :
    Keeps context (Knows (IsDefined context entry) parent) head Anything := by
  cases kind with
  | rule parts =>
    cases isHeading
    exact (Keeps.selectorOf runs).after fun _ => .pure trivial
  | property parts value =>
    cases isHeading
    refine (Keeps.trimmedText runs).after fun _ => ?_
    cases value with
    | none => exact .pure trivial
    | some e =>
      refine (keeps_expr (runs.calls parent) scope e).after fun _ => ?_
      exact Keeps.cssText.after fun _ => .pure trivial
  | directive word parts block =>
    cases isHeading
    exact (Keeps.trimmedText runs).after fun _ => .pure trivial
  | media parts =>
    cases isHeading
    exact (Keeps.trimmedText runs).after fun _ => .pure trivial
  | _ => cases isHeading

theorem Keeps.countOf (runs : run.Gives context entry fun _ _ _ => True) {line : Nat} {span : Span}
    {start stop : Expr} {inclusive : Bool} :
    Keeps context (Knows (IsDefined context entry) parent)
      (countOf run scope line span start stop inclusive) Anything := by
  have calls := runs.calls parent
  refine (keeps_expr calls scope start).after fun _ => Keeps.wholeNumber.after fun _ => ?_
  refine (keeps_expr calls scope stop).after fun _ => Keeps.wholeNumber.after fun _ => ?_
  refine Keeps.ofValue.after fun _ => Keeps.options.after fun _ => .ite .throw (.pure trivial)

/-- How a block counts for nesting is known from its heading. -/
theorem ofKind_of_heading {place : Place} {kind : StatementKind} {inner : Enclosure}
    {head : Evaluating Unit} (isHeading : heading? run scope place kind = some (inner, head)) :
    Enclosure.ofKind kind = inner ∧ inner.isTransparent = false ∧ inner ≠ .root ∧
      inner ≠ .function := by
  cases kind with
  | rule | property | directive | media =>
    cases isHeading
    exact ⟨rfl, rfl, nofun, nofun⟩
  | _ => cases isHeading

theorem Knows.declaring {known : Callable → Prop} (knows : Knows known parent s) (name : String)
    (value : Value) : Knows known parent (s.declaring scope name value) :=
  ⟨knows.around, knows.definitions.declare scope name value⟩

theorem Knows.scoped {known : Callable → Prop} (knows : Knows known parent s) :
    Knows known parent (s.scoped scope) :=
  ⟨knows.around, knows.definitions.push scope⟩

/-- What is known stays known behind an action that succeeds. -/
theorem Keeps.knows {known : Callable → Prop} {action : Evaluating α} {post : α → Prop} {a : α}
    (keeps : Keeps context (Knows known parent) action post) (before : Knows known parent s)
    (ok : action context s = .ok a t) : Knows known parent t :=
  (keeps s a t before ok).1

end Keeping

section Course

variable {context : Context} {entry : List Statement} {checked : Enclosure} {p q : Point}

/-- What comes to be evaluated next was checked in the same place, or in another one that is not a
function, unless the body of a function is entered. -/
theorem Step.isChecked (step : Step context p q) (isChecked : p.IsChecked context entry checked) :
    ∃ inner, q.IsChecked context entry inner ∧
      (inner = .function → checked = .function ∨ p.task.EntersFunction) := by
  obtain ⟨definitions, outside, task⟩ := isChecked
  have runs (depth : Nat) : (runner depth).Gives context entry fun _ _ _ => True :=
    runner_gives isGiven_anything depth
  have calls (depth : Nat) := (runs depth).calls p.state.parent
  have start : Knows (IsDefined context entry) p.state.parent p.state := ⟨rfl, definitions⟩
  have block {depth scope body} (holds : (Task.statements body).CheckedIn context entry
      p.state.parent checked) : Keeps context (Knows (IsDefined context entry) p.state.parent)
        (statements (runner depth) scope body) (Outcome.All fun _ => True) := by
    obtain ⟨direct, all⟩ := holds
    exact keeps_statements isGiven_anything (runs _) _ checked direct _ _ all
  -- the place stays the same, whatever the actions before left behind
  have here {depth scope task t} (knows : Knows (IsDefined context entry) p.state.parent t)
      (holds : task.CheckedIn context entry p.state.parent checked) :
      ∃ inner, (Point.mk depth scope task t).IsChecked context entry inner ∧
        (inner = .function → checked = .function ∨ p.task.EntersFunction) :=
    ⟨checked, ⟨knows.definitions, by rw [knows.around]; exact outside,
      by rw [knows.around]; exact holds⟩, .inl⟩
  cases step with
  | text | before | items | left | operand | paren | callArguments | head | namedHead | part
  | behindText | positional | startTemplate | startExpr | assigned | whileTest | default
  | includedArguments => exact here start trivial
  | middle ok => exact here ((keeps_side (calls _) _ _).knows start ok) trivial
  | behind ok middleOk textOk =>
    have first := (keeps_side (calls _) _ _).knows start ok
    have second := (keeps_expr (calls _) _ _).knows first middleOk
    exact here (Keeps.interpolatedText.knows second textOk) trivial
  | right ok => exact here ((keeps_expr (calls _) _ _).knows start ok) trivial
  | called ok found =>
    have knows := (Keeps.arguments (calls _)).knows start ok
    have definition := knows.definitions.function? found
    refine here ⟨knows.around, knows.definitions⟩ ?_
    rw [Task.CheckedIn, definition.kind]
    exact ⟨definition.known, definition.known.allowed_function definition.kind⟩
  | tail ok => exact here ((keeps_expr (calls _) _ _).knows start ok) trivial
  | namedTail ok => exact here ((keeps_expr (calls _) _ _).knows start ok) trivial
  | behindPart ok textOk =>
    have first := (keeps_expr (calls _) _ _).knows start ok
    exact here (Keeps.interpolatedText.knows first textOk) trivial
  | keywords ok => exact here ((keeps_exprs (calls _) _ _).knows start ok) trivial
  | first =>
    obtain ⟨direct, all⟩ := task
    exact here start ⟨direct, all _ List.mem_cons_self⟩
  | next ok =>
    obtain ⟨direct, all⟩ := task
    have allowed := all _ List.mem_cons_self
    have knows := (keeps_statement isGiven_anything (runs _) _ _ _ _ _ allowed).knows start ok
    exact here knows ⟨direct, fun s member => all s (List.mem_cons_of_mem _ member)⟩
  | content => exact here ⟨rfl, definitions⟩ task
  | root =>
    obtain ⟨direct, allowed⟩ := task
    cases allowed.fits.parsed with
    | intro notRoot => exact absurd rfl notRoot
  | propertyValue ok => exact here ((Keeps.trimmedText (runs _)).knows start ok) trivial
  | block isHeading ok =>
    obtain ⟨direct, allowed⟩ := task
    obtain ⟨isInner, counts, notRoot, notFunction⟩ := ofKind_of_heading isHeading
    have knows := (Keeps.heading (runs _) isHeading).knows start ok
    exact ⟨_, ⟨knows.definitions.push _, notFunction, _, allowed.nested isInner counts notRoot⟩,
      fun isFunction => absurd isFunction notFunction⟩
  | taken ok =>
    obtain ⟨direct, allowed⟩ := task
    have knows := (Keeps.isTaken (runs _)).knows start ok
    exact here knows.scoped ⟨_, allowed.controlled rfl⟩
  | otherwise ok =>
    obtain ⟨direct, allowed⟩ := task
    exact here ((Keeps.isTaken (runs _)).knows start ok) ⟨direct, allowed.otherwise rfl⟩
  | loopWhile =>
    obtain ⟨direct, allowed⟩ := task
    exact here start.scoped ⟨_, allowed.controlled rfl⟩
  | loopStop ok whole =>
    have first := (keeps_expr (calls _) _ _).knows start ok
    exact here (Keeps.wholeNumber.knows first whole) trivial
  | loopCount ok =>
    obtain ⟨direct, allowed⟩ := task
    have knows := (Keeps.countOf (runs _)).knows start ok
    exact here knows.scoped ⟨_, allowed.controlled rfl⟩
  | loopEach ok =>
    obtain ⟨direct, allowed⟩ := task
    have knows := (keeps_expr (calls _) _ _).knows start ok
    exact here knows.scoped ⟨_, allowed.controlled rfl⟩
  | whileBody ok => exact here ((keeps_expr (calls _) _ _).knows start ok) task
  | whileNext ok _ bodyOk =>
    have first := (keeps_expr (calls _) _ _).knows start ok
    exact here ((block task).knows first bodyOk) task
  | countBody => exact here (start.declaring _ _) task
  | countNext ok => exact here ((block task).knows (start.declaring _ _) ok) task
  | eachBody => exact here (start.declaring _ _) task
  | eachNext ok => exact here ((block task).knows (start.declaring _ _) ok) task
  | including =>
    obtain ⟨direct, allowed⟩ := task
    exact here ⟨rfl, definitions⟩ fun mixin definition => allowed.included rfl definition
  | included found ok =>
    have definition := definitions.mixin? found
    refine here ((Keeps.arguments (calls _)).knows start ok) ?_
    rw [Task.CheckedIn, definition.kind]
    exact ⟨definition.known, task _ definition⟩
  | applied => exact here start.scoped task
  | boundValue => exact here (start.declaring _ _) task
  | boundKeyword => exact here (start.declaring _ _) task
  | boundDefault _ _ ok =>
    have knows := ((runs _).expr _ _ _).knows start ok
    exact here (knows.declaring _ _) task
  | @body _ _ _ callable =>
    refine ⟨callable.kind.enclosure, ⟨definitions, outside, _, task.2⟩, fun isFunction => .inr ?_⟩
    cases kind : callable.kind with
    | mixin =>
      rw [kind] at isFunction
      cases isFunction
    | function => exact kind
  | importing found _ _ parsed accepted =>
    obtain ⟨direct, allowed⟩ := task
    have brings : Brings context _ _ := ⟨_, _, _, _, by rw [found], parsed, rfl⟩
    have body := allowed.imported rfl brings (violations_of_checkImported accepted)
    exact ⟨_, ⟨definitions, outside, _, body⟩, fun isFunction => absurd isFunction outside⟩

/-- The evaluation of a stylesheet that was checked starts outside of all statements. -/
theorem isChecked_start {source : String} {id : Option SourceId} {root : Statement}
    (parsed : AllParsed root.children) (accepted : Nesting.check root = .ok ()) :
    (Point.start context source id root).IsChecked context root.children .root where
  definitions := Environment.allKnown_initial
  outside := nofun
  task := ⟨_, allowed_of_check parsed accepted⟩

/-- Everything that comes to be evaluated was checked somewhere. -/
theorem Reached.isChecked {source : String} {id : Option SourceId} {root : Statement}
    (parsed : AllParsed root.children) (accepted : Nesting.check root = .ok ())
    (reached : Reached context source id root p) :
    ∃ checked, p.IsChecked context root.children checked := by
  induction reached with
  | refl => exact ⟨_, isChecked_start parsed accepted⟩
  | tail _ step ih =>
    obtain ⟨checked, isChecked⟩ := ih
    obtain ⟨inner, next, -⟩ := step.isChecked isChecked
    exact ⟨inner, next⟩

end Course

end Evaluation

end Stylesheet
