import Stylesheet.Compilation
import Stylesheet.Proofs.Css.Declarations
import Stylesheet.Proofs.Css.Shape
import Stylesheet.Proofs.Evaluation.Given

/-! The trees that evaluation gives. Below a property there are properties and comments, and
nothing else. -/

namespace Stylesheet

namespace Css

/-- A node that holds properties and comments only, if it is a property. -/
def HoldsParts (c : Css) : Prop :=
  c.isProperty = true → ∀ d ∈ c.children, d.isPropertyPart = true

end Css

namespace Evaluation

open Nesting Statement

variable {context : Context} {entry : List Statement}

theorem isPropertyStatement_of_violation? {direct : Enclosure} {kind : StatementKind}
    (fits : violation? .property direct kind = none) : isPropertyStatement kind = true := by
  unfold violation? at fits
  split at fits
  · cases fits
  · split at fits
    · cases fits
    · rename_i allowed
      simpa using allowed

/-- Only properties and comments are allowed right inside of a property. -/
theorem isGiven_holdsParts : IsGiven context entry fun _ checked c =>
    c.Everywhere Css.HoldsParts ∧ (checked = .property → c.isPropertyPart = true) where
  made := by
    intro parent checked direct s c allowed makes below
    generalize kind : s.kind = statement at makes below
    refine ⟨.intro ?_ fun d member => (below d member).1, ?_⟩
    · intro isProperty d member
      cases makes with
      | property => exact (below d member).2 rfl
      | _ => cases isProperty
    · rintro rfl
      have part := isPropertyStatement_of_violation? allowed.fits.here
      rw [kind] at part
      cases makes with
      | property | comment => rfl
      | _ => cases part
  included := by
    intro parent checked direct s name args c allowed kind inner
    refine ⟨inner.1, ?_⟩
    rintro rfl
    have part := isPropertyStatement_of_violation? allowed.fits.here
    rw [kind] at part
    cases part
  imported := by
    intro parent checked direct s uri c allowed kind inner
    refine ⟨inner.1, ?_⟩
    rintro rfl
    have part := isPropertyStatement_of_violation? allowed.fits.here
    rw [kind] at part
    cases part

/-- A stylesheet that was checked gives properties that hold properties and comments only. -/
theorem stylesheet_holdsParts {root : Statement} {tree : Css} {state final : State}
    (parsed : Statement.AllParsed root.children) (accepted : Nesting.check root = .ok ())
    (fresh : state.env = .initial) (atRoot : state.parent = .root)
    (ok : stylesheet root context state = .ok tree final) :
    ∀ c ∈ tree.children, c.Everywhere Css.HoldsParts := by
  obtain ⟨_, nodes⟩ := stylesheet_given isGiven_holdsParts parsed accepted fresh atRoot ok
  exact fun c member => (nodes c member).1

end Evaluation

namespace Css

/-- A tree that evaluation gives for a stylesheet that was read and checked. -/
def IsStaticSource (tree : Css) : Prop :=
  ∃ context source entry root final,
    Statement.parse source context.options.dialect context.options.filename = .ok root ∧
    Nesting.check root = .ok () ∧
    Evaluation.stylesheet root context (Compilation.start context.options source entry) =
      .ok tree final

theorem IsStaticSource.holdsParts {tree : Css} (static : tree.IsStaticSource) :
    ∀ c ∈ tree.children, c.Everywhere HoldsParts := by
  obtain ⟨context, source, entry, root, final, parsed, accepted, evaluated⟩ := static
  exact Evaluation.stylesheet_holdsParts (Statement.parse_allParsed parsed) accepted rfl rfl evaluated

end Css

end Stylesheet
