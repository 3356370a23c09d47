import Stylesheet.Evaluation.Statement
import Stylesheet.Proofs.Evaluation.Keeps
import Stylesheet.Proofs.Statement.Parsed

/-! What statements give outside of all blocks. The check of the nesting sees a statement once, in
the stylesheet or mixin it is written in; evaluation may bring it to other places. The statements
that it may bring outside of all blocks can be told beforehand, and if none that comes from a mixin
is a property, no declaration stands outside of all blocks. -/

namespace Stylesheet

namespace Nesting

open Statement

/-- A statement that may stand in `parent`, right inside of `direct`, with all below it. -/
structure Fits (parent direct : Enclosure) (s : Statement) : Prop where
  here : violation? parent direct s.kind = none
  inside : below parent s = []
  parsed : s.IsParsed

variable {parent direct : Enclosure} {s : Statement}

theorem fits_of_violations {found : List Statement} (accepted : violations parent direct found = [])
    (parsed : AllParsed found) : ∀ s ∈ found, Fits parent direct s := by
  induction found with
  | nil => simp
  | cons first rest ih =>
    unfold violations at accepted
    obtain ⟨both, later⟩ := List.append_eq_nil_iff.mp accepted
    obtain ⟨own, inside⟩ := List.append_eq_nil_iff.mp both
    intro s member
    rcases List.mem_cons.mp member with rfl | behind
    · refine ⟨?_, inside, parsed s List.mem_cons_self⟩
      cases found : violation? parent direct s.kind with
      | none => rfl
      | some violation => simp [found] at own
    · exact ih later (fun t member => parsed t (List.mem_cons_of_mem first member)) s behind

theorem Fits.inner (fits : Fits parent direct s) :
    ∀ t ∈ s.children,
      Fits (if (Enclosure.ofKind s.kind).isTransparent then parent else Enclosure.ofKind s.kind)
        (Enclosure.ofKind s.kind) t := by
  cases s with
  | mk kind children line span filename =>
    have inside := fits.inside
    unfold below at inside
    have accepted := (List.append_eq_nil_iff.mp inside).1
    cases fits.parsed with
    | intro _ _ _ inner => exact fits_of_violations accepted inner

theorem root_of_defineMixin {name : String} {params : List Param}
    (here : violation? parent direct (.defineMixin name params) = none) : parent = .root := by
  cases parent <;> simp [violation?, isFunctionStatement, isPropertyStatement] at here ⊢

theorem violation?_branch (parent direct : Enclosure) (condition : Option Expr)
    (other : Option Statement) :
    violation? parent direct (.branch condition other) = none ↔ parent ≠ .property := by
  cases parent <;> simp [violation?, isFunctionStatement, isPropertyStatement]

/-- The check goes on below the other branch; that branch itself may stand wherever the first one
may. -/
theorem Fits.otherwise {condition : Option Expr} {other : Statement}
    (fits : Fits parent direct s) (kind : s.kind = .branch condition (some other)) :
    Fits parent direct other := by
  cases s with
  | mk own children line span filename =>
    cases kind
    have inside := fits.inside
    unfold below at inside
    have accepted := (List.append_eq_nil_iff.mp inside).2
    cases fits.parsed with
    | intro _ isBranch otherwise _ =>
      refine ⟨?_, accepted, otherwise condition other rfl⟩
      have branches := isBranch condition other rfl
      have here := (violation?_branch parent direct _ _).mp fits.here
      cases same : other.kind with
      | branch => exact (violation?_branch parent direct _ _).mpr here
      | _ => simp [same, StatementKind.isBranch] at branches

end Nesting

namespace Evaluation

open Nesting Statement

/-- The statements of a stylesheet that an import may bring in. -/
def Brings (context : Context) (uri : String) (found : List Statement) : Prop :=
  ∃ base id source root,
    (Importers.resolve context.files context.importers uri base).1 = .ok (some (id, source)) ∧
    Statement.parse source.contents source.dialect (some source.canonical) = .ok root ∧
    found = root.children

/-- The statements that may be evaluated outside of all blocks. They are written in `checked`: in
the stylesheet itself or one that it imports, or else in a mixin that is included outside of all
blocks. -/
inductive Outside (context : Context) (entry : List Statement) : Enclosure → Statement → Prop where
  | top (member : s ∈ entry) : Outside context entry .root s
  | imported (outside : Outside context entry checked s)
      (kind : s.kind = .importing (.stylesheet uri)) (brings : Brings context uri found)
      (member : t ∈ found) : Outside context entry .root t
  | controlled (outside : Outside context entry checked s)
      (control : Enclosure.ofKind s.kind = .control) (member : t ∈ s.children) :
      Outside context entry checked t
  | otherwise (outside : Outside context entry checked s)
      (kind : s.kind = .branch condition (some t)) : Outside context entry checked t
  | included (outside : Outside context entry checked s) (kind : s.kind = .includeMixin name args)
      (definition : Outside context entry .root d) (defines : d.kind = .defineMixin other params)
      (same : Text.normalizeName name = Text.normalizeName other) (member : t ∈ d.children) :
      Outside context entry .mixin t

/-- The statements of the stylesheet and of all that it may import, with the file that each of them
is written in. -/
inductive StandsIn (context : Context) (entry : List Statement) : Option String → Statement → Prop
    where
  | top (member : s ∈ entry) : StandsIn context entry context.options.filename s
  | imported {id : SourceId} (stands : StandsIn context entry file s)
      (kind : s.kind = .importing (.stylesheet uri))
      (found : (Importers.resolve context.files context.importers uri base).1 =
        .ok (some (id, source)))
      (parsed : Statement.parse source.contents source.dialect (some source.canonical) = .ok root)
      (member : t ∈ root.children) : StandsIn context entry (some source.canonical) t
  | child (stands : StandsIn context entry file s) (member : t ∈ s.children) :
      StandsIn context entry file t
  | otherwise (stands : StandsIn context entry file s)
      (kind : s.kind = .branch condition (some t)) : StandsIn context entry file t

/-- A statement is the definition of a mixin or function. -/
structure Defines (s : Statement) (callable : Callable) : Prop where
  kind : s.kind = match callable.kind with
    | .mixin => .defineMixin callable.name callable.params
    | .function => .defineFunction callable.name callable.params
  body : s.children = callable.body

/-- What is known of a mixin or function: where it was defined, and that its body was checked. -/
structure IsDefined (context : Context) (entry : List Statement) (callable : Callable) : Prop where
  written : ∃ file d, StandsIn context entry file d ∧ Defines d callable
  mixin : callable.kind = .mixin → ∃ d params, Outside context entry .root d ∧
    d.kind = .defineMixin callable.name params ∧ d.children = callable.body
  mixinFits : callable.kind = .mixin → ∀ s ∈ callable.body, Fits .mixin .mixin s
  functionFits : callable.kind = .function → ∀ s ∈ callable.body, Fits .function .function s

/-- A statement that was checked in `checked` comes to be evaluated inside of `parent`. -/
structure Allowed (context : Context) (entry : List Statement) (parent checked direct : Enclosure)
    (s : Statement) : Prop where
  place : checked = parent ∨ checked = .mixin ∨ checked = .function
  fits : Fits checked direct s
  outside : parent = .root → checked ≠ .function → Outside context entry checked s
  written : ∃ file, StandsIn context entry file s

section Allowed

variable {context : Context} {entry : List Statement} {parent checked direct : Enclosure}
  {s : Statement}

/-- The body of a mixin or function is written where that is defined. -/
theorem IsDefined.body_written {callable : Callable} (isDefined : IsDefined context entry callable) :
    ∀ t ∈ callable.body, ∃ file, StandsIn context entry file t := by
  intro t member
  obtain ⟨file, d, stands, defines⟩ := isDefined.written
  exact ⟨file, stands.child (defines.body ▸ member)⟩

theorem Allowed.child_written (allowed : Allowed context entry parent checked direct s) :
    ∀ t ∈ s.children, ∃ file, StandsIn context entry file t := by
  intro t member
  obtain ⟨file, stands⟩ := allowed.written
  exact ⟨file, stands.child member⟩

theorem Allowed.controlled (allowed : Allowed context entry parent checked direct s)
    (control : Enclosure.ofKind s.kind = .control) :
    ∀ t ∈ s.children, Allowed context entry parent checked .control t := by
  intro t member
  have inner := allowed.fits.inner t member
  rw [control] at inner
  exact ⟨allowed.place, inner, fun atRoot notFunction =>
    (allowed.outside atRoot notFunction).controlled control member, allowed.child_written t member⟩

theorem Allowed.otherwise {condition : Option Expr} {other : Statement}
    (allowed : Allowed context entry parent checked direct s)
    (kind : s.kind = .branch condition (some other)) :
    Allowed context entry parent checked direct other := by
  obtain ⟨file, stands⟩ := allowed.written
  exact ⟨allowed.place, allowed.fits.otherwise kind, fun atRoot notFunction =>
    (allowed.outside atRoot notFunction).otherwise kind, file, stands.otherwise kind⟩

/-- In the block of a statement that counts for nesting, that statement is the one around. -/
theorem Allowed.nested {inner : Enclosure}
    (allowed : Allowed context entry parent checked direct s)
    (kind : Enclosure.ofKind s.kind = inner) (counts : inner.isTransparent = false)
    (notRoot : inner ≠ .root) :
    ∀ t ∈ s.children, Allowed context entry inner inner inner t := by
  intro t member
  have fits := allowed.fits.inner t member
  rw [kind, counts] at fits
  exact ⟨.inl rfl, fits, fun atRoot => absurd atRoot notRoot, allowed.child_written t member⟩

theorem Allowed.included {name : String} {args : Arguments} {mixin : Callable}
    (allowed : Allowed context entry parent checked direct s)
    (kind : s.kind = .includeMixin name args)
    (definition : IsDefinition (IsDefined context entry) .mixin (Text.normalizeName name, mixin)) :
    ∀ t ∈ mixin.body, Allowed context entry parent .mixin .mixin t := by
  intro t member
  refine ⟨.inr (.inl rfl), definition.known.mixinFits definition.kind t member, ?_,
    definition.known.body_written t member⟩
  intro atRoot _
  have notFunction : checked ≠ .function := by
    rintro rfl
    have here := allowed.fits.here
    simp [kind, violation?, isFunctionStatement] at here
  obtain ⟨d, params, written, defines, body⟩ := definition.known.mixin definition.kind
  exact (allowed.outside atRoot notFunction).included kind written defines definition.key
    (body ▸ member)

theorem Allowed.imported {uri : String} {found : List Statement}
    (allowed : Allowed context entry parent checked direct s)
    (kind : s.kind = .importing (.stylesheet uri)) (brings : Brings context uri found)
    (accepted : violations parent .importing found = []) :
    ∀ t ∈ found, Allowed context entry parent parent .importing t := by
  have notFunction : checked ≠ .function := by
    rintro rfl
    have here := allowed.fits.here
    simp [kind, violation?, isFunctionStatement] at here
  obtain ⟨base, id, source, root, resolved, parsed, rfl⟩ := brings
  intro t member
  obtain ⟨file, stands⟩ := allowed.written
  refine ⟨.inl rfl, fits_of_violations accepted (parse_allParsed parsed) t member, ?_, _,
    stands.imported kind resolved parsed member⟩
  rintro rfl _
  exact (allowed.outside rfl notFunction).imported kind
    ⟨base, id, source, root, resolved, parsed, rfl⟩ member

/-- A mixin is defined at the top of a stylesheet, so that the definition stands outside of all
blocks. -/
theorem Allowed.isDefined_mixin {name : String} {params : List Param} {scope : ScopeId}
    (allowed : Allowed context entry parent checked direct s)
    (kind : s.kind = .defineMixin name params) :
    IsDefined context entry ⟨.mixin, name, params, scope, s.children⟩ where
  written := by
    obtain ⟨file, stands⟩ := allowed.written
    exact ⟨file, s, stands, kind, rfl⟩
  mixin := by
    intro _
    have here := allowed.fits.here
    rw [kind] at here
    have written : checked = .root := root_of_defineMixin here
    subst written
    have atRoot : parent = .root := by
      rcases allowed.place with same | other | other
      · exact same.symm
      · cases other
      · cases other
    exact ⟨s, params, allowed.outside atRoot (by simp), kind, rfl⟩
  mixinFits := by
    intro _ t member
    have inner := allowed.fits.inner t member
    rw [kind] at inner
    exact inner
  functionFits := by
    intro other
    cases other

theorem Allowed.isDefined_function {name : String} {params : List Param} {scope : ScopeId}
    (allowed : Allowed context entry parent checked direct s)
    (kind : s.kind = .defineFunction name params) :
    IsDefined context entry ⟨.function, name, params, scope, s.children⟩ where
  written := by
    obtain ⟨file, stands⟩ := allowed.written
    exact ⟨file, s, stands, kind, rfl⟩
  mixin := by
    intro other
    cases other
  mixinFits := by
    intro other
    cases other
  functionFits := by
    intro _ t member
    have inner := allowed.fits.inner t member
    rw [kind] at inner
    exact inner

/-- The body of a function may be evaluated wherever the function is called. -/
theorem IsDefined.allowed_function {function : Callable}
    (isDefined : IsDefined context entry function) (isFunction : function.kind = .function) :
    ∀ s ∈ function.body, Allowed context entry parent .function .function s :=
  fun s member => ⟨.inr (.inr rfl), isDefined.functionFits isFunction s member,
    fun _ notFunction => absurd rfl notFunction, isDefined.body_written s member⟩

end Allowed

end Evaluation

end Stylesheet
