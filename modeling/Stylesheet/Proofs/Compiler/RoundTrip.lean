import Stylesheet.Proofs.Compiler.Flat
import Stylesheet.Proofs.Css.LegibleCheck
import Stylesheet.Proofs.Css.Settled
import Stylesheet.Proofs.Css.SourceReading
import Stylesheet.Proofs.Evaluation.ReadBack

/-! The source that is written for a compiled stylesheet compiles to the same stylesheet, in both
dialects, if its nodes are legible. A quoted string in which an expression seems to begin is not: it
is written as it is, and read as an expression. -/

namespace Stylesheet

namespace Written

theorem readsAll_of_root {found : List Written} {root : Statement} {filename : Option String}
    (isRoot : root.unplaced =
      (Statement.mk .root (statements found) 0 default none).withFilename filename) :
    ReadsAll found root.children := by
  obtain ⟨kind, children, line, span, old⟩ := root
  have plain : ∀ condition other, StatementKind.root ≠ .branch condition other := nofun
  rw [Statement.withFilename_of_not_branch plain, Statement.unplaced] at isRoot
  exact readsAll_of_unplaced filename found children (Statement.mk.inj isRoot).2.1

end Written

namespace Compilation

open Evaluation

/-- A stylesheet that is read for some nodes compiles to nodes for which the same is written. -/
theorem run_written {context : Context} {source : String} (entry : Option SourceId)
    {root : Statement} {found : List Written} {nodes : List Css}
    (parsed : Statement.parse source context.options.dialect context.options.filename = .ok root)
    (reads : Written.ReadsAll found root.children)
    (prints : Written.PrintsAll context.options.style found nodes)
    (blocks : ∀ c ∈ nodes, c.isProperty = false) (once : Css.DeclaresOnce false nodes) :
    ∃ compiled, (run context source entry).1 = .ok compiled ∧ compiled.tree.kind = .root ∧
      Written.PrintsAll context.options.style found compiled.tree.children := by
  have checked : Nesting.check root = .ok () := by
    have placed : ∀ c ∈ nodes, Nesting.MayStand .root .root c := fun c member =>
      ⟨fun isProperty => absurd (blocks c member) (by simp [isProperty]), fun _ => ⟨rfl, rfl⟩⟩
    have allowed :=
      Nesting.violations_written (.inl rfl) .root found root.children nodes reads prints placed
    unfold Nesting.check
    rw [allowed]
  obtain ⟨outcome, state, evaluated, _, given⟩ :=
    gives_statements (runner (depthBound context)) Environment.global found root.children nodes reads
      prints context (start context.options source entry)
  have stillOnce : Css.DeclaresOnce false outcome.css := by
    rw [← Css.declaresOnce_unplacedAll] at once ⊢
    rwa [Written.PrintsAll.unplacedAll_eq found outcome.css nodes given prints]
  obtain ⟨children, last, flattened, kept⟩ :=
    Written.PrintsAll.flatten_top context.options.style found outcome.css given .empty false stillOnce
  have isTree : Evaluation.stylesheet root context (start context.options source entry) =
      .ok (.node .root outcome.css root.line root.filename) state := by
    change EStateM.bind (statements _ _ _ context) _ _ = _
    rw [EStateM.bind, evaluated]
    rfl
  have isFlat : (Css.node .root outcome.css root.line root.filename).flatten context.options.style =
      .ok (.node .root children root.line root.filename, .empty) := by
    unfold Css.flatten
    change ((Flatten.nodes _ _ outcome.css ⟨.empty, false⟩ : Except _ _) >>= fun found => _) = _
    rw [flattened]
    rfl
  refine ⟨⟨.node .root children root.line root.filename, state.warnings ++ [], state.dependencies⟩,
    ?_, rfl, kept⟩
  unfold run
  simp only [parsed, checked, isTree, isFlat]
  rfl

/-- The source of a compiled stylesheet with legible nodes compiles in its dialect, to the same
stylesheet. -/
theorem run_toSource {given context : Context} {source : String} {entry other : Option SourceId}
    {compiled : Compiled} (ran : (run given source entry).1 = .ok compiled)
    (legible : ∀ c ∈ compiled.tree.children, c.Everywhere (Css.IsLegible context.options.style))
    (blocks : ∀ c ∈ compiled.tree.children, c.isProperty = false) :
    ∃ again, (run context (compiled.tree.toSource context.options.dialect) other).1 = .ok again ∧
      again.tree.unplaced = compiled.tree.unplaced := by
  obtain ⟨isRoot, flat⟩ := run_isFlat ran
  obtain ⟨top, once⟩ := run_isTop ran
  obtain ⟨found, prints⟩ := Css.exists_printsAll compiled.tree.children flat top legible
  obtain ⟨root, parsed, isSource⟩ := Written.parse_toSource prints context.options.dialect
    context.options.filename
  obtain ⟨again, compiles, isRoot', prints'⟩ :=
    run_written other parsed (Written.readsAll_of_root isSource) prints blocks once
  refine ⟨again, compiles, ?_⟩
  have same := Written.PrintsAll.unplacedAll_eq found again.tree.children compiled.tree.children
    prints' prints
  generalize again.tree = first at isRoot' same ⊢
  generalize compiled.tree = second at isRoot same ⊢
  obtain ⟨kind, children, line, filename, tabs, groupEnd⟩ := first
  obtain ⟨kind', children', line', filename', tabs', groupEnd'⟩ := second
  obtain rfl : kind = .root := isRoot'
  obtain rfl : kind' = .root := isRoot
  rw [Css.unplaced, Css.unplaced, same]

/-- Compilation of a text by itself, without files to import. -/
def alone (dialect : Dialect) : Context :=
  ⟨{ Options.default with dialect }, .empty, []⟩

/-- Nested rules with a quoted attribute and a comment, a query that moves out of one, selectors with
a colon in front or in the middle, and what stands outside of all blocks: a character set, an import,
and directives with and without a block. -/
def nestedSource : String :=
  "@charset \"utf-8\";\n@import url(a.css) print;\n/* navigation */\nnav \x7b ul \x7b " ++
    "display: block; /* inner */ a[href=\"b\"] \x7b left: auto; \x7d \x7d\n" ++
    "@media print \x7b content: \"ok\" none, auto; \x7d \x7d\n" ++
    ":root, * \x7b right: auto; \x7d\na:hover > b \x7b top: auto; \x7d\n" ++
    "@font-face \x7b src: local; \x7d\n@layer base;"

theorem run_toSource_of_nested :
    ∃ compiled, (run (alone .scss) nestedSource none).1 = .ok compiled ∧
      (∀ c ∈ compiled.tree.children, c.Everywhere (Css.IsLegible .nested)) ∧
      (∀ c ∈ compiled.tree.children, c.isProperty = false) ∧
      ∀ dialect, ∃ again,
        (run (alone dialect) (compiled.tree.toSource dialect) none).1 = .ok again ∧
          again.tree.unplaced = compiled.tree.unplaced := by
  have spelled : nestedSource.toList = _ :=
    Statement.toList_append_of_toList
      (Statement.toList_append_of_toList
        (Statement.toList_append_of_toList
          (Statement.toList_append_of_toList String.toList_ofList String.toList_ofList)
          String.toList_ofList) String.toList_ofList) String.toList_ofList
  have checked : (run (alone .scss) nestedSource none).1.toOption.any (fun compiled =>
      Css.areLegibleTrees .nested compiled.tree.children &&
        compiled.tree.children.all (!·.isProperty)) = true := by
    rw [run, Statement.parse_of_toList spelled]
    decide +kernel
  cases ran : (run (alone .scss) nestedSource none).1 with
  | error error =>
    rw [ran] at checked
    cases checked
  | ok compiled =>
    rw [ran] at checked
    obtain ⟨legible, blocks⟩ := Bool.and_eq_true_iff.mp checked
    have legible := Css.areLegible_of_trees compiled.tree.children legible
    have blocks : ∀ c ∈ compiled.tree.children, c.isProperty = false := by
      simpa using List.all_eq_true.mp blocks
    refine ⟨compiled, rfl, legible, blocks, fun dialect => ?_⟩
    exact run_toSource ran legible blocks

/-- A string with a hash in front of a brace, which is no expression for the backslash. -/
def escapedSource : String :=
  "a\x7bb:\"\\#\x7bc\x7d\"\x7d"

/-- Whether the source of a tree compiles to a tree with another text. -/
def differsAgain (tree : Css) : Bool :=
  match (run (alone .scss) (tree.toSource .scss) none).1 with
  | .ok again => again.tree.unplaced.toText ⟨.nested, false⟩ != tree.unplaced.toText ⟨.nested, false⟩
  | .error _ => false

theorem exists_of_differsAgain {tree : Css} (differs : differsAgain tree = true) :
    ∃ again, (run (alone .scss) (tree.toSource .scss) none).1 = .ok again ∧
      again.tree.unplaced ≠ tree.unplaced := by
  unfold differsAgain at differs
  split at differs
  · rename_i again compiles
    refine ⟨again, compiles, fun same => ?_⟩
    rw [same, bne_self_eq_false] at differs
    cases differs
  · cases differs

/-- The text of a string keeps the hash and loses the backslash, so an expression is read there. -/
theorem toSource_of_escaped :
    ∃ compiled again, (run (alone .scss) escapedSource none).1 = .ok compiled ∧
      (run (alone .scss) (compiled.tree.toSource .scss) none).1 = .ok again ∧
        again.tree.unplaced ≠ compiled.tree.unplaced := by
  have checked : (run (alone .scss) escapedSource none).1.toOption.any (fun compiled =>
      differsAgain compiled.tree) = true := by decide +kernel
  generalize (run (alone .scss) escapedSource none).1 = result at checked ⊢
  cases result with
  | error error => cases checked
  | ok compiled =>
    have differs : differsAgain compiled.tree = true := checked
    obtain ⟨again, compiles, isOther⟩ := exists_of_differsAgain differs
    exact ⟨compiled, again, rfl, compiles, isOther⟩

end Compilation

end Stylesheet
