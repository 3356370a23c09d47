import Stylesheet.Proofs.Compiler.Caching
import Stylesheet.Proofs.Statement.Filenames

/-! What a result in the cache is told apart by. The digest covers the style, the dialect and the line
comments. It does not cover the load paths and the limits on calls and loops, and so it identifies a
result only as far as imports lead to the same stylesheets and no compilation stops at a limit. -/

namespace Stylesheet

private theorem eq_of_append_bar {first second : List Char} {rest others : List Char}
    (plain : '|' ∉ first) (plain' : '|' ∉ second)
    (same : first ++ '|' :: rest = second ++ '|' :: others) : first = second ∧ rest = others := by
  induction first generalizing second with
  | nil =>
    cases second with
    | nil => exact ⟨rfl, (List.cons.inj same).2⟩
    | cons c second =>
      rw [(List.cons.inj same).1] at plain'
      exact absurd List.mem_cons_self plain'
  | cons c first ih =>
    cases second with
    | nil =>
      rw [← (List.cons.inj same).1] at plain
      exact absurd List.mem_cons_self plain
    | cons d second =>
      obtain ⟨rfl, tails⟩ := List.cons.inj same
      have ⟨firsts, rests⟩ := ih (fun member => plain (List.mem_cons_of_mem c member))
        (fun member => plain' (List.mem_cons_of_mem c member)) tails
      exact ⟨congrArg (c :: ·) firsts, rests⟩

private theorem bar_notMem_styleName (style : Style) : '|' ∉ style.name.toList := by
  cases style <;> decide

private theorem bar_notMem_dialectName (dialect : Dialect) : '|' ∉ dialect.name.toList := by
  cases dialect <;> decide

private theorem styleName_injective {one other : Style} (same : one.name = other.name) :
    one = other := by
  cases one <;> cases other <;> first | rfl | exact absurd same (by decide)

private theorem dialectName_injective {one other : Dialect} (same : one.name = other.name) :
    one = other := by
  cases one <;> cases other <;> first | rfl | exact absurd same (by decide)

/-- What is hashed tells the options that are a part of it. -/
theorem options_of_hashInput {source : String} {one other : Options}
    (same : hashInput source one = hashInput source other) :
    one.style = other.style ∧ one.dialect = other.dialect ∧
      one.lineComments = other.lineComments := by
  have texts := String.toByteArray_inj.mp ((ByteArray.append_right_inj _).mp same)
  have chars := congrArg String.toList texts
  simp only [String.toList_append, List.append_assoc] at chars
  obtain ⟨styles, chars⟩ := eq_of_append_bar (bar_notMem_styleName _) (bar_notMem_styleName _) chars
  obtain ⟨dialects, chars⟩ :=
    eq_of_append_bar (bar_notMem_dialectName _) (bar_notMem_dialectName _) chars
  refine ⟨styleName_injective (String.toList_inj.mp styles),
    dialectName_injective (String.toList_inj.mp dialects), ?_⟩
  cases first : one.lineComments <;> cases second : other.lineComments
  all_goals simp [first, second] at chars ⊢

namespace Compiler

open Compilation

section Options

variable {source : String} {one other : Options} {importers : List Importer} {workspace : Workspace}

/-- What a text gives under these options, if the cache is left alone. -/
def anew (importers : List Importer) (workspace : Workspace) (source : String) (options : Options) :
    Except CompileError Output :=
  (((uncached ⟨options, importers⟩).compile source).run workspace).1

theorem anew_eq (importers : List Importer) (workspace : Workspace) (source : String)
    (options : Options) : anew importers workspace source options =
      (Compilation.run ⟨options, workspace.files, allImporters ⟨options, importers⟩⟩ source none).1.map
        fun result => ⟨result.tree.toText ⟨options.style, options.lineComments⟩, result.warnings,
          result.dependencies⟩ :=
  run_uncached ..

/-- Imports lead to the same stylesheets with the load paths of the one as with those of the
other. -/
def ResolveAlike (importers : List Importer) (workspace : Workspace) (one other : Options) : Prop :=
  ∀ uri base, (Importers.resolve workspace.files (allImporters ⟨one, importers⟩) uri base).1 =
    (Importers.resolve workspace.files (allImporters ⟨other, importers⟩) uri base).1

/-- Calls and loops may go equally far. -/
def LimitAlike (one other : Options) : Prop :=
  one.maxCallDepth = other.maxCallDepth ∧ one.maxLoopIterations = other.maxLoopIterations

/-- An output is no less a stop than what it is made of. -/
theorem stopsAtLimit_map {α β : Type} {result : Except CompileError α} (f : α → β)
    (stops : StopsAtLimit result) : StopsAtLimit (result.map f) := by
  obtain ⟨error, text, rfl, fault⟩ := stops
  exact ⟨error, text, rfl, fault⟩

/-- What is hashed decides what a text gives, as far as imports lead to the same stylesheets, unless
the limits differ and one of the two compilations stops at a limit. -/
theorem anew_of_hashInput (filename : one.filename = other.filename)
    (same : hashInput source one = hashInput source other)
    (resolve : ResolveAlike importers workspace one other) :
    anew importers workspace source one = anew importers workspace source other ∨
      ¬ LimitAlike one other ∧ (StopsAtLimit (anew importers workspace source one) ∨
        StopsAtLimit (anew importers workspace source other)) := by
  obtain ⟨style, dialect, lineComments⟩ := options_of_hashInput same
  let first : Evaluation.Context := ⟨one, workspace.files, allImporters ⟨one, importers⟩⟩
  let second : Evaluation.Context := ⟨other, workspace.files, allImporters ⟨other, importers⟩⟩
  have alike : first.Alike second := ⟨style, resolve⟩
  rw [anew_eq, anew_eq, style, lineComments]
  rcases run_alike alike dialect filename source none with equal | ⟨differ, stops⟩
  · exact .inl (congrArg (Except.map _) equal)
  · refine .inr ⟨fun limits => differ ⟨limits.1, limits.2⟩, ?_⟩
    exact stops.imp (stopsAtLimit_map _) (stopsAtLimit_map _)

theorem not_stopsAtLimit_of_isOk {α : Type} {result : Except CompileError α}
    (isOk : result.toOption.isSome = true) : ¬ StopsAtLimit result := by
  rintro ⟨error, text, rfl, _⟩
  cases isOk

/-- A loop that runs twice, once for each value. -/
def loopText : String :=
  "@each $i in c, d\x7ba\x7bb:$i\x7d\x7d"

/-- Loops may run this often, and nothing else differs. -/
def looping (most : Nat) : Options :=
  { Options.default with dialect := .scss, maxLoopIterations := most }

/-- The loop runs with room for two turns or more, and not with room for one. -/
theorem loopText_outcomes :
    (∀ options ∈ [looping 2, { looping 3 with quiet := true }],
      (anew withImport.importers emptyCache loopText options).toOption.isSome = true) ∧
    (anew [] emptyCache loopText (looping 2)).toOption.any (·.dependencies.isEmpty) = true ∧
    (anew [] emptyCache loopText (looping 1)).toOption.isSome = false := by
  have spelled : loopText.toList = _ := String.toList_ofList
  simp only [List.forall_mem_cons, List.not_mem_nil, false_implies, implies_true, and_true]
  refine ⟨⟨?_, ?_⟩, ?_, ?_⟩
  all_goals
    rw [anew_eq, Compilation.run, Statement.parse_of_toList spelled]
    decide +kernel

/-- With room for two turns and for three the loop gives the same. -/
theorem anew_of_hashInput_of_room :
    (looping 2).filename = ({ looping 3 with quiet := true } : Options).filename ∧
    hashInput loopText (looping 2) = hashInput loopText { looping 3 with quiet := true } ∧
    ResolveAlike withImport.importers emptyCache (looping 2) { looping 3 with quiet := true } ∧
    ¬ LimitAlike (looping 2) { looping 3 with quiet := true } ∧
    anew withImport.importers emptyCache loopText (looping 2) =
      anew withImport.importers emptyCache loopText { looping 3 with quiet := true } := by
  have runs := loopText_outcomes.1
  have found := @anew_of_hashInput loopText (looping 2) { looping 3 with quiet := true }
    withImport.importers emptyCache rfl rfl fun _ _ => rfl
  refine ⟨rfl, rfl, fun _ _ => rfl, fun limits => absurd limits.2 (by decide), ?_⟩
  refine found.resolve_right fun ⟨_, stops⟩ => ?_
  rcases stops with stops | stops
  · exact not_stopsAtLimit_of_isOk (runs _ (by simp)) stops
  · exact not_stopsAtLimit_of_isOk (runs _ (by simp)) stops

/-- The limit on loops is not hashed. With room for one turn only the loop is an error, and what is
hashed is the same as with room for two; so the text from the cache is served where there would be
the error. -/
theorem hashInput_misses_limit :
    hashInput loopText (looping 2) = hashInput loopText (looping 1) ∧
    anew [] emptyCache loopText (looping 2) ≠ anew [] emptyCache loopText (looping 1) ∧
    answer (((⟨looping 1, []⟩ : Compiler).compile loopText).run
        (((⟨looping 2, []⟩ : Compiler).compile loopText).run emptyCache).2).1 ≠
      answer (anew [] emptyCache loopText (looping 1)) := by
  obtain ⟨-, roomy, tight⟩ := loopText_outcomes
  cases isTight : anew [] emptyCache loopText (looping 1) with
  | ok output =>
    rw [isTight] at tight
    cases tight
  | error error =>
    cases isRoomy : anew [] emptyCache loopText (looping 2) with
    | error error =>
      rw [isRoomy] at roomy
      cases roomy
    | ok output =>
      obtain ⟨css, warnings, dependencies⟩ := output
      rw [isRoomy] at roomy
      obtain rfl : dependencies = [] := List.isEmpty_iff.mp roomy
      have gives : (textJob ⟨looping 2, []⟩ loopText).compiled emptyCache.files = _ :=
        (run_uncached _ _ _).symm.trans isRoomy
      -- The digests are compared by what is hashed; they are too large to be worked out.
      have key : (textJob ⟨looping 1, []⟩ loopText).key = (textJob ⟨looping 2, []⟩ loopText).key :=
        rfl
      have hash : (textJob ⟨looping 1, []⟩ loopText).hash = (textJob ⟨looping 2, []⟩ loopText).hash :=
        congrArg Digest.sha256
          (show hashInput loopText (looping 1) = hashInput loopText (looping 2) from rfl)
      obtain ⟨between, first, second⟩ :=
        @run_served (textJob ⟨looping 2, []⟩ loopText) emptyCache (textJob ⟨looping 1, []⟩ loopText)
          _ _ rfl rfl key hash rfl (by decide) gives
      have served : (((⟨looping 1, []⟩ : Compiler).compile loopText).run
          (((⟨looping 2, []⟩ : Compiler).compile loopText).run emptyCache).2).1 = .ok ⟨css, [], []⟩ := by
        rw [compile_eq, compile_eq, first]
        exact second between.now
      refine ⟨rfl, nofun, ?_⟩
      rw [served]
      nofun

end Options

end Compiler

end Stylesheet
