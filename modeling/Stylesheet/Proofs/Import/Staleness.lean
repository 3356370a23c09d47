import Mathlib.Logic.Relation
import Stylesheet.Import.Staleness
import Stylesheet.Proofs.Bindings
import Stylesheet.Proofs.Import.Names

/-! Whether a stylesheet has changed does not depend on what was asked before: each answer says
whether imports lead to something that counts as changed. The tables of answers stay right because
a stylesheet that is being looked at is only met again on an import cycle. -/

namespace Stylesheet.Staleness

open Relation

variable (files : FileTree) (importers : List Importer)

/-- The stylesheet that a name means where it is imported. -/
def target? (id : SourceId) (uri : String) : Option SourceId :=
  match (Importers.resolve files importers uri (some id)).1 with
  | .ok (some (found, _)) => some found
  | _ => none

/-- What a stylesheet imports. That cannot be said if the stylesheet or one of its imports is not
found, or if it cannot be read. -/
def imports? (id : SourceId) : Option (List SourceId) := do
  let importer ← importers[id.importer]?
  let source ← (importer.find files id.uri none).1.toOption.join
  let root ← (Statement.parse source.contents source.dialect (some id.uri)).toOption
  root.imports.mapM (target? files importers id)

/-- When a stylesheet was changed. -/
def modified? (id : SourceId) : Option Nat :=
  (importers[id.importer]?).bind fun importer => importer.modified? files id.uri

/-- One stylesheet imports another. -/
def Imports (id other : SourceId) : Prop :=
  ∃ found, imports? files importers id = some found ∧ other ∈ found

/-- What makes a stylesheet count as changed since a time. -/
inductive IsSuspect (time : Nat) (id : SourceId) : Prop where
  | untimed (unknown : modified? files importers id = none)
  | later {modified : Nat} (known : modified? files importers id = some modified)
      (since : time < modified)
  | unlisted (unknown : imports? files importers id = none)
  | cyclic (cycle : TransGen (Imports files importers) id id)

/-- Imports lead from a stylesheet to one that counts as changed. -/
def ReachesSuspect (time : Nat) (id : SourceId) : Prop :=
  ∃ other, ReflTransGen (Imports files importers) id other ∧
    IsSuspect files importers time other

variable {files importers}

section Reaching

variable {time : Nat} {id other : SourceId}

theorem IsSuspect.reaches (suspect : IsSuspect files importers time id) :
    ReachesSuspect files importers time id :=
  ⟨id, .refl, suspect⟩

theorem ReachesSuspect.of_imports (imports : Imports files importers id other)
    (reaches : ReachesSuspect files importers time other) :
    ReachesSuspect files importers time id := by
  obtain ⟨last, path, suspect⟩ := reaches
  exact ⟨last, .head imports path, suspect⟩

/-- A stylesheet with nothing against it reaches what its imports reach. A cycle through it is
also a cycle behind one of its imports. -/
theorem exists_reachesSuspect {modified : Nat} {found : List SourceId}
    (timed : Staleness.modified? files importers id = some modified) (early : ¬ time < modified)
    (listed : imports? files importers id = some found)
    (reaches : ReachesSuspect files importers time id) :
    ∃ other ∈ found, ReachesSuspect files importers time other := by
  have member {next : SourceId} (imports : Imports files importers id next) : next ∈ found := by
    obtain ⟨others, isList, isMember⟩ := imports
    rw [listed] at isList
    cases isList
    exact isMember
  obtain ⟨last, path, suspect⟩ := reaches
  rcases ReflTransGen.cases_head path with same | ⟨next, imports, rest⟩
  · subst same
    cases suspect with
    | untimed unknown => rw [timed] at unknown; cases unknown
    | later known since =>
      rw [timed] at known
      cases known
      exact absurd since early
    | unlisted unknown => rw [listed] at unknown; cases unknown
    | cyclic cycle =>
      obtain ⟨next, imports, rest⟩ := TransGen.head'_iff.mp cycle
      exact ⟨next, member imports, id, rest, .cyclic cycle⟩
  · exact ⟨next, member imports, last, rest, suspect⟩

end Reaching

/-- The stylesheets being looked at, last one first, import each other in a row that leads to
`id`. -/
inductive Trail (files : FileTree) (importers : List Importer) :
    List SourceId → SourceId → Prop where
  | start {id : SourceId} : Trail files importers [] id
  | step {earlier : List SourceId} {id other : SourceId} (trail : Trail files importers earlier id)
      (imports : Imports files importers id other) : Trail files importers (id :: earlier) other

theorem Trail.leads {visiting : List SourceId} {id other : SourceId}
    (trail : Trail files importers visiting id) (member : other ∈ visiting) :
    TransGen (Imports files importers) other id := by
  induction trail with
  | start => cases member
  | step trail imports ih =>
    rcases List.mem_cons.mp member with rfl | earlier
    · exact .single imports
    · exact (ih earlier).tail imports

/-- An action finds something out and changes nothing but the log. -/
def Finds (action : Checking α) (a : α) : Prop :=
  ∀ known, ∃ log, action.run known = (a, { known with log })

theorem Finds.pure (a : α) : Finds (pure a) a :=
  fun known => ⟨known.log, rfl⟩

theorem Finds.logEntries (entries : Log) : Finds (logEntries entries) () :=
  fun known => ⟨known.log ++ entries, rfl⟩

theorem Finds.bind {first : Checking α} {next : α → Checking β} {a : α} {b : β}
    (start : Finds first a) (behind : Finds (next a) b) : Finds (first >>= next) b := by
  intro known
  obtain ⟨before, started⟩ := start known
  obtain ⟨log, ended⟩ := behind { known with log := before }
  refine ⟨log, ?_⟩
  rw [StateT.run_bind, started]
  exact ended

theorem finds_resolveAll (id : SourceId) (uris : List String) :
    Finds (resolveAll files importers id uris) (uris.mapM (target? files importers id)) := by
  induction uris with
  | nil => exact .pure _
  | cons uri rest ih =>
    unfold resolveAll
    rw [List.mapM_cons, target?]
    rcases Importers.resolve files importers uri (some id) with ⟨_ | _ | ⟨found, _⟩, log⟩
    · exact (Finds.logEntries log).bind (.pure _)
    · exact (Finds.logEntries log).bind (.pure _)
    · refine (Finds.logEntries log).bind (ih.bind ?_)
      cases rest.mapM (target? files importers id) with
      | none => exact .pure _
      | some others => exact .pure _

theorem finds_computeDependencies (id : SourceId) :
    Finds (computeDependencies files importers id) (imports? files importers id) := by
  unfold computeDependencies imports?
  cases importers[id.importer]? with
  | none => exact .pure _
  | some importer =>
    simp only [Option.bind_eq_bind, Option.bind_some]
    rcases importer.find files id.uri none with ⟨_ | _ | source, log⟩
    · exact (Finds.logEntries log).bind (.pure _)
    · exact (Finds.logEntries log).bind (.pure _)
    · refine (Finds.logEntries log).bind ?_
      simp only [Except.toOption, Option.join_some, Option.bind_some]
      cases Statement.parse source.contents source.dialect (some id.uri) with
      | error error => exact .pure _
      | ok root => exact finds_resolveAll id root.imports

/-- What the tables say is right. -/
structure IsSound (files : FileTree) (importers : List Importer) (known : Staleness) : Prop where
  times : ∀ id found, known.times.find? id = some found → found = modified? files importers id
  dependencies : ∀ id found, known.dependencies.find? id = some found →
    found = imports? files importers id
  stale : ∀ id time answer, known.stale.find? (id, time) = some answer →
    (answer = true ↔ ReachesSuspect files importers time id)

theorem isSound_initial : initial.IsSound files importers where
  times := by
    intro id found isFound
    cases isFound
  dependencies := by
    intro id found isFound
    cases isFound
  stale := by
    intro id time answer isFound
    cases isFound

/-- An action keeps the tables right and what is being looked at, and its result satisfies a
condition. -/
def Keeps (files : FileTree) (importers : List Importer) (visiting : List SourceId)
    (action : Checking α) (post : α → Prop) : Prop :=
  ∀ known, known.IsSound files importers → known.visiting = visiting →
    ∃ a after, action.run known = (a, after) ∧ after.IsSound files importers ∧
      after.visiting = visiting ∧ post a

section Keeps

variable {visiting : List SourceId} {post : β → Prop} {between : α → Prop}

theorem Keeps.pure {b : β} (holds : post b) : Keeps files importers visiting (pure b) post :=
  fun known sound same => ⟨b, known, rfl, sound, same, holds⟩

theorem Keeps.bind {first : Checking α} {next : α → Checking β}
    (start : Keeps files importers visiting first between)
    (behind : ∀ a, between a → Keeps files importers visiting (next a) post) :
    Keeps files importers visiting (first >>= next) post := by
  intro known sound same
  obtain ⟨a, middle, started, sound, same, holds⟩ := start known sound same
  obtain ⟨b, after, ended, sound, same, holds⟩ := behind a holds middle sound same
  refine ⟨b, after, ?_, sound, same, holds⟩
  rw [StateT.run_bind, started]
  exact ended

theorem Keeps.weaken {action : Checking β} {weaker : β → Prop}
    (keeps : Keeps files importers visiting action post) (implies : ∀ b, post b → weaker b) :
    Keeps files importers visiting action weaker := by
  intro known sound same
  obtain ⟨b, after, ran, sound, same, holds⟩ := keeps known sound same
  exact ⟨b, after, ran, sound, same, implies b holds⟩

theorem Keeps.get {next : Staleness → Checking β}
    (behind : ∀ known, known.IsSound files importers → known.visiting = visiting →
      Keeps files importers visiting (next known) post) :
    Keeps files importers visiting (get >>= next) post :=
  fun known sound same => behind known sound same known sound same

theorem keeps_modifiedOf (id : SourceId) :
    Keeps files importers visiting (modifiedOf files importers id)
      (· = modified? files importers id) := by
  intro known sound same
  cases remembered : known.times.find? id with
  | some found =>
    refine ⟨found, known, ?_, sound, same, sound.times id found remembered⟩
    simp only [modifiedOf, StateT.run_bind, StateT.run_get, pure_bind, remembered]
    rfl
  | none =>
    let found := modified? files importers id
    refine ⟨found, { known with times := known.times.insert id found }, ?_,
      ⟨?_, sound.dependencies, sound.stale⟩, same, rfl⟩
    · simp only [modifiedOf, StateT.run_bind, StateT.run_get, pure_bind, remembered]
      rfl
    · intro other answer isFound
      rcases Bindings.find?_insert_some isFound with ⟨rfl, rfl⟩ | before
      · rfl
      · exact sound.times other answer before

theorem keeps_dependenciesOf (id : SourceId) :
    Keeps files importers visiting (dependenciesOf files importers id)
      (· = imports? files importers id) := by
  intro known sound same
  cases remembered : known.dependencies.find? id with
  | some found =>
    refine ⟨found, known, ?_, sound, same, sound.dependencies id found remembered⟩
    simp only [dependenciesOf, StateT.run_bind, StateT.run_get, pure_bind, remembered]
    rfl
  | none =>
    obtain ⟨log, computed⟩ := @finds_computeDependencies files importers id known
    let found := imports? files importers id
    refine ⟨found, { known with log, dependencies := known.dependencies.insert id found }, ?_,
      ⟨sound.times, ?_, sound.stale⟩, same, rfl⟩
    · simp only [dependenciesOf, StateT.run_bind, StateT.run_get, pure_bind, remembered, computed]
      rfl
    · intro other answer isFound
      rcases Bindings.find?_insert_some isFound with ⟨rfl, rfl⟩ | before
      · rfl
      · exact sound.dependencies other answer before

theorem keeps_anyOf {check : SourceId → Checking Bool} {holds : SourceId → Prop}
    {ids : List SourceId}
    (each : ∀ id ∈ ids, Keeps files importers visiting (check id) (· = true ↔ holds id)) :
    Keeps files importers visiting (anyOf check ids) (· = true ↔ ∃ id ∈ ids, holds id) := by
  induction ids with
  | nil => exact .pure (by simp)
  | cons id rest ih =>
    refine (each id List.mem_cons_self).bind fun answer answered => ?_
    cases answer with
    | true => exact .pure (by simp [answered.mp rfl])
    | false =>
      have notFirst : ¬ holds id := fun first => Bool.noConfusion (answered.mpr first)
      have further := ih fun other member => each other (List.mem_cons_of_mem id member)
      simpa [notFirst] using further

end Keeps

/-- The stylesheets being looked at are different ones, have known times and import each other in
a row. -/
structure IsRow (files : FileTree) (importers : List Importer) (visiting : List SourceId)
    (id : SourceId) : Prop where
  distinct : visiting.Nodup
  timed : ∀ other ∈ visiting, ∃ time, modified? files importers other = some time
  trail : Trail files importers visiting id

theorem hasName_of_modified? {id : SourceId} {time : Nat}
    (timed : modified? files importers id = some time) : Importers.HasName importers id := by
  obtain ⟨importer, isImporter, modified⟩ := Option.bind_eq_some_iff.mp timed
  exact ⟨importer, isImporter, Importer.isName_of_modified? modified⟩

theorem IsRow.length_le {visiting : List SourceId} {id : SourceId}
    (row : IsRow files importers visiting id) :
    visiting.length ≤ Importers.chainBound importers := by
  apply Importers.length_le_chainBound row.distinct
  intro other member
  obtain ⟨time, timed⟩ := row.timed other member
  exact hasName_of_modified? timed

/-- A row goes on to an import of the stylesheet it has led to. -/
theorem IsRow.step {visiting : List SourceId} {id other : SourceId} {modified : Nat}
    (row : IsRow files importers visiting id)
    (timed : Staleness.modified? files importers id = some modified) (new : id ∉ visiting)
    (imports : Imports files importers id other) :
    IsRow files importers (id :: visiting) other where
  distinct := List.nodup_cons.mpr ⟨new, row.distinct⟩
  timed := by
    intro earlier member
    rcases List.mem_cons.mp member with rfl | before
    · exact ⟨modified, timed⟩
    · exact row.timed earlier before
  trail := .step row.trail imports

theorem keeps_lookInto {time : Nat} {visiting : List SourceId} {id : SourceId}
    {look : Checking Bool}
    (looked : Keeps files importers (id :: visiting) look
      (· = true ↔ ReachesSuspect files importers time id)) :
    Keeps files importers visiting (lookInto time id look)
      (· = true ↔ ReachesSuspect files importers time id) := by
  intro known sound same
  obtain ⟨answer, after, ran, sound, same, holds⟩ :=
    looked { known with visiting := id :: known.visiting } ⟨sound.times, sound.dependencies, sound.stale⟩
      (by rw [same])
  refine ⟨answer, { after with
    visiting := after.visiting.erase id
    stale := after.stale.insert (id, time) answer }, ?_, ⟨sound.times, sound.dependencies, ?_⟩, ?_, holds⟩
  · simp only [lookInto, StateT.run_bind, StateT.run_modify, pure_bind, ran]
    rfl
  · intro other since found isFound
    rcases Bindings.find?_insert_some isFound with ⟨sameKey, rfl⟩ | before
    · cases sameKey
      exact holds
    · exact sound.stale other since found before
  · rw [same]
    exact List.erase_cons_head id visiting

/-- A stylesheet that has not changed itself is judged by its imports. -/
theorem keeps_anyImport {time modified : Nat} {visiting : List SourceId} {id : SourceId}
    {check : SourceId → Checking Bool} (timed : Staleness.modified? files importers id = some modified)
    (early : ¬ time < modified)
    (each : ∀ found, imports? files importers id = some found → ∀ other ∈ found,
      Keeps files importers visiting (check other)
        (· = true ↔ ReachesSuspect files importers time other)) :
    Keeps files importers visiting
      (do match ← dependenciesOf files importers id with
        | none => return true
        | some dependencies => anyOf check dependencies)
      (· = true ↔ ReachesSuspect files importers time id) := by
  refine (keeps_dependenciesOf id).bind fun found isFound => ?_
  subst isFound
  cases listed : imports? files importers id with
  | none =>
    have suspect : IsSuspect files importers time id := .unlisted listed
    exact .pure (by simp [suspect.reaches])
  | some found =>
    refine (keeps_anyOf (each found listed)).weaken fun answer answered => answered.trans ⟨?_, ?_⟩
    · rintro ⟨other, member, reaches⟩
      exact reaches.of_imports ⟨found, listed, member⟩
    · exact exists_reachesSuspect timed early listed

-- The induction is on the depth. Those being looked at are different stylesheets that importers
-- have, so the depth is not used up before the row of them has to come back to one of its own.
theorem keeps_hasChanged (time : Nat) {depth : Nat} {visiting : List SourceId} {id : SourceId}
    (row : IsRow files importers visiting id)
    (enough : Importers.chainBound importers < depth + visiting.length) :
    Keeps files importers visiting (hasChanged files importers time depth id)
      (· = true ↔ ReachesSuspect files importers time id) := by
  induction depth generalizing visiting id with
  | zero =>
    have bounded := row.length_le
    omega
  | succ depth ih =>
    have suspected (suspect : IsSuspect files importers time id) :
        true = true ↔ ReachesSuspect files importers time id := by
      simp [suspect.reaches]
    unfold hasChanged
    refine (keeps_modifiedOf id).bind fun found isFound => ?_
    subst isFound
    cases timed : modified? files importers id with
    | none => exact .pure (suspected (.untimed timed))
    | some modified =>
      dsimp only
      split
      · rename_i since
        exact .pure (suspected (.later timed since))
      · rename_i early
        refine Keeps.get fun known sound same => ?_
        split
        · rename_i answer remembered
          exact .pure (sound.stale id time answer remembered)
        · split
          · rename_i again
            have member : id ∈ visiting := same ▸ List.contains_iff_mem.mp again
            exact .pure (suspected (.cyclic (row.trail.leads member)))
          · rename_i fresh
            have new : id ∉ visiting := by simpa [same] using fresh
            refine keeps_lookInto (keeps_anyImport timed early fun found listed other member => ?_)
            apply ih (row.step timed new ⟨found, listed, member⟩)
            rw [List.length_cons]
            omega

/-- A question asked alone, with whatever is known by now. -/
theorem keeps_changedSince (id : SourceId) (time : Nat) :
    Keeps files importers [] (changedSince files importers id time)
      (· = true ↔ ReachesSuspect files importers time id) := by
  have row : IsRow files importers [] id := ⟨List.nodup_nil, by simp, .start⟩
  apply keeps_hasChanged time row
  rw [List.length_nil]
  omega

/-- Questions asked one after the other on one checker. Each answer says whether imports lead to
something that counts as changed, whatever was asked before. -/
theorem changedSince_answers (files : FileTree) (importers : List Importer)
    (questions : List (SourceId × Nat)) :
    List.Forall₂ (fun question answer =>
        answer = true ↔ ReachesSuspect files importers question.2 question.1)
      questions
      ((questions.mapM fun question =>
        changedSince files importers question.1 question.2).run initial).1 := by
  have each (questions : List (SourceId × Nat)) : Keeps files importers []
      (questions.mapM fun question => changedSince files importers question.1 question.2)
      (List.Forall₂ (fun question answer =>
        answer = true ↔ ReachesSuspect files importers question.2 question.1) questions) := by
    induction questions with
    | nil => exact .pure .nil
    | cons question rest ih =>
      rw [List.mapM_cons]
      refine (keeps_changedSince question.1 question.2).bind fun answer answered => ?_
      exact ih.bind fun answers others => .pure (.cons answered others)
  obtain ⟨answers, after, ran, _, _, answered⟩ := each questions initial isSound_initial rfl
  rw [ran]
  exact answered

end Stylesheet.Staleness
