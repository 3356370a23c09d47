import Stylesheet.Import.Importer
import Stylesheet.Statement.Parser

/-!
Whether a stylesheet or something it imports has changed. A stylesheet counts as changed if its
time is not known, if what it imports cannot be found out, and if it imports itself.
-/

namespace Stylesheet

mutual

/-- The names that a statement imports, and those below it. The other branches of conditionals are
not looked at. -/
def Statement.imports : Statement → List String
  | .mk (.importing (.stylesheet uri)) children _ _ _ => uri :: Statement.importsOfAll children
  | .mk _ children _ _ _ => Statement.importsOfAll children

def Statement.importsOfAll : List Statement → List String
  | [] => []
  | s :: rest => Statement.imports s ++ Statement.importsOfAll rest

end

/-- What is known about stylesheets so far. -/
structure Staleness where
  /-- When stylesheets were changed; nothing, if that is not known. -/
  times : Bindings SourceId (Option Nat)
  /-- What stylesheets import; nothing, if that cannot be found out. -/
  dependencies : Bindings SourceId (Option (List SourceId))
  /-- Whether stylesheets have changed since a time. -/
  stale : Bindings (SourceId × Nat) Bool
  /-- The stylesheets being looked at. -/
  visiting : List SourceId
  log : Log

namespace Staleness

/-- Nothing is known. -/
def initial : Staleness := ⟨[], [], [], [], []⟩

/-- Finding out about stylesheets. -/
abbrev Checking := StateM Staleness

def logEntries (entries : Log) : Checking Unit :=
  modify fun known => { known with log := known.log ++ entries }

/-- When a stylesheet was changed, if that is known. -/
def modifiedOf (files : FileTree) (importers : List Importer) (id : SourceId) :
    Checking (Option Nat) := do
  match (← get).times.find? id with
  | some known => return known
  | none =>
    let modified := (importers[id.importer]?).bind fun importer => importer.modified? files id.uri
    modify fun known => { known with times := known.times.insert id modified }
    return modified

def resolveAll (files : FileTree) (importers : List Importer) (id : SourceId) :
    List String → Checking (Option (List SourceId))
  | [] => return some []
  | uri :: rest => do
    let (found, log) := Importers.resolve files importers uri (some id)
    logEntries log
    match found with
    | .ok (some (dependency, _)) =>
      return (← resolveAll files importers id rest).map (dependency :: ·)
    | _ => return none

/-- Find out what a stylesheet imports. -/
def computeDependencies (files : FileTree) (importers : List Importer) (id : SourceId) :
    Checking (Option (List SourceId)) := do
  match importers[id.importer]? with
  | none => return none
  | some importer =>
    let (found, log) := importer.find files id.uri none
    logEntries log
    match found with
    | .ok (some source) =>
      match Statement.parse source.contents source.dialect (some id.uri) with
      | .ok root => resolveAll files importers id root.imports
      | .error _ => return none
    | _ => return none

/-- What a stylesheet imports, if that can be found out. -/
def dependenciesOf (files : FileTree) (importers : List Importer) (id : SourceId) :
    Checking (Option (List SourceId)) := do
  match (← get).dependencies.find? id with
  | some known => return known
  | none =>
    let found ← computeDependencies files importers id
    modify fun known => { known with dependencies := known.dependencies.insert id found }
    return found

/-- Whether one of some stylesheets satisfies a check, asked in order up to the first that does. -/
def anyOf (check : SourceId → Checking Bool) : List SourceId → Checking Bool
  | [] => return false
  | id :: rest => do
    if ← check id then return true else anyOf check rest

/-- Look into a stylesheet, noting that, and keep the answer. -/
def lookInto (time : Nat) (id : SourceId) (look : Checking Bool) : Checking Bool := do
  modify fun known => { known with visiting := id :: known.visiting }
  let stale ← look
  modify fun known =>
    { known with
      visiting := known.visiting.erase id
      stale := known.stale.insert (id, time) stale }
  return stale

/-- Whether a stylesheet or one it imports has changed since a time, looking at `depth` imports in
a row at most. -/
def hasChanged (files : FileTree) (importers : List Importer) (time : Nat) :
    (depth : Nat) → SourceId → Checking Bool
  | 0, _ => return true
  | depth + 1, id => do
    match ← modifiedOf files importers id with
    | none => return true
    | some modified =>
      if modified > time then return true
      else
        let known ← get
        match known.stale.find? (id, time) with
        | some stale => return stale
        | none =>
          if known.visiting.contains id then return true
          else
            lookInto time id do
              match ← dependenciesOf files importers id with
              | none => return true
              | some dependencies =>
                anyOf (hasChanged files importers time depth) dependencies

/-- Whether a stylesheet or one it imports has changed since a time. -/
def changedSince (files : FileTree) (importers : List Importer) (id : SourceId) (time : Nat) :
    Checking Bool :=
  hasChanged files importers time (Importers.chainBound importers + 1) id

/-- Whether one of several stylesheets has changed. -/
def anyChangedSince (files : FileTree) (importers : List Importer) (time : Nat)
    (ids : List SourceId) : Checking Bool :=
  anyOf (fun id => changedSince files importers id time) ids

/-- Whether a stylesheet has to be compiled again: it has changed, or it was never compiled. -/
def needsUpdate (files : FileTree) (importers : List Importer) (id : SourceId)
    (compiledAt : Option Nat) : Checking Bool :=
  match compiledAt with
  | none => return true
  | some time => changedSince files importers id time

end Staleness

end Stylesheet
