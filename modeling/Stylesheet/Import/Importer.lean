import Stylesheet.Files.Tree
import Stylesheet.Log
import Stylesheet.Style

/-!
Where imported stylesheets come from. An importer knows its stylesheets by canonical names. What a
stylesheet imports is first looked for beside it, by the importer that found it, and then by all
importers in order.
-/

namespace Stylesheet

/-- A stylesheet, by the position of the importer that has it and its name there. -/
structure SourceId where
  importer : Nat
  uri : String
deriving Repr, DecidableEq

/-- A stylesheet that an importer found. -/
structure ImportedSource where
  contents : String
  dialect : Dialect
  /-- The name of the stylesheet in its importer. -/
  canonical : String
deriving Repr, DecidableEq

/-- A source of stylesheets. -/
inductive Importer where
  /-- Stylesheets by name, all changed at one time. -/
  | memory (files : Bindings String String) (modified : Nat)
  /-- The files below a directory. -/
  | directory (root : String)

namespace Importer

/-- The dialect that a file name tells. -/
def dialectOf? (path : String) : Option Dialect :=
  (Path.extension? path).bind Dialect.ofExtension?

/-- The file names that an import may mean, in order: partials first, the indented dialect first.
A name with the extension of a dialect means itself. -/
def candidates (name : String) : List String :=
  if (dialectOf? name).isSome then [name]
  else
    let base := (name.toList.reverse.takeWhile (· != '/')).reverse
    let directory := String.ofList (name.toList.take (name.length - base.length))
    ["_", ""].flatMap fun mark =>
      [Dialect.indented, .scss].map fun dialect =>
        directory ++ mark ++ String.ofList base ++ "." ++ dialect.extension

/-- The first of some names, with a warning if there are others. -/
def firstMatch (names : List String) : Option String × Log :=
  (names.head?,
    if names.length > 1 then [LogEntry.warning "ambiguous import, using the first match"] else [])

/-- The file that an import means in one directory. -/
def findIn (holds : String → Bool) (inDirectory : String → String) (uri : String) :
    Option String × Log :=
  firstMatch (((candidates uri).map inDirectory).filter holds)

/-- Look beside the importing stylesheet first, if there is a place beside it. -/
def findFirst (beside : Option (Option String × Log)) (otherwise : Option String × Log) :
    Option String × Log :=
  match beside with
  | some (some name, log) => (some name, log)
  | _ => otherwise

/-- The directory part of a name, with its slash. -/
private def directoryOf? (name : String) : Option String :=
  match name.toList.reverse.dropWhile (· != '/') with
  | [] => none
  | reversed => some (String.ofList reversed.reverse)

/-- Find the stylesheet that an import means. `base` is the importing stylesheet, if it came from
the same importer. -/
def find (files : FileTree) (importer : Importer) (uri : String) (base : Option String) :
    Except FileError (Option ImportedSource) × Log :=
  match importer with
  | memory sources _ =>
    let lookIn := fun (directory : String) => findIn sources.contains (directory ++ ·) uri
    let (found, log) := findFirst ((base.bind directoryOf?).map lookIn) (lookIn "")
    let source := do
      let name ← found
      let contents ← sources.find? name
      return ⟨contents, (dialectOf? name).getD .indented, name⟩
    (.ok source, log)
  | directory root =>
    let lookIn := fun (directory : String) => findIn files.isFile (Path.join directory) uri
    let (found, log) := findFirst ((base.bind Path.parent?).map lookIn) (lookIn root)
    match found with
    | none => (.ok none, log)
    | some path =>
      match files.readText path with
      | .ok contents => (.ok (some ⟨contents, (dialectOf? path).getD .indented, path⟩), log)
      | .error error => (.error error, log)

/-- When the stylesheet of a canonical name was changed. -/
def modified? (files : FileTree) (importer : Importer) (uri : String) : Option Nat :=
  match importer with
  | memory sources modified => if sources.contains uri then some modified else none
  | directory _ => files.modified? uri

/-- A bound on how many canonical names there are. A file can go by many names, all of them shorter
than the limit on paths. -/
def nameBound : Importer → Nat
  | memory sources _ => sources.length
  | directory _ => Nat.pow 256 FileTree.pathLimit

/-- What the stylesheet of a canonical name is cached under. -/
def cacheKey (importer : Importer) (uri : String) : String × String :=
  match importer with
  | memory _ _ => ("memory", uri)
  | directory root => (root, (Path.relativeTo? root uri).getD uri)

/-- Put a stylesheet in place of the one with its name. Only what is in memory can be changed. -/
def insert (importer : Importer) (uri contents : String) : Importer :=
  match importer with
  | memory sources modified => memory (sources.insert uri contents) modified
  | directory root => directory root

/-- Say when the stylesheets in memory were changed. -/
def touch (importer : Importer) (time : Nat) : Importer :=
  match importer with
  | memory sources _ => memory sources time
  | directory root => directory root

/-- The dialect of a file; the one given if its name does not tell. -/
def dialectOf (path : String) (otherwise : Dialect) : Dialect :=
  (dialectOf? path).getD otherwise

/-- The directory of a file. -/
def besideFile (path : String) : Importer :=
  directory (((Path.parent? path).filter (!·.isEmpty)).getD ".")

end Importer

namespace Importers

def tryAll (files : FileTree) (uri : String) (log : Log) (index : Nat) :
    List Importer → Except FileError (Option (SourceId × ImportedSource)) × Log
  | [] => (.ok none, log)
  | importer :: rest =>
    match importer.find files uri none with
    | (.error error, more) => (.error error, log ++ more)
    | (.ok (some found), more) => (.ok (some (⟨index, found.canonical⟩, found)), log ++ more)
    | (.ok none, more) => tryAll files uri (log ++ more) (index + 1) rest

/-- Find the stylesheet that an import means, beside the importing one first. -/
def resolve (files : FileTree) (importers : List Importer) (uri : String)
    (source : Option SourceId) : Except FileError (Option (SourceId × ImportedSource)) × Log :=
  let beside := do
    let id ← source
    let importer ← importers[id.importer]?
    return (id.importer, importer.find files uri (some id.uri))
  match beside with
  | some (_, .error error, log) => (.error error, log)
  | some (index, .ok (some found), log) => (.ok (some (⟨index, found.canonical⟩, found)), log)
  | some (_, .ok none, log) => tryAll files uri log 0 importers
  | none => tryAll files uri [] 0 importers

/-- A bound on how many stylesheets can import each other in a row without a repetition. -/
def chainBound : List Importer → Nat
  | [] => 0
  | importer :: rest => importer.nameBound + chainBound rest

end Importers

end Stylesheet
