import Stylesheet.Digest
import Stylesheet.Import.Importer
import Stylesheet.Options
import Stylesheet.Text.Json

/-!
What the cache keeps of a compilation, and what identifies it.
-/

namespace Stylesheet

/-- The version of the compiler. What another version has cached does not count. -/
def version : String := "0.1.0"

/-- A compiled stylesheet in the cache. -/
structure Artifact where
  css : String
  /-- When the compilation started, in milliseconds since the epoch. -/
  compiledAt : Nat
  dependencies : List SourceId
deriving Repr, DecidableEq

namespace Artifact

def sourceText (id : SourceId) : String :=
  "\x7b\"importer\":" ++ toString id.importer ++ ",\"uri\":" ++ Json.quote id.uri ++ "\x7d"

def toText (artifact : Artifact) : String :=
  "\x7b\"css\":" ++ Json.quote artifact.css ++ ",\"compiled_at\":" ++
    toString artifact.compiledAt ++ ",\"dependencies\":[" ++
    ",".intercalate (artifact.dependencies.map sourceText) ++ "]\x7d"

def toBytes (artifact : Artifact) : ByteArray :=
  artifact.toText.toUTF8

/-- The values of some keys of a table, in which each occurs once; or the items of a list of the
same length. -/
def fields? (keys : List String) : Document → Option (List Document)
  | .list items => if items.length = keys.length then some items else none
  | .table entries =>
    keys.mapM fun key =>
      match entries.filter (·.1 == key) with
      | [(_, value)] => some value
      | _ => none
  | _ => none

def source? (document : Document) : Option SourceId := do
  match ← fields? ["importer", "uri"] document with
  | [importer, uri] => return ⟨← importer.nat?, ← uri.text?⟩
  | _ => none

def sources? : Document → Option (List SourceId)
  | .list items => items.mapM source?
  | _ => none

/-- Read an artifact back. -/
def ofBytes? (bytes : ByteArray) : Option Artifact := do
  let document ← Json.read? (← Text.Utf8.decode? bytes)
  match ← fields? ["css", "compiled_at", "dependencies"] document with
  | [css, compiledAt, dependencies] =>
    return ⟨← css.text?, ← compiledAt.nat?, ← sources? dependencies⟩
  | _ => none

end Artifact

/-- What decides the output, as bytes: the text, the options that matter, and the version. -/
def hashInput (source : String) (options : Options) : ByteArray :=
  let choices := options.style.name ++ "|" ++ options.dialect.name ++ "|" ++
    (if options.lineComments then "true" else "false") ++ "|" ++ version
  (source.toUTF8.push 0) ++ choices.toUTF8

/-- A digest of what decides the output. -/
def contentHash (source : String) (options : Options) : String :=
  Digest.sha256 (hashInput source options)

end Stylesheet
