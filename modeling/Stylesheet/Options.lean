import Stylesheet.Document
import Stylesheet.Style

/-!
What can be chosen for a compilation.
-/

namespace Stylesheet

structure Options where
  dialect : Dialect
  style : Style
  /-- The directories in which imports are looked for, in order. -/
  loadPaths : List String
  /-- Say in a comment in front of each rule where it comes from. -/
  lineComments : Bool
  /-- Whether results may be taken from the cache and put there. -/
  cache : Bool
  /-- The name of the source in messages. -/
  filename : Option String
  /-- Do not log what `@debug` and `@warn` say. -/
  quiet : Bool
  /-- How many calls may be active at a time. -/
  maxCallDepth : Nat
  /-- How often the body of one loop may run. -/
  maxLoopIterations : Nat
deriving Repr, DecidableEq

namespace Options

def default : Options where
  dialect := .indented
  style := .nested
  loadPaths := []
  lineComments := false
  cache := true
  filename := none
  quiet := false
  maxCallDepth := 64
  maxLoopIterations := 100000

private def dialect? (isVoid : Document → Bool) (document : Document) : Option Dialect := do
  match ← document.name? isVoid with
  | "indented" => some .indented
  | "sass" => some .indented
  | "scss" => some .scss
  | _ => none

private def style? (isVoid : Document → Bool) (document : Document) : Option Style := do
  match ← document.name? isVoid with
  | "nested" => some .nested
  | "expanded" => some .expanded
  | "compact" => some .compact
  | "compressed" => some .compressed
  | _ => none

/-- The value of a key, if it has the right form; the default if the key is missing. -/
private def setting (entries : List (String × Document)) (key : String)
    (read : Document → Option α) (otherwise : α) : Option α :=
  match List.lookup key entries with
  | none => some otherwise
  | some value => read value

/-- The options that a table sets, with defaults for all others. Keys without a meaning do not
matter; a value of the wrong form spoils everything. -/
def ofTable? (isVoid : Document → Bool) (entries : List (String × Document)) : Option Options := do
  return {
    dialect := ← setting entries "syntax" (dialect? isVoid) default.dialect
    style := ← setting entries "style" (style? isVoid) default.style
    loadPaths := ← setting entries "load-paths" Document.texts? default.loadPaths
    lineComments := ← setting entries "line-comments" Document.bool? default.lineComments
    cache := ← setting entries "cache" Document.bool? default.cache
    filename := ← setting entries "filename" Document.optionalText? default.filename
    quiet := ← setting entries "quiet" Document.bool? default.quiet
    maxCallDepth := ← setting entries "max-call-depth" Document.nat? default.maxCallDepth
    maxLoopIterations :=
      ← setting entries "max-loop-iterations" Document.nat? default.maxLoopIterations }

/-- The keys, in the order of their values in a list. -/
def keys : List String :=
  ["syntax", "style", "load-paths", "line-comments", "cache", "filename", "quiet",
    "max-call-depth", "max-loop-iterations"]

/-- The options that a table sets, or a list of the values of the first keys. -/
def ofDocument? (isVoid : Document → Bool) : Document → Option Options
  | .table entries => ofTable? isVoid entries
  | .list items => if items.length ≤ keys.length then ofTable? isVoid (keys.zip items) else none
  | _ => none

end Options

end Stylesheet
