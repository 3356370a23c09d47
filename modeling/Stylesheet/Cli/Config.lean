import Stylesheet.Cli.Invocation
import Stylesheet.Files.Tree
import Stylesheet.Options
import Stylesheet.Text.Toml

/-!
Settings of the command line: those of a configuration file, changed by the invocation.
-/

namespace Stylesheet.Cli

/-- Why a configuration file cannot be used. -/
inductive ConfigError where
  | missing (path : String)
  | invalid
  | unreadable (error : FileError)
deriving Repr, DecidableEq

namespace ConfigError

def message : ConfigError → String
  | missing path => "Missing configuration file: " ++ path
  | invalid => "Failed to parse TOML configuration:"
  | unreadable error => error.message

end ConfigError

/-- What a configuration file sets. -/
structure Config where
  options : Options
  cacheLocation : String
deriving Repr, DecidableEq

namespace Config

def default : Config := ⟨.default, ".sable-cache"⟩

/-- The configuration file of a project, seen from its directory. -/
def projectPath : String := "sable/config.toml"

/-- The configuration file of a user, seen from the directory for the configuration of all
programs. -/
def userPath : String := "sable/config.toml"

/-- The settings that a text writes. The options stand beside the place of the cache. -/
def ofText? (text : String) : Option Config := do
  let document ← Toml.read? text
  let cacheLocation ← match document.field? "cache-location" with
    | none => some default.cacheLocation
    | some value => value.text?
  return ⟨← Options.ofDocument? Document.isEmptyTable document, cacheLocation⟩

private def ofContents : Except FileError String → Except ConfigError Config
  | .error error => .error (.unreadable error)
  | .ok text =>
    match ofText? text with
    | some config => .ok config
    | none => .error .invalid

/-- The settings of the file that is asked for, or else of the project's file, or else of the
user's, whose contents are given if it exists. -/
def load (files : FileTree) (asked : Option String)
    (user : Option (Except FileError String)) : Except ConfigError Config :=
  match asked with
  | some path =>
    match files.text? path with
    | some contents => ofContents contents
    | none => .error (.missing path)
  | none =>
    match (files.text? projectPath).or user with
    | some contents => ofContents contents
    | none => .ok default

/-- What the command line says counts more; its load paths follow those of the file. -/
def applying (config : Config) (invocation : Invocation) : Config :=
  let options := config.options
  ⟨{ options with
      style := invocation.style.getD options.style
      dialect := invocation.dialect.getD options.dialect
      loadPaths := options.loadPaths ++ invocation.loadPaths
      lineComments := options.lineComments || invocation.lineComments
      cache := options.cache && !invocation.noCache },
    invocation.cacheLocation.getD config.cacheLocation⟩

end Config

end Stylesheet.Cli
