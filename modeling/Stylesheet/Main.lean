import Stylesheet.Cli.Run

/-!
The program. It takes a copy of the files below the working directory and below the directories that
arguments and settings name, lets the command line work on the copy, and writes back what has changed.
-/

namespace Stylesheet.Program

open Cli

private def milliseconds (time : IO.FS.SystemTime) : Nat :=
  time.sec.toNat * 1000 + time.nsec.toNat / 1000000

/-- How deep directories are looked into. -/
private def depthLimit : Nat := 32

/-- Copy files and directories with all that is below them into a tree. What cannot be read is left
out. -/
private def copyAll : Nat → List String → FileTree → Array IO.FS.DirEntry → IO FileTree
  | 0, _, tree, _ => return tree
  | depth + 1, directory, tree, found =>
    found.foldlM
      (fun tree item => do
        let names := directory ++ [item.fileName]
        try
          let metadata ← item.path.metadata
          let modified := milliseconds metadata.modified
          match metadata.type with
          | .dir =>
            copyAll depth names (tree.insert names (.directory modified)) (← item.path.readDir)
          | .file =>
            let contents ← IO.FS.readBinFile item.path
            return tree.insert names (.file contents modified)
          | _ => return tree
        catch _ => return tree)
      tree

/-- The path from the root. -/
private def pathTo (names : List String) : String :=
  "/" ++ "/".intercalate names

/-- Copy a directory and those around it into a tree. Of the root only what stands in it is
copied. -/
private def copyDirectory (tree : FileTree) (names : List String) : IO FileTree := do
  try
    let found ← (← IO.FS.realPath (pathTo names)).readDir
    let around := (List.range names.length).foldl (fun (tree : FileTree) count =>
      let outer := names.take (count + 1)
      if (tree.entryAt outer).isNone then tree.insert outer (.directory 0) else tree) tree
    copyAll (if names.isEmpty then 1 else depthLimit) names around found
  catch _ => return tree

/-- Where a path leads, with directories on the way. -/
private def placeOf (tree : FileTree) (path : String) : List String :=
  (Path.components path).foldl (fun place name =>
    if name == "." then place else if name == ".." then place.dropLast else place ++ [name])
    (tree.start path)

/-- Copy directories that are named by their paths, as far as they are not below the working
directory. -/
private def copyNamed (tree : FileTree) (paths : List String) : IO FileTree :=
  paths.foldlM (fun tree path => do
    let names := placeOf tree path
    if tree.here.isPrefixOf names then return tree else copyDirectory tree names) tree

/-- The directory of a file. -/
private def besidePath (path : String) : String :=
  (Path.parent? path).getD ""

/-- The directories that arguments and settings name. -/
private def directoriesOf (invocation : Invocation) (config : Config) : List String :=
  besidePath invocation.input :: (invocation.output.map besidePath).toList ++
    config.options.loadPaths ++ [config.cacheLocation]

/-- The time of the last change in a tree. A result that is at least as young holds for all files
in it. -/
private def lastChange (tree : FileTree) : Nat :=
  tree.entries.foldl (fun latest (_, entry) =>
    match entry with
    | .file _ modified => max latest modified
    | .directory _ => latest) 0

/-- Write the files that are not the same in an older tree. -/
private def writeChanges (older newer : FileTree) : IO Unit :=
  newer.entries.forM fun (names, entry) => do
    match entry with
    | .directory _ => pure ()
    | .file contents _ =>
      let same := match older.entries.find? names with
        | some (.file known _) => known.data == contents.data
        | _ => false
      unless same do
        IO.FS.createDirAll (pathTo names.dropLast)
        IO.FS.writeBinFile (pathTo names) contents

/-- What the configuration file of the user holds, if there is one. -/
private def userConfig : IO (Option (Except FileError String)) := do
  let home ← IO.getEnv "HOME"
  let configured ← IO.getEnv "XDG_CONFIG_HOME"
  match (configured.filter Path.isAbsolute).or (home.map (Path.join · ".config")) with
  | none => return none
  | some directory =>
    try
      let bytes ← IO.FS.readBinFile (Path.join directory Config.userPath)
      return some (match Text.Utf8.decode? bytes with
        | some text => .ok text
        | none => .error .invalidText)
    catch _ => return none

/-- Whether messages of a level are shown when this one is asked for. -/
private def shows (asked : String) : LogLevel → Bool
  | .warn => ["warn", "info", "debug", "trace"].contains asked.toLower
  | .info => ["info", "debug", "trace"].contains asked.toLower

private def reportText (report : Report) : String :=
  let code := match report.code with
    | some code => "[" ++ code ++ "] "
    | none => ""
  let help := match report.help with
    | some help => "  help: " ++ help ++ "\n"
    | none => ""
  code ++ report.message ++ "\n" ++ help ++ report.backtrace.getD ""

private def usage : String :=
  "Usage: sable [OPTIONS] <INPUT>\n\n" ++
  "  -o, --output <FILE>          Output file; standard output when absent\n" ++
  "      --style <STYLE>          nested, expanded, compact or compressed\n" ++
  "      --syntax <SYNTAX>        Syntax of an input whose extension does not tell\n" ++
  "  -I, --load-path <DIRECTORY>  Directory searched by @import; may be repeated\n" ++
  "      --line-comments          Comments before each rule that tell its origin\n" ++
  "      --no-cache               Neither read nor write the cache\n" ++
  "      --cache-location <DIRECTORY>\n" ++
  "      --to <SYNTAX>            Convert to another syntax instead of CSS\n" ++
  "  -c, --config <FILE>          Configuration file\n" ++
  "      --log-level <LEVEL>      off, error, warn, info, debug or trace\n" ++
  "  -h, --help\n" ++
  "  -V, --version\n"

private def refuse (error : UsageError) : IO UInt32 := do
  match error with
  | .helpRequested =>
    IO.print usage
    return 0
  | .versionRequested =>
    IO.println ("sable " ++ version)
    return 0
  | error =>
    IO.eprint ("error: " ++ error.name ++ "\n\n" ++ usage)
    return 2

/-- Carry out the arguments, and give the exit code. -/
def execute (invocation : Invocation) : IO UInt32 := do
  let user ← userConfig
  let here := Path.components (← IO.currentDir).toString
  let files ← copyDirectory ⟨[], here⟩ here
  let files ← copyNamed files (invocation.config.map besidePath).toList
  let files ← match Config.load files invocation.config user with
    | .ok found => copyNamed files (directoriesOf invocation (found.applying invocation))
    | .error _ => pure files
  let start : Workspace := ⟨files, [], [], [], lastChange files⟩
  let (result, after) := (Cli.run invocation user).run start
  writeChanges files after.files
  for entry in after.log do
    if shows invocation.logLevel entry.level then IO.eprintln entry.toText
  match result with
  | .ok output =>
    if invocation.output.isNone then IO.print output
    return 0
  | .error failure =>
    for report in failure.reports invocation.input do
      IO.eprintln (reportText report)
    return 1

end Stylesheet.Program

def main (arguments : List String) : IO UInt32 :=
  match Stylesheet.Cli.Invocation.read arguments with
  | .ok invocation => Stylesheet.Program.execute invocation
  | .error error => Stylesheet.Program.refuse error
