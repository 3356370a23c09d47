import Stylesheet.Bindings
import Stylesheet.Files.Path
import Stylesheet.Text.Utf8

/-!
A tree of files and directories, as the compiler sees it from a working directory. Absolute paths
are followed from the root, all others from the working directory. There are no links, and nothing
is protected. Times are in milliseconds since the epoch.
-/

namespace Stylesheet

/-- Why a file cannot be used. -/
inductive FileError where
  | notFound
  | exists
  | notDirectory
  | isDirectory
  | nameTooLong
  | invalidName
  | invalidText
deriving Repr, DecidableEq

namespace FileError

def message : FileError → String
  | notFound => "No such file or directory (os error 2)"
  | .exists => "File exists (os error 17)"
  | notDirectory => "Not a directory (os error 20)"
  | isDirectory => "Is a directory (os error 21)"
  | nameTooLong => "File name too long (os error 36)"
  | invalidName => "file name contained an unexpected NUL byte"
  | invalidText => "stream did not contain valid UTF-8"

end FileError

/-- What stands at a place of the tree. -/
inductive FileEntry where
  | file (contents : ByteArray) (modified : Nat)
  | directory (modified : Nat)

/-- All files and directories, by the names that lead to them from the root. -/
structure FileTree where
  entries : Bindings (List String) FileEntry
  /-- The working directory. -/
  here : List String

namespace FileTree

/-- Nothing but the root, which is the working directory. -/
def empty : FileTree := ⟨[], []⟩

/-- Put something at a place. -/
def insert (tree : FileTree) (names : List String) (entry : FileEntry) : FileTree :=
  { tree with entries := tree.entries.insert names entry }

/-- The longest name of a file, in bytes. -/
def nameLimit : Nat := 255

/-- The length that a path stays below, in bytes. -/
def pathLimit : Nat := 4096

/-- What the names lead to; there is always a directory at the root. -/
def entryAt (tree : FileTree) (names : List String) : Option FileEntry :=
  if names.isEmpty then some (.directory 0) else tree.entries.find? names

/-- Follow names from a directory. Two dots lead to the directory around, and the root is around
itself. -/
def follow (tree : FileTree) (place : List String) :
    List String → Except FileError (List String)
  | [] => .ok place
  | name :: rest =>
    match tree.entryAt place with
    | none => .error .notFound
    | some (.file _ _) => .error .notDirectory
    | some (.directory _) =>
      if name == "." then tree.follow place rest
      else if name == ".." then tree.follow place.dropLast rest
      else if name.utf8ByteSize > nameLimit then .error .nameTooLong
      else tree.follow (place ++ [name]) rest

/-- The directory that a path starts from. -/
def start (tree : FileTree) (path : String) : List String :=
  if Path.isAbsolute path then [] else tree.here

/-- The names that lead to a path, whether something is there or not. What a path with a slash at
its end names has to be a directory. -/
def locate (tree : FileTree) (path : String) : Except FileError (List String) :=
  if path.toList.contains '\x00' then .error .invalidName
  else if path.isEmpty then .error .notFound
  else if path.utf8ByteSize ≥ pathLimit then .error .nameTooLong
  else match tree.follow (tree.start path) (Path.components path) with
    | .error error => .error error
    | .ok place =>
      if path.endsWith "/" || path.endsWith "/." then
        match tree.entryAt place with
        | some (.file _ _) => .error .notDirectory
        | _ => .ok place
      else .ok place

/-- What a path names. -/
def entry (tree : FileTree) (path : String) : Except FileError FileEntry := do
  match tree.entryAt (← tree.locate path) with
  | some entry => .ok entry
  | none => .error .notFound

def isFile (tree : FileTree) (path : String) : Bool :=
  match tree.entry path with
  | .ok (.file _ _) => true
  | _ => false

def isDirectory (tree : FileTree) (path : String) : Bool :=
  match tree.entry path with
  | .ok (.directory _) => true
  | _ => false

/-- When what a path names was last changed. -/
def modified? (tree : FileTree) (path : String) : Option Nat :=
  match tree.entry path with
  | .ok (.file _ time) => some time
  | .ok (.directory time) => some time
  | .error _ => none

def read (tree : FileTree) (path : String) : Except FileError ByteArray := do
  match ← tree.entry path with
  | .file contents _ => .ok contents
  | .directory _ => .error .isDirectory

/-- The contents of a file that holds text. -/
def readText (tree : FileTree) (path : String) : Except FileError String := do
  match Text.Utf8.decode? (← tree.read path) with
  | some text => .ok text
  | none => .error .invalidText

/-- The contents of a text file, if there is anything at its path. -/
def text? (tree : FileTree) (path : String) : Option (Except FileError String) :=
  match tree.entry path with
  | .ok _ => some (tree.readText path)
  | .error _ => none

/-- Put contents in a file, which is made if its directory exists. -/
def write (tree : FileTree) (now : Nat) (path : String) (contents : ByteArray) :
    Except FileError FileTree := do
  let place ← tree.locate path
  match tree.entryAt place with
  | some (.directory _) => .error .isDirectory
  | some (.file _ _) => .ok (tree.insert place (.file contents now))
  | none =>
    if path.endsWith "/" || path.endsWith "/." then .error .isDirectory
    else match tree.entryAt place.dropLast with
      | some (.directory _) => .ok (tree.insert place (.file contents now))
      | some (.file _ _) => .error .notDirectory
      | none => .error .notFound

/-- Make a directory in one that exists. -/
def makeDirectory (tree : FileTree) (now : Nat) (path : String) :
    Except FileError FileTree := do
  let place ← tree.locate path
  match tree.entryAt place with
  | some _ => .error .exists
  | none =>
    match tree.entryAt place.dropLast with
    | some (.directory _) => .ok (tree.insert place (.directory now))
    | some (.file _ _) => .error .notDirectory
    | none => .error .notFound

/-- Make a directory and those around it, with a bound on how many these are. -/
def makeDirectoriesWithin (tree : FileTree) (now : Nat) (path : String) :
    Nat → Except FileError FileTree
  | 0 => .error .notFound
  | fuel + 1 => do
    if path.isEmpty then .ok tree
    else match tree.makeDirectory now path with
      | .ok tree => .ok tree
      | .error .notFound =>
        match Path.parent? path with
        | none => .error .notFound
        | some parent =>
          let tree ← tree.makeDirectoriesWithin now parent fuel
          match tree.makeDirectory now path with
          | .ok tree => .ok tree
          | .error error => if tree.isDirectory path then .ok tree else .error error
      | .error error => if tree.isDirectory path then .ok tree else .error error

/-- Make a directory and those around it, as far as they are missing. -/
def makeDirectories (tree : FileTree) (now : Nat) (path : String) : Except FileError FileTree :=
  tree.makeDirectoriesWithin now path (path.length + 1)

/-- Put contents in a file, which is made together with the directories around it. -/
def place (tree : FileTree) (now : Nat) (path : String) (contents : ByteArray) :
    Except FileError FileTree := do
  let tree ← tree.makeDirectories now ((Path.parent? path).getD "")
  tree.write now path contents

/-- Remove a file. -/
def remove (tree : FileTree) (path : String) : Except FileError FileTree := do
  let place ← tree.locate path
  match tree.entryAt place with
  | some (.file _ _) =>
    .ok { tree with entries := tree.entries.filter fun (names, _) => names != place }
  | some (.directory _) => .error .isDirectory
  | none => .error .notFound

/-- The paths of all files below the working directory, in order. -/
def files (tree : FileTree) : List String :=
  let paths := tree.entries.filterMap fun (names, entry) =>
    match entry with
    | .file _ _ =>
      if tree.here.isPrefixOf names then some ("/".intercalate (names.drop tree.here.length))
      else none
    | .directory _ => none
  paths.mergeSort fun a b => decide (a ≤ b)

end FileTree

end Stylesheet
