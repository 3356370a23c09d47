import Stylesheet.Text.Blank

/-!
Paths as texts. A path is a sequence of components between slashes; empty components do not count,
and a dot only counts in front.
-/

namespace Stylesheet.Path

/-- A component and where it stands in the text, in characters. -/
structure Piece where
  text : List Char
  start : Nat
deriving Repr, DecidableEq

namespace Piece

def stop (piece : Piece) : Nat :=
  piece.start + piece.text.length

end Piece

/-- Cut a text at its slashes. -/
def cut (start : Nat) (current : List Char) : List Char → List Piece
  | [] => [⟨current.reverse, start⟩]
  | '/' :: rest => ⟨current.reverse, start⟩ :: cut (start + current.length + 1) [] rest
  | c :: rest => cut start (c :: current) rest

def isAbsolute (path : String) : Bool :=
  path.startsWith "/"

/-- The components of a path. -/
def pieces (path : String) : List Piece :=
  (cut 0 [] path.toList).filter fun piece =>
    !piece.text.isEmpty && (piece.text != ['.'] || piece.start == 0)

/-- The names of the components. -/
def components (path : String) : List String :=
  (pieces path).map fun piece => String.ofList piece.text

/-- A path seen from a directory. -/
def join (directory path : String) : String :=
  if isAbsolute path || directory.isEmpty then path
  else if directory.endsWith "/" then directory ++ path
  else directory ++ "/" ++ path

/-- The path without its last component. -/
def parent? (path : String) : Option String :=
  match (pieces path).reverse with
  | [] => none
  | [_] => some (if isAbsolute path then "/" else "")
  | _ :: last :: _ => some (String.ofList (path.toList.take last.stop))

/-- The last component, if it is a name. -/
def fileName? (path : String) : Option String :=
  match (components path).getLast? with
  | none => none
  | some name => if name == "." || name == ".." then none else some name

/-- What follows the last dot of the name, unless the dot stands in front. -/
def extension? (path : String) : Option String := do
  let name ← fileName? path
  let reversed := name.toList.reverse
  match reversed.dropWhile (· != '.') with
  | [] => none
  | [_] => none
  | _ :: _ :: _ => some (String.ofList (reversed.takeWhile (· != '.')).reverse)

/-- The rest of a path behind a directory it starts with. -/
def relativeTo? (directory path : String) : Option String :=
  let outer := components directory
  let inner := pieces path
  if isAbsolute directory == isAbsolute path
      && outer.isPrefixOf (inner.map fun piece => String.ofList piece.text) then
    let rest := inner.drop outer.length
    match rest.head?, rest.getLast? with
    | some first, some last =>
      some (String.ofList ((path.toList.take last.stop).drop first.start))
    | _, _ => some ""
  else none

end Stylesheet.Path
