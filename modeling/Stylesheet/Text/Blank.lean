/-!
Text by characters: blanks, trimming, lines and sizes in bytes. A blank is a character with the
white-space property of the Unicode standard.
-/

namespace Stylesheet.Text

/-- The white-space characters. -/
def isBlank (c : Char) : Bool :=
  let n := c.toNat
  (0x09 ≤ n && n ≤ 0x0d) || n == 0x20 || n == 0x85 || n == 0xa0 || n == 0x1680 ||
    (0x2000 ≤ n && n ≤ 0x200a) || n == 0x2028 || n == 0x2029 || n == 0x202f || n == 0x205f ||
    n == 0x3000

/-- The size of some characters in bytes. -/
def size (text : List Char) : Nat :=
  text.foldl (fun total c => total + c.utf8Size) 0

/-- Drop characters from the end while they satisfy `p`. -/
def dropEndWhile (p : Char → Bool) (text : List Char) : List Char :=
  (text.reverse.dropWhile p).reverse

/-- Drop the blanks in front. -/
def trimStart (text : String) : String :=
  String.ofList (text.toList.dropWhile isBlank)

/-- Drop the blanks at the end. -/
def trimEnd (text : String) : String :=
  String.ofList (dropEndWhile isBlank text.toList)

/-- Drop the blanks on both sides. -/
def trim (text : String) : String :=
  String.ofList (dropEndWhile isBlank (text.toList.dropWhile isBlank))

/-- ASCII letters in lower case, all else unchanged. -/
def lower (text : String) : String :=
  text.map Char.toLower

/-- Replace one character by another. -/
def replaceChar (old new : Char) (text : String) : String :=
  text.map fun c => if c == old then new else c

/-- Names compare with `_` and `-` taken as the same character. -/
def normalizeName (name : String) : String :=
  replaceChar '_' '-' name

/-- `text` with `count` copies of the indentation unit. -/
def indent (count : Nat) : String :=
  String.ofList (List.replicate (2 * count) ' ')

/-- Cut at every line feed. -/
def splitLines : List Char → List (List Char)
  | [] => [[]]
  | c :: rest =>
    if c == '\n' then [] :: splitLines rest
    else match splitLines rest with
      | [] => [[c]]
      | line :: more => (c :: line) :: more

/-- The lines of a text: cut at line feeds, without the carriage return in front of one, and
without an empty last line. -/
def lines (text : String) : List String :=
  let pieces := splitLines text.toList
  let ended := pieces.dropLast.map dropReturn
  match pieces.getLast? with
  | none => ended.map String.ofList
  | some [] => ended.map String.ofList
  | some last => (ended ++ [last]).map String.ofList
where
  dropReturn (line : List Char) : List Char :=
    if line.getLast? == some '\r' then line.dropLast else line

end Stylesheet.Text
