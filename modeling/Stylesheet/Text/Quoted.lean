/-!
Quoting a text. The quotes are double unless the text holds double quotes and no single ones; a
character behind an odd run of backslashes is escaped and stays as it is.
-/

namespace Stylesheet.Text.Quoted

/-- Whether the next character is escaped, given whether this one is. -/
def escapes (escaped : Bool) (c : Char) : Bool :=
  c == '\\' && !escaped

/-- Whether `needle` occurs without an escape. -/
def hasBare (needle : Char) : (escaped : Bool) → List Char → Bool
  | _, [] => false
  | escaped, c :: rest =>
    (c == needle && !escaped) || hasBare needle (escapes escaped c) rest

/-- Put a backslash before every double quote that has none. -/
def escapeDouble : (escaped : Bool) → List Char → List Char
  | _, [] => []
  | escaped, c :: rest =>
    if c == '"' && !escaped then '\\' :: c :: escapeDouble (escapes escaped c) rest
    else c :: escapeDouble (escapes escaped c) rest

/-- The characters of the quoted text. -/
def encode (text : List Char) : List Char :=
  if hasBare '"' false text && !hasBare '\'' false text then '\'' :: text ++ ['\'']
  else '"' :: escapeDouble false text ++ ['"']

end Quoted

/-- The text in quotes. -/
def quote (text : String) : String :=
  String.ofList (Quoted.encode text.toList)

end Stylesheet.Text
