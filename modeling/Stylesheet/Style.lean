import Stylesheet.Text.Blank

/-!
The two source syntaxes and the four output styles.
-/

namespace Stylesheet

/-- How a stylesheet is written: by indentation, or with braces and semicolons. -/
inductive Dialect where
  | indented
  | scss
deriving Repr, DecidableEq, Inhabited

/-- How CSS is laid out. -/
inductive Style where
  | nested
  | expanded
  | compact
  | compressed
deriving Repr, DecidableEq, Inhabited

namespace Dialect

def name : Dialect → String
  | .indented => "indented"
  | .scss => "scss"

/-- The file extension of the dialect, without the dot. -/
def extension : Dialect → String
  | .indented => "sass"
  | .scss => "scss"

/-- The dialect of a file extension, in any case. -/
def ofExtension? (extension : String) : Option Dialect :=
  match Text.lower extension with
  | "sass" => some .indented
  | "scss" => some .scss
  | _ => none

/-- The dialect of a name given in any case. -/
def ofName? (name : String) : Option Dialect :=
  match Text.lower name with
  | "indented" | "sass" => some .indented
  | "scss" => some .scss
  | _ => none

/-- What to say about a name that is no dialect. -/
def unknownMessage (name : String) : String :=
  "unknown syntax `" ++ name ++ "`"

end Dialect

namespace Style

def name : Style → String
  | .nested => "nested"
  | .expanded => "expanded"
  | .compact => "compact"
  | .compressed => "compressed"

/-- The style of a name given in any case. -/
def ofName? (name : String) : Option Style :=
  match Text.lower name with
  | "nested" => some .nested
  | "expanded" => some .expanded
  | "compact" => some .compact
  | "compressed" => some .compressed
  | _ => none

/-- What to say about a name that is no style. -/
def unknownMessage (name : String) : String :=
  "unknown output style `" ++ name ++ "`"

def isCompressed (style : Style) : Bool :=
  style == .compressed

/-- What stands between the items of a comma list. -/
def comma (style : Style) : String :=
  if style.isCompressed then "," else ", "

end Style

end Stylesheet
