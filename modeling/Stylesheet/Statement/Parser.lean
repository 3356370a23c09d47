import Stylesheet.Statement.Braces
import Stylesheet.Statement.Indented

/-!
Whole stylesheets.
-/

namespace Stylesheet.Statement

/-- Read a stylesheet. The name of the file is recorded in every statement, or in the error. -/
def parse (text : String) (dialect : Dialect) (filename : Option String) :
    Except Diagnostic Statement :=
  let parsed := match dialect with
    | .indented => Indented.parse text
    | .scss => Braces.parse text
  match parsed with
  | .ok root => .ok (root.withFilename filename)
  | .error error => .error (error.withFilename filename)

end Stylesheet.Statement
