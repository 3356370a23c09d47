/-!
Messages to whoever runs the compiler, beside its result.
-/

namespace Stylesheet

inductive LogLevel where
  | info
  | warn
deriving Repr, DecidableEq

namespace LogLevel

def name : LogLevel → String
  | info => "INFO"
  | warn => "WARN"

end LogLevel

structure LogEntry where
  level : LogLevel
  text : String
deriving Repr, DecidableEq

/-- Messages, first one first. -/
abbrev Log := List LogEntry

namespace LogEntry

def warning (text : String) : LogEntry := ⟨.warn, text⟩

def toText (entry : LogEntry) : String :=
  entry.level.name ++ ": " ++ entry.text

end LogEntry

end Stylesheet
