import Stylesheet.Diagnostic.Code
import Stylesheet.Source.Span

/-!
Errors and warnings about a stylesheet, with the places they point at and the chain of calls and
imports that led there.
-/

namespace Stylesheet

inductive Severity where
  | warning
  | error
  /-- The stylesheet may be right: the compiler broke off. -/
  | defect
deriving Repr, DecidableEq

namespace Severity

def name : Severity → String
  | warning => "warning"
  | error => "error"
  | defect => "defect"

end Severity

/-- A remark on a part of the source. -/
structure Label where
  span : Span
  message : String
  /-- The place at fault, not one that explains it. -/
  primary : Bool
deriving Repr, DecidableEq

/-- One step of the way to a fault: where, and in which mixin. -/
structure Frame where
  filename : Option String
  line : Option Nat
  mixin : Option String
deriving Repr, DecidableEq, Inhabited

namespace Frame

/-- A frame about which nothing is known. -/
def unknown : Frame := ⟨none, none, none⟩

def atLine (line : Nat) : Frame :=
  ⟨none, some line, none⟩

def isUnknown (frame : Frame) : Bool :=
  frame.filename.isNone && frame.line.isNone && frame.mixin.isNone

/-- What the first frame leaves open is taken from the second. -/
def complete (frame other : Frame) : Frame :=
  ⟨frame.filename <|> other.filename, frame.line <|> other.line, frame.mixin <|> other.mixin⟩

end Frame

/-- One error or warning. The innermost frame of the trace comes first. -/
structure Diagnostic where
  severity : Severity
  fault : Option Fault
  message : String
  labels : List Label
  help : Option String
  trace : List Frame
deriving Repr, DecidableEq

namespace Diagnostic

def error (message : String) : Diagnostic :=
  ⟨.error, none, message, [], none, []⟩

def warning (message : String) : Diagnostic :=
  ⟨.warning, none, message, [], none, []⟩

def defect (message : String) : Diagnostic :=
  ⟨.defect, none, message, [], none, []⟩

/-- The innermost frame, as far as it is known. -/
private def innermost (d : Diagnostic) : Frame :=
  d.trace.headD Frame.unknown

def line (d : Diagnostic) : Option Nat := d.innermost.line

def filename (d : Diagnostic) : Option String := d.innermost.filename

def mixin (d : Diagnostic) : Option String := d.innermost.mixin

def withFault (d : Diagnostic) (fault : Fault) : Diagnostic :=
  { d with fault := some fault }

def withLabel (d : Diagnostic) (span : Span) (message : String) : Diagnostic :=
  { d with labels := d.labels ++ [⟨span, message, true⟩] }

def withSecondaryLabel (d : Diagnostic) (span : Span) (message : String) : Diagnostic :=
  { d with labels := d.labels ++ [⟨span, message, false⟩] }

def withHelp (d : Diagnostic) (help : String) : Diagnostic :=
  { d with help := some help }

/-- Complete the outermost frame of a trace. -/
private def completeLast (frame : Frame) : List Frame → List Frame
  | [] => [frame]
  | [last] => [last.complete frame]
  | first :: rest => first :: completeLast frame rest

/-- Add what is known to the outermost frame, without replacing anything. -/
def locate (d : Diagnostic) (frame : Frame) : Diagnostic :=
  if frame.isUnknown then d else { d with trace := completeLast frame d.trace }

/-- Add a frame around the outermost one. -/
def addFrame (d : Diagnostic) (frame : Frame) : Diagnostic :=
  let trace := if d.trace.isEmpty then [Frame.unknown] else d.trace
  { d with trace := trace ++ [frame] }

def withLine (d : Diagnostic) (line : Nat) : Diagnostic :=
  d.locate (Frame.atLine line)

def withFilename (d : Diagnostic) (filename : Option String) : Diagnostic :=
  d.locate ⟨filename, none, none⟩

private def frameText (defaultFilename : String) (isFirst : Bool) (frame : Frame) : String :=
  match frame.line with
  | none => ""
  | some line =>
    (if isFirst then "  on line " else "  from line ") ++ toString line ++ " of " ++
      frame.filename.getD defaultFilename ++
      (match frame.mixin with
        | some mixin => ", in `" ++ mixin ++ "'"
        | none => "") ++ "\n"

/-- The trace in words, one line for each frame whose line is known. -/
def traceText (d : Diagnostic) (defaultFilename : String) : String :=
  match d.trace with
  | [] => ""
  | first :: rest =>
    frameText defaultFilename true first ++ String.join (rest.map (frameText defaultFilename false))

/-- Severity, code and message in one line. -/
def toText (d : Diagnostic) : String :=
  d.severity.name ++
    (match d.fault with
      | some fault => "[" ++ fault.code ++ "]"
      | none => "") ++ ": " ++ d.message

/-- The first diagnostic in one line and the number of those behind it. -/
def summary : List Diagnostic → String
  | [] => ""
  | [first] => first.toText
  | first :: rest => first.toText ++ " (+" ++ toString rest.length ++ " more)"

/-- The family of the fault, if it has one. -/
def kind (d : Diagnostic) : Option FaultKind :=
  d.fault.map Fault.kind

/-- Diagnostics of a stage that goes on after a fault: a failure if one of them is an error. -/
def settle (found : List Diagnostic) : Except (List Diagnostic) (List Diagnostic) :=
  if found.any (·.severity == .error) then .error found else .ok found

end Diagnostic

end Stylesheet
