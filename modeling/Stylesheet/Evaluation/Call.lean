import Stylesheet.Evaluation.Basic

/-!
Calls of mixins and functions: the limit on their depth, and the binding of arguments. Arguments
by position fill parameters in order, arguments by name fill those they name, and defaults, which
see the parameters before them, fill the rest.
-/

namespace Stylesheet.Evaluation

/-- Fail if one more call would be too many. -/
def checkDepth (line : Nat) (span : Span) : Evaluating Unit := do
  let limit := (← options).maxCallDepth
  if (← get).env.calls.length ≥ limit then
    throw (Diagnostic.error
        ("Too many nested mixin and function calls (limit " ++ toString limit ++ ").")
      |>.withFault .limitExceeded
      |>.withLabel span "call limit reached here"
      |>.withLine line)

private def sameName (a b : String) : Bool :=
  Text.normalizeName a == Text.normalizeName b

private def tooMany (callable : Callable) (count : Nat) : String :=
  let expected := callable.params.length
  match callable.kind with
  | .mixin =>
    "Mixin " ++ callable.name ++ " takes " ++ toString expected ++
      (if expected = 1 then " argument" else " arguments") ++ " but " ++ toString count ++
      (if count = 1 then " was" else " were") ++ " passed."
  | .function =>
    "Wrong number of arguments (" ++ toString count ++ " for " ++ toString expected ++ ") for `" ++
      callable.name ++ "'"

/-- Why arguments do not fit the parameters, whatever their values are. -/
def misfit? (callable : Callable) (count : Nat) (keywords : List String) : Option String :=
  let title := callable.kind.title ++ " " ++ callable.name
  if count > callable.params.length then some (tooMany callable count)
  else keywords.findSome? fun keyword =>
    match callable.params.findIdx? fun param => sameName param.name keyword with
    | none => some (title ++ " doesn't have an argument named $" ++ keyword)
    | some index =>
      if index < count then
        some (title ++ " was passed argument $" ++ keyword ++ " both by position and by name.")
      else none

/-- Take an item out of a list. The last one moves into the gap. -/
def swapRemove (items : List α) (index : Nat) : List α :=
  match items.getLast? with
  | some last => (items.set index last).dropLast
  | none => []

/-- Take the first keyword of a name out of some. -/
def takeKeyword (name : String) (keywords : List (String × Value)) :
    Option (Value × List (String × Value)) :=
  match keywords.findIdx? fun keyword => sameName keyword.1 name with
  | none => none
  | some index =>
    keywords[index]?.map fun keyword => (keyword.2, swapRemove keywords index)

/-- Declare parameters in a scope, in order. -/
def bindParams (run : Runner) (callable : Callable) (scope : ScopeId)
    (fail : String → Diagnostic) :
    List Param → List Value → List (String × Value) → Evaluating Unit
  | [], _, _ => return ()
  | param :: params, value :: values, keywords => do
    modifyEnv (·.declare scope param.name value)
    bindParams run callable scope fail params values keywords
  | param :: params, [], keywords => do
    match takeKeyword param.name keywords with
    | some (value, others) =>
      modifyEnv (·.declare scope param.name value)
      bindParams run callable scope fail params [] others
    | none =>
      match param.defaultValue with
      | some expr =>
        let value ← run.expr expr scope
        modifyEnv (·.declare scope param.name value)
        bindParams run callable scope fail params [] keywords
      | none =>
        throw (fail (callable.kind.title ++ " " ++ callable.name ++ " is missing argument $" ++
          param.name ++ "."))

/-- Do something in a scope in which the parameters of a callable have their arguments. -/
def withArguments (run : Runner) (callable : Callable) (positional : List Value)
    (keywords : List (String × Value)) (line : Nat) (span : Span)
    (action : ScopeId → Evaluating α) : Evaluating α := do
  let fail := fun message => callError message line span
  match misfit? callable positional.length (keywords.map (·.1)) with
  | some message => throw (fail message)
  | none =>
    inScope callable.scope fun scope => do
      bindParams run callable scope fail callable.params positional keywords
      action scope

/-- Call a function of the stylesheet. -/
def callFunction (run : Runner) (function : Callable) (positional : List Value)
    (keywords : List (String × Value)) (line : Nat) (span : Span) : Evaluating Value := do
  checkDepth line span
  let call := ⟨.function, function.name, line, (← get).filename⟩
  let outcome ← duringCall call <|
    withArguments run function positional keywords line span (run.body function.body)
  match outcome.returned with
  | some value => return value
  | none =>
    throw (Diagnostic.error ("Function " ++ function.name ++ " finished without @return")
      |>.withFault .missingReturn
      |>.withLabel span "called here"
      |>.withLine line)

end Stylesheet.Evaluation
