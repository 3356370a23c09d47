import Stylesheet.Evaluation.Expr

/-!
Loops. All runs of the body of a loop share one scope. A loop that would run too often fails.
-/

namespace Stylesheet.Evaluation

/-- The error for a loop that runs too often. -/
def loopLimit (directive : String) (limit line : Nat) (span : Span) : Diagnostic :=
  Diagnostic.error
      (directive ++ " loop exceeded the limit of " ++ toString limit ++ " iterations.")
    |>.withFault .limitExceeded
    |>.withLabel span "loop starts here"
    |>.withLine line

/-- Put the nodes of all runs together, given last run first. -/
def gather (runs : List (List Css)) (returned : Option Value) : Outcome :=
  ⟨runs.reverse.flatten, returned⟩

/-- Run a body as long as a condition holds, at most `remaining` times. -/
def whileHolds (condition : Evaluating Bool) (body : Evaluating Outcome) (tooMany : Diagnostic)
    (runs : List (List Css)) : (remaining : Nat) → Evaluating Outcome
  | 0 => do
    if ← condition then throw tooMany else return gather runs none
  | remaining + 1 => do
    if ← condition then
      let outcome ← body
      let runs := outcome.css :: runs
      match outcome.returned with
      | some value => return gather runs (some value)
      | none => whileHolds condition body tooMany runs remaining
    else return gather runs none

/-- Run a body for `remaining` integers from `next` on. -/
def forIntegers (body : Int → Evaluating Outcome) (runs : List (List Css)) (next : Int) :
    (remaining : Nat) → Evaluating Outcome
  | 0 => return gather runs none
  | remaining + 1 => do
    let outcome ← body next
    let runs := outcome.css :: runs
    match outcome.returned with
    | some value => return gather runs (some value)
    | none => forIntegers body runs (next + 1) remaining

/-- Run a body for each of some values. -/
def forValues (body : Value → Evaluating Outcome) (runs : List (List Css)) :
    List Value → Evaluating Outcome
  | [] => return gather runs none
  | value :: rest => do
    let outcome ← body value
    let runs := outcome.css :: runs
    match outcome.returned with
    | some value => return gather runs (some value)
    | none => forValues body runs rest

/-- A bound of a count, which has to be whole. -/
def wholeNumber (e : Expr) (value : Value) : Evaluating Number :=
  match value with
  | .number number =>
    if number.isWhole then return number else refuse
  | _ => refuse
where
  refuse : Evaluating Number :=
    throw (Diagnostic.error (value.inspect ++ " is not an integer.")
      |>.withFault .invalidOperation
      |>.withLabel e.span "expected an integer"
      |>.withLine e.line)

/-- `@while` -/
def loopWhile (run : Runner) (scope : ScopeId) (line : Nat) (span : Span) (condition : Expr)
    (body : ScopeId → Evaluating Outcome) : Evaluating Outcome := do
  let limit := (← options).maxLoopIterations
  inScope scope fun inner =>
    whileHolds (return (← expr run inner condition).isTruthy) (body inner)
      (loopLimit "@while" limit line span) [] limit

/-- `@for` -/
def loopCount (run : Runner) (scope : ScopeId) (line : Nat) (span : Span) (counter : String)
    (start stop : Expr) (inclusive : Bool) (body : ScopeId → Evaluating Outcome) :
    Evaluating Outcome := do
  let first ← wholeNumber start (← expr run scope start)
  let last ← wholeNumber stop (← expr run scope stop)
  let last ← ofValue stop.line stop.span (last.coerce first.units)
  let final := if inclusive then last.value else last.value - 1
  let limit := (← options).maxLoopIterations
  if final - first.value + 1 > Double.ofNat limit then throw (loopLimit "@for" limit line span)
  else
    let low := Double.toCount first.value
    let high := Double.toCount final
    inScope scope fun inner =>
      forIntegers
        (fun i => do
          modifyEnv (·.declare inner counter (.number (Number.ofUnits (Double.ofInt i) first.units)))
          body inner)
        [] low (high - low + 1).toNat

/-- `@each` -/
def loopEach (run : Runner) (scope : ScopeId) (line : Nat) (span : Span) (item : String)
    (list : Expr) (body : ScopeId → Evaluating Outcome) : Evaluating Outcome := do
  let values := (← expr run scope list).toItems
  let limit := (← options).maxLoopIterations
  if values.length > limit then throw (loopLimit "@each" limit line span)
  else
    inScope scope fun inner =>
      forValues
        (fun value => do
          modifyEnv (·.declare inner item value)
          body inner)
        [] values

end Stylesheet.Evaluation
