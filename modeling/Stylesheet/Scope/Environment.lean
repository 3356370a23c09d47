import Stylesheet.Bindings
import Stylesheet.Statement.Basic

/-!
Scopes and active calls. Each scope but the first has an earlier one around it; a name means what
the innermost scope that has it says. A scope goes away with its block, unless a mixin or function
was defined in it. Names are the same if they differ only in `_` and `-`.
-/

namespace Stylesheet

inductive CallableKind where
  | mixin
  | function
deriving Repr, DecidableEq

namespace CallableKind

/-- The word at the start of messages. -/
def title : CallableKind → String
  | mixin => "Mixin"
  | function => "Function"

end CallableKind

/-- The number of a scope. -/
abbrev ScopeId := Nat

/-- A mixin or function of the stylesheet. -/
structure Callable where
  kind : CallableKind
  name : String
  params : List Param
  /-- The scope it was defined in. -/
  scope : ScopeId
  body : List Statement

/-- An active call: what was called, and where. -/
structure Call where
  kind : CallableKind
  name : String
  line : Nat
  filename : Option String
deriving Repr, DecidableEq

structure Scope where
  parent : Option ScopeId
  values : Bindings String Value
  mixins : Bindings String Callable
  functions : Bindings String Callable
  /-- Something was defined in it or in a scope within it. -/
  captured : Bool

/-- All scopes that are alive, and the active calls, innermost first. -/
structure Environment where
  scopes : Array Scope
  calls : List Call

namespace Environment

def freshScope (parent : Option ScopeId) : Scope :=
  ⟨parent, [], [], [], false⟩

/-- Only the global scope, and no call. -/
def initial : Environment := ⟨#[freshScope none], []⟩

/-- The global scope. -/
def global : ScopeId := 0

/-- Open a scope in another one. -/
def push (env : Environment) (parent : ScopeId) : Environment × ScopeId :=
  ({ env with scopes := env.scopes.push (freshScope (some parent)) }, env.scopes.size)

/-- Close the scope that was opened last, unless it is still needed. -/
def pop (env : Environment) (id : ScopeId) : Environment :=
  if id = 0 || id + 1 != env.scopes.size || env.scopes[id]?.any (·.captured) then env
  else { env with scopes := env.scopes.pop }

/-- The innermost scope that satisfies `p`, from `id` outwards. -/
def findScope? (env : Environment) (p : Scope → Bool) (id : ScopeId) : Option ScopeId :=
  match env.scopes[id]? with
  | none => none
  | some scope =>
    if p scope then some id
    else match scope.parent with
      | none => none
      | some parent => if _ : parent < id then env.findScope? p parent else none
termination_by id

def lookup (env : Environment) (table : Scope → Bindings String α) (id : ScopeId)
    (name : String) : Option α := do
  let name := Text.normalizeName name
  let found ← env.findScope? (fun scope => (table scope).contains name) id
  let scope ← env.scopes[found]?
  (table scope).find? name

def valueOf? (env : Environment) (id : ScopeId) (name : String) : Option Value :=
  env.lookup Scope.values id name

def mixin? (env : Environment) (id : ScopeId) (name : String) : Option Callable :=
  env.lookup Scope.mixins id name

def function? (env : Environment) (id : ScopeId) (name : String) : Option Callable :=
  env.lookup Scope.functions id name

/-- Give a variable of a scope a value, whatever the scopes around it hold. -/
def declare (env : Environment) (id : ScopeId) (name : String) (value : Value) : Environment :=
  { env with scopes := env.scopes.modify id fun scope =>
      { scope with values := scope.values.insert (Text.normalizeName name) value } }

/-- Assign to the innermost scope that has the variable, or else declare it. -/
def assign (env : Environment) (id : ScopeId) (name : String) (value : Value) : Environment :=
  let key := Text.normalizeName name
  let target := (env.findScope? (fun scope => scope.values.contains key) id).getD id
  env.declare target name value

/-- Keep a scope and those around it. -/
def capture (env : Environment) (id : ScopeId) : Environment :=
  match env.scopes[id]? with
  | none => env
  | some scope =>
    if scope.captured then env
    else
      let env := { env with scopes := env.scopes.modify id fun scope => { scope with captured := true } }
      match scope.parent with
      | none => env
      | some parent => if _ : parent < id then env.capture parent else env
termination_by id

/-- Define a mixin or function in a scope. -/
def define (env : Environment) (id : ScopeId) (callable : Callable) : Environment :=
  let key := Text.normalizeName callable.name
  let env := env.capture callable.scope
  { env with scopes := env.scopes.modify id fun scope =>
      match callable.kind with
      | .mixin => { scope with mixins := scope.mixins.insert key callable }
      | .function => { scope with functions := scope.functions.insert key callable } }

def enterCall (env : Environment) (call : Call) : Environment :=
  { env with calls := call :: env.calls }

def leaveCall (env : Environment) : Environment :=
  { env with calls := env.calls.drop 1 }

/-- The mixins from an active one of this name to the innermost, and that one again: the loop that
including it now would make. -/
def includeLoop? (env : Environment) (name : String) : Option (List String) :=
  let key := Text.normalizeName name
  let active := (env.calls.filter (·.kind == .mixin)).reverse.map (·.name)
  match active.dropWhile (Text.normalizeName · != key) with
  | [] => none
  | first :: rest => some (first :: rest ++ [first])

end Environment

end Stylesheet
