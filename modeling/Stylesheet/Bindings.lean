/-!
Finite maps as lists, in the order in which the keys came.
-/

namespace Stylesheet

/-- Keys with their values. -/
abbrev Bindings (κ : Type u) (ν : Type v) := List (κ × ν)

namespace Bindings

variable {κ : Type u} {ν : Type v} [BEq κ]

/-- The value of a key. -/
def find? (bindings : Bindings κ ν) (key : κ) : Option ν :=
  List.lookup key bindings

def contains (bindings : Bindings κ ν) (key : κ) : Bool :=
  (bindings.find? key).isSome

/-- Give a key a value, in place of the one it has. -/
def insert (key : κ) (value : ν) : Bindings κ ν → Bindings κ ν
  | [] => [(key, value)]
  | (other, old) :: rest =>
    if key == other then (other, value) :: rest else (other, old) :: insert key value rest

end Bindings

end Stylesheet
