import Stylesheet.Selector.Printer

/-!
Resolving `&` against the selector of the enclosing rule. A chain without `&` descends from the
enclosing one.
-/

namespace Stylesheet

/-- Why `&` cannot be resolved. -/
inductive ParentError where
  /-- There is no enclosing rule. -/
  | atBaseLevel
  /-- The enclosing chain ends in a combinator, and more conditions follow `&`. -/
  | invalidParent (text : String)
deriving Repr, DecidableEq

namespace ParentError

def message : ParentError → String
  | atBaseLevel =>
    "Base-level rules cannot contain the parent-selector-referencing character '&'."
  | invalidParent text => "Invalid parent selector: \"" ++ text ++ "\""

end ParentError

/-- The components a compound stands for under an enclosing chain. -/
def Compound.resolveParent (parent : Chain) (c : Compound) : Except ParentError Chain :=
  if !c.hasParentRef then .ok [.compound c]
  else if c.rest.isEmpty then .ok parent
  else match parent.getLast? with
    | some (.compound last) =>
      .ok (parent.dropLast ++ [.compound (Compound.ofMembers (last.members ++ c.rest))])
    | _ => .error (.invalidParent (parent.toCss .nested))

/-- The components of a chain under an enclosing chain. -/
def Chain.resolveComponents (parent : Chain) : Chain → Except ParentError Chain
  | [] => .ok []
  | .compound c :: rest => do
    let head ← c.resolveParent parent
    let tail ← resolveComponents parent rest
    .ok (head ++ tail)
  | .combinator c :: rest => do
    let tail ← resolveComponents parent rest
    .ok (.combinator c :: tail)

/-- A chain under an enclosing chain. -/
def Chain.resolveParent (parent chain : Chain) : Except ParentError Chain :=
  if chain.hasParentRef then resolveComponents parent chain else .ok (parent ++ chain)

/-- A selector under an enclosing one: for each enclosing chain in turn, each chain in turn. -/
def Selector.resolveParent (parent : Option Selector) (selector : Selector) :
    Except ParentError Selector :=
  match parent with
  | none => if selector.hasParentRef then .error .atBaseLevel else .ok selector
  | some parent =>
    (parent.flatMap fun outer => selector.map fun chain => (outer, chain)).mapM
      fun (outer, chain) => Chain.resolveParent outer chain

end Stylesheet
