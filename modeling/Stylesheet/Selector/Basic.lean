/-!
Selectors. A selector is a list of sequences, any of which may match; a sequence alternates
compounds with combinators, two neighbouring compounds being joined by descent; a compound is an
optional base and a set of further simple selectors.
-/

namespace Stylesheet

/-- An explicit combinator between two compounds. -/
inductive Combinator where
  | child
  | nextSibling
  | followingSibling
deriving Repr, DecidableEq

inductive PseudoKind where
  | ofClass
  | ofElement
deriving Repr, DecidableEq

mutual

/-- One condition on an element. -/
inductive Simple where
  | className (name : String)
  | id (name : String)
  | element (name : String) (namespaceName : Option String)
  | universal (namespaceName : Option String)
  /-- The `&` that stands for the enclosing selector. -/
  | parent
  | attribute (name : String) (namespaceName operator value : Option String)
  | pseudo (kind : PseudoKind) (name : String) (argument : Option String)
  /-- A pseudo-class whose argument is a selector. -/
  | selectorPseudo (name : String) (argument : List (List Component))

/-- Conditions that one element has to meet: a base, if there is one, and a set of others in the
order in which they were added. -/
inductive Compound where
  | mk (base : Option Simple) (rest : List Simple)

/-- A part of a sequence. -/
inductive Component where
  | compound (c : Compound)
  | combinator (c : Combinator)

end

/-- A chain of compounds and combinators. -/
abbrev Chain := List Component

/-- A list of chains, any of which may match. -/
abbrev Selector := List Chain

namespace Combinator

def toText : Combinator → String
  | child => ">"
  | nextSibling => "+"
  | followingSibling => "~"

end Combinator

namespace Compound

def base : Compound → Option Simple
  | mk base _ => base

def rest : Compound → List Simple
  | mk _ rest => rest

/-- The base and the others, in order. -/
def members (c : Compound) : List Simple :=
  c.base.toList ++ c.rest

end Compound

mutual

/-- Equality of simple selectors; sets are compared without regard to order. -/
def Simple.equals : Simple → Simple → Bool
  | .className a, .className b => a == b
  | .id a, .id b => a == b
  | .element a m, .element b n => a == b && m == n
  | .universal m, .universal n => m == n
  | .parent, .parent => true
  | .attribute a m o v, .attribute b n p w => a == b && m == n && o == p && v == w
  | .pseudo k a x, .pseudo l b y => k == l && a == b && x == y
  | .selectorPseudo a s, .selectorPseudo b t => a == b && Selector.equals s t
  | _, _ => false

/-- Whether every simple selector of the first list is in the second. -/
def Simple.allIn : List Simple → List Simple → Bool
  | [], _ => true
  | a :: rest, others => others.any (fun b => Simple.equals a b) && Simple.allIn rest others

/-- Whether the list has a simple selector equal to the given one. -/
def Simple.isAmong : List Simple → Simple → Bool
  | [], _ => false
  | a :: rest, b => Simple.equals a b || Simple.isAmong rest b

/-- Equal bases and equal sets. -/
def Compound.equals : Compound → Compound → Bool
  | .mk none r, .mk none s => Simple.allIn r s && s.all (fun b => Simple.isAmong r b)
  | .mk (some a) r, .mk (some b) s =>
    Simple.equals a b && (Simple.allIn r s && s.all (fun b => Simple.isAmong r b))
  | _, _ => false

def Component.equals : Component → Component → Bool
  | .compound a, .compound b => Compound.equals a b
  | .combinator a, .combinator b => a == b
  | _, _ => false

def Chain.equals : List Component → List Component → Bool
  | [], [] => true
  | a :: r, b :: s => Component.equals a b && Chain.equals r s
  | _, _ => false

def Selector.equals : List (List Component) → List (List Component) → Bool
  | [], [] => true
  | a :: r, b :: s => Chain.equals a b && Selector.equals r s
  | _, _ => false

end

instance : BEq Simple := ⟨Simple.equals⟩

instance : BEq Compound := ⟨Compound.equals⟩

instance : BEq Component := ⟨Component.equals⟩

/-- Keep the first of equal items. -/
def distinct [BEq α] (items : List α) : List α :=
  items.foldl (fun kept item => if kept.contains item then kept else kept ++ [item]) []

namespace Simple

/-- Elements, `*` and `&` can only stand first in a compound. -/
def isBase : Simple → Bool
  | element .. | universal _ | parent => true
  | _ => false

def isPseudo : Simple → Bool
  | pseudo .. | selectorPseudo .. => true
  | _ => false

def isPseudoElement : Simple → Bool
  | pseudo .ofElement _ _ => true
  | _ => false

end Simple

namespace Compound

def empty : Compound := mk none []

/-- Add a simple selector: to the empty compound as its base if it can be one, else to the set
unless it is there. -/
def insert (c : Compound) (s : Simple) : Compound :=
  if s.isBase && c.base.isNone && c.rest.isEmpty then mk (some s) []
  else if c.rest.contains s then c
  else mk c.base (c.rest ++ [s])

def ofMembers (members : List Simple) : Compound :=
  members.foldl insert empty

/-- Whether the base is `&`. -/
def hasParentRef (c : Compound) : Bool :=
  match c.base with
  | some .parent => true
  | _ => false

/-- Whether every condition of the first compound is one of the second. -/
def isSuperselector (c other : Compound) : Bool :=
  (c.base.isNone || c.base == other.base) && Simple.allIn c.rest other.rest

end Compound

namespace Component

def compound? : Component → Option Compound
  | compound c => some c
  | combinator _ => none

def combinator? : Component → Option Combinator
  | compound _ => none
  | combinator c => some c

def isCombinator : Component → Bool
  | compound _ => false
  | combinator _ => true

end Component

namespace Chain

def hasParentRef (chain : Chain) : Bool :=
  chain.any fun component => component.compound?.any Compound.hasParentRef

/-- The compound a chain ends in, if it ends in one. -/
def lastCompound? (chain : Chain) : Option Compound :=
  chain.getLast?.bind Component.compound?

/-- Whether the chain is one compound that matches all the other does. -/
def isSuperselector (chain : Chain) (other : Compound) : Bool :=
  match chain with
  | [.compound only] => only.isSuperselector other
  | _ => false

end Chain

namespace Selector

def hasParentRef (selector : Selector) : Bool :=
  selector.any Chain.hasParentRef

end Selector

end Stylesheet
