import Stylesheet.Selector.Basic

/-!
Unification: the compound that matches what two compounds both match, or nothing if no element
can match both.
-/

namespace Stylesheet

/-- The namespace both names allow; `*` and no namespace allow any. -/
def unifyNamespaces (a b : Option String) : Option (Option String) :=
  let isAny (ns : Option String) : Bool := ns == some "*"
  if !(a == b || a.isNone || b.isNone || isAny a || isAny b) then none
  else if isAny a then some b
  else if isAny b then some a
  else some (a <|> b)

namespace Simple

/-- Put a simple selector in front of the first that satisfies `p`, or at the end. -/
def insertBefore (p : Simple → Bool) (s : Simple) : List Simple → List Simple
  | [] => [s]
  | other :: rest => if p other then s :: other :: rest else other :: insertBefore p s rest

/-- Add a condition: in front of the pseudo selectors, or, if it is one itself, in front of the
pseudo-elements. -/
def insertInto (s : Simple) (others : List Simple) : List Simple :=
  if others.contains s then others
  else insertBefore (if s.isPseudo then isPseudoElement else isPseudo) s others

def unifyUniversal (ns : Option String) (others : List Simple) : Option (List Simple) :=
  match others with
  | universal ns' :: rest => do
    let ns ← unifyNamespaces ns ns'
    some (universal ns :: rest)
  | element name ns' :: rest => do
    let ns ← unifyNamespaces ns ns'
    some (element name ns :: rest)
  | _ =>
    if ns.any (· != "*") || others.isEmpty then some (universal ns :: others) else some others

def unifyElement (name : String) (ns : Option String) (others : List Simple) :
    Option (List Simple) :=
  match others with
  | universal ns' :: rest => do
    let ns ← unifyNamespaces ns ns'
    some (element name ns :: rest)
  | element name' ns' :: rest =>
    if name' != name then none
    else do
      let ns ← unifyNamespaces ns ns'
      some (element name ns :: rest)
  | _ => some (element name ns :: others)

def isOtherId (name : String) : Simple → Bool
  | id other => other != name
  | _ => false

/-- Add one condition to a list of them. -/
def unify (s : Simple) (others : List Simple) : Option (List Simple) :=
  match s with
  | universal ns => unifyUniversal ns others
  | element name ns => unifyElement name ns others
  | id name => if others.any (isOtherId name) then none else some (s.insertInto others)
  | _ => some (s.insertInto others)

end Simple

/-- The compound that meets the conditions of `c` and all of `others`. -/
def Compound.unify (c : Compound) (others : List Simple) : Option Compound :=
  (c.members.foldlM (fun found s => Simple.unify s found) others).map Compound.ofMembers

end Stylesheet
