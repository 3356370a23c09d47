import Stylesheet.Selector.Basic
import Stylesheet.Selector.Choices

/-!
Weaving: the chains in which two lists of ancestors both occur in order. Ancestors that are bound
by combinators move as one group, and a group that implies another takes its place.
-/

namespace Stylesheet.Weave

/-- Components that stay together: compounds joined by combinators. -/
abbrev Group := List Component

/-- Whether a group that ends like this goes on with that component. -/
def joins (last next : Component) : Bool :=
  last.isCombinator || next.isCombinator

/-- Cut a chain into groups, where two compounds meet without a combinator. -/
def groups : Chain → List Group
  | [] => []
  | first :: rest =>
    match rest, groups rest with
    | next :: _, group :: more =>
      if joins first next then (first :: group) :: more else [first] :: group :: more
    | _, _ => [[first]]

/-- Whether every element below the second group is also below the first. -/
def groupSuperselector : Group → Group → Bool
  | [.compound a], [.compound b] => a.isSuperselector b
  | [.compound a], .compound b :: second :: rest =>
    (second.combinator? == some .child && a.isSuperselector b) ||
      (!rest.isEmpty && groupSuperselector [.compound a] rest)
  | .compound a :: first :: others, .compound b :: second :: rest =>
    let compatible :=
      if first.combinator? == some .followingSibling then second.combinator? != some .child
      else first.combinator? == second.combinator?
    compatible && a.isSuperselector b &&
      (others.isEmpty || (!rest.isEmpty && groupSuperselector others rest))
  | _, _ => false

/-- What two groups have in common: the more special of them, if one implies the other. -/
def commonGroup (a b : Group) : Option Group :=
  if a == b then some a
  else match a.head?, b.head? with
    | some (.compound _), some (.compound _) =>
      if groupSuperselector a b then some b
      else if groupSuperselector b a then some a
      else none
    | _, _ => none

/-- The orders of two runs of groups: either one first. -/
def orders (first second : List Group) : List (List Group) :=
  match first.isEmpty, second.isEmpty with
  | true, true => []
  | true, false => [second]
  | false, true => [first]
  | false, false => [first ++ second, second ++ first]

/-- The alternatives for each part of the woven chain: the groups up to the next common one in
either order, then the common one. -/
def parts (first second : List Group) : List Group → List (List (List Group))
  | [] => [orders first second]
  | head :: common =>
    let before (group : Group) : Bool := !groupSuperselector group head
    orders (first.takeWhile before) (second.takeWhile before) :: [[head]] ::
      parts ((first.dropWhile before).drop 1) ((second.dropWhile before).drop 1) common

/-- All chains in which both lists of ancestors occur. -/
def subweave (first second : Chain) : List Chain :=
  if first.isEmpty then [second]
  else if second.isEmpty then [first]
  else
    let groups1 := groups first
    let groups2 := groups second
    let common := longestCommon commonGroup groups2 groups1
    let alternatives := (parts groups1 groups2 common).filter (!·.isEmpty)
    (choices alternatives).map fun choice => choice.flatten.flatten

/-- Weave the ancestors of each chain into those of the chains before it; the last component of
each stays in its place. -/
def weave (path : List Chain) : List Chain :=
  path.foldl
    (fun befores current =>
      match current.getLast? with
      | none => befores
      | some last =>
        befores.flatMap fun before =>
          (subweave before current.dropLast).map fun woven => woven ++ [last])
    [[]]

end Stylesheet.Weave
