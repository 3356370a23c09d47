import Stylesheet.Selector.Unify
import Stylesheet.Selector.Weave
import Stylesheet.SubsetMap

/-!
Extension of selectors. A compound that holds a target is also matched by the extender, unified
with what the compound has beside the target; the ancestors of the extender are woven into the
chain. Extensions apply to their own results, each target once along the way, so the number of
targets not yet used bounds the recursion.
-/

namespace Stylesheet

/-- Targets and the chains that extend them. -/
abbrev ExtendMap := SubsetMap Simple Chain

namespace Extend

/-- The chain an extension gives for a compound: the extender with its last compound unified with
what is left of the compound besides the target. -/
def extended? (members : List Simple) (hit : SubsetMap.Entry Simple Chain) : Option Chain :=
  match hit.value.getLast? with
  | some (.compound last) =>
    (last.unify (members.filter fun s => !hit.key.contains s)).map fun unified =>
      hit.value.dropLast ++ [.compound unified]
  | _ => none

/-- The options for one component: its extensions, and the component itself unless one of them
already matches all it does. -/
def options (extendCompound : Compound → List Chain) : Component → List Chain
  | .combinator c => [[.combinator c]]
  | .compound c =>
    let extended := extendCompound c
    if extended.any fun chain => Chain.isSuperselector chain c then extended
    else [.compound c] :: extended

/-- Extend a chain, given how to extend a compound. -/
def chainWith (extendCompound : Compound → List Chain) (chain : Chain) : List Chain :=
  distinct ((choices (chain.map (options extendCompound))).flatMap Weave.weave)

/-- All extensions of a compound that use only the targets in `unused`. -/
def compound (map : ExtendMap) (unused : List Nat) (c : Compound) : List Chain :=
  distinct <| (map.get c.members).flatMap fun hit =>
    match extended? c.members hit with
    | none => []
    | some chain =>
      if _ : hit.keyId ∈ unused then
        chainWith (compound map (unused.erase hit.keyId)) chain
      else []
termination_by unused.length
decreasing_by
  rename_i member
  have shorter := List.length_erase_of_mem member
  have positive := List.length_pos_of_mem member
  omega

/-- The positions of the extensions that a compound holds the target of, also along the way. -/
def matchedByCompound (map : ExtendMap) (unused : List Nat) (c : Compound) : List Nat :=
  (map.get c.members).flatMap fun hit =>
    hit.index :: match extended? c.members hit with
      | none => []
      | some chain =>
        if _ : hit.keyId ∈ unused then
          chain.flatMap fun
            | .compound inner => matchedByCompound map (unused.erase hit.keyId) inner
            | .combinator _ => []
        else []
termination_by unused.length
decreasing_by
  rename_i member
  have shorter := List.length_erase_of_mem member
  have positive := List.length_pos_of_mem member
  omega

end Extend

/-- All chains that match what this one matches once the extensions apply. -/
def Chain.extend (map : ExtendMap) (chain : Chain) : List Chain :=
  Extend.chainWith (Extend.compound map map.keyIds) chain

/-- A selector once the extensions apply. -/
def Selector.extend (map : ExtendMap) (selector : Selector) : Selector :=
  distinct (selector.flatMap (Chain.extend map))

/-- The positions of the extensions whose target occurs in the selector. -/
def Selector.matched (map : ExtendMap) (selector : Selector) : List Nat :=
  distinct <| selector.flatMap fun chain => chain.flatMap fun
    | .compound c => Extend.matchedByCompound map map.keyIds c
    | .combinator _ => []

end Stylesheet
