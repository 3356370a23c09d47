import Stylesheet.Selector.Basic

/-!
A multimap whose keys are sets. Looking up a set finds every entry whose key is part of it, in
the order of insertion. Equal keys share an identity, the position of the first of them.
-/

namespace Stylesheet

namespace SubsetMap

/-- One stored value. -/
structure Entry (κ : Type u) (ν : Type v) where
  /-- The position of the entry. -/
  index : Nat
  /-- The position of the first entry with an equal key. -/
  keyId : Nat
  /-- The elements of the key, each once. -/
  key : List κ
  value : ν
deriving Repr

end SubsetMap

/-- Entries in order of insertion, and for each element the positions of the keys it is in. -/
structure SubsetMap (κ : Type u) (ν : Type v) where
  entries : Array (SubsetMap.Entry κ ν)
  positions : List (κ × List Nat)

namespace SubsetMap

variable {κ : Type u} {ν : Type v}

def empty : SubsetMap κ ν := ⟨#[], []⟩

instance : Inhabited (SubsetMap κ ν) := ⟨empty⟩

def size (map : SubsetMap κ ν) : Nat :=
  map.entries.size

def isEmpty (map : SubsetMap κ ν) : Bool :=
  map.entries.isEmpty

variable [BEq κ]

/-- Whether two lists without repetition have the same elements. -/
def sameKey (a b : List κ) : Bool :=
  a.length == b.length && a.all b.contains

/-- Whether every element of the first list is in the second. -/
def isPartOf (key query : List κ) : Bool :=
  key.all query.contains

/-- Note a position under an element. -/
def addPosition (position : Nat) (element : κ) : List (κ × List Nat) → List (κ × List Nat)
  | [] => [(element, [position])]
  | (other, found) :: rest =>
    if other == element then (other, found ++ [position]) :: rest
    else (other, found) :: addPosition position element rest

/-- Add an entry and give its position. An empty key is refused. -/
def insert (map : SubsetMap κ ν) (key : List κ) (value : ν) : SubsetMap κ ν × Option Nat :=
  let key := distinct key
  if key.isEmpty then (map, none)
  else
    let index := map.entries.size
    let keyId := match map.entries.find? (fun entry => sameKey entry.key key) with
      | some entry => entry.keyId
      | none => index
    (⟨map.entries.push ⟨index, keyId, key, value⟩,
      key.foldl (fun positions element => addPosition index element positions) map.positions⟩,
      some index)

def positionsOf (map : SubsetMap κ ν) (element : κ) : List Nat :=
  match map.positions.find? (fun (other, _) => other == element) with
  | some (_, found) => found
  | none => []

/-- The entries whose key is part of the query. -/
def get (map : SubsetMap κ ν) (query : List κ) : List (Entry κ ν) :=
  let candidates := query.flatMap map.positionsOf
  let found := candidates.filterMap fun index =>
    match map.entries[index]? with
    | some entry => if isPartOf entry.key query then some index else none
    | none => none
  (distinct (found.mergeSort fun a b => decide (a ≤ b))).filterMap fun index => map.entries[index]?

/-- The identities of all keys, each once. -/
def keyIds (map : SubsetMap κ ν) : List Nat :=
  distinct (map.entries.toList.map (·.keyId))

end SubsetMap

end Stylesheet
