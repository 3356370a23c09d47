/-!
Two list algorithms behind the weaving of chains: all ways to pick one item from each of several
lists, and a longest common subsequence under a given match.
-/

namespace Stylesheet

/-- All ways to pick one item from each list. The choice in an earlier list changes fastest. -/
def choices (lists : List (List α)) : List (List α) :=
  lists.foldl
    (fun picked list => list.flatMap fun item => picked.map fun choice => choice ++ [item]) [[]]

namespace Common

/-- The scores of one more item of the first list: how long a common subsequence gets against
each beginning of the second list. `left` is the score just found, `above` are those of the item
before, starting at the same place. -/
def scoreRow (matched : β → Bool) (left : Nat) : List β → List Nat → List Nat
  | b :: rest, diagonal :: straight :: above =>
    let score := if matched b then diagonal + 1 else max left straight
    score :: scoreRow matched score rest (straight :: above)
  | _, _ => []

/-- The scores for all beginnings of the first list, the shortest first. -/
def scoreRows (select : α → β → Option γ) (second : List β) :
    List α → List Nat → List (List Nat)
  | [], _ => []
  | a :: rest, above =>
    let row := 0 :: scoreRow (fun b => (select a b).isSome) 0 second above
    row :: scoreRows select second rest row

/-- The table of scores, by the lengths of two beginnings. -/
def scoreTable (select : α → β → Option γ) (first : List α) (second : List β) :
    List (List Nat) :=
  let start := List.replicate (second.length + 1) 0
  start :: scoreRows select second first start

/-- Walk back from the ends of both lists, taking every match. Where there is none the walk
follows the higher score, and on a tie it drops from the first list. -/
def walk (select : α → β → Option γ) (score : Nat → Nat → Nat) :
    List α → List β → List γ
  | a :: as, b :: bs =>
    match select a b with
    | some found => found :: walk select score as bs
    | none =>
      if score (as.length + 1) bs.length > score as.length (bs.length + 1) then
        walk select score (a :: as) bs
      else walk select score as (b :: bs)
  | _, _ => []
termination_by as bs => as.length + bs.length

end Common

/-- A longest common subsequence, two items being common when `select` gives their match. -/
def longestCommon (select : α → β → Option γ) (first : List α) (second : List β) : List γ :=
  let table := Common.scoreTable select first second
  let score (i j : Nat) : Nat := (table.getD i []).getD j 0
  (Common.walk select score first.reverse second.reverse).reverse

end Stylesheet
