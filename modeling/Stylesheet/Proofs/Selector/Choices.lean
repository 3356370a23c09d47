import Mathlib.Algebra.BigOperators.Fin
import Mathlib.Data.List.Forall2
import Mathlib.Data.List.GetD
import Mathlib.Data.List.Induction
import Mathlib.Data.List.Infix
import Stylesheet.Selector.Choices

/-! The two list algorithms behind weaving. Picking one item from each of several lists lists every
pick once, at a position whose digits, to the sizes of the lists as bases, are the picked indices. A
longest common subsequence comes from matches that follow one another in both lists, and no more
matches do, whatever counts as a match: the table scores any two beginnings of the lists by the most
matches they have, and the walk back through it takes that many. -/

namespace Stylesheet

section Choices

theorem choices_concat (lists : List (List α)) (list : List α) :
    choices (lists ++ [list]) =
      list.flatMap fun item => (choices lists).map fun choice => choice ++ [item] := by
  simp [choices]

private theorem mem_foldl_choices (lists picked : List (List α)) (choice : List α) :
    choice ∈ lists.foldl
        (fun picked list => list.flatMap fun item => picked.map fun front => front ++ [item])
        picked ↔
      ∃ front ∈ picked, ∃ back, List.Forall₂ (· ∈ ·) back lists ∧ choice = front ++ back := by
  induction lists generalizing picked with
  | nil => simp
  | cons list rest ih =>
    rw [List.foldl_cons, ih]
    constructor
    · rintro ⟨front, extended, back, chosen, rfl⟩
      obtain ⟨item, member, shorter⟩ := List.mem_flatMap.mp extended
      obtain ⟨start, found, rfl⟩ := List.mem_map.mp shorter
      exact ⟨start, found, item :: back, .cons member chosen, by simp⟩
    · rintro ⟨front, found, back, chosen, rfl⟩
      cases chosen with
      | @cons item _ back _ member chosen =>
        refine ⟨front ++ [item], ?_, back, chosen, by simp⟩
        exact List.mem_flatMap.mpr ⟨item, member, List.mem_map.mpr ⟨front, found, rfl⟩⟩

/-- A choice picks one item from each list, and every way to pick is one. -/
theorem mem_choices {lists : List (List α)} {choice : List α} :
    choice ∈ choices lists ↔ List.Forall₂ (· ∈ ·) choice lists := by
  unfold choices
  rw [mem_foldl_choices]
  simp

/-- There is a choice where there is something to choose from everywhere. -/
theorem choices_ne_nil {lists : List (List α)} (each : ∀ list ∈ lists, list ≠ []) :
    choices lists ≠ [] := by
  have chosen : ∃ choice, List.Forall₂ (· ∈ ·) choice lists := by
    induction lists with
    | nil => exact ⟨[], .nil⟩
    | cons list rest ih =>
      obtain ⟨item, member⟩ := List.exists_mem_of_ne_nil list (each list (List.mem_cons_self ..))
      obtain ⟨choice, others⟩ := ih fun other later => each other (List.mem_cons_of_mem _ later)
      exact ⟨item :: choice, .cons member others⟩
  obtain ⟨choice, chosen⟩ := chosen
  exact List.ne_nil_of_mem (mem_choices.mpr chosen)

theorem choices_singletons (items : List α) :
    choices (items.map fun item => [item]) = [items] := by
  induction items using List.reverseRecOn with
  | nil => rfl
  | append_singleton items item ih =>
    rw [List.map_append, List.map_singleton, choices_concat, ih]
    rfl

theorem choices_single (items : List α) : choices [items] = items.map fun item => [item] := by
  simp [choices, List.map_eq_flatMap]

/-- There are as many choices as the sizes of the lists give when they are multiplied. -/
theorem length_choices (lists : List (List α)) :
    (choices lists).length = (lists.map List.length).prod := by
  induction lists using List.reverseRecOn with
  | nil => rfl
  | append_singleton lists list ih =>
    simp [choices_concat, List.length_flatMap, ih, Nat.mul_comm]

/-- What one step in the list at this index is worth in the position of a choice: as many choices
as there are of the lists before it. -/
def weight (lists : List (List α)) (index : Nat) : Nat :=
  ((lists.take index).map List.length).prod

theorem weight_append {lists : List (List α)} {index : Nat} (bound : index ≤ lists.length)
    (more : List (List α)) : weight (lists ++ more) index = weight lists index := by
  rw [weight, List.take_append_of_le_length bound, weight]

theorem weight_length (lists : List (List α)) :
    weight lists lists.length = (choices lists).length := by
  rw [weight, List.take_length, length_choices]

/-- A list's weight times its size is the weight of the next, and so part of the whole. -/
theorem weight_mul_dvd (lists : List (List α)) {index : Nat} (bound : index < lists.length) :
    weight lists index * lists[index].length ∣ (choices lists).length := by
  have next : weight lists (index + 1) = weight lists index * lists[index].length := by
    rw [weight, List.take_add_one, List.getElem?_eq_getElem bound, List.map_append,
      List.prod_append, weight]
    simp
  have whole : (lists.map List.length).prod =
      weight lists (index + 1) * ((lists.drop (index + 1)).map List.length).prod := by
    rw [weight, ← List.prod_append, ← List.map_append, List.take_append_drop]
  rw [length_choices, whole, next]
  exact Nat.dvd_mul_right ..

/-- Blocks of one size, one after the other: the quotient of a position by the size tells the block,
the remainder the place in it. -/
theorem getElem?_flatMap_of_length {block : α → List β} {size : Nat}
    (each : ∀ item, (block item).length = size) (positive : 0 < size) (items : List α) (n : Nat) :
    (items.flatMap block)[n]? = items[n / size]?.bind fun item => (block item)[n % size]? := by
  induction items generalizing n with
  | nil => simp
  | cons item rest ih =>
    rw [List.flatMap_cons]
    rcases Nat.lt_or_ge n size with inside | behind
    · rw [List.getElem?_append_left (by rwa [each]), Nat.div_eq_of_lt inside,
        Nat.mod_eq_of_lt inside]
      rfl
    · rw [List.getElem?_append_right (by rwa [each]), each, ih, Nat.div_eq_sub_div positive behind,
        List.getElem?_cons_succ, Nat.mod_eq_sub_mod behind]

/-- With one more list, all choices of the others come round once for each of its items. -/
theorem getElem?_choices_concat (lists : List (List α)) (list : List α)
    (positive : 0 < (choices lists).length) (n : Nat) :
    (choices (lists ++ [list]))[n]? = list[n / (choices lists).length]?.bind fun item =>
      (choices lists)[n % (choices lists).length]?.map fun choice => choice ++ [item] := by
  rw [choices_concat, getElem?_flatMap_of_length (fun _ => List.length_map _) positive]
  simp only [List.getElem?_map]

/-- A position and its place within the round have the same digits for the lists that the round is
about. -/
theorem digit_mod (lists : List (List α)) {index : Nat} (bound : index < lists.length) (n : Nat) :
    n % (choices lists).length / weight lists index % lists[index].length =
      n / weight lists index % lists[index].length := by
  rw [← Nat.mod_mul_right_div_self, ← Nat.mod_mul_right_div_self,
    Nat.mod_mod_of_dvd n (weight_mul_dvd lists bound)]

/-- Each item of a choice stands in its list at the digit of the choice's position. -/
theorem getElem_choices (lists : List (List α)) {n : Nat} (bound : n < (choices lists).length) :
    (choices lists)[n].length = lists.length ∧
      ∀ i (inside : i < lists.length),
        (choices lists)[n][i]? = lists[i][n / weight lists i % lists[i].length]? := by
  induction lists using List.reverseRecOn generalizing n with
  | nil => simp_all [choices]
  | append_singleton lists list ih =>
    have product : n < list.length * (choices lists).length := by
      simpa [choices_concat, List.length_flatMap] using bound
    have positive : 0 < (choices lists).length :=
      Nat.pos_of_mul_pos_left (Nat.zero_lt_of_lt product)
    have round : n / (choices lists).length < list.length :=
      (Nat.div_lt_iff_lt_mul positive).mpr product
    have place : n % (choices lists).length < (choices lists).length := Nat.mod_lt n positive
    have found : (choices (lists ++ [list]))[n] =
        (choices lists)[n % (choices lists).length] ++ [list[n / (choices lists).length]] := by
      apply Option.some.inj
      rw [← List.getElem?_eq_getElem bound, getElem?_choices_concat lists list positive,
        List.getElem?_eq_getElem round, List.getElem?_eq_getElem place]
      rfl
    obtain ⟨size, digits⟩ := ih place
    rw [found]
    refine ⟨by simp [size], fun i inside => ?_⟩
    rcases Nat.lt_or_ge i lists.length with early | last
    · rw [List.getElem?_append_left (by rwa [size]), digits i early, digit_mod lists early,
        weight_append (Nat.le_of_lt early)]
      simp [List.getElem_append_left early]
    · have isLast : i = lists.length := by
        simp only [List.length_append, List.length_singleton] at inside
        omega
      subst isLast
      rw [weight_append (Nat.le_refl _), weight_length]
      simp [← size, Nat.mod_eq_of_lt round]

theorem weight_eq_prod (lists : List (List α)) {index : Nat} (bound : index ≤ lists.length) :
    weight lists index = ∏ i : Fin index, (lists.get (i.castLE bound)).length := by
  rw [weight, ← List.prod_ofFn]
  congr 1
  apply List.ext_getElem <;> simp [bound]

/-- Positions and picks of an index in every list correspond to each other, and the choice at a
position has the items at the indices of its pick. The indices are the digits of the position to the
sizes of the lists as bases, the first list counting the ones. -/
theorem choices_enumerate (lists : List (List α)) :
    (choices lists).length = (lists.map List.length).prod ∧
      (choices ([] : List (List α))).length = 1 ∧
      ((choices lists).length = 0 ↔ [] ∈ lists) ∧
      ∃ digits : Fin (choices lists).length ≃ (∀ i : Fin lists.length, Fin (lists.get i).length),
        ∀ n, (choices lists).get n = List.ofFn (fun i => (lists.get i).get (digits n i)) ∧
          ∀ i, (digits n i : Nat) = n / weight lists i % (lists.get i).length := by
  have size : (choices lists).length = ∏ i : Fin lists.length, (lists.get i).length := by
    rw [← weight_length, weight_eq_prod lists (Nat.le_refl _)]
    rfl
  refine ⟨length_choices lists, rfl, ?_, (finCongr size).trans finPiFinEquiv.symm, fun n => ?_⟩
  · rw [length_choices, List.prod_eq_zero_iff]
    simp
  · obtain ⟨whole, items⟩ := getElem_choices lists n.isLt
    have digit : ∀ i, (((finCongr size).trans finPiFinEquiv.symm) n i : Nat) =
        n / weight lists i % (lists.get i).length := by
      intro i
      rw [weight_eq_prod lists (Nat.le_of_lt i.isLt)]
      rfl
    refine ⟨List.ext_getElem? fun i => ?_, digit⟩
    rcases Nat.lt_or_ge i lists.length with inside | outside
    · have index : _ = n / weight lists i % lists[i].length := digit ⟨i, inside⟩
      rw [List.get_eq_getElem, items i inside, List.getElem?_ofFn, dif_pos inside, ← index]
      exact List.getElem?_eq_getElem (Fin.isLt _)
    · rw [List.getElem?_eq_none (by simpa [whole] using outside),
        List.getElem?_eq_none (by simpa using outside)]

example : choices [[1, 2], [3, 4], [5]] = [[1, 3, 5], [2, 3, 5], [1, 4, 5], [2, 4, 5]] := by
  decide

end Choices

namespace Common

/-- The match of the items at two indices. -/
def matchAt (select : α → β → Option γ) (first : List α) (second : List β) (place : Nat × Nat) :
    Option γ :=
  first[place.1]?.bind fun a => second[place.2]?.bind (select a)

/-- Pairs of indices with matches, each pair behind the one before it in both lists. -/
structure InOrder (select : α → β → Option γ) (first : List α) (second : List β)
    (places : List (Nat × Nat)) : Prop where
  increasing : places.Pairwise fun p q => p.1 < q.1 ∧ p.2 < q.2
  matched : ∀ p ∈ places, (matchAt select first second p).isSome = true

/-- The most matches in order of two lists, both of them read from the end. -/
def most (select : α → β → Option γ) : List α → List β → Nat
  | a :: as, b :: bs =>
    if (select a b).isSome then most select as bs + 1
    else max (most select (a :: as) bs) (most select as (b :: bs))
  | _, _ => 0
termination_by as bs => as.length + bs.length

section Places

variable {select : α → β → Option γ} {first whole : List α} {second whole' : List β}
  {places : List (Nat × Nat)} {p last : Nat × Nat}

theorem matchAt_eq_some {x : γ} (found : matchAt select first second p = some x) :
    ∃ a ∈ first, ∃ b ∈ second, select a b = some x := by
  obtain ⟨a, inFirst, rest⟩ := Option.bind_eq_some_iff.mp found
  obtain ⟨b, inSecond, selected⟩ := Option.bind_eq_some_iff.mp rest
  exact ⟨a, List.mem_of_getElem? inFirst, b, List.mem_of_getElem? inSecond, selected⟩

/-- A match is inside of both lists. -/
theorem lt_of_matchAt (found : (matchAt select first second p).isSome = true) :
    p.1 < first.length ∧ p.2 < second.length := by
  obtain ⟨x, found⟩ := Option.isSome_iff_exists.mp found
  obtain ⟨a, inFirst, rest⟩ := Option.bind_eq_some_iff.mp found
  obtain ⟨b, inSecond, -⟩ := Option.bind_eq_some_iff.mp rest
  exact ⟨(List.getElem?_eq_some_iff.mp inFirst).1, (List.getElem?_eq_some_iff.mp inSecond).1⟩

theorem matchAt_of_prefix (left : first <+: whole) (right : second <+: whole')
    (inFirst : p.1 < first.length) (inSecond : p.2 < second.length) :
    matchAt select whole whole' p = matchAt select first second p := by
  obtain ⟨_, rfl⟩ := left
  obtain ⟨_, rfl⟩ := right
  rw [matchAt, List.getElem?_append_left inFirst, List.getElem?_append_left inSecond, matchAt]

private theorem reverse_prefix_cons (a : α) (as : List α) : as.reverse <+: (a :: as).reverse :=
  List.reverse_prefix.mpr (List.suffix_cons a as)

theorem matchAt_last (a : α) (b : β) :
    matchAt select (first ++ [a]) (second ++ [b]) (first.length, second.length) = select a b := by
  simp [matchAt]

namespace InOrder

/-- Matches of two beginnings are matches of the lists. -/
theorem extend (order : InOrder select first second places) (left : first <+: whole)
    (right : second <+: whole') :
    InOrder select whole whole' places ∧
      places.map (matchAt select whole whole') = places.map (matchAt select first second) := by
  have same : ∀ p ∈ places, matchAt select whole whole' p = matchAt select first second p := by
    intro p member
    obtain ⟨inFirst, inSecond⟩ := lt_of_matchAt (order.matched p member)
    exact matchAt_of_prefix left right inFirst inSecond
  refine ⟨⟨order.increasing, fun p member => ?_⟩, List.map_congr_left same⟩
  rw [same p member]
  exact order.matched p member

/-- Matches that stand in two beginnings are matches of these. -/
theorem restrict (order : InOrder select whole whole' places) (left : first <+: whole)
    (right : second <+: whole')
    (inside : ∀ p ∈ places, p.1 < first.length ∧ p.2 < second.length) :
    InOrder select first second places := by
  refine ⟨order.increasing, fun p member => ?_⟩
  obtain ⟨inFirst, inSecond⟩ := inside p member
  rw [← matchAt_of_prefix left right inFirst inSecond]
  exact order.matched p member

/-- If the last items match, they come behind all matches before them. -/
theorem concat (order : InOrder select first second places) {a : α} {b : β}
    (selected : (select a b).isSome = true) :
    InOrder select (first ++ [a]) (second ++ [b]) (places ++ [(first.length, second.length)]) := by
  have earlier := (order.extend (List.prefix_append first [a]) (List.prefix_append second [b])).1
  constructor
  · refine List.pairwise_append.mpr ⟨order.increasing, List.pairwise_singleton .., ?_⟩
    intro p member q isLast
    rw [List.mem_singleton.mp isLast]
    exact lt_of_matchAt (order.matched p member)
  · intro p member
    rcases List.mem_append.mp member with early | isLast
    · exact earlier.matched p early
    · rw [List.mem_singleton.mp isLast, matchAt_last]
      exact selected

theorem lt_last (order : InOrder select first second (places ++ [last])) :
    ∀ p ∈ places, p.1 < last.1 ∧ p.2 < last.2 :=
  fun p member => (List.pairwise_append.mp order.increasing).2.2 p member last (by simp)

theorem le_last (order : InOrder select first second (places ++ [last])) :
    ∀ p ∈ places ++ [last], p.1 ≤ last.1 ∧ p.2 ≤ last.2 := by
  intro p member
  rcases List.mem_append.mp member with early | isLast
  · obtain ⟨before, before'⟩ := order.lt_last p early
    exact ⟨Nat.le_of_lt before, Nat.le_of_lt before'⟩
  · rw [List.mem_singleton.mp isLast]
    exact ⟨Nat.le_refl _, Nat.le_refl _⟩

/-- If the last items do not match, the last pair leaves one of them free. -/
theorem last_free {a : α} {b : β}
    (order : InOrder select (first ++ [a]) (second ++ [b]) (places ++ [last]))
    (unmatched : ¬ (select a b).isSome = true) :
    last.1 < first.length ∨ last.2 < second.length := by
  have found := order.matched last (by simp)
  obtain ⟨inFirst, inSecond⟩ := lt_of_matchAt found
  simp only [List.length_append, List.length_singleton] at inFirst inSecond
  by_contra atEnds
  have atLast : last = (first.length, second.length) := by
    apply Prod.ext <;> dsimp only <;> omega
  rw [atLast, matchAt_last] at found
  exact unmatched found

theorem dropLast (order : InOrder select first second (places ++ [last])) :
    InOrder select first second places :=
  ⟨(List.pairwise_append.mp order.increasing).1,
    fun p member => order.matched p (List.mem_append_left _ member)⟩

/-- There are never more matches in order than counted. Where the last items match, all pairs but
the last leave both of them free; where they do not, all pairs leave the same one free. -/
theorem length_le_most {as : List α} {bs : List β}
    (order : InOrder select as.reverse bs.reverse places) : places.length ≤ most select as bs := by
  fun_induction most select as bs generalizing places with
  | case1 a as b bs selected ih =>
    rcases List.eq_nil_or_concat' places with rfl | ⟨places, last, rfl⟩
    · simp
    · obtain ⟨inFirst, inSecond⟩ := lt_of_matchAt (order.matched last (by simp))
      simp only [List.length_reverse, List.length_cons] at inFirst inSecond
      have shorter : places.length ≤ most select as bs := by
        refine ih (order.dropLast.restrict (reverse_prefix_cons a as) (reverse_prefix_cons b bs) ?_)
        intro p member
        have before := order.lt_last p member
        simp only [List.length_reverse]
        omega
      simpa using shorter
  | case2 a as b bs unmatched ihSecond ihFirst =>
    rcases List.eq_nil_or_concat' places with rfl | ⟨places, last, rfl⟩
    · simp
    · obtain ⟨inFirst, inSecond⟩ := lt_of_matchAt (order.matched last (by simp))
      simp only [List.length_reverse, List.length_cons] at inFirst inSecond
      have free : last.1 < as.length ∨ last.2 < bs.length := by
        rw [List.reverse_cons, List.reverse_cons] at order
        simpa using order.last_free unmatched
      rcases free with early | early
      · apply Nat.le_trans _ (Nat.le_max_right ..)
        refine ihFirst (order.restrict (reverse_prefix_cons a as) (List.prefix_refl _) ?_)
        intro p member
        have before := order.le_last p member
        simp only [List.length_reverse, List.length_cons]
        omega
      · apply Nat.le_trans _ (Nat.le_max_left ..)
        refine ihSecond (order.restrict (List.prefix_refl _) (reverse_prefix_cons b bs) ?_)
        intro p member
        have before := order.le_last p member
        simp only [List.length_reverse, List.length_cons]
        omega
  | case3 as bs other =>
    cases places with
    | nil => simp
    | cons p places =>
      obtain ⟨inFirst, inSecond⟩ := lt_of_matchAt (order.matched p (List.mem_cons_self ..))
      cases as with
      | nil => simp at inFirst
      | cons a as =>
        cases bs with
        | nil => simp at inSecond
        | cons b bs => exact (other a as b bs rfl rfl).elim

end InOrder

/-- What the walk takes are matches in order, whatever scores lead it. -/
theorem exists_inOrder_walk (select : α → β → Option γ) (score : Nat → Nat → Nat) (as : List α)
    (bs : List β) :
    ∃ places, InOrder select as.reverse bs.reverse places ∧
      places.map (matchAt select as.reverse bs.reverse) =
        (walk select score as bs).reverse.map some := by
  fun_induction walk select score as bs with
  | case1 a as b bs found selected ih =>
    obtain ⟨places, order, values⟩ := ih
    have extended := order.extend (reverse_prefix_cons a as) (reverse_prefix_cons b bs)
    rw [List.reverse_cons, List.reverse_cons] at extended ⊢
    refine ⟨places ++ [(as.reverse.length, bs.reverse.length)],
      order.concat (by simp [selected]), ?_⟩
    rw [List.map_append, extended.2, values, List.map_singleton, matchAt_last, selected]
    simp
  | case2 a as b bs _ _ ih =>
    obtain ⟨places, order, values⟩ := ih
    have extended := order.extend (List.prefix_refl _) (reverse_prefix_cons b bs)
    exact ⟨places, extended.1, extended.2.trans values⟩
  | case3 a as b bs _ _ ih =>
    obtain ⟨places, order, values⟩ := ih
    have extended := order.extend (reverse_prefix_cons a as) (List.prefix_refl _)
    exact ⟨places, extended.1, extended.2.trans values⟩
  | case4 => exact ⟨[], ⟨.nil, by simp⟩, rfl⟩

end Places

section Scores

variable {select : α → β → Option γ} {score : Nat → Nat → Nat} {as : List α} {bs : List β}

/-- The scores are the most matches in order of what may be left of the two lists. -/
def Counts (select : α → β → Option γ) (score : Nat → Nat → Nat) (as : List α) (bs : List β) :
    Prop :=
  ∀ as' bs', as' <:+ as → bs' <:+ bs → score as'.length bs'.length = most select as' bs'

namespace Counts

theorem whole (counts : Counts select score as bs) :
    score as.length bs.length = most select as bs :=
  counts as bs (List.suffix_refl _) (List.suffix_refl _)

theorem left {a : α} (counts : Counts select score (a :: as) bs) : Counts select score as bs :=
  fun as' bs' inFirst inSecond => counts as' bs' (inFirst.trans (List.suffix_cons ..)) inSecond

theorem right {b : β} (counts : Counts select score as (b :: bs)) : Counts select score as bs :=
  fun as' bs' inFirst inSecond => counts as' bs' inFirst (inSecond.trans (List.suffix_cons ..))

end Counts

/-- The walk takes as many matches as there can be, if the scores that lead it are right. -/
theorem length_walk (counts : Counts select score as bs) :
    (walk select score as bs).length = most select as bs := by
  fun_induction walk select score as bs with
  | case1 a as b bs found selected ih =>
    rw [List.length_cons, ih counts.left.right, most, selected]
    rfl
  | case2 a as b bs unmatched higher ih =>
    have whole := counts.left.whole
    have rest := counts.right.whole
    rw [List.length_cons] at whole rest
    rw [whole, rest] at higher
    rw [ih counts.right, most, unmatched, Option.isSome_none, if_neg Bool.false_ne_true,
      Nat.max_eq_left (Nat.le_of_lt higher)]
  | case3 a as b bs unmatched lower ih =>
    have whole := counts.left.whole
    have rest := counts.right.whole
    rw [List.length_cons] at whole rest
    rw [whole, rest] at lower
    rw [ih counts.left, most, unmatched, Option.isSome_none, if_neg Bool.false_ne_true,
      Nat.max_eq_right (Nat.not_lt.mp lower)]
  | case4 as bs other =>
    rw [most]
    · rfl
    · exact other

end Scores

section Table

variable (select : α → β → Option γ)

theorem most_nil_left (bs : List β) : most select [] bs = 0 := by
  simp [most]

theorem most_nil_right (as : List α) : most select as [] = 0 := by
  simp [most]

private theorem map_inits (f : List ε → δ) (items : List ε) :
    items.inits.map f = f [] :: (items.inits.map f).tail := by
  cases items <;> simp

/-- The beginnings of a list behind what was read of it before. -/
private theorem map_inits_cons (f : List ε → δ) (item : ε) (rest before : List ε) :
    ((item :: rest).inits.map fun items => f (items.reverse ++ before)) =
      f before :: rest.inits.map fun items => f (items.reverse ++ item :: before) := by
  simp [Function.comp_def]

/-- A part read from the end is found by its length among the beginnings. -/
private theorem getD_map_inits (f : List ε → δ) {items part : List ε}
    (isPart : part <:+ items.reverse) (default : δ) :
    (items.inits.map f).getD part.length default = f part.reverse := by
  have isPrefix : part.reverse <+: items := List.reverse_suffix.mp (by simpa using isPart)
  have bound : part.length < (items.inits.map f).length := by
    have shorter := isPart.length_le
    simp only [List.length_reverse, List.length_map, List.length_inits] at shorter ⊢
    omega
  have start : items.take part.length = part.reverse := by
    simpa using (List.prefix_iff_eq_take.mp isPrefix).symm
  rw [List.getD_eq_getElem _ _ bound, List.getElem_map, List.getElem_inits, start]

/-- A row is right if the row above it is, both of them from where `before` ends. -/
theorem scoreRow_eq (a : α) (as : List α) (before rest : List β) :
    scoreRow (fun b => (select a b).isSome) (most select (a :: as) before) rest
        (rest.inits.map fun items => most select as (items.reverse ++ before)) =
      (rest.inits.map fun items => most select (a :: as) (items.reverse ++ before)).tail := by
  induction rest generalizing before with
  | nil => rfl
  | cons b rest ih =>
    have score : (if (select a b).isSome = true then most select as before + 1
        else max (most select (a :: as) before) (most select as (b :: before))) =
          most select (a :: as) (b :: before) := by
      rw [most]
    have above := map_inits (fun items => most select as (items.reverse ++ b :: before)) rest
    have below := map_inits (fun items => most select (a :: as) (items.reverse ++ b :: before)) rest
    rw [map_inits_cons, map_inits_cons, List.tail_cons, below, ← ih (b :: before), above, scoreRow]
    simp only [List.reverse_nil, List.nil_append, score]

/-- The most matches in order of a list with every beginning of the second list. -/
def mostAlong (second : List β) (as : List α) : List Nat :=
  second.inits.map fun bs => most select as bs.reverse

/-- All rows are right if the row above them is. -/
theorem scoreRows_eq (before rest : List α) (second : List β) :
    scoreRows select second rest (mostAlong select second before) =
      (rest.inits.map fun as => mostAlong select second (as.reverse ++ before)).tail := by
  induction rest generalizing before with
  | nil => rfl
  | cons a rest ih =>
    have row : (0 :: scoreRow (fun b => (select a b).isSome) 0 second
        (mostAlong select second before)) = mostAlong select second (a :: before) := by
      have behind := scoreRow_eq select a before [] second
      simp only [List.append_nil, most_nil_right] at behind
      rw [mostAlong, behind, mostAlong, map_inits, List.reverse_nil, most_nil_right]
      rfl
    have below := map_inits (fun as => mostAlong select second (as.reverse ++ a :: before)) rest
    rw [map_inits_cons (mostAlong select second), List.tail_cons, below, ← ih (a :: before),
      scoreRows, row]
    rfl

/-- The table holds the most matches of any two beginnings. -/
theorem scoreTable_eq (first : List α) (second : List β) :
    scoreTable select first second =
      first.inits.map fun as => mostAlong select second as.reverse := by
  have start : List.replicate (second.length + 1) 0 = mostAlong select second [] := by
    simp [mostAlong, most_nil_left]
  have rows := scoreRows_eq select [] first second
  simp only [List.append_nil] at rows
  rw [scoreTable, start, rows, map_inits]
  rfl

theorem counts_scoreTable (first : List α) (second : List β) :
    Counts select (fun i j => ((scoreTable select first second).getD i []).getD j 0)
      first.reverse second.reverse := by
  intro as bs inFirst inSecond
  dsimp only
  rw [scoreTable_eq, getD_map_inits _ inFirst, mostAlong, getD_map_inits _ inSecond,
    List.reverse_reverse, List.reverse_reverse]

end Table

end Common

/-- What is found has the values of matches in order. -/
theorem exists_inOrder_longestCommon (select : α → β → Option γ) (first : List α)
    (second : List β) :
    ∃ places, Common.InOrder select first second places ∧
      places.map (Common.matchAt select first second) =
        (longestCommon select first second).map some := by
  have taken (score : Nat → Nat → Nat) :=
    Common.exists_inOrder_walk select score first.reverse second.reverse
  simp only [List.reverse_reverse] at taken
  exact taken _

/-- What is common is selected from the two lists. -/
theorem mem_longestCommon {select : α → β → Option γ} {first : List α} {second : List β} {x : γ}
    (member : x ∈ longestCommon select first second) :
    ∃ a ∈ first, ∃ b ∈ second, select a b = some x := by
  obtain ⟨places, _, values⟩ := exists_inOrder_longestCommon select first second
  have found : some x ∈ places.map (Common.matchAt select first second) := by
    rw [values]
    exact List.mem_map_of_mem member
  obtain ⟨p, _, isMatch⟩ := List.mem_map.mp found
  exact Common.matchAt_eq_some isMatch

/-- What is found has the values of matches in order, and there are never more of these. -/
theorem longestCommon_maximal (select : α → β → Option γ) (first : List α) (second : List β) :
    (∃ places, Common.InOrder select first second places ∧
        places.map (Common.matchAt select first second) =
          (longestCommon select first second).map some) ∧
      ∀ places, Common.InOrder select first second places →
        places.length ≤ (longestCommon select first second).length := by
  refine ⟨exists_inOrder_longestCommon select first second, fun places order => ?_⟩
  rw [longestCommon, List.length_reverse,
    Common.length_walk (Common.counts_scoreTable select first second)]
  apply Common.InOrder.length_le_most
  simpa only [List.reverse_reverse] using order

/-- A match that is no equivalence: numbers that are at most one apart. -/
example : longestCommon (fun a b : Nat => if a ≤ b + 1 ∧ b ≤ a + 1 then some (a, b) else none)
    [1, 5, 3, 4] [2, 3, 9, 5] = [(1, 2), (3, 3), (4, 5)] := by
  cbv

end Stylesheet
