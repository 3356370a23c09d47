import Stylesheet.Proofs.Selector.Occurrence

/-! Weaving and the meaning of chains. Both lists of groups occur in order in what is woven from
them, a group at most being replaced by one it is compared with; from this follows which chains an
element matches if it matches the woven one. -/

namespace Stylesheet

/-- A chain that ends in a compound, so that what follows descends from it. -/
def Chain.EndsInCompound (chain : Chain) : Prop :=
  ∃ before c, chain = before ++ [.compound c]

namespace Weave

attribute [local simp] groups

theorem groups_cons_ne_nil (a : Component) (rest : Chain) : groups (a :: rest) ≠ [] := by
  intro empty
  rw [groups.eq_def] at empty
  simp only at empty
  split at empty
  · split at empty <;> simp at empty
  · simp at empty

theorem groups_cons_cons (a b : Component) (rest : Chain) :
    ∃ group more, groups (b :: rest) = group :: more ∧
      groups (a :: b :: rest) =
        if joins a b then (a :: group) :: more else [a] :: group :: more := by
  cases found : groups (b :: rest) with
  | nil => exact absurd found (groups_cons_ne_nil b rest)
  | cons group more => exact ⟨group, more, rfl, groups.eq_2 a b rest group more found⟩

theorem flatten_groups (chain : Chain) : (groups chain).flatten = chain := by
  induction chain with
  | nil => rfl
  | cons a rest ih =>
    cases rest with
    | nil => simp
    | cons b rest =>
      obtain ⟨group, more, found, same⟩ := groups_cons_cons a b rest
      rw [found] at ih
      rw [same]
      split <;> simpa using ih

theorem ne_nil_of_mem_groups {chain : Chain} {g : Group} (member : g ∈ groups chain) : g ≠ [] := by
  induction chain generalizing g with
  | nil => simp at member
  | cons a rest ih =>
    cases rest with
    | nil =>
      have single : g = [a] := by simpa using member
      simp [single]
    | cons b rest =>
      obtain ⟨group, more, found, same⟩ := groups_cons_cons a b rest
      have others : ∀ h ∈ group :: more, h ≠ [] := fun h later => ih (found ▸ later)
      rw [same] at member
      split at member
      · rcases List.mem_cons.mp member with rfl | later
        · simp
        · exact others g (List.mem_cons_of_mem _ later)
      · rcases List.mem_cons.mp member with rfl | later
        · simp
        · exact others g later

/-- A group ends with a compound, unless the chain ends with it. -/
theorem endsInCompound_of_mem_groups_dropLast (chain : Chain) {g : Group}
    (member : g ∈ (groups chain).dropLast) : Chain.EndsInCompound g := by
  induction chain generalizing g with
  | nil => simp at member
  | cons a rest ih =>
    cases rest with
    | nil => simp at member
    | cons b rest =>
      obtain ⟨group, more, found, same⟩ := groups_cons_cons a b rest
      rw [found] at ih
      rw [same] at member
      by_cases bound : joins a b = true
      · simp only [bound, if_true] at member
        cases more with
        | nil => simp at member
        | cons next more =>
          simp only [List.dropLast_cons_cons] at member ih
          rcases List.mem_cons.mp member with rfl | later
          · obtain ⟨before, c, rfl⟩ := ih (List.mem_cons_self ..)
            exact ⟨a :: before, c, rfl⟩
          · exact ih (List.mem_cons_of_mem _ later)
      · simp only [bound, Bool.false_eq_true, if_false, List.dropLast_cons_cons] at member
        rcases List.mem_cons.mp member with rfl | later
        · cases a with
          | compound c => exact ⟨[], c, rfl⟩
          | combinator k => simp [joins, Component.isCombinator] at bound
        · exact ih later

theorem endsInCompound_of_mem_groups {chain : Chain} (ends : chain.EndsInCompound) {g : Group}
    (member : g ∈ groups chain) : Chain.EndsInCompound g := by
  obtain ⟨before, c, rfl⟩ := ends
  have nonempty : groups (before ++ [.compound c]) ≠ [] := by
    cases before <;> exact groups_cons_ne_nil _ _
  have whole := List.dropLast_append_getLast nonempty
  rw [← whole] at member
  rcases List.mem_append.mp member with early | last
  · exact endsInCompound_of_mem_groups_dropLast _ early
  · rw [List.mem_singleton.mp last]
    have joined := flatten_groups (before ++ [.compound c])
    rw [← whole, List.flatten_append, List.flatten_singleton] at joined
    rcases List.eq_nil_or_concat' ((groups (before ++ [.compound c])).getLast nonempty) with
      empty | ⟨front, d, same⟩
    · exact absurd empty (ne_nil_of_mem_groups (List.getLast_mem nonempty))
    · rw [same, ← List.append_assoc] at joined
      obtain ⟨_, final⟩ := List.append_inj' joined rfl
      cases final
      exact ⟨front, c, same⟩

theorem isProper_of_mem_groups {chain : Chain} (proper : chain.isProper = true) :
    ∀ g ∈ groups chain, Chain.isProper g = true := by
  fun_induction Chain.isProper chain with
  | case1 => simp
  | case2 c k rest ih =>
    simp only [Bool.and_eq_true] at proper
    cases rest with
    | nil => simpa [joins, Component.isCombinator, Chain.isProper] using proper.1
    | cons d rest =>
      obtain ⟨group, more, found, bound⟩ := groups_cons_cons (.combinator k) d rest
      have each := ih proper.2
      rw [found] at each
      have left : joins (.combinator k) d = true := rfl
      have right : joins (.compound c) (.combinator k) = true := rfl
      rw [if_pos left] at bound
      have whole := groups.eq_2 (.compound c) (.combinator k) (d :: rest) _ _ bound
      rw [if_pos right] at whole
      rw [whole]
      intro g member
      rcases List.mem_cons.mp member with rfl | later
      · rw [Chain.isProper, proper.1, each group (List.mem_cons_self ..)]
        rfl
      · exact each g (List.mem_cons_of_mem _ later)
  | case3 c rest other ih =>
    simp only [Bool.and_eq_true] at proper
    have single : Chain.isProper [.compound c] = true := by simpa [Chain.isProper] using proper.1
    cases rest with
    | nil => simpa using single
    | cons d rest =>
      have each := ih proper.2
      obtain ⟨group, more, found, bound⟩ := groups_cons_cons (.compound c) d rest
      have free : joins (.compound c) d = false := by
        cases d with
        | compound d => rfl
        | combinator k => exact absurd rfl (other k rest)
      rw [free, if_neg Bool.false_ne_true, ← found] at bound
      rw [bound]
      intro g member
      rcases List.mem_cons.mp member with rfl | later
      · exact single
      · exact each g later
  | case4 => simp at proper

theorem isProper_flatten {gs : List Group} (proper : ∀ g ∈ gs, Chain.isProper g = true) :
    Chain.isProper gs.flatten = true := by
  induction gs with
  | nil => rfl
  | cons g rest ih =>
    exact Chain.isProper_append (proper g (List.mem_cons_self ..))
      (ih fun h member => proper h (List.mem_cons_of_mem _ member))

variable {tree : ElementTree}

/-- The places behind groups that descend from one another. -/
private def behindAll (p : tree.Element → Prop) (gs : List Group) : tree.Element → Prop :=
  gs.foldl tree.Behind p

private theorem startsFree_flatten {gs : List Group}
    (free : ∀ g ∈ gs, ElementTree.startsFree g = true) :
    ElementTree.startsFree gs.flatten = true := by
  induction gs with
  | nil => rfl
  | cons g rest ih =>
    have first := free g (List.mem_cons_self ..)
    cases g with
    | nil => exact ih fun h member => free h (List.mem_cons_of_mem _ member)
    | cons a g => cases a with
      | compound c => rfl
      | combinator k => exact first

private theorem behind_flatten (p : tree.Element → Prop) {gs : List Group}
    (free : ∀ g ∈ gs, ElementTree.startsFree g = true) :
    tree.Behind p gs.flatten = behindAll p gs := by
  induction gs generalizing p with
  | nil => rfl
  | cons g rest ih =>
    have others : ∀ h ∈ rest, ElementTree.startsFree h = true :=
      fun h member => free h (List.mem_cons_of_mem _ member)
    rw [List.flatten_cons, ElementTree.behind_append p g _ (startsFree_flatten others)]
    exact ih (tree.Behind p g) others

private theorem inherited_of_behindAll {p q : tree.Element → Prop} (inherited : tree.Inherited q)
    (weaker : ∀ e, p e → q e) (gs : List Group) (e : tree.Element) : behindAll p gs e → q e := by
  induction gs generalizing p with
  | nil => exact weaker e
  | cons g rest ih => exact ih fun x => inherited.of_behind weaker g x

/-- One group in the place of another: the same, or one that it occurs in. -/
def Stands (g h : Group) : Prop :=
  g = h ∨ Chain.occursIn g h = true

private theorem behind_of_stands {g h : Group} (stands : Stands g h)
    (proper : Chain.isProper g = true) (proper' : Chain.isProper h = true)
    {p q : tree.Element → Prop} (weaker : ∀ e, p e → q e) (inherited : tree.Inherited q)
    (e : tree.Element) (behind : tree.Behind p h e) : tree.Behind q g e := by
  rcases stands with rfl | occur
  · exact ElementTree.behind_mono weaker g e behind
  · exact ElementTree.behind_of_occursIn proper proper' occur weaker inherited e behind

/-- Groups that occur in order among others are met wherever the others are. -/
private theorem behindAll_of_sublist {gs hs : List Group}
    (occur : List.SublistForall₂ Stands gs hs) (proper : ∀ g ∈ gs, Chain.isProper g = true)
    (proper' : ∀ h ∈ hs, Chain.isProper h = true) (ends : ∀ g ∈ gs, Chain.EndsInCompound g)
    {p q : tree.Element → Prop} (weaker : ∀ e, p e → q e) (inherited : tree.Inherited q)
    (e : tree.Element) : behindAll p hs e → behindAll q gs e := by
  induction occur generalizing p q with
  | nil => exact inherited_of_behindAll inherited weaker _ e
  | cons stands _ ih =>
    obtain ⟨before, c, same⟩ := ends _ (List.mem_cons_self ..)
    apply ih (fun g member => proper g (List.mem_cons_of_mem _ member))
      (fun h member => proper' h (List.mem_cons_of_mem _ member))
      (fun g member => ends g (List.mem_cons_of_mem _ member))
    · exact fun x => behind_of_stands stands (proper _ (List.mem_cons_self ..))
        (proper' _ (List.mem_cons_self ..)) weaker inherited x
    · rw [same]
      exact tree.inherited_behind q before c
  | cons_right _ ih =>
    exact ih proper (fun h member => proper' h (List.mem_cons_of_mem _ member)) ends
      (fun x => inherited.of_behind weaker _ x) inherited

/-- One group in the place of another by what the comparison of groups says. -/
def Covered (g h : Group) : Prop :=
  g = h ∨ groupSuperselector g h = true

instance : Std.Refl Covered := ⟨fun _ => Or.inl rfl⟩

/-- An order-preserving placement of groups among others, each on itself or on a group that it is
compared with. -/
def PlacedIn (gs hs : List Group) : Prop :=
  ∃ place : Fin gs.length ↪o Fin hs.length, ∀ i, Covered (gs.get i) (hs.get (place i))

theorem placedIn_of_sublist {gs hs : List Group} (occurs : List.SublistForall₂ Covered gs hs) :
    PlacedIn gs hs := by
  obtain ⟨own, related, sub⟩ := List.sublistForall₂_iff.mp occurs
  obtain ⟨place, same⟩ := List.sublist_iff_exists_fin_orderEmbedding_get_eq.mp sub
  obtain ⟨lengths, each⟩ := List.forall₂_iff_get.mp related
  refine ⟨(Fin.castOrderIso lengths).toOrderEmbedding.trans place, fun i => ?_⟩
  have covered := each i i.isLt (lengths ▸ i.isLt)
  change Covered (gs.get i) (hs.get (place (Fin.cast lengths i)))
  rw [← same (Fin.cast lengths i)]
  exact covered

/-- Both lists occur in what is woven from them, and nothing else does but common groups. -/
structure Woven (first second common woven : List Group) : Prop where
  occursFirst : List.SublistForall₂ Covered first woven
  occursSecond : List.SublistForall₂ Covered second woven
  mem : ∀ g ∈ woven, g ∈ first ∨ g ∈ second ∨ g ∈ common

private theorem occurs_append {r : α → α → Prop} {as bs xs ys : List α}
    (left : List.SublistForall₂ r as xs) (right : List.SublistForall₂ r bs ys) :
    List.SublistForall₂ r (as ++ bs) (xs ++ ys) := by
  induction left with
  | @nil xs =>
    induction xs with
    | nil => exact right
    | cons x xs ih => exact .cons_right ih
  | cons related _ ih => exact .cons related ih
  | cons_right _ ih => exact .cons_right ih

theorem woven_of_mem_orders {first second woven : List Group} (member : woven ∈ orders first second) :
    Woven first second [] woven := by
  have occurs {gs hs : List Group} (sub : gs.Sublist hs) : List.SublistForall₂ Covered gs hs :=
    sub.sublistForall₂
  cases first with
  | nil =>
    cases second with
    | nil => simp [orders] at member
    | cons b second =>
      simp only [orders, List.isEmpty_nil, List.isEmpty_cons, List.mem_singleton] at member
      subst member
      exact ⟨.nil, occurs (List.Sublist.refl _), fun g here => Or.inr (Or.inl here)⟩
  | cons a first =>
    cases second with
    | nil =>
      simp only [orders, List.isEmpty_nil, List.isEmpty_cons, List.mem_singleton] at member
      subst member
      exact ⟨occurs (List.Sublist.refl _), .nil, fun g here => Or.inl here⟩
    | cons b second =>
      simp only [orders, List.isEmpty_cons, List.mem_cons, List.not_mem_nil, or_false] at member
      rcases member with rfl | rfl
      · refine ⟨occurs (List.sublist_append_left ..), occurs (List.sublist_append_right ..), ?_⟩
        intro g here
        rcases List.mem_append.mp here with here | here <;> simp [here]
      · refine ⟨occurs (List.sublist_append_right ..), occurs (List.sublist_append_left ..), ?_⟩
        intro g here
        rcases List.mem_append.mp here with here | here <;> simp [here]

theorem orders_eq_nil {first second : List Group} (none : orders first second = []) :
    first = [] ∧ second = [] := by
  cases first <;> cases second <;> simp [orders] at none ⊢

/-- What is chosen from the alternatives of a part and those of the parts that follow. -/
private theorem chosen_cons {alternatives : List (List Group)}
    {later : List (List (List Group))} {choice : List (List Group)}
    (chosen : List.Forall₂ (· ∈ ·) choice ((alternatives :: later).filter (!·.isEmpty))) :
    ∃ own more, choice.flatten = own ++ more.flatten ∧
      List.Forall₂ (· ∈ ·) more (later.filter (!·.isEmpty)) ∧
        (own ∈ alternatives ∨ alternatives = [] ∧ own = []) := by
  cases alternatives with
  | nil => exact ⟨[], choice, rfl, chosen, Or.inr ⟨rfl, rfl⟩⟩
  | cons alternative alternatives =>
    simp only [List.filter_cons, List.isEmpty_cons, Bool.not_false, if_true] at chosen
    cases chosen with
    | cons member rest => exact ⟨_, _, rfl, rest, Or.inl member⟩

private theorem woven_of_chosen_orders {first second own : List Group}
    (chosen : own ∈ orders first second ∨ orders first second = [] ∧ own = []) :
    Woven first second [] own := by
  rcases chosen with member | ⟨none, rfl⟩
  · exact woven_of_mem_orders member
  · obtain ⟨rfl, rfl⟩ := orders_eq_nil none
    exact ⟨.nil, .nil, by simp⟩

/-- The groups up to the one that a common group takes the place of, and those behind it. -/
private theorem cut_at_head (head : Group) (gs : List Group) :
    gs = gs.takeWhile (fun g => !groupSuperselector g head) ∧
        (gs.dropWhile fun g => !groupSuperselector g head).drop 1 = [] ∨
      ∃ g, groupSuperselector g head = true ∧
        gs = gs.takeWhile (fun g => !groupSuperselector g head) ++
          [g] ++ (gs.dropWhile fun g => !groupSuperselector g head).drop 1 := by
  have whole := (List.takeWhile_append_dropWhile (p := fun g => !groupSuperselector g head)
    (l := gs)).symm
  cases rest : gs.dropWhile fun g => !groupSuperselector g head with
  | nil =>
    rw [rest, List.append_nil] at whole
    exact Or.inl ⟨whole, rfl⟩
  | cons g more =>
    refine Or.inr ⟨g, ?_, by simpa [rest] using whole⟩
    have stopped := List.head_dropWhile_not (p := fun g => !groupSuperselector g head) (l := gs)
    simpa [rest] using stopped

private theorem occurs_through_head (head : Group) (gs own more : List Group)
    (before : List.SublistForall₂ Covered (gs.takeWhile fun g => !groupSuperselector g head) own)
    (after : List.SublistForall₂ Covered
      ((gs.dropWhile fun g => !groupSuperselector g head).drop 1) more) :
    List.SublistForall₂ Covered gs (own ++ head :: more) := by
  rcases cut_at_head head gs with ⟨whole, _⟩ | ⟨g, covers, whole⟩
  · rw [whole, ← List.append_nil (List.takeWhile _ gs)]
    exact occurs_append before .nil
  · rw [whole, List.append_assoc]
    exact occurs_append before (.cons (Or.inr covers) after)

theorem woven_of_mem_choices {common first second : List Group} {choice : List (List Group)}
    (chosen : List.Forall₂ (· ∈ ·) choice ((parts first second common).filter (!·.isEmpty))) :
    Woven first second common choice.flatten := by
  induction common generalizing first second choice with
  | nil =>
    obtain ⟨own, more, same, rest, here⟩ := chosen_cons chosen
    cases rest
    rw [same, List.flatten_nil, List.append_nil]
    exact woven_of_chosen_orders here
  | cons head common ih =>
    obtain ⟨own, more, same, rest, here⟩ := chosen_cons chosen
    obtain ⟨single, more', same', rest', here'⟩ := chosen_cons rest
    have isHead : single = [head] := by simpa using here'
    have before := woven_of_chosen_orders here
    have after := ih rest'
    rw [same, same', isHead, List.singleton_append]
    refine ⟨occurs_through_head head first own _ before.occursFirst after.occursFirst,
      occurs_through_head head second own _ before.occursSecond after.occursSecond, ?_⟩
    intro g member
    rcases List.mem_append.mp member with early | late
    · rcases before.mem g early with here | here | here
      · exact Or.inl ((List.takeWhile_sublist _).subset here)
      · exact Or.inr (Or.inl ((List.takeWhile_sublist _).subset here))
      · simp at here
    · rcases List.mem_cons.mp late with rfl | late
      · simp
      · rcases after.mem g late with here | here | here
        · exact Or.inl ((List.dropWhile_sublist _).subset (List.mem_of_mem_drop here))
        · exact Or.inr (Or.inl ((List.dropWhile_sublist _).subset (List.mem_of_mem_drop here)))
        · exact Or.inr (Or.inr (List.mem_cons_of_mem _ here))

theorem commonGroup_eq_some {a b head : Group} (common : commonGroup a b = some head) :
    head = a ∨ head = b := by
  unfold commonGroup at common
  split at common
  · exact Or.inl (Option.some.inj common).symm
  · split at common
    · split at common
      · exact Or.inr (Option.some.inj common).symm
      · split at common
        · exact Or.inl (Option.some.inj common).symm
        · simp at common
    · simp at common

/-- The groups of each chain that weaving gives, before they are joined. -/
def wovenGroups (first second : Chain) : List (List Group) :=
  if first.isEmpty then [groups second]
  else if second.isEmpty then [groups first]
  else
    let common := longestCommon commonGroup (groups second) (groups first)
    (choices ((parts (groups first) (groups second) common).filter (!·.isEmpty))).map List.flatten

theorem subweave_eq (first second : Chain) :
    subweave first second = (wovenGroups first second).map List.flatten := by
  unfold subweave wovenGroups
  split
  · simp [flatten_groups]
  · split
    · simp [flatten_groups]
    · simp [Function.comp_def]

theorem woven_of_mem_wovenGroups {first second : Chain} {woven : List Group}
    (member : woven ∈ wovenGroups first second) :
    Woven (groups first) (groups second) [] woven := by
  unfold wovenGroups at member
  split at member
  · rename_i empty
    rw [List.isEmpty_iff.mp empty]
    rw [List.mem_singleton.mp member]
    exact ⟨.nil, (List.Sublist.refl _).sublistForall₂, fun g here => Or.inr (Or.inl here)⟩
  · split at member
    · rename_i empty
      rw [List.isEmpty_iff.mp empty]
      rw [List.mem_singleton.mp member]
      exact ⟨(List.Sublist.refl _).sublistForall₂, .nil, fun g here => Or.inl here⟩
    · obtain ⟨choice, chosen, rfl⟩ := List.mem_map.mp member
      have woven := woven_of_mem_choices (mem_choices.mp chosen)
      refine ⟨woven.occursFirst, woven.occursSecond, ?_⟩
      intro g here
      rcases woven.mem g here with first | second | common
      · exact Or.inl first
      · exact Or.inr (Or.inl second)
      · obtain ⟨a, inSecond, b, inFirst, selected⟩ := mem_longestCommon common
        rcases commonGroup_eq_some selected with rfl | rfl
        · exact Or.inr (Or.inl inSecond)
        · exact Or.inl inFirst

theorem wovenGroups_ne_nil (first second : Chain) : wovenGroups first second ≠ [] := by
  unfold wovenGroups
  split
  · simp
  · split
    · simp
    · simp only [ne_eq, List.map_eq_nil_iff]
      apply choices_ne_nil
      intro alternatives member
      simpa using (List.mem_filter.mp member).2

private theorem occurs_dropLast {r : α → α → Prop} {as bs : List α} {a b : α}
    (occurs : List.SublistForall₂ r (as ++ [a]) (bs ++ [b])) : List.SublistForall₂ r as bs := by
  induction bs generalizing as with
  | nil =>
    cases as with
    | nil => exact .nil
    | cons x as =>
      cases occurs with
      | cons _ rest => cases as <;> cases rest
      | cons_right rest => cases rest
  | cons y bs ih =>
    cases as with
    | nil => exact .nil
    | cons x as =>
      cases occurs with
      | cons related rest => exact .cons related (ih rest)
      | cons_right rest => exact .cons_right (ih rest)

private theorem occurs_mono {r s : α → α → Prop} {as bs : List α}
    (occurs : List.SublistForall₂ r as bs) (weaker : ∀ a ∈ as, ∀ b ∈ bs, r a b → s a b) :
    List.SublistForall₂ s as bs := by
  induction occurs with
  | nil => exact .nil
  | cons related _ ih =>
    refine .cons (weaker _ (List.mem_cons_self ..) _ (List.mem_cons_self ..) related) (ih ?_)
    intro a here b here'
    exact weaker a (List.mem_cons_of_mem _ here) b (List.mem_cons_of_mem _ here')
  | cons_right _ ih =>
    exact .cons_right (ih fun a here b here' => weaker a here b (List.mem_cons_of_mem _ here'))

/-- The comparison of groups is right wherever it accepts a group of the chain, and a last group
that ends in a combinator stays last. -/
structure Keeps (chain : Chain) (woven : List Group) : Prop where
  compares : ∀ g ∈ groups chain, Chain.EndsInCompound g → ∀ h ∈ woven,
    groupSuperselector g h = true → Chain.occursIn g h = true
  ending : chain = [] ∨ chain.EndsInCompound ∨ woven.getLast? = (groups chain).getLast?

private theorem stands_of_keeps {chain : Chain} {woven : List Group} (keeps : Keeps chain woven)
    {gs hs : List Group} (inChain : ∀ g ∈ gs, g ∈ groups chain) (inWoven : ∀ h ∈ hs, h ∈ woven)
    (ends : ∀ g ∈ gs, Chain.EndsInCompound g) (occurs : List.SublistForall₂ Covered gs hs) :
    List.SublistForall₂ Stands gs hs := by
  apply occurs_mono occurs
  intro g here h there covered
  rcases covered with same | compared
  · exact Or.inl same
  · exact Or.inr (keeps.compares g (inChain g here) (ends g here) h (inWoven h there) compared)

/-- A chain whose groups occur in order and that is kept is implied. -/
theorem implies_of_keeps {chain : Chain} {woven : List Group}
    (proper : ∀ g ∈ groups chain, Chain.isProper g = true)
    (proper' : ∀ h ∈ woven, Chain.isProper h = true)
    (occurs : List.SublistForall₂ Covered (groups chain) woven) (keeps : Keeps chain woven) :
    Chain.Implies woven.flatten chain := by
  have free := fun g member => Chain.startsFree_of_isProper (proper g member)
  have free' := fun h member => Chain.startsFree_of_isProper (proper' h member)
  intro tree last e found
  rw [ElementTree.matches_append_iff] at found ⊢
  obtain ⟨meets, behind⟩ := found
  refine ⟨meets, ?_⟩
  rw [behind_flatten _ free'] at behind
  rcases keeps.ending with rfl | ends | same
  · trivial
  · have each := fun g member => endsInCompound_of_mem_groups ends (g := g) member
    have stands := stands_of_keeps keeps (fun _ here => here) (fun _ here => here) each occurs
    rw [← flatten_groups chain, behind_flatten _ free]
    exact behindAll_of_sublist stands proper proper' each (fun _ holds => holds) tree.inherited_true
      e behind
  · rcases List.eq_nil_or_concat' (groups chain) with none | ⟨gs, g, split⟩
    · rw [← flatten_groups chain, none]
      trivial
    · -- The last group is the same on both sides; what stands before it ends in compounds.
      rw [split, List.getLast?_concat] at same
      obtain ⟨hs, rfl⟩ := List.getLast?_eq_some_iff.mp same
      have inChain : ∀ x ∈ gs, x ∈ groups chain := by simp +contextual [split]
      have inWoven : ∀ x ∈ hs, x ∈ hs ++ [g] := by simp +contextual
      have each : ∀ x ∈ gs, Chain.EndsInCompound x := fun x member =>
        endsInCompound_of_mem_groups_dropLast chain (by simpa [split] using member)
      rw [split] at occurs
      have stands := stands_of_keeps keeps inChain inWoven each (occurs_dropLast occurs)
      have before := behindAll_of_sublist stands (fun x here => proper x (inChain x here))
        (fun x here => proper' x (inWoven x here)) each (fun _ holds => holds) tree.inherited_true
      rw [← flatten_groups chain, behind_flatten _ free, split]
      simp only [behindAll, List.foldl_append, List.foldl_cons, List.foldl_nil] at behind ⊢
      exact ElementTree.behind_mono before g e behind

theorem isProper_of_woven {first second : Chain} (proper : first.isProper = true)
    (proper' : second.isProper = true) {woven : List Group}
    (parts : Woven (groups first) (groups second) [] woven) :
    ∀ g ∈ woven, Chain.isProper g = true := by
  intro g here
  rcases parts.mem g here with inFirst | inSecond | none
  · exact isProper_of_mem_groups proper g inFirst
  · exact isProper_of_mem_groups proper' g inSecond
  · simp at none

/-- A chain woven from two others implies both exactly if both occur in it, and they do if the
groups it is woven from keep them. -/
theorem woven_implies_iff {first second chain : Chain} (proper : first.isProper = true)
    (proper' : second.isProper = true) (member : chain ∈ subweave first second) :
    (chain.Implies first ∧ chain.Implies second ↔
        first.occursIn chain = true ∧ second.occursIn chain = true) ∧
      ∀ woven ∈ wovenGroups first second, woven.flatten = chain →
        Keeps first woven → Keeps second woven → chain.Implies first ∧ chain.Implies second := by
  constructor
  · rw [subweave_eq] at member
    obtain ⟨woven, found, rfl⟩ := List.mem_map.mp member
    have whole := isProper_flatten (isProper_of_woven proper proper' (woven_of_mem_wovenGroups found))
    rw [Chain.implies_iff_occursIn whole proper, Chain.implies_iff_occursIn whole proper']
  · rintro woven found rfl keeps keeps'
    have parts := woven_of_mem_wovenGroups found
    have each := isProper_of_woven proper proper' parts
    exact ⟨implies_of_keeps (isProper_of_mem_groups proper) each parts.occursFirst keeps,
      implies_of_keeps (isProper_of_mem_groups proper') each parts.occursSecond keeps'⟩

/-- A compound of one class. -/
def ofClass (name : String) : Component :=
  .compound (.mk none [.className name])

theorem woven_implies_iff_of_child :
    ∃ chain ∈ subweave [ofClass "a", .combinator .child] [ofClass "b"],
      chain.Implies [ofClass "a", .combinator .child] ∧ chain.Implies [ofClass "b"] := by
  have found : (subweave [ofClass "a", .combinator .child] [ofClass "b"]).any (fun chain =>
      Chain.occursIn [ofClass "a", .combinator .child] chain &&
        Chain.occursIn [ofClass "b"] chain) = true := by with_unfolding_all rfl
  obtain ⟨chain, member, occur⟩ := List.any_eq_true.mp found
  exact ⟨chain, member, (woven_implies_iff rfl rfl member).1.mpr (by simpa using occur)⟩

private theorem exists_not_implies {first second chain : Chain} (proper : first.isProper = true)
    (found : (subweave first second).any (fun c => c == chain && (c.isProper && !first.occursIn c)) =
      true) :
    ∃ c ∈ subweave first second, (c == chain) = true ∧ ¬ c.Implies first := by
  obtain ⟨c, member, checks⟩ := List.any_eq_true.mp found
  simp only [Bool.and_eq_true, Bool.not_eq_true'] at checks
  refine ⟨c, member, checks.1, ?_⟩
  rw [Chain.implies_iff_occursIn checks.2.1 proper, checks.2.2]
  exact Bool.false_ne_true

/-- Two ways in which a woven chain does not imply what it is woven from: a group that ends in a
combinator is not the last, and a group takes the place of another that has one step less. -/
theorem woven_not_implies :
    (∃ chain ∈ subweave [ofClass "a", .combinator .child] [ofClass "b"],
      (chain == [ofClass "a", .combinator .child, ofClass "b"]) = true ∧
        ¬ chain.Implies [ofClass "a", .combinator .child]) ∧
    ∃ chain ∈ subweave [ofClass "a", .combinator .child, ofClass "c"]
        [ofClass "a", .combinator .child, ofClass "b", .combinator .child, ofClass "c"],
      (chain == [ofClass "a", .combinator .child, ofClass "b", .combinator .child, ofClass "c"]) =
          true ∧
        ¬ chain.Implies [ofClass "a", .combinator .child, ofClass "c"] :=
  ⟨exists_not_implies rfl (by with_unfolding_all rfl),
    exists_not_implies rfl (by with_unfolding_all rfl)⟩

/-- Weaving always gives some chain, and every chain that it gives is made of the groups of the two:
each group of either stands there in order, or one that it is compared with in its place. -/
theorem subweave_places_groups (first second : Chain) :
    subweave first second ≠ [] ∧
      ∀ chain ∈ subweave first second, ∃ woven : List Group, woven.flatten = chain ∧
        (∀ g ∈ woven, g ∈ groups first ∨ g ∈ groups second) ∧
        PlacedIn (groups first) woven ∧ PlacedIn (groups second) woven := by
  rw [subweave_eq]
  constructor
  · simpa using wovenGroups_ne_nil first second
  · intro chain member
    obtain ⟨woven, found, rfl⟩ := List.mem_map.mp member
    have parts := woven_of_mem_wovenGroups found
    refine ⟨woven, rfl, fun g here => ?_, placedIn_of_sublist parts.occursFirst,
      placedIn_of_sublist parts.occursSecond⟩
    simpa using parts.mem g here

/-- A group that a more special one takes the place of, and one on each side that is in only one of
the chains. -/
theorem subweave_places_groups_of_special :
    let special : Component := .compound (.mk none [.className "a", .className "c"])
    let first : Chain := [ofClass "a", ofClass "b"]
    let second : Chain := [special, ofClass "d"]
    [special, ofClass "b", ofClass "d"] ∈ subweave first second ∧
      ∃ woven : List Group, woven.flatten = [special, ofClass "b", ofClass "d"] ∧
        PlacedIn (groups first) woven ∧ PlacedIn (groups second) woven := by
  intro special first second
  have member : [special, ofClass "b", ofClass "d"] ∈ subweave first second := by
    have computed : subweave [ofClass "a", ofClass "b"]
        [.compound (.mk none [.className "a", .className "c"]), ofClass "d"] =
          [[.compound (.mk none [.className "a", .className "c"]), ofClass "b", ofClass "d"],
            [.compound (.mk none [.className "a", .className "c"]), ofClass "d", ofClass "b"]] := by
      with_unfolding_all rfl
    exact computed ▸ List.mem_cons_self ..
  obtain ⟨woven, whole, _, placed⟩ := (subweave_places_groups first second).2 _ member
  exact ⟨member, woven, whole, placed⟩

end Weave

end Stylesheet
