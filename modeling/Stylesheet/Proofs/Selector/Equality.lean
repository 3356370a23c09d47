import Mathlib.Data.List.Forall2
import Stylesheet.Selector.Basic

/-! Equality of selectors is an equivalence, although sets of simple selectors are compared without
regard to order, and the conditions of a compound may be taken from an equal one. What has the same
parts in the same order is one and the same selector. -/

namespace Stylesheet

theorem Simple.allIn_iff (items others : List Simple) :
    Simple.allIn items others = true ↔ ∀ a ∈ items, ∃ b ∈ others, Simple.equals a b = true := by
  induction items with
  | nil => simp [Simple.allIn]
  | cons a rest ih => simp [Simple.allIn, ih]

theorem Simple.isAmong_iff (items : List Simple) (b : Simple) :
    Simple.isAmong items b = true ↔ ∃ a ∈ items, Simple.equals a b = true := by
  induction items with
  | nil => simp [Simple.isAmong]
  | cons a rest ih => simp [Simple.isAmong, ih]

/-- Each list has an equal for every simple selector of the other. -/
def Simple.SameSet (items others : List Simple) : Prop :=
  (∀ a ∈ items, ∃ b ∈ others, Simple.equals a b = true) ∧
    ∀ b ∈ others, ∃ a ∈ items, Simple.equals a b = true

theorem Simple.SameSet.refl {items : List Simple}
    (own : ∀ a ∈ items, Simple.equals a a = true) : Simple.SameSet items items :=
  ⟨fun a member => ⟨a, member, own a member⟩, fun a member => ⟨a, member, own a member⟩⟩

theorem Simple.SameSet.symm {items others : List Simple}
    (back : ∀ a ∈ items, ∀ b, Simple.equals a b = true → Simple.equals b a = true)
    (same : Simple.SameSet items others) : Simple.SameSet others items := by
  constructor
  · intro b member
    obtain ⟨a, found, equal⟩ := same.2 b member
    exact ⟨a, found, back a found b equal⟩
  · intro a member
    obtain ⟨b, found, equal⟩ := same.1 a member
    exact ⟨b, found, back a member b equal⟩

theorem Simple.SameSet.trans {items middle others : List Simple}
    (chained : ∀ a ∈ items, ∀ b c,
      Simple.equals a b = true → Simple.equals b c = true → Simple.equals a c = true)
    (first : Simple.SameSet items middle) (second : Simple.SameSet middle others) :
    Simple.SameSet items others := by
  constructor
  · intro a member
    obtain ⟨b, found, equal⟩ := first.1 a member
    obtain ⟨c, found', equal'⟩ := second.1 b found
    exact ⟨c, found', chained a member b c equal equal'⟩
  · intro c member
    obtain ⟨b, found', equal'⟩ := second.2 c member
    obtain ⟨a, found, equal⟩ := first.2 b found'
    exact ⟨a, found, chained a found b c equal equal'⟩

private theorem sameSet_iff (items others : List Simple) :
    (Simple.allIn items others && others.all fun b => Simple.isAmong items b) = true ↔
      Simple.SameSet items others := by
  simp [Simple.SameSet, Simple.allIn_iff, Simple.isAmong_iff]

theorem Compound.equals_none_iff (r s : List Simple) :
    Compound.equals (.mk none r) (.mk none s) = true ↔ Simple.SameSet r s := by
  rw [Compound.equals, sameSet_iff]

theorem Compound.equals_some_iff (a b : Simple) (r s : List Simple) :
    Compound.equals (.mk (some a) r) (.mk (some b) s) = true ↔
      Simple.equals a b = true ∧ Simple.SameSet r s := by
  rw [Compound.equals, Bool.and_eq_true, sameSet_iff]

mutual

theorem Simple.equals_refl : ∀ a : Simple, Simple.equals a a = true
  | .className _ => by simp [Simple.equals]
  | .id _ => by simp [Simple.equals]
  | .element _ _ => by simp [Simple.equals]
  | .universal _ => by simp [Simple.equals]
  | .parent => by simp [Simple.equals]
  | .attribute _ _ _ _ => by simp [Simple.equals]
  | .pseudo _ _ _ => by simp [Simple.equals]
  | .selectorPseudo _ argument => by simp [Simple.equals, Selector.equals_refl argument]

theorem Simple.equals_refl_of_mem : ∀ items : List Simple, ∀ a ∈ items, Simple.equals a a = true
  | [], _, member => by simp at member
  | first :: rest, a, member => by
    rcases List.mem_cons.mp member with same | later
    · rw [same]
      exact Simple.equals_refl first
    · exact Simple.equals_refl_of_mem rest a later

theorem Compound.equals_refl : ∀ c : Compound, Compound.equals c c = true
  | .mk none rest =>
    (Compound.equals_none_iff rest rest).mpr (.refl (Simple.equals_refl_of_mem rest))
  | .mk (some base) rest =>
    (Compound.equals_some_iff base base rest rest).mpr
      ⟨Simple.equals_refl base, .refl (Simple.equals_refl_of_mem rest)⟩

theorem Component.equals_refl : ∀ c : Component, Component.equals c c = true
  | .compound c => by simp [Component.equals, Compound.equals_refl c]
  | .combinator _ => by simp [Component.equals]

theorem Chain.equals_refl : ∀ chain : List Component, Chain.equals chain chain = true
  | [] => by simp [Chain.equals]
  | c :: rest => by simp [Chain.equals, Component.equals_refl c, Chain.equals_refl rest]

theorem Selector.equals_refl : ∀ s : List (List Component), Selector.equals s s = true
  | [] => by simp [Selector.equals]
  | chain :: rest => by simp [Selector.equals, Chain.equals_refl chain, Selector.equals_refl rest]

end

/-- Only the arguments of pseudo-classes make selectors equal that are not the same. -/
theorem Simple.eq_of_equals {a b : Simple}
    (plain : ∀ name argument, a ≠ .selectorPseudo name argument)
    (same : Simple.equals a b = true) : a = b := by
  cases a with
  | selectorPseudo name argument => exact absurd rfl (plain name argument)
  | _ => cases b <;> simp_all [Simple.equals]

mutual

theorem Simple.equals_symm : ∀ a b : Simple, Simple.equals a b = true → Simple.equals b a = true
  | .className _, _, same => by cases Simple.eq_of_equals (by simp) same; exact same
  | .id _, _, same => by cases Simple.eq_of_equals (by simp) same; exact same
  | .element _ _, _, same => by cases Simple.eq_of_equals (by simp) same; exact same
  | .universal _, _, same => by cases Simple.eq_of_equals (by simp) same; exact same
  | .parent, _, same => by cases Simple.eq_of_equals (by simp) same; exact same
  | .attribute _ _ _ _, _, same => by cases Simple.eq_of_equals (by simp) same; exact same
  | .pseudo _ _ _, _, same => by cases Simple.eq_of_equals (by simp) same; exact same
  | .selectorPseudo _ argument, b, same => by
    cases b with
    | selectorPseudo _ other =>
      simp only [Simple.equals, Bool.and_eq_true, beq_iff_eq] at same ⊢
      exact ⟨same.1.symm, Selector.equals_symm argument other same.2⟩
    | _ => simp [Simple.equals] at same
termination_by structural a => a

theorem Simple.equals_symm_of_mem : ∀ items : List Simple, ∀ a ∈ items, ∀ b,
    Simple.equals a b = true → Simple.equals b a = true
  | [], _, member, _, _ => by simp at member
  | first :: rest, a, member, b, same => by
    rcases List.mem_cons.mp member with head | later
    · rw [head] at same ⊢
      exact Simple.equals_symm first b same
    · exact Simple.equals_symm_of_mem rest a later b same
termination_by structural a => a

theorem Compound.equals_symm : ∀ c d : Compound,
    Compound.equals c d = true → Compound.equals d c = true
  | .mk none rest, .mk none others, same => by
    rw [Compound.equals_none_iff] at same ⊢
    exact same.symm (Simple.equals_symm_of_mem rest)
  | .mk (some base) rest, .mk (some other) others, same => by
    rw [Compound.equals_some_iff] at same ⊢
    exact ⟨Simple.equals_symm base other same.1, same.2.symm (Simple.equals_symm_of_mem rest)⟩
  | .mk none _, .mk (some _) _, same => by simp [Compound.equals] at same
  | .mk (some _) _, .mk none _, same => by simp [Compound.equals] at same
termination_by structural a => a

theorem Component.equals_symm : ∀ c d : Component,
    Component.equals c d = true → Component.equals d c = true
  | .compound c, .compound d, same => by
    simp only [Component.equals] at same ⊢
    exact Compound.equals_symm c d same
  | .combinator c, .combinator d, same => by simp_all [Component.equals]
  | .compound _, .combinator _, same => by simp [Component.equals] at same
  | .combinator _, .compound _, same => by simp [Component.equals] at same
termination_by structural a => a

theorem Chain.equals_symm : ∀ chain other : List Component,
    Chain.equals chain other = true → Chain.equals other chain = true
  | [], [], _ => by simp [Chain.equals]
  | c :: rest, d :: others, same => by
    simp only [Chain.equals, Bool.and_eq_true] at same ⊢
    exact ⟨Component.equals_symm c d same.1, Chain.equals_symm rest others same.2⟩
  | [], _ :: _, same => by simp [Chain.equals] at same
  | _ :: _, [], same => by simp [Chain.equals] at same
termination_by structural a => a

theorem Selector.equals_symm : ∀ s t : List (List Component),
    Selector.equals s t = true → Selector.equals t s = true
  | [], [], _ => by simp [Selector.equals]
  | chain :: rest, other :: others, same => by
    simp only [Selector.equals, Bool.and_eq_true] at same ⊢
    exact ⟨Chain.equals_symm chain other same.1, Selector.equals_symm rest others same.2⟩
  | [], _ :: _, same => by simp [Selector.equals] at same
  | _ :: _, [], same => by simp [Selector.equals] at same
termination_by structural a => a

end

mutual

theorem Simple.equals_trans : ∀ a b c : Simple, Simple.equals a b = true →
    Simple.equals b c = true → Simple.equals a c = true
  | .className _, _, _, left, right => by cases Simple.eq_of_equals (by simp) left; exact right
  | .id _, _, _, left, right => by cases Simple.eq_of_equals (by simp) left; exact right
  | .element _ _, _, _, left, right => by cases Simple.eq_of_equals (by simp) left; exact right
  | .universal _, _, _, left, right => by cases Simple.eq_of_equals (by simp) left; exact right
  | .parent, _, _, left, right => by cases Simple.eq_of_equals (by simp) left; exact right
  | .attribute _ _ _ _, _, _, left, right => by
    cases Simple.eq_of_equals (by simp) left
    exact right
  | .pseudo _ _ _, _, _, left, right => by cases Simple.eq_of_equals (by simp) left; exact right
  | .selectorPseudo _ argument, b, c, left, right => by
    cases b with
    | selectorPseudo _ middle =>
      cases c with
      | selectorPseudo _ other =>
        simp only [Simple.equals, Bool.and_eq_true, beq_iff_eq] at left right ⊢
        exact ⟨left.1.trans right.1, Selector.equals_trans argument middle other left.2 right.2⟩
      | _ => simp [Simple.equals] at right
    | _ => simp [Simple.equals] at left
termination_by structural a => a

theorem Simple.equals_trans_of_mem : ∀ items : List Simple, ∀ a ∈ items, ∀ b c,
    Simple.equals a b = true → Simple.equals b c = true → Simple.equals a c = true
  | [], _, member, _, _, _, _ => by simp at member
  | head :: rest, a, member, b, c, left, right => by
    rcases List.mem_cons.mp member with same | later
    · rw [same] at left ⊢
      exact Simple.equals_trans head b c left right
    · exact Simple.equals_trans_of_mem rest a later b c left right
termination_by structural a => a

theorem Compound.equals_trans : ∀ c d e : Compound, Compound.equals c d = true →
    Compound.equals d e = true → Compound.equals c e = true
  | .mk none r, .mk none s, .mk none t, left, right => by
    rw [Compound.equals_none_iff] at left right ⊢
    exact left.trans (Simple.equals_trans_of_mem r) right
  | .mk (some a) r, .mk (some b) s, .mk (some c) t, left, right => by
    rw [Compound.equals_some_iff] at left right ⊢
    exact ⟨Simple.equals_trans a b c left.1 right.1, left.2.trans (Simple.equals_trans_of_mem r) right.2⟩
  | .mk none _, .mk (some _) _, _, left, _ => by simp [Compound.equals] at left
  | .mk (some _) _, .mk none _, _, left, _ => by simp [Compound.equals] at left
  | _, .mk none _, .mk (some _) _, _, right => by simp [Compound.equals] at right
  | _, .mk (some _) _, .mk none _, _, right => by simp [Compound.equals] at right
termination_by structural a => a

theorem Component.equals_trans : ∀ c d e : Component, Component.equals c d = true →
    Component.equals d e = true → Component.equals c e = true
  | .compound c, .compound d, .compound e, left, right => by
    simp only [Component.equals] at left right ⊢
    exact Compound.equals_trans c d e left right
  | .combinator _, d, e, left, right => by cases d <;> cases e <;> simp_all [Component.equals]
  | .compound _, .combinator _, _, left, _ => by simp [Component.equals] at left
  | .compound _, .compound _, .combinator _, _, right => by simp [Component.equals] at right
termination_by structural a => a

theorem Chain.equals_trans : ∀ chain middle last : List Component,
    Chain.equals chain middle = true → Chain.equals middle last = true →
      Chain.equals chain last = true
  | [], [], [], _, _ => by simp [Chain.equals]
  | c :: rest, d :: middle, e :: others, same, same' => by
    simp only [Chain.equals, Bool.and_eq_true] at same same' ⊢
    exact ⟨Component.equals_trans c d e same.1 same'.1,
      Chain.equals_trans rest middle others same.2 same'.2⟩
  | [], _ :: _, _, same, _ => by simp [Chain.equals] at same
  | _ :: _, [], _, same, _ => by simp [Chain.equals] at same
  | _, [], _ :: _, _, same' => by simp [Chain.equals] at same'
  | _, _ :: _, [], _, same' => by simp [Chain.equals] at same'
termination_by structural a => a

theorem Selector.equals_trans : ∀ s t u : List (List Component), Selector.equals s t = true →
    Selector.equals t u = true → Selector.equals s u = true
  | [], [], [], _, _ => by simp [Selector.equals]
  | chain :: rest, middle :: middles, other :: others, same, same' => by
    simp only [Selector.equals, Bool.and_eq_true] at same same' ⊢
    exact ⟨Chain.equals_trans chain middle other same.1 same'.1,
      Selector.equals_trans rest middles others same.2 same'.2⟩
  | [], _ :: _, _, same, _ => by simp [Selector.equals] at same
  | _ :: _, [], _, same, _ => by simp [Selector.equals] at same
  | _, [], _ :: _, _, same' => by simp [Selector.equals] at same'
  | _, _ :: _, [], _, same' => by simp [Selector.equals] at same'
termination_by structural a => a

end

instance : EquivBEq Simple where
  rfl := Simple.equals_refl _
  symm := Simple.equals_symm _ _
  trans := Simple.equals_trans _ _ _

instance : EquivBEq Compound where
  rfl := Compound.equals_refl _
  symm := Compound.equals_symm _ _
  trans := Compound.equals_trans _ _ _

instance : EquivBEq Component where
  rfl := Component.equals_refl _
  symm := Component.equals_symm _ _
  trans := Component.equals_trans _ _ _

theorem beq_iff_forall₂ [BEq α] (items others : List α) :
    (items == others) = true ↔ List.Forall₂ (fun a b => (a == b) = true) items others := by
  induction items generalizing others with
  | nil => cases others <;> simp
  | cons a rest ih => cases others <;> simp [ih]

/-- Keep the first of equal items, behind those that are kept already. -/
def keepNew [BEq α] (kept items : List α) : List α :=
  items.foldl (fun kept item => if kept.contains item then kept else kept ++ [item]) kept

section Distinct

variable [BEq α]

theorem keepNew_cons (kept : List α) (item : α) (rest : List α) :
    keepNew kept (item :: rest) =
      if kept.contains item then keepNew kept rest else keepNew (kept ++ [item]) rest := by
  rw [keepNew, List.foldl_cons]
  split <;> rfl

theorem exists_keepNew (kept items : List α) :
    ∃ added, keepNew kept items = kept ++ added ∧ added.Sublist items := by
  induction items generalizing kept with
  | nil => exact ⟨[], by simp [keepNew], .slnil⟩
  | cons item rest ih =>
    rw [keepNew_cons]
    split
    · obtain ⟨added, same, sub⟩ := ih kept
      exact ⟨added, same, sub.cons item⟩
    · obtain ⟨added, same, sub⟩ := ih (kept ++ [item])
      exact ⟨item :: added, by simpa using same, sub.cons_cons item⟩

theorem mem_of_mem_distinct {x : α} {items : List α} (member : x ∈ distinct items) : x ∈ items := by
  obtain ⟨added, same, sub⟩ := exists_keepNew [] items
  have kept : x ∈ [] ++ added := same ▸ (member : x ∈ keepNew [] items)
  exact sub.subset kept

/-- Nothing is lost when repetitions go: an equal item stays. -/
theorem exists_mem_distinct [ReflBEq α] {x : α} {items : List α} (member : x ∈ items) :
    ∃ y ∈ distinct items, (x == y) = true := by
  suffices general : ∀ kept : List α, ∃ y ∈ keepNew kept items, (x == y) = true from general []
  induction items with
  | nil => simp at member
  | cons item rest ih =>
    intro kept
    rcases List.mem_cons.mp member with same | later
    · subst same
      rw [keepNew_cons]
      split
      · rename_i present
        obtain ⟨y, found, equal⟩ := List.contains_iff_exists_mem_beq.mp present
        obtain ⟨added, same, _⟩ := exists_keepNew kept rest
        exact ⟨y, by rw [same]; exact List.mem_append_left _ found, equal⟩
      · obtain ⟨added, same, _⟩ := exists_keepNew (kept ++ [x]) rest
        exact ⟨x, by simp [same], beq_self_eq_true x⟩
    · rw [keepNew_cons]
      split
      · exact ih later kept
      · exact ih later (kept ++ [item])

@[simp] theorem distinct_singleton (x : α) : distinct [x] = [x] := by
  simp [distinct]

variable [EquivBEq α]

theorem pairwise_keepNew {kept : List α} (different : kept.Pairwise fun a b => (a == b) = false)
    (items : List α) : (keepNew kept items).Pairwise fun a b => (a == b) = false := by
  induction items generalizing kept with
  | nil => exact different
  | cons item rest ih =>
    rw [keepNew_cons]
    split
    · exact ih different
    · rename_i new
      apply ih
      rw [List.pairwise_append]
      refine ⟨different, List.pairwise_singleton .., ?_⟩
      intro a member b single
      rw [List.mem_singleton.mp single, BEq.comm]
      rw [List.contains_eq_any_beq, Bool.not_eq_true, List.any_eq_false] at new
      simpa using new a member

/-- Nothing is left out where all items are different. -/
theorem keepNew_of_pairwise {kept items : List α}
    (different : (kept ++ items).Pairwise fun a b => (a == b) = false) :
    keepNew kept items = kept ++ items := by
  induction items generalizing kept with
  | nil => simp [keepNew]
  | cons item rest ih =>
    have new : kept.contains item = false := by
      rw [List.contains_eq_any_beq, List.any_eq_false]
      intro a member
      have unequal := (List.pairwise_append.mp different).2.2 a member item (List.mem_cons_self ..)
      rw [BEq.comm, unequal]
      exact Bool.false_ne_true
    rw [keepNew_cons, new, if_neg Bool.false_ne_true, ih (by simpa using different)]
    simp

end Distinct

section Same

mutual

/-- The same condition, with the same in its argument in the same order. -/
def Simple.isSame : Simple → Simple → Bool
  | .className a, .className b => a == b
  | .id a, .id b => a == b
  | .element a m, .element b n => a == b && m == n
  | .universal m, .universal n => m == n
  | .parent, .parent => true
  | .attribute a m o v, .attribute b n p w => a == b && m == n && o == p && v == w
  | .pseudo k a x, .pseudo l b y => k == l && a == b && x == y
  | .selectorPseudo a s, .selectorPseudo b t => a == b && Selector.isSame s t
  | _, _ => false
termination_by structural x => x

def Simple.isSameBase : Option Simple → Option Simple → Bool
  | none, none => true
  | some a, some b => Simple.isSame a b
  | _, _ => false
termination_by structural x => x

def Simple.areSame : List Simple → List Simple → Bool
  | [], [] => true
  | a :: r, b :: s => Simple.isSame a b && Simple.areSame r s
  | _, _ => false
termination_by structural x => x

def Compound.isSame : Compound → Compound → Bool
  | .mk a r, .mk b s => Simple.isSameBase a b && Simple.areSame r s
termination_by structural x => x

def Component.isSame : Component → Component → Bool
  | .compound a, .compound b => Compound.isSame a b
  | .combinator a, .combinator b => a == b
  | _, _ => false
termination_by structural x => x

def Chain.isSame : List Component → List Component → Bool
  | [], [] => true
  | a :: r, b :: s => Component.isSame a b && Chain.isSame r s
  | _, _ => false
termination_by structural x => x

def Selector.isSame : List (List Component) → List (List Component) → Bool
  | [], [] => true
  | a :: r, b :: s => Chain.isSame a b && Selector.isSame r s
  | _, _ => false
termination_by structural x => x

end

mutual

theorem Simple.eq_of_isSame : (a b : Simple) → Simple.isSame a b = true → a = b
  | .selectorPseudo name s, b, same => by
    cases b with
    | selectorPseudo other t =>
      obtain ⟨sameName, sameArgument⟩ := Bool.and_eq_true_iff.mp same
      rw [eq_of_beq sameName, Selector.eq_of_isSame s t sameArgument]
    | _ => cases same
  | .className _, b, same | .id _, b, same | .element _ _, b, same | .universal _, b, same
  | .parent, b, same | .attribute _ _ _ _, b, same | .pseudo _ _ _, b, same => by
    cases b <;> simp_all [Simple.isSame]

theorem Simple.eq_of_isSameBase : (a b : Option Simple) → Simple.isSameBase a b = true → a = b
  | none, none, _ => rfl
  | some a, some b, same => congrArg some (Simple.eq_of_isSame a b same)

theorem Simple.eq_of_areSame : (r s : List Simple) → Simple.areSame r s = true → r = s
  | [], [], _ => rfl
  | a :: r, b :: s, same => by
    obtain ⟨first, others⟩ := Bool.and_eq_true_iff.mp same
    rw [Simple.eq_of_isSame a b first, Simple.eq_of_areSame r s others]

theorem Compound.eq_of_isSame : (c d : Compound) → Compound.isSame c d = true → c = d
  | .mk a r, .mk b s, same => by
    obtain ⟨base, others⟩ := Bool.and_eq_true_iff.mp same
    rw [Simple.eq_of_isSameBase a b base, Simple.eq_of_areSame r s others]

theorem Component.eq_of_isSame : (a b : Component) → Component.isSame a b = true → a = b
  | .compound c, .compound d, same => congrArg _ (Compound.eq_of_isSame c d same)
  | .combinator a, .combinator b, same => congrArg _ (eq_of_beq same)

theorem Chain.eq_of_isSame : (r s : List Component) → Chain.isSame r s = true → r = s
  | [], [], _ => rfl
  | a :: r, b :: s, same => by
    obtain ⟨first, others⟩ := Bool.and_eq_true_iff.mp same
    rw [Component.eq_of_isSame a b first, Chain.eq_of_isSame r s others]

theorem Selector.eq_of_isSame : (r s : List (List Component)) → Selector.isSame r s = true → r = s
  | [], [], _ => rfl
  | a :: r, b :: s, same => by
    obtain ⟨first, others⟩ := Bool.and_eq_true_iff.mp same
    rw [Chain.eq_of_isSame a b first, Selector.eq_of_isSame r s others]

end

end Same

end Stylesheet
