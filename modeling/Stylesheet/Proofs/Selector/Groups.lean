import Stylesheet.Proofs.Selector.Weaving

/-! What the comparison of two groups says about the elements below them. The comparison walks along
both groups and asks for the head of the first on the head of the second, but it goes on over the
second until the last compound of the first is found, whatever joints stand in between. It is right
where these joints leave the last one of the first group in place. -/

namespace Stylesheet

namespace ElementTree

/-- An ancestor of the element matches the chain. -/
def HasAbove (tree : ElementTree) (chain : Chain) (e : tree.Element) : Prop :=
  ∃ a, tree.Ancestor a e ∧ tree.Matches chain a

/-- To stand behind a chain that ends in a compound is to have an ancestor that matches it. -/
theorem behind_iff_hasAbove {chain : Chain} (ends : chain.EndsInCompound) (tree : ElementTree)
    (e : tree.Element) : tree.Behind (fun _ => True) chain e ↔ tree.HasAbove chain e := by
  obtain ⟨before, c, rfl⟩ := ends
  rw [behind_append _ before [.compound c] rfl]
  exact exists_congr fun a => and_congr_right fun _ => (tree.matches_append_iff before c a).symm

end ElementTree

namespace Weave

/-- Every element that has an ancestor matching the second group has one matching the first. -/
def Covers (g h : Group) : Prop :=
  ∀ (tree : ElementTree) (e : tree.Element), tree.HasAbove h e → tree.HasAbove g e

/-- Compounds with one combinator between each two. -/
def alternates : Group → Bool
  | [.compound _] => true
  | .compound _ :: .combinator _ :: rest => alternates rest
  | _ => false

attribute [local simp] groupSuperselector alternates

theorem endsInCompound_of_alternates {g : Group} (alternate : alternates g = true) :
    Chain.EndsInCompound g := by
  fun_induction alternates g with
  | case1 c => exact ⟨[], c, rfl⟩
  | case2 c k rest ih =>
    obtain ⟨before, d, rfl⟩ := ih alternate
    exact ⟨.compound c :: .combinator k :: before, d, rfl⟩
  | case3 => simp at alternate

/-- A group covers another exactly if it is implied in front of every compound. -/
theorem covers_iff_implies {g h : Group} (ends : Chain.EndsInCompound g)
    (ends' : Chain.EndsInCompound h) : Covers g h ↔ Chain.Implies h g := by
  constructor
  · intro covers tree last e
    rw [tree.matches_append_iff, tree.matches_append_iff, tree.behind_iff_hasAbove ends,
      tree.behind_iff_hasAbove ends']
    exact And.imp_right (covers tree e)
  · intro implies tree e above
    have everywhere : tree.Meets Compound.empty e := by
      intro s member
      simp [Compound.empty, Compound.members, Compound.base, Compound.rest] at member
    have behind := (tree.behind_iff_hasAbove ends' e).mpr above
    have found := implies tree _ e ((tree.matches_append_iff h _ e).mpr ⟨everywhere, behind⟩)
    exact (tree.behind_iff_hasAbove ends e).mp ((tree.matches_append_iff g _ e).mp found).2

theorem covers_iff_occursIn {g h : Group} (alternate : alternates g = true)
    (alternate' : alternates h = true) (proper : Chain.isProper g = true)
    (proper' : Chain.isProper h = true) : Covers g h ↔ Chain.occursIn g h = true := by
  rw [covers_iff_implies (endsInCompound_of_alternates alternate)
    (endsInCompound_of_alternates alternate')]
  exact Chain.implies_iff_occursIn proper' proper

/-- How far behind its place what follows a combinator may stand. -/
def slackOf : Combinator → Slack
  | .child => .amongSiblings
  | .nextSibling => .here
  | .followingSibling => .amongSiblings

/-- How far behind its place the last compound of a group may stand, if the first may stand that
far. -/
def lastSlack : Slack → Group → Slack
  | _, .compound _ :: .combinator k :: rest => lastSlack (slackOf k) rest
  | slack, _ => slack

/-- The combinators of the second group that stand behind as many components as the first has. -/
def passedOver (g h : Group) : List Combinator :=
  (h.drop g.length).filterMap Component.combinator?

/-- A combinator that the comparison takes for another begins its step. -/
theorem slackBehind_of_compatible {j k : Combinator}
    (compatible : (if j = .followingSibling then k ≠ .child else j = k)) :
    slackBehind (some j) (some k) = some (slackOf j) := by
  cases j <;> cases k <;> simp at compatible <;> rfl

/-- What the comparison of two longer groups asks for. -/
theorem groupSuperselector_cons_cons {a b : Compound} {j k : Combinator} {others rest : Group}
    (alternate : alternates others = true)
    (accepted : groupSuperselector (.compound a :: .combinator j :: others)
      (.compound b :: .combinator k :: rest) = true) :
    (if j = .followingSibling then k ≠ .child else j = k) ∧ a.isSuperselector b = true ∧
      groupSuperselector others rest = true := by
  have some : others.isEmpty = false := by
    cases others with
    | nil => cases alternate
    | cons => rfl
  simp only [groupSuperselector, Component.combinator?, some, Bool.false_or, Bool.and_eq_true]
    at accepted
  obtain ⟨⟨compatible, wider⟩, _, later⟩ := accepted
  refine ⟨?_, wider, later⟩
  simpa [apply_ite (· = true)] using compatible

theorem mem_passedOver_single {a : Component} {h : Group} {k : Combinator}
    (alternate : alternates h = true) (member : k ∈ h.filterMap Component.combinator?) :
    k ∈ passedOver [a] h := by
  fun_cases alternates h with
  | case1 c => exact member
  | case2 c k rest => exact member
  | case3 _ single longer =>
    rw [alternates.eq_3 _ single longer] at alternate
    cases alternate

section Sound

variable {tree : ElementTree} {p q : tree.Element → Prop}

/-- A compound is found along a group; where it does not stand at a place, that is passed over. -/
theorem behind_of_single {a : Compound} {h : Group} (alternate : alternates h = true)
    (accepted : groupSuperselector [.compound a] h = true) (weaker : ∀ e, p e → q e)
    (passes : ∀ k ∈ h.filterMap Component.combinator?, ∀ x e, tree.Related k x e → q x → q e)
    (e : tree.Element) (behind : tree.Behind p h e) : tree.Behind q [.compound a] e := by
  fun_induction alternates h generalizing p with
  | case1 b =>
    obtain ⟨x, ancestor, meets, holds⟩ := behind
    exact ⟨x, ancestor, ElementTree.meets_of_isSuperselector accepted meets, weaker x holds⟩
  | case2 b k rest ih =>
    rw [ElementTree.Behind] at behind
    simp only [groupSuperselector, Component.combinator?, Bool.or_eq_true, Bool.and_eq_true,
      beq_iff_eq, Option.some.injEq] at accepted
    rcases accepted with ⟨rfl, wider⟩ | ⟨_, later⟩
    · -- The parent is an ancestor of all that comes behind it.
      refine (tree.inherited_exists_ancestor _).of_behind ?_ rest e behind
      rintro x ⟨y, above, meets, holds⟩
      exact ⟨y, .parent above, ElementTree.meets_of_isSuperselector wider meets, weaker y holds⟩
    · refine ih alternate later ?_ (fun k' member => passes k' ?_) behind
      · rintro x ⟨y, related, _, holds⟩
        exact passes k (by simp [Component.combinator?]) y x related (weaker y holds)
      · exact List.mem_cons_of_mem k member
  | case3 => simp at alternate

/-- The second group leads to places behind the first, from all that the first may start at on. -/
theorem behind_of_groupSuperselector {g h : Group} (alternate : alternates g = true)
    (alternate' : alternates h = true) (accepted : groupSuperselector g h = true) {slack : Slack}
    (near : ∀ k ∈ passedOver g h, (lastSlack slack g).admits (some k) = true)
    (weaker : ∀ e, p e → q e) (passes : tree.PassesOver slack q) (e : tree.Element)
    (behind : tree.Behind p h e) : tree.Behind q g e := by
  fun_induction alternates g generalizing h p q slack with
  | case1 a =>
    refine behind_of_single alternate' accepted weaker (fun k member => ?_) e behind
    exact passes (some k) (near k (mem_passedOver_single alternate' member))
  | case2 a j others ih =>
    fun_cases alternates h with
    | case1 b => simp at accepted
    | case2 b k rest =>
      obtain ⟨compatible, wider, later⟩ := groupSuperselector_cons_cons alternate accepted
      obtain ⟨same, goesOn⟩ := step_of_slackBehind (slackBehind_of_compatible compatible)
        fun a' : tree.Element => tree.Meets a a' ∧ q a'
      have alternate' : alternates rest = true := alternate'
      rw [ElementTree.Behind] at behind ⊢
      refine ih alternate alternate' later near ?_ goesOn behind
      rintro x ⟨y, related, meets, holds⟩
      exact ⟨y, same y x related, ElementTree.meets_of_isSuperselector wider meets, weaker y holds⟩
    | case3 _ single longer =>
      rw [alternates.eq_3 _ single longer] at alternate'
      cases alternate'
  | case3 => simp at alternate

end Sound

/-- What is passed over leaves the last compound of the first group in place. -/
def StaysInPlace (g h : Group) : Prop :=
  ∀ k ∈ passedOver g h, (lastSlack .anywhere g).admits (some k) = true

theorem staysInPlace_of_length {g h : Group} (alternate : alternates g = true)
    (lengths : g.length = 1 ∨ g.length = h.length) : StaysInPlace g h := by
  intro k member
  rcases lengths with single | same
  · fun_induction alternates g with
    | case1 => rfl
    | case2 => simp at single
    | case3 => cases alternate
  · simp [passedOver, same] at member

/-- An accepted group covers the other if its last compound stays in place, as it does if it is the
only one or both groups have the same length. If the compounds ask for something, it covers the
other exactly if it occurs in it. -/
theorem groupSuperselector_covers_iff {g h : Group} (alternate : alternates g = true)
    (alternate' : alternates h = true) (accepted : groupSuperselector g h = true) :
    (g.length = 1 ∨ g.length = h.length ∨ StaysInPlace g h → Covers g h) ∧
      (Chain.isProper g = true → Chain.isProper h = true →
        (Covers g h ↔ Chain.occursIn g h = true)) := by
  refine ⟨fun place => ?_, covers_iff_occursIn alternate alternate'⟩
  have near : StaysInPlace g h := by
    rcases or_assoc.mpr place with lengths | near
    · exact staysInPlace_of_length alternate lengths
    · exact near
  intro tree e above
  have behind := (tree.behind_iff_hasAbove (endsInCompound_of_alternates alternate') e).mpr above
  exact (tree.behind_iff_hasAbove (endsInCompound_of_alternates alternate) e).mp <|
    behind_of_groupSuperselector alternate alternate' accepted near (fun _ holds => holds)
      (passesOver_anywhere tree.inherited_true) e behind

theorem groupSuperselector_covers_iff_of_siblings :
    let g : Group := [ofClass "a", .combinator .followingSibling, ofClass "c"]
    let h : Group := [ofClass "a", .combinator .nextSibling, ofClass "b",
      .combinator .followingSibling, ofClass "c"]
    groupSuperselector g h = true ∧ Covers g h ∧ Chain.occursIn g h = true := by
  intro g h
  have accepted : groupSuperselector g h = true := by with_unfolding_all rfl
  have sound := groupSuperselector_covers_iff (g := g) (h := h) rfl rfl accepted
  have covers : Covers g h := by
    refine sound.1 (.inr (.inr fun k member => ?_))
    rw [List.mem_singleton.mp member]
    rfl
  exact ⟨accepted, covers, (sound.2 rfl rfl).mp covers⟩

/-- A child of a child is accepted for a child. -/
theorem accepted_not_covers :
    let g : Group := [ofClass "a", .combinator .child, ofClass "c"]
    let h : Group := [ofClass "a", .combinator .child, ofClass "b", .combinator .child, ofClass "c"]
    alternates g = true ∧ alternates h = true ∧ groupSuperselector g h = true ∧ ¬ Covers g h := by
  intro g h
  refine ⟨rfl, rfl, by with_unfolding_all rfl, ?_⟩
  rw [covers_iff_occursIn (g := g) (h := h) rfl rfl rfl rfl]
  decide +kernel

end Weave

end Stylesheet
