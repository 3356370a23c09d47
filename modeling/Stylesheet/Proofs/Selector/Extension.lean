import Stylesheet.Proofs.Selector.Choices
import Stylesheet.Proofs.Selector.Equality
import Stylesheet.Selector.Extend

/-! Extension keeps what it extends. Whatever the extensions are, every chain of a selector is
still covered, component by component, by a chain of the extended selector; and a chain that holds
no target stays as it is. -/

namespace Stylesheet

theorem Compound.isSuperselector_iff (c other : Compound) :
    c.isSuperselector other = true ↔
      (c.base = none ∨ (c.base == other.base) = true) ∧
        ∀ a ∈ c.rest, ∃ b ∈ other.rest, Simple.equals a b = true := by
  simp [Compound.isSuperselector, Simple.allIn_iff]

theorem Compound.beq_iff (c d : Compound) :
    (c == d) = true ↔ (c.base == d.base) = true ∧ Simple.SameSet c.rest d.rest := by
  change Compound.equals c d = true ↔ _
  cases c with
  | mk base rest =>
    cases d with
    | mk other others =>
      cases base with
      | none =>
        cases other with
        | none => simp [Compound.equals_none_iff, Compound.base, Compound.rest]
        | some b => simp [Compound.equals, Compound.base]
      | some a =>
        cases other with
        | none => simp [Compound.equals, Compound.base]
        | some b =>
          rw [Compound.equals_some_iff]
          exact Iff.rfl

theorem Compound.isSuperselector_refl (c : Compound) : c.isSuperselector c = true := by
  rw [Compound.isSuperselector_iff]
  exact ⟨Or.inr (beq_self_eq_true c.base), fun a member => ⟨a, member, Simple.equals_refl a⟩⟩

private theorem base_beq_trans {a b c : Option Simple} (left : (a == b) = true)
    (right : (b == c) = true) : (a == c) = true := by
  cases a <;> cases b <;> cases c <;> simp_all
  exact BEq.trans left right

/-- A compound equal to one that covers another covers it as well. -/
theorem Compound.isSuperselector_of_beq {c d e : Compound} (same : (c == d) = true)
    (wider : d.isSuperselector e = true) : c.isSuperselector e = true := by
  obtain ⟨bases, sets⟩ := (Compound.beq_iff c d).mp same
  rw [Compound.isSuperselector_iff] at wider ⊢
  constructor
  · rcases wider.1 with none | equal
    · left
      rw [none] at bases
      cases found : c.base with
      | none => rfl
      | some a => simp [found] at bases
    · exact Or.inr (base_beq_trans bases equal)
  · intro a member
    obtain ⟨b, found, first⟩ := sets.1 a member
    obtain ⟨x, found', second⟩ := wider.2 b found
    exact ⟨x, found', Simple.equals_trans a b x first second⟩

/-- A component that can stand for another: the same combinator, or a compound that is no more
special. -/
inductive Component.Covers : Component → Component → Prop where
  | combinator (c : Combinator) : Covers (.combinator c) (.combinator c)
  | compound (wider : c.isSuperselector d = true) : Covers (.compound c) (.compound d)

theorem Component.Covers.refl (c : Component) : Component.Covers c c := by
  cases c with
  | compound c => exact .compound c.isSuperselector_refl
  | combinator c => exact .combinator c

theorem Component.Covers.of_beq {c d e : Component} (covers : Component.Covers d e)
    (same : (d == c) = true) : Component.Covers c e := by
  change Component.equals d c = true at same
  cases covers with
  | combinator k =>
    cases c with
    | compound c => simp [Component.equals] at same
    | combinator c =>
      simp only [Component.equals, beq_iff_eq] at same
      subst same
      exact .combinator k
  | compound wider =>
    cases c with
    | compound c =>
      simp only [Component.equals] at same
      exact .compound (Compound.isSuperselector_of_beq (BEq.symm same) wider)
    | combinator c => simp [Component.equals] at same

/-- A chain that can stand for another, component by component. -/
def Chain.Covers (chain other : Chain) : Prop :=
  List.Forall₂ Component.Covers chain other

theorem Chain.Covers.of_beq {chain middle other : Chain} (covers : Chain.Covers middle other)
    (same : (middle == chain) = true) : Chain.Covers chain other := by
  have componentwise := (beq_iff_forall₂ middle chain).mp same
  clear same
  unfold Chain.Covers at covers ⊢
  induction covers generalizing chain with
  | nil =>
    cases componentwise
    exact .nil
  | cons head tail ih =>
    cases componentwise with
    | cons first rest => exact .cons (head.of_beq first) (ih rest)

namespace Weave

theorem subweave_nil (chain : Chain) : subweave chain [] = [chain] := by
  cases chain <;> simp [subweave]

private theorem weave_singletons_from (before chain : Chain) :
    (chain.map fun component => [component]).foldl
        (fun befores current =>
          match current.getLast? with
          | none => befores
          | some last =>
            befores.flatMap fun before =>
              (subweave before current.dropLast).map fun woven => woven ++ [last])
        [before] = [before ++ chain] := by
  induction chain generalizing before with
  | nil => simp
  | cons component rest ih => simpa [subweave_nil] using ih (before ++ [component])

/-- Components without ancestors of their own stay in line. -/
theorem weave_singletons (chain : Chain) :
    weave (chain.map fun component => [component]) = [chain] :=
  weave_singletons_from [] chain

end Weave

namespace Extend

theorem mem_options {f : Compound → List Chain} {c : Compound} {chain : Chain}
    (member : chain ∈ options f (.compound c)) : chain = [.compound c] ∨ chain ∈ f c := by
  unfold options at member
  simp only at member
  split at member
  · exact Or.inr member
  · exact List.mem_cons.mp member

theorem mem_options_of_mem {f : Compound → List Chain} {c : Compound} {chain : Chain}
    (member : chain ∈ f c) : chain ∈ options f (.compound c) := by
  unfold options
  simp only
  split
  · exact member
  · exact List.mem_cons_of_mem _ member

/-- Each component has an option that consists of one component and covers it. -/
theorem exists_covering_option (extendCompound : Compound → List Chain) (component : Component) :
    ∃ own, [own] ∈ options extendCompound component ∧ Component.Covers own component := by
  cases component with
  | combinator c => exact ⟨.combinator c, by simp [options], .combinator c⟩
  | compound c =>
    unfold options
    by_cases covered : (extendCompound c).any fun chain => Chain.isSuperselector chain c
    · -- The original is left out, but only for a single compound that covers it.
      simp only [covered, if_true]
      obtain ⟨chain, member, wider⟩ := List.any_eq_true.mp covered
      unfold Chain.isSuperselector at wider
      split at wider
      · exact ⟨_, member, .compound wider⟩
      · simp at wider
    · exact ⟨.compound c, by simp [covered], .refl _⟩

private theorem exists_covering_choice (extendCompound : Compound → List Chain) (chain : Chain) :
    ∃ kept, Chain.Covers kept chain ∧
      List.Forall₂ (· ∈ ·) (kept.map fun own => [own]) (chain.map (options extendCompound)) := by
  induction chain with
  | nil => exact ⟨[], .nil, .nil⟩
  | cons component rest ih =>
    obtain ⟨kept, covers, chosen⟩ := ih
    obtain ⟨own, offered, wider⟩ := exists_covering_option extendCompound component
    exact ⟨own :: kept, .cons wider covers, .cons offered chosen⟩

/-- However compounds are extended, one of the resulting chains covers the original. -/
theorem exists_covering_chain (extendCompound : Compound → List Chain) (chain : Chain) :
    ∃ kept ∈ chainWith extendCompound chain, Chain.Covers kept chain := by
  obtain ⟨kept, covers, chosen⟩ := exists_covering_choice extendCompound chain
  have woven : kept ∈ (choices (chain.map (options extendCompound))).flatMap Weave.weave := by
    apply List.mem_flatMap.mpr
    exact ⟨_, mem_choices.mpr chosen, by simp [Weave.weave_singletons]⟩
  obtain ⟨result, member, same⟩ := exists_mem_distinct woven
  exact ⟨result, member, covers.of_beq same⟩

theorem chainWith_of_no_extension (extendCompound : Compound → List Chain) (chain : Chain)
    (none : ∀ c, .compound c ∈ chain → extendCompound c = []) :
    chainWith extendCompound chain = [chain] := by
  have only : chain.map (options extendCompound) =
      (chain.map fun component => [component]).map fun own => [own] := by
    rw [List.map_map]
    apply List.map_congr_left
    intro component member
    cases component with
    | combinator c => rfl
    | compound c => simp [options, none c member]
  rw [chainWith, only, choices_singletons]
  simp [Weave.weave_singletons]

end Extend

/-- Whether a compound holds the target of some extension. -/
def ExtendMap.HasTarget (map : ExtendMap) (c : Compound) : Prop :=
  ∃ entry ∈ map.entries, SubsetMap.isPartOf entry.key c.members = true

theorem SubsetMap.isPartOf_of_mem_get [BEq κ] {map : SubsetMap κ ν} {query : List κ}
    {entry : SubsetMap.Entry κ ν} (found : entry ∈ map.get query) :
    entry ∈ map.entries ∧ SubsetMap.isPartOf entry.key query = true := by
  unfold SubsetMap.get at found
  obtain ⟨index, listed, here⟩ := List.mem_filterMap.mp found
  have candidate := mem_of_mem_distinct listed
  rw [List.mem_mergeSort] at candidate
  obtain ⟨other, _, checked⟩ := List.mem_filterMap.mp candidate
  split at checked
  · split at checked
    · rename_i _ stored there part
      cases checked
      have same := Option.some.inj (there.symm.trans here)
      subst same
      exact ⟨Array.mem_of_getElem? here, part⟩
    · simp at checked
  · simp at checked

theorem Extend.compound_of_no_target {map : ExtendMap} {c : Compound}
    (none : ¬ map.HasTarget c) (unused : List Nat) : Extend.compound map unused c = [] := by
  have missed : map.get c.members = [] := by
    apply List.eq_nil_iff_forall_not_mem.mpr
    intro entry found
    obtain ⟨stored, part⟩ := SubsetMap.isPartOf_of_mem_get found
    exact none ⟨entry, stored, part⟩
  rw [Extend.compound, missed]
  rfl

theorem Chain.exists_covering_extension (map : ExtendMap) (chain : Chain) :
    ∃ kept ∈ Chain.extend map chain, Chain.Covers kept chain :=
  Extend.exists_covering_chain _ chain

theorem Chain.extend_of_no_target {map : ExtendMap} {chain : Chain}
    (none : ∀ c, .compound c ∈ chain → ¬ map.HasTarget c) : Chain.extend map chain = [chain] :=
  Extend.chainWith_of_no_extension _ chain fun c member =>
    Extend.compound_of_no_target (none c member) map.keyIds

/-- No chain of a selector is lost by extension, whatever the extensions are, and a chain without
a target comes out as the only result. -/
theorem Selector.extend_keeps_chains (map : ExtendMap) (selector : Selector) :
    (∀ chain ∈ selector, ∃ kept ∈ selector.extend map, Chain.Covers kept chain) ∧
      ∀ chain : Chain, (∀ c, .compound c ∈ chain → ¬ map.HasTarget c) →
        Chain.extend map chain = [chain] := by
  constructor
  · intro chain member
    obtain ⟨kept, found, covers⟩ := Chain.exists_covering_extension map chain
    have listed : kept ∈ selector.flatMap (Chain.extend map) :=
      List.mem_flatMap.mpr ⟨chain, member, found⟩
    obtain ⟨result, present, same⟩ := exists_mem_distinct listed
    exact ⟨result, present, covers.of_beq same⟩
  · intro chain none
    exact Chain.extend_of_no_target none

/-- Two classes that extend each other, on a selector with one of them and on a chain with neither. -/
theorem Selector.extend_keeps_chains_of_cycle :
    let single (name : String) : Chain := [.compound (.mk none [.className name])]
    let map : ExtendMap := ((SubsetMap.empty.insert [.className "a"] (single "b")).1.insert
      [.className "b"] (single "a")).1
    (∃ kept ∈ Selector.extend map [single "a"], Chain.Covers kept (single "a")) ∧
      Chain.extend map (single "c") = [single "c"] := by
  intro single map
  refine ⟨(Selector.extend_keeps_chains map [single "a"]).1 _ (by simp),
    (Selector.extend_keeps_chains map [single "a"]).2 (single "c") ?_⟩
  intro c member ⟨entry, stored, part⟩
  have only : c = .mk none [.className "c"] := by simpa [single] using member
  have keys : ∀ entry ∈ map.entries,
      SubsetMap.isPartOf entry.key [Simple.className "c"] = false := by
    decide +kernel
  rw [only] at part
  exact absurd part (by simpa [Compound.members, Compound.base, Compound.rest] using keys entry stored)

end Stylesheet
