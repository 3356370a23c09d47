import Stylesheet.Proofs.Selector.Reading
import Stylesheet.Proofs.Selector.Recursion

/-! Extension applied to its own results, for compounds of classes. Extensions lead from one set of
classes to another, each replacing its target; the extended selector covers exactly what such ways
lead to on which no target is used twice. So it is closed under an extension unless the target was
used before and another one was split since. -/

namespace Stylesheet

/-- A compound of classes. -/
def Compound.ofClasses (names : List String) : Compound :=
  .mk none (names.map .className)

namespace Extend

/-- An extension between sets of classes. -/
structure Rule where
  target : List String
  extender : List String

namespace Rule

/-- The classes that an extension makes of others. -/
def apply (rule : Rule) (classes : Finset String) : Finset String :=
  (classes \ rule.target.toFinset) ∪ rule.extender.toFinset

/-- The same as a list: what is left of the classes, and those of the extender. -/
def made (rule : Rule) (names : List String) : List String :=
  (names.filter fun name => !rule.target.contains name) ++ rule.extender

theorem toFinset_made (rule : Rule) (names : List String) :
    (rule.made names).toFinset = rule.apply names.toFinset := by
  ext name
  simp [made, apply]

def insertion (rule : Rule) : List Simple × Chain :=
  (rule.target.map .className, [.compound (.ofClasses rule.extender)])

end Rule

/-- The map of some extensions. -/
def mapOf (rules : List Rule) : ExtendMap :=
  SubsetMap.insertAll (rules.map Rule.insertion)

/-- Extensions used one after another, each where its target is. -/
inductive Way (rules : List Rule) : Finset String → List Rule → Finset String → Prop where
  | nil : Way rules classes [] classes
  | cons (known : rule ∈ rules) (nonempty : rule.target ≠ [])
      (holds : rule.target.toFinset ⊆ classes) (rest : Way rules (rule.apply classes) steps last) :
      Way rules classes (rule :: steps) last

/-- No target is used twice, by whichever extensions. -/
def Once (steps : List Rule) : Prop :=
  steps.Pairwise fun a b => a.target.toFinset ≠ b.target.toFinset

section Classes

@[simp] theorem className_beq_className (a b : String) :
    (Simple.className a == Simple.className b) = true ↔ a = b := by
  change Simple.equals (.className a) (.className b) = true ↔ _
  simp [Simple.equals]

theorem contains_className (names : List String) (name : String) :
    (names.map Simple.className).contains (.className name) = names.contains name := by
  rw [Bool.eq_iff_iff, List.contains_iff_exists_mem_beq]
  constructor
  · rintro ⟨s, member, same⟩
    obtain ⟨other, found, rfl⟩ := List.mem_map.mp member
    rw [className_beq_className] at same
    simpa [same] using found
  · intro found
    exact ⟨.className name, List.mem_map_of_mem (by simpa using found), BEq.rfl⟩

theorem sameSet_classes_iff (a b : List String) :
    SubsetMap.SameSet (a.map Simple.className) (b.map Simple.className) ↔
      a.toFinset = b.toFinset := by
  constructor
  · intro same
    ext name
    have found := same (.className name)
    rw [contains_className, contains_className, Bool.eq_iff_iff] at found
    simpa using found
  · intro same x
    have members (name : String) : name ∈ a ↔ name ∈ b := by
      simpa using Finset.ext_iff.mp same name
    rw [Bool.eq_iff_iff, List.contains_iff_exists_mem_beq, List.contains_iff_exists_mem_beq]
    simp only [List.mem_map, members]

theorem isPartOf_classes (a b : List String) :
    SubsetMap.isPartOf (a.map Simple.className) (b.map Simple.className) = true ↔
      a.toFinset ⊆ b.toFinset := by
  unfold SubsetMap.isPartOf
  rw [List.all_map, List.all_eq_true]
  simp [Finset.subset_iff]

theorem isSuperselector_ofClasses (a b : List String) :
    (Compound.ofClasses a).isSuperselector (.ofClasses b) = true ↔ a.toFinset ⊆ b.toFinset := by
  rw [Compound.isSuperselector_iff]
  simp [Compound.ofClasses, Compound.base, Compound.rest, Simple.equals, Finset.subset_iff]

theorem ofClasses_inj {a b : List String} :
    Compound.ofClasses a = .ofClasses b ↔ a = b := by
  have injective : Function.Injective Simple.className := fun _ _ same => Simple.className.inj same
  simp [Compound.ofClasses, (List.map_injective_iff.mpr injective).eq_iff]

@[simp] theorem members_ofClasses (names : List String) :
    (Compound.ofClasses names).members = names.map .className := rfl

private theorem insertBefore_classes (name : String) (others : List String) :
    Simple.insertBefore Simple.isPseudo (.className name) (others.map .className) =
      (others ++ [name]).map .className := by
  induction others with
  | nil => rfl
  | cons other rest ih => simp [Simple.insertBefore, Simple.isPseudo, ih]

private theorem unify_className (name : String) (others : List String) :
    ∃ both : List String,
      Simple.unify (.className name) (others.map .className) = some (both.map .className) ∧
        both.toFinset = others.toFinset ∪ {name} := by
  have added : Simple.unify (.className name) (others.map .className) =
      some (Simple.insertInto (.className name) (others.map .className)) := rfl
  rw [added, Simple.insertInto, contains_className]
  by_cases known : name ∈ others
  · refine ⟨others, by simp [known], ?_⟩
    ext other
    simp only [Finset.mem_union, List.mem_toFinset, Finset.mem_singleton]
    exact ⟨Or.inl, fun found => found.elim id fun same => same ▸ known⟩
  · refine ⟨others ++ [name], ?_, by simp⟩
    rw [if_neg (by simpa using known), if_neg (by simp [Simple.isPseudo]), insertBefore_classes]

private theorem foldlM_unify_classes (names others : List String) :
    ∃ both : List String, (names.map Simple.className).foldlM (fun found s => Simple.unify s found)
        (others.map .className) = some (both.map .className) ∧
      both.toFinset = others.toFinset ∪ names.toFinset := by
  induction names generalizing others with
  | nil => exact ⟨others, rfl, by simp⟩
  | cons name rest ih =>
    obtain ⟨first, unified, same⟩ := unify_className name others
    obtain ⟨both, unified', same'⟩ := ih first
    refine ⟨both, ?_, ?_⟩
    · rw [List.map_cons, List.foldlM_cons, unified]
      exact unified'
    · rw [same', same, List.toFinset_cons, Finset.union_assoc]
      rfl

private theorem ofMembers_classes (names : List String) :
    ∃ kept, Compound.ofMembers (names.map .className) = .ofClasses kept ∧
      kept.toFinset = names.toFinset := by
  have qualifiers : ∀ s ∈ names.map Simple.className, s.isBase = false := by
    simp [Simple.isBase]
  have made : Compound.ofMembers (names.map .className) =
      .mk none (distinct (names.map .className)) := foldl_insert none [] _ qualifiers
  obtain ⟨added, whole, sub⟩ := exists_keepNew [] (names.map Simple.className)
  obtain ⟨kept, _, rfl⟩ := List.sublist_map_iff.mp sub
  have same : distinct (names.map Simple.className) = kept.map .className := whole
  refine ⟨kept, by rw [made, same]; rfl, ?_⟩
  rw [← sameSet_classes_iff, ← same]
  exact SubsetMap.contains_distinct _

/-- Unification brings classes together. -/
theorem unify_ofClasses (names others : List String) :
    ∃ both, (Compound.ofClasses names).unify (others.map .className) = some (.ofClasses both) ∧
      both.toFinset = others.toFinset ∪ names.toFinset := by
  obtain ⟨found, unified, same⟩ := foldlM_unify_classes names others
  obtain ⟨both, made, same'⟩ := ofMembers_classes found
  refine ⟨both, ?_, same'.trans same⟩
  rw [Compound.unify, members_ofClasses, unified, Option.map_some, made]

/-- What an extension makes of a compound of classes. -/
theorem extended?_ofClasses {rule : Rule} {hit : SubsetMap.Entry Simple Chain}
    (key : SubsetMap.SameSet hit.key (rule.target.map .className))
    (value : hit.value = [.compound (.ofClasses rule.extender)]) (names : List String) :
    ∃ made, extended? (Compound.ofClasses names).members hit = some [.compound (.ofClasses made)] ∧
      made.toFinset = rule.apply names.toFinset := by
  have left : (Compound.ofClasses names).members.filter (fun s => !hit.key.contains s) =
      (names.filter fun name => !rule.target.contains name).map .className := by
    rw [members_ofClasses, List.filter_map]
    congr 1
    apply List.filter_congr
    intro name _
    rw [Function.comp_apply, key, contains_className]
  obtain ⟨made, unified, same⟩ :=
    unify_ofClasses rule.extender (names.filter fun name => !rule.target.contains name)
  refine ⟨made, ?_, ?_⟩
  · simp only [extended?, value, left, List.getLast?_singleton, unified, Option.map_some,
      List.dropLast_singleton, List.nil_append]
  · rw [same, Rule.apply]
    ext name
    simp

end Classes

section Hits

variable {rules : List Rule} {names : List String} {hit : SubsetMap.Entry Simple Chain}

/-- What is found for a compound of classes is an extension whose target it has. -/
theorem rule_of_hit (found : hit ∈ (mapOf rules).get (Compound.ofClasses names).members) :
    ∃ rule ∈ rules, rule.target ≠ [] ∧ rule.target.toFinset ⊆ names.toFinset ∧
      SubsetMap.SameSet hit.key (rule.target.map .className) ∧
      hit.value = [.compound (.ofClasses rule.extender)] := by
  obtain ⟨stored, part⟩ := SubsetMap.isPartOf_of_mem_get found
  obtain ⟨insertion, asked, nonempty, key, value⟩ := SubsetMap.exists_insertion_of_mem stored
  obtain ⟨rule, known, rfl⟩ := List.mem_map.mp asked
  refine ⟨rule, known, fun none => nonempty (by simp [Rule.insertion, none]), ?_, key, value⟩
  rwa [key.isPartOf_eq, members_ofClasses, Rule.insertion, isPartOf_classes] at part

theorem hit_of_rule {rule : Rule} (known : rule ∈ rules) (nonempty : rule.target ≠ [])
    (holds : rule.target.toFinset ⊆ names.toFinset) :
    ∃ hit ∈ (mapOf rules).get (Compound.ofClasses names).members,
      SubsetMap.SameSet hit.key (rule.target.map .className) ∧
        hit.value = [.compound (.ofClasses rule.extender)] := by
  have asked : rule.insertion ∈ rules.map Rule.insertion := List.mem_map_of_mem known
  obtain ⟨entry, stored, key, value⟩ :=
    SubsetMap.exists_entry_of_mem asked (by simpa [Rule.insertion] using nonempty)
  refine ⟨entry, ?_, key, value⟩
  rw [mapOf, (SubsetMap.valid_insertAll _).get_eq, List.mem_filter, key.isPartOf_eq,
    members_ofClasses, Rule.insertion, isPartOf_classes]
  exact ⟨Array.mem_toList_iff.mpr stored, holds⟩

/-- The target of the extension is not among those used. -/
def Fresh (rules : List Rule) (seen : List Nat) (rule : Rule) : Prop :=
  ∀ entry ∈ (mapOf rules).entries, SubsetMap.SameSet entry.key (rule.target.map .className) →
    entry.keyId ∉ seen

theorem fresh_cons_iff {used rule : Rule} {seen : List Nat}
    (stored : hit ∈ (mapOf rules).entries)
    (key : SubsetMap.SameSet hit.key (used.target.map .className)) :
    Fresh rules (hit.keyId :: seen) rule ↔
      used.target.toFinset ≠ rule.target.toFinset ∧ Fresh rules seen rule := by
  have valid : (mapOf rules).Valid := SubsetMap.valid_insertAll _
  constructor
  · intro fresh
    refine ⟨fun same => ?_, fun entry stored' key' used' => ?_⟩
    · have again := key.trans ((sameSet_classes_iff _ _).mpr same)
      exact fresh hit stored again (List.mem_cons_self ..)
    · exact fresh entry stored' key' (List.mem_cons_of_mem _ used')
  · rintro ⟨differs, fresh⟩ entry stored' key' used'
    rcases List.mem_cons.mp used' with same | earlier
    · have sets := (valid.keyId_iff entry stored' hit stored).mp same
      exact differs ((sameSet_classes_iff _ _).mp (key.symm.trans (sets.symm.trans key')))
    · exact fresh entry stored' key' earlier

end Hits

section Singles

/-- One compound of classes and nothing else. -/
def IsSingle (chain : Chain) : Prop :=
  ∃ names, chain = [.compound (.ofClasses names)]

/-- One of the chains asks for no other classes. -/
def CoversClasses (chains : List Chain) (classes : Finset String) : Prop :=
  ∃ names, [.compound (.ofClasses names)] ∈ chains ∧ names.toFinset ⊆ classes

theorem CoversClasses.distinct {chains : List Chain} {classes : Finset String}
    (single : ∀ chain ∈ Stylesheet.distinct chains, IsSingle chain)
    (covers : CoversClasses chains classes) :
    CoversClasses (Stylesheet.distinct chains) classes := by
  obtain ⟨names, member, part⟩ := covers
  obtain ⟨chain, kept, same⟩ := exists_mem_distinct member
  obtain ⟨others, rfl⟩ := single chain kept
  refine ⟨others, kept, Finset.Subset.trans ?_ part⟩
  cases (beq_iff_forall₂ _ _).mp same with
  | cons first _ =>
    have equal : (Compound.ofClasses names == Compound.ofClasses others) = true := by
      change Component.equals _ _ = true at first
      simp only [Component.equals] at first
      exact first
    rw [← isSuperselector_ofClasses]
    exact Compound.isSuperselector_of_beq (BEq.symm equal) (Compound.isSuperselector_refl _)

/-- Where compounds are extended to single ones there is nothing to weave. -/
theorem chainWith_single {f : Compound → List Chain} {names : List String}
    (single : ∀ chain ∈ f (.ofClasses names), IsSingle chain) :
    chainWith f [.compound (.ofClasses names)] =
      Stylesheet.distinct (options f (.compound (.ofClasses names))) := by
  have woven : ∀ chain ∈ options f (.compound (.ofClasses names)),
      Weave.weave [chain] = [chain] := by
    intro chain member
    have alone : IsSingle chain :=
      (mem_options member).elim (fun own => ⟨names, own⟩) (single chain)
    obtain ⟨others, rfl⟩ := alone
    exact Weave.weave_singletons [.compound (.ofClasses others)]
  rw [chainWith, List.map_singleton, choices_single, List.flatMap_map, List.flatMap_congr woven,
    List.flatMap_singleton']

theorem exists_covering_option_single {f : Compound → List Chain} {names : List String}
    (single : ∀ chain ∈ f (.ofClasses names), IsSingle chain) :
    CoversClasses (options f (.compound (.ofClasses names))) names.toFinset := by
  obtain ⟨own, offered, covers⟩ := exists_covering_option f (.compound (.ofClasses names))
  have alone : IsSingle [own] := (mem_options offered).elim (fun same => ⟨names, same⟩) (single _)
  obtain ⟨others, same⟩ := alone
  cases same
  cases covers with
  | compound wider => exact ⟨others, offered, (isSuperselector_ofClasses _ _).mp wider⟩

end Singles

section Ways

variable {rules : List Rule}

/-- What a compound of classes is extended to is where a way leads that uses each target once and
none of those used before. -/
theorem way_of_mem_compound (names : List String) (seen : List Nat) {chain : Chain}
    (member : chain ∈ compound (mapOf rules) (unseen (mapOf rules) seen) (.ofClasses names)) :
    ∃ reached steps, chain = [.compound (.ofClasses reached)] ∧
      Way rules names.toFinset steps reached.toFinset ∧ Once steps ∧
        ∀ step ∈ steps, Fresh rules seen step := by
  suffices general : ∀ (call : List Nat × Compound) (names : List String),
      call.2 = .ofClasses names →
        ∀ chain ∈ compound (mapOf rules) (unseen (mapOf rules) call.1) call.2, ∃ reached steps,
          chain = [.compound (.ofClasses reached)] ∧
            Way rules names.toFinset steps reached.toFinset ∧ Once steps ∧
              ∀ step ∈ steps, Fresh rules call.1 step from
    general (seen, .ofClasses names) names rfl chain member
  clear member
  intro call
  induction call using (below_wellFounded (mapOf rules)).induction with
  | h call ih =>
    obtain ⟨seen, c⟩ := call
    rintro names rfl chain member
    simp only at ih member ⊢
    rw [compound_unseen] at member
    obtain ⟨hit, found, given⟩ := List.mem_flatMap.mp (mem_of_mem_distinct member)
    obtain ⟨rule, known, nonempty, holds, key, value⟩ := rule_of_hit found
    obtain ⟨made, extended, becomes⟩ := extended?_ofClasses key value names
    have stored := (SubsetMap.isPartOf_of_mem_get found).1
    rw [extended] at given
    simp only at given
    split at given
    · simp at given
    · rename_i fresh
      have call : Calls (mapOf rules) seen (.ofClasses names) hit.keyId (.ofClasses made) :=
        .extension found extended fresh (List.mem_singleton_self _)
      have inner := ih (hit.keyId :: seen, .ofClasses made) ⟨hit.keyId, rfl, call⟩ made rfl
      simp only at inner
      have first : Fresh rules seen rule := by
        intro entry stored' key' used
        have same := ((SubsetMap.valid_insertAll _).keyId_iff entry stored' hit stored).mpr
          (key'.trans key.symm)
        exact fresh (same ▸ used)
      have single : ∀ chain ∈ compound (mapOf rules) (unseen (mapOf rules) (hit.keyId :: seen))
          (.ofClasses made), IsSingle chain := fun chain later =>
        (inner chain later).imp fun _ ⟨_, same, _⟩ => same
      rw [chainWith_single single] at given
      rcases mem_options (mem_of_mem_distinct given) with rfl | later
      · refine ⟨made, [rule], rfl, .cons known nonempty holds (becomes ▸ .nil),
          List.pairwise_singleton _ _, ?_⟩
        simpa using first
      · obtain ⟨reached, steps, same, way, once, others⟩ := inner chain later
        have apart := fun step member => (fresh_cons_iff stored key).mp (others step member)
        refine ⟨reached, rule :: steps, same, .cons known nonempty holds (becomes ▸ way),
          List.pairwise_cons.mpr ⟨fun step member => (apart step member).1, once⟩, ?_⟩
        intro step member
        rcases List.mem_cons.mp member with rfl | member
        · exact first
        · exact (apart step member).2

theorem isSingle_of_mem_compound {names : List String} {seen : List Nat} {chain : Chain}
    (member : chain ∈ compound (mapOf rules) (unseen (mapOf rules) seen) (.ofClasses names)) :
    IsSingle chain := by
  obtain ⟨reached, _, same, _⟩ := way_of_mem_compound names seen member
  exact ⟨reached, same⟩

/-- Wherever such a way leads is covered. -/
theorem covers_of_way {start last : Finset String} {steps : List Rule}
    (way : Way rules start steps last) (once : Once steps) {seen : List Nat}
    (fresh : ∀ step ∈ steps, Fresh rules seen step) {names : List String}
    (same : names.toFinset = start) :
    CoversClasses (options (compound (mapOf rules) (unseen (mapOf rules) seen))
      (.compound (.ofClasses names))) last := by
  induction way generalizing seen names with
  | nil =>
    subst same
    exact exists_covering_option_single fun chain => isSingle_of_mem_compound
  | @cons rule classes steps last known nonempty holds rest ih =>
    subst same
    obtain ⟨different, once⟩ := List.pairwise_cons.mp once
    obtain ⟨hit, found, key, value⟩ := hit_of_rule known nonempty holds
    obtain ⟨made, extended, becomes⟩ := extended?_ofClasses key value names
    have stored := (SubsetMap.isPartOf_of_mem_get found).1
    have unused : hit.keyId ∉ seen := fresh rule (List.mem_cons_self ..) hit stored key
    have later : ∀ step ∈ steps, Fresh rules (hit.keyId :: seen) step := fun step member =>
      (fresh_cons_iff stored key).mpr
        ⟨different step member, fresh step (List.mem_cons_of_mem _ member)⟩
    have inner := ih once later becomes
    have single : ∀ chain ∈ compound (mapOf rules) (unseen (mapOf rules) (hit.keyId :: seen))
        (.ofClasses made), IsSingle chain := fun _ => isSingle_of_mem_compound
    have woven : CoversClasses (chainWith (compound (mapOf rules)
        (unseen (mapOf rules) (hit.keyId :: seen))) [.compound (.ofClasses made)]) last := by
      rw [chainWith_single single]
      apply inner.distinct
      intro chain kept
      exact (mem_options (mem_of_mem_distinct kept)).elim (fun own => ⟨made, own⟩) (single chain)
    obtain ⟨reached, member, part⟩ := woven
    have listed : CoversClasses (compound (mapOf rules) (unseen (mapOf rules) seen)
        (.ofClasses names)) last := by
      have gathered := compound_unseen (mapOf rules) seen (.ofClasses names)
      rw [extensionsWith] at gathered
      have single : ∀ chain ∈ compound (mapOf rules) (unseen (mapOf rules) seen)
          (.ofClasses names), IsSingle chain := fun _ => isSingle_of_mem_compound
      rw [gathered] at single ⊢
      apply CoversClasses.distinct single
      refine ⟨reached, List.mem_flatMap.mpr ⟨hit, found, ?_⟩, part⟩
      rw [extended]
      simp only
      rwa [if_neg unused]
    obtain ⟨reached, member, part⟩ := listed
    exact ⟨reached, mem_options_of_mem member, part⟩

end Ways

section Again

variable {rules : List Rule}

theorem Way.mem {start last : Finset String} {steps : List Rule}
    (way : Way rules start steps last) : ∀ step ∈ steps, step ∈ rules := by
  induction way with
  | nil => simp
  | cons known _ _ _ ih => exact List.forall_mem_cons.mpr ⟨known, ih⟩

theorem Way.append {start middle last : Finset String} {before after : List Rule}
    (first : Way rules start before middle) (second : Way rules middle after last) :
    Way rules start (before ++ after) last := by
  induction first with
  | nil => exact second
  | cons known nonempty holds _ ih => exact .cons known nonempty holds (ih second)

theorem Way.split {start last : Finset String} {before after : List Rule}
    (way : Way rules start (before ++ after) last) :
    Way rules start before (before.foldl (fun classes step => step.apply classes) start) ∧
      Way rules (before.foldl (fun classes step => step.apply classes) start) after last := by
  induction before generalizing start with
  | nil => exact ⟨.nil, way⟩
  | cons rule rest ih =>
    cases way with
    | cons known nonempty holds later =>
      obtain ⟨first, second⟩ := ih later
      exact ⟨.cons known nonempty holds first, second⟩

theorem once_iff {steps : List Rule} :
    Once steps ↔ (steps.map fun step => step.target.toFinset).Nodup :=
  List.pairwise_map.symm

/-- Steps that can be gone while a target is kept: of the other classes, each of them replaces a
target that is there as a whole or has no class among them. -/
def Unsplit (target : Finset String) : Finset String → List Rule → Prop
  | _, [] => True
  | classes, step :: rest =>
    (step.target.toFinset ⊆ classes \ target ∧ Unsplit target (step.apply classes) rest) ∨
      (Disjoint step.target.toFinset (classes \ target) ∧ Unsplit target classes rest)

theorem unsplit_of_card_le_one {target : Finset String} {steps : List Rule}
    (small : ∀ step ∈ steps, step.target.toFinset.card ≤ 1) (classes : Finset String) :
    Unsplit target classes steps := by
  induction steps generalizing classes with
  | nil => trivial
  | cons step rest ih =>
    have later := ih fun other member => small other (List.mem_cons_of_mem _ member)
    by_cases apart : Disjoint step.target.toFinset (classes \ target)
    · exact Or.inr ⟨apart, later classes⟩
    · obtain ⟨name, own, other⟩ := Finset.not_disjoint_iff.mp apart
      refine Or.inl ⟨fun name' own' => ?_, later _⟩
      rwa [Finset.card_le_one.mp (small step (List.mem_cons_self ..)) name' own' name own]

/-- What was done after a target was replaced is done before, as far as it does not need what the
target was replaced by. -/
theorem exists_way_keeping {target start last kept : Finset String} {steps : List Rule}
    (way : Way rules start steps last) (within : kept ⊆ start ∪ target) (holds : target ⊆ kept)
    (unsplit : Unsplit target kept steps) :
    ∃ done reached, done.Sublist steps ∧ Way rules kept done reached ∧ target ⊆ reached ∧
      reached ⊆ last ∪ target := by
  induction way generalizing kept with
  | nil => exact ⟨[], kept, .slnil, .nil, holds, within⟩
  | @cons rule classes steps last known nonempty present rest ih =>
    rcases unsplit with ⟨whole, unsplit⟩ | ⟨apart, unsplit⟩
    · have within' : rule.apply kept ⊆ rule.apply classes ∪ target := by
        intro name member
        have here := @within name
        simp only [Rule.apply, Finset.mem_union, Finset.mem_sdiff] at member here ⊢
        tauto
      have holds' : target ⊆ rule.apply kept := by
        intro name member
        have other : name ∉ rule.target.toFinset := fun own =>
          (Finset.mem_sdiff.mp (whole own)).2 member
        exact Finset.mem_union_left _ (Finset.mem_sdiff.mpr ⟨holds member, other⟩)
      obtain ⟨done, reached, sub, way, final⟩ := ih within' holds' unsplit
      have own : rule.target.toFinset ⊆ kept := fun name member =>
        (Finset.mem_sdiff.mp (whole member)).1
      exact ⟨rule :: done, reached, sub.cons_cons rule, .cons known nonempty own way, final⟩
    · have within' : kept ⊆ rule.apply classes ∪ target := by
        intro name member
        have here := @within name
        have other : name ∈ rule.target.toFinset → name ∉ kept \ target :=
          fun own => Finset.disjoint_left.mp apart own
        simp only [Rule.apply, Finset.mem_union, Finset.mem_sdiff] at here other ⊢
        tauto
      obtain ⟨done, reached, sub, way, final⟩ := ih within' holds unsplit
      exact ⟨done, reached, sub.cons rule, way, final⟩

/-- After these steps a target can be replaced once more: it was not yet, or none of the targets
since then was split. -/
def Reopens (target start : Finset String) (steps : List Rule) : Prop :=
  (∀ step ∈ steps, step.target.toFinset ≠ target) ∨
    ∃ before used after, steps = before ++ used :: after ∧ used.target.toFinset = target ∧
      Unsplit target (before.foldl (fun classes step => step.apply classes) start) after

theorem reopens_of_card_le_one {start : Finset String} {steps : List Rule}
    (small : ∀ step ∈ steps, step.target.toFinset.card ≤ 1) (target : Finset String) :
    Reopens target start steps := by
  by_cases fresh : ∀ step ∈ steps, step.target.toFinset ≠ target
  · exact Or.inl fresh
  · obtain ⟨used, member, same⟩ : ∃ used ∈ steps, used.target.toFinset = target := by
      simpa using fresh
    obtain ⟨before, after, rfl⟩ := List.append_of_mem member
    refine Or.inr ⟨before, used, after, rfl, same, unsplit_of_card_le_one ?_ _⟩
    exact fun step later => small step (by simp [later])

/-- Where a target can be replaced once more, a way leads to what that would give, or to less. -/
theorem Way.again {start last : Finset String} {steps : List Rule} {rule : Rule}
    (way : Way rules start steps last) (once : Once steps) (known : rule ∈ rules)
    (nonempty : rule.target ≠ []) (holds : rule.target.toFinset ⊆ last)
    (reopens : Reopens rule.target.toFinset start steps) :
    ∃ steps' reached, Way rules start steps' reached ∧ Once steps' ∧ reached ⊆ rule.apply last := by
  rcases reopens with fresh | ⟨before, used, after, rfl, same, unsplit⟩
  · refine ⟨steps ++ [rule], rule.apply last, way.append (.cons known nonempty holds .nil), ?_,
      Finset.Subset.refl _⟩
    refine List.pairwise_append.mpr ⟨once, List.pairwise_singleton _ _, ?_⟩
    intro step member other single
    rw [List.mem_singleton.mp single]
    exact fresh step member
  · obtain ⟨first, second⟩ := way.split
    cases second with
    | cons _ _ present rest =>
      have within : ∀ classes : Finset String,
          classes ⊆ used.apply classes ∪ rule.target.toFinset := by
        intro classes name member
        rw [← same]
        simp only [Rule.apply, Finset.mem_union, Finset.mem_sdiff]
        tauto
      obtain ⟨done, reached, sub, kept, there, part⟩ :=
        exists_way_keeping rest (within _) (same ▸ present) unsplit
      refine ⟨before ++ done ++ [rule], rule.apply reached,
        (first.append kept).append (.cons known nonempty there .nil), ?_, ?_⟩
      · rw [once_iff] at once ⊢
        have fewer := once.sublist (((sub.cons_cons used).append_left before).map _)
        have swapped : ([used] ++ done).Perm (done ++ [used]) := List.perm_append_comm
        have moved : (before ++ used :: done).Perm (before ++ done ++ [used]) := by
          rw [List.append_assoc]
          exact swapped.append_left before
        have renamed : (before ++ done ++ [rule]).map (fun step => step.target.toFinset) =
            (before ++ done ++ [used]).map fun step => step.target.toFinset := by
          simp [same]
        rw [renamed]
        exact (moved.map _).nodup_iff.mp fewer
      · intro name member
        have below := @part name
        simp only [Rule.apply, Finset.mem_union, Finset.mem_sdiff] at member below ⊢
        tauto

end Again

section Result

variable {rules : List Rule} {compounds : List (List String)}

/-- The selector of some compounds of classes. -/
def selectorOf (compounds : List (List String)) : Selector :=
  compounds.map fun names => [.compound (.ofClasses names)]

private theorem extend_ofClasses (names : List String) :
    Chain.extend (mapOf rules) [.compound (.ofClasses names)] =
      distinct (options (compound (mapOf rules) (unseen (mapOf rules) []))
        (.compound (.ofClasses names))) := by
  rw [Chain.extend, ← unseen_nil]
  exact chainWith_single fun chain => isSingle_of_mem_compound

theorem way_of_mem_extend {chain : Chain}
    (member : chain ∈ Selector.extend (mapOf rules) (selectorOf compounds)) :
    ∃ reached, chain = [.compound (.ofClasses reached)] ∧ ∃ start ∈ compounds, ∃ steps,
      Way rules start.toFinset steps reached.toFinset ∧ Once steps := by
  obtain ⟨source, given, extended⟩ := List.mem_flatMap.mp (mem_of_mem_distinct member)
  obtain ⟨start, listed, rfl⟩ := List.mem_map.mp given
  rw [extend_ofClasses] at extended
  rcases mem_options (mem_of_mem_distinct extended) with rfl | later
  · exact ⟨start, rfl, start, listed, [], .nil, .nil⟩
  · obtain ⟨reached, steps, same, way, once, _⟩ := way_of_mem_compound start [] later
    exact ⟨reached, same, start, listed, steps, way, once⟩

theorem way_of_reached {names : List String}
    (member : [.compound (.ofClasses names)] ∈
      Selector.extend (mapOf rules) (selectorOf compounds)) :
    ∃ start ∈ compounds, ∃ steps, Way rules start.toFinset steps names.toFinset ∧ Once steps := by
  obtain ⟨reached, same, way⟩ := way_of_mem_extend member
  simp only [List.cons.injEq, Component.compound.injEq, ofClasses_inj, and_true] at same
  exact same ▸ way

theorem covers_of_way_extend {start : List String} {steps : List Rule} {last : Finset String}
    (listed : start ∈ compounds) (way : Way rules start.toFinset steps last) (once : Once steps) :
    CoversClasses (Selector.extend (mapOf rules) (selectorOf compounds)) last := by
  have single : ∀ chain ∈ Selector.extend (mapOf rules) (selectorOf compounds), IsSingle chain := by
    intro chain member
    obtain ⟨reached, same, _⟩ := way_of_mem_extend member
    exact ⟨reached, same⟩
  refine CoversClasses.distinct single ?_
  have extended :
      CoversClasses (Chain.extend (mapOf rules) [.compound (.ofClasses start)]) last := by
    rw [extend_ofClasses]
    refine CoversClasses.distinct ?_ (covers_of_way way once (by simp [Fresh]) rfl)
    intro chain member
    exact (mem_options (mem_of_mem_distinct member)).elim (fun own => ⟨start, own⟩)
      isSingle_of_mem_compound
  obtain ⟨names, member, part⟩ := extended
  exact ⟨names, List.mem_flatMap.mpr ⟨_, List.mem_map_of_mem listed, member⟩, part⟩

/-- Some compound matches what an extension makes of a compound of classes. -/
def ClosedAt (result : Selector) (rule : Rule) (names : List String) : Prop :=
  ∃ s, [.compound (.ofClasses s)] ∈ result ∧
    (Compound.ofClasses s).isSuperselector (.ofClasses (rule.made names)) = true

theorem closedAt_iff (result : Selector) (rule : Rule) (names : List String) :
    ClosedAt result rule names ↔ CoversClasses result (rule.apply names.toFinset) := by
  simp only [ClosedAt, CoversClasses, isSuperselector_ofClasses, Rule.toFinset_made]

/-- Among compounds of classes, the result of extension is closed under an extension exactly where
extensions lead from one of the compounds to what that gives, or to less, without a target being
used twice. That is so where a way leads to the compound after which the target can be replaced
once more, and everywhere if all targets are single classes. -/
theorem classes_closed_iff (rules : List Rule) (compounds : List (List String)) :
    let result := Selector.extend (mapOf rules) (selectorOf compounds)
    (∀ chain ∈ result, IsSingle chain) ∧
    ∀ names, [.compound (.ofClasses names)] ∈ result → ∀ rule ∈ rules, rule.target ⊆ names →
      (ClosedAt result rule names ↔ ∃ start ∈ compounds, ∃ steps last,
        Way rules start.toFinset steps last ∧ Once steps ∧ last ⊆ rule.apply names.toFinset) ∧
      ((∃ start ∈ compounds, ∃ steps, Way rules start.toFinset steps names.toFinset ∧ Once steps ∧
          Reopens rule.target.toFinset start.toFinset steps) ∨
        (∀ other ∈ rules, other.target.toFinset.card ≤ 1) → ClosedAt result rule names) := by
  intro result
  refine ⟨?_, fun names member rule known holds => ?_⟩
  · intro chain member
    obtain ⟨reached, same, _⟩ := way_of_mem_extend member
    exact ⟨reached, same⟩
  have exactly : ClosedAt result rule names ↔ ∃ start ∈ compounds, ∃ steps last,
      Way rules start.toFinset steps last ∧ Once steps ∧ last ⊆ rule.apply names.toFinset := by
    rw [closedAt_iff]
    constructor
    · rintro ⟨reached, found, part⟩
      obtain ⟨start, listed, steps, way, once⟩ := way_of_reached found
      exact ⟨start, listed, steps, _, way, once, part⟩
    · rintro ⟨start, listed, steps, last, way, once, part⟩
      obtain ⟨reached, found, part'⟩ := covers_of_way_extend listed way once
      exact ⟨reached, found, part'.trans part⟩
  refine ⟨exactly, fun reopens => exactly.mpr ?_⟩
  obtain ⟨start, listed, steps, way, once⟩ := way_of_reached member
  by_cases none : rule.target = []
  · exact ⟨start, listed, steps, _, way, once, by simp [Rule.apply, none]⟩
  · have present : rule.target.toFinset ⊆ names.toFinset := by
      intro name
      simpa using @holds name
    rcases reopens with ⟨start, listed, steps, way, once, reopens⟩ | small
    · obtain ⟨steps', last, found⟩ := way.again once known none present reopens
      exact ⟨start, listed, steps', last, found⟩
    · have reopens : Reopens rule.target.toFinset start.toFinset steps :=
        reopens_of_card_le_one (fun step used => small step (way.mem step used)) _
      obtain ⟨steps', last, found⟩ := way.again once known none present reopens
      exact ⟨start, listed, steps', last, found⟩

/-- What the map of some extensions holds for one of them, if no other one has its target. -/
def entryOf (rule : Rule) (position : Nat) : SubsetMap.Entry Simple Chain :=
  ⟨position, position, rule.target.map .className, [.compound (.ofClasses rule.extender)]⟩

theorem get_mapOf (rules : List Rule) (names : List String) :
    (mapOf rules).get (Compound.ofClasses names).members =
      (mapOf rules).entries.toList.filter fun entry =>
        SubsetMap.isPartOf entry.key (Compound.ofClasses names).members :=
  (SubsetMap.valid_insertAll _).get_eq _

section Cycles

variable {map : ExtendMap} {a b c d : Compound} {hit back : SubsetMap.Entry Simple Chain}

theorem chainWith_compound {f : Compound → List Chain} {extended : List Chain}
    (gives : f c = extended) :
    chainWith f [.compound c] = chainWith (fun _ => extended) [.compound c] := by
  simp only [chainWith, List.map_cons, List.map_nil, options, gives]

/-- One extension is found, and what it gives for a compound is extended further. -/
theorem compound_of_hit {unused : List Nat} {further : List Chain}
    (found : map.get c.members = [hit]) (made : extended? c.members hit = some [.compound d])
    (gives : compound map unused d = further) :
    compound map (hit.keyId :: unused) c =
      distinct (chainWith (fun _ => further) [.compound d]) := by
  rw [compound, found]
  simp only [List.flatMap_singleton, made, dif_pos (List.mem_cons_self (a := hit.keyId)),
    List.erase_cons_head, chainWith_compound gives]

/-- Without a target that is not used yet, nothing is extended. -/
theorem compound_of_used (found : map.get c.members = [hit])
    (made : extended? c.members hit = some [.compound d]) : compound map [] c = [] := by
  simp [compound, found, made, distinct]

/-- Two extensions are used one after the other, and then the first is found again. -/
theorem extend_of_cycle (ids : map.keyIds = [hit.keyId, back.keyId])
    (first : map.get a.members = [hit]) (made : extended? a.members hit = some [.compound b])
    (second : map.get b.members = [back]) (made' : extended? b.members back = some [.compound c])
    (again : map.get c.members = [hit]) (made'' : extended? c.members hit = some [.compound d]) :
    Selector.extend map [[.compound a]] =
      distinct (chainWith (fun _ => distinct (chainWith (fun _ => distinct (chainWith (fun _ => [])
        [.compound c])) [.compound b])) [.compound a]) := by
  have last := compound_of_hit second made' (compound_of_used again made'')
  have whole := compound_of_hit first made last
  rw [Selector.extend, List.flatMap_singleton, Chain.extend, ids, chainWith_compound whole]

end Cycles

/-- Two extensions that bring each other's target back, one of them of two classes. -/
theorem classes_closed_iff_of_reopened :
    let rules : List Rule := [⟨["a"], ["b", "e"]⟩, ⟨["b", "e"], ["a", "c"]⟩]
    let result := Selector.extend (mapOf rules) (selectorOf [["a", "p"]])
    [.compound (.ofClasses ["p", "a", "c"])] ∈ result ∧
      ClosedAt result ⟨["a"], ["b", "e"]⟩ ["p", "a", "c"] := by
  intro rules result
  have computed : result = [[.compound (.ofClasses ["a", "p"])],
      [.compound (.ofClasses ["p", "b", "e"])], [.compound (.ofClasses ["p", "a", "c"])]] := by
    have first : (mapOf rules).get (Compound.ofClasses ["a", "p"]).members =
        [entryOf ⟨["a"], ["b", "e"]⟩ 0] :=
      (get_mapOf _ _).trans (by with_unfolding_all rfl)
    have second : (mapOf rules).get (Compound.ofClasses ["p", "b", "e"]).members =
        [entryOf ⟨["b", "e"], ["a", "c"]⟩ 1] :=
      (get_mapOf _ _).trans (by with_unfolding_all rfl)
    have again : (mapOf rules).get (Compound.ofClasses ["p", "a", "c"]).members =
        [entryOf ⟨["a"], ["b", "e"]⟩ 0] :=
      (get_mapOf _ _).trans (by with_unfolding_all rfl)
    refine (extend_of_cycle (by with_unfolding_all rfl) first ?_ second ?_ again
      (d := .ofClasses ["p", "c", "b", "e"]) ?_).trans ?_
    all_goals with_unfolding_all rfl
  have member : [.compound (.ofClasses ["p", "a", "c"])] ∈ result := by simp [computed]
  refine ⟨member, ((classes_closed_iff rules [["a", "p"]]).2 _ member _ (List.mem_cons_self ..)
    (by simp)).2 (Or.inl ⟨["a", "p"], List.mem_singleton_self _, rules, ?_, ?_, ?_⟩)⟩
  · refine .cons (by simp [rules]) (by simp) (by decide) (.cons (by simp [rules]) (by simp)
      (by decide) ?_)
    have last : (["p", "a", "c"] : List String).toFinset =
        Rule.apply ⟨["b", "e"], ["a", "c"]⟩ (Rule.apply ⟨["a"], ["b", "e"]⟩
          (["a", "p"] : List String).toFinset) := by decide
    rw [last]
    exact .nil
  · exact once_iff.mpr (by decide)
  · exact Or.inr ⟨[], _, _, rfl, rfl, Or.inr ⟨by decide, trivial⟩⟩

/-- One class stands beside a target that is used, and makes another target together with what the
first brings, which brings the first target back: what a second use would give is not matched. -/
theorem classes_not_closed :
    let rules : List Rule := [⟨["a"], ["b"]⟩, ⟨["b", "p"], ["a", "q"]⟩]
    let result := Selector.extend (mapOf rules) (selectorOf [["a", "p"]])
    [.compound (.ofClasses ["a", "q"])] ∈ result ∧ ¬ ClosedAt result ⟨["a"], ["b"]⟩ ["a", "q"] := by
  intro rules result
  have computed : result = [[.compound (.ofClasses ["a", "p"])],
      [.compound (.ofClasses ["p", "b"])], [.compound (.ofClasses ["a", "q"])]] := by
    have first : (mapOf rules).get (Compound.ofClasses ["a", "p"]).members =
        [entryOf ⟨["a"], ["b"]⟩ 0] :=
      (get_mapOf _ _).trans (by with_unfolding_all rfl)
    have second : (mapOf rules).get (Compound.ofClasses ["p", "b"]).members =
        [entryOf ⟨["b", "p"], ["a", "q"]⟩ 1] :=
      (get_mapOf _ _).trans (by with_unfolding_all rfl)
    have again : (mapOf rules).get (Compound.ofClasses ["a", "q"]).members =
        [entryOf ⟨["a"], ["b"]⟩ 0] :=
      (get_mapOf _ _).trans (by with_unfolding_all rfl)
    refine (extend_of_cycle (by with_unfolding_all rfl) first ?_ second ?_ again
      (d := .ofClasses ["q", "b"]) ?_).trans ?_
    all_goals with_unfolding_all rfl
  refine ⟨by simp [computed], ?_⟩
  rintro ⟨names, member, covers⟩
  rw [isSuperselector_ofClasses] at covers
  simp only [computed, List.mem_cons, List.cons.injEq, Component.compound.injEq, ofClasses_inj,
    and_true, List.not_mem_nil, or_false] at member
  rcases member with rfl | rfl | rfl
  · exact absurd covers (by decide)
  · exact absurd covers (by decide)
  · exact absurd covers (by decide)

end Result

end Extend

end Stylesheet
