import Mathlib.Data.List.ProdSigma
import Stylesheet.Proofs.Except
import Stylesheet.Proofs.Selector.RoundTrip
import Stylesheet.Selector.Parent

/-! Where `&` is resolved, and where it stays. The `&` that stands first in a compound is replaced by
the enclosing chain, for each enclosing chain in turn. One in the argument of a pseudo-class is not
looked for: it neither needs an enclosing selector nor is it replaced by one. -/

namespace Stylesheet

/-- `&` stands in a simple selector, however deep in arguments. -/
inductive Simple.RefersToParent : Simple → Prop where
  | here : RefersToParent .parent
  | inside {name : String} {argument : Selector} {chain : Chain} {c : Compound} {s : Simple}
      (listed : chain ∈ argument) (part : .compound c ∈ chain) (member : s ∈ c.members)
      (refers : RefersToParent s) : RefersToParent (.selectorPseudo name argument)

namespace Compound

def RefersToParent (c : Compound) : Prop :=
  ∃ s ∈ c.members, s.RefersToParent

/-- The conditions besides an `&` in front. -/
def others (c : Compound) : List Simple :=
  if c.hasParentRef then c.rest else c.members

/-- `&` stands elsewhere than in front. -/
def HidesParent (c : Compound) : Prop :=
  ∃ s ∈ c.others, s.RefersToParent

/-- More conditions follow an `&` in front. -/
def ExtendsParent (c : Compound) : Prop :=
  c.hasParentRef = true ∧ c.rest ≠ []

end Compound

namespace Chain

def RefersToParent (chain : Chain) : Prop :=
  ∃ c, .compound c ∈ chain ∧ c.RefersToParent

def HidesParent (chain : Chain) : Prop :=
  ∃ c, .compound c ∈ chain ∧ c.HidesParent

def ExtendsParent (chain : Chain) : Prop :=
  ∃ c, .compound c ∈ chain ∧ c.ExtendsParent

def EndsInCombinator (chain : Chain) : Prop :=
  ∃ k, chain.getLast? = some (.combinator k)

end Chain

namespace Selector

def RefersToParent (selector : Selector) : Prop :=
  ∃ chain ∈ selector, Chain.RefersToParent chain

def HidesParent (selector : Selector) : Prop :=
  ∃ chain ∈ selector, Chain.HidesParent chain

/-- `&` stands in the argument of a pseudo-class. -/
def HasParentInArgument (selector : Selector) : Prop :=
  ∃ chain ∈ selector, ∃ c, .compound c ∈ chain ∧ ∃ name argument,
    .selectorPseudo name argument ∈ c.rest ∧ RefersToParent argument

end Selector

section Equality

/-- Equal lists have an equal item for each one. -/
theorem Chain.exists_of_equals {chain other : Chain} (same : Chain.equals chain other = true)
    {part : Component} (member : part ∈ chain) :
    ∃ found ∈ other, Component.equals part found = true := by
  induction chain generalizing other with
  | nil => cases member
  | cons first rest ih =>
    cases other with
    | nil => simp [Chain.equals] at same
    | cons second others =>
      rw [Chain.equals, Bool.and_eq_true] at same
      rcases List.mem_cons.mp member with rfl | later
      · exact ⟨second, List.mem_cons_self, same.1⟩
      · obtain ⟨found, listed, equal⟩ := ih same.2 later
        exact ⟨found, List.mem_cons_of_mem _ listed, equal⟩

theorem Selector.exists_of_equals {selector other : Selector}
    (same : Selector.equals selector other = true) {chain : Chain} (member : chain ∈ selector) :
    ∃ found ∈ other, Chain.equals chain found = true := by
  induction selector generalizing other with
  | nil => cases member
  | cons first rest ih =>
    cases other with
    | nil => simp [Selector.equals] at same
    | cons second others =>
      rw [Selector.equals, Bool.and_eq_true] at same
      rcases List.mem_cons.mp member with rfl | later
      · exact ⟨second, List.mem_cons_self, same.1⟩
      · obtain ⟨found, listed, equal⟩ := ih same.2 later
        exact ⟨found, List.mem_cons_of_mem _ listed, equal⟩

theorem Compound.exists_of_equals {c d : Compound} (same : Compound.equals c d = true) {s : Simple}
    (member : s ∈ c.members) : ∃ t ∈ d.members, Simple.equals s t = true := by
  obtain ⟨base, rest⟩ := c
  obtain ⟨other, others⟩ := d
  cases base with
  | none =>
    cases other with
    | none => exact ((Compound.equals_none_iff rest others).mp same).1 s member
    | some b => simp [Compound.equals] at same
  | some a =>
    cases other with
    | none => simp [Compound.equals] at same
    | some b =>
      obtain ⟨first, set⟩ := (Compound.equals_some_iff a b rest others).mp same
      rcases List.mem_cons.mp member with rfl | later
      · exact ⟨b, List.mem_cons_self, first⟩
      · obtain ⟨t, found, equal⟩ := set.1 s later
        exact ⟨t, List.mem_cons_of_mem _ found, equal⟩

/-- What is equal to a simple selector with `&` has one as well. -/
theorem Simple.RefersToParent.of_equals {s t : Simple} (refers : s.RefersToParent)
    (same : Simple.equals s t = true) : t.RefersToParent := by
  induction refers generalizing t with
  | here =>
    cases t with
    | parent => exact .here
    | _ => simp [Simple.equals] at same
  | inside listed part member _ ih =>
    cases t with
    | selectorPseudo name argument =>
      rw [Simple.equals, Bool.and_eq_true] at same
      obtain ⟨chain, listed, chains⟩ := Selector.exists_of_equals same.2 listed
      obtain ⟨component, part, parts⟩ := Chain.exists_of_equals chains part
      cases component with
      | combinator k => simp [Component.equals] at parts
      | compound d =>
        rw [Component.equals] at parts
        obtain ⟨t, member, simples⟩ := Compound.exists_of_equals parts member
        exact .inside listed part member (ih simples)
    | _ => simp [Simple.equals] at same

end Equality

section Compounds

variable {c : Compound}

theorem Compound.refersToParent_iff : c.RefersToParent ↔ c.hasParentRef = true ∨ c.HidesParent := by
  unfold RefersToParent HidesParent others
  obtain ⟨base, rest⟩ := c
  by_cases first : (Compound.mk base rest).hasParentRef = true
  · rw [if_pos first]
    refine iff_of_true ?_ (.inl first)
    unfold hasParentRef at first
    split at first
    · rename_i isParent
      exact ⟨.parent, by simp [members, isParent], .here⟩
    · cases first
  · rw [if_neg first]
    exact ⟨.inr, fun either => either.resolve_left first⟩

/-- Adding a simple selector brings `&` in exactly if it has one. -/
theorem Compound.refersToParent_insert (c : Compound) (s : Simple) :
    (c.insert s).RefersToParent ↔ c.RefersToParent ∨ s.RefersToParent := by
  obtain ⟨base, rest⟩ := c
  unfold insert
  split
  · rename_i fits
    simp only [Bool.and_eq_true, Option.isNone_iff_eq_none, List.isEmpty_iff] at fits
    obtain ⟨⟨-, rfl⟩, rfl⟩ : (_ ∧ base = none) ∧ rest = [] := fits
    simp [RefersToParent, members, Compound.base, Compound.rest]
  · split
    · rename_i known
      obtain ⟨t, member, same⟩ := List.contains_iff_exists_mem_beq.mp known
      refine ⟨.inl, fun either => either.elim id fun refers => ?_⟩
      exact ⟨t, List.mem_append_right _ member, refers.of_equals same⟩
    · simp only [RefersToParent, members, Compound.base, Compound.rest, List.mem_append,
        List.mem_singleton]
      constructor
      · rintro ⟨t, first | later | rfl, refers⟩
        · exact .inl ⟨t, .inl first, refers⟩
        · exact .inl ⟨t, .inr later, refers⟩
        · exact .inr refers
      · rintro (⟨t, first | later, refers⟩ | refers)
        · exact ⟨t, .inl first, refers⟩
        · exact ⟨t, .inr (.inl later), refers⟩
        · exact ⟨s, .inr (.inr rfl), refers⟩

theorem Compound.refersToParent_foldl_insert (c : Compound) (items : List Simple) :
    (items.foldl insert c).RefersToParent ↔
      c.RefersToParent ∨ ∃ s ∈ items, s.RefersToParent := by
  induction items generalizing c with
  | nil => simp
  | cons s rest ih =>
    rw [List.foldl_cons, ih, refersToParent_insert, or_assoc, List.exists_mem_cons_iff]

/-- A compound refers to the enclosing selector exactly if what it is made of does. -/
theorem Compound.refersToParent_ofMembers (items : List Simple) :
    (Compound.ofMembers items).RefersToParent ↔ ∃ s ∈ items, s.RefersToParent := by
  rw [ofMembers, refersToParent_foldl_insert]
  simp [RefersToParent, members, empty, Compound.base, Compound.rest]

end Compounds

section Chains

variable {outer chain result : Chain} {c : Compound}

theorem Chain.refersToParent_append (first second : Chain) :
    Chain.RefersToParent (first ++ second) ↔
      Chain.RefersToParent first ∨ Chain.RefersToParent second := by
  simp only [RefersToParent, List.mem_append, or_and_right, exists_or]

theorem Chain.refersToParent_compound (c : Compound) (rest : Chain) :
    Chain.RefersToParent (.compound c :: rest) ↔ c.RefersToParent ∨ Chain.RefersToParent rest := by
  simp [RefersToParent, or_and_right, exists_or]

theorem Chain.refersToParent_combinator (k : Combinator) (rest : Chain) :
    Chain.RefersToParent (.combinator k :: rest) ↔ Chain.RefersToParent rest := by
  simp [RefersToParent]

/-- A compound is resolved unless it adds conditions to the end of the enclosing chain, which is no
compound. -/
theorem Compound.resolveParent_ok_iff (c : Compound) (filled : outer ≠ []) :
    (∃ piece, c.resolveParent outer = .ok piece) ↔ ¬ (outer.EndsInCombinator ∧ c.ExtendsParent) := by
  unfold resolveParent Chain.EndsInCombinator ExtendsParent
  cases first : c.hasParentRef with
  | false => simp
  | true =>
    by_cases alone : c.rest = []
    · simp [alone]
    · cases last : outer.getLast? with
      | none => exact absurd (List.getLast?_eq_none_iff.mp last) filled
      | some part => cases part <;> simp [alone]

/-- The `&` in front of a compound is gone, and any other one is still there. -/
theorem Compound.refersToParent_resolveParent {piece : Chain}
    (resolved : c.resolveParent outer = .ok piece) (free : ¬ Chain.RefersToParent outer) :
    Chain.RefersToParent piece ↔ c.HidesParent := by
  unfold resolveParent at resolved
  split at resolved
  · rename_i without
    cases resolved
    rw [Bool.not_eq_true'] at without
    rw [Chain.refersToParent_compound, refersToParent_iff, without]
    simp [Chain.RefersToParent]
  · rename_i first
    have first : c.hasParentRef = true := by simpa using first
    split at resolved
    · rename_i alone
      cases resolved
      refine iff_of_false free ?_
      simp [HidesParent, others, first, List.isEmpty_iff.mp alone]
    · split at resolved
      · rename_i last found
        cases resolved
        obtain ⟨init, rfl⟩ := List.getLast?_eq_some_iff.mp found
        rw [Chain.refersToParent_append, Chain.refersToParent_compound] at free
        rw [List.dropLast_concat, Chain.refersToParent_append, Chain.refersToParent_compound,
          refersToParent_ofMembers]
        have before : ¬ Chain.RefersToParent init := fun refers => free (.inl refers)
        have inLast : ¬ ∃ s ∈ last.members, s.RefersToParent := fun refers => free (.inr (.inl refers))
        simp only [before, false_or, List.mem_append, or_and_right, exists_or, inLast]
        simp [Chain.RefersToParent, HidesParent, others, first]
      · cases resolved

theorem Chain.resolveComponents_ok_iff (chain : Chain) (filled : outer ≠ []) :
    (∃ result, Chain.resolveComponents outer chain = .ok result) ↔
      ¬ (outer.EndsInCombinator ∧ chain.ExtendsParent) := by
  induction chain with
  | nil => simp [resolveComponents, ExtendsParent]
  | cons part rest ih =>
    cases part with
    | combinator k =>
      have same : Chain.ExtendsParent (.combinator k :: rest) ↔ Chain.ExtendsParent rest := by
        simp [ExtendsParent]
      rw [same, ← ih, resolveComponents]
      cases resolveComponents outer rest <;> simp [bind, Except.bind]
    | compound c =>
      have either : Chain.ExtendsParent (.compound c :: rest) ↔
          c.ExtendsParent ∨ Chain.ExtendsParent rest := by
        simp [ExtendsParent, or_and_right, exists_or]
      rw [either, and_or_left, not_or, ← ih, ← c.resolveParent_ok_iff filled, resolveComponents]
      cases c.resolveParent outer <;> cases resolveComponents outer rest <;>
        simp [bind, Except.bind]

theorem Chain.refersToParent_resolveComponents
    (resolved : Chain.resolveComponents outer chain = .ok result)
    (free : ¬ Chain.RefersToParent outer) :
    Chain.RefersToParent result ↔ chain.HidesParent := by
  induction chain generalizing result with
  | nil =>
    cases resolved
    simp [RefersToParent, HidesParent]
  | cons part rest ih =>
    cases part with
    | combinator k =>
      rw [resolveComponents] at resolved
      obtain ⟨tail, isTail, isResult⟩ := exists_of_bind_ok resolved
      cases isResult
      rw [refersToParent_combinator, ih isTail]
      simp [HidesParent]
    | compound c =>
      rw [resolveComponents] at resolved
      obtain ⟨head, isHead, resolved⟩ := exists_of_bind_ok resolved
      obtain ⟨tail, isTail, isResult⟩ := exists_of_bind_ok resolved
      cases isResult
      rw [refersToParent_append, c.refersToParent_resolveParent isHead free, ih isTail]
      simp [HidesParent, or_and_right, exists_or]

theorem Chain.hasParentRef_iff :
    chain.hasParentRef = true ↔ ∃ c, .compound c ∈ chain ∧ c.hasParentRef = true := by
  unfold hasParentRef
  rw [List.any_eq_true]
  constructor
  · rintro ⟨part, member, here⟩
    cases part with
    | combinator k => cases here
    | compound c => exact ⟨c, member, here⟩
  · rintro ⟨c, member, here⟩
    exact ⟨.compound c, member, here⟩

theorem Chain.refersToParent_iff :
    Chain.RefersToParent chain ↔ chain.hasParentRef = true ∨ chain.HidesParent := by
  rw [hasParentRef_iff]
  unfold RefersToParent HidesParent
  simp only [Compound.refersToParent_iff, and_or_left, exists_or]

theorem Chain.resolveParent_ok_iff (chain : Chain) (filled : outer ≠ []) :
    (∃ result, Chain.resolveParent outer chain = .ok result) ↔
      ¬ (outer.EndsInCombinator ∧ chain.ExtendsParent) := by
  unfold resolveParent
  split
  · exact resolveComponents_ok_iff chain filled
  · rename_i without
    refine iff_of_true ⟨_, rfl⟩ fun ⟨_, c, member, more⟩ => without ?_
    exact hasParentRef_iff.mpr ⟨c, member, more.1⟩

/-- A chain keeps the `&` that stand elsewhere than in front of a compound, and no other. -/
theorem Chain.refersToParent_resolveParent (resolved : Chain.resolveParent outer chain = .ok result)
    (free : ¬ Chain.RefersToParent outer) : Chain.RefersToParent result ↔ chain.HidesParent := by
  unfold resolveParent at resolved
  split at resolved
  · exact refersToParent_resolveComponents resolved free
  · rename_i without
    cases resolved
    rw [refersToParent_append, or_iff_right free, refersToParent_iff, or_iff_right without]

end Chains

section Read

variable {s : Simple} {c : Compound} {selector : Selector}

theorem Simple.refersToParent_of_spelled (spelled : s.Spelled) :
    s.RefersToParent ↔
      ∃ name argument, s = .selectorPseudo name argument ∧ Selector.RefersToParent argument := by
  constructor
  · intro refers
    cases refers with
    | here => exact spelled.elim
    | inside listed part member refers =>
      exact ⟨_, _, rfl, _, listed, _, part, _, member, refers⟩
  · rintro ⟨name, argument, rfl, chain, listed, c, part, s, member, refers⟩
    exact .inside listed part member refers

theorem Simple.not_refersToParent_of_base (spelled : Selector.BaseSpelled s)
    (other : s ≠ .parent) : ¬ s.RefersToParent := by
  rintro (_ | _)
  · exact other rfl
  · rcases spelled with isParent | qualified | ⟨w, isElement, -⟩
    · cases isParent
    · exact qualified
    · cases isElement

/-- In a compound that was read `&` stands in front or in an argument. -/
theorem Compound.hidesParent_of_spelled (spelled : c.Spelled) :
    c.HidesParent ↔ ∃ name argument, .selectorPseudo name argument ∈ c.rest ∧
      Selector.RefersToParent argument := by
  obtain ⟨base, rest⟩ := c
  obtain ⟨bases, areSpelled, -⟩ := spelled
  have areSpelled := Selector.allSpelled_iff.mp areSpelled
  have inRest : (∃ s ∈ rest, s.RefersToParent) ↔ ∃ name argument,
      .selectorPseudo name argument ∈ rest ∧ Selector.RefersToParent argument := by
    constructor
    · rintro ⟨s, member, refers⟩
      obtain ⟨name, argument, rfl, inside⟩ :=
        (Simple.refersToParent_of_spelled (areSpelled s member)).mp refers
      exact ⟨name, argument, member, inside⟩
    · rintro ⟨name, argument, member, inside⟩
      exact ⟨_, member, (Simple.refersToParent_of_spelled (areSpelled _ member)).mpr
        ⟨name, argument, rfl, inside⟩⟩
  refine Iff.trans ?_ inRest
  unfold HidesParent others
  split
  · rfl
  · rename_i without
    cases base with
    | none => rfl
    | some b =>
      have other : b ≠ .parent := by
        rintro rfl
        exact without rfl
      have free := Simple.not_refersToParent_of_base (bases b rfl).1 other
      simp [members, Compound.base, Compound.rest, free]

theorem Chain.spelled_of_mem {chain : Chain} (spelled : Chain.AllSpelled chain)
    (member : .compound c ∈ chain) : c.Spelled := by
  induction chain with
  | nil => cases member
  | cons part rest ih =>
    cases part with
    | combinator k => exact ih spelled ((List.mem_cons.mp member).resolve_left nofun)
    | compound d =>
      rcases List.mem_cons.mp member with same | later
      · cases same
        exact spelled.1
      · exact ih spelled.2 later

theorem Selector.chain_of_mem (spelled : Selector.AllSpelled selector) {chain : Chain}
    (member : chain ∈ selector) : chain ≠ [] ∧ Chain.AllSpelled chain := by
  induction selector with
  | nil => cases member
  | cons first rest ih =>
    rcases List.mem_cons.mp member with rfl | later
    · exact ⟨spelled.1, spelled.2.1⟩
    · exact ih spelled.2.2 later

theorem Selector.hidesParent_of_parse {text : String} {line : Nat}
    (parsed : Selector.parse text line = .ok selector) :
    selector.HidesParent ↔ selector.HasParentInArgument := by
  have spelled := (spelled_of_parse parsed).2
  refine exists_congr fun chain => and_congr_right fun listed => ?_
  have each := (Selector.chain_of_mem spelled listed).2
  exact exists_congr fun c => and_congr_right fun part =>
    Compound.hidesParent_of_spelled (Chain.spelled_of_mem each part)

end Read

namespace Selector

theorem refersToParent_iff {selector : Selector} :
    selector.RefersToParent ↔ selector.hasParentRef = true ∨ selector.HidesParent := by
  unfold hasParentRef
  simp only [RefersToParent, HidesParent, Chain.refersToParent_iff, List.any_eq_true, and_or_left,
    exists_or]

theorem resolveParent_some (parent selector : Selector) :
    resolveParent (some parent) selector =
      (parent.product selector).mapM fun pair => Chain.resolveParent pair.1 pair.2 := rfl

variable {parent selector result : Selector}

theorem exists_resolveParent_iff (filled : [] ∉ parent) :
    (∃ result, resolveParent (some parent) selector = .ok result) ↔
      ¬ ∃ outer ∈ parent, outer.EndsInCombinator ∧ ∃ chain ∈ selector, chain.ExtendsParent := by
  have ofPair (outer : Chain) (member : outer ∈ parent) (chain : Chain) :
      (∃ result, Chain.resolveParent outer chain = .ok result) ↔
        ¬ (outer.EndsInCombinator ∧ chain.ExtendsParent) :=
    Chain.resolveParent_ok_iff chain fun empty => filled (empty ▸ member)
  rw [resolveParent_some, exists_mapM_ok_iff]
  constructor
  · rintro all ⟨outer, member, ends, chain, listed, more⟩
    exact (ofPair outer member chain).mp (all (outer, chain) (List.mem_product.mpr ⟨member, listed⟩))
      ⟨ends, more⟩
  · rintro none ⟨outer, chain⟩ pair
    obtain ⟨member, listed⟩ := List.mem_product.mp pair
    refine (ofPair outer member chain).mpr fun ⟨ends, more⟩ => none ?_
    exact ⟨outer, member, ends, chain, listed, more⟩

/-- What the chains of a result have, some chain of the selector had. -/
theorem refersToParent_of_pairs {pairs : List (Chain × Chain)}
    (free : ∀ pair ∈ pairs, ¬ Chain.RefersToParent pair.1)
    (resolved : List.Forall₂ (fun pair chain => Chain.resolveParent pair.1 pair.2 = .ok chain)
      pairs result) :
    result.RefersToParent ↔ ∃ pair ∈ pairs, Chain.HidesParent pair.2 := by
  unfold RefersToParent
  induction resolved with
  | nil => simp
  | cons first _ ih =>
    rw [List.forall_mem_cons] at free
    rw [List.exists_mem_cons_iff, List.exists_mem_cons_iff, ih free.2,
      Chain.refersToParent_resolveParent first free.1]

/-- Under an enclosing selector without `&` a selector that was read becomes a chain for each pair of
chains, in order, unless an enclosing chain ends in a combinator where conditions follow `&`. The
`&` that are left are those in the arguments of pseudo-classes; nor are these missed where there is
no enclosing selector. -/
theorem resolveParent_refersToParent_iff {text : String} {line : Nat} {selector parent : Selector}
    (parsed : Selector.parse text line = .ok selector) (listed : parent ≠ []) (filled : [] ∉ parent)
    (free : ¬ parent.RefersToParent) :
    ((∃ result, resolveParent (some parent) selector = .ok result) ↔
      ¬ ∃ outer ∈ parent, outer.EndsInCombinator ∧ ∃ chain ∈ selector, chain.ExtendsParent) ∧
    (∀ result, resolveParent (some parent) selector = .ok result →
      List.Forall₂ (fun pair chain => Chain.resolveParent pair.1 pair.2 = .ok chain)
        (parent.product selector) result ∧
      (result.RefersToParent ↔ selector.HasParentInArgument)) ∧
    (∀ result, resolveParent none selector = .ok result ↔
      result = selector ∧ selector.hasParentRef = false) ∧
    (selector.RefersToParent ↔ selector.hasParentRef = true ∨ selector.HasParentInArgument) := by
  rw [← hidesParent_of_parse parsed]
  refine ⟨?_, fun result resolved => ?_, fun result => ?_, refersToParent_iff⟩
  · exact exists_resolveParent_iff filled
  · rw [resolveParent_some, mapM_ok_iff] at resolved
    refine ⟨resolved, ?_⟩
    rw [refersToParent_of_pairs (fun pair member refers => ?_) resolved]
    · constructor
      · rintro ⟨⟨outer, chain⟩, pair, hides⟩
        exact ⟨chain, (List.mem_product.mp pair).2, hides⟩
      · rintro ⟨chain, member, hides⟩
        obtain ⟨outer, isOuter⟩ := List.exists_mem_of_ne_nil parent listed
        exact ⟨(outer, chain), List.mem_product.mpr ⟨isOuter, member⟩, hides⟩
    · exact free ⟨pair.1, (List.mem_product.mp member).1, refers⟩
  · rw [resolveParent]
    cases selector.hasParentRef <;> simp [eq_comm]

/-- `p` as a chain of its own, with a class behind it or not. -/
def paragraphs : Selector :=
  [[.compound (.mk (some (.element "p" none)) [])],
    [.compound (.mk (some (.element "p" none)) [.className "q"])]]

theorem not_refersToParent_paragraphs : ¬ paragraphs.RefersToParent := by
  rintro ⟨chain, listed, c, part, s, member, refers⟩
  simp only [paragraphs, List.mem_cons, List.not_mem_nil, or_false] at listed
  rcases listed with rfl | rfl
  · cases List.mem_singleton.mp part
    cases List.mem_singleton.mp member
    cases refers
  · cases List.mem_singleton.mp part
    rcases List.mem_pair.mp member with rfl | rfl <;> cases refers

/-- `&` with a class behind it, and in the argument of a pseudo-class behind that. -/
def classOfParent : Selector :=
  [[.compound (.mk (some .parent) [.className "a",
    .selectorPseudo "not" [[.compound (.mk (some .parent) [])]]])]]

theorem resolveParent_refersToParent_iff_of_class :
    Selector.parse "&.a:not(&)" 1 = .ok classOfParent ∧ paragraphs ≠ [] ∧ [] ∉ paragraphs ∧
    ¬ paragraphs.RefersToParent ∧
    ((∃ result, resolveParent (some paragraphs) classOfParent = .ok result) ↔
      ¬ ∃ outer ∈ paragraphs, outer.EndsInCombinator ∧
        ∃ chain ∈ classOfParent, chain.ExtendsParent) ∧
    (∀ result, resolveParent (some paragraphs) classOfParent = .ok result →
      List.Forall₂ (fun pair chain => Chain.resolveParent pair.1 pair.2 = .ok chain)
        (paragraphs.product classOfParent) result ∧
      (result.RefersToParent ↔ classOfParent.HasParentInArgument)) ∧
    (∀ result, resolveParent none classOfParent = .ok result ↔
      result = classOfParent ∧ classOfParent.hasParentRef = false) ∧
    (classOfParent.RefersToParent ↔
      classOfParent.hasParentRef = true ∨ classOfParent.HasParentInArgument) := by
  have parsed : Selector.parse "&.a:not(&)" 1 = .ok classOfParent := by with_unfolding_all rfl
  have listed : paragraphs ≠ [] := by simp [paragraphs]
  have filled : [] ∉ paragraphs := by simp [paragraphs]
  have free := not_refersToParent_paragraphs
  exact ⟨parsed, listed, filled, free, resolveParent_refersToParent_iff parsed listed filled free⟩

/-- `&` in the argument of a pseudo-class only. -/
def insideNot : Selector :=
  [[.compound (.mk none [.selectorPseudo "not" [[.compound (.mk (some .parent) [])]]])]]

/-- No enclosing selector is missed, and where there is one the `&` is left in the result. -/
theorem resolveParent_keeps_inside :
    Selector.parse ":not(&)" 1 = .ok insideNot ∧ insideNot.RefersToParent ∧
    resolveParent none insideNot = .ok insideNot ∧
    Selector.parse "p, p.q" 1 = .ok paragraphs ∧ ¬ paragraphs.RefersToParent ∧
    ∃ result, resolveParent (some paragraphs) insideNot = .ok result ∧ result.RefersToParent := by
  have inArgument : Simple.RefersToParent
      (.selectorPseudo "not" [[.compound (.mk (some .parent) [])]]) :=
    .inside List.mem_cons_self List.mem_cons_self List.mem_cons_self .here
  have refers : insideNot.RefersToParent :=
    ⟨_, List.mem_cons_self, _, List.mem_cons_self, _, List.mem_cons_self, inArgument⟩
  have parsed : Selector.parse ":not(&)" 1 = .ok insideNot := by with_unfolding_all rfl
  have outer : Selector.parse "p, p.q" 1 = .ok paragraphs := by with_unfolding_all rfl
  refine ⟨parsed, refers, rfl, outer, not_refersToParent_paragraphs, _, rfl, ?_⟩
  exact ⟨_, List.mem_cons_self, _, List.mem_cons_of_mem _ List.mem_cons_self, _,
    List.mem_cons_self, inArgument⟩

end Selector

end Stylesheet
