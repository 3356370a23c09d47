import Stylesheet.Proofs.Selector.Equality
import Stylesheet.Selector.Unify

/-! Unification is intersection: an element meets the unified compound exactly if it meets both
sides, and where there is no unified compound no element does. -/

namespace Stylesheet

/-- An element as one compound sees it: one name, one namespace, at most one identifier, and any
truth for all other conditions. Equal conditions have the same truth. -/
structure Subject where
  name : String
  /-- The empty text for an element in no namespace. -/
  namespaceName : String
  id : Option String
  holds : Simple → Prop
  holds_of_beq : (a == b) = true → holds a → holds b

namespace Subject

/-- A selector without a namespace, or with `*` for it, allows any; an empty one means none. -/
def Allows (e : Subject) (ns : Option String) : Prop :=
  ns = none ∨ ns = some "*" ∨ ns = some e.namespaceName

/-- Whether a simple selector matches the element. -/
def Has (e : Subject) : Simple → Prop
  | .element name ns => name = e.name ∧ e.Allows ns
  | .universal ns => e.Allows ns
  | .id name => e.id = some name
  | s => e.holds s

def HasAll (e : Subject) (conditions : List Simple) : Prop :=
  ∀ s ∈ conditions, e.Has s

def Meets (e : Subject) (c : Compound) : Prop :=
  e.HasAll c.members

variable {e : Subject}

theorem has_of_beq {a b : Simple} (same : (a == b) = true) (has : e.Has a) : e.Has b := by
  cases a with
  | selectorPseudo name argument =>
    cases b with
    | selectorPseudo => exact e.holds_of_beq same has
    | _ =>
      change Simple.equals _ _ = true at same
      simp [Simple.equals] at same
  | _ =>
    cases Simple.eq_of_equals (by simp) same
    exact has

@[simp] theorem hasAll_nil : e.HasAll [] := by
  simp [HasAll]

@[simp] theorem hasAll_cons (s : Simple) (others : List Simple) :
    e.HasAll (s :: others) ↔ e.Has s ∧ e.HasAll others := by
  simp [HasAll]

theorem hasAll_append (first second : List Simple) :
    e.HasAll (first ++ second) ↔ e.HasAll first ∧ e.HasAll second := by
  simp only [HasAll, List.mem_append]
  exact ⟨fun all => ⟨fun s member => all s (.inl member), fun s member => all s (.inr member)⟩,
    fun both s member => member.elim (both.1 s) (both.2 s)⟩

theorem has_of_contains {s : Simple} {others : List Simple} (known : others.contains s = true)
    (all : e.HasAll others) : e.Has s := by
  obtain ⟨other, member, same⟩ := List.contains_iff_exists_mem_beq.mp known
  exact has_of_beq (BEq.symm same) (all other member)

/-- The common namespace, if there is one, allows exactly what both allow. -/
theorem allows_unifyNamespaces (a b : Option String) :
    (∃ ns ∈ unifyNamespaces a b, e.Allows ns) ↔ e.Allows a ∧ e.Allows b := by
  have any : e.Allows none := .inl rfl
  have star : e.Allows (some "*") := .inr (.inl rfl)
  unfold unifyNamespaces
  cases a with
  | none =>
    by_cases isAny : b = some "*"
    · simp [isAny, any, star]
    · simp [isAny, any]
  | some m =>
    by_cases isAny : m = "*"
    · subst isAny
      simp [star]
    · cases b with
      | none => simp [isAny, any]
      | some n =>
        by_cases isAny' : n = "*"
        · subst isAny'
          simp [isAny, star]
        · by_cases same : m = n
          · subst same
            simp [isAny]
          · -- two different namespaces, and an element has only one
            have apart : ¬ (m = e.namespaceName ∧ n = e.namespaceName) := fun both =>
              same (both.1.trans both.2.symm)
            simpa [Allows, isAny, isAny', same] using apart

section Insert

theorem hasAll_insertBefore (p : Simple → Bool) (s : Simple) (others : List Simple) :
    e.HasAll (Simple.insertBefore p s others) ↔ e.Has s ∧ e.HasAll others := by
  induction others with
  | nil => simp [Simple.insertBefore]
  | cons other rest ih =>
    rw [Simple.insertBefore]
    split
    · simp
    · rw [hasAll_cons, ih, hasAll_cons]
      exact and_left_comm

theorem hasAll_insertInto (s : Simple) (others : List Simple) :
    e.HasAll (s.insertInto others) ↔ e.Has s ∧ e.HasAll others := by
  unfold Simple.insertInto
  split
  · rename_i known
    exact ⟨fun all => ⟨has_of_contains known all, all⟩, And.right⟩
  · exact hasAll_insertBefore _ s others

/-- A compound meets an added condition too, also where it drops a repetition. -/
theorem meets_insert (c : Compound) (s : Simple) : e.Meets (c.insert s) ↔ e.Meets c ∧ e.Has s := by
  obtain ⟨base, rest⟩ := c
  unfold Compound.insert
  split
  · rename_i first
    simp only [Bool.and_eq_true, Option.isNone_iff_eq_none, List.isEmpty_iff] at first
    obtain ⟨⟨_, rfl⟩, rfl⟩ : (s.isBase = true ∧ base = none) ∧ rest = [] := first
    simp [Meets, Compound.members, Compound.base, Compound.rest]
  · split
    · rename_i known
      refine ⟨fun meets => ⟨meets, has_of_contains known ?_⟩, And.left⟩
      exact ((hasAll_append _ _).mp meets).2
    · simp [Meets, Compound.members, Compound.base, Compound.rest, hasAll_append, and_assoc]

theorem meets_foldl_insert (c : Compound) (conditions : List Simple) :
    e.Meets (conditions.foldl Compound.insert c) ↔ e.Meets c ∧ e.HasAll conditions := by
  induction conditions generalizing c with
  | nil => simp
  | cons s rest ih => rw [List.foldl_cons, ih, meets_insert, hasAll_cons, and_assoc]

theorem meets_ofMembers (conditions : List Simple) :
    e.Meets (Compound.ofMembers conditions) ↔ e.HasAll conditions := by
  have empty : e.Meets .empty := by
    simp [Meets, Compound.members, Compound.empty, Compound.base, Compound.rest]
  rw [Compound.ofMembers, meets_foldl_insert]
  exact and_iff_right empty

end Insert

section Step

/-- Names and `*` merge with the one in front: `head` is what the two give together. -/
private theorem hasAll_merged {s first : Simple} {rest : List Simple} {a b : Option String}
    {head : Option String → Simple}
    (merges : (∃ ns ∈ unifyNamespaces a b, e.Has (head ns)) ↔ e.Has s ∧ e.Has first) :
    (∃ items, (unifyNamespaces a b >>= fun ns => some (head ns :: rest)) = some items ∧
      e.HasAll items) ↔ e.Has s ∧ e.HasAll (first :: rest) := by
  rw [hasAll_cons, ← and_assoc, ← merges]
  simp only [Option.bind_eq_bind, Option.bind_eq_some_iff, Option.some.injEq]
  constructor
  · rintro ⟨_, ⟨ns, found, rfl⟩, all⟩
    obtain ⟨has, rest⟩ := (hasAll_cons _ _).mp all
    exact ⟨⟨ns, found, has⟩, rest⟩
  · rintro ⟨⟨ns, found, has⟩, rest⟩
    exact ⟨_, ⟨ns, found, rfl⟩, (hasAll_cons _ _).mpr ⟨has, rest⟩⟩

theorem hasAll_unifyUniversal (ns : Option String) (others : List Simple) :
    (∃ items, Simple.unifyUniversal ns others = some items ∧ e.HasAll items) ↔
      e.Has (.universal ns) ∧ e.HasAll others := by
  unfold Simple.unifyUniversal
  split
  · rename_i ns' rest
    exact hasAll_merged (allows_unifyNamespaces ns ns')
  · rename_i name ns' rest
    apply hasAll_merged
    have spaces := allows_unifyNamespaces (e := e) ns ns'
    simp only [Has] at spaces ⊢
    grind
  · split
    · simp
    · -- `*` says nothing where another condition stands
      rename_i plain
      have any : e.Has (.universal ns) := by
        cases ns with
        | none => exact .inl rfl
        | some n =>
          simp at plain
          exact .inr (.inl (by rw [plain.1]))
      simp [any]

theorem hasAll_unifyElement (name : String) (ns : Option String) (others : List Simple) :
    (∃ items, Simple.unifyElement name ns others = some items ∧ e.HasAll items) ↔
      e.Has (.element name ns) ∧ e.HasAll others := by
  unfold Simple.unifyElement
  split
  · rename_i ns' rest
    apply hasAll_merged
    have spaces := allows_unifyNamespaces (e := e) ns ns'
    simp only [Has] at spaces ⊢
    grind
  · rename_i name' ns' rest
    split
    · rename_i different
      simp only [hasAll_cons, Has]
      grind
    · rename_i same
      apply hasAll_merged
      have spaces := allows_unifyNamespaces (e := e) ns ns'
      simp only [Has] at spaces ⊢
      grind
  · simp

/-- One condition is added, or none is left that could hold. -/
theorem hasAll_unify (s : Simple) (others : List Simple) :
    (∃ items, s.unify others = some items ∧ e.HasAll items) ↔ e.Has s ∧ e.HasAll others := by
  have inserted : (∃ items, some (s.insertInto others) = some items ∧ e.HasAll items) ↔
      e.Has s ∧ e.HasAll others := by
    simp [hasAll_insertInto]
  cases s with
  | universal ns => exact hasAll_unifyUniversal ns others
  | element name ns => exact hasAll_unifyElement name ns others
  | id name =>
    rw [Simple.unify]
    split
    · rename_i conflict
      obtain ⟨other, member, differs⟩ := List.any_eq_true.mp conflict
      cases other with
      | id other =>
        have unequal : other ≠ name := by simpa [Simple.isOtherId] using differs
        have impossible : ¬ (e.Has (.id name) ∧ e.HasAll others) := by
          rintro ⟨own, all⟩
          have both : some name = some other := own.symm.trans (all _ member)
          exact unequal (Option.some.inj both).symm
        simp [impossible]
      | _ => simp [Simple.isOtherId] at differs
    · exact inserted
  | _ => exact inserted

theorem hasAll_foldlM_unify (conditions others : List Simple) :
    (∃ items, conditions.foldlM (fun found s => Simple.unify s found) others = some items ∧
      e.HasAll items) ↔ e.HasAll conditions ∧ e.HasAll others := by
  induction conditions generalizing others with
  | nil => simp
  | cons s rest ih =>
    simp only [List.foldlM_cons, Option.bind_eq_bind, Option.bind_eq_some_iff]
    calc (∃ items, (∃ found, s.unify others = some found ∧
            rest.foldlM (fun found s => Simple.unify s found) found = some items) ∧
            e.HasAll items)
        ↔ ∃ found, s.unify others = some found ∧ (e.HasAll rest ∧ e.HasAll found) := by
          simp only [← ih]
          grind
      _ ↔ e.HasAll rest ∧ (e.Has s ∧ e.HasAll others) := by
          rw [← hasAll_unify]
          grind
      _ ↔ e.HasAll (s :: rest) ∧ e.HasAll others := by
          rw [hasAll_cons]
          grind

theorem meets_unify (c : Compound) (others : List Simple) :
    (∃ u, c.unify others = some u ∧ e.Meets u) ↔ e.Meets c ∧ e.HasAll others := by
  rw [Meets, ← hasAll_foldlM_unify]
  simp only [Compound.unify, Option.map_eq_some_iff]
  constructor
  · rintro ⟨_, ⟨items, found, rfl⟩, meets⟩
    exact ⟨items, found, (meets_ofMembers items).mp meets⟩
  · rintro ⟨items, found, all⟩
    exact ⟨_, ⟨items, found, rfl⟩, (meets_ofMembers items).mpr all⟩

end Step

end Subject

/-- Unification is exact, wherever names, `*` and `&` stand on the two sides: an element meets the
unified compound if and only if it meets both, and if there is none no element meets both. -/
theorem Compound.unify_iff_meets_both (c : Compound) (others : List Simple) :
    (∀ u, c.unify others = some u →
      ∀ e : Subject, e.Meets u ↔ e.Meets c ∧ e.HasAll others) ∧
    (c.unify others = none → ∀ e : Subject, ¬ (e.Meets c ∧ e.HasAll others)) := by
  constructor
  · intro u unified e
    rw [← Subject.meets_unify, unified]
    simp
  · intro refused e both
    obtain ⟨u, unified, _⟩ := (Subject.meets_unify c others).mpr both
    rw [refused] at unified
    cases unified

/-- `svg|*#a` with `*|circle:hover` gives `svg|circle#a:hover`, and with `#b` gives nothing. -/
theorem Compound.unify_iff_meets_both_of_namespaces :
    let c : Compound := .mk (some (.universal (some "svg"))) [.id "a"]
    let hover : Simple := .pseudo .ofClass "hover" none
    let u : Compound := .mk (some (.element "circle" (some "svg"))) [.id "a", hover]
    (∀ e : Subject, e.Meets u ↔ e.Meets c ∧ e.HasAll [.element "circle" (some "*"), hover]) ∧
      ∀ e : Subject, ¬ (e.Meets c ∧ e.HasAll [.id "b"]) := by
  intro c hover u
  have unified : c.unify [.element "circle" (some "*"), hover] = some u := by
    with_unfolding_all rfl
  have refused : c.unify [.id "b"] = none := by with_unfolding_all rfl
  exact ⟨(c.unify_iff_meets_both _).1 u unified, (c.unify_iff_meets_both _).2 refused⟩

end Stylesheet
