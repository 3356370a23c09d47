import Stylesheet.Proofs.Selector.Extension

/-! The meaning of chains over a tree of elements. A compound is met by an element of which all its
simple selectors hold; two neighbouring compounds are met by an ancestor and a descendant, and a
combinator between them says how else the two elements are related. -/

namespace Stylesheet

/-- Elements with their parents and the siblings right before them, and what holds of each. -/
structure ElementTree where
  Element : Type
  parent : Element → Option Element
  /-- The sibling right before an element. -/
  previous : Element → Option Element
  previous_parent : previous e = some f → parent f = parent e
  holds : Element → Simple → Prop
  holds_of_beq : (a == b) = true → holds e a → holds e b

namespace ElementTree

variable (tree : ElementTree)

/-- The first element is above the second. -/
inductive Ancestor : tree.Element → tree.Element → Prop where
  | parent (above : tree.parent e = some a) : Ancestor a e
  | further (above : tree.parent e = some f) (rest : Ancestor a f) : Ancestor a e

/-- The first element is an earlier sibling of the second. -/
inductive Precedes : tree.Element → tree.Element → Prop where
  | previous (before : tree.previous e = some a) : Precedes a e
  | further (before : tree.previous e = some f) (rest : Precedes a f) : Precedes a e

/-- How a combinator relates two elements. -/
def Related : Combinator → tree.Element → tree.Element → Prop
  | .child, a, e => tree.parent e = some a
  | .nextSibling, a, e => tree.previous e = some a
  | .followingSibling, a, e => tree.Precedes a e

def Meets (c : Compound) (e : tree.Element) : Prop :=
  ∀ s ∈ c.members, tree.holds e s

/-- The elements at which a chain can go on, if it starts at elements that satisfy `start`. -/
def Behind : (tree.Element → Prop) → Chain → tree.Element → Prop
  | start, [] => start
  | start, .compound c :: .combinator k :: rest =>
    Behind (fun e => ∃ a, tree.Related k a e ∧ tree.Meets c a ∧ start a) rest
  | start, .compound c :: rest =>
    Behind (fun e => ∃ a, tree.Ancestor a e ∧ tree.Meets c a ∧ start a) rest
  | start, .combinator k :: rest => Behind (fun e => ∃ a, tree.Related k a e ∧ start a) rest

/-- An element matches a chain if it meets the last compound and stands behind what comes before. -/
def Matches (chain : Chain) (e : tree.Element) : Prop :=
  ∃ before c, chain = before ++ [.compound c] ∧ tree.Meets c e ∧
    tree.Behind (fun _ => True) before e

theorem matches_append_iff (before : Chain) (c : Compound) (e : tree.Element) :
    tree.Matches (before ++ [.compound c]) e ↔
      tree.Meets c e ∧ tree.Behind (fun _ => True) before e := by
  constructor
  · rintro ⟨other, d, same, meets, behind⟩
    obtain ⟨rfl, last⟩ := List.append_inj' same rfl
    cases last
    exact ⟨meets, behind⟩
  · rintro ⟨meets, behind⟩
    exact ⟨before, c, rfl, meets, behind⟩

variable {tree}

/-- A superselector holds wherever the compound it is compared with does. -/
theorem meets_of_isSuperselector {c d : Compound} {e : tree.Element}
    (wider : c.isSuperselector d = true) (meets : tree.Meets d e) : tree.Meets c e := by
  obtain ⟨bases, rests⟩ := (Compound.isSuperselector_iff c d).mp wider
  intro s member
  rcases List.mem_append.mp member with base | rest
  · rcases bases with none | same
    · simp [none] at base
    · obtain found := Option.mem_toList.mp base
      rw [Option.mem_def.mp found] at same
      cases other : d.base with
      | none => simp [other] at same
      | some t =>
        rw [other] at same
        have holds : tree.holds e t := meets t (List.mem_append_left _ (by simp [other]))
        exact tree.holds_of_beq (BEq.symm (by simpa using same)) holds
  · obtain ⟨t, found, same⟩ := rests s rest
    have holds : tree.holds e t := meets t (List.mem_append_right _ found)
    exact tree.holds_of_beq (BEq.symm same) holds

theorem Precedes.exists_previous {a e : tree.Element} (precedes : tree.Precedes a e) :
    ∃ f, tree.previous e = some f ∧ (a = f ∨ tree.Precedes a f) := by
  cases precedes with
  | previous before => exact ⟨a, before, Or.inl rfl⟩
  | further before rest => exact ⟨_, before, Or.inr rest⟩

theorem Ancestor.exists_parent {a e : tree.Element} (ancestor : tree.Ancestor a e) :
    ∃ f, tree.parent e = some f ∧ (a = f ∨ tree.Ancestor a f) := by
  cases ancestor with
  | parent above => exact ⟨a, above, Or.inl rfl⟩
  | further above rest => exact ⟨_, above, Or.inr rest⟩

theorem Precedes.parent_eq {a e : tree.Element} (precedes : tree.Precedes a e) :
    tree.parent a = tree.parent e := by
  induction precedes with
  | previous before => exact tree.previous_parent before
  | further before _ ih => exact ih.trans (tree.previous_parent before)

theorem Precedes.trans {a b e : tree.Element} (first : tree.Precedes a b)
    (second : tree.Precedes b e) : tree.Precedes a e := by
  induction second with
  | previous before => exact .further before first
  | further before _ ih => exact .further before (ih first)

/-- Siblings have the same ancestors. -/
theorem Ancestor.of_parent_eq {a e f : tree.Element} (ancestor : tree.Ancestor a e)
    (same : tree.parent e = tree.parent f) : tree.Ancestor a f := by
  cases ancestor with
  | parent above => exact .parent (same ▸ above)
  | further above rest => exact .further (same ▸ above) rest

/-- What passes from an element to its children and to its next sibling. -/
def Inherited (p : tree.Element → Prop) : Prop :=
  ∀ a e, p a → (tree.parent e = some a ∨ tree.previous e = some a) → p e

theorem inherited_true : tree.Inherited fun _ => True := fun _ _ _ _ => trivial

theorem Inherited.ancestor {p : tree.Element → Prop} (inherited : tree.Inherited p)
    {a e : tree.Element} (ancestor : tree.Ancestor a e) (holds : p a) : p e := by
  induction ancestor with
  | parent above => exact inherited _ _ holds (Or.inl above)
  | further above _ ih => exact inherited _ _ (ih holds) (Or.inl above)

theorem Inherited.precedes {p : tree.Element → Prop} (inherited : tree.Inherited p)
    {a e : tree.Element} (precedes : tree.Precedes a e) (holds : p a) : p e := by
  induction precedes with
  | previous before => exact inherited _ _ holds (Or.inr before)
  | further before _ ih => exact inherited _ _ (ih holds) (Or.inr before)

theorem Inherited.related {p : tree.Element → Prop} (inherited : tree.Inherited p)
    {k : Combinator} {a e : tree.Element} (related : tree.Related k a e) (holds : p a) : p e := by
  cases k with
  | child => exact inherited _ _ holds (Or.inl related)
  | nextSibling => exact inherited _ _ holds (Or.inr related)
  | followingSibling => exact inherited.precedes related holds

/-- What is said of an ancestor passes on. -/
theorem inherited_exists_ancestor (p : tree.Element → Prop) :
    tree.Inherited fun e => ∃ a, tree.Ancestor a e ∧ p a := by
  rintro b e ⟨a, ancestor, holds⟩ (above | before)
  · exact ⟨a, .further above ancestor, holds⟩
  · exact ⟨a, ancestor.of_parent_eq (tree.previous_parent before), holds⟩

theorem behind_mono {p q : tree.Element → Prop} (weaker : ∀ e, p e → q e) (chain : Chain)
    (e : tree.Element) : tree.Behind p chain e → tree.Behind q chain e := by
  fun_induction tree.Behind p chain generalizing q with
  | case1 start => exact weaker e
  | case2 start c k rest ih =>
    rw [Behind]
    exact ih fun x ⟨a, related, meets, holds⟩ => ⟨a, related, meets, weaker a holds⟩
  | case3 start c rest other ih =>
    rw [Behind.eq_3 _ _ _ _ other]
    exact ih fun x ⟨a, ancestor, meets, holds⟩ => ⟨a, ancestor, meets, weaker a holds⟩
  | case4 start k rest ih =>
    rw [Behind]
    exact ih fun x ⟨a, related, holds⟩ => ⟨a, related, weaker a holds⟩

/-- Whether a chain that starts here is not bound to what stands before it. -/
def startsFree : Chain → Bool
  | .combinator _ :: _ => false
  | _ => true

theorem behind_append (p : tree.Element → Prop) (chain rest : Chain) (free : startsFree rest = true) :
    tree.Behind p (chain ++ rest) = tree.Behind (tree.Behind p chain) rest := by
  fun_induction tree.Behind p chain with
  | case1 start => rfl
  | case2 start c k more ih =>
    simp only [List.cons_append]
    rw [Behind]
    exact ih
  | case3 start c more other ih =>
    simp only [List.cons_append]
    rw [Behind.eq_3, ih]
    intro k more' same
    cases more with
    | nil =>
      simp only [List.nil_append] at same
      rw [same] at free
      simp [startsFree] at free
    | cons first more =>
      simp only [List.cons_append, List.cons.injEq] at same
      exact other k more (by rw [same.1])
  | case4 start k more ih =>
    simp only [List.cons_append]
    rw [Behind]
    exact ih

/-- What is inherited passes along a chain. -/
theorem Inherited.of_behind {p q : tree.Element → Prop} (inherited : tree.Inherited q)
    (weaker : ∀ e, p e → q e) (chain : Chain) (e : tree.Element) :
    tree.Behind p chain e → q e := by
  fun_induction tree.Behind p chain with
  | case1 start => exact weaker e
  | case2 start c k rest ih =>
    exact ih fun x ⟨a, related, _, holds⟩ => inherited.related related (weaker a holds)
  | case3 start c rest other ih =>
    exact ih fun x ⟨a, ancestor, _, holds⟩ => inherited.ancestor ancestor (weaker a holds)
  | case4 start k rest ih =>
    exact ih fun x ⟨a, related, holds⟩ => inherited.related related (weaker a holds)

/-- Behind a chain that ends in a compound everything is inherited. -/
theorem inherited_behind (p : tree.Element → Prop) (chain : Chain) (c : Compound) :
    tree.Inherited (tree.Behind p (chain ++ [.compound c])) := by
  rw [behind_append p chain [.compound c] rfl]
  exact inherited_exists_ancestor _

end ElementTree

end Stylesheet
