import Stylesheet.Bindings

/-! What is found in a finite map after a change. -/

namespace Stylesheet.Bindings

variable {κ : Type u} {ν : Type v} [BEq κ] [LawfulBEq κ] {bindings : Bindings κ ν} {key other : κ}
  {value : ν}

@[simp]
theorem find?_insert_self : (bindings.insert key value).find? key = some value := by
  induction bindings with
  | nil => simp [insert, find?]
  | cons entry rest ih =>
    obtain ⟨own, old⟩ := entry
    unfold find? at ih ⊢
    unfold insert
    split
    · rename_i same
      rw [List.lookup_cons, same]
    · rename_i differs
      rw [List.lookup_cons, eq_false_of_ne_true differs]
      exact ih

theorem find?_insert_of_ne (differs : other ≠ key) :
    (bindings.insert key value).find? other = bindings.find? other := by
  induction bindings with
  | nil => simp [insert, find?, List.lookup_cons, beq_eq_false_iff_ne.mpr differs]
  | cons entry rest ih =>
    obtain ⟨own, old⟩ := entry
    unfold find? at ih ⊢
    unfold insert
    split
    · rename_i same
      have sameKey : key = own := eq_of_beq same
      have otherKey : (other == own) = false := beq_eq_false_iff_ne.mpr (sameKey ▸ differs)
      simp only [List.lookup_cons, otherKey]
    · rw [List.lookup_cons, List.lookup_cons, ih]

/-- What is found after a change was put there or had been found before. -/
theorem find?_insert_some {found : ν} (isFound : (bindings.insert key value).find? other = some found) :
    (other = key ∧ found = value) ∨ bindings.find? other = some found := by
  by_cases same : other = key
  · subst same
    rw [find?_insert_self] at isFound
    exact .inl ⟨rfl, (Option.some.inj isFound).symm⟩
  · rw [find?_insert_of_ne same] at isFound
    exact .inr isFound

end Stylesheet.Bindings
