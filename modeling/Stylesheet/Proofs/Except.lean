import Mathlib.Data.List.Forall2

/-! Results of steps one after the other, of which the first error is the result of the whole. -/

namespace Stylesheet

variable {ε : Type u} {α : Type v} {β : Type v}

theorem exists_of_bind_ok {first : Except ε α} {next : α → Except ε β} {b : β}
    (ok : (first >>= next) = .ok b) : ∃ a, first = .ok a ∧ next a = .ok b := by
  cases first with
  | error error => cases ok
  | ok a => exact ⟨a, rfl, ok⟩

theorem exists_of_map_ok {first : Except ε α} {f : α → β} {b : β} (ok : first.map f = .ok b) :
    ∃ a, first = .ok a ∧ f a = b := by
  cases first with
  | error error => cases ok
  | ok a => exact ⟨a, rfl, Except.ok.inj ok⟩

/-- A failure is one of the first step, or of the second behind a first that went well. -/
theorem of_bind_error {first : Except ε α} {next : α → Except ε β} {error : ε}
    (failed : (first >>= next) = .error error) :
    first = .error error ∨ ∃ a, first = .ok a ∧ next a = .error error := by
  cases first with
  | error fault =>
    cases failed
    exact .inl rfl
  | ok a => exact .inr ⟨a, rfl, failed⟩

theorem mapM_error {f : α → Except ε β} {items : List α} {error : ε}
    (failed : items.mapM f = .error error) : ∃ a ∈ items, f a = .error error := by
  induction items with
  | nil => cases failed
  | cons a rest ih =>
    rw [List.mapM_cons] at failed
    rcases of_bind_error failed with first | ⟨b, _, failed⟩
    · exact ⟨a, List.mem_cons_self, first⟩
    rcases of_bind_error failed with others | ⟨bs, _, failed⟩
    · obtain ⟨x, member, found⟩ := ih others
      exact ⟨x, List.mem_cons_of_mem a member, found⟩
    · cases failed

/-- The results of a list are those of its items, in order. -/
theorem mapM_ok_iff {f : α → Except ε β} {items : List α} {results : List β} :
    items.mapM f = .ok results ↔ List.Forall₂ (fun a b => f a = .ok b) items results := by
  induction items generalizing results with
  | nil =>
    rw [List.mapM_nil, List.forall₂_nil_left_iff]
    exact ⟨fun ok => (Except.ok.inj ok).symm, fun empty => congrArg _ empty.symm⟩
  | cons item rest ih =>
    rw [List.mapM_cons]
    constructor
    · intro ok
      obtain ⟨b, isFirst, ok⟩ := exists_of_bind_ok ok
      obtain ⟨others, areOthers, ok⟩ := exists_of_bind_ok ok
      cases ok
      exact .cons isFirst (ih.mp areOthers)
    · rintro (_ | ⟨isFirst, areOthers⟩)
      rw [isFirst]
      change ((rest.mapM f) >>= _) = _
      rw [ih.mpr areOthers]
      rfl

/-- There is a result for a list exactly if there is one for each item. -/
theorem exists_mapM_ok_iff {f : α → Except ε β} {items : List α} :
    (∃ results, items.mapM f = .ok results) ↔ ∀ a ∈ items, ∃ b, f a = .ok b := by
  simp only [mapM_ok_iff]
  induction items with
  | nil => simp
  | cons item rest ih =>
    rw [List.forall_mem_cons, ← ih]
    constructor
    · rintro ⟨results, all⟩
      obtain ⟨b, others, isFirst, areOthers, rfl⟩ := List.forall₂_cons_left_iff.mp all
      exact ⟨⟨b, isFirst⟩, others, areOthers⟩
    · rintro ⟨⟨b, isFirst⟩, others, areOthers⟩
      exact ⟨b :: others, .cons isFirst areOthers⟩

end Stylesheet
