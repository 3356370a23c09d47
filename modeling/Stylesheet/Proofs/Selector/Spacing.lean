import Stylesheet.Proofs.Selector.Depth

/-! Blanks and comments between the parts of a selector. They are skipped wherever reading asks for
it; a text that has them at its end is told from one that ends in a part of the selector. -/

namespace Stylesheet.Selector

open Scan (NameTail Ident Name)

/-- Blanks and complete comments. -/
inductive Spacing : List Char → Prop where
  | nil : Spacing []
  | blank (isBlank : Text.isBlank c = true) (rest : Spacing w) : Spacing (c :: w)
  | comment (closed : ¬['*', '/'] <:+: body) (rest : Spacing w) :
    Spacing ('/' :: '*' :: (body ++ '*' :: '/' :: w))

theorem ne_of_isBlank {c d : Char} (blank : Text.isBlank c = true)
    (visible : Text.isBlank d = false) : c ≠ d := by
  rintro rfl
  rw [blank] at visible
  cases visible

section Comments

variable {body rest text w : List Char}

/-- What a comment is found in is spelled as one. -/
theorem commentBody?_some {count : Nat} (found : Scan.commentBody? text = some count) :
    ∃ body rest, text = body ++ '*' :: '/' :: rest ∧ count = body.length + 2 ∧
      ¬['*', '/'] <:+: body := by
  fun_induction Scan.commentBody? text generalizing count with
  | case1 rest =>
    cases found
    exact ⟨[], rest, rfl, rfl, by simp⟩
  | case2 c text open' ih =>
    obtain ⟨inner, later, rfl⟩ := Option.map_eq_some_iff.mp found
    obtain ⟨body, rest, rfl, rfl, closed⟩ := ih later
    refine ⟨c :: body, rest, rfl, rfl, ?_⟩
    rintro ⟨front, back, same⟩
    cases front with
    | nil =>
      cases same
      exact open' _ rfl rfl
    | cons d front =>
      cases same
      exact closed ⟨front, back, rfl⟩
  | case3 => cases found

/-- Blanks end no comment. -/
theorem commentBody?_append (blank : ∀ c ∈ w, Text.isBlank c = true) (text : List Char) :
    Scan.commentBody? (text ++ w) = Scan.commentBody? text := by
  have none : Scan.commentBody? w = none := by
    induction w with
    | nil => rfl
    | cons c w ih =>
      rw [Scan.commentBody?.eq_2, ih fun d member => blank d (List.mem_cons_of_mem c member)]
      · rfl
      · rintro more rfl
        exact absurd (blank '*' List.mem_cons_self) (by decide)
  fun_induction Scan.commentBody? text with
  | case1 rest => rfl
  | case2 c text open' ih =>
    rw [List.cons_append, Scan.commentBody?.eq_2, ih]
    rintro more rfl same
    cases text with
    | nil =>
      rw [List.nil_append] at same
      rw [same] at blank
      exact absurd (blank '/' List.mem_cons_self) (by decide)
    | cons d text =>
      cases same
      exact open' _ rfl rfl
  | case3 => exact none

theorem blockComment?_append (blank : ∀ c ∈ w, Text.isBlank c = true) (nonempty : text ≠ []) :
    Scan.blockComment? (text ++ w) = Scan.blockComment? text := by
  fun_cases Scan.blockComment? text with
  | case1 rest =>
    simp only [List.cons_append, Scan.blockComment?, commentBody?_append blank]
  | case2 _ other =>
    rw [Scan.blockComment?.eq_2]
    intro more same
    obtain ⟨c, text, rfl⟩ := List.exists_cons_of_ne_nil nonempty
    cases text with
    | nil =>
      rw [List.singleton_append, List.cons.injEq] at same
      rw [same.2] at blank
      exact absurd (blank '*' List.mem_cons_self) (by decide)
    | cons d text =>
      cases same
      exact other text rfl

end Comments

section Skipping

variable {gap text w : List Char}

private theorem skipBlanks_go_comment (closed : ¬['*', '/'] <:+: body) (fuel : Nat)
    (rest : List Char) :
    skipBlanks.go (fuel + 1) ('/' :: '*' :: (body ++ '*' :: '/' :: rest)) =
      skipBlanks.go fuel rest := by
  have slash : Text.isBlank '/' = false := by decide
  have cut : ('/' :: '*' :: (body ++ '*' :: '/' :: rest)).drop (body.length + 2 + 2) = rest := by
    simp
  simp only [skipBlanks.go, slash, Scan.blockComment?, Scan.commentBody?_closed closed,
    Option.map_some, cut]
  rfl

/-- A text at which skipping stops. -/
def Stuck (text : List Char) : Prop :=
  Unblank text ∧ Scan.blockComment? text = none

private theorem skipBlanks_go_stuck (stuck : Stuck text) (fuel : Nat) :
    skipBlanks.go fuel text = text := by
  cases fuel with
  | zero => rfl
  | succ fuel =>
    cases text with
    | nil => rfl
    | cons c rest =>
      have visible := stuck.1 c rfl
      simp [skipBlanks.go, visible, stuck.2]

private theorem skipBlanks_go_spacing (spacing : Spacing gap) (stuck : Stuck text) {fuel : Nat}
    (enough : gap.length ≤ fuel) : skipBlanks.go fuel (gap ++ text) = text := by
  induction spacing generalizing fuel with
  | nil => exact skipBlanks_go_stuck stuck fuel
  | blank isBlank _ ih =>
    rw [List.length_cons] at enough
    obtain ⟨fuel, rfl⟩ := Nat.exists_eq_add_one_of_ne_zero (by omega : fuel ≠ 0)
    rw [List.cons_append, skipBlanks.go]
    simp only [isBlank, if_true]
    exact ih (by omega)
  | comment closed _ ih =>
    simp only [List.length_cons, List.length_append] at enough
    obtain ⟨fuel, rfl⟩ := Nat.exists_eq_add_one_of_ne_zero (by omega : fuel ≠ 0)
    simp only [List.cons_append, List.append_assoc]
    rw [skipBlanks_go_comment closed]
    exact ih (by omega)

/-- Skipping ends behind blanks and comments. -/
theorem skipBlanks_spacing (spacing : Spacing gap) (stuck : Stuck text) :
    skipBlanks (gap ++ text) = text := by
  apply skipBlanks_go_spacing spacing stuck
  rw [List.length_append]
  omega

theorem stuck_nil : Stuck [] :=
  ⟨nofun, rfl⟩

private theorem exists_spacing_of_length {bound : Nat} (text : List Char)
    (short : text.length ≤ bound) : ∃ gap rest, Spacing gap ∧ Stuck rest ∧ text = gap ++ rest := by
  induction bound generalizing text with
  | zero =>
    rw [List.eq_nil_of_length_eq_zero (Nat.le_zero.mp short)]
    exact ⟨[], [], .nil, stuck_nil, rfl⟩
  | succ bound ih =>
    cases text with
    | nil => exact ⟨[], [], .nil, stuck_nil, rfl⟩
    | cons c text =>
      rw [List.length_cons] at short
      cases blank : Text.isBlank c with
      | true =>
        obtain ⟨gap, rest, spacing, stuck, rfl⟩ := ih text (by omega)
        exact ⟨c :: gap, rest, .blank blank spacing, stuck, rfl⟩
      | false =>
        cases comment : Scan.blockComment? (c :: text) with
        | none =>
          refine ⟨[], c :: text, .nil, ⟨?_, comment⟩, rfl⟩
          rintro d ⟨⟩
          exact blank
        | some count =>
          unfold Scan.blockComment? at comment
          split at comment
          · rename_i inside same
            cases same
            obtain ⟨_, found, _⟩ := Option.map_eq_some_iff.mp comment
            obtain ⟨body, rest, rfl, _, closed⟩ := commentBody?_some found
            simp only [List.length_cons, List.length_append] at short
            obtain ⟨gap, rest, spacing, stuck, rfl⟩ := ih rest (by omega)
            exact ⟨_, rest, .comment closed spacing, stuck, by simp⟩
          · cases comment

/-- What is skipped is blanks and comments, all that stand there. -/
theorem exists_spacing (text : List Char) :
    ∃ gap, Spacing gap ∧ text = gap ++ skipBlanks text ∧ Stuck (skipBlanks text) := by
  obtain ⟨gap, rest, spacing, stuck, rfl⟩ := exists_spacing_of_length text (Nat.le_refl _)
  rw [skipBlanks_spacing spacing stuck]
  exact ⟨gap, spacing, rfl, stuck⟩

theorem Spacing.append (first : Spacing gap) (second : Spacing w) : Spacing (gap ++ w) := by
  induction first with
  | nil => exact second
  | blank isBlank _ ih => exact .blank isBlank ih
  | comment closed _ ih =>
    simp only [List.cons_append, List.append_assoc]
    exact .comment closed ih

/-- Spacing in front of a text is skipped with that of the text. -/
theorem skipBlanks_append (spacing : Spacing gap) (text : List Char) :
    skipBlanks (gap ++ text) = skipBlanks text := by
  obtain ⟨more, spacing', same, stuck⟩ := exists_spacing text
  have whole := skipBlanks_spacing (spacing.append spacing') stuck
  rwa [List.append_assoc, ← same] at whole

theorem spacing_of_blanks (blank : ∀ c ∈ w, Text.isBlank c = true) : Spacing w := by
  induction w with
  | nil => exact .nil
  | cons c w ih =>
    refine .blank (blank c List.mem_cons_self) (ih fun d member => ?_)
    exact blank d (List.mem_cons_of_mem c member)

theorem skipBlanks_blanks (blank : ∀ c ∈ w, Text.isBlank c = true) : skipBlanks w = [] := by
  have skipped := skipBlanks_append (spacing_of_blanks blank) []
  rwa [List.append_nil] at skipped

/-- Blanks behind a text are skipped only if all of the text is. -/
theorem skipBlanks_append_blanks (blank : ∀ c ∈ w, Text.isBlank c = true) (text : List Char) :
    skipBlanks (text ++ w) = if skipBlanks text = [] then [] else skipBlanks text ++ w := by
  obtain ⟨gap, spacing, same, unblank, noComment⟩ := exists_spacing text
  have front : skipBlanks (text ++ w) = skipBlanks (skipBlanks text ++ w) := by
    have skipped := skipBlanks_append spacing (skipBlanks text ++ w)
    rwa [← List.append_assoc, ← same] at skipped
  rw [front]
  split
  · rename_i all
    rw [all, List.nil_append, skipBlanks_blanks blank]
  · rename_i some
    have stuck : Stuck (skipBlanks text ++ w) := by
      refine ⟨?_, ?_⟩
      · rw [Unblank, List.head?_append_of_ne_nil _ some]
        exact unblank
      · rw [blockComment?_append blank some, noComment]
    exact skipBlanks_spacing .nil stuck

/-- Spacing that holds a comment ends in it, but for blanks. -/
theorem Spacing.exists_comment (spacing : Spacing w) (loud : ¬∀ c ∈ w, Text.isBlank c = true) :
    ∃ front blanks, w = front ++ '*' :: '/' :: blanks ∧ ∀ c ∈ blanks, Text.isBlank c = true := by
  induction spacing with
  | nil => exact absurd (nofun) loud
  | @blank c w isBlank rest ih =>
    obtain ⟨front, blanks, rfl, blank⟩ := ih fun all => loud (by simpa [isBlank] using all)
    exact ⟨c :: front, blanks, rfl, blank⟩
  | @comment body w closed rest ih =>
    by_cases all : ∀ c ∈ w, Text.isBlank c = true
    · exact ⟨'/' :: '*' :: body, w, rfl, all⟩
    · obtain ⟨front, blanks, rfl, blank⟩ := ih all
      exact ⟨'/' :: '*' :: (body ++ '*' :: '/' :: front), blanks, by simp, blank⟩

end Skipping

end Stylesheet.Selector
