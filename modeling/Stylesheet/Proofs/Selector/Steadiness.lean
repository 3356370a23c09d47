import Stylesheet.Proofs.Selector.Spacing

/-! Blanks behind a text. A reader that does not stop behind a lone backslash reads the same with
blanks behind the text as without them, as long as no name goes on with the first of them. -/

namespace Stylesheet.Selector

open Scan (nameTail NameTail IdentBody Ident Name)

/-- No backslash stands at the end of a text with nothing behind it to escape. -/
def IsWhole : List Char → Prop
  | '\\' :: _ :: rest => IsWhole rest
  | c :: rest => c ≠ '\\' ∧ IsWhole rest
  | [] => True

/-- Blanks that no name goes on with. -/
structure Trailing (w : List Char) : Prop where
  blank : ∀ c ∈ w, Text.isBlank c = true
  apart : ∀ c ∈ w.head?, Scan.isNameChar c = false

/-- Reading has moved on to the rest of a text and tears no escape apart. -/
structure Moves (text rest : List Char) : Prop where
  suffix : rest <:+ text
  whole : IsWhole text ↔ IsWhole rest

/-- What a reader finds in a text it also finds with blanks behind it. -/
structure Steady (w : List Char) (read : Reader α) : Prop where
  moves : ∀ {text item rest}, read text = some (item, rest) → Moves text rest
  append : ∀ {text}, IsWhole text →
    read (text ++ w) = (read text).map fun found => (found.1, found.2 ++ w)

section Wholeness

variable {c : Char} {front middle rest text w : List Char}

theorem isWhole_escape (c : Char) (rest : List Char) :
    IsWhole ('\\' :: c :: rest) ↔ IsWhole rest := by
  rw [IsWhole]

theorem isWhole_cons (plain : c ≠ '\\') (rest : List Char) :
    IsWhole (c :: rest) ↔ IsWhole rest := by
  rw [IsWhole.eq_2 _ _ (fun _ _ same => absurd same plain)]
  exact and_iff_right plain

/-- Behind a character that is no backslash it does not matter what stands in front. -/
theorem isWhole_behind (plain : c ≠ '\\') (front rest : List Char) :
    IsWhole (front ++ c :: rest) ↔ IsWhole rest := by
  fun_induction IsWhole front with
  | case1 d front ih =>
    rw [List.cons_append, List.cons_append, isWhole_escape]
    exact ih
  | case2 d front alone ih =>
    by_cases escape : d = '\\'
    · subst escape
      cases front with
      | nil => exact isWhole_escape c rest
      | cons e front => exact absurd rfl (alone e front rfl)
    · rw [List.cons_append, isWhole_cons escape]
      exact ih
  | case3 => exact isWhole_cons plain rest

theorem isWhole_name (spelled : NameTail w) (rest : List Char) :
    IsWhole (w ++ rest) ↔ IsWhole rest := by
  induction spelled with
  | nil => exact Iff.rfl
  | @char c w isName _ ih =>
    have plain : c ≠ '\\' := by
      rintro rfl
      exact absurd isName (by decide)
    rw [List.cons_append, isWhole_cons plain]
    exact ih
  | escape c _ ih =>
    rw [List.cons_append, List.cons_append, isWhole_escape]
    exact ih

theorem IsWhole.plain (whole : IsWhole (c :: rest))
    (alone : ∀ d more, c = '\\' → rest = d :: more → False) : c ≠ '\\' := by
  rw [IsWhole.eq_2 _ _ alone] at whole
  exact whole.1

theorem isWhole_of_blanks (blank : ∀ c ∈ w, Text.isBlank c = true) : IsWhole w := by
  induction w with
  | nil => trivial
  | cons c w ih =>
    rw [isWhole_cons (ne_of_isBlank (blank c List.mem_cons_self) (by decide))]
    exact ih fun d member => blank d (List.mem_cons_of_mem c member)

theorem isWhole_spacing (spacing : Spacing w) (rest : List Char) :
    IsWhole (w ++ rest) ↔ IsWhole rest := by
  induction spacing with
  | nil => exact Iff.rfl
  | blank isBlank _ ih =>
    rw [List.cons_append, isWhole_cons (ne_of_isBlank isBlank (by decide))]
    exact ih
  | @comment body w _ _ ih =>
    have same : '/' :: '*' :: (body ++ '*' :: '/' :: w) ++ rest =
        '/' :: '*' :: (body ++ ['*']) ++ '/' :: (w ++ rest) := by simp
    rw [same, isWhole_behind (by decide)]
    exact ih

namespace Moves

theorem refl (text : List Char) : Moves text text :=
  ⟨List.suffix_rfl, Iff.rfl⟩

theorem trans (first : Moves text middle) (second : Moves middle rest) : Moves text rest :=
  ⟨second.suffix.trans first.suffix, first.whole.trans second.whole⟩

theorem behind (plain : c ≠ '\\') (front rest : List Char) : Moves (front ++ c :: rest) rest := by
  refine ⟨?_, isWhole_behind plain front rest⟩
  exact (List.suffix_cons c rest).trans (List.suffix_append front _)

theorem name (spelled : NameTail w) (rest : List Char) : Moves (w ++ rest) rest :=
  ⟨List.suffix_append w rest, isWhole_name spelled rest⟩

theorem skipBlanks (text : List Char) : Moves text (skipBlanks text) := by
  obtain ⟨gap, spacing, same, _⟩ := exists_spacing text
  refine ⟨skipBlanks_suffix text, ?_⟩
  have whole := isWhole_spacing spacing (Selector.skipBlanks text)
  rwa [← same] at whole

/-- Reading that goes on to a character that is no backslash tears nothing apart. -/
theorem of_suffix (plain : c ≠ '\\') (suffix : c :: rest <:+ text) : Moves text rest := by
  obtain ⟨front, rfl⟩ := suffix
  exact behind plain front rest

end Moves

theorem nameTail_of_ident (ident : Ident w) : NameTail w := by
  have ofBody : ∀ w, IdentBody w → NameTail w := by
    intro w body
    cases body with
    | start isStart tail => exact .char (by simp [Scan.isNameChar, isStart]) tail
    | escape c tail => exact .escape c tail
  cases ident with
  | plain body => exact ofBody w body
  | hyphen body => exact .char (by decide) (ofBody _ body)

end Wholeness

section Scanning

variable {d : Char} {more text w : List Char}

/-- What a text with blanks behind it begins with, the text begins with. -/
theorem exists_of_append_eq_cons (visible : Text.isBlank d = false)
    (blank : ∀ c ∈ w, Text.isBlank c = true) (same : text ++ w = d :: more) :
    ∃ inner, text = d :: inner ∧ more = inner ++ w := by
  cases text with
  | nil =>
    rw [List.nil_append] at same
    rw [same] at blank
    exact absurd rfl (ne_of_isBlank (blank d List.mem_cons_self) visible)
  | cons c text =>
    cases same
    exact ⟨text, rfl, rfl⟩

theorem trailing_nil : Trailing [] where
  blank := by simp
  apart := by simp

theorem Trailing.nameTail (trailing : Trailing w) : nameTail w = 0 := by
  cases w with
  | nil => rfl
  | cons c w =>
    exact Scan.nameTail_stop (trailing.apart c rfl)
      (ne_of_isBlank (trailing.blank c List.mem_cons_self) (by decide)) w

theorem nameTail_trailing (trailing : Trailing w) (whole : IsWhole text) :
    nameTail (text ++ w) = nameTail text := by
  fun_induction Scan.nameTail text with
  | case1 c rest ih =>
    rw [List.cons_append, List.cons_append, Scan.nameTail_escape,
      ih ((isWhole_escape c rest).mp whole)]
  | case2 c rest alone isName ih =>
    have plain := whole.plain alone
    rw [List.cons_append, Scan.nameTail_char isName, ih ((isWhole_cons plain rest).mp whole)]
  | case3 c rest alone other =>
    exact Scan.nameTail_stop (Bool.not_eq_true _ ▸ other) (whole.plain alone) (rest ++ w)
  | case4 => exact trailing.nameTail

theorem identBody?_trailing (trailing : Trailing w) (whole : IsWhole text) :
    Scan.identBody? (text ++ w) = Scan.identBody? text := by
  fun_cases Scan.identBody? text with
  | case1 c rest =>
    rw [List.cons_append, List.cons_append, Scan.identBody?,
      nameTail_trailing trailing ((isWhole_escape c rest).mp whole)]
  | case2 c rest alone isStart =>
    have plain := whole.plain alone
    rw [List.cons_append, Scan.identBody?.eq_2 _ _ (fun _ _ same => absurd same plain),
      if_pos isStart, nameTail_trailing trailing ((isWhole_cons plain rest).mp whole)]
  | case3 c rest alone other =>
    rw [List.cons_append,
      Scan.identBody?.eq_2 _ _ (fun _ _ same => absurd same (whole.plain alone)), if_neg other]
  | case4 =>
    cases w with
    | nil => rfl
    | cons c w =>
      have plain : c ≠ '\\' := ne_of_isBlank (trailing.blank c List.mem_cons_self) (by decide)
      rw [List.nil_append, Scan.identBody?_eq_none plain]
      have apart := trailing.apart c rfl
      simp only [Scan.isNameChar, Bool.or_eq_false_iff] at apart
      exact apart.1.1

theorem ident?_trailing (trailing : Trailing w) (whole : IsWhole text) :
    Scan.ident? (text ++ w) = Scan.ident? text := by
  fun_cases Scan.ident? text with
  | case1 rest =>
    rw [List.cons_append, Scan.ident?,
      identBody?_trailing trailing ((isWhole_cons (by decide) rest).mp whole)]
  | case2 _ other =>
    rw [Scan.ident?.eq_2, identBody?_trailing trailing whole]
    intro rest same
    obtain ⟨inner, same, _⟩ := exists_of_append_eq_cons (by decide) trailing.blank same
    exact other inner same

theorem name?_trailing (trailing : Trailing w) (whole : IsWhole text) :
    Scan.name? (text ++ w) = Scan.name? text := by
  rw [Scan.name?, Scan.name?, nameTail_trailing trailing whole]

private theorem isWhole_quotedBody {quote : Char} (plain : quote ≠ '\\') {body : List Char}
    (spelled : QuotedBody quote body) (rest : List Char) :
    IsWhole (body ++ rest) ↔ IsWhole rest := by
  induction spelled with
  | close => exact isWhole_cons plain rest
  | escape c _ ih =>
    rw [List.cons_append, List.cons_append, isWhole_escape]
    exact ih
  | char _ unescaped _ _ ih =>
    rw [List.cons_append, isWhole_cons unescaped]
    exact ih

private theorem isWhole_quoted {string : List Char} (spelled : Quoted string) (rest : List Char) :
    IsWhole (string ++ rest) ↔ IsWhole rest := by
  cases spelled with
  | double body =>
    rw [List.cons_append, isWhole_cons (by decide)]
    exact isWhole_quotedBody (by decide) body rest
  | single body =>
    rw [List.cons_append, isWhole_cons (by decide)]
    exact isWhole_quotedBody (by decide) body rest

private theorem quotedBody?_blanks {quote : Char} (visible : Text.isBlank quote = false)
    (blank : ∀ c ∈ w, Text.isBlank c = true) : quotedBody? quote w = none := by
  induction w with
  | nil => rfl
  | cons c w ih =>
    have isBlank := blank c List.mem_cons_self
    have plain : c ≠ '\\' := ne_of_isBlank isBlank (by decide)
    have inner := ih fun d member => blank d (List.mem_cons_of_mem c member)
    rw [quotedBody?.eq_2 _ _ _ (fun _ _ same => absurd same plain), inner]
    simp [ne_of_isBlank isBlank visible]

private theorem quotedBody?_trailing {quote : Char} (visible : Text.isBlank quote = false)
    (blank : ∀ c ∈ w, Text.isBlank c = true) {text : List Char} (whole : IsWhole text) :
    quotedBody? quote (text ++ w) = quotedBody? quote text := by
  fun_induction quotedBody? quote text with
  | case1 c rest ih =>
    rw [List.cons_append, List.cons_append, quotedBody?, ih ((isWhole_escape c rest).mp whole)]
  | case5 => exact quotedBody?_blanks visible blank
  | case4 c rest alone other stays ih =>
    have plain := whole.plain alone
    rw [List.cons_append, quotedBody?.eq_2 _ _ _ (fun _ _ same => absurd same plain), if_neg other,
      if_neg stays, ih ((isWhole_cons plain rest).mp whole)]
  | _ c rest alone =>
    have plain := whole.plain alone
    rw [List.cons_append, quotedBody?.eq_2 _ _ _ (fun _ _ same => absurd same plain)]
    simp_all

theorem quoted?_trailing (blank : ∀ c ∈ w, Text.isBlank c = true) {text : List Char}
    (whole : IsWhole text) : quoted? (text ++ w) = quoted? text := by
  cases text with
  | nil =>
    cases w with
    | nil => rfl
    | cons c w =>
      have isBlank := blank c List.mem_cons_self
      have double : c ≠ '"' := ne_of_isBlank isBlank (by decide)
      have single : c ≠ '\'' := ne_of_isBlank isBlank (by decide)
      simp [quoted?, double, single]
  | cons c text =>
    rw [List.cons_append, quoted?, quoted?]
    split
    · rename_i quote
      simp only [Bool.or_eq_true, beq_iff_eq] at quote
      have visible : Text.isBlank c = false ∧ c ≠ '\\' := by rcases quote with rfl | rfl <;> decide
      rw [quotedBody?_trailing visible.1 blank ((isWhole_cons visible.2 text).mp whole)]
    · rfl

theorem quoted?_pos {text : List Char} {count : Nat} (found : quoted? text = some count) :
    0 < count := by
  cases text with
  | nil => cases found
  | cons c rest =>
    rw [quoted?] at found
    split at found
    · obtain ⟨_, _, rfl⟩ := Option.map_eq_some_iff.mp found
      omega
    · cases found

theorem moves_quoted {text : List Char} {count : Nat} (found : quoted? text = some count) :
    count ≤ text.length ∧ Moves text (text.drop count) := by
  obtain ⟨spelled, short⟩ := quoted?_take found
  have whole := isWhole_quoted spelled (text.drop count)
  rw [List.take_append_drop] at whole
  exact ⟨short, List.drop_suffix count text, whole⟩

end Scanning

section Combining

variable {w : List Char} {read other : Reader α}

namespace Steady

theorem pure (w : List Char) (item : α) : Steady w fun text => some (item, text) :=
  ⟨fun found => by cases found; exact .refl _, fun _ => rfl⟩

theorem map (steady : Steady w read) (f : α → β) :
    Steady w fun text => (read text).map fun found => (f found.1, found.2) := by
  refine ⟨fun {text item rest} mapped => ?_, fun {text} whole => ?_⟩
  · obtain ⟨⟨_, _⟩, found, same⟩ := Option.map_eq_some_iff.mp mapped
    cases same
    exact steady.moves found
  · rw [steady.append whole]
    cases read text <;> rfl

theorem bind {next : α → Reader β} (first : Steady w read) (second : ∀ item, Steady w (next item)) :
    Steady w fun text => (read text).bind fun found => next found.1 found.2 := by
  refine ⟨fun {text item rest} found => ?_, fun {text} whole => ?_⟩
  · obtain ⟨⟨first', middle⟩, found, later⟩ := Option.bind_eq_some_iff.mp found
    exact (first.moves found).trans ((second first').moves later)
  · rw [first.append whole]
    cases found : read text with
    | none => rfl
    | some pair => exact (second pair.1).append ((first.moves found).whole.mp whole)

theorem orElse (first : Steady w read) (second : Steady w other) :
    Steady w fun text => read text <|> other text := by
  refine ⟨fun {text item rest} found => ?_, fun {text} whole => ?_⟩
  · rcases orElse_some found with found | ⟨_, found⟩
    · exact first.moves found
    · exact second.moves found
  · rw [first.append whole, second.append whole]
    cases read text <;> rfl

/-- Blanks are skipped in front of something that has to be there. -/
theorem skipping (blank : ∀ c ∈ w, Text.isBlank c = true) (steady : Steady w read)
    (needed : read [] = none) : Steady w fun text => read (skipBlanks text) := by
  refine ⟨fun {text item rest} found => ?_, fun {text} whole => ?_⟩
  · exact (Moves.skipBlanks text).trans (steady.moves found)
  · rw [skipBlanks_append_blanks blank]
    split
    · rename_i all
      rw [all, needed]
      rfl
    · exact steady.append ((Moves.skipBlanks text).whole.mp whole)

/-- A reader that cuts off as many characters as are counted. -/
theorem slicing {count? : List Char → Option Nat}
    (moves : ∀ {text count}, count? text = some count →
      count ≤ text.length ∧ Moves text (text.drop count))
    (same : ∀ {text}, IsWhole text → count? (text ++ w) = count? text) :
    Steady w fun text => (count? text).map fun count => slice count text := by
  refine ⟨fun {text item rest} sliced => ?_, fun {text} whole => ?_⟩
  · obtain ⟨count, found, cut⟩ := Option.map_eq_some_iff.mp sliced
    cases cut
    exact (moves found).2
  · rw [same whole]
    cases found : count? text with
    | none => rfl
    | some count =>
      have short := (moves found).1
      simp only [Option.map_some, slice, List.take_append_of_le_length short,
        List.drop_append_of_le_length short]

end Steady

end Combining

end Stylesheet.Selector
