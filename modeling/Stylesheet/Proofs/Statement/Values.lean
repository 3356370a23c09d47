import Stylesheet.Proofs.Statement.Written
import Stylesheet.Proofs.Token.Literals

/-! Values that are written as literals with blanks and commas between them. -/

namespace Stylesheet

open Scan Script

/-- A literal as it is written, with the value that is read. -/
structure WrittenLiteral where
  text : List Char
  value : Value
  spells : Spells text value
  starts : text.head?.any (fun c => !Text.isBlank c && !Header.isStatementEnd c) = true
  ends : text.getLast?.any endsLine = true
  oneLine : '\n' ∉ text

namespace WrittenLiteral

/-- Literals with a blank in front of each. -/
def spacedText : List WrittenLiteral → List Char
  | [] => []
  | l :: rest => ' ' :: (l.text ++ spacedText rest)

/-- Groups of literals with a comma in front of each. -/
def listedText : List (List WrittenLiteral) → List Char
  | [] => []
  | g :: rest => ',' :: (spacedText g ++ listedText rest)

/-- What stands behind the literals of a space list. -/
def EndsItems (rest : List Char) : Prop :=
  ∀ c, rest.head? = some c → c = ',' ∨ c = ';'

theorem spacedText_endsLiteral (literals : List WrittenLiteral) {rest : List Char}
    (ends : EndsItems rest) : EndsLiteral (spacedText literals ++ rest) := by
  cases literals with
  | nil => exact fun c head => .inr (ends c head)
  | cons l literals =>
    rintro c ⟨⟩
    exact .inl rfl

theorem items_spacedText (literals : List WrittenLiteral) {rest : List Char}
    (ends : EndsItems rest) :
    Items (spacedText literals ++ rest) (literals.map (·.value)) rest := by
  induction literals with
  | nil =>
    cases rest with
    | nil => exact .stop begins_end rfl
    | cons c rest =>
      rcases ends c rfl with rfl | rfl
      · exact .stop (begins_separator .comma rest) rfl
      · exact .stop (begins_separator .semicolon rest) rfl
  | cons l literals ih =>
    obtain ⟨kind, begins, literal⟩ := l.spells.2 _ (spacedText_endsLiteral literals ends)
    rw [spacedText, List.cons_append, List.append_assoc]
    refine .item begins literal ?_ ih
    simp only [List.length_cons, List.length_append]
    omega

theorem listedText_endsItems (groups : List (List WrittenLiteral)) {rest : List Char}
    (ends : ∀ c, rest.head? = some c → c = ';') : EndsItems (listedText groups ++ rest) := by
  cases groups with
  | nil => exact fun c head => .inr (ends c head)
  | cons g groups =>
    rintro c ⟨⟩
    exact .inl rfl

theorem groups_listedText (groups : List (List WrittenLiteral)) (filled : ∀ g ∈ groups, g ≠ [])
    {rest : List Char} (ends : ∀ c, rest.head? = some c → c = ';') :
    Groups (listedText groups ++ rest) (groups.map (·.map (·.value))) rest := by
  induction groups with
  | nil =>
    cases rest with
    | nil => exact .stop begins_end rfl nofun
    | cons c rest =>
      cases ends c rfl
      exact .stop (begins_separator .semicolon rest) rfl nofun
  | cons g groups ih =>
    obtain ⟨l, literals, rfl⟩ := List.exists_cons_of_ne_nil (filled g List.mem_cons_self)
    have others := ih fun g member => filled g (List.mem_cons_of_mem _ member)
    have items := items_spacedText (l :: literals) (listedText_endsItems groups ends)
    rw [listedText, List.cons_append, List.append_assoc]
    exact .group (begins_separator .comma _) (by simp) items others

/-- A line is complete behind a text. -/
def Completes (text : List Char) : Prop :=
  text.getLast?.any endsLine = true

theorem completes_behind (front : List Char) {back : List Char} (completes : Completes back) :
    Completes (front ++ back) := by
  obtain ⟨x, isLast, ends⟩ := (Option.any_eq_true _ _).mp completes
  unfold Completes
  rw [List.getLast?_append, isLast]
  exact ends

theorem completes_append {front back : List Char} (completes : Completes front)
    (behind : back = [] ∨ Completes back) : Completes (front ++ back) := by
  rcases behind with rfl | behind
  · rwa [List.append_nil]
  · exact completes_behind front behind

theorem completes_spacedText (literals : List WrittenLiteral) :
    spacedText literals = [] ∨ Completes (spacedText literals) := by
  induction literals with
  | nil => exact .inl rfl
  | cons l literals ih => exact .inr (completes_behind [' '] (completes_append l.ends ih))

theorem completes_listedText (groups : List (List WrittenLiteral)) (filled : ∀ g ∈ groups, g ≠ []) :
    listedText groups = [] ∨ Completes (listedText groups) := by
  induction groups with
  | nil => exact .inl rfl
  | cons g groups ih =>
    obtain ⟨l, literals, rfl⟩ := List.exists_cons_of_ne_nil (filled g List.mem_cons_self)
    have others := ih fun g member => filled g (List.mem_cons_of_mem _ member)
    have items := (completes_spacedText (l :: literals)).resolve_left (by simp [spacedText])
    exact .inr (completes_behind [','] (completes_append items others))

theorem oneLine_spacedText (literals : List WrittenLiteral) : '\n' ∉ spacedText literals := by
  induction literals with
  | nil => exact List.not_mem_nil
  | cons l literals ih => simp [spacedText, l.oneLine, ih]

theorem oneLine_listedText (groups : List (List WrittenLiteral)) : '\n' ∉ listedText groups := by
  induction groups with
  | nil => exact List.not_mem_nil
  | cons g groups ih => simp [listedText, oneLine_spacedText, ih]

end WrittenLiteral

open WrittenLiteral

/-- A comma list of space lists of literals, none of which is empty. -/
structure WrittenList where
  first : WrittenLiteral
  items : List WrittenLiteral
  groups : List (List WrittenLiteral)
  filled : ∀ g ∈ groups, g ≠ []

namespace WrittenList

def text (w : WrittenList) : List Char :=
  w.first.text ++ (spacedText w.items ++ listedText w.groups)

/-- The values in each of the space lists. -/
def values (w : WrittenList) : List (List Value) :=
  (w.first :: w.items).map (·.value) :: w.groups.map (·.map (·.value))

/-- What the list is read as. -/
def expr (w : WrittenList) : Expr :=
  grouped .comma (w.values.map spaced)

theorem isValue (w : WrittenList) : Header.IsValue w.text w.expr := by
  constructor
  · obtain ⟨x, isHead, starts⟩ := (Option.any_eq_true _ _).mp w.first.starts
    obtain ⟨more, isText⟩ := List.head?_eq_some_iff.mp isHead
    simp only [Bool.and_eq_true, Bool.not_eq_true'] at starts
    exact ⟨x, _, by rw [text, isText, List.cons_append], starts⟩
  · intro rest ends
    have items := items_spacedText (w.first :: w.items) (listedText_endsItems w.groups ends)
    have yields := yields_groups items (groups_listedText w.groups w.filled ends)
    have same : ' ' :: (w.text ++ rest) =
        spacedText (w.first :: w.items) ++ (listedText w.groups ++ rest) := by
      simp [text, spacedText]
    rw [same]
    exact yields

/-- A list as the value of a property. -/
def value (w : WrittenList) : WrittenValue where
  text := w.text
  expr := w.expr
  isValue := w.isValue
  oneLine := by simp [text, w.first.oneLine, oneLine_spacedText, oneLine_listedText]
  ends := by
    refine completes_append w.first.ends ?_
    rcases completes_spacedText w.items with none | items
    · rw [none]
      exact completes_listedText w.groups w.filled
    · exact .inr (completes_append items (completes_listedText w.groups w.filled))

/-- A single literal. -/
def single (l : WrittenLiteral) : WrittenList :=
  ⟨l, [], [], by simp⟩

theorem text_single (l : WrittenLiteral) : (single l).text = l.text := by
  simp [single, text, spacedText, listedText]

end WrittenList

end Stylesheet
