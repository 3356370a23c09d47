import Mathlib.Data.List.Forall2
import Stylesheet.Proofs.Source.Cursor
import Stylesheet.Statement.Indented

/-! Lines told by their depth and their text. Rows that are indented by two blanks for each level are
found again as lines, each of which shows the text of its row. -/

namespace Stylesheet

namespace Outline

/-- A row: how deep it is, and its text. -/
abbrev Row := Nat × List Char

/-- A text that makes a line by itself. -/
structure IsLineText (text : List Char) : Prop where
  first : ∃ x more, text = x :: more ∧ Text.isBlank x = false
  last : ∃ front x, text = front ++ [x] ∧ Text.isBlank x = false ∧ x ≠ ','
  oneLine : '\n' ∉ text

/-- A text of lines, some of which are empty and the others are rows with their indentation. -/
inductive Shows : List Char → List Row → Prop where
  | nil : Shows [] []
  | empty (others : Shows rest rows) : Shows ('\n' :: rest) rows
  | row (depth : Nat) (isText : IsLineText text) (others : Shows rest rows) :
      Shows ((Text.indent depth).toList ++ text ++ '\n' :: rest) ((depth, text) :: rows)

/-- A row that holds a comment. -/
def isRemark (row : Row) : Bool :=
  ['/', '/'].isPrefixOf row.2 || ['/', '*'].isPrefixOf row.2

/-- How deep a row may be behind another one: a comment would take what is deeper. -/
def reach : Option Row → Nat
  | none => 0
  | some row => if isRemark row then row.1 else row.1 + 1

theorem reach_le (previous : Option Row) :
    reach previous ≤ (previous.map (·.1)).elim 0 (· + 1) := by
  cases previous with
  | none => exact Nat.le_refl _
  | some row =>
    change (if isRemark row = true then row.1 else row.1 + 1) ≤ row.1 + 1
    split
    · exact Nat.le_succ _
    · exact Nat.le_refl _

theorem le_reach (row : Row) : row.1 ≤ reach (some row) := by
  change row.1 ≤ if isRemark row = true then row.1 else row.1 + 1
  split
  · exact Nat.le_refl _
  · exact Nat.le_succ _

theorem reach_remark {row : Row} (comment : isRemark row = true) : reach (some row) = row.1 :=
  if_pos comment

/-- Each row is at most one deeper than the one before it, and not deeper than a comment. The first has
depth zero. -/
def Steps (previous : Option Row) : List Row → Prop
  | [] => True
  | row :: rest => row.1 ≤ reach previous ∧ Steps (some row) rest

/-- A line as deep as a row, and a comment if the row is one. -/
structure Matches (line : SourceLine) (row : Row) : Prop where
  depth : line.depth = row.1
  indent : line.indent = 2 * row.1
  comment : line.isComment = isRemark row
  closed : line.isOpen = false

/-- A line of a text that shows a row. -/
structure IsLine (source : Indented.Source) (line : SourceLine) (row : Row) : Prop extends
    Matches line row where
  text : source.lineText line = row.2
  alone : line.body = []

/-- What is known behind a row: the last line, and the unit of indentation. -/
structure Follows (previous : Option Row) (progress : Progress) : Prop where
  last : Option.Rel Matches progress.found.head? previous
  unit : progress.unit = some [' ', ' '] ∨ progress.unit = none ∧ (previous.map (·.1)).getD 0 = 0

theorem follows_nil : Follows none ⟨[], none⟩ :=
  ⟨.none, .inr ⟨rfl, rfl⟩⟩

section Lines

variable {previous : Option Row} {progress : Progress} {depth : Nat} {text rest : List Char}
  {rows : List Row} {source : Indented.Source}

/-- Two blanks are the unit, from the first line on that is indented. -/
theorem depthOf_indent (follows : Follows previous progress) (step : depth ≤ reach previous)
    (number : Nat) :
    ∃ unit, depthOf progress.found.isEmpty progress.unit number (Text.indent depth).toList =
        .ok (depth, unit) ∧
      (unit = some [' ', ' '] ∨ unit = none ∧ depth = 0) := by
  rw [Text.toList_indent]
  cases depth with
  | zero =>
    refine ⟨progress.unit, rfl, ?_⟩
    rcases follows.unit with known | ⟨none, _⟩
    · exact .inl known
    · exact .inr ⟨none, rfl⟩
  | succ depth =>
    have notFirst : progress.found.isEmpty = false := by
      cases isFound : progress.found with
      | nil =>
        have known := follows.last
        rw [isFound] at known
        cases known
        simp [reach] at step
      | cons last earlier => rfl
    have chosen : progress.unit.getD (List.replicate (2 * (depth + 1)) ' ') = [' ', ' '] := by
      rcases follows.unit with known | ⟨none, atStart⟩
      · rw [known]
        rfl
      · have shallow : depth = 0 := by
          have bound := step.trans (reach_le previous)
          cases previous with
          | none => simp at bound
          | some last =>
            simp only [Option.map_some, Option.elim_some, Option.getD_some] at bound atStart
            omega
        rw [none, shallow]
        rfl
    have notTab : (List.replicate (2 * (depth + 1)) ' ').contains '\t' = false := by simp
    have unitSize : Text.size [' ', ' '] = 2 := by decide
    have starts : (List.replicate (2 * (depth + 1)) ' ').head? = [' ', ' '].head? := by
      rw [Nat.mul_add, List.replicate_succ]
      rfl
    refine ⟨some [' ', ' '], ?_, .inl rfl⟩
    unfold depthOf
    rw [if_neg (by simp), notFirst, if_neg (by decide), notTab, if_neg (by simp)]
    dsimp only
    rw [chosen, starts, Text.size_spaces, unitSize, if_neg (by simp), Nat.mul_div_cancel_left _ (by decide)]

/-- A row becomes a line by itself. -/
theorem addLine_row (follows : Follows previous progress) (step : depth ≤ reach previous)
    (isText : IsLineText text) (number : Nat)
    {front : List Char}
    (isSource : source.text =
      Cursor.ofChars (front ++ ((Text.indent depth).toList ++ text ++ '\n' :: rest))) :
    ∃ line unit,
      addLine progress number (Text.size front) ((Text.indent depth).toList ++ text) =
        .ok ⟨line :: progress.found, unit⟩ ∧
      IsLine source line (depth, text) ∧
        Follows (some (depth, text)) ⟨line :: progress.found, unit⟩ := by
  obtain ⟨x, more, isCons, notBlank⟩ := isText.first
  obtain ⟨initial, y, isConcat, lastNotBlank, notComma⟩ := isText.last
  obtain ⟨unit, isDepth, isUnit⟩ := depthOf_indent follows step number
  have whole : Text.dropEndWhile Text.isBlank ((Text.indent depth).toList ++ text) =
      (Text.indent depth).toList ++ text := by
    rw [isConcat, ← List.append_assoc, ← List.append_nil [y]]
    exact Text.dropEndWhile_append lastNotBlank (by simp)
  have content : ((Text.indent depth).toList ++ text).dropWhile Text.isBlank = text := by
    rw [List.dropWhile_append_of_pos (Text.isBlank_indent depth), isCons,
      List.dropWhile_cons_of_neg (by simp [notBlank])]
  have indent : ((Text.indent depth).toList ++ text).takeWhile Text.isBlank =
      (Text.indent depth).toList := by
    rw [List.takeWhile_append_of_pos (Text.isBlank_indent depth), isCons,
      List.takeWhile_cons_of_neg (by simp [notBlank]), List.append_nil]
  have closed : (text.getLast? == some ',') = false := by simp [isConcat, notComma]
  have size : Text.size (Text.indent depth).toList = 2 * depth := by
    rw [Text.toList_indent, Text.size_spaces]
  let line : SourceLine :=
    ⟨Text.size front + Text.size (Text.indent depth).toList,
      Text.size front + Text.size ((Text.indent depth).toList ++ text),
      Text.size (Text.indent depth).toList, depth, number, isRemark (depth, text), false, []⟩
  have same : Matches line (depth, text) := ⟨rfl, size, rfl, rfl⟩
  refine ⟨line, unit, ?_, ⟨same, ?_, rfl⟩, .some same, ?_⟩
  · unfold addLine
    simp only [whole, content, indent, closed, isDepth]
    rw [if_neg (by simp [isCons])]
    have known := follows.last
    cases isFound : progress.found with
    | nil => rfl
    | cons last earlier =>
      rw [isFound] at known
      cases known with
      | @some _ row isLast =>
        have notBelow : (last.isComment && decide (Text.size (Text.indent depth).toList > last.indent)) =
            false := by
          rw [size, isLast.comment, isLast.indent]
          cases comment : isRemark row with
          | false => rfl
          | true =>
            rw [reach_remark comment] at step
            simpa using step
        simp only [notBelow, isLast.closed, Bool.and_false]
        rfl
  · have inside := Cursor.rest_limitTo_seek (front ++ (Text.indent depth).toList) text ('\n' :: rest)
    have atStart : line.start = Text.size (front ++ (Text.indent depth).toList) := by
      rw [Text.size_append]
    have atStop : line.stop = Text.size (front ++ (Text.indent depth).toList) + Text.size text := by
      rw [Text.size_append, Nat.add_assoc, ← Text.size_append]
    unfold Indented.Source.lineText Indented.Source.cursorAt
    rw [isSource, atStop, atStart]
    simpa using inside
  · rcases isUnit with known | ⟨none, top⟩
    · exact .inl known
    · exact .inr ⟨none, top⟩

/-- A text of rows is cut into lines that show the rows. -/
theorem addLines_shows (shows : Shows text rows) :
    ∀ {previous progress}, Follows previous progress → Steps previous rows →
      ∀ {front : List Char}, source.text = Cursor.ofChars (front ++ text) → ∀ number,
      ∃ lines unit, addLines progress number (Text.size front) (Text.splitLines text) =
          .ok ⟨lines.reverse ++ progress.found, unit⟩ ∧
        List.Forall₂ (IsLine source) lines rows := by
  induction shows with
  | nil =>
    intro previous progress follows steps front isSource number
    exact ⟨[], progress.unit, rfl, .nil⟩
  | empty others ih =>
    intro previous progress follows steps front isSource number
    rw [← List.singleton_append, ← List.append_assoc] at isSource
    obtain ⟨lines, unit, added, areLines⟩ := ih follows steps isSource (number + 1)
    refine ⟨lines, unit, ?_, areLines⟩
    rw [Text.size_append] at added
    exact added
  | @row text rest rows depth isText others ih =>
    intro previous progress follows steps front isSource number
    obtain ⟨line, unit, added, isLine, goesOn⟩ :=
      addLine_row follows steps.1 isText number isSource
    have behind : source.text =
        Cursor.ofChars ((front ++ ((Text.indent depth).toList ++ text ++ ['\n'])) ++ rest) := by
      rw [isSource]
      simp
    obtain ⟨lines, last, addedAll, areLines⟩ := ih goesOn steps.2 behind (number + 1)
    refine ⟨line :: lines, last, ?_, .cons isLine areLines⟩
    have oneLine : '\n' ∉ (Text.indent depth).toList ++ text := by
      rw [Text.toList_indent]
      simp [isText.oneLine]
    have offset : Text.size (front ++ ((Text.indent depth).toList ++ text ++ ['\n'])) =
        Text.size front + Text.size ((Text.indent depth).toList ++ text) + 1 := by
      rw [Text.size_append, Text.size_append _ ['\n'], ← Nat.add_assoc]
      rfl
    rw [Text.splitLines_append oneLine, addLines, added, List.reverse_cons, List.append_assoc]
    rw [offset] at addedAll
    exact addedAll

theorem lines_shows (shows : Shows text rows) (steps : Steps none rows)
    (isSource : source.text = Cursor.ofChars text) :
    ∃ found, lines text = .ok found ∧ List.Forall₂ (IsLine source) found rows := by
  have atStart : source.text = Cursor.ofChars ([] ++ text) := isSource
  obtain ⟨found, unit, added, areLines⟩ := addLines_shows shows follows_nil steps atStart 1
  refine ⟨found, ?_, areLines⟩
  have added : addLines ⟨[], none⟩ 1 0 (Text.splitLines text) = .ok ⟨found.reverse ++ [], unit⟩ :=
    added
  unfold lines
  rw [added]
  simp [bind, Except.bind, pure, Except.pure]

theorem checkDepths_steps {lines : List SourceLine} (areLines : List.Forall₂ (IsLine source) lines rows)
    (steps : Steps previous rows) : checkDepths (previous.map (·.1)) lines = .ok () := by
  induction areLines generalizing previous with
  | nil => rfl
  | cons isLine others ih =>
    unfold checkDepths
    rw [isLine.depth, if_neg (Nat.not_lt.mpr (steps.1.trans (reach_le previous)))]
    exact ih steps.2

/-- The tree of a text of rows is the tree of its lines. -/
theorem ofLines_shows (shows : Shows text rows) (steps : Steps none rows)
    (isSource : source.text = Cursor.ofChars text) :
    ∃ found, lines text = .ok found ∧ ofLines found = .ok (forest found) ∧
      List.Forall₂ (IsLine source) found rows := by
  obtain ⟨found, isLines, areLines⟩ := lines_shows shows steps isSource
  refine ⟨found, isLines, ?_, areLines⟩
  have allowed : checkDepths none found = .ok () := checkDepths_steps areLines steps
  unfold ofLines
  rw [allowed]
  rfl

end Lines

end Outline

end Stylesheet
