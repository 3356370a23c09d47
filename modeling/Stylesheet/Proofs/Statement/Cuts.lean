import Mathlib.Data.List.Infix
import Stylesheet.Proofs.Except
import Stylesheet.Proofs.Source.Places
import Stylesheet.Proofs.Statement.Errors

/-! Where an indented text is cut. Lines begin and end between characters; the lines below a comment
are cut at offsets that other lines give, and these may lie inside a character of a wide
indentation. -/

namespace Stylesheet

namespace Text

/-- The offset lies between the bytes of one character. -/
def FallsInside (text : List Char) (offset : Nat) : Prop :=
  ∃ front c back, text = front ++ c :: back ∧ size front < offset ∧
    offset < size front + c.utf8Size

/-- Every character of the indentation is a single byte. -/
def IsNarrow (line : List Char) : Prop :=
  ∀ c ∈ line.takeWhile isBlank, c.utf8Size = 1

theorem size_nil : size [] = 0 :=
  rfl

theorem size_le_of_prefix {front text : List Char} (leading : front <+: text) :
    size front ≤ size text := by
  obtain ⟨back, rfl⟩ := leading
  rw [size_append]
  exact Nat.le_add_right _ _

/-- What is shorter than the indentation belongs to it. -/
theorem isBlank_of_size_le {front : List Char} (back : List Char)
    (short : size front ≤ size ((front ++ back).takeWhile isBlank)) :
    ∀ c ∈ front, isBlank c = true := by
  induction front with
  | nil => exact nofun
  | cons c front ih =>
    have positive := c.utf8Size_pos
    cases blank : isBlank c with
    | false =>
      rw [List.cons_append, List.takeWhile_cons_of_neg (by simp [blank]), size_cons] at short
      rw [size_nil] at short
      omega
    | true =>
      rw [List.cons_append, List.takeWhile_cons_of_pos blank, size_cons, size_cons] at short
      intro x member
      rcases List.mem_cons.mp member with rfl | member
      · exact blank
      · exact ih (by omega) x member

/-- The offsets inside a narrow indentation are places. -/
theorem IsNarrow.not_fallsInside {line : List Char} {offset : Nat} (narrow : IsNarrow line)
    (short : offset ≤ size (line.takeWhile isBlank)) : ¬FallsInside line offset := by
  rintro ⟨front, c, back, rfl, behind, inside⟩
  have blanks : ∀ x ∈ front, isBlank x = true := by
    refine isBlank_of_size_le (c :: back) ?_
    omega
  rw [List.takeWhile_append_of_pos blanks, size_append] at short
  unfold IsNarrow at narrow
  rw [List.takeWhile_append_of_pos blanks] at narrow
  cases blank : isBlank c with
  | false =>
    rw [List.takeWhile_cons_of_neg (by simp [blank]), size_nil] at short
    omega
  | true =>
    rw [List.takeWhile_cons_of_pos blank] at narrow
    have single := narrow c (List.mem_append_right _ List.mem_cons_self)
    omega

theorem takeWhile_prefix {p : Char → Bool} (front back : List Char) :
    front.takeWhile p <+: (front ++ back).takeWhile p := by
  induction front with
  | nil => exact List.nil_prefix
  | cons c front ih =>
    cases holds : p c with
    | false => simp [holds]
    | true =>
      rw [List.cons_append, List.takeWhile_cons_of_pos holds, List.takeWhile_cons_of_pos holds]
      exact (List.prefix_cons_inj c).mpr ih

/-- Dropping blanks at the end of a line leaves the indentation narrow. -/
theorem IsNarrow.withoutEnd {line : List Char} (narrow : IsNarrow line) :
    IsNarrow (dropEndWhile isBlank line) := by
  obtain ⟨back, same⟩ := dropEndWhile_prefix (p := isBlank) line
  have leading := takeWhile_prefix (p := isBlank) (dropEndWhile isBlank line) back
  rw [same] at leading
  exact fun c member => narrow c (leading.subset member)

theorem IsNarrow.of_append {blanks line : List Char} (narrow : IsNarrow (blanks ++ line))
    (all : ∀ c ∈ blanks, isBlank c = true) : IsNarrow line := by
  unfold IsNarrow at narrow
  rw [List.takeWhile_append_of_pos all] at narrow
  exact fun c member => narrow c (List.mem_append_right _ member)

/-- The first line of a text, and the lines behind it. -/
theorem splitLines_cases (text : List Char) :
    splitLines text = [text] ∨
      ∃ line rest, text = line ++ '\n' :: rest ∧ splitLines text = line :: splitLines rest := by
  induction text with
  | nil => exact .inl rfl
  | cons c text ih =>
    by_cases isEnd : c = '\n'
    · subst isEnd
      exact .inr ⟨[], text, rfl, rfl⟩
    · rw [splitLines, if_neg (by simpa using isEnd)]
      rcases ih with single | ⟨line, rest, rfl, split⟩
      · rw [single]
        exact .inl rfl
      · rw [split]
        exact .inr ⟨c :: line, rest, rfl, rfl⟩

end Text

namespace Outline

section Cut

variable {count : Nat} {text kept : List Char} {d : Diagnostic}

theorem cut_error (failed : cut count text = .error d) :
    d = brokenCut ∧ Text.FallsInside text count := by
  fun_induction cut count text with
  | case1 | case2 => cases failed
  | case3 count c rest notZero inside =>
    cases failed
    refine ⟨rfl, [], c, rest, rfl, ?_, ?_⟩
    · exact Nat.pos_of_ne_zero notZero
    · rwa [Text.size_nil, Nat.zero_add]
  | case4 count c rest _ outside ih =>
    obtain ⟨same, front, x, back, rfl, behind, inside⟩ := ih failed
    refine ⟨same, c :: front, x, back, rfl, ?_, ?_⟩ <;> rw [Text.size_cons] <;> omega

theorem cut_of_fallsInside (inside : Text.FallsInside text count) :
    cut count text = .error brokenCut := by
  obtain ⟨front, c, back, rfl, behind, before⟩ := inside
  induction front generalizing count with
  | nil =>
    rw [Text.size_nil] at behind before
    obtain ⟨count, rfl⟩ := Nat.exists_eq_succ_of_ne_zero behind.ne'
    rw [List.nil_append, cut, if_pos (by omega)]
    exact nofun
  | cons x front ih =>
    rw [Text.size_cons] at behind before
    have positive := x.utf8Size_pos
    obtain ⟨count, rfl⟩ := Nat.exists_eq_succ_of_ne_zero (show count ≠ 0 by omega)
    rw [List.cons_append, cut, if_neg (by omega)]
    · exact ih (by omega) (by omega)
    · exact nofun

theorem cut_suffix (ran : cut count text = .ok kept) :
    ∃ front, text = front ++ kept ∧ Text.size front ≤ count := by
  fun_induction cut count text with
  | case1 =>
    cases ran
    exact ⟨[], rfl, Nat.le_refl _⟩
  | case2 =>
    cases ran
    exact ⟨[], rfl, Nat.zero_le _⟩
  | case3 => cases ran
  | case4 count c rest _ outside ih =>
    obtain ⟨front, rfl, short⟩ := ih ran
    refine ⟨c :: front, rfl, ?_⟩
    rw [Text.size_cons]
    omega

end Cut

/-- A line that begins and ends between characters of a text. The lines below it are lines of the
text with blanks in front. -/
structure Lies (text : List Char) (line : SourceLine) : Prop where
  start : Text.IsPlace text line.start
  stop : Text.IsPlace text line.stop
  ordered : line.start ≤ line.stop
  comment : line.isComment = true → ∃ front x more, text = front ++ '/' :: x :: more ∧
    Text.size front = line.start ∧ x.utf8Size = 1 ∧ line.start + 2 ≤ line.stop
  body : ∀ below ∈ line.body, ∃ raw ∈ Text.splitLines text, ∃ blanks,
    Text.dropEndWhile Text.isBlank raw = blanks ++ below ∧ ∀ c ∈ blanks, Text.isBlank c = true

/-- A physical line without the blanks at its end. -/
abbrev trimmed (raw : List Char) : List Char :=
  Text.dropEndWhile Text.isBlank raw

/-- The blanks in front of a physical line. -/
abbrev indentation (raw : List Char) : List Char :=
  (trimmed raw).takeWhile Text.isBlank

/-- What stands on a physical line. -/
abbrev content (raw : List Char) : List Char :=
  (trimmed raw).dropWhile Text.isBlank

abbrev beginsComment (text : List Char) : Bool :=
  ['/', '/'].isPrefixOf text || ['/', '*'].isPrefixOf text

/-- What becomes of the lines found so far when a physical line is added. -/
inductive Adds (progress : Progress) (number offset : Nat) (raw : List Char) :
    Except Diagnostic Progress → Prop where
  | empty : Adds progress number offset raw (.ok progress)
  | misplaced (failed : depthOf progress.found.isEmpty progress.unit number (indentation raw) =
      .error d) : Adds progress number offset raw (.error d)
  | line : Adds progress number offset raw
      (.ok ⟨⟨offset + Text.size (indentation raw), offset + Text.size (trimmed raw),
        Text.size (indentation raw), depth, number, beginsComment (content raw), isOpen, []⟩ ::
          progress.found, unit⟩)
  | broken (isLast : progress.found = last :: earlier) (isComment : last.isComment = true)
      (deeper : last.indent < Text.size (indentation raw))
      (failed : cut last.indent (trimmed raw) = .error d) :
      Adds progress number offset raw (.error d)
  | below (isLast : progress.found = last :: earlier) (isComment : last.isComment = true)
      (deeper : last.indent < Text.size (indentation raw))
      (ran : cut last.indent (trimmed raw) = .ok kept) :
      Adds progress number offset raw
        (.ok ⟨{ last with body := last.body ++ [kept] } :: earlier, progress.unit⟩)
  | more (isLast : progress.found = last :: earlier) (notComment : last.isComment = false) :
      Adds progress number offset raw
        (.ok ⟨{ last with stop := offset + Text.size (trimmed raw), isOpen } :: earlier,
          progress.unit⟩)

section Lines

variable {text rest : List Char} {progress after : Progress} {number offset : Nat}
  {raw : List Char} {d : Diagnostic}

theorem depthOf_error {isFirst : Bool} {unit : Option (List Char)} {indent : List Char}
    (failed : depthOf isFirst unit number indent = .error d) : d.severity = .error := by
  unfold depthOf at failed
  split at failed
  · cases failed
  split at failed
  · cases failed
    rfl
  split at failed
  · cases failed
    rfl
  dsimp only at failed
  split at failed <;> cases failed
  rfl

theorem addLine_adds (progress : Progress) (number offset : Nat) (raw : List Char) :
    Adds progress number offset raw (addLine progress number offset raw) := by
  have isNew : Adds progress number offset raw (do
      let found ← depthOf progress.found.isEmpty progress.unit number (indentation raw)
      return ⟨⟨offset + Text.size (indentation raw), offset + Text.size (trimmed raw),
        Text.size (indentation raw), found.1, number, beginsComment (content raw),
        (content raw).getLast? == some ',', []⟩ :: progress.found, found.2⟩) := by
    cases isDepth : depthOf progress.found.isEmpty progress.unit number (indentation raw) with
    | error d => exact .misplaced isDepth
    | ok result => exact .line
  unfold addLine
  dsimp only
  split
  · exact .empty
  split
  · exact isNew
  · rename_i last earlier isLast
    split
    · rename_i below
      obtain ⟨isComment, deeper⟩ := Bool.and_eq_true_iff.mp below
      cases ran : cut last.indent (trimmed raw) with
      | error d => exact .broken isLast isComment (of_decide_eq_true deeper) ran
      | ok kept => exact .below isLast isComment (of_decide_eq_true deeper) ran
    · split
      · rename_i joined
        have notComment := (Bool.and_eq_true_iff.mp joined).1
        exact .more isLast (by simpa using notComment)
      · exact isNew

/-- A physical line below a comment whose indentation ends inside one of its characters. -/
def BreaksBelow (progress : Progress) (raw : List Char) : Prop :=
  ∃ last ∈ progress.found.head?, last.isComment = true ∧
    last.indent < Text.size (indentation raw) ∧ Text.FallsInside (trimmed raw) last.indent

theorem addLine_error (failed : addLine progress number offset raw = .error d) :
    d.severity = .error ∨ (d = brokenCut ∧ BreaksBelow progress raw) := by
  have adds := addLine_adds progress number offset raw
  rw [failed] at adds
  cases adds with
  | misplaced failed => exact .inl (depthOf_error failed)
  | @broken last _ _ isLast isComment deeper failed =>
    obtain ⟨same, inside⟩ := cut_error failed
    exact .inr ⟨same, last, by rw [isLast]; rfl, isComment, deeper, inside⟩

theorem addLines_error {lines : List (List Char)}
    (failed : addLines progress number offset lines = .error d) :
    d.severity = .error ∨ (d = brokenCut ∧ ∃ front raw behind before,
      lines = front ++ raw :: behind ∧ addLines progress number offset front = .ok before ∧
      BreaksBelow before raw) := by
  induction lines generalizing progress number offset with
  | nil => cases failed
  | cons raw rest ih =>
    unfold addLines at failed
    cases added : addLine progress number offset raw with
    | error fault =>
      rw [added] at failed
      cases failed
      refine (addLine_error added).imp id ?_
      rintro ⟨same, breaks⟩
      exact ⟨same, [], raw, rest, progress, rfl, rfl, breaks⟩
    | ok after =>
      rw [added] at failed
      refine (ih failed).imp id ?_
      rintro ⟨same, front, other, behind, before, rfl, ran, breaks⟩
      refine ⟨same, raw :: front, other, behind, before, rfl, ?_, breaks⟩
      unfold addLines
      rw [added]
      exact ran

theorem trimmed_eq_nil (empty : content raw = []) : trimmed raw = [] := by
  by_contra filled
  have last := List.rdropWhile_last_not Text.isBlank raw filled
  have all := List.dropWhile_eq_nil_iff.mp empty
  exact last (all _ (List.getLast_mem filled))

theorem addLine_breaks (breaks : BreaksBelow progress raw) :
    addLine progress number offset raw = .error brokenCut := by
  obtain ⟨last, isLast, isComment, deeper, inside⟩ := breaks
  obtain ⟨found, unit⟩ := progress
  obtain ⟨earlier, rfl⟩ : ∃ earlier, found = last :: earlier := by
    cases found with
    | nil => cases isLast
    | cons other earlier =>
      cases isLast
      exact ⟨earlier, rfl⟩
  have filled : (content raw).isEmpty = false := by
    rw [Bool.eq_false_iff, ne_eq, List.isEmpty_iff]
    intro empty
    have none : indentation raw = [] := by rw [indentation, trimmed_eq_nil empty]; rfl
    rw [none] at deeper
    exact absurd deeper (Nat.not_lt_zero _)
  unfold addLine
  dsimp only
  rw [if_neg (by simp [filled]), if_pos (by simp [isComment, deeper]), cut_of_fallsInside inside]
  rfl

theorem addLines_breaks {front behind : List (List Char)}
    (reached : addLines progress number offset front = .ok after) (breaks : BreaksBelow after raw) :
    addLines progress number offset (front ++ raw :: behind) = .error brokenCut := by
  induction front generalizing progress number offset with
  | nil =>
    cases reached
    rw [List.nil_append, addLines, addLine_breaks breaks]
    rfl
  | cons line front ih =>
    obtain ⟨middle, first, reached⟩ := exists_of_bind_ok reached
    rw [List.cons_append, addLines, first]
    exact ih reached

theorem slash_of_beginsComment {found : List Char} (begins : beginsComment found = true) :
    ∃ x more, found = '/' :: x :: more ∧ x.utf8Size = 1 := by
  rcases Bool.or_eq_true_iff.mp begins with silent | loud
  · obtain ⟨more, rfl⟩ := List.isPrefixOf_iff_prefix.mp silent
    exact ⟨'/', more, rfl, rfl⟩
  · obtain ⟨more, rfl⟩ := List.isPrefixOf_iff_prefix.mp loud
    exact ⟨'*', more, rfl, rfl⟩

/-- All lines found so far lie in the text, none of them behind the place. -/
def AllLie (text : List Char) (place : Nat) (progress : Progress) : Prop :=
  ∀ line ∈ progress.found, Lies text line ∧ line.stop ≤ place

theorem addLine_lies {front : List Char} (rest : List Char) (all : AllLie text (Text.size front) progress)
    (isText : text = front ++ raw ++ rest) (isRow : raw ∈ Text.splitLines text)
    (added : addLine progress number (Text.size front) raw = .ok after) :
    AllLie text (Text.size (front ++ raw)) after := by
  have adds := addLine_adds progress number (Text.size front) raw
  rw [added] at adds
  obtain ⟨back, isRaw⟩ := Text.dropEndWhile_prefix (p := Text.isBlank) raw
  have split : indentation raw ++ content raw = trimmed raw := List.takeWhile_append_dropWhile
  have short : Text.size front + Text.size (trimmed raw) ≤ Text.size (front ++ raw) := by
    rw [Text.size_append]
    exact Nat.add_le_add_left (Text.size_le_of_prefix ⟨back, isRaw⟩) _
  have whole : text = front ++ (trimmed raw ++ (back ++ rest)) := by
    rw [isText, List.append_assoc, ← List.append_assoc (trimmed raw), isRaw]
  have stop : Text.IsPlace text (Text.size front + Text.size (trimmed raw)) :=
    ⟨front ++ trimmed raw, back ++ rest, by rw [whole, List.append_assoc], Text.size_append _ _⟩
  have still : ∀ line ∈ progress.found, Lies text line ∧
      line.stop ≤ Text.size (front ++ raw) := fun line member =>
    ⟨(all line member).1, by have := (all line member).2; omega⟩
  cases adds with
  | empty => exact still
  | line =>
    intro line member
    rcases List.mem_cons.mp member with rfl | member
    · refine ⟨⟨?_, stop, ?_, fun isComment => ?_, nofun⟩, short⟩
      · refine ⟨front ++ indentation raw, content raw ++ (back ++ rest), ?_, Text.size_append _ _⟩
        rw [whole, List.append_assoc, ← List.append_assoc (indentation raw), split]
      · dsimp only
        rw [← split, Text.size_append]
        omega
      · obtain ⟨x, more, isContent, single⟩ := slash_of_beginsComment isComment
        refine ⟨front ++ indentation raw, x, more ++ (back ++ rest), ?_, Text.size_append _ _,
          single, ?_⟩
        · rw [whole, ← split, isContent]
          simp
        · dsimp only
          rw [← split, isContent, Text.size_append, Text.size_cons, Text.size_cons, single]
          have slash : '/'.utf8Size = 1 := rfl
          omega
    · exact still line member
  | @below last earlier kept isLast isComment deeper ran =>
    intro line member
    have memberLast : last ∈ progress.found := by
      rw [isLast]
      exact List.mem_cons_self
    rcases List.mem_cons.mp member with rfl | member
    · obtain ⟨lies, early⟩ := still last memberLast
      refine ⟨⟨lies.start, lies.stop, lies.ordered, lies.comment, fun found isBelow => ?_⟩, early⟩
      rcases List.mem_append.mp isBelow with isBelow | isBelow
      · exact lies.body found isBelow
      · rw [List.mem_singleton.mp isBelow]
        obtain ⟨blanks, same, little⟩ := cut_suffix ran
        refine ⟨raw, isRow, blanks, same, Text.isBlank_of_size_le kept ?_⟩
        rw [← same]
        exact little.trans (Nat.le_of_lt deeper)
    · exact still line (by rw [isLast]; exact List.mem_cons_of_mem last member)
  | @more last earlier _ isLast notComment =>
    intro line member
    have memberLast : last ∈ progress.found := by
      rw [isLast]
      exact List.mem_cons_self
    rcases List.mem_cons.mp member with rfl | member
    · obtain ⟨lies, _⟩ := still last memberLast
      have early := (all last memberLast).2
      have ordered := lies.ordered
      refine ⟨⟨lies.start, stop, ?_, fun isComment => ?_, lies.body⟩, short⟩
      · dsimp only
        omega
      · rw [notComment] at isComment
        cases isComment
    · exact still line (by rw [isLast]; exact List.mem_cons_of_mem last member)

/-- The induction follows the lines that are left; each one stands behind those in front of it. -/
theorem addLines_lies {lines : List (List Char)} {front : List Char}
    (all : AllLie text (Text.size front) progress) (isText : text = front ++ rest)
    (areLines : Text.splitLines rest = lines) (rows : ∀ raw ∈ lines, raw ∈ Text.splitLines text)
    (added : addLines progress number (Text.size front) lines = .ok after) :
    ∃ place, AllLie text place after := by
  induction lines generalizing rest front progress number with
  | nil =>
    rcases Text.splitLines_cases rest with single | ⟨_, _, _, split⟩
    · rw [single] at areLines
      cases areLines
    · rw [split] at areLines
      cases areLines
  | cons raw others ih =>
    unfold addLines at added
    obtain ⟨middle, first, added⟩ := exists_of_bind_ok added
    have isRow := rows raw List.mem_cons_self
    rcases Text.splitLines_cases rest with single | ⟨line, behind, isRest, split⟩
    · rw [single] at areLines
      cases areLines
      cases added
      exact ⟨_, addLine_lies [] all (by rw [isText, List.append_nil]) isRow first⟩
    · rw [split] at areLines
      cases areLines
      have lie := addLine_lies ('\n' :: behind) all
        (by rw [isText, isRest, List.append_assoc]) isRow first
      have offset : Text.size (front ++ raw ++ ['\n']) = Text.size front + Text.size raw + 1 := by
        rw [Text.size_append, Text.size_append]
        rfl
      rw [← offset] at added
      refine ih (fun line member => ?_) ?_ rfl (fun raw member => rows raw
        (List.mem_cons_of_mem _ member)) added
      · obtain ⟨lies, early⟩ := lie line member
        refine ⟨lies, early.trans ?_⟩
        rw [Text.size_append _ ['\n']]
        exact Nat.le_add_right _ _
      · rw [isText, isRest]
        simp

/-- Every line of a text begins and ends between characters. -/
theorem lines_lie {lines : List SourceLine} (found : Outline.lines text = .ok lines) :
    ∀ line ∈ lines, Lies text line := by
  unfold Outline.lines at found
  obtain ⟨progress, added, same⟩ := exists_of_bind_ok found
  cases same
  have start : AllLie text (Text.size []) ⟨[], none⟩ := nofun
  obtain ⟨place, all⟩ := addLines_lies start rfl rfl (fun _ => id) added
  exact fun line member => (all line (List.mem_reverse.mp member)).1

end Lines

/-- The lines of some outlines, each before those below it. -/
def flat : List Outline → List SourceLine
  | [] => []
  | .mk line children :: rest => line :: flat children ++ flat rest

theorem flat_forest (lines : List SourceLine) : flat (forest lines) = lines := by
  fun_induction forest lines with
  | case1 => rw [flat]
  | case2 line rest below behind =>
    rw [flat, below, behind, List.cons_append, List.takeWhile_append_dropWhile]

theorem checkDepths_blames (previous : Option Nat) (lines : List SourceLine) :
    Blames (checkDepths previous lines) := by
  induction lines generalizing previous with
  | nil => exact .ok
  | cons line rest ih =>
    unfold checkDepths
    dsimp only
    split
    · exact .error rfl
    · exact ih _

end Outline

namespace Indented

open Header Outline

/-- A comment one of whose lines is cut inside a character by the indentation they share. -/
def BreaksInside (line : SourceLine) : Prop :=
  line.isComment = true ∧ ∃ below ∈ line.body, Text.FallsInside below (commonIndent line.body)

section Statements

variable {source : Source} {line : SourceLine} {d : Diagnostic}

theorem Source.read_blames {reading : Reading α} (sound : Sound (fun _ => True) reading) :
    Blames (source.read line reading) :=
  (sound _ _ trivial).1.bind fun _ => .ok

theorem comment_error (failed : comment source line = .error d) :
    d = brokenCut ∧ ∃ below ∈ line.body, Text.FallsInside below (commonIndent line.body) := by
  rcases of_bind_error failed with failed | ⟨body, _, failed⟩
  · obtain ⟨below, member, broken⟩ := mapM_error failed
    exact ⟨(cut_error broken).1, below, member, (cut_error broken).2⟩
  · cases failed

/-- The recursion follows the outlines: what is cut inside a character is a comment among them. -/
theorem statements_error : (lines : List Outline) → (found : List Statement) →
    statements source found lines = .error d →
    d.severity = .error ∨ ∃ line ∈ flat lines, BreaksInside line
  | [], found, failed => by
    unfold statements at failed
    cases failed
  | .mk line children :: rest, found, failed => by
    have below : ∀ found, statements source found children = .error d →
        d.severity = .error ∨
        ∃ broken ∈ flat (.mk line children :: rest), BreaksInside broken := by
      intro found failed
      refine (statements_error children found failed).imp id ?_
      rintro ⟨other, member, breaks⟩
      exact ⟨other, by rw [flat]; simp [member], breaks⟩
    have behind : ∀ found, statements source found rest = .error d →
        d.severity = .error ∨
        ∃ broken ∈ flat (.mk line children :: rest), BreaksInside broken := by
      intro found failed
      refine (statements_error rest found failed).imp id ?_
      rintro ⟨other, member, breaks⟩
      exact ⟨other, by rw [flat]; simp [member], breaks⟩
    unfold statements at failed
    rcases of_bind_error failed with failed | ⟨branch, _, failed⟩
    · exact .inl (source.read_blames elseHeader?_sound d failed)
    cases branch with
    | some branch =>
      rcases of_bind_error failed with failed | ⟨block, _, failed⟩
      · exact below [] failed
      rcases of_bind_error failed with failed | ⟨longer, _, failed⟩
      · unfold addElse at failed
        split at failed <;> cases failed
        exact .inl rfl
      · exact behind longer failed
    | none =>
      dsimp only at failed
      split at failed
      · rename_i isComment
        rcases of_bind_error failed with failed | ⟨added, _, failed⟩
        · exact .inr ⟨line, by rw [flat]; simp, isComment, (comment_error failed).2⟩
        · exact behind _ failed
      · rcases of_bind_error failed with failed | ⟨added, _, failed⟩
        · exact .inl (source.read_blames header_sound d failed)
        rcases of_bind_error failed with failed | ⟨block, _, failed⟩
        · exact below [] failed
        · exact behind _ failed

end Statements

/-- An indented text in which a line below a comment is cut inside a character: where the comment's
own indentation ends, or where the indentation ends that all its lines share. -/
inductive CutsInside (text : List Char) : Prop where
  | below (rows : Text.splitLines text = front ++ raw :: behind)
      (reached : addLines ⟨[], none⟩ 1 0 front = .ok progress) (breaks : BreaksBelow progress raw)
  | shared {all : List SourceLine} {comment : SourceLine} (found : Outline.lines text = .ok all)
      (member : comment ∈ all) (breaks : BreaksInside comment)

theorem parse_error {text : String} {d : Diagnostic} (failed : parse text = .error d) :
    d.severity = .error ∨ CutsInside text.toList := by
  rcases of_bind_error failed with failed | ⟨lines, isLines, failed⟩
  · rcases of_bind_error failed with failed | ⟨progress, _, failed⟩
    · refine (addLines_error failed).imp id ?_
      rintro ⟨_, front, raw, behind, before, rows, reached, breaks⟩
      exact .below rows reached breaks
    · cases failed
  rcases of_bind_error failed with failed | ⟨tree, isTree, failed⟩
  · rcases of_bind_error failed with failed | ⟨_, _, failed⟩
    · exact .inl (checkDepths_blames none lines d failed)
    · cases failed
  rcases of_bind_error failed with failed | ⟨children, _, failed⟩
  · refine (statements_error tree [] failed).imp id ?_
    rintro ⟨line, member, breaks⟩
    obtain ⟨⟨⟩, _, same⟩ := exists_of_bind_ok isTree
    cases same
    rw [flat_forest] at member
    exact .shared isLines member breaks
  · cases failed

/-- The common indentation of some lines is no larger than that of each of them. -/
theorem commonIndent_le {lines : List (List Char)} {line : List Char} (member : line ∈ lines) :
    commonIndent lines ≤ Text.size (line.takeWhile Text.isBlank) := by
  unfold commonIndent
  have isSize := List.mem_map_of_mem (f := fun line => Text.size (line.takeWhile Text.isBlank)) member
  exact List.min?_getD_le_of_mem isSize

/-- In a text whose indentations are narrow, nothing is cut inside a character. -/
theorem not_cutsInside {text : List Char}
    (narrow : ∀ raw ∈ Text.splitLines text, Text.IsNarrow raw) : ¬CutsInside text := by
  rintro (⟨rows, reached, breaks⟩ | ⟨found, member, _, below, isBelow, inside⟩)
  · obtain ⟨last, _, _, deeper, inside⟩ := breaks
    have isNarrow := narrow _ (rows ▸ List.mem_append_right _ List.mem_cons_self)
    exact isNarrow.withoutEnd.not_fallsInside (Nat.le_of_lt deeper) inside
  · obtain ⟨raw, isRow, blanks, same, all⟩ := (lines_lie found _ member).body below isBelow
    have isNarrow := (narrow raw isRow).withoutEnd
    rw [same] at isNarrow
    exact (isNarrow.of_append all).not_fallsInside (commonIndent_le isBelow) inside

/-- Lines begin and end between the characters of the text. Reading breaks off only where a line
below a comment is cut inside a character, and at the first such line if it is the comment's own
indentation that cuts; where all indentations are narrow, it never breaks off. -/
theorem parse_breaks_only_below_comments (text : String) :
    (∀ all, Outline.lines text.toList = .ok all → ∀ line ∈ all, Lies text.toList line) ∧
    (∀ d, parse text = .error d → d.severity = .error ∨ CutsInside text.toList) ∧
    (∀ front raw behind progress, Text.splitLines text.toList = front ++ raw :: behind →
      addLines ⟨[], none⟩ 1 0 front = .ok progress → BreaksBelow progress raw →
        parse text = .error brokenCut) ∧
    ((∀ raw ∈ Text.splitLines text.toList, Text.IsNarrow raw) →
      ∀ d, parse text = .error d → d.severity = .error) := by
  refine ⟨fun all => lines_lie, fun d => parse_error, ?_, fun narrow d failed => ?_⟩
  · intro front raw behind progress rows reached breaks
    have broken : Outline.lines text.toList = .error brokenCut := by
      unfold Outline.lines
      rw [rows, addLines_breaks reached breaks]
      rfl
    unfold parse
    dsimp only
    rw [broken]
    rfl
  · exact (parse_error failed).resolve_right (not_cutsInside narrow)

/-- A line with a wide blank below a comment with a narrow one. -/
theorem parse_breaks_inside_wide_blank :
    parse "a\n // c\n\u3000x" = .error brokenCut := by
  rfl

end Indented

end Stylesheet
