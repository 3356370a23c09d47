import Stylesheet.Proofs.Statement.Openings
import Stylesheet.Proofs.Statement.Rows

/-! What is written by indentation is read back. -/

namespace Stylesheet

open Scan Header

namespace Written

open Outline

mutual

/-- The rows of a statement. -/
def rows (depth : Nat) : Written → List Row
  | block opening body => (depth, opening.source .indented) :: rowsOfAll (depth + 1) body
  | leaf l => [(depth, l.text)]
  | comment remark => [(depth, remark.text)]

def rowsOfAll (depth : Nat) : List Written → List Row
  | [] => []
  | w :: rest => rows depth w ++ rowsOfAll depth rest

end

mutual

/-- Directives of which the block is seen have something in it. -/
def Filled : Written → Prop
  | block opening body => (opening.isDirective = true → body ≠ []) ∧ AllFilled body
  | leaf _ | comment _ => True

def AllFilled : List Written → Prop
  | [] => True
  | w :: rest => w.Filled ∧ AllFilled rest

end

theorem isLineText_of_ends {text : List Char}
    (starts : ∃ x more, text = x :: more ∧ startsStatement x = true)
    (ends : ∃ front x, text = front ++ [x] ∧ endsLine x = true) (oneLine : '\n' ∉ text) :
    IsLineText text := by
  obtain ⟨x, more, isCons, starts⟩ := starts
  obtain ⟨front, last, isConcat, ends⟩ := ends
  simp only [endsLine, Bool.and_eq_true, bne_iff_ne, Bool.not_eq_true'] at ends
  exact ⟨⟨x, more, isCons, startsStatement_notBlank starts⟩, ⟨front, last, isConcat, ends.1⟩, oneLine⟩

theorem isLineText_remark (remark : Remark) : IsLineText remark.text :=
  ⟨⟨'/', _, rfl, by decide⟩, ⟨'/' :: '*' :: (remark.content ++ [' ', '*']), '/',
    by simp [Remark.text], by decide, by decide⟩, remark.oneLine_text⟩

/-- What starts a statement is no comment. -/
theorem isRemark_of_starts {text : List Char}
    (starts : ∃ x more, text = x :: more ∧ startsStatement x = true) (depth : Nat) :
    isRemark (depth, text) = false := by
  obtain ⟨x, more, rfl, starts⟩ := starts
  have notSlash : ('/' == x) = false := by
    rw [beq_eq_false_iff_ne]
    rintro rfl
    cases starts
  simp [isRemark, List.isPrefixOf, notSlash]

mutual

theorem shows_text {rest : List Char} {behind : List Row} (others : Shows rest behind) :
    (w : Written) → (depth : Nat) →
      Shows ((w.text .indented depth).toList ++ rest) (w.rows depth ++ behind)
  | .block opening body, depth => by
    have inner := shows_textOfAll others body (depth + 1)
    have isText := isLineText_of_ends (opening.exists_cons .indented)
      (opening.exists_concat .indented) (opening.oneLine .indented)
    simpa [text, rows, SourceText.block] using Shows.row depth isText inner
  | .leaf l, depth => by
    have isText := isLineText_of_ends l.exists_cons l.exists_concat l.oneLine
    simpa [text, rows, SourceText.statement] using Shows.row depth isText others
  | .comment remark, depth => by
    simpa [text, rows, remark.source_eq] using Shows.row depth (isLineText_remark remark) others

/-- The text of statements that are written by indentation shows their rows. -/
theorem shows_textOfAll {rest : List Char} {behind : List Row} (others : Shows rest behind) :
    (found : List Written) → (depth : Nat) →
      Shows ((textOfAll .indented depth found).toList ++ rest) (rowsOfAll depth found ++ behind)
  | [], depth => by simpa [textOfAll, rowsOfAll] using others
  | w :: found, depth => by
    have whole := shows_text (shows_textOfAll others found depth) w depth
    simpa [textOfAll, rowsOfAll] using whole

end

mutual

theorem steps_rows {behind : List Row} :
    (w : Written) → (depth : Nat) → (previous : Option Row) → depth ≤ reach previous →
      (∀ row : Row, depth ≤ row.1 → Steps (some row) behind) → Steps previous (w.rows depth ++ behind)
  | .block opening body, depth, _, allowed, others => by
    have notRemark := isRemark_of_starts (opening.exists_cons .indented) depth
    have deeper : depth + 1 ≤ reach (some (depth, opening.source .indented)) := by
      unfold reach
      simp [notRemark]
    exact ⟨allowed, steps_rowsOfAll body (depth + 1) _ deeper (others _ (Nat.le_refl _))
      fun row below => others row (Nat.le_of_succ_le below)⟩
  | .leaf _, _, _, allowed, others | .comment _, _, _, allowed, others =>
    ⟨allowed, others _ (Nat.le_refl _)⟩

theorem steps_rowsOfAll {behind : List Row} :
    (found : List Written) → (depth : Nat) → (previous : Option Row) → depth ≤ reach previous →
      Steps previous behind → (∀ row : Row, depth ≤ row.1 → Steps (some row) behind) →
      Steps previous (rowsOfAll depth found ++ behind)
  | [], depth, previous, allowed, next, others => next
  | w :: found, depth, previous, allowed, next, others => by
    rw [rowsOfAll, List.append_assoc]
    refine steps_rows w depth previous allowed fun row below => ?_
    exact steps_rowsOfAll found depth (some row) (below.trans (le_reach row)) (others row below) others

end

mutual

theorem le_depth_of_mem_rows :
    (w : Written) → (depth : Nat) → ∀ row ∈ w.rows depth, depth ≤ row.1
  | .block opening body, depth, row, member => by
    rcases List.mem_cons.mp member with rfl | inside
    · exact Nat.le_refl _
    · exact Nat.le_of_succ_le (le_depth_of_mem_rowsOfAll body (depth + 1) row inside)
  | .leaf _, depth, row, member | .comment _, depth, row, member => by
    rw [List.mem_singleton.mp member]

theorem le_depth_of_mem_rowsOfAll :
    (found : List Written) → (depth : Nat) → ∀ row ∈ rowsOfAll depth found, depth ≤ row.1
  | [], depth, row, member => by cases member
  | w :: found, depth, row, member => by
    rcases List.mem_append.mp member with inside | behind
    · exact le_depth_of_mem_rows w depth row inside
    · exact le_depth_of_mem_rowsOfAll found depth row behind

end

theorem head_rowsOfAll (found : List Written) (depth : Nat) :
    ∀ row ∈ (rowsOfAll depth found).head?, row.1 ≤ depth := by
  cases found with
  | nil => simp [rowsOfAll]
  | cons w found => cases w <;> simp [rowsOfAll, rows]

end Written

namespace Outline

section Below

variable {source : Indented.Source} {line : SourceLine} {inside behind : List SourceLine}
  {rows others : List Row} {row : Row}

theorem exists_of_shown (areLines : List.Forall₂ (IsLine source) inside rows) :
    ∀ l ∈ inside, ∃ row ∈ rows, l.depth = row.1 := by
  induction areLines with
  | nil => simp
  | cons isLine others ih =>
    intro l member
    rcases List.mem_cons.mp member with rfl | behind
    · exact ⟨_, List.mem_cons_self, isLine.depth⟩
    · obtain ⟨row, found, same⟩ := ih l behind
      exact ⟨row, List.mem_cons_of_mem _ found, same⟩

/-- The lines below a line are the deeper ones, when one that is not deeper comes next. -/
theorem forest_append (isLine : IsLine source line row)
    (areInside : List.Forall₂ (IsLine source) inside rows) (deeper : ∀ r ∈ rows, row.1 < r.1)
    (areBehind : List.Forall₂ (IsLine source) behind others)
    (stop : ∀ r ∈ others.head?, r.1 ≤ row.1) :
    forest (line :: (inside ++ behind)) = .mk line (forest inside) :: forest behind := by
  have below : ∀ l ∈ inside, decide (l.depth > line.depth) = true := by
    intro l member
    obtain ⟨r, isRow, same⟩ := exists_of_shown areInside l member
    rw [decide_eq_true_iff, same, isLine.depth]
    exact deeper r isRow
  have next : behind.takeWhile (·.depth > line.depth) = [] ∧
      behind.dropWhile (·.depth > line.depth) = behind := by
    cases areBehind with
    | nil => exact ⟨rfl, rfl⟩
    | @cons l r _ _ isNext _ =>
      have notDeeper : ¬decide (l.depth > line.depth) = true := by
        rw [decide_eq_true_iff, isNext.depth, isLine.depth]
        exact Nat.not_lt.mpr (stop r rfl)
      exact ⟨List.takeWhile_cons_of_neg notDeeper, List.dropWhile_cons_of_neg notDeeper⟩
  rw [forest, List.takeWhile_append_of_pos below, List.dropWhile_append_of_pos below, next.1, next.2,
    List.append_nil]

/-- Lines that show the rows of two parts are those of the parts. -/
theorem exists_append_of_shown {lines : List SourceLine}
    (areLines : List.Forall₂ (IsLine source) lines (rows ++ others)) :
    ∃ first second, lines = first ++ second ∧ List.Forall₂ (IsLine source) first rows ∧
      List.Forall₂ (IsLine source) second others :=
  ⟨_, _, (List.take_append_drop rows.length lines).symm, List.forall₂_take_append _ _ _ areLines,
    List.forall₂_drop_append _ _ _ areLines⟩

end Below

end Outline

namespace Indented

variable {source : Source} {line : SourceLine} {lines : LineIndex}

/-- What is read in a line depends on its text. -/
theorem Source.read_of_reads {reading : Reading α} {p : α → Prop} {text rest : List Char}
    (isText : source.lineText line = text) (reads : Reads source.lines reading text p rest) :
    ∃ a, source.read line reading = .ok a ∧ p a := by
  obtain ⟨a, after, found, holds, _⟩ := reads (source.cursorAt line) isText
  refine ⟨a, ?_, holds⟩
  unfold read
  rw [found]
  rfl

/-- No `@else` is seen in front of a text that begins with another sign or name. -/
theorem reads_elseHeader {text : List Char}
    (other : ∀ more, text = '@' :: more → keyword "else" more = false) :
    ∃ rest, Reads lines (elseHeader? line) text (· = none) rest := by
  by_cases isAt : text.head? = some '@'
  · obtain ⟨more, rfl⟩ := List.head?_eq_some_iff.mp isAt
    refine ⟨more, (Reads.eat "@" more).bind fun _ yes => ?_⟩
    subst yes
    refine (Reads.eatWord_none (other more rfl)).bind fun _ no => ?_
    subst no
    exact .pure rfl
  · refine ⟨text, (Reads.eat_none (isPrefixOf_false (c := '@') rfl isAt)).bind fun _ no => ?_⟩
    subst no
    exact .pure rfl

theorem reads_expectLineEnd : Reads lines expectLineEnd [] Whatever [] := by
  refine (reads_gaps rfl).after fun _ => Reads.get.bind fun c isText => ?_
  unfold Cursor.isDone
  rw [isText]
  exact .pure trivial

section Rules

theorem reads_rule (head : RuleHead) : Reads lines (rule line) head.text
    (· = .leaf (.rule head.template) line.number (lineSpan line)) [] := by
  have selector : Reads lines (templateUntil fun _ => false) (head.text ++ [])
      (· = Template.ofText (String.ofList head.text)) [] :=
    reads_templateUntil (fun _ _ => rfl) head.plain head.notHash (by simp)
  rw [List.append_nil] at selector
  refine selector.bind fun found same => ?_
  have trimmed : (Template.ofText (String.ofList (head.text ++ []))).trimmed = head.template :=
    head.trimmed (by simp)
  rw [List.append_nil] at trimmed
  subst same
  rw [trimmed, head.template_eq]
  exact .pure rfl

/-- In front of a rule no property is seen. -/
theorem reads_seesProperty_rule (lines : LineIndex) (head : RuleHead) :
    ∃ rest, Reads lines seesProperty head.text (· = false) rest := by
  have ends : EndsHead [] := ⟨by simp, by simp⟩
  have name := head.reads_name lines ends
  rw [List.append_nil] at name
  rcases name with ⟨rest, absent⟩ | ⟨name, rest, found, follows⟩
  · refine ⟨rest, absent.bind fun _ no => ?_⟩
    subst no
    exact .pure rfl
  by_cases isColon : (Text.afterBlanks rest).head? = some ':'
  · obtain ⟨more, colon⟩ := List.head?_eq_some_iff.mp isColon
    obtain ⟨left, rfl, behind⟩ := follows more colon
    refine ⟨left ++ [], found.bind fun _ isName => ?_⟩
    subst isName
    refine Reads.skipBlanks.after fun _ => ?_
    rw [colon]
    refine (Reads.eat ":" (left ++ [])).bind fun _ yes => ?_
    subst yes
    refine Reads.get.bind fun c isText => .pure ?_
    obtain ⟨x, isNext, notBlank⟩ := behind.exists_peek isText
    rw [isNext]
    exact notBlank
  · refine ⟨Text.afterBlanks rest, found.bind fun _ isName => ?_⟩
    subst isName
    refine Reads.skipBlanks.after fun _ => ?_
    refine (Reads.eat_none (isPrefixOf_false (c := ':') rfl isColon)).bind fun _ no => ?_
    subst no
    exact .pure rfl

end Rules

section Leaves

variable {name : PropertyName} {value : WrittenValue} {text : List Char}

theorem reads_name :
    Reads lines propertyName? (name.text ++ ':' :: text)
      (· = some (Template.ofText (String.ofList name.text))) (':' :: text) :=
  .propertyName_some name.startsPlain name.ident (nameTail_stop (by decide) (by decide) _)
    (by rintro _ ⟨⟩)

theorem reads_seesProperty_declaration :
    Reads lines seesProperty (name.text ++ ':' :: ' ' :: text) (· = true) (' ' :: text) := by
  refine reads_name.bind fun _ isName => ?_
  subst isName
  refine Reads.skipBlanks.after fun _ => ?_
  rw [Text.afterBlanks_of_head (by decide)]
  refine (Reads.eat ":" (' ' :: text)).bind fun _ yes => ?_
  subst yes
  refine Reads.get.bind fun c isText => .pure ?_
  unfold Cursor.peek?
  rw [isText]
  rfl

/-- A property that was read. -/
def IsProperty (line : SourceLine) (name : PropertyName) (value : WrittenValue) (s : Statement) :
    Prop :=
  ∃ e, s = .leaf (.property (Template.ofText (String.ofList name.text)) (some e)) line.number
    (lineSpan line) ∧ e.unplaced = value.expr

theorem reads_property {hasChildren : Bool} :
    Reads lines (property source line hasChildren) (name.text ++ ':' :: ' ' :: value.text)
      (IsProperty line name value) [] := by
  refine reads_name.bind fun _ isName => ?_
  subst isName
  refine Reads.skipBlanks.after fun _ => ?_
  rw [Text.afterBlanks_of_head (by decide)]
  refine (Reads.eat ":" (' ' :: value.text)).bind fun _ yes => ?_
  subst yes
  have read : Reads lines propertyValue? (' ' :: (value.text ++ []))
      (fun found => found.map Expr.unplaced = some value.expr) [] :=
    .propertyValue value.isValue (by simp)
  rw [List.append_nil] at read
  refine read.bind fun found isValue => reads_expectLineEnd.after fun _ => ?_
  cases found with
  | none => cases isValue
  | some e => exact .pure ⟨e, rfl, Option.some.inj isValue⟩

end Leaves

/-- A line that starts plainly is read as a property or as a rule. -/
theorem reads_header {x : Char} {more rest : List Char} {hasChildren : Bool} {p : Statement → Prop}
    (starts : startsSelector x = true) (notColon : x ≠ ':')
    (reads : Reads lines (propertyOrRule source line hasChildren) (x :: more) p rest) :
    Reads lines (header source line hasChildren) (x :: more) (fun out => ∃ s, out = [s] ∧ p s)
      rest := by
  refine Reads.get.bind fun c isText => ?_
  have one : Reads lines (do return [← propertyOrRule source line hasChildren]) (x :: more)
      (fun out => ∃ s, out = [s] ∧ p s) rest :=
    reads.bind fun s holds => .pure ⟨s, rfl, holds⟩
  have first : c.peek? = some x := by rw [Cursor.peek?, isText]; rfl
  rw [first]
  dsimp only
  split
  · rename_i same
    cases same
    cases starts
  · rename_i same
    cases same
    cases starts
  · rename_i same
    cases same
    cases starts
  · rename_i same _
    cases same
    cases starts
  · rename_i same _
    cases same
    exact absurd rfl notColon
  · rename_i same
    cases same
    cases starts
  · exact one

section Headers

variable {hasChildren : Bool}

/-- Behind a backslash a rule is read, whatever it starts with. -/
theorem reads_header_escaped (head : RuleHead) :
    Reads lines (header source line hasChildren) ('\\' :: head.text)
      (IsHeader (.rule head.template)) [] := by
  refine Reads.get.bind fun c isText => ?_
  have first : c.peek? = some '\\' := by rw [Cursor.peek?, isText]; rfl
  rw [first]
  have behind : c.next.rest = head.text := by rw [Cursor.rest_next, isText]; rfl
  refine (Reads.set behind).after fun _ => (reads_rule head).bind fun s isRule => .pure ?_
  subst isRule
  exact ⟨_, _, rfl⟩

theorem reads_header_rule (head : RuleHead) :
    Reads lines (header source line hasChildren) (head.source .indented)
      (IsHeader (.rule head.template)) [] := by
  rcases head.source_cases .indented with ⟨same, noColon⟩ | ⟨escaped, _⟩
  · obtain ⟨x, more, isCons, starts⟩ := head.exists_starts
    obtain ⟨rest, seen⟩ := reads_seesProperty_rule lines head
    have whole : Reads lines (propertyOrRule source line hasChildren) head.text
        (· = .leaf (.rule head.template) line.number (lineSpan line)) [] := by
      refine Reads.get.bind fun start isText => seen.bind fun _ no => ?_
      subst no
      exact (Reads.set isText).after fun _ => reads_rule head
    have notColon : x ≠ ':' := by
      rintro rfl
      exact noColon rfl (by rw [isCons]; rfl)
    rw [same]
    rw [isCons] at whole ⊢
    refine (reads_header starts notColon whole).weaken ?_
    rintro _ ⟨s, rfl, rfl⟩
    exact ⟨_, _, rfl⟩
  · rw [escaped]
    exact reads_header_escaped head

theorem reads_header_declaration (name : PropertyName) (value : WrittenValue) :
    Reads lines (header source line hasChildren) (name.text ++ ':' :: ' ' :: value.text)
      (fun out => ∃ s, out = [s] ∧ IsProperty line name value s) [] := by
  obtain ⟨x, more, isCons, starts⟩ := name.exists_cons
  have whole : Reads lines (propertyOrRule source line hasChildren)
      (name.text ++ ':' :: ' ' :: value.text) (IsProperty line name value) [] := by
    refine Reads.get.bind fun start isText => reads_seesProperty_declaration.bind fun _ yes => ?_
    subst yes
    exact (Reads.set isText).after fun _ => reads_property
  have notColon : x ≠ ':' := by
    rintro rfl
    cases starts
  rw [isCons, List.cons_append] at whole ⊢
  exact reads_header (startsSelector_of_startsHead starts) notColon whole

theorem reads_header_directive {more : List Char} {kind : StatementKind}
    (isHeader : Reads lines directive ('@' :: more) (IsHeader kind) []) :
    Reads lines (header source line hasChildren) ('@' :: more) (IsHeader kind) [] := by
  refine Reads.get.bind fun c isText => ?_
  have first : c.peek? = some '@' := by rw [Cursor.peek?, isText]; rfl
  rw [first]
  exact isHeader.bind fun found isFound => reads_expectLineEnd.after fun _ => .pure isFound

/-- What is read in front of a block, before the block is seen. -/
def headerKind : Opening → StatementKind
  | .rule head => .rule head.template
  | .media query => .media query.template
  | .directive head =>
    .directive (String.ofList head.name.text) (head.params.elim [] Phrase.template) false

theorem reads_header_opening (opening : Opening) :
    Reads lines (header source line hasChildren) (opening.source .indented)
      (IsHeader (headerKind opening)) [] := by
  have ends : EndsOpening [] [] := ⟨by simp, by simp⟩
  cases opening with
  | rule head => exact reads_header_rule head
  | media query =>
    have read : Reads lines directive _ _ _ := reads_media query ends
    simp only [List.append_nil] at read
    exact reads_header_directive read
  | directive head =>
    have read : Reads lines directive _ _ _ := reads_directive head ends
    simp only [List.append_nil] at read
    exact reads_header_directive read

/-- With its block, a line is what it opens; a directive needs something in its block. -/
theorem attach_header (opening : Opening) {block : List Statement} (number : Nat) (span : Span)
    (filled : opening.isDirective = true → block ≠ []) :
    ∃ s, attach [.leaf (headerKind opening) number span] block = [s] ∧
      s.unplaced = .mk opening.kind (Statement.unplacedAll block) 0 default none := by
  rw [← opening.unplaced_kind]
  cases opening with
  | rule head => exact ⟨_, rfl, Statement.unplaced_leaf_withChildren _ _ _ _⟩
  | media query => exact ⟨_, rfl, Statement.unplaced_leaf_withChildren _ _ _ _⟩
  | directive head =>
    obtain ⟨s, rest, rfl⟩ := List.exists_cons_of_ne_nil (filled rfl)
    exact ⟨_, rfl, Statement.unplaced_leaf_withChildren _ _ _ _⟩

end Headers

section Leaves

/-- A statement without a block is read from its line. -/
theorem reads_header_leaf {hasChildren : Bool} (l : Leaf) :
    Reads lines (header source line hasChildren) l.text
      (fun out => ∃ s, attach out [] = [s] ∧ s.unplaced = (Written.leaf l).statement) [] := by
  have ends : EndsOpening [] [] := ⟨by simp, by simp⟩
  have ofDirective {more : List Char} (plain : ∀ name value, l ≠ .declaration name value)
      (alone : ∀ number span, attach [.leaf l.kind number span] [] = [.leaf l.kind number span])
      (isHeader : Reads lines directive ('@' :: more) (IsHeader l.kind) []) :
      Reads lines (header source line hasChildren) ('@' :: more)
        (fun out => ∃ s, attach out [] = [s] ∧ s.unplaced = (Written.leaf l).statement) [] := by
    refine (reads_header_directive isHeader).weaken ?_
    rintro _ ⟨number, span, rfl⟩
    refine ⟨_, alone number span, ?_⟩
    change Statement.mk l.kind.unplaced [] 0 default none = _
    rw [l.unplaced_kind plain, Written.statement]
  cases l with
  | declaration name value =>
    refine (reads_header_declaration name value).weaken ?_
    rintro _ ⟨_, rfl, e, rfl, isValue⟩
    refine ⟨(Statement.leaf _ _ _).withChildren [], rfl, ?_⟩
    rw [Statement.unplaced_leaf_withChildren, StatementKind.unplaced, Part.unplacedAll_ofText,
      Option.map_some, isValue]
    rfl
  | directive head =>
    have read : Reads lines directive _ _ _ := reads_directive head ends
    simp only [List.append_nil] at read
    exact ofDirective (by simp) (fun _ _ => rfl) read
  | charset name =>
    have read : Reads lines directive _ _ [] := reads_charset name
    rw [List.append_nil] at read
    exact ofDirective (by simp) (fun _ _ => rfl) read
  | importing target =>
    have read : Reads lines directive _ _ [] := reads_importing target ends
    rw [List.append_nil] at read
    exact ofDirective (by simp) (fun _ _ => rfl) read

end Leaves

section Remarks

theorem stripSuffix?_append (text ending : List Char) :
    stripSuffix? ending (text ++ ending) = some text := by
  unfold stripSuffix?
  rw [if_pos (by simp), List.length_append, Nat.add_sub_cancel, List.take_left]

theorem dropCommentEnd_append (text : List Char) :
    dropCommentEnd (text ++ [' ', '*', '/']) = text := by
  have ended : Text.dropEndWhile (· == ' ') (text ++ [' ', '*', '/']) = text ++ [' ', '*', '/'] := by
    have dropped : Text.dropEndWhile (· == ' ') (text ++ [' ', '*'] ++ (['/'] ++ [])) =
        text ++ [' ', '*'] ++ ['/'] := Text.dropEndWhile_append (by decide) fun c member => nomatch member
    simpa using dropped
  have first : stripSuffix? ['*', '/'] (text ++ [' ', '*', '/']) = some (text ++ [' ']) := by
    rw [← stripSuffix?_append (text ++ [' ']), List.append_assoc]
    rfl
  unfold dropCommentEnd
  rw [ended, first]
  dsimp only
  rw [stripSuffix?_append]
  rfl

/-- A comment on one line is laid out as it stands. -/
theorem commentText_remark (remark : Remark) :
    commentText (remark.content ++ [' ', '*', '/']) false = String.ofList remark.text := by
  have oneLine : '\n' ∉ remark.content ++ [' ', '*', '/'] := by simp [remark.oneLine]
  have notBlank : (remark.content ++ [' ', '*', '/']).all Text.isBlank = false := by
    rw [List.all_append]
    simp [show Text.isBlank '/' = false by decide]
  have laid : dropSpace (commentLine remark.content) = remark.content := by
    have notStar := remark.notStar
    cases content : remark.content with
    | nil => rfl
    | cons c more =>
      rw [content] at notStar
      rw [commentLine.eq_3 _ (by simp) fun rest same => notStar (by rw [same]; rfl)]
      rfl
  unfold commentText
  rw [Text.splitLines_oneLine oneLine]
  simp only [List.head?_cons, Option.all_some, notBlank, Bool.false_eq_true, if_false,
    List.isEmpty_cons, mapLast, List.getLast?_singleton, List.dropLast_singleton, List.nil_append,
    dropCommentEnd_append, List.map_cons, List.map_nil, laid]
  simp [Remark.text, String.ext_iff]

/-- A comment is read from its line as it stands. -/
theorem comment_remark {remark : Remark} (isText : source.lineText line = remark.text)
    (alone : line.body = []) :
    comment source line = .ok (.leaf remark.kind line.number (lineSpan line)) := by
  have loud : ['/', '/'].isPrefixOf remark.text = false := rfl
  have layout : commentText (remark.text.drop 2 ++ []) false = String.ofList remark.text := by
    rw [List.append_nil]
    exact commentText_remark remark
  have raw : Reads (LineIndex.ofText (String.ofList remark.text)) rawTemplate remark.text _ [] :=
    reads_rawTemplate remark.noExpr_text
  obtain ⟨parts, last, read, isTemplate, _⟩ := raw
    (Cursor.ofText (String.ofList remark.text)) String.toList_ofList
  subst isTemplate
  have template : templateOf (String.ofList remark.text) =
      .ok (Template.ofText (String.ofList remark.text)) := by
    unfold templateOf
    rw [read]
    rfl
  unfold comment
  simp only [isText, alone, loud, List.mapM_nil, pure_bind, List.map_nil, List.flatten_nil, layout,
    template]
  rfl

end Remarks

section Trees

open Outline Written

variable {before block : List Statement} {children rest : List Outline}
  {p : List Statement → Prop}

/-- What is read in a line stands behind the statements found so far, with its block. -/
theorem statements_line {text tail : List Char} {q : List Statement → Prop}
    (isText : source.lineText line = text) (notComment : line.isComment = false)
    (noElse : ∀ more, text = '@' :: more → keyword "else" more = false)
    (reads : Reads source.lines (header source line (!children.isEmpty)) text q tail)
    (isBlock : statements source [] children = .ok block)
    (behind : ∀ added, q added →
      ∃ out, statements source (before ++ attach added block) rest = .ok out ∧ p out) :
    ∃ out, statements source before (.mk line children :: rest) = .ok out ∧ p out := by
  obtain ⟨left, readElse⟩ : ∃ rest, Reads source.lines (elseHeader? line) text _ rest :=
    reads_elseHeader noElse
  obtain ⟨absent, readElse, isNone⟩ := Source.read_of_reads isText readElse
  obtain ⟨added, readHeader, holds⟩ := Source.read_of_reads isText reads
  obtain ⟨out, isOut, isRest⟩ := behind added holds
  refine ⟨out, ?_, isRest⟩
  subst isNone
  rw [statements, readElse]
  simp only [bind, Except.bind, notComment, readHeader, isBlock]
  exact isOut

theorem statements_opening (opening : Opening) {depth : Nat}
    (isLine : IsLine source line (depth, opening.source .indented))
    (isBlock : statements source [] children = .ok block)
    (filled : opening.isDirective = true → block ≠ [])
    (behind : ∀ s : Statement,
      s.unplaced = .mk opening.kind (Statement.unplacedAll block) 0 default none →
      ∃ out, statements source (before ++ [s]) rest = .ok out ∧ p out) :
    ∃ out, statements source before (.mk line children :: rest) = .ok out ∧ p out := by
  have notComment := isLine.comment.trans (isRemark_of_starts (opening.exists_cons .indented) depth)
  refine statements_line isLine.text notComment (fun more => opening.keyword_else .indented)
    (reads_header_opening opening) isBlock ?_
  rintro added ⟨number, span, rfl⟩
  obtain ⟨s, attached, isStatement⟩ := attach_header opening number span filled
  rw [attached]
  exact behind s isStatement

theorem statements_leaf {l : Leaf} {depth : Nat} (isLine : IsLine source line (depth, l.text))
    (behind : ∀ s : Statement, s.unplaced = (Written.leaf l).statement →
      ∃ out, statements source (before ++ [s]) rest = .ok out ∧ p out) :
    ∃ out, statements source before (.mk line [] :: rest) = .ok out ∧ p out := by
  have notComment := isLine.comment.trans (isRemark_of_starts l.exists_cons depth)
  refine statements_line isLine.text notComment (fun more => l.keyword_else) (reads_header_leaf l)
    (by rw [statements]) ?_
  rintro added ⟨s, attached, isStatement⟩
  rw [attached]
  exact behind s isStatement

theorem statements_remark {remark : Remark} {depth : Nat}
    (isLine : IsLine source line (depth, remark.text))
    (behind : ∀ s : Statement, s.unplaced = (Written.comment remark).statement →
      ∃ out, statements source (before ++ [s]) rest = .ok out ∧ p out) :
    ∃ out, statements source before (.mk line [] :: rest) = .ok out ∧ p out := by
  have noElse : ∀ more, remark.text = '@' :: more → keyword "else" more = false := by
    rintro more ⟨⟩
  obtain ⟨left, readElse⟩ : ∃ rest, Reads source.lines (elseHeader? line) remark.text _ rest :=
    reads_elseHeader noElse
  obtain ⟨absent, readElse, isNone⟩ := Source.read_of_reads isLine.text readElse
  subst isNone
  have isComment : line.isComment = true := isLine.comment
  obtain ⟨out, isOut, holds⟩ := behind (.leaf remark.kind line.number (lineSpan line)) (by
    change Statement.mk (StatementKind.comment (Part.unplacedAll _) false) [] 0 default none = _
    rw [Part.unplacedAll_ofText]
    rfl)
  refine ⟨out, ?_, holds⟩
  rw [statements, readElse]
  simp only [bind, Except.bind, isComment, if_true, comment_remark isLine.text isLine.alone]
  exact isOut

/-- Lines that show the rows of statements are read as the statements. -/
theorem statements_forest :
    (found : List Written) → AllFilled found → (depth : Nat) → (lines : List SourceLine) →
      List.Forall₂ (IsLine source) lines (rowsOfAll depth found) → (before : List Statement) →
      ∃ out, statements source before (forest lines) = .ok out ∧
        Statement.unplacedAll out = Statement.unplacedAll before ++ Written.statements found
  | [], _, _, _, .nil, before => ⟨before, by rw [forest, statements], by simp [Written.statements]⟩
  | .block opening body :: found, filled, depth, line :: lines, .cons isLine areLines, before => by
    obtain ⟨inside, behind, rfl, areInside, areBehind⟩ := exists_append_of_shown areLines
    have deeper := le_depth_of_mem_rowsOfAll body (depth + 1)
    rw [forest_append isLine areInside deeper areBehind (head_rowsOfAll found depth)]
    obtain ⟨block, isBlock, isBody⟩ :=
      statements_forest body filled.1.2 (depth + 1) inside areInside []
    have hasBlock : opening.isDirective = true → block ≠ [] := by
      rintro isDirective rfl
      cases body with
      | nil => exact filled.1.1 isDirective rfl
      | cons w rest => cases isBody
    refine statements_opening opening isLine isBlock hasBlock fun s isOpened => ?_
    obtain ⟨out, read, isOut⟩ :=
      statements_forest found filled.2 depth behind areBehind (before ++ [s])
    refine ⟨out, read, ?_⟩
    rw [isOut, Statement.unplacedAll_append, Statement.unplacedAll, isOpened, isBody,
      List.append_assoc]
    rfl
  | .leaf l :: found, filled, depth, line :: lines, .cons isLine areLines, before => by
    rw [← List.nil_append lines,
      forest_append isLine .nil (by simp) areLines (head_rowsOfAll found depth), forest]
    refine statements_leaf isLine fun s isStatement => ?_
    obtain ⟨out, read, isOut⟩ := statements_forest found filled.2 depth lines areLines (before ++ [s])
    refine ⟨out, read, ?_⟩
    rw [isOut, Statement.unplacedAll_append, Statement.unplacedAll, isStatement, List.append_assoc]
    rfl
  | .comment remark :: found, filled, depth, line :: lines, .cons isLine areLines, before => by
    rw [← List.nil_append lines,
      forest_append isLine .nil (by simp) areLines (head_rowsOfAll found depth), forest]
    refine statements_remark isLine fun s isStatement => ?_
    obtain ⟨out, read, isOut⟩ := statements_forest found filled.2 depth lines areLines (before ++ [s])
    refine ⟨out, read, ?_⟩
    rw [isOut, Statement.unplacedAll_append, Statement.unplacedAll, isStatement, List.append_assoc]
    rfl

/-- What is written by indentation is read back, also with empty lines between the statements. -/
theorem parse_shows {found : List Written} (filled : AllFilled found) {text : String}
    (shows : Shows text.toList (rowsOfAll 0 found)) :
    ∃ root, parse text = .ok root ∧
      root.unplaced = .mk .root (Written.statements found) 0 default none := by
  let source : Source := ⟨Cursor.ofChars text.toList, LineIndex.ofChars text.toList⟩
  have steps : Steps none (rowsOfAll 0 found) := by
    have all : Steps none (rowsOfAll 0 found ++ []) :=
      steps_rowsOfAll found 0 none (Nat.zero_le _) trivial fun _ _ => trivial
    rwa [List.append_nil] at all
  have isSource : source.text = Cursor.ofChars text.toList := rfl
  obtain ⟨lines, isLines, isTree, areLines⟩ := ofLines_shows shows steps isSource
  obtain ⟨children, read, areChildren⟩ := statements_forest found filled 0 lines areLines []
  refine ⟨(Statement.leaf .root 1 (Span.between 0 (Text.size text.toList))).withChildren children,
    ?_, ?_⟩
  · unfold parse
    simp only [bind, Except.bind, isLines, isTree]
    rw [read]
    rfl
  · rw [Statement.unplaced_leaf_withChildren, areChildren]
    rfl

end Trees

end Indented

end Stylesheet
