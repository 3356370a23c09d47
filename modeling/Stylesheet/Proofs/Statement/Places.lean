import Stylesheet.Proofs.Statement.Cuts
import Stylesheet.Proofs.Statement.Terminators

/-! Where statements stand. Each begins on the line that it names and spans a part of the text, and so
do the expressions in it. Only the comments of the indented dialect are laid out anew before the
expressions in them are read, and these have their places in what was laid out. -/

namespace Stylesheet

namespace Text

theorem newline_not_mem {text raw : List Char} (isRow : raw ∈ splitLines text) : '\n' ∉ raw := by
  induction text generalizing raw with
  | nil =>
    rw [List.mem_singleton.mp isRow]
    exact List.not_mem_nil
  | cons c text ih =>
    unfold splitLines at isRow
    split at isRow
    · rcases List.mem_cons.mp isRow with rfl | isRow
      · exact List.not_mem_nil
      · exact ih isRow
    · rename_i notEnd
      have differs : '\n' ≠ c := fun same => notEnd (beq_iff_eq.mpr same.symm)
      split at isRow
      · rw [List.mem_singleton.mp isRow, List.mem_singleton]
        exact differs
      · rename_i line more split
        rcases List.mem_cons.mp isRow with rfl | isRow
        · rw [List.mem_cons, not_or]
          exact ⟨differs, ih (by rw [split]; exact List.mem_cons_self)⟩
        · exact ih (by rw [split]; exact List.mem_cons_of_mem line isRow)

theorem OnLine.le_firstLine {line rest : List Char} {offset : Nat}
    (onLine : OnLine (line ++ '\n' :: rest) 1 offset) : offset ≤ size line := by
  obtain ⟨front, back, same, rfl, first⟩ := onLine
  have none : '\n' ∉ front := List.count_eq_zero.mp (Nat.succ.inj first).symm
  rcases List.append_eq_append_iff.mp same with ⟨more, rfl, behind⟩ | ⟨more, rfl, -⟩
  · cases more with
    | nil => rw [List.append_nil]
    | cons c more =>
      obtain ⟨rfl, -⟩ := List.cons.inj behind
      exact absurd (List.mem_append_right line List.mem_cons_self) none
  · exact size_le_of_prefix (List.prefix_append front more)

end Text

namespace Outline

section Numbers

variable {text rest : List Char} {progress after : Progress} {number : Nat} {raw : List Char}

/-- Lines that have the number of the line of a text on which they begin. -/
def AllNumbered (text : List Char) (found : List SourceLine) : Prop :=
  ∀ line ∈ found, Text.OnLine text line.number line.start

theorem addLine_numbered {front : List Char} (rest : List Char) (all : AllNumbered text progress.found)
    (isText : text = front ++ raw ++ rest) (oneLine : '\n' ∉ raw)
    (isNumber : number = front.count '\n' + 1)
    (added : addLine progress number (Text.size front) raw = .ok after) :
    AllNumbered text after.found := by
  have adds := addLine_adds progress number (Text.size front) raw
  rw [added] at adds
  have leading : indentation raw <+: raw :=
    (List.takeWhile_prefix _).trans (Text.dropEndWhile_prefix raw)
  obtain ⟨back, isRaw⟩ := leading
  have flat : (indentation raw).count '\n' = 0 :=
    List.count_eq_zero.mpr fun member => oneLine (isRaw ▸ List.mem_append_left back member)
  cases adds with
  | empty => exact all
  | line =>
    intro line member
    rcases List.mem_cons.mp member with rfl | member
    · refine ⟨front ++ indentation raw, back ++ rest, ?_, Text.size_append _ _, ?_⟩
      · rw [isText, List.append_assoc, List.append_assoc, ← List.append_assoc (indentation raw), isRaw]
      · rw [List.count_append, flat]
        exact isNumber
    · exact all line member
  | @below last earlier kept isLast | @more last earlier _ isLast =>
    rw [isLast] at all
    intro line member
    rcases List.mem_cons.mp member with rfl | member
    · exact all last List.mem_cons_self
    · exact all line (List.mem_cons_of_mem last member)

theorem addLines_numbered {lines : List (List Char)} {front : List Char}
    (all : AllNumbered text progress.found) (isText : text = front ++ rest)
    (areLines : Text.splitLines rest = lines) (isNumber : number = front.count '\n' + 1)
    (added : addLines progress number (Text.size front) lines = .ok after) :
    AllNumbered text after.found := by
  induction lines generalizing rest front progress number with
  | nil =>
    cases added
    exact all
  | cons raw others ih =>
    unfold addLines at added
    obtain ⟨middle, first, added⟩ := exists_of_bind_ok added
    have oneLine := Text.newline_not_mem (areLines ▸ List.mem_cons_self)
    rcases Text.splitLines_cases rest with single | ⟨line, behind, isRest, split⟩
    · rw [single] at areLines
      cases areLines
      cases added
      exact addLine_numbered [] all (by rw [isText, List.append_nil]) oneLine isNumber first
    · rw [split] at areLines
      cases areLines
      have longer := addLine_numbered ('\n' :: behind) all
        (by rw [isText, isRest, List.append_assoc]) oneLine isNumber first
      have offset : Text.size (front ++ raw ++ ['\n']) = Text.size front + Text.size raw + 1 := by
        rw [Text.size_append, Text.size_append]
        rfl
      rw [← offset] at added
      refine ih longer ?_ rfl ?_ added
      · rw [isText, isRest]
        simp
      · simp [List.count_append, List.count_eq_zero.mpr oneLine, isNumber]

theorem lines_numbered {lines : List SourceLine} (found : Outline.lines text = .ok lines) :
    AllNumbered text lines := by
  unfold Outline.lines at found
  obtain ⟨progress, added, same⟩ := exists_of_bind_ok found
  cases same
  have start : AllNumbered text (Progress.mk [] none).found := nofun
  have first : 1 = [].count '\n' + 1 := rfl
  have all := addLines_numbered start rfl rfl first added
  exact fun line member => all line (List.mem_reverse.mp member)

end Numbers

end Outline

namespace Indented

open Header Statement Outline
open Cursor (Past)

/-- The whole of a text. -/
abbrev whole (text : List Char) : Source :=
  ⟨.ofChars text, .ofChars text⟩

/-- The text of a comment as its lines are laid out. -/
def laidOut (source : Source) (line : SourceLine) : Except Diagnostic String := do
  let rest ← line.body.mapM (cut (commonIndent line.body))
  return commentText ((source.lineText line).drop 2 ++ (rest.map ('\n' :: ·)).flatten)
    (['/', '/'].isPrefixOf (source.lineText line))

/-- A comment among the lines of a text. The expressions in it stand in what is laid out. -/
structure IsLaidOut (text : List Char) (s : Statement) (line : SourceLine) (laid : String) : Prop where
  isLine : ∃ lines, Outline.lines text = .ok lines ∧ line ∈ lines
  place : line.number = s.line ∧ lineSpan line = s.span
  isLaid : laidOut (whole text) line = .ok laid
  isComment : ∃ parts silent, s.kind = .comment parts silent ∧ TemplatePlaced laid.toList parts

end Indented

namespace Statement

/-- Where a statement stands in a text. -/
structure Stands (text : List Char) (dialect : Dialect) (s : Statement) : Prop where
  begins : Text.Begins text s.line s.span
  exprs : (∀ e ∈ s.kind.exprs, e.IsPlaced text) ∨
    dialect = .indented ∧ ∃ line laid, Indented.IsLaidOut text s line laid

variable {text : List Char} {dialect : Dialect}

theorem isShallow_stands : IsShallow (Stands text dialect) := by
  intro s t alike stands
  refine ⟨?_, stands.exprs.imp ?_ ?_⟩
  · rw [← alike.line, ← alike.span]
    exact stands.begins
  · rw [exprs_of_alike alike]
    exact id
  · rintro ⟨isIndented, line, laid, isLine, place, isLaid, parts, silent, isComment, placed⟩
    rw [alike.line, alike.span] at place
    refine ⟨isIndented, line, laid, isLine, place, isLaid, parts, silent, ?_, placed⟩
    rcases alike.kind with same | ⟨_, _, _, isBranch, _⟩
    · rw [← same, isComment]
    · rw [isComment] at isBranch
      cases isBranch

theorem SitsAlone.stand {s : Statement} (alone : s.SitsAlone text) : s.Throughout (Stands text dialect) :=
  alone.throughout ⟨alone.begins, .inl alone.exprs⟩

end Statement

namespace Indented

open Header Statement Outline
open Cursor (Past)

section Stands

variable {text : List Char} {found children : List Statement}

/-- All statements as they stand in a block. -/
def AllStand (text : List Char) (found : List Statement) : Prop :=
  ∀ s ∈ found, s.Throughout (Stands text .indented)

theorem attach_stand (alone : ∀ s ∈ found, s.SitsAlone text) (inner : AllStand text children) :
    AllStand text (attach found children) := by
  unfold attach mapLast
  split
  · rename_i last isLast
    have lastAlone := alone last (List.mem_of_getLast? isLast)
    intro s member
    rcases List.mem_append.mp member with member | member
    · exact (alone s (List.dropLast_sublist _ |>.subset member)).stand
    · rw [List.mem_singleton.mp member]
      dsimp only
      split
      · rename_i name params before isDirective
        cases last
        cases isDirective
        exact throughout_of_isPlain rfl ⟨lastAlone.begins, .inl lastAlone.exprs⟩ inner
      · exact lastAlone.stand.withChildren isShallow_stands inner
  · exact List.forall_mem_nil _

theorem addElse_stand {longer : List Statement} {branch : Statement}
    (all : AllStand text found) (added : branch.Throughout (Stands text .indented))
    (ok : addElse found branch = .ok longer) : AllStand text longer := by
  unfold addElse at ok
  split at ok
  · rename_i last more
    obtain ⟨before, isLast, more⟩ := Option.bind_eq_some_iff.mp more
    have last := (all before (List.mem_of_getLast? isLast)).addElse isShallow_stands added more
    cases ok
    intro s member
    rcases List.mem_append.mp member with member | member
    · exact all s (List.dropLast_sublist _ |>.subset member)
    · rw [List.mem_singleton.mp member]
      exact last
  · cases ok

end Stands

section Lines

variable {text : List Char} {line : SourceLine} {hasChildren : Bool} {c : Cursor} {start : Nat}

/-- A line of a text, with the number of the line on which it begins. -/
structure LineOf (text : List Char) (line : SourceLine) : Prop where
  isLine : ∃ lines, Outline.lines text = .ok lines ∧ line ∈ lines
  lies : Lies text line
  onLine : Text.OnLine text line.number line.start

theorem LineOf.sitsAlone (isLine : LineOf text line) {kind : StatementKind}
    (plain : kind.isPlain = true) (placed : KindPlaced text kind) :
    SitsAlone text (leaf kind line.number (lineSpan line)) :=
  ⟨⟨isLine.onLine.begins isLine.lies.stop isLine.lies.ordered, placed⟩, rfl, plain⟩

theorem property_sits (isLine : LineOf text line) (here : Past text start c) :
    Leads (.ofChars text) c (property (whole text) line hasChildren) fun s _ => s.SitsAlone text := by
  refine (propertyName?_placed here).bind fun name d found => ?_
  split
  · exact .failExpected
  · rename_i name
    have behind : ∀ {d : Cursor}, Past text start d → Leads (.ofChars text) d (do
        let value ← propertyValue?
        expectLineEnd
        if value.isNone && !hasChildren then
          throw (Diagnostic.error
              ("Invalid property: \"" ++ String.ofList ((whole text).lineText line) ++
                "\" (no value).")
            |>.withFault .invalidDeclaration
            |>.withLine line.number
            |>.withLabel (lineSpan line) "property without a value")
        else return leaf (.property name value) line.number (lineSpan line))
        fun s _ => s.SitsAlone text := by
      intro d here
      refine (propertyValue?_placed here).bind fun value d more => .step expectLineEnd_sound more.1
        fun _ d _ => ?_
      split
      · exact .throw
      · refine .pure (isLine.sitsAlone rfl fun e member => ?_)
        exact (List.mem_append.mp member).elim (found.2 name rfl e) fun given =>
          more.2 e (Option.mem_toList.mp given)
    refine .step skipBlanks_sound found.1 fun _ d here => .step eat_sound here fun colon d here => ?_
    dsimp only
    -- the equals sign may be missing as well as the colon
    split
    · exact .step eat_sound here fun _ d here => behind here
    · exact behind here

theorem rule_sits (isLine : LineOf text line) (here : Past text start c) :
    Leads (.ofChars text) c (rule line) fun s _ => s.SitsAlone text := by
  refine (templateUntil_placed here).bind fun selector d found => ?_
  dsimp only
  split
  · exact .failExpected
  · exact .pure (isLine.sitsAlone rfl found.2.trimmed)

theorem propertyOrRule_sits (isLine : LineOf text line) (here : Past text start c) :
    Leads (.ofChars text) c (propertyOrRule (whole text) line hasChildren) fun s _ =>
      s.SitsAlone text := by
  refine .get (.step seesProperty_sound here fun isProperty _ _ => .set ?_)
  split
  · exact property_sits isLine here
  · exact rule_sits isLine here

theorem header_sits (isLine : LineOf text line) (here : Past text line.start c) :
    Leads (.ofChars text) c (header (whole text) line hasChildren) fun found _ =>
      ∀ s ∈ found, s.SitsAlone text := by
  have single : ∀ {s : Statement} {d : Cursor}, s.SitsAlone text →
      Leads (.ofChars text) d (pure [s]) fun found _ => ∀ s ∈ found, s.SitsAlone text := by
    intro s d alone
    refine .pure fun t member => ?_
    rw [List.mem_singleton.mp member]
    exact alone
  have ownLine : ∀ {kind : StatementKind} {d : Cursor}, kind.isPlain = true → KindPlaced text kind →
      Past text line.start d → Leads (.ofChars text) d
        (spanFrom line.start >>= fun span => pure [leaf kind line.number span])
        fun found _ => ∀ s ∈ found, s.SitsAlone text :=
    fun plain placed here => .spanFrom (single (sitsAlone_leaf here isLine.onLine plain placed))
  refine .get ?_
  dsimp only
  split
  · refine ((assignment_sound .indented).leads here |>.and (assignment_sits here.1 .indented)).bind
      fun s d found => .step expectLineEnd_sound found.1 fun _ d _ => single found.2
  · refine (directive_sound.leads here |>.and (directive_sits here.1)).bind
      fun found d more => .step expectLineEnd_sound more.1 fun _ d _ => .pure ?_
    exact fun s member => (more.2 s member).1
  · refine .set (.step skipBlanks_sound (Onward.next here) fun _ d here => ?_)
    refine ((mixinDefinition_placed here).and (mixinDefinition_yields (p := IsPlain) fun _ _ => rfl).leads).bind
      fun kind d found => .step expectLineEnd_sound found.1.1 fun _ d here => ?_
    exact ownLine found.2 found.1.2 here
  · split
    · exact (propertyOrRule_sits isLine here).bind fun s d alone => single alone
    · refine .set ?_
      refine ((inclusion_placed (Onward.next here)).and (inclusion_yields (p := IsPlain) fun _ _ => rfl).leads).bind
        fun kind d found => .step expectLineEnd_sound found.1.1 fun _ d here => ?_
      exact ownLine found.2 found.1.2 here
  · split
    · exact (propertyOrRule_sits isLine here).bind fun s d alone => single alone
    · exact .set ((property_sits isLine (Onward.next here)).bind fun s d alone => single alone)
  · exact .set ((rule_sits isLine (Onward.next here)).bind fun s d alone => single alone)
  · exact (propertyOrRule_sits isLine here).bind fun s d alone => single alone

theorem elseHeader?_sits (isLine : LineOf text line) (here : Past text line.start c) :
    Leads (.ofChars text) c (elseHeader? line) fun found _ => ∀ s ∈ found, s.SitsAlone text := by
  refine .step eat_sound here fun opens d here => .join (eatWord_sound.leads here) (.pure here)
    fun isElse d here => ?_
  dsimp only
  split
  · refine ((elseBranch_sound _ _).leads here |>.and (elseBranch_sits here isLine.onLine)).bind
      fun branch d found => .step expectLineEnd_sound found.1 fun _ d here => .pure ?_
    rintro _ ⟨⟩
    exact found.2
  · exact .pure nofun

theorem comment_laidOut {source : Source} {s : Statement} (read : comment source line = .ok s) :
    ∃ laid parts silent, laidOut source line = .ok laid ∧ TemplatePlaced laid.toList parts ∧
      s = leaf (.comment parts silent) line.number (lineSpan line) := by
  obtain ⟨rest, cuts, same⟩ := exists_of_bind_ok read
  cases same
  generalize isLaid : commentText ((source.lineText line).drop 2 ++ (rest.map ('\n' :: ·)).flatten)
    (['/', '/'].isPrefixOf (source.lineText line)) = laid
  refine ⟨laid, _, _, ?_, ?_, rfl⟩
  · unfold laidOut
    rw [cuts, ← isLaid]
    rfl
  · split
    · exact templatePlaced_ofText laid
    · cases template : templateOf laid with
      | ok parts => exact templateOf_placed template
      | error fault => exact templatePlaced_ofText laid

theorem comment_stand {s : Statement} (isLine : LineOf text line)
    (read : comment (whole text) line = .ok s) : s.Throughout (Stands text .indented) := by
  obtain ⟨laid, parts, silent, isLaid, placed, rfl⟩ := comment_laidOut read
  have begins := isLine.onLine.begins isLine.lies.stop isLine.lies.ordered
  have laidOut : IsLaidOut text (leaf (.comment parts silent) line.number (lineSpan line)) line laid :=
    ⟨isLine.isLine, ⟨rfl, rfl⟩, isLaid, parts, silent, rfl, placed⟩
  exact throughout_of_isPlain rfl ⟨begins, .inr ⟨rfl, line, laid, laidOut⟩⟩ nofun

theorem read_leads {reading : Reading α} {p : α → Prop} {a : α} (isLine : LineOf text line)
    (leads : ∀ c, Past text line.start c → Leads (.ofChars text) c reading fun a _ => p a)
    (read : (whole text).read line reading = .ok a) : p a := by
  obtain ⟨⟨_, stop⟩, read, same⟩ := exists_of_bind_ok read
  cases same
  have here : Past text line.start ((whole text).cursorAt line) :=
    (Past.seek isLine.lies.start).limitTo _
  exact leads _ here a stop read

/-- The recursion follows the outlines of the lines. -/
theorem statements_stand : (lines : List Outline) → (found : List Statement) →
    (∀ line ∈ flat lines, LineOf text line) → AllStand text found →
    ∀ {all}, statements (whole text) found lines = .ok all → AllStand text all
  | [], found, areLines, before, all, ok => by
    unfold statements at ok
    cases ok
    exact before
  | .mk row under :: rest, found, areLines, before, all, ok => by
    have isLine := areLines row (by rw [flat]; simp)
    have below := statements_stand under [] fun below member =>
      areLines below (by rw [flat]; simp [member])
    have behind := fun found => statements_stand rest found fun other member =>
      areLines other (by rw [flat]; simp [member])
    unfold statements at ok
    obtain ⟨header, read, ok⟩ := exists_of_bind_ok ok
    have alone := read_leads isLine (fun c => elseHeader?_sits isLine) read
    cases header with
    | some branch =>
      obtain ⟨block, inside, ok⟩ := exists_of_bind_ok ok
      obtain ⟨longer, added, ok⟩ := exists_of_bind_ok ok
      have inner := below (List.forall_mem_nil _) inside
      have first := (alone branch rfl).stand.withChildren isShallow_stands inner
      exact behind longer (addElse_stand before first added) ok
    | none =>
      dsimp only at ok
      split at ok
      · obtain ⟨comment, read, ok⟩ := exists_of_bind_ok ok
        refine behind _ (fun s member => ?_) ok
        rcases List.mem_append.mp member with member | member
        · exact before s member
        · rw [List.mem_singleton.mp member]
          exact comment_stand isLine read
      · obtain ⟨added, read, ok⟩ := exists_of_bind_ok ok
        obtain ⟨block, inside, ok⟩ := exists_of_bind_ok ok
        have alone := read_leads isLine (fun c => header_sits isLine) read
        have longer := attach_stand alone (below (List.forall_mem_nil _) inside)
        exact behind _ (fun s member => (List.mem_append.mp member).elim (before s) (longer s)) ok

end Lines

theorem parse_stand {text : String} {root : Statement} (ok : parse text = .ok root) :
    root.Throughout (Stands text.toList .indented) := by
  obtain ⟨lines, isLines, ok⟩ := exists_of_bind_ok ok
  obtain ⟨tree, isTree, ok⟩ := exists_of_bind_ok ok
  obtain ⟨children, read, ok⟩ := exists_of_bind_ok ok
  cases ok
  obtain ⟨⟨⟩, _, same⟩ := exists_of_bind_ok isTree
  cases same
  have areLines : ∀ line ∈ flat (forest lines), LineOf text.toList line := by
    rw [flat_forest]
    exact fun line member =>
      ⟨⟨lines, isLines, member⟩, lines_lie isLines line member, lines_numbered isLines line member⟩
  have inner := statements_stand _ [] areLines nofun read
  have ends : Text.IsPlace text.toList (Text.size text.toList) :=
    ⟨text.toList, [], (List.append_nil _).symm, rfl⟩
  have begins := Text.onLine_start.begins ends (Nat.zero_le _)
  exact throughout_iff.mpr ⟨⟨begins, .inl nofun⟩, inner, nofun⟩

/-- A comment that is all of a text. -/
theorem parse_of_comment {text : String} {row : SourceLine} {s : Statement}
    (isRow : Outline.lines text.toList = .ok [row]) (isComment : row.isComment = true)
    (top : row.depth = 0)
    (noElse : (whole text.toList).read row (elseHeader? row) = .ok none)
    (read : comment (whole text.toList) row = .ok s) :
    parse text = .ok ((leaf .root 1 (Span.between 0 (Text.size text.toList))).withChildren [s]) := by
  have isTree : ofLines [row] = .ok [.mk row []] := by
    simp [ofLines, checkDepths, forest, top]
  have inner : statements (whole text.toList) [] [.mk row []] = .ok [s] := by
    unfold statements
    rw [noElse]
    change (if row.isComment = true then _ else _) = _
    rw [if_pos isComment, read]
    change statements _ _ [] = _
    unfold statements
    rfl
  unfold parse
  dsimp only
  rw [isRow]
  change (ofLines [row] >>= _) = _
  rw [isTree]
  change (statements (whole text.toList) [] [.mk row []] >>= _) = _
  rw [inner]
  rfl

end Indented

namespace Statement

/-- Whatever the dialect, all in the tree of a text has a place in it. A statement spans a part of the
text and begins on its line, and an expression spans a part that has something of its line in it. But
in a comment of the indented dialect, the expressions have their places in the text that its lines
are laid out to. -/
theorem parse_stands {text : String} {dialect : Dialect} {filename : Option String}
    {root : Statement} (parsed : parse text dialect filename = .ok root) :
    root.Throughout (Stands text.toList dialect) := by
  unfold parse at parsed
  cases dialect with
  | indented =>
    cases read : Indented.parse text with
    | error error => simp [read] at parsed
    | ok tree =>
      simp only [read, Except.ok.injEq] at parsed
      rw [← parsed]
      exact (Indented.parse_stand read).withFilename isShallow_stands filename
  | scss =>
    cases read : Braces.parse text with
    | error error => simp [read] at parsed
    | ok tree =>
      simp only [read, Except.ok.injEq] at parsed
      have stands : tree.Throughout (Stands text.toList .scss) := by
        intro s within
        have sits := (Braces.parse_closed read s within).1
        exact ⟨sits.begins, .inl sits.exprs⟩
      rw [← parsed]
      exact stands.withFilename isShallow_stands filename

theorem parse_stands_of_assignment : ∃ root : Statement,
    parse "$a: 1;" .scss none = .ok root ∧ root.Throughout (Stands "$a: 1;".toList .scss) := by
  have check : (parse "$a: 1;" .scss none).isOk = true := by
    decide +kernel
  cases parsed : parse "$a: 1;" .scss none with
  | error d =>
    rw [parsed] at check
    cases check
  | ok root => exact ⟨root, rfl, parse_stands parsed⟩

/-- Whether a comment with the variable in it is read. -/
def isCommentOfVariable : Except ε Statement → Bool
  | .ok (.mk (.comment [.text _, .expr (.mk (.variable "y") 1 ⟨5, 7⟩), .text _] _) [] _ _ _) => true
  | _ => false

/-- The expression in a comment stands on the second line, but names the first one. -/
theorem comment_misplaces_expression : ∃ (root s : Statement) (e : Expr),
    parse "/*\n  #\x7b$y\x7d */" .indented none = .ok root ∧ s.Within root ∧ e ∈ s.kind.exprs ∧
      ¬Text.Touches "/*\n  #\x7b$y\x7d */".toList e.line e.span := by
  have isText : "/*\n  #\x7b$y\x7d */".toList = ['/', '*'] ++ '\n' :: "  #\x7b$y\x7d */".toList := rfl
  generalize "/*\n  #\x7b$y\x7d */" = text at isText ⊢
  generalize isRow : SourceLine.mk 0 2 0 0 1 true false ["  #\x7b$y\x7d */".toList] = row
  have check : isCommentOfVariable (Indented.comment (Indented.whole text.toList) row) = true := by
    rw [isText, ← isRow]
    decide +kernel
  unfold isCommentOfVariable at check
  split at check
  · rename_i read
    have parsed := Indented.parse_of_comment (by rw [isText, ← isRow]; rfl) (by rw [← isRow])
      (by rw [← isRow]) (by rw [isText, ← isRow]; rfl) read
    refine ⟨_, _, _, by unfold parse; simp only [parsed]; rfl, .inside List.mem_cons_self .here,
      List.mem_cons_self, ?_⟩
    rintro ⟨-, -, offset, onLine, behind, -⟩
    rw [isText] at onLine
    have early : offset ≤ 2 := onLine.le_firstLine
    have late : 5 ≤ offset := behind
    omega
  · cases check

end Statement

end Stylesheet
