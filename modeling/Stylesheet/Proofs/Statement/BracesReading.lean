import Stylesheet.Proofs.Expr.Precedence
import Stylesheet.Proofs.Statement.Headers
import Stylesheet.Proofs.Statement.Openings

/-! What is written with braces and semicolons is read back. -/

namespace Stylesheet

open Scan Header

namespace Braces

variable {lines : LineIndex} {tail : List Char}

/-- Where a rule stands there is no property, or no blank behind its colon. -/
theorem reads_propertyHead_rule (head : RuleHead) (ends : EndsHead tail) :
    Fails lines propertyHead (head.text ++ tail) ∨
      ∃ left, FollowsColon left ∧
        Reads lines propertyHead (head.text ++ tail) (·.spaced = false) (left ++ tail) := by
  rcases head.reads_name lines ends with ⟨_, absent⟩ | ⟨name, rest, found, follows⟩
  · left
    refine .bind .position fun _ _ => .bind .lineNumber fun _ _ => .bind absent fun _ no => ?_
    subst no
    exact fails_failExpected
  by_cases isColon : (Text.afterBlanks rest).head? = some ':'
  · right
    obtain ⟨more, colon⟩ := List.head?_eq_some_iff.mp isColon
    obtain ⟨left, rfl, behind⟩ := follows more colon
    refine ⟨left, behind, Reads.position.after fun _ => Reads.lineNumber.after fun _ => ?_⟩
    refine found.bind fun _ isName => ?_
    subst isName
    refine Reads.skipBlanks.after fun _ => ?_
    rw [colon]
    refine (Reads.eat ":" (left ++ tail)).bind fun _ yes => ?_
    subst yes
    refine Reads.get.bind fun c isText => .pure ?_
    obtain ⟨x, isNext, notBlank⟩ := behind.exists_peek isText
    rw [isNext]
    exact notBlank
  · left
    refine .bind .position fun _ _ => .bind .lineNumber fun _ _ => .bind found fun _ isName => ?_
    subst isName
    refine .bind .skipBlanks fun _ _ => ?_
    refine .bind (.eat_none (isPrefixOf_false (c := ':') rfl isColon)) fun _ no => ?_
    subst no
    exact fails_failExpected

section Tame

variable {behind : List Char} {c : Cursor}

/-- A brace stands at the end of a tame text. -/
def StandsAhead (behind : List Char) (c : Cursor) : Prop :=
  ∃ front, IsTame front ∧ c.rest = front ++ '\x7b' :: behind

theorem StandsAhead.head_ne (ahead : StandsAhead behind c) {x : Char} (special : isTameChar x = false)
    (notBrace : x ≠ '\x7b') : c.rest.head? ≠ some x := by
  obtain ⟨front, tame, isText⟩ := ahead
  intro isHead
  obtain ⟨more, same⟩ := List.head?_eq_some_iff.mp isHead
  obtain ⟨_, rfl, -⟩ := exists_front notBrace (isText.symm.trans same)
  exact tame.not_mem special List.mem_cons_self

theorem StandsAhead.skipBlanks (ahead : StandsAhead behind c) : StandsAhead behind c.skipBlanks := by
  obtain ⟨front, tame, isText⟩ := ahead
  rw [StandsAhead, Cursor.rest_skipBlanks, isText, Text.afterBlanks, List.dropWhile_append]
  split
  · exact ⟨[], tame.suffix List.nil_suffix, rfl⟩
  · exact ⟨_, tame.suffix (List.dropWhile_suffix _), rfl⟩

/-- The value of a property is read up to the brace at most. -/
theorem propertyValue?_ahead (ahead : StandsAhead behind c) :
    Leads lines c propertyValue? fun value stop => value.isSome = true → StandsAhead behind stop := by
  refine .get ?_
  split
  · exact .pure nofun
  split
  · exact .pure nofun
  · obtain ⟨front, tame, isText⟩ := ahead
    exact Leads.map (.scripted fun e stop parsed => Script.parse_inFront tame isText parsed)
      fun _ _ ahead _ => ahead

/-- Up to a brace there is no property, unless a blank follows its colon. -/
theorem propertyTail_ahead {head : PropertyHead} (close : head.spaced = false)
    (ahead : StandsAhead behind c) (fuel : Nat) :
    Leads lines c (propertyTail head fuel) fun _ _ => False := by
  cases fuel with
  | zero => exact .failExpected
  | succ fuel =>
    refine (propertyValue?_ahead ahead).bind fun value stop behindValue => .skipBlanks (.sees ?_)
    split
    · rw [close]
      exact .fail
    split
    · exact .failExpected
    · rename_i isValue
      have ahead := (behindValue (Option.isSome_iff_ne_none.mpr (by simpa using isValue))).skipBlanks
      have noEnd {word : String} {x : Char} (isWord : word.toList = [x])
          (special : isTameChar x = false) (notBrace : x ≠ '\x7b') :
          stop.skipBlanks.startsWith word = false :=
        isPrefixOf_false isWord (ahead.head_ne special notBrace)
      refine .sees (.sees ?_)
      rw [noEnd rfl (by decide) (by decide), noEnd rfl (by decide) (by decide)]
      exact .failExpected

end Tame

/-- No comment stands in front. -/
theorem reads_comments {text : List Char} {found : List Statement} {fuel : Nat}
    (noComment : (Text.afterBlanks text).head? ≠ some '/') :
    Reads lines (comments found (fuel + 1)) text (· = found) (Text.afterBlanks text) := by
  refine Reads.skipBlanks.after fun _ => ?_
  refine Reads.sees.bind fun _ no => ?_
  rw [isPrefixOf_false (c := '/') rfl noComment] at no
  subst no
  refine Reads.sees.bind fun _ no => ?_
  rw [isPrefixOf_false (c := '/') rfl noComment] at no
  subst no
  exact .pure rfl

/-- Behind the statements of a block. -/
def ClosesBlock (tail : List Char) : Prop :=
  Text.afterBlanks tail = [] ∨ ∃ more, Text.afterBlanks tail = '\x7d' :: more

theorem ClosesBlock.head_ne {c : Char} (closes : ClosesBlock tail) (other : c ≠ '\x7d') :
    (Text.afterBlanks tail).head? ≠ some c := by
  rcases closes with none | ⟨more, isBrace⟩
  · simp [none]
  · rw [isBrace]
    rintro ⟨⟩
    exact other rfl

/-- What is read behind the comments in front of a statement. -/
def behindComments (fuel : Nat) (found : List Statement) : Reading (List Statement) := do
  let added ← statement fuel
  let found := found ++ added
  skipBlanksAndLineComments
  if ← eat ";" then statements found fuel
  else if added.getLast?.any Statement.hasBlock then statements found fuel
  else return found

theorem statements_succ (found : List Statement) (fuel : Nat) :
    statements found (fuel + 1) =
      (do behindComments fuel (← comments found ((← get).rest.length + 1))) := rfl

theorem reads_statements_nil (closes : ClosesBlock tail) {found : List Statement} {count fuel : Nat} :
    Reads lines (comments found (count + 1) >>= behindComments fuel) tail (fun out => out = found)
      (Text.afterBlanks tail) := by
  have nothing : Reads lines (statement fuel) (Text.afterBlanks tail) (· = []) (Text.afterBlanks tail) := by
    cases fuel with
    | zero => exact .pure rfl
    | succ fuel =>
      refine Reads.skipBlanks.after fun _ => ?_
      rw [Text.afterBlanks_afterBlanks]
      refine Reads.get.bind fun c isText => ?_
      unfold Cursor.peek?
      rw [isText]
      rcases closes with none | ⟨more, isBrace⟩
      · rw [none]
        exact .pure rfl
      · rw [isBrace]
        exact .pure rfl
  refine (reads_comments (closes.head_ne (by decide))).bind fun _ same => ?_
  subst same
  refine nothing.bind fun added none => ?_
  subst none
  have noComment : lineComment? (Text.afterBlanks (Text.afterBlanks tail)) = none := by
    rw [Text.afterBlanks_afterBlanks]
    exact lineComment?_none (closes.head_ne (by decide))
  refine (reads_gaps noComment).after fun _ => ?_
  rw [Text.afterBlanks_afterBlanks]
  refine (Reads.eat_none (isPrefixOf_false rfl (closes.head_ne (c := ';') (by decide)))).bind
    fun _ no => ?_
  subst no
  exact .pure (List.append_nil _)

section Rules

variable {head : RuleHead} {behind : List Char} {fuel : Nat} {p : List Statement → Prop}
  {q : Statement → Prop}

theorem reads_block {inside : List Char}
    (inner : Reads lines (statements [] fuel) inside p ('\x7d' :: tail)) :
    Reads lines (block (fuel + 1)) ('\x7b' :: inside) p tail := by
  refine Reads.skipBlanks.after fun _ => ?_
  refine (Reads.eat "\x7b" inside).bind fun _ yes => ?_
  subst yes
  refine inner.bind fun children holds => ?_
  refine Reads.skipBlanks.after fun _ => ?_
  refine (Reads.eat "\x7d" tail).bind fun _ yes => ?_
  subst yes
  exact .pure holds

/-- A block that was read, with the statements in it. -/
def IsBlock (kind : StatementKind) (p : List Statement → Prop) (s : Statement) : Prop :=
  ∃ children, p children ∧
    s.unplaced = .mk kind (Statement.unplacedAll children) 0 default none

theorem endsOpening_block : EndsOpening [' '] ('\x7b' :: behind) :=
  ⟨by simp, by rintro c ⟨⟩; exact .inl rfl⟩

theorem reads_ruleSet (head : RuleHead) (reads : Reads lines (block fuel) ('\x7b' :: behind) p tail) :
    Reads lines (ruleSet (fuel + 1)) (head.text ++ ' ' :: '\x7b' :: behind)
      (IsBlock (.rule head.template) p) tail := by
  refine Reads.position.after fun start => Reads.lineNumber.after fun line => ?_
  refine (head.reads_template endsOpening_block).bind fun found trimmed => ?_
  rw [trimmed, head.template_eq]
  refine Reads.sees.bind fun _ yes => ?_
  have isBrace : ("\x7b" : String).toList.isPrefixOf ('\x7b' :: behind) = true := by
    simp [List.isPrefixOf]
  rw [isBrace] at yes
  subst yes
  refine reads.bind fun children holds => Reads.spanFrom.after fun span => .pure ?_
  refine ⟨children, holds, ?_⟩
  rw [Statement.unplaced_leaf_withChildren]
  rfl

/-- What is no property is read as a rule. -/
theorem reads_propertyOrRule (reads : Reads lines (ruleSet fuel) (head.text ++ ' ' :: '\x7b' :: behind)
    q tail) : Reads lines (propertyOrRule (fuel + 1)) (head.text ++ ' ' :: '\x7b' :: behind) q tail := by
  have ends : EndsHead (' ' :: '\x7b' :: behind) := by
    refine ⟨by rintro c ⟨⟩; rfl, ?_⟩
    rw [← List.singleton_append, endsOpening_block.afterBlanks]
    simp
  refine Reads.get.bind fun start isText => Reads.read.bind fun known same => ?_
  subst same
  rcases reads_propertyHead_rule head ends with failing | ⟨left, follows, reading⟩
  · obtain ⟨error, failed⟩ := failing start isText
    rw [failed]
    exact reads
  · obtain ⟨found, afterColon, isHead, close, rest⟩ := reading start isText
    have ahead : StandsAhead behind afterColon :=
      ⟨left ++ [' '], follows.tame.concat_blank, by rw [rest, List.append_assoc]; rfl⟩
    obtain ⟨s, stop, isRule, holds, isStop⟩ := reads start isText
    rw [isHead]
    dsimp only
    split
    · rename_i isTail
      exact (propertyTail_ahead close ahead fuel _ _ isTail).elim
    · rw [isRule]
      exact (Reads.set isStop).after fun _ => .pure holds

end Rules

section Declarations

variable {name : PropertyName} {value : WrittenValue} {behind : List Char} {fuel : Nat}

/-- What stands behind the name of a property. -/
def valueText (value : WrittenValue) (tail : List Char) : List Char :=
  ':' :: ' ' :: (value.text ++ tail)

/-- The head of a property that was read. -/
def IsPropertyHead (name : PropertyName) (head : PropertyHead) : Prop :=
  head.name = Template.ofText (String.ofList name.text) ∧ head.spaced = true

theorem reads_propertyHead :
    Reads lines propertyHead (name.text ++ valueText value tail) (IsPropertyHead name)
      (' ' :: (value.text ++ tail)) := by
  refine Reads.position.after fun start => Reads.lineNumber.after fun line => ?_
  refine (Reads.propertyName_some name.startsPlain name.ident ?_ ?_).bind fun found same => ?_
  · exact nameTail_stop (by decide) (by decide) _
  · rintro _ ⟨⟩
  · subst same
    refine Reads.skipBlanks.after fun _ => ?_
    rw [valueText, Text.afterBlanks_of_head (by decide)]
    refine (Reads.eat ":" (' ' :: (value.text ++ tail))).bind fun _ yes => ?_
    subst yes
    refine Reads.get.bind fun c isText => .pure ⟨rfl, ?_⟩
    unfold Cursor.peek?
    rw [isText]
    rfl

theorem reads_propertyTail {head : PropertyHead} (isHead : IsPropertyHead name head) :
    Reads lines (propertyTail head (fuel + 1)) (' ' :: (value.text ++ ';' :: behind))
      (fun s => s.unplaced = (Written.leaf (.declaration name value)).statement) (';' :: behind) := by
  have noBrace : ("\x7b" : String).toList.isPrefixOf (';' :: behind) = false :=
    isPrefixOf_false (c := '\x7b') rfl (by simp)
  have semicolon : (";" : String).toList.isPrefixOf (';' :: behind) = true := by
    simp [List.isPrefixOf]
  refine (Reads.propertyValue value.isValue (by rintro c ⟨⟩; rfl)).bind fun found isValue => ?_
  cases found with
  | none => cases isValue
  | some e =>
    refine Reads.skipBlanks.after fun _ => ?_
    rw [Text.afterBlanks_of_head (by decide)]
    refine Reads.sees.bind fun _ no => ?_
    rw [noBrace] at no
    subst no
    refine Reads.sees.bind fun _ yes => ?_
    rw [semicolon] at yes
    subst yes
    refine Reads.sees.after fun _ => Reads.spanFrom.after fun span => .pure ?_
    rw [Statement.unplaced_leaf_withChildren, isHead.1, StatementKind.unplaced,
      Part.unplacedAll_ofText, isValue]
    rfl

/-- What follows the name of a property is a value, and the statement ends behind it. -/
theorem reads_declaration (name : PropertyName) (value : WrittenValue) (behind : List Char) :
    Reads lines (propertyOrRule (fuel + 2)) (name.text ++ valueText value (';' :: behind))
      (fun s => s.unplaced = (Written.leaf (.declaration name value)).statement) (';' :: behind) := by
  refine Reads.get.bind fun start isText => Reads.read.bind fun known same => ?_
  subst same
  have upToColon : Reads known propertyHead (name.text ++ valueText value (';' :: behind))
      (IsPropertyHead name) (' ' :: (value.text ++ ';' :: behind)) := reads_propertyHead
  obtain ⟨head, colon, found, isHead, left⟩ := upToColon start isText
  have upToEnd : Reads known (propertyTail head (fuel + 1)) (' ' :: (value.text ++ ';' :: behind))
      (fun s => s.unplaced = (Written.leaf (.declaration name value)).statement) (';' :: behind) :=
    reads_propertyTail isHead
  obtain ⟨s, stop, tail, isStatement, rest⟩ := upToEnd colon left
  rw [found]
  dsimp only
  rw [tail]
  exact (Reads.set rest).after fun _ => .pure isStatement

end Declarations

theorem reads_statement {x : Char} {more : List Char} {fuel : Nat} {q : Statement → Prop}
    (starts : startsSelector x = true)
    (reads : Reads lines (propertyOrRule fuel) (x :: more) q tail) :
    Reads lines (statement (fuel + 1)) (x :: more) (fun out => ∃ s, out = [s] ∧ q s) tail := by
  refine Reads.skipBlanks.after fun _ => ?_
  rw [Text.afterBlanks_of_head (startsStatement_notBlank (startsStatement_of_startsSelector starts))]
  refine Reads.get.bind fun c isText => ?_
  unfold Cursor.peek?
  rw [isText]
  have one : Reads lines (do return [← propertyOrRule fuel]) (x :: more)
      (fun out => ∃ s, out = [s] ∧ q s) tail :=
    reads.bind fun s holds => .pure ⟨s, rfl, holds⟩
  split
  · rename_i none
    cases none
  · rename_i same
    cases same
    cases starts
  · rename_i same
    cases same
    cases starts
  · rename_i same
    cases same
    cases starts
  · rename_i same
    cases same
    cases starts
  · exact one

section Openings

variable {head behind : List Char} {fuel : Nat} {p : List Statement → Prop}

/-- One block that was read. -/
def IsOneBlock (kind : StatementKind) (p : List Statement → Prop) (found : List Statement) : Prop :=
  ∃ s, found = [s] ∧ IsBlock kind p s

theorem isOneBlock_withSpan {s : Statement} {kind : StatementKind} (isBlock : IsBlock kind p s)
    (span : Span) : IsOneBlock kind p [s.withSpan span] := by
  obtain ⟨children, holds, isStatement⟩ := isBlock
  refine ⟨_, rfl, children, holds, ?_⟩
  rw [← isStatement]
  cases s
  rfl

theorem reads_mediaBlock {query : Template}
    (isHeader : Reads lines directive head (IsHeader (.media query)) ('\x7b' :: behind))
    (reads : Reads lines (block fuel) ('\x7b' :: behind) p tail) :
    Reads lines (directiveWithBlock (fuel + 1)) head
      (IsOneBlock (StatementKind.media query).unplaced p) tail := by
  refine isHeader.bind fun found isFound => ?_
  obtain ⟨line, span, rfl⟩ := isFound
  refine reads.bind fun children holds => ?_
  refine Reads.bind (.pure (p := (· = (Statement.leaf _ line span).withChildren children)) rfl)
    fun last isLast => Reads.spanFrom.after fun span => .pure ?_
  subst isLast
  refine isOneBlock_withSpan ⟨children, holds, ?_⟩ span
  rw [Statement.unplaced_leaf_withChildren]
  rfl

theorem reads_directiveBlock {name : String} {params : Template}
    (isHeader : Reads lines directive head (IsHeader (.directive name params false))
      ('\x7b' :: behind))
    (reads : Reads lines (block fuel) ('\x7b' :: behind) p tail) :
    Reads lines (directiveWithBlock (fuel + 1)) head
      (IsOneBlock (StatementKind.directive name params true).unplaced p) tail := by
  refine isHeader.bind fun found isFound => ?_
  obtain ⟨line, span, rfl⟩ := isFound
  refine Reads.skipBlanks.after fun _ => ?_
  rw [Text.afterBlanks_of_head (by decide)]
  refine Reads.sees.bind fun _ yes => ?_
  have isBrace : ("\x7b" : String).toList.isPrefixOf ('\x7b' :: behind) = true := by
    simp [List.isPrefixOf]
  rw [isBrace] at yes
  subst yes
  refine reads.bind fun children holds => ?_
  refine Reads.bind (.pure (p := (· = ((Statement.leaf _ line span).withChildren children).withKind
    (.directive name params true))) rfl) fun last isLast => Reads.spanFrom.after fun span => .pure ?_
  subst isLast
  refine isOneBlock_withSpan ⟨children, holds, ?_⟩ span
  rw [Statement.leaf, Statement.withChildren, Statement.withKind, Statement.unplaced]

theorem reads_atRule {more : List Char} {q : List Statement → Prop}
    (reads : Reads lines (directiveWithBlock fuel) ('@' :: more) q tail) :
    Reads lines (statement (fuel + 1)) ('@' :: more) q tail := by
  refine Reads.skipBlanks.after fun _ => ?_
  rw [Text.afterBlanks_of_head (by decide)]
  refine Reads.get.bind fun c isText => ?_
  unfold Cursor.peek?
  rw [isText]
  exact reads

/-- Whatever opens it, a block is read. -/
theorem reads_opening (opening : Opening)
    (reads : ∀ more, Reads lines (block (fuel + more)) ('\x7b' :: behind) p tail) :
    Reads lines (statement (fuel + 3)) (opening.text ++ ' ' :: '\x7b' :: behind)
      (IsOneBlock opening.kind p) tail := by
  cases opening with
  | rule head =>
    obtain ⟨x, more, isText, starts⟩ := head.exists_starts
    have whole := reads_propertyOrRule (reads_ruleSet head (reads 0))
    change Reads lines (statement (fuel + 3)) (head.text ++ _) _ tail
    rw [isText, List.cons_append] at whole ⊢
    exact reads_statement starts whole
  | media query =>
    rw [← Opening.unplaced_kind]
    exact reads_atRule (reads_mediaBlock (reads_media query endsOpening_block) (reads 1))
  | directive head =>
    rw [← Opening.unplaced_kind]
    exact reads_atRule (reads_directiveBlock (reads_directive head endsOpening_block) (reads 1))

/-- A directive that was read is a statement, unless a block comes behind it. -/
theorem reads_directiveLeaf {kind : StatementKind}
    (isKind : (∃ name params, kind = .directive name params false) ∨ (∃ name, kind = .charset name) ∨
      ∃ target, kind = .importing target)
    (isHeader : Reads lines directive head (IsHeader kind) (';' :: behind)) :
    Reads lines (directiveWithBlock (fuel + 1)) head
      (fun out => ∃ s, out = [s] ∧ s.unplaced = .mk kind.unplaced [] 0 default none)
      (';' :: behind) := by
  have finish : ∀ last : Statement, last.unplaced = .mk kind.unplaced [] 0 default none →
      Reads lines (do return [last.withSpan (← spanFrom last.span.start)]) (';' :: behind)
        (fun out => ∃ s, out = [s] ∧ s.unplaced = .mk kind.unplaced [] 0 default none)
        (';' :: behind) := by
    intro last isLast
    refine Reads.spanFrom.after fun span => .pure ⟨_, rfl, ?_⟩
    rw [← isLast]
    cases last
    rfl
  have noBrace : ("\x7b" : String).toList.isPrefixOf (';' :: behind) = false :=
    isPrefixOf_false (c := '\x7b') rfl (by simp)
  refine isHeader.bind fun found isFound => ?_
  obtain ⟨line, span, rfl⟩ := isFound
  rcases isKind with ⟨name, params, rfl⟩ | ⟨name, rfl⟩ | ⟨target, rfl⟩
  · refine Reads.skipBlanks.after fun _ => ?_
    rw [Text.afterBlanks_of_head (by decide)]
    refine Reads.sees.bind fun _ no => ?_
    rw [noBrace] at no
    subst no
    exact finish (.leaf _ line span) rfl
  · exact finish (.leaf _ line span) rfl
  · exact finish (.leaf _ line span) rfl

/-- A statement without a block is read up to its semicolon. -/
theorem reads_leaf (l : Leaf) (behind : List Char) :
    Reads lines (statement (fuel + 3)) (l.text ++ ';' :: behind)
      (fun out => ∃ s, out = [s] ∧ s.unplaced = (Written.leaf l).statement) (';' :: behind) := by
  have ends : EndsOpening [] (';' :: behind) := ⟨by simp, by rintro c ⟨⟩; exact .inr rfl⟩
  cases l with
  | declaration name value =>
    obtain ⟨x, more, isText, starts⟩ := name.exists_cons
    have whole : Reads lines (propertyOrRule (fuel + 2)) (name.text ++ valueText value (';' :: behind))
        _ _ := reads_declaration name value behind
    have split : (Leaf.declaration name value).text ++ ';' :: behind =
        name.text ++ valueText value (';' :: behind) := by
      simp [Leaf.text, valueText]
    rw [split]
    rw [isText, List.cons_append] at whole ⊢
    exact reads_statement (startsSelector_of_startsHead starts) whole
  | directive head =>
    rw [Written.statement, ← Leaf.unplaced_kind _ (by simp)]
    exact reads_atRule (reads_directiveLeaf (.inl ⟨_, _, rfl⟩) (reads_directive head ends))
  | charset name =>
    exact reads_atRule (reads_directiveLeaf (.inr (.inl ⟨_, rfl⟩)) (reads_charset name))
  | importing target =>
    rw [Written.statement, ← Leaf.unplaced_kind _ (by simp)]
    exact reads_atRule (reads_directiveLeaf (.inr (.inr ⟨_, rfl⟩)) (reads_importing target ends))

end Openings

section Remarks

/-- A comment on one line has no indentation to take away. -/
theorem dedent_oneLine {text : List Char} (oneLine : '\n' ∉ text) (filled : text ≠ []) (column : Nat) :
    dedent column (Template.ofText (String.ofList text)) = Template.ofText (String.ofList text) := by
  have notEmpty : (String.ofList text).isEmpty = false := by simpa using filled
  have whole : Template.ofText (String.ofList text) = [.text (String.ofList text)] := by
    unfold Template.ofText Template.pushText
    rw [notEmpty]
    rfl
  have one := Text.splitLines_oneLine oneLine
  unfold dedent
  split
  · rfl
  · rw [whole]
    simp only [List.map_cons, List.map_nil, dedentText, String.toList_ofList, one]
    simp only [Template.append, List.foldl_cons, List.foldl_nil, List.flatten_nil, List.append_nil]
    exact whole

/-- A comment is read as it stands. -/
theorem reads_blockComment (remark : Remark) (behind : List Char) :
    Reads lines blockComment (remark.text ++ behind)
      (fun s => s.unplaced = (Written.comment remark).statement) behind := by
  refine Reads.get.bind fun start isText => Reads.lineNumber.after fun line => ?_
  refine Reads.read.after fun _ => ?_
  have stop : (start.advance remark.text.length).rest = behind := Cursor.rest_advance_append isText
  have found : blockComment? start.rest = some remark.text.length := by
    rw [isText]
    exact remark.blockComment?_text behind
  have raw : Reads lines rawTemplate remark.text _ [] := reads_rawTemplate remark.noExpr_text
  obtain ⟨parts, last, read, isTemplate, _⟩ := raw
    (start.limitTo (start.advance remark.text.length).pos) (Cursor.rest_limitTo_advance isText)
  rw [found]
  refine Reads.read.bind fun known same => ?_
  subst same
  refine (Reads.lift read).bind fun pair same => ?_
  subst same isTemplate
  refine (Reads.set stop).after fun _ => Reads.spanFrom.after fun span => .pure ?_
  rw [dedent_oneLine remark.oneLine_text (by simp [Remark.text])]
  change Statement.mk (StatementKind.comment (Part.unplacedAll _) false) [] 0 default none = _
  rw [Part.unplacedAll_ofText]
  rfl

end Remarks

end Braces

namespace Written

/-- The text of a statement behind its indentation. -/
def content (depth : Nat) : Written → List Char
  | block opening body =>
    opening.text ++ ' ' :: '\x7b' :: '\n' ::
      ((textOfAll .scss (depth + 1) body).toList ++ (Text.indent depth).toList ++ ['\x7d', '\n'])
  | leaf l => l.text ++ [';', '\n']
  | comment remark => remark.text ++ ['\n']

theorem toList_text (w : Written) (depth : Nat) :
    (w.text .scss depth).toList = (Text.indent depth).toList ++ w.content depth := by
  cases w with
  | block opening body => simp [text, content, SourceText.block]
  | leaf l => simp [text, content, SourceText.statement]
  | comment remark => simp [text, content, remark.source_eq]

theorem toList_textOfAll_cons (w : Written) (rest : List Written) (depth : Nat) :
    (textOfAll .scss depth (w :: rest)).toList =
      (Text.indent depth).toList ++ (w.content depth ++ (textOfAll .scss depth rest).toList) := by
  rw [textOfAll, String.toList_append, toList_text, List.append_assoc]

/-- A statement starts with a character of its own, and with no comment that ends with its line. -/
theorem exists_content (w : Written) (depth : Nat) :
    ∃ x more, w.content depth = x :: more ∧ Text.isBlank x = false ∧ x ≠ ';' ∧
      ∀ behind, lineComment? (x :: (more ++ behind)) = none := by
  have ofStart {x : Char} (starts : startsStatement x = true) : Text.isBlank x = false ∧ x ≠ ';' ∧
      ∀ behind, lineComment? (x :: behind) = none := by
    have notSlash : x ≠ '/' := by
      rintro rfl
      cases starts
    refine ⟨startsStatement_notBlank starts, ?_, fun behind => lineComment?_none (by simpa)⟩
    rintro rfl
    cases starts
  cases w with
  | block opening body =>
    obtain ⟨x, more, isText, starts⟩ := opening.exists_cons_text
    obtain ⟨notBlank, notEnd, noComment⟩ := ofStart starts
    exact ⟨x, _, by rw [content, isText, List.cons_append], notBlank, notEnd, fun _ => noComment _⟩
  | leaf l =>
    obtain ⟨x, more, isText, starts⟩ := l.exists_cons
    obtain ⟨notBlank, notEnd, noComment⟩ := ofStart starts
    exact ⟨x, _, by rw [content, isText, List.cons_append], notBlank, notEnd, fun _ => noComment _⟩
  | comment remark => exact ⟨'/', _, rfl, by decide, by decide, fun _ => rfl⟩

end Written

namespace Braces

open Written

variable {lines : LineIndex} {tail : List Char}

/-- Statements with nothing but blanks between them, up to a rest. -/
def LaidOut (depth : Nat) (tail : List Char) : List Written → List Char → Prop
  | [], text => Text.afterBlanks text = Text.afterBlanks tail
  | w :: rest, text => ∃ behind, Text.afterBlanks text = w.content depth ++ behind ∧
    LaidOut depth tail rest behind

theorem laidOut_textOfAll (found : List Written) (depth : Nat) (blanks : List Char)
    (blank : ∀ c ∈ blanks, Text.isBlank c = true) (tail : List Char) :
    LaidOut depth tail found (blanks ++ ((textOfAll .scss depth found).toList ++ tail)) := by
  induction found generalizing blanks with
  | nil => exact Text.afterBlanks_append blank tail
  | cons w rest ih =>
    obtain ⟨x, more, isContent, notBlank, _⟩ := w.exists_content depth
    refine ⟨_, ?_, ih [] (by simp)⟩
    rw [Text.afterBlanks_append blank, toList_textOfAll_cons, List.append_assoc,
      Text.afterBlanks_append (Text.isBlank_indent depth), List.append_assoc, isContent,
      List.cons_append, Text.afterBlanks_of_head notBlank]
    rfl

theorem LaidOut.congr {depth : Nat} {found : List Written} {text other : List Char}
    (laid : LaidOut depth tail found text)
    (same : Text.afterBlanks other = Text.afterBlanks text) : LaidOut depth tail found other := by
  cases found with
  | nil => exact same.trans laid
  | cons w rest =>
    obtain ⟨behind, isText, laid⟩ := laid
    exact ⟨behind, same.trans isText, laid⟩

/-- In front of such statements there are neither comments that end with their line nor further
semicolons. -/
theorem LaidOut.goesOn {depth : Nat} {found : List Written} {text : List Char}
    (laid : LaidOut depth tail found text) (closes : ClosesBlock tail) :
    lineComment? (Text.afterBlanks text) = none ∧ (Text.afterBlanks text).head? ≠ some ';' := by
  cases found with
  | nil =>
    rw [show Text.afterBlanks text = Text.afterBlanks tail from laid]
    exact ⟨lineComment?_none (closes.head_ne (by decide)), closes.head_ne (by decide)⟩
  | cons w rest =>
    obtain ⟨behind, isText, _⟩ := laid
    obtain ⟨x, more, isContent, _, notEnd, noComment⟩ := w.exists_content depth
    rw [isText, isContent]
    exact ⟨noComment behind, by simpa using notEnd⟩

/-- A statement that was read, without its place. -/
def IsRead (w : Written) (out : List Statement) : Prop :=
  ∃ s, out = [s] ∧ s.unplaced = w.statement

section Steps

variable {w : Written} {count fuel : Nat} {text content behind rest : List Char} {found : List Statement}
  {p : List Statement → Prop}

/-- Behind a statement, reading goes on with the next one, with or without a semicolon between
them. -/
theorem reads_next {middle : List Char}
    (notSlash : (Text.afterBlanks text).head? ≠ some '/')
    (one : Reads lines (statement fuel) (Text.afterBlanks text) (IsRead w) middle)
    (noComment : lineComment? (Text.afterBlanks middle) = none)
    (ends : Text.afterBlanks middle = ';' :: behind ∨
      Text.afterBlanks middle = behind ∧ behind.head? ≠ some ';' ∧ w.statement.hasBlock = true)
    (next : ∀ s, s.unplaced = w.statement →
      Reads lines (statements (found ++ [s]) fuel) behind p rest) :
    Reads lines (comments found (count + 1) >>= behindComments fuel) text p rest := by
  refine (reads_comments notSlash).bind fun _ same => ?_
  subst same
  refine one.bind fun added isRead => ?_
  obtain ⟨s, rfl, isStatement⟩ := isRead
  refine (reads_gaps noComment).after fun _ => ?_
  rcases ends with isEnd | ⟨isBehind, notEnd, hasBlock⟩
  · rw [isEnd]
    refine (Reads.eat ";" behind).bind fun _ yes => ?_
    subst yes
    exact next s isStatement
  · rw [isBehind]
    refine (Reads.eat_none (isPrefixOf_false rfl notEnd)).bind fun _ no => ?_
    subst no
    have opened : s.hasBlock = true := by
      rw [← Statement.hasBlock_unplaced, isStatement, hasBlock]
    simp only [List.getLast?_singleton, Option.any_some, opened]
    exact next s isStatement

/-- A comment is taken, and reading goes on behind it. -/
theorem reads_comment {remark : Remark} {next : List Statement → Reading (List Statement)}
    (isText : Text.afterBlanks text = remark.text ++ behind)
    (others : ∀ s, s.unplaced = (Written.comment remark).statement →
      Reads lines (comments (found ++ [s]) count >>= next) behind p rest) :
    Reads lines (comments found (count + 1) >>= next) text p rest := by
  rw [comments, bind_assoc]
  refine Reads.skipBlanks.after fun _ => ?_
  rw [isText, bind_assoc]
  refine Reads.sees.bind fun _ yes => ?_
  have opens : ("/*" : String).toList.isPrefixOf (remark.text ++ behind) = true := by
    simp [List.isPrefixOf, Remark.text]
  rw [opens] at yes
  subst yes
  rw [if_pos rfl, bind_assoc]
  exact (reads_blockComment remark behind).bind others

/-- Comments come first. -/
theorem reads_statements
    (reads : ∀ count, text.length < count →
      Reads lines (comments found count >>= behindComments fuel) text p rest) :
    Reads lines (statements found (fuel + 1)) text p rest := by
  rw [statements_succ]
  refine Reads.get.bind fun c isText => reads _ ?_
  rw [isText]
  exact Nat.lt_succ_self _

end Steps

-- The induction follows the written statements. A block takes five steps and more than three
-- characters, any other statement takes one step and at least two characters, a comment no step.
mutual

/-- A statement that is written is read, and reading goes on with what is laid out behind it. -/
theorem reads_written :
    (w : Written) → (depth fuel count : Nat) → (text behind : List Char) →
      Text.afterBlanks text = w.content depth ++ behind → 2 * text.length ≤ fuel →
      text.length < count → lineComment? (Text.afterBlanks behind) = none →
      (Text.afterBlanks behind).head? ≠ some ';' → {found : List Statement} →
      {p : List Statement → Prop} → {rest : List Char} →
      (∀ s fuel count text, s.unplaced = w.statement → Text.afterBlanks text = Text.afterBlanks behind →
        2 * text.length ≤ fuel → text.length < count →
        Reads lines (comments (found ++ [s]) count >>= behindComments fuel) text p rest) →
      Reads lines (comments found count >>= behindComments fuel) text p rest
  | .block opening body, depth, fuel, count, text, behind, isText, enough, long, noComment, notEnd,
      found, p, rest, next => by
    obtain ⟨x, more, isCons, starts⟩ := opening.exists_cons_text
    have tailBlanks : Text.afterBlanks ((Text.indent depth).toList ++ '\x7d' :: '\n' :: behind) =
        '\x7d' :: '\n' :: behind := by
      rw [Text.afterBlanks_append (Text.isBlank_indent depth), Text.afterBlanks_of_head (by decide)]
    have split : (Written.block opening body).content depth ++ behind =
        opening.text ++ ' ' :: '\x7b' :: '\n' :: ((textOfAll .scss (depth + 1) body).toList ++
          ((Text.indent depth).toList ++ '\x7d' :: '\n' :: behind)) := by
      simp [content]
    rw [split] at isText
    have length := congrArg List.length isText
    have shorter : (Text.afterBlanks text).length ≤ text.length := (List.dropWhile_sublist _).length_le
    simp only [isCons, List.length_append, List.length_cons] at length
    obtain ⟨count, rfl⟩ := Nat.exists_eq_add_of_le' (Nat.one_le_of_lt long)
    obtain ⟨fuel, rfl⟩ := Nat.exists_eq_add_of_le' (show 5 ≤ fuel by omega)
    have laid := laidOut_textOfAll body (depth + 1) ['\n'] (by simp; decide)
      ((Text.indent depth).toList ++ '\x7d' :: '\n' :: behind)
    have inner (more : Nat) : Reads lines (statements [] (fuel + more + 1)) _ _ _ :=
      reads_statements fun count long =>
        reads_all body (depth + 1) (fuel + more) count _ (.inr ⟨_, tailBlanks⟩) _ laid
          (by simp only [List.length_append, List.length_cons, List.length_nil]; omega) long []
    rw [tailBlanks] at inner
    have blocks (more : Nat) := reads_block (inner more)
    have deeper (more : Nat) : fuel + more + 1 + 1 = fuel + 2 + more := by omega
    simp only [deeper] at blocks
    have whole := reads_opening opening blocks
    have one : Reads lines (statement (fuel + 5)) (Text.afterBlanks text)
        (IsRead (.block opening body)) ('\n' :: behind) := by
      rw [isText]
      refine whole.weaken ?_
      rintro out ⟨s, rfl, children, isBody, isBlock⟩
      refine ⟨s, rfl, ?_⟩
      rw [isBlock, isBody, Written.statement]
      rfl
    have skipped : Text.afterBlanks ('\n' :: behind) = Text.afterBlanks behind :=
      Text.afterBlanks_cons (by decide) behind
    rw [← skipped] at noComment
    refine reads_next ?_ one noComment (.inr ⟨skipped, notEnd, ?_⟩) fun s isStatement => ?_
    · rw [isText, isCons]
      rintro ⟨⟩
      cases starts
    · cases opening <;> rfl
    · refine reads_statements fun count long => ?_
      refine next s (fuel + 4) count _ isStatement (Text.afterBlanks_afterBlanks behind) ?_ long
      have shorter : (Text.afterBlanks behind).length ≤ behind.length :=
        (List.dropWhile_sublist _).length_le
      omega
  | .leaf l, depth, fuel, count, text, behind, isText, enough, long, noComment, notEnd,
      found, p, rest, next => by
    obtain ⟨x, more, isCons, starts⟩ := l.exists_cons
    have split : (Written.leaf l).content depth ++ behind = l.text ++ ';' :: '\n' :: behind := by
      simp [content]
    rw [split] at isText
    have length := congrArg List.length isText
    have shorter : (Text.afterBlanks text).length ≤ text.length := (List.dropWhile_sublist _).length_le
    simp only [isCons, List.length_append, List.length_cons] at length
    obtain ⟨count, rfl⟩ := Nat.exists_eq_add_of_le' (Nat.one_le_of_lt long)
    obtain ⟨fuel, rfl⟩ := Nat.exists_eq_add_of_le' (show 3 ≤ fuel by omega)
    have one : Reads lines (statement (fuel + 3)) (Text.afterBlanks text) (IsRead (.leaf l))
        (';' :: '\n' :: behind) := by
      rw [isText]
      exact reads_leaf l ('\n' :: behind)
    have stays : Text.afterBlanks (';' :: '\n' :: behind) = ';' :: '\n' :: behind :=
      Text.afterBlanks_of_head (by decide) _
    refine reads_next ?_ one (by rw [stays]; rfl) (.inl stays) fun s isStatement => ?_
    · rw [isText, isCons]
      rintro ⟨⟩
      cases starts
    · refine reads_statements fun count long => ?_
      refine next s (fuel + 2) count _ isStatement (Text.afterBlanks_cons (by decide) behind) ?_ long
      rw [List.length_cons]
      omega
  | .comment remark, depth, fuel, count, text, behind, isText, enough, long, noComment, notEnd,
      found, p, rest, next => by
    have length := congrArg List.length isText
    have shorter : (Text.afterBlanks text).length ≤ text.length := (List.dropWhile_sublist _).length_le
    simp only [content, Remark.text, List.length_append, List.length_cons] at length
    obtain ⟨count, rfl⟩ := Nat.exists_eq_add_of_le' (Nat.one_le_of_lt long)
    rw [content, List.append_assoc] at isText
    refine reads_comment isText fun s isStatement => ?_
    refine next s fuel count _ isStatement (Text.afterBlanks_cons (by decide) behind) ?_ ?_
    all_goals
      simp only [List.singleton_append, List.length_cons]
      omega

theorem reads_all :
    (found : List Written) → (depth fuel count : Nat) → (tail : List Char) → ClosesBlock tail →
      (text : List Char) → LaidOut depth tail found text → 2 * text.length ≤ fuel →
      text.length < count → (before : List Statement) →
      Reads lines (comments before count >>= behindComments fuel) text
        (fun out => Statement.unplacedAll out = Statement.unplacedAll before ++ Written.statements found)
        (Text.afterBlanks tail)
  | [], depth, fuel, count, tail, closes, text, laid, enough, long, before => by
    obtain ⟨count, rfl⟩ := Nat.exists_eq_add_of_le' (Nat.one_le_of_lt long)
    have isTail : Text.afterBlanks text = Text.afterBlanks tail := laid
    have closes : ClosesBlock text := by
      unfold ClosesBlock
      rw [isTail]
      exact closes
    rw [← isTail]
    refine (reads_statements_nil closes).weaken ?_
    rintro out rfl
    simp [Written.statements]
  | w :: rest, depth, fuel, count, tail, closes, text, laid, enough, long, before => by
    obtain ⟨behind, isText, laid⟩ := laid
    obtain ⟨noComment, notEnd⟩ := laid.goesOn closes
    refine reads_written w depth fuel count text behind isText enough long noComment notEnd ?_
    intro s fuel count text isStatement isNext enough long
    refine (reads_all rest depth fuel count tail closes text (laid.congr isNext) enough long
      (before ++ [s])).weaken ?_
    intro out isRest
    rw [isRest, Statement.unplacedAll_append, Statement.unplacedAll, isStatement, Written.statements,
      List.append_assoc]
    rfl

end

/-- What is written with braces is read back, whatever blanks stand between the statements. -/
theorem parse_laidOut {found : List Written} {text : String}
    (laid : LaidOut 0 [] found text.toList) :
    ∃ root, parse text = .ok root ∧
      root.unplaced = .mk .root (Written.statements found) 0 default none := by
  let lines := LineIndex.ofText text
  have children : Reads lines (statements [] (8 * text.length + 8)) text.toList
      (fun out => Statement.unplacedAll out = Written.statements found) [] :=
    reads_statements fun count long =>
      reads_all found 0 _ count [] (.inl rfl) _ laid (by rw [String.length_toList]; omega) long []
  have whole : Reads lines (do
      let children ← statements [] (8 * text.length + 8)
      skipBlanks
      if (← get).isDone then
        return (Statement.leaf .root 1 (Span.between 0 (← position))).withChildren children
      else failExpected "selector or at-rule") text.toList
      (fun root => root.unplaced = .mk .root (Written.statements found) 0 default none) [] := by
    refine children.bind fun read isRead => Reads.skipBlanks.after fun _ => ?_
    refine Reads.get.bind fun c isText => ?_
    have done : c.isDone = true := by
      unfold Cursor.isDone
      rw [isText]
      rfl
    rw [done]
    refine Reads.position.after fun stop => .pure ?_
    rw [Statement.unplaced_leaf_withChildren, isRead]
    rfl
  obtain ⟨root, after, parsed, isRoot, _⟩ := whole (Cursor.ofText text) rfl
  refine ⟨root, ?_, isRoot⟩
  unfold parse
  simp only [bind, Except.bind] at parsed ⊢
  rw [parsed]
  rfl

end Braces

end Stylesheet
