import Stylesheet.Proofs.Statement.Headers
import Stylesheet.Proofs.Statement.Parsed

/-! How statements end between braces. Reading an expression stops right behind its last token, and
from there on only blanks are moved over, and behind assignments and directives also comments that
end with their line. So a comment between `/*` and `*/` never stands between a value and the semicolon
or brace behind it. Every statement begins on its line, and its expressions have places in the text. -/

namespace Stylesheet

/-- The value with which a statement ends that has no block. -/
def StatementKind.value? : StatementKind → Option Expr
  | .property _ value => value
  | .assign _ value _ | .returning value | .debug value | .warn value => some value
  | _ => none

namespace Header

open Cursor (Past)

/-- Moving over blanks, and over comments that end with their line. -/
inductive Gaps : List Char → List Char → Prop where
  | done : Gaps text text
  | blank (isBlank : Text.isBlank c = true) (more : Gaps text rest) : Gaps (c :: text) rest
  | comment (oneLine : ∀ c ∈ body, Scan.isLineEnd c = false)
      (ends : ∀ c ∈ text.head?, Scan.isLineEnd c = true) (more : Gaps text rest) :
      Gaps ('/' :: '/' :: (body ++ text)) rest

/-- A semicolon, a closing brace or the end of the text, perhaps behind gaps. -/
def Finishes (text : List Char) : Prop :=
  ∃ rest, Gaps text rest ∧ ∀ c ∈ rest.head?, c = ';' ∨ c = '\x7d'

section Gaps

variable {text middle rest : List Char}

theorem Gaps.trans (first : Gaps text middle) (second : Gaps middle rest) : Gaps text rest := by
  induction first with
  | done => exact second
  | blank isBlank _ ih => exact .blank isBlank (ih second)
  | comment oneLine ends _ ih => exact .comment oneLine ends (ih second)

theorem gaps_afterBlanks (text : List Char) : Gaps text (Text.afterBlanks text) := by
  induction text with
  | nil => exact .done
  | cons c text ih =>
    unfold Text.afterBlanks
    rw [List.dropWhile_cons]
    split
    · rename_i isBlank
      exact .blank isBlank ih
    · exact .done

theorem gaps_skipBlanks (c : Cursor) : Gaps c.rest c.skipBlanks.rest := by
  rw [Cursor.rest_skipBlanks]
  exact gaps_afterBlanks c.rest

theorem gaps_lineComment (body : List Char) :
    Gaps ('/' :: '/' :: body) (body.drop (Scan.run (!Scan.isLineEnd ·) body)) := by
  have parts := List.takeWhile_append_dropWhile (p := (!Scan.isLineEnd ·)) (l := body)
  have dropped : body.drop (Scan.run (!Scan.isLineEnd ·) body) =
      body.dropWhile (!Scan.isLineEnd ·) := by
    unfold Scan.run
    nth_rewrite 2 [← parts]
    exact List.drop_left
  rw [dropped]
  nth_rewrite 1 [← parts]
  refine .comment (fun c member => ?_) (fun c member => ?_) .done
  · simpa using List.mem_takeWhile_imp member
  · have isEnd := List.head?_dropWhile_not (!Scan.isLineEnd ·) body
    rw [Option.mem_def.mp member] at isEnd
    simpa using isEnd

theorem gaps_skipGaps (c : Cursor) (fuel : Nat) : Gaps c.rest (skipGaps c fuel).rest := by
  induction fuel generalizing c with
  | zero => exact .done
  | succ fuel ih =>
    unfold skipGaps
    dsimp only
    refine (gaps_skipBlanks c).trans ?_
    generalize c.skipBlanks = c
    split
    · rename_i count isComment
      unfold Scan.lineComment? at isComment
      split at isComment
      · rename_i behind isText
        cases isComment
        refine Gaps.trans ?_ (ih _)
        rw [Cursor.rest_advance, isText]
        exact gaps_lineComment behind
      · cases isComment
    · exact .done

theorem Finishes.of_gaps (gaps : Gaps text middle) : Finishes middle → Finishes text
  | ⟨rest, more, ends⟩ => ⟨rest, gaps.trans more, ends⟩

theorem Finishes.of_prefix {word : String} (ends : word = ";" ∨ word = "\x7d")
    (stands : word.toList <+: text) : Finishes text := by
  obtain ⟨rest, rfl⟩ := stands
  refine ⟨_, .done, fun c member => ?_⟩
  rcases ends with rfl | rfl
  · exact .inl (Option.some.inj member).symm
  · exact .inr (Option.some.inj member).symm

/-- A comment that can go over several lines is no gap. -/
theorem Finishes.no_blockComment (finishes : Finishes text) :
    Scan.blockComment? (Text.afterBlanks text) = none := by
  obtain ⟨rest, gaps, ends⟩ := finishes
  induction gaps with
  | @done text =>
    cases text with
    | nil => rfl
    | cons c text =>
      obtain rfl | rfl := ends c rfl
      · rw [Text.afterBlanks_of_head rfl]
        rfl
      · rw [Text.afterBlanks_of_head rfl]
        rfl
  | blank isBlank _ ih =>
    rw [Text.afterBlanks_cons isBlank]
    exact ih ends
  | comment =>
    rw [Text.afterBlanks_of_head rfl]
    rfl

end Gaps

/-- A place of a text, at an offset or behind it. -/
def From (text : List Char) (start : Nat) (c : Cursor) : Prop :=
  (∃ count, c = (Cursor.ofChars text).advance count) ∧ start ≤ c.pos

namespace From

variable {text : List Char} {start lower : Nat} {c : Cursor}

instance : Onward (From text start) where
  next := by
    rintro c ⟨⟨count, rfl⟩, ordered⟩
    exact ⟨⟨count + 1, Cursor.next_advance _ _⟩, ordered.trans (Cursor.pos_le_next _)⟩

theorem inside (here : From text start c) : c.In text := by
  obtain ⟨⟨count, rfl⟩, _⟩ := here
  exact Onward.advance .ofChars count

theorem past (here : From text start c) : Past text start c :=
  ⟨here.inside, here.2⟩

theorem again (here : From text start c) : From text c.pos c :=
  ⟨here.1, Nat.le_refl _⟩

theorem mono (here : From text start c) (less : lower ≤ start) : From text lower c :=
  ⟨here.1, less.trans here.2⟩

theorem onLine (here : From text start c) :
    Text.OnLine text ((LineIndex.ofChars text).line c.pos) c.pos :=
  LineIndex.onLine_ofChars here.inside.isPlace

end From

/-- What follows the value of a statement up to the end of the statement. -/
def Terminated : StatementKind → List Char → Prop
  | .property .., behind => ∃ c rest, Text.afterBlanks behind = c :: rest ∧ isStatementEnd c = true
  | .assign _ _ true, behind =>
    Scan.keyword "!default" (Text.afterBlanks behind) = true ∧
      Finishes ((Text.afterBlanks behind).drop 8)
  | _, behind => Finishes behind

/-- A kind whose value was read at some place of a text, up to a place where the statement ends. -/
def Ended (text : List Char) (kind : StatementKind) : Prop :=
  ∀ value, kind.value? = some value → ∃ start stop, From text 0 start ∧
    Script.parse (.ofChars text) start [] = .ok (value, stop) ∧ Terminated kind stop.rest

theorem Terminated.no_blockComment {kind : StatementKind} {behind : List Char}
    (terminated : Terminated kind behind) : Scan.blockComment? (Text.afterBlanks behind) = none := by
  unfold Terminated at terminated
  split at terminated
  · obtain ⟨c, rest, same, isEnd⟩ := terminated
    unfold Scan.blockComment?
    split
    · rename_i isComment
      cases same.symm.trans isComment
      cases isEnd
    · rfl
  · unfold Scan.blockComment?
    split
    · rename_i isComment
      rw [isComment] at terminated
      cases terminated.1
    · rfl
  · exact terminated.no_blockComment

theorem ended_of_no_value {text : List Char} {kind : StatementKind} (none : kind.value? = none) :
    Ended text kind := by
  intro value isValue
  rw [none] at isValue
  cases isValue

theorem ended_of_isBranch {text : List Char} {kind : StatementKind}
    (isBranch : kind.isBranch = true) : Ended text kind := by
  refine ended_of_no_value ?_
  unfold StatementKind.isBranch at isBranch
  split at isBranch
  · rfl
  · cases isBranch

end Header

namespace Statement

open Header

variable {text : List Char}

/-- A statement between braces and all within it sit in a text and end as they should. -/
abbrev Closed (text : List Char) (s : Statement) : Prop :=
  s.Throughout fun t => t.Sits text ∧ Ended text t.kind

theorem isShallow_closed : IsShallow fun t => t.Sits text ∧ Ended text t.kind := by
  refine isShallow_sits.and fun s t alike ended => ?_
  rcases alike.kind with same | ⟨_, _, _, _, isBranch⟩
  · rwa [← same]
  · rw [isBranch]
    exact ended_of_no_value rfl

def AllClosed (text : List Char) (found : List Statement) : Prop :=
  ∀ s ∈ found, s.Closed text

section Shape

variable {s added result : Statement} {kind : StatementKind} {children : List Statement}
  {line : Nat} {span : Span} {found : List Statement}

theorem allClosed_nil : AllClosed text [] :=
  nofun

theorem AllClosed.append {first second : List Statement} (before : AllClosed text first)
    (behind : AllClosed text second) : AllClosed text (first ++ second) :=
  fun s member => (List.mem_append.mp member).elim (before s) (behind s)

theorem allClosed_singleton (closed : s.Closed text) : AllClosed text [s] := by
  intro t member
  rw [List.mem_singleton.mp member]
  exact closed

theorem SitsAlone.closed (alone : s.SitsAlone text) (ended : Ended text s.kind) : s.Closed text :=
  alone.throughout ⟨alone.toSits, ended⟩

/-- Only a property can have both a value and a block. -/
theorem value?_of_hasBlock (bare : s.children = []) (hasBlock : s.hasBlock = true) :
    s.kind.value? = none := by
  unfold Statement.hasBlock at hasBlock
  split at hasBlock <;> simp_all [StatementKind.value?]

/-- A statement that stands alone is closed by its block or by what stands behind it. -/
theorem SitsAlone.closed_of_ends {behind : List Char} (alone : s.SitsAlone text)
    (ends : Finishes behind → Ended text s.kind) (ended : s.hasBlock = true ∨ Finishes behind) :
    s.Closed text :=
  alone.closed (ended.elim (fun hasBlock => ended_of_no_value (value?_of_hasBlock alone.bare hasBlock)) ends)

theorem Closed.sits (closed : s.Closed text) : s.Sits text :=
  (closed s .here).1

theorem Closed.withSpan (closed : s.Closed text) (begins : Text.Begins text s.line span) :
    (s.withSpan span).Closed text := by
  cases s
  obtain ⟨here, inner, otherwise⟩ := throughout_iff.mp closed
  exact throughout_iff.mpr ⟨⟨⟨begins, here.1.exprs⟩, here.2⟩, inner, otherwise⟩

/-- A directive that opens a block is closed once the statements in it are. -/
theorem Closed.withBlock {name : String} {params : Template} {before hasBlock : Bool}
    (closed : s.Closed text) (isDirective : s.kind = .directive name params before)
    (inner : AllClosed text children) :
    ((s.withChildren children).withKind (.directive name params hasBlock)).Closed text := by
  cases s
  cases isDirective
  exact throughout_of_isPlain rfl ⟨⟨closed.sits.begins, closed.sits.exprs⟩, ended_of_no_value rfl⟩
    inner

theorem span_withChildren (s : Statement) (children : List Statement) :
    (s.withChildren children).span = s.span := by
  cases s
  rfl

theorem span_withBlock (s : Statement) (children : List Statement) (kind : StatementKind) :
    ((s.withChildren children).withKind kind).span = s.span := by
  cases s
  rfl

theorem hasBlock_withSpan (s : Statement) (span : Span) :
    (s.withSpan span).hasBlock = s.hasBlock := by
  cases s
  rfl

theorem span_of_addElse (found : s.addElse? added = some result) : result.span = s.span := by
  fun_cases addElse? s added with
  | case1 =>
    simp only [addElse?, Option.map_eq_some_iff] at found
    obtain ⟨_, _, rfl⟩ := found
    rfl
  | case2 =>
    cases found
    rfl
  | case3 => simp_all [addElse?]

/-- Statements in front of a text, of which the last one may still have to find its end there. -/
structure Pending (text : List Char) (found : List Statement) (behind : List Char) : Prop where
  front : AllClosed text found.dropLast
  last : ∀ s ∈ found.getLast?, s.hasBlock = true ∨ Finishes behind → s.Closed text

variable {behind : List Char}

theorem AllClosed.pending (closed : AllClosed text found) : Pending text found behind where
  front := fun s member => closed s (List.dropLast_sublist _ |>.subset member)
  last := fun s isLast _ => closed s (List.mem_of_getLast? isLast)

theorem pending_singleton (closed : s.hasBlock = true ∨ Finishes behind → s.Closed text) :
    Pending text [s] behind where
  front := nofun
  last := by
    rintro _ ⟨⟩
    exact closed

theorem pending_exchangeLast (front : AllClosed text found.dropLast)
    (closed : s.hasBlock = true ∨ Finishes behind → s.Closed text) :
    Pending text (found.dropLast ++ [s]) behind where
  front := by
    rw [List.dropLast_concat]
    exact front
  last := by
    rw [List.getLast?_concat]
    rintro _ ⟨⟩
    exact closed

theorem Pending.closed (pending : Pending text found behind)
    (ended : found.getLast?.any hasBlock = true ∨ Finishes behind) : AllClosed text found := by
  cases isLast : found.getLast? with
  | none =>
    rw [List.getLast?_eq_none_iff.mp isLast]
    exact allClosed_nil
  | some last =>
    rw [isLast] at ended
    rw [← List.dropLast_append_getLast? last isLast]
    exact pending.front.append (allClosed_singleton (pending.last last isLast ended))

theorem Pending.of_gaps {rest : List Char} (gaps : Gaps behind rest)
    (pending : Pending text found behind) : Pending text found rest where
  front := pending.front
  last := fun s isLast ended => pending.last s isLast (ended.imp_right (.of_gaps gaps))

theorem AllClosed.append_pending {added : List Statement} (closed : AllClosed text found)
    (pending : Pending text added behind) : Pending text (found ++ added) behind := by
  cases isLast : added.getLast? with
  | none =>
    rw [List.getLast?_eq_none_iff.mp isLast, List.append_nil]
    exact closed.pending
  | some last =>
    rw [← List.dropLast_append_getLast? last isLast, ← List.append_assoc]
    refine ⟨?_, ?_⟩
    · rw [List.dropLast_concat]
      exact closed.append pending.front
    · rw [List.getLast?_concat]
      rintro _ ⟨⟩
      exact pending.last last isLast

end Shape

end Statement

namespace Header

open Statement

variable {text : List Char} {c : Cursor} {start : Nat}

/-- A value that was read at a place of a text, up to another place. -/
def ReadUpTo (text : List Char) (value : Expr) (stop : Cursor) : Prop :=
  ∃ start, From text 0 start ∧ Script.parse (.ofChars text) start [] = .ok (value, stop)

theorem ReadUpTo.ended {value : Expr} {kind : StatementKind} {stop : Cursor}
    (isValue : ReadUpTo text value stop) (only : ∀ other, kind.value? = some other → other = value)
    (terminated : Terminated kind stop.rest) : Ended text kind := by
  intro other found
  obtain ⟨start, here, read⟩ := isValue
  rw [only other found]
  exact ⟨start, stop, here, read, terminated⟩

theorem expr_leads (here : From text start c) :
    Leads (.ofChars text) c expr fun value stop =>
      From text start stop ∧ ReadUpTo text value stop :=
  (expr_sound.leads here).and (.scripted fun _ _ ran => ⟨c, here.mono (Nat.zero_le _), ran⟩)

theorem propertyValue?_leads (here : From text start c) :
    Leads (.ofChars text) c propertyValue? fun value stop => From text start stop ∧
      (∀ e ∈ value, e.IsPlaced text) ∧ ∀ e ∈ value, ReadUpTo text e stop := by
  refine (propertyValue?_sound.leads here).and
    (((propertyValue?_placed here.past).weaken fun _ _ => And.right).and (.get ?_))
  split
  · exact .pure nofun
  · split
    · exact .pure nofun
    · refine (expr_leads here).map fun e stop found => ?_
      rintro _ ⟨⟩
      exact found.2

theorem assignment_ends (here : From text start c) :
    Leads (.ofChars text) c (assignment .scss) fun s stop =>
      Finishes stop.rest → Ended text s.kind := by
  refine .position (.lineNumber (.step eat_sound here fun _ d here =>
    .step scan?_sound here fun name d here => ?_))
  split
  · exact .failExpected
  · refine .step skipBlanks_sound here fun _ d here => .step eat_sound here fun _ d here =>
      .join (eat_sound.leads here) (.pure here) fun separated d here => ?_
    dsimp only
    split
    · exact .failExpected
    · refine (expr_leads here).bind fun value stop found => .skipBlanks ?_
      have isRest := Cursor.rest_skipBlanks stop
      refine .eatWord (fun guarded => .spanFrom (.pure fun finishes => ?_))
        (.spanFrom (.pure fun finishes => ?_))
      · refine found.2.ended (by rintro _ ⟨⟩; rfl) ?_
        rw [isRest] at guarded
        rw [Cursor.rest_advance, isRest] at finishes
        exact ⟨guarded, finishes⟩
      · refine found.2.ended (by rintro _ ⟨⟩; rfl) ?_
        exact finishes.of_gaps (gaps_skipBlanks stop)

theorem directiveKind_ends {origin : Cursor} (here : From text start c) (name : String) :
    Leads (.ofChars text) c (directiveKind origin name) fun kind stop =>
      Finishes stop.rest → Ended text kind := by
  have free : ∀ {reading : Reading StatementKind}, Yields reading (·.value? = none) →
      Leads (.ofChars text) c reading fun kind stop => Finishes stop.rest → Ended text kind :=
    fun yields => yields.leads.weaken fun _ _ none _ => ended_of_no_value none
  have value : ∀ kind : Expr → StatementKind, (∀ e, (kind e).value? = some e) →
      (∀ e behind, Finishes behind → Terminated (kind e) behind) →
      Leads (.ofChars text) c (do return kind (← expr)) fun kind stop =>
        Finishes stop.rest → Ended text kind := by
    intro kind only ends
    refine (expr_leads here).bind fun e d found => .pure fun finishes => ?_
    refine found.2.ended (fun other isValue => ?_) (ends e _ finishes)
    rw [only] at isValue
    exact (Option.some.inj isValue).symm
  unfold directiveKind
  -- one case for each name with a meaning, and the last one for all others
  split
  · exact free (mixinDefinition_yields fun _ _ => rfl)
  · exact free (.after fun _ => .after fun _ => .pure rfl)
  · exact free (inclusion_yields fun _ _ => rfl)
  · exact value _ (fun _ => rfl) fun _ _ => id
  · exact value _ (fun _ => rfl) fun _ _ => id
  · exact value _ (fun _ => rfl) fun _ _ => id
  · exact free (.after fun _ => .pure rfl)
  · exact free (.after fun _ => .fail)
  · exact free (.after fun _ => .pure rfl)
  · exact free (countHeader_yields fun _ _ _ _ => rfl)
  · exact free (eachHeader_yields fun _ _ => rfl)
  · refine free (.after fun _ => ?_)
    dsimp only
    split
    · exact .failExpected
    · exact .pure rfl
  · exact free (.after fun _ => .pure rfl)
  · exact free (.after fun _ => .pure rfl)
  · exact free (.after fun _ => .pure rfl)

theorem directive_ends (here : From text start c) :
    Leads (.ofChars text) c directive fun found stop =>
      (∀ s ∈ found.dropLast, Ended text s.kind) ∧
        ∀ s ∈ found, Finishes stop.rest → Ended text s.kind := by
  refine .get (.lineNumber (.step eat_sound here fun _ d here =>
    .step scan?_sound here fun name d here => ?_))
  split
  · exact .failExpected
  · refine .step skipBlanks_sound here fun _ d here => ?_
    split
    · refine .get ((imports_yields [] _).leads.weaken fun found stop added => ?_)
      have all : ∀ s ∈ found, Ended text s.kind := by
        intro s member
        obtain none | ⟨_, _, _, rfl⟩ := added s member
        · cases none
        · exact ended_of_no_value rfl
      exact ⟨fun s member => all s (List.dropLast_sublist _ |>.subset member),
        fun s member _ => all s member⟩
    · refine (directiveKind_ends here _).bind fun kind d ends => .spanFrom (.pure ⟨by simp, ?_⟩)
      intro s member
      rw [List.mem_singleton.mp member]
      exact ends

theorem directive_pending (here : From text start c) :
    Leads (.ofChars text) c directive fun found stop => From text start stop ∧
      Pending text found stop.rest ∧ ∀ s ∈ found, SitsBefore text stop.pos s := by
  refine ((directive_sound.leads here).and
    ((directive_sits here.inside).and (directive_ends here))).weaken ?_
  rintro found stop ⟨further, sit, front, ends⟩
  refine ⟨further, ⟨fun s member => ?_, fun s isLast ended => ?_⟩, sit⟩
  · exact (sit s (List.dropLast_sublist _ |>.subset member)).1.closed (front s member)
  · have member := List.mem_of_getLast? isLast
    exact (sit s member).1.closed_of_ends (ends s member) ended

end Header

namespace Braces

open Header Statement

variable {text : List Char} {start : Nat} {c : Cursor} {found : List Statement}

/-- A reading that goes on behind an offset of a text gives something that fits to where it ends. -/
abbrev Goes (text : List Char) (start : Nat) (c : Cursor) (reading : Reading α)
    (q : α → Cursor → Prop) : Prop :=
  Leads (.ofChars text) c reading fun a stop => From text start stop ∧ q a stop

theorem comments_closed (here : From text start c) (all : AllClosed text found) (fuel : Nat) :
    Goes text start c (comments found fuel) fun found _ => AllClosed text found := by
  have longer : ∀ {found : List Statement} {s : Statement}, AllClosed text found →
      SitsAsComment text s → AllClosed text (found ++ [s]) := by
    rintro found s all ⟨alone, parts, silent, isComment⟩
    refine all.append (allClosed_singleton (alone.closed (ended_of_no_value ?_)))
    rw [isComment]
    rfl
  induction fuel generalizing c found with
  | zero => exact .pure ⟨here, all⟩
  | succ fuel ih =>
    refine .step skipBlanks_sound here fun _ d here => .sees ?_
    split
    · exact ((blockComment_onward here).and (blockComment_sits here.inside)).bind
        fun s d more => ih more.1 (longer all more.2)
    · refine .sees ?_
      split
      · exact ((lineComment_onward here).and (lineComment_sits here.inside)).bind
          fun s d more => ih more.1 (longer all more.2)
      · exact .pure ⟨here, all⟩

theorem propertyHead_placed (here : From text start c) :
    Goes text c.pos c propertyHead fun head _ => head.start = c.pos ∧
      Text.OnLine text head.line c.pos ∧ TemplatePlaced text head.name := by
  refine .position (.lineNumber ?_)
  refine (((propertyName?_sound.leads here.again)).and
    (propertyName?_placed here.again.past)).bind fun found d more => ?_
  split
  · exact .failExpected
  · rename_i name
    refine .step skipBlanks_sound more.1 fun _ d here' => .step eat_sound here' fun ate d here' => ?_
    split
    · exact .get (.pure ⟨here', rfl, here.onLine, more.2.2 name rfl⟩)
    · exact .failExpected

/-- A rule, a property or a directive with the statements in its block. -/
theorem closed_withBlock {kind : StatementKind} {line : Nat} {children : List Statement}
    (here : From text start c) (onLine : Text.OnLine text line start) (plain : kind.isPlain = true)
    (placed : KindPlaced text kind) (ended : Ended text kind) (inner : AllClosed text children) :
    ((leaf kind line (c.spanFrom start)).withChildren children).Closed text :=
  ((sitsAlone_leaf here.past onLine plain placed).closed ended).withChildren isShallow_closed inner

theorem isStatementEnd_of_startsWith {word : String} (ends : word ∈ ["\x7b", ";", "\x7d"])
    (stands : c.startsWith word = true) :
    ∃ x rest, c.rest = x :: rest ∧ isStatementEnd x = true := by
  obtain ⟨rest, isRest⟩ := List.isPrefixOf_iff_prefix.mp stands
  simp only [List.mem_cons, List.not_mem_nil, or_false] at ends
  rcases ends with rfl | rfl | rfl <;> exact ⟨_, rest, isRest.symm, rfl⟩

-- All readers of the grammar at once, by induction on the fuel that they share.
mutual

theorem statements_pending : (fuel : Nat) → {start : Nat} → {c : Cursor} → {found : List Statement} →
    From text start c → AllClosed text found →
    Goes text start c (statements found fuel) fun found stop => Pending text found stop.rest
  | 0, start, c, found, here, all => .pure ⟨here, all.pending⟩
  | fuel + 1, start, c, found, here, all => by
    refine .get ((comments_closed here all _).bind fun found d before => ?_)
    refine (statement_pending fuel before.1).bind fun added d after => ?_
    dsimp only
    have gaps := gaps_skipGaps d (d.rest.length + 1)
    have here := skipGaps_onward after.1 (d.rest.length + 1)
    have pending := after.2.of_gaps gaps
    refine .skipBlanksAndLineComments (.eat here (fun ends d behind => ?_) ?_)
    · have finishes := Finishes.of_prefix (.inl rfl) ends
      exact statements_pending fuel behind (before.2.append (pending.closed (.inr finishes)))
    · rw [if_neg Bool.false_ne_true]
      split
      · rename_i hasBlock
        exact statements_pending fuel here (before.2.append (pending.closed (.inl hasBlock)))
      · exact .pure ⟨here, before.2.append_pending pending⟩

theorem block_closed : (fuel : Nat) → {start : Nat} → {c : Cursor} → From text start c →
    Goes text start c (block fuel) fun children _ => AllClosed text children
  | 0, start, c, here => .failExpected
  | fuel + 1, start, c, here => by
    refine .step skipBlanks_sound here fun _ d here => .step eat_sound here fun opens d here => ?_
    split
    · refine (statements_pending fuel here allClosed_nil).bind fun children d inner => .skipBlanks ?_
      refine .eat (Onward.skipBlanks inner.1) (fun closes d here => .pure ⟨here, ?_⟩) .failExpected
      have finishes := Finishes.of_prefix (.inr rfl) closes
      exact inner.2.closed (.inr (finishes.of_gaps (gaps_skipBlanks _)))
    · exact .failExpected

theorem statement_pending : (fuel : Nat) → {start : Nat} → {c : Cursor} → From text start c →
    Goes text start c (statement fuel) fun found stop => Pending text found stop.rest
  | 0, start, c, here => .pure ⟨here, allClosed_nil.pending⟩
  | fuel + 1, start, c, here => by
    have nothing : ∀ behind, Pending text [] behind := fun _ => allClosed_nil.pending
    refine .step skipBlanks_sound here fun _ d here => .get ?_
    split
    · exact .pure ⟨here, nothing _⟩
    · exact .pure ⟨here, nothing _⟩
    · exact .pure ⟨here, nothing _⟩
    · refine (((assignment_sound .scss).leads here).and ((assignment_sits here.inside .scss).and
        (assignment_ends here))).bind fun s d found => .pure ⟨found.1, ?_⟩
      exact pending_singleton (found.2.1.closed_of_ends found.2.2)
    · exact directiveWithBlock_pending fuel here
    · refine (propertyOrRule_closed fuel here).bind fun s d found => .pure ⟨found.1, ?_⟩
      exact (allClosed_singleton found.2).pending

theorem directiveWithBlock_pending : (fuel : Nat) → {start : Nat} → {c : Cursor} → From text start c →
    Goes text start c (directiveWithBlock fuel) fun found stop => Pending text found stop.rest
  | 0, start, c, here => .pure ⟨here, allClosed_nil.pending⟩
  | fuel + 1, start, c, here => by
    refine (directive_pending here).bind fun found d begun => ?_
    obtain ⟨here, pending, sit⟩ := begun
    split
    · exact .pure ⟨here, pending⟩
    · rename_i last isLast
      obtain ⟨alone, begun⟩ := sit last (List.mem_of_getLast? isLast)
      have finish : ∀ {s : Statement} {e : Cursor}, From text d.pos e → s.span = last.span →
          (s.hasBlock = true ∨ Finishes e.rest → s.Closed text) →
          Goes text start e (spanFrom s.span.start >>= fun span =>
            pure (found.dropLast ++ [s.withSpan span])) fun found stop =>
              Pending text found stop.rest := by
        intro s e further same closed
        refine .spanFrom (.pure ⟨further.mono here.2, pending_exchangeLast pending.front fun ended => ?_⟩)
        rw [hasBlock_withSpan] at ended
        have whole := closed ended
        refine whole.withSpan (whole.sits.begins.start.begins further.inside.isPlace ?_)
        rw [same]
        exact begun.trans further.2
      have filled : last.kind.value? = none → ∀ children, AllClosed text children →
          (last.withChildren children).Closed text := fun none children inner =>
        (alone.closed (ended_of_no_value none)).withChildren isShallow_closed inner
      have bare : ∀ {e : Cursor}, From text d.pos e → Gaps d.rest e.rest →
          Goes text start e (spanFrom last.span.start >>= fun span =>
            pure (found.dropLast ++ [last.withSpan span])) fun found stop =>
              Pending text found stop.rest := fun further gaps =>
        finish further rfl (pending.of_gaps gaps |>.last last isLast)
      split
      · rename_i isDirective
        have none : last.kind.value? = none := isDirective ▸ rfl
        refine .skipBlanks (.sees ?_)
        have further := Onward.skipBlanks here.again
        split
        · refine (block_closed fuel further).bind fun children e inner => ?_
          refine finish inner.1 (span_withBlock _ _ _) fun _ => ?_
          exact (alone.closed (ended_of_no_value none)).withBlock isDirective inner.2
        · exact bare further (gaps_skipBlanks d)
      case h_8 =>
        rename_i isBranch
        refine (block_closed fuel here.again).bind fun children e inner => ?_
        refine (elseChain_closed fuel inner.1 (filled (isBranch ▸ rfl) children inner.2)).bind
          fun s e chain => ?_
        exact finish chain.1 (chain.2.2.trans (span_withChildren _ _)) fun _ => chain.2.1
      case h_9 => exact bare here.again .done
      all_goals
        rename_i isKind
        refine (block_closed fuel here.again).bind fun children e inner => ?_
        exact finish inner.1 (span_withChildren _ _) fun _ => filled (isKind ▸ rfl) children inner.2

theorem elseChain_closed : (fuel : Nat) → {start : Nat} → {c : Cursor} → {conditional : Statement} →
    From text start c → conditional.Closed text →
    Goes text start c (elseChain conditional fuel) fun s _ =>
      s.Closed text ∧ s.span = conditional.span
  | 0, start, c, conditional, here, closed => .pure ⟨here, closed, rfl⟩
  | fuel + 1, start, c, conditional, here, closed => by
    have back := here
    refine .get (.step skipBlanksAndLineComments_sound here fun _ d here => .position
      (.lineNumber (.step eat_sound (P := From text d.pos) here.again fun opens e further => ?_)))
    refine .join (r := fun _ => From text d.pos) (eatWord_sound.leads further) (.pure further)
      fun isElse e further => ?_
    dsimp only
    split
    · refine (((elseBranch_sound _ _).leads further).and
        ((elseBranch_sits further.past here.onLine).and (elseBranch_isElse _ _).leads)).bind
        fun header e head => ?_
      refine (block_closed fuel head.1).bind fun children e inner => ?_
      have added := (head.2.1.closed (ended_of_isBranch head.2.2.2)).withChildren isShallow_closed inner.2
      split
      · rename_i longer isLonger
        refine (elseChain_closed fuel (inner.1.mono here.2) (closed.addElse isShallow_closed added isLonger)).weaken ?_
        rintro s stop ⟨further, whole, same⟩
        exact ⟨further, whole, same.trans (span_of_addElse isLonger)⟩
      · exact .throw
    · exact .set (.pure ⟨back, closed, rfl⟩)

theorem propertyOrRule_closed : (fuel : Nat) → {start : Nat} → {c : Cursor} → From text start c →
    Goes text start c (propertyOrRule fuel) fun s _ => s.Closed text
  | 0, start, c, here => .failExpected
  | fuel + 1, start, c, here => by
    refine .get (.read ?_)
    split
    · exact ruleSet_closed fuel here
    · rename_i head afterColon readHead
      have begun := propertyHead_placed here head afterColon readHead
      split
      · rename_i found stop read
        refine .set (.pure ?_)
        obtain ⟨further, isStart, onLine, placed⟩ := begun
        rw [← isStart] at further onLine
        have tail := propertyTail_closed fuel further onLine placed found stop read
        exact ⟨tail.1.mono (isStart ▸ here.2), tail.2⟩
      · split
        · rename_i found stop read
          exact .set (.pure (ruleSet_closed fuel here found stop read))
        · exact .throw

theorem propertyTail_closed : (fuel : Nat) → {c : Cursor} → {head : PropertyHead} →
    From text head.start c → Text.OnLine text head.line head.start →
    TemplatePlaced text head.name →
    Goes text head.start c (propertyTail head fuel) fun s _ => s.Closed text
  | 0, c, head, here, onLine, placed => .failExpected
  | fuel + 1, c, head, here, onLine, placed => by
    refine (propertyValue?_leads here).bind fun value d found => .skipBlanks ?_
    obtain ⟨here, isPlaced, isValue⟩ := found
    have isRest := Cursor.rest_skipBlanks d
    have begun := Onward.skipBlanks here
    generalize d.skipBlanks = e at isRest begun ⊢
    dsimp only
    have finish : ∀ {word : String} {children : List Statement} {c : Cursor},
        word ∈ ["\x7b", ";", "\x7d"] → e.startsWith word = true →
        From text head.start c → AllClosed text children →
        Goes text head.start c (spanFrom head.start >>= fun span => pure
          ((leaf (.property head.name value) head.line span).withChildren children)) fun s _ =>
          s.Closed text := by
      intro word children c ends stands here inner
      obtain ⟨x, rest, isText, isEnd⟩ := isStatementEnd_of_startsWith ends stands
      refine .spanFrom (.pure ⟨here, closed_withBlock here onLine rfl ?_ ?_ inner⟩)
      · intro e member
        exact (List.mem_append.mp member).elim (placed e) fun given =>
          isPlaced e (Option.mem_toList.mp given)
      · intro v given
        obtain ⟨first, place, read⟩ := isValue v given
        exact ⟨first, d, place, read, x, rest, isRest ▸ isText, isEnd⟩
    refine .sees ?_
    split
    · rename_i opens
      split
      · refine (block_closed fuel begun).bind fun children c inner => ?_
        exact finish (by simp) opens inner.1 inner.2
      · exact .fail
    · split
      · exact .failExpected
      · refine .sees (.sees ?_)
        split
        · rename_i ends
          rcases Bool.or_eq_true_iff.mp ends with ends | ends
          · exact finish (by simp) ends begun allClosed_nil
          · exact finish (by simp) ends begun allClosed_nil
        · exact .failExpected

theorem ruleSet_closed : (fuel : Nat) → {start : Nat} → {c : Cursor} → From text start c →
    Goes text start c (ruleSet fuel) fun s _ => s.Closed text
  | 0, start, c, here => .failExpected
  | fuel + 1, start, c, here => by
    refine .position (.lineNumber ?_)
    refine ((templateUntil_sound.leads here.again).and (templateUntil_placed here.again.past)).bind
      fun selector d found => ?_
    dsimp only
    split
    · exact .failExpected
    · refine .sees ?_
      split
      · refine (block_closed fuel found.1).bind fun children d inner => .spanFrom (.pure ⟨?_, ?_⟩)
        · exact inner.1.mono here.2
        · exact closed_withBlock inner.1 here.onLine rfl found.2.2.trimmed (ended_of_no_value rfl) inner.2
      · exact .failExpected

end

theorem parse_closed {text : String} {root : Statement} (ok : parse text = .ok root) :
    root.Closed text.toList := by
  have first : From text.toList 0 (.ofChars text.toList) := ⟨⟨0, rfl⟩, Nat.le_refl _⟩
  have whole : Leads (.ofChars text.toList) (.ofChars text.toList) (do
      let children ← statements [] (8 * text.length + 8)
      skipBlanks
      if (← get).isDone then
        return (leaf .root 1 (Span.between 0 (← position))).withChildren children
      else failExpected "selector or at-rule") (fun root _ => root.Closed text.toList) := by
    refine (statements_pending _ first allClosed_nil).bind fun children d inner => .skipBlanks (.get ?_)
    split
    · rename_i isDone
      have finishes : Finishes d.rest := by
        refine .of_gaps (gaps_skipBlanks d) ⟨_, .done, ?_⟩
        rw [List.isEmpty_iff.mp isDone]
        exact nofun
      have begins := Text.onLine_start.begins (Onward.skipBlanks inner.1).inside.isPlace (Nat.zero_le _)
      refine .position (.pure (throughout_iff.mpr ⟨⟨⟨begins, nofun⟩, ended_of_no_value rfl⟩, ?_, nofun⟩))
      exact inner.2.closed (.inr finishes)
    · exact .failExpected
  obtain ⟨⟨_, stop⟩, read, same⟩ := exists_of_bind_ok ok
  cases same
  exact whole root stop read

end Braces

namespace Statement

open Header

/-- Whatever the value of a statement between braces is, it was read up to a place where the statement
ends, perhaps behind blanks, `!default` and comments that end with their line. There is never a comment
between `/*` and `*/` on the way. -/
theorem values_terminated {text : String} {filename : Option String} {root s : Statement}
    {value : Expr} (parsed : parse text .scss filename = .ok root) (within : s.Within root)
    (isValue : s.kind.value? = some value) :
    ∃ count stop, Script.parse (.ofText text) ((Cursor.ofText text).advance count) [] =
        .ok (value, stop) ∧
      Terminated s.kind stop.rest ∧
      Scan.blockComment? (Text.afterBlanks stop.rest) = none := by
  unfold parse at parsed
  cases read : Braces.parse text with
  | error error => simp [read] at parsed
  | ok tree =>
    simp only [read, Except.ok.injEq] at parsed
    have closed := (Braces.parse_closed read).withFilename isShallow_closed filename
    rw [parsed] at closed
    obtain ⟨_, stop, ⟨⟨count, rfl⟩, -⟩, ran, ends⟩ := (closed s within).2 value isValue
    exact ⟨count, stop, ran, ends, ends.no_blockComment⟩

/-- Whether only the assignment is read. -/
def isOnlyAssignment : Except ε Statement → Bool
  | .ok (.mk .root [.mk (.assign "a" _ false) [] 1 _ none] 1 _ none) => true
  | _ => false

theorem values_terminated_of_assignment : ∃ (root s : Statement) (value : Expr),
    parse "$a: 1;" .scss none = .ok root ∧ s.Within root ∧ s.kind.value? = some value ∧
    ∃ count stop, Script.parse (.ofText "$a: 1;") ((Cursor.ofText "$a: 1;").advance count) [] =
        .ok (value, stop) ∧
      Terminated s.kind stop.rest ∧ Scan.blockComment? (Text.afterBlanks stop.rest) = none := by
  have check : isOnlyAssignment (parse "$a: 1;" .scss none) = true := by
    decide +kernel
  unfold isOnlyAssignment at check
  split at check
  · rename_i value _ _ read
    have inside : ∀ {s root : Statement}, s ∈ root.children → s.Within root :=
      fun member => .inside member .here
    exact ⟨_, _, value, read, inside List.mem_cons_self, rfl,
      values_terminated read (inside List.mem_cons_self) rfl⟩
  · cases check

/-- A comment in front of a semicolon is no whitespace. -/
theorem comment_not_whitespace :
    (parse "$a: 1;" .scss none).isOk = true ∧ (parse "$a: 1/* c */;" .scss none).isOk = false := by
  decide +kernel

end Statement

end Stylesheet
