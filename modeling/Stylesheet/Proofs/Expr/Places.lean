import Stylesheet.Expr.Parser
import Stylesheet.Proofs.Except
import Stylesheet.Proofs.Source.Places
import Stylesheet.Proofs.Token.Lookahead
import Stylesheet.Proofs.Token.Sequence

/-! Where expressions stand. Whatever is read from a text has a span of the text, and its line is one
that the span touches; so have all the expressions in it. -/

namespace Stylesheet

/-- The expressions in a text. -/
def Template.exprs (parts : Template) : List Expr :=
  parts.filterMap fun
    | .expr e => some e
    | .text _ => none

/-- The expressions among the arguments. -/
def Arguments.exprs (args : Arguments) : List Expr :=
  args.positional ++ args.keywords.map (·.2)

/-- The expressions that a form is made of. -/
def Form.parts : Form → List Expr
  | .literal _ | .variable _ => []
  | .text _ parts => Template.exprs parts
  | .interpolation before middle behind _ _ => before.toList ++ middle :: behind.toList
  | .list items _ => items
  | .binary _ left right => [left, right]
  | .unary _ operand => [operand]
  | .call _ args => args.exprs
  | .paren inner => [inner]

namespace Expr

/-- An expression is another one, or a part of it at some depth. -/
inductive Within (e : Expr) : Expr → Prop where
  | here : Within e e
  | inside {d outer : Expr} (member : d ∈ outer.form.parts) (inner : Within e d) : Within e outer

/-- An expression and all within it have spans of a text that touch their lines. -/
def IsPlaced (text : List Char) (e : Expr) : Prop :=
  ∀ d : Expr, d.Within e → Text.Touches text d.line d.span

theorem isPlaced_iff {text : List Char} {e : Expr} :
    e.IsPlaced text ↔ Text.Touches text e.line e.span ∧ ∀ d ∈ e.form.parts, d.IsPlaced text := by
  constructor
  · exact fun all => ⟨all e .here, fun d member inner within => all inner (.inside member within)⟩
  · rintro ⟨here, parts⟩ d (_ | ⟨member, within⟩)
    · exact here
    · exact parts _ member d within

end Expr

namespace Script

variable {text : List Char}

theorem exprs_pushPart (parts : Template) (content : String) :
    Template.exprs (pushPart parts content) = Template.exprs parts := by
  unfold pushPart
  split
  · rfl
  · simp [Template.exprs]

theorem exprs_append_expr (parts : Template) (e : Expr) :
    Template.exprs (parts ++ [.expr e]) = Template.exprs parts ++ [e] := by
  simp [Template.exprs]

theorem none_placed : ∀ e ∈ Arguments.none.exprs, e.IsPlaced text :=
  fun _ member => absurd member List.not_mem_nil

theorem exprs_keyword (positional : List Expr) (keywords : List (String × Expr)) (name : String)
    (e : Expr) : (Arguments.mk positional (keywords ++ [(name, e)])).exprs =
      (Arguments.mk positional keywords).exprs ++ [e] := by
  simp [Arguments.exprs, Arguments.positional, Arguments.keywords]

theorem mem_exprs_positional {positional : List Expr} {keywords : List (String × Expr)} {d e : Expr}
    (member : d ∈ (Arguments.mk (positional ++ [e]) keywords).exprs) :
    d = e ∨ d ∈ (Arguments.mk positional keywords).exprs := by
  simp only [Arguments.exprs, Arguments.positional, Arguments.keywords, List.mem_append,
    List.mem_singleton] at member ⊢
  tauto

/-- An expression in a text that begins up to an offset and ends behind another one. -/
structure Spans (text : List Char) (start : Nat) (e : Expr) (stop : Nat) : Prop where
  placed : e.IsPlaced text
  behind : start < e.span.stop
  begun : e.span.start ≤ stop

namespace Spans

variable {start middle stop : Nat} {e left right : Expr}

theorem touches (spans : Spans text start e stop) : Text.Touches text e.line e.span :=
  (Expr.isPlaced_iff.mp spans.placed).1

theorem ends (spans : Spans text start e stop) :
    Text.IsPlace text e.span.start ∧ Text.IsPlace text e.span.stop :=
  ⟨spans.touches.start, spans.touches.stop⟩

theorem mono {lower upper : Nat} (spans : Spans text start e stop) (less : lower ≤ start)
    (more : stop ≤ upper) : Spans text lower e upper :=
  ⟨spans.placed, less.trans_lt spans.behind, spans.begun.trans more⟩

theorem binaryExpr (op : BinaryOp) (first : Spans text start left middle)
    (second : Spans text middle right stop) (ordered : middle ≤ stop) :
    Spans text start (binaryExpr op left right) stop where
  placed := by
    refine Expr.isPlaced_iff.mpr ⟨first.touches.union second.ends, ?_⟩
    simp only [Script.binaryExpr, Expr.form, Form.parts]
    simpa using ⟨first.placed, second.placed⟩
  behind := first.behind.trans_le (Nat.le_max_left _ _)
  begun := (Nat.min_le_left _ _).trans (first.begun.trans ordered)

theorem listOrSingle {items : List Expr} (filled : items ≠ [])
    (all : ∀ e ∈ items, Spans text start e stop) (separator : Separator) :
    Spans text start (listOrSingle items separator) stop := by
  unfold Script.listOrSingle
  split
  · exact all _ List.mem_cons_self
  · exact absurd rfl filled
  · rename_i first rest _
    have one := all first List.mem_cons_self
    have other : Spans text start (rest.getLastD first) stop := by
      rcases List.eq_nil_or_concat rest with rfl | ⟨front, last, rfl⟩
      · exact one
      · rw [List.concat_eq_append, List.getLastD_concat]
        exact all last (by simp)
    refine ⟨Expr.isPlaced_iff.mpr ⟨one.touches.union other.ends, fun e member => ?_⟩, ?_, ?_⟩
    · exact (all e member).placed
    · exact one.behind.trans_le (Nat.le_max_left _ _)
    · exact (Nat.min_le_left _ _).trans one.begun

end Spans

/-- A token in a text, at an offset or behind it. -/
structure TokenAt (text : List Char) (start : Nat) (token : Token) : Prop where
  line : Text.OnLine text token.line token.span.start
  stop : Text.IsPlace text token.span.stop
  ordered : token.span.start ≤ token.span.stop
  behind : start ≤ token.span.start
  filled : token.kind ≠ .endOfInput → token.span.start < token.span.stop

namespace TokenAt

variable {start : Nat} {token : Token}

theorem ends (isAt : TokenAt text start token) :
    Text.IsPlace text token.span.start ∧ Text.IsPlace text token.span.stop :=
  ⟨isAt.line.isPlace, isAt.stop⟩

theorem forward (isAt : TokenAt text start token) : start ≤ token.span.stop :=
  isAt.behind.trans isAt.ordered

theorem touches (isAt : TokenAt text start token) (filled : token.kind ≠ .endOfInput) :
    Text.Touches text token.line token.span :=
  ⟨isAt.ends.1, isAt.stop, token.span.start, isAt.line, Nat.le_refl _, isAt.filled filled⟩

/-- An expression that is nothing but the token. -/
theorem spans {form : Form} (isAt : TokenAt text start token) (filled : token.kind ≠ .endOfInput)
    (single : form.parts = []) : Spans text start (.mk form token.line token.span) token.span.stop where
  placed := Expr.isPlaced_iff.mpr ⟨isAt.touches filled, by simp [Expr.form, single]⟩
  behind := isAt.behind.trans_lt (isAt.filled filled)
  begun := isAt.ordered

/-- An expression with the line of a token, from something that begins in front of the token up to
something that ends behind it. -/
theorem spans_around {form : Form} {first last : Span} {lower upper : Nat}
    (isAt : TokenAt text start token)
    (firstEnds : Text.IsPlace text first.start ∧ Text.IsPlace text first.stop)
    (lastEnds : Text.IsPlace text last.start ∧ Text.IsPlace text last.stop)
    (begun : first.start ≤ token.span.start) (longer : token.span.stop < last.stop)
    (less : lower ≤ token.span.stop) (more : token.span.start ≤ upper)
    (parts : ∀ e ∈ form.parts, e.IsPlaced text) :
    Spans text lower (.mk form token.line (first.union last)) upper where
  placed := Expr.isPlaced_iff.mpr ⟨isAt.line.touches_union firstEnds lastEnds (.inl begun)
    (.inr (isAt.ordered.trans_lt longer)), parts⟩
  behind := (less.trans_lt longer).trans_le (Nat.le_max_right _ _)
  begun := ((Nat.min_le_left _ _).trans begun).trans more

/-- An expression from a token up to something behind it. -/
theorem spans_union {form : Form} {last : Span} {stop : Nat} (isAt : TokenAt text start token)
    (ends : Text.IsPlace text last.start ∧ Text.IsPlace text last.stop)
    (longer : token.span.stop < last.stop) (ordered : token.span.start ≤ stop)
    (parts : ∀ e ∈ form.parts, e.IsPlaced text) :
    Spans text start (.mk form token.line (token.span.union last)) stop :=
  isAt.spans_around isAt.ends ends (Nat.le_refl _) longer isAt.forward ordered parts

end TokenAt

/-- A stream that has taken a text up to a place, and may have looked at the token behind it. -/
structure Behind (text : List Char) (place : Lexer.State) (s : TokenStream) : Prop where
  inside : place.cursor.In text
  standsAt : s.StandsAt (.ofChars text) place

/-- Wherever a parser succeeds from a place, what it gives fits the offset up to which it takes the
text. -/
def Gives (text : List Char) (place : Lexer.State) (parser : Parser α) (q : α → Nat → Prop) : Prop :=
  ∀ s a after, Behind text place s → parser s = .ok (a, after) →
    ∃ stop, Behind text stop after ∧ place.cursor.pos ≤ stop.cursor.pos ∧ q a stop.cursor.pos

/-- The token behind a place of the text. -/
def Follows (text : List Char) (place : Lexer.State) (token : Token) : Prop :=
  ∃ after, Lexer.next (.ofChars text) place = .ok (token, after)

section Rules

variable {ctx : Context} {place : Lexer.State} {q : α → Nat → Prop}

theorem Gives.pure {a : α} (holds : q a place.cursor.pos) : Gives text place (Pure.pure a) q := by
  intro s b after behind ran
  cases ran
  exact ⟨place, behind, Nat.le_refl _, holds⟩

theorem Gives.throw {fault : Diagnostic} : Gives text place (MonadExcept.throw fault) q := by
  intro s a after behind ran
  cases ran

theorem Gives.bind {parser : Parser β} {next : β → Parser α} {r : β → Nat → Prop}
    (first : Gives text place parser r)
    (behind : ∀ b middle, place.cursor.pos ≤ middle.cursor.pos → r b middle.cursor.pos →
      Gives text middle (next b) q) : Gives text place (parser >>= next) q := by
  intro s a after isBehind ran
  obtain ⟨⟨b, inner⟩, found, rest⟩ := exists_of_bind_ok
    (show (parser s >>= fun result => next result.1 result.2) = .ok (a, after) from ran)
  obtain ⟨middle, isBehind, ordered, holds⟩ := first s b inner isBehind found
  obtain ⟨stop, isBehind, further, result⟩ := behind b middle ordered holds inner a after isBehind rest
  exact ⟨stop, isBehind, ordered.trans further, result⟩

theorem Gives.throw_bind {fault : Diagnostic} {next : β → Parser α} :
    Gives text place (MonadExcept.throw fault >>= next) q :=
  Gives.bind (r := fun _ _ => False) .throw fun _ _ _ no => no.elim

theorem Gives.weaken {parser : Parser α} {r : α → Nat → Prop} (gives : Gives text place parser r)
    (implies : ∀ a stop, place.cursor.pos ≤ stop → r a stop → q a stop) :
    Gives text place parser q := by
  intro s a after behind ran
  obtain ⟨stop, behind, ordered, holds⟩ := gives s a after behind ran
  exact ⟨stop, behind, ordered, implies a _ ordered holds⟩

theorem Gives.map {parser : Parser β} {f : β → α} {r : β → Nat → Prop}
    (gives : Gives text place parser r)
    (implies : ∀ b stop, place.cursor.pos ≤ stop → r b stop → q (f b) stop) :
    Gives text place (f <$> parser) q :=
  gives.bind fun b _ ordered holds => .pure (implies b _ ordered holds)

/-- Two ways to go on in the same way. -/
theorem Gives.join {condition : Prop} [Decidable condition] {one other : Parser β}
    {next : β → Parser α} {r : β → Nat → Prop} (first : Gives text place one r)
    (second : Gives text place other r)
    (behind : ∀ b middle, place.cursor.pos ≤ middle.cursor.pos → r b middle.cursor.pos →
      Gives text middle (next b) q) :
    Gives text place (if condition then one >>= next else other >>= next) q := by
  split
  · exact first.bind behind
  · exact second.bind behind

theorem Gives.get {next : TokenStream → Parser α} (behind : ∀ s, Gives text place (next s) q) :
    Gives text place (MonadState.get >>= next) q :=
  fun s a after isBehind ran => behind s s a after isBehind ran

theorem Follows.unique {token other : Token} (follows : Follows text place token)
    (also : Follows text place other) : other = token := by
  obtain ⟨_, one⟩ := follows
  obtain ⟨_, two⟩ := also
  rw [one] at two
  cases two
  rfl

theorem next_tokenAt {token : Token} {after : Lexer.State} (inside : place.cursor.In text)
    (ran : Lexer.next (.ofChars text) place = .ok (token, after)) :
    TokenAt text place.cursor.pos token ∧ after.cursor.In text ∧
      token.span.stop = after.cursor.pos := by
  obtain ⟨behind, ends, filled⟩ := Lexer.next_span ran
  obtain ⟨blanks, _, found, _, _, span, line, same⟩ := Lexer.next_ok ran
  have begun : (place.cursor.advance blanks).In text := Onward.advance inside blanks
  have stopped : after.cursor.In text := by
    rw [same]
    exact Onward.advance begun found.count
  have start : token.span.start = (place.cursor.advance blanks).pos := by
    rw [span]
    rfl
  have ordered : token.span.start ≤ token.span.stop := by
    rw [span]
    exact Nat.le_max_right _ _
  refine ⟨⟨?_, ?_, ordered, behind, filled⟩, stopped, ends⟩
  · rw [line, start]
    exact LineIndex.onLine_ofChars begun.isPlace
  · rw [ends]
    exact stopped.isPlace

variable (lines : ctx.lines = .ofChars text)
include lines

theorem Gives.peek {next : Token → Parser α}
    (behind : ∀ token, Follows text place token → TokenAt text place.cursor.pos token →
      Gives text place (next token) q) : Gives text place (peek ctx >>= next) q := by
  intro s a after isBehind ran
  obtain ⟨⟨token, looked⟩, found, rest⟩ := exists_of_bind_ok
    (show (Script.peek ctx s >>= fun result => next result.1 result.2) = .ok (a, after) from ran)
  unfold Script.peek at found
  rw [lines] at found
  obtain ⟨_, lexed, stands⟩ := isBehind.standsAt.of_peek found
  exact behind token ⟨_, lexed⟩ (next_tokenAt isBehind.inside lexed).1 looked a after
    ⟨isBehind.inside, stands⟩ rest

theorem Gives.next {next : Token → Parser α}
    (behind : ∀ token middle, Follows text place token → TokenAt text place.cursor.pos token →
      token.span.stop = middle.cursor.pos → Gives text middle (next token) q) :
    Gives text place (Script.next ctx >>= next) q := by
  intro s a after isBehind ran
  obtain ⟨⟨token, middle⟩, found, rest⟩ := exists_of_bind_ok
    (show (Script.next ctx s >>= fun result => next result.1 result.2) = .ok (a, after) from ran)
  unfold Script.next at found
  rw [lines] at found
  obtain ⟨stop, lexed, rfl⟩ := isBehind.standsAt.of_next found
  obtain ⟨isAt, inside, ends⟩ := next_tokenAt isBehind.inside lexed
  obtain ⟨offset, isBehind, ordered, holds⟩ := behind token stop ⟨_, lexed⟩ isAt ends ⟨stop, none⟩ a
    after ⟨inside, TokenStream.standsAt_start⟩ rest
  refine ⟨offset, isBehind, ?_, holds⟩
  exact (isAt.behind.trans isAt.ordered).trans (ends.le.trans ordered)

/-- Taking the token that was looked at. -/
theorem Gives.taken {token : Token} {next : Token → Parser α} (follows : Follows text place token)
    (behind : ∀ middle, token.span.stop = middle.cursor.pos → Gives text middle (next token) q) :
    Gives text place (Script.next ctx >>= next) q := by
  refine .next lines fun other middle also _ ends => ?_
  obtain rfl := follows.unique also
  exact behind middle ends

theorem Gives.failExpected {what : String} : Gives text place (failExpected ctx what) q :=
  .peek lines fun _ _ _ => .throw

theorem Gives.failExpected_bind {what : String} {next : β → Parser α} :
    Gives text place (Script.failExpected ctx what >>= next) q :=
  Gives.bind (r := fun _ _ => False) (.failExpected lines) fun _ _ _ no => no.elim

theorem Gives.require {e? : Option Expr} {next : Expr → Parser α}
    (behind : ∀ e, e? = some e → Gives text place (next e) q) :
    Gives text place (require ctx e? >>= next) q := by
  cases e? with
  | none => exact (Gives.failExpected lines (q := fun _ _ => False)).bind fun _ _ _ no => no.elim
  | some e => exact behind e rfl

theorem Gives.required {e? : Option Expr} {q : Expr → Nat → Prop}
    (holds : ∀ e, e? = some e → q e place.cursor.pos) : Gives text place (Script.require ctx e?) q := by
  cases e? with
  | none => exact .failExpected lines
  | some e => exact .pure (holds e rfl)

theorem Gives.atInterpolation {next : Bool → Parser α}
    (behind : ∀ opens, Gives text place (next opens) q) :
    Gives text place (atInterpolation ctx >>= next) q := by
  unfold Script.atInterpolation
  simp only [bind_assoc, pure_bind]
  exact .peek lines fun _ _ _ => behind _

theorem Gives.peekMark {mark : Mark} {next : Bool → Parser α}
    (here : ∀ token, Follows text place token → TokenAt text place.cursor.pos token →
      token.kind = .mark mark → Gives text place (next true) q)
    (behind : Gives text place (next false) q) :
    Gives text place (peekMark ctx mark >>= next) q := by
  unfold Script.peekMark
  simp only [bind_assoc, pure_bind]
  refine .peek lines fun token follows isAt => ?_
  cases isMark : token.isMark mark with
  | false => exact behind
  | true =>
    refine here token follows isAt ?_
    unfold Token.isMark at isMark
    split at isMark
    · rename_i kind
      rw [kind, beq_iff_eq.mp isMark]
    · cases isMark

theorem Gives.ate {mark : Mark} : Gives text place (Script.eatMark ctx mark) fun _ _ => True := by
  refine .peekMark lines (fun token follows isAt _ => ?_) (.pure trivial)
  exact .taken lines follows fun _ _ => .pure trivial

theorem Gives.eatMark {mark : Mark} {next : Bool → Parser α}
    (behind : ∀ ate middle, place.cursor.pos ≤ middle.cursor.pos → Gives text middle (next ate) q) :
    Gives text place (eatMark ctx mark >>= next) q :=
  (Gives.ate lines).bind fun ate middle ordered _ => behind ate middle ordered

theorem Gives.expectMark {mark : Mark} {what : String} {next : Token → Parser α}
    (behind : ∀ token middle, TokenAt text place.cursor.pos token → token.kind ≠ .endOfInput →
      token.span.stop = middle.cursor.pos → Gives text middle (next token) q) :
    Gives text place (expectMark ctx mark what >>= next) q := by
  refine Gives.bind (r := fun token stop => TokenAt text place.cursor.pos token ∧
      token.kind ≠ .endOfInput ∧ token.span.stop = stop) ?_
    fun token middle _ found => behind token middle found.1 found.2.1 found.2.2
  refine .next lines fun token middle _ isAt ends => ?_
  split
  · rename_i isMark
    refine .pure ⟨isAt, fun isEnd => ?_, ends⟩
    simp [Token.isMark, isEnd] at isMark
  · exact .throw

end Rules

/-- What is read from an offset up to another, if anything is. -/
abbrev Found (text : List Char) (start : Nat) (e? : Option Expr) (stop : Nat) : Prop :=
  ∀ e ∈ e?, Spans text start e stop

theorem found_none {start stop : Nat} : Found text start none stop :=
  nofun

theorem Spans.found {start stop : Nat} {e : Expr} (spans : Spans text start e stop) :
    Found text start (some e) stop := by
  rintro _ ⟨⟩
  exact spans

theorem Gives.some {place : Lexer.State} {start : Nat} {parser : Parser Expr}
    (gives : Gives text place parser (Spans text start)) :
    Gives text place (Option.some <$> parser) (Found text start) :=
  gives.map fun _ _ _ => Spans.found

theorem ne_end_of_mark {token : Token} {op : α} {f : Mark → Option α}
    (isMark : token.mark?.bind f = some op) : token.kind ≠ .endOfInput := by
  intro isEnd
  simp [Token.mark?, isEnd] at isMark

theorem ne_end_of_operandLevel {token : Token} {l operand : Level}
    (found : operandLevel? l token = some operand) : token.kind ≠ .endOfInput := by
  intro isEnd
  have noMark : token.mark? = none := by simp [Token.mark?, isEnd]
  unfold operandLevel? at found
  rw [noMark] at found
  cases l <;> cases found

/-- All levels give expressions with places in the text. -/
structure LevelsPlaced (text : List Char) (fuel : Nat) : Prop where
  level : ∀ {ctx place}, ctx.lines = .ofChars text → ∀ l,
    Gives text place (level ctx l fuel) (Found text place.cursor.pos)
  comma : ∀ {ctx place}, ctx.lines = .ofChars text →
    Gives text place (comma ctx fuel) (Found text place.cursor.pos)
  commaItems : ∀ {ctx place start items}, ctx.lines = .ofChars text → start ≤ place.cursor.pos →
    items ≠ [] → (∀ e ∈ items, Spans text start e place.cursor.pos) →
    Gives text place (commaItems ctx items fuel) (Spans text start)
  equals : ∀ {ctx place}, ctx.lines = .ofChars text →
    Gives text place (equals ctx fuel) (Found text place.cursor.pos)
  equalsOperands : ∀ {ctx place start left}, ctx.lines = .ofChars text →
    start ≤ place.cursor.pos → Spans text start left place.cursor.pos →
    Gives text place (equalsOperands ctx left fuel) (Spans text start)
  interpolation : ∀ {ctx place}, ctx.lines = .ofChars text →
    Gives text place (interpolation ctx fuel) (Found text place.cursor.pos)
  interpolationStep : ∀ {ctx place start before}, ctx.lines = .ofChars text →
    start ≤ place.cursor.pos → Found text start before place.cursor.pos →
    Gives text place (interpolationStep ctx before fuel) (Spans text start)
  interpolationChain : ∀ {ctx place start e}, ctx.lines = .ofChars text →
    start ≤ place.cursor.pos → Spans text start e place.cursor.pos →
    Gives text place (interpolationChain ctx e fuel) (Spans text start)
  interpolationBody : ∀ {ctx place}, ctx.lines = .ofChars text →
    Gives text place (interpolationBody ctx fuel) (Spans text place.cursor.pos)
  markAfterInterpolation : ∀ {ctx place}, ctx.lines = .ofChars text → ∀ l,
    Gives text place (markAfterInterpolation ctx l fuel) (Found text place.cursor.pos)
  markBeforeInterpolation : ∀ {ctx place start token previous}, ctx.lines = .ofChars text →
    start ≤ place.cursor.pos → Spans text start (markText token) place.cursor.pos →
    Found text start previous place.cursor.pos →
    Gives text place (markBeforeInterpolation ctx token previous fuel) (Spans text start)
  space : ∀ {ctx place}, ctx.lines = .ofChars text →
    Gives text place (space ctx fuel) (Found text place.cursor.pos)
  spaceItems : ∀ {ctx place start items}, ctx.lines = .ofChars text → start ≤ place.cursor.pos →
    items ≠ [] → (∀ e ∈ items, Spans text start e place.cursor.pos) →
    Gives text place (spaceItems ctx items fuel) (Spans text start)
  binary : ∀ {ctx place}, ctx.lines = .ofChars text → ∀ least,
    Gives text place (binary ctx least fuel) (Found text place.cursor.pos)
  binaryOperands : ∀ {ctx place start left}, ctx.lines = .ofChars text →
    start ≤ place.cursor.pos → Spans text start left place.cursor.pos → ∀ least,
    Gives text place (binaryOperands ctx least left fuel) (Spans text start)
  unary : ∀ {ctx place}, ctx.lines = .ofChars text →
    Gives text place (unary ctx fuel) (Found text place.cursor.pos)
  primary : ∀ {ctx place}, ctx.lines = .ofChars text →
    Gives text place (primary ctx fuel) (Found text place.cursor.pos)
  paren : ∀ {ctx place}, ctx.lines = .ofChars text →
    Gives text place (paren ctx fuel) (Spans text place.cursor.pos)
  textParts : ∀ {ctx place parts}, ctx.lines = .ofChars text →
    (∀ e ∈ Template.exprs parts, e.IsPlaced text) →
    Gives text place (textParts ctx parts fuel) fun found _ =>
      (∀ e ∈ Template.exprs found.1, e.IsPlaced text) ∧
      (Text.IsPlace text found.2.start ∧ Text.IsPlace text found.2.stop) ∧
      place.cursor.pos < found.2.stop
  arguments : ∀ {ctx place}, ctx.lines = .ofChars text → ∀ l,
    Gives text place (arguments ctx l fuel) fun args _ => ∀ e ∈ args.exprs, e.IsPlaced text
  argumentItems : ∀ {ctx place positional keywords}, ctx.lines = .ofChars text → ∀ l,
    (∀ e ∈ (Arguments.mk positional keywords).exprs, e.IsPlaced text) →
    Gives text place (argumentItems ctx l positional keywords fuel) fun args _ =>
      ∀ e ∈ args.exprs, e.IsPlaced text

namespace LevelsPlaced

variable {ctx : Context} {place : Lexer.State} {fuel start : Nat}
  (placed : LevelsPlaced text fuel) (lines : ctx.lines = .ofChars text)
include placed lines

theorem comma_succ :
    Gives text place (Script.comma ctx (fuel + 1)) (Found text place.cursor.pos) := by
  refine (placed.markAfterInterpolation lines _).bind fun found middle ordered spans => ?_
  split
  · exact .pure spans
  · refine (placed.equals lines).bind fun first behind further spans => ?_
    split
    · exact .pure nofun
    · rename_i first
      have start := (spans first rfl).mono ordered (Nat.le_refl _)
      refine (placed.commaItems lines (ordered.trans further) (by simp) ?_).some
      simpa using start

theorem commaItems_succ {items : List Expr} (ordered : start ≤ place.cursor.pos)
    (filled : items ≠ []) (all : ∀ e ∈ items, Spans text start e place.cursor.pos) :
    Gives text place (Script.commaItems ctx items (fuel + 1)) (Spans text start) := by
  refine .peekMark lines (fun token follows isAt kind => ?_) (.pure (.listOrSingle filled all _))
  rw [if_pos rfl]
  refine .taken lines follows fun middle ends => .atInterpolation lines fun opens => ?_
  have isMark : token.kind ≠ .endOfInput := by simp [kind]
  have further : place.cursor.pos ≤ middle.cursor.pos :=
    ends ▸ isAt.forward
  have still : ∀ e ∈ items, Spans text start e middle.cursor.pos :=
    fun e member => (all e member).mono (Nat.le_refl _) further
  split
  · refine placed.markBeforeInterpolation lines (ordered.trans further) ?_ ?_
    · exact (isAt.spans isMark rfl).mono ordered ends.le
    · rintro _ ⟨⟩
      exact .listOrSingle filled still _
  · refine (placed.equals lines).bind fun e last longer spans => .require lines fun item isItem => ?_
    refine placed.commaItems lines (ordered.trans (further.trans longer)) (by simp) fun e member => ?_
    rcases List.mem_append.mp member with member | member
    · exact (still e member).mono (Nat.le_refl _) longer
    · rw [List.mem_singleton.mp member]
      exact (spans item isItem).mono (ordered.trans further) (Nat.le_refl _)

theorem equals_succ :
    Gives text place (Script.equals ctx (fuel + 1)) (Found text place.cursor.pos) := by
  refine (placed.markAfterInterpolation lines _).bind fun found middle ordered spans => ?_
  split
  · exact .pure spans
  · refine (placed.interpolation lines).bind fun first behind further spans => ?_
    split
    · exact .pure nofun
    · rename_i first
      have start := (spans first rfl).mono ordered (Nat.le_refl _)
      exact (placed.equalsOperands lines (ordered.trans further) start).some

theorem equalsOperands_succ {left : Expr} (ordered : start ≤ place.cursor.pos)
    (spans : Spans text start left place.cursor.pos) :
    Gives text place (Script.equalsOperands ctx left (fuel + 1)) (Spans text start) := by
  refine .peekMark lines (fun token follows isAt kind => ?_) (.pure spans)
  rw [if_pos rfl]
  refine .taken lines follows fun middle ends => .atInterpolation lines fun opens => ?_
  have isMark : token.kind ≠ .endOfInput := by simp [kind]
  have further : place.cursor.pos ≤ middle.cursor.pos :=
    ends ▸ isAt.forward
  have still := spans.mono (Nat.le_refl _) further
  split
  · refine placed.markBeforeInterpolation lines (ordered.trans further) ?_ still.found
    exact (isAt.spans isMark rfl).mono ordered ends.le
  · refine (placed.interpolation lines).bind fun e last longer found => .require lines
      fun right isRight => ?_
    refine placed.equalsOperands lines (ordered.trans (further.trans longer)) ?_
    exact still.binaryExpr _ (found right isRight) longer

theorem interpolation_succ :
    Gives text place (Script.interpolation ctx (fuel + 1)) (Found text place.cursor.pos) := by
  refine (placed.space lines).bind fun first middle ordered spans => .atInterpolation lines
    fun opens => ?_
  split
  · refine (placed.interpolationStep lines ordered spans).bind fun e last further spans => ?_
    exact (placed.interpolationChain lines (ordered.trans further) spans).some
  · exact .pure spans

theorem interpolationStep_succ {before : Option Expr} (ordered : start ≤ place.cursor.pos)
    (spans : Found text start before place.cursor.pos) :
    Gives text place (Script.interpolationStep ctx before (fuel + 1)) (Spans text start) := by
  refine .next lines fun opened inside _ isAt ends => ?_
  refine (placed.interpolationBody lines).bind fun middle behind further spansMiddle => .get
    fun _ => (placed.space lines).bind fun last stop longer spansLast => .pure ?_
  -- the opening stands behind the start of the whole and in front of its end
  refine isAt.spans_around ?_ ?_ ?_ ?_ (ordered.trans isAt.forward) ?_ fun e member => ?_
  · cases before with
    | none => exact isAt.ends
    | some e => exact (spans e rfl).ends
  · cases last with
    | none => exact spansMiddle.ends
    | some e => exact (spansLast e rfl).ends
  · cases before with
    | none => exact Nat.le_refl _
    | some e => exact (spans e rfl).begun.trans isAt.behind
  · rw [ends]
    cases last with
    | none => exact spansMiddle.behind
    | some e => exact further.trans_lt (spansLast e rfl).behind
  · exact ((isAt.ordered.trans ends.le).trans further).trans longer
  · simp only [Form.parts, List.mem_append, Option.mem_toList, List.mem_cons] at member
    rcases member with isBefore | rfl | isLast
    · exact (spans e isBefore).placed
    · exact spansMiddle.placed
    · exact (spansLast e isLast).placed

theorem interpolationChain_succ {e : Expr} (ordered : start ≤ place.cursor.pos)
    (spans : Spans text start e place.cursor.pos) :
    Gives text place (Script.interpolationChain ctx e (fuel + 1)) (Spans text start) := by
  refine .atInterpolation lines fun opens => ?_
  split
  · refine (placed.interpolationStep lines ordered spans.found).bind
      fun e middle further spans => ?_
    exact placed.interpolationChain lines (ordered.trans further) spans
  · exact .pure spans

theorem interpolationBody_succ :
    Gives text place (Script.interpolationBody ctx (fuel + 1)) (Spans text place.cursor.pos) := by
  refine (placed.comma lines).bind fun e middle ordered spans => .require lines fun e isExpr =>
    .next lines fun close behind _ isAt ends => ?_
  split
  · refine .pure ((spans e isExpr).mono (Nat.le_refl _) ?_)
    exact isAt.forward.trans ends.le
  · exact .throw

theorem markAfterInterpolation_succ (l : Level) :
    Gives text place (Script.markAfterInterpolation ctx l (fuel + 1))
      (Found text place.cursor.pos) := by
  refine .get fun s => ?_
  split
  · exact .pure nofun
  · refine .peek lines fun token follows isAt => ?_
    split
    · exact .pure nofun
    · rename_i operand isOperand
      have isMark := ne_end_of_operandLevel isOperand
      have mark : Spans text place.cursor.pos (markText token) token.span.stop :=
        isAt.spans isMark rfl
      refine .taken lines follows fun middle ends => .atInterpolation lines fun opens => ?_
      have further : place.cursor.pos ≤ middle.cursor.pos :=
        ends ▸ isAt.forward
      split
      · exact (placed.markBeforeInterpolation lines further (mark.mono (Nat.le_refl _) ends.le)
          found_none).some
      · refine .get fun _ => (placed.level lines operand).bind fun e last longer found =>
          .require lines fun after isAfter => .pure ?_
        have spans := found after isAfter
        rintro _ ⟨⟩
        refine isAt.spans_union spans.ends (ends.trans_lt spans.behind)
          ((isAt.ordered.trans ends.le).trans longer) ?_
        simpa [Form.parts] using ⟨mark.placed, spans.placed⟩

theorem markBeforeInterpolation_succ {token : Token} {previous : Option Expr}
    (ordered : start ≤ place.cursor.pos)
    (mark : Spans text start (markText token) place.cursor.pos)
    (spans : Found text start previous place.cursor.pos) :
    Gives text place (Script.markBeforeInterpolation ctx token previous (fuel + 1))
      (Spans text start) := by
  refine placed.interpolationChain lines ordered ?_
  cases previous with
  | none =>
    refine ⟨Expr.isPlaced_iff.mpr ⟨mark.touches, ?_⟩, mark.behind, mark.begun⟩
    simpa [Expr.form, Form.parts] using mark.placed
  | some e =>
    have one := spans e rfl
    obtain ⟨offset, onLine, lower, upper⟩ := mark.touches.within
    refine ⟨Expr.isPlaced_iff.mpr ⟨?_, ?_⟩, ?_, ?_⟩
    · exact onLine.touches_union one.ends mark.ends (.inr lower) (.inr upper)
    · simpa [Expr.form, Form.parts] using ⟨one.placed, mark.placed⟩
    · exact one.behind.trans_le (Nat.le_max_left _ _)
    · exact (Nat.min_le_left _ _).trans one.begun

theorem space_succ :
    Gives text place (Script.space ctx (fuel + 1)) (Found text place.cursor.pos) := by
  refine (placed.binary lines 1).bind fun first middle ordered spans => ?_
  split
  · exact .pure nofun
  · rename_i first
    refine (placed.spaceItems lines ordered (by simp) ?_).some
    simpa using spans first rfl

theorem spaceItems_succ {items : List Expr} (ordered : start ≤ place.cursor.pos)
    (filled : items ≠ []) (all : ∀ e ∈ items, Spans text start e place.cursor.pos) :
    Gives text place (Script.spaceItems ctx items (fuel + 1)) (Spans text start) := by
  refine (placed.binary lines 1).bind fun item middle further spans => ?_
  have still : ∀ e ∈ items, Spans text start e middle.cursor.pos :=
    fun e member => (all e member).mono (Nat.le_refl _) further
  split
  · rename_i item
    refine placed.spaceItems lines (ordered.trans further) (by simp) fun e member => ?_
    rcases List.mem_append.mp member with member | member
    · exact still e member
    · rw [List.mem_singleton.mp member]
      exact (spans item rfl).mono ordered (Nat.le_refl _)
  · exact .pure (.listOrSingle filled still _)

theorem binary_succ (least : Nat) :
    Gives text place (Script.binary ctx least (fuel + 1)) (Found text place.cursor.pos) := by
  refine (placed.markAfterInterpolation lines _).bind fun found middle ordered spans => ?_
  split
  · exact .pure spans
  · refine (placed.unary lines).bind fun left behind further spans => ?_
    split
    · exact .pure nofun
    · rename_i left
      have start := (spans left rfl).mono ordered (Nat.le_refl _)
      exact (placed.binaryOperands lines (ordered.trans further) start least).some

theorem binaryOperands_succ {left : Expr} (ordered : start ≤ place.cursor.pos)
    (spans : Spans text start left place.cursor.pos) (least : Nat) :
    Gives text place (Script.binaryOperands ctx least left (fuel + 1)) (Spans text start) := by
  refine .peek lines fun token follows isAt => ?_
  split
  · exact .pure spans
  · rename_i op isOp
    split
    · exact .pure spans
    · refine .taken lines follows fun middle ends => .atInterpolation lines fun opens => ?_
      have further : place.cursor.pos ≤ middle.cursor.pos :=
        ends ▸ isAt.forward
      have still := spans.mono (Nat.le_refl _) further
      split
      · refine placed.markBeforeInterpolation lines (ordered.trans further) ?_ still.found
        exact (isAt.spans (ne_end_of_mark isOp) rfl).mono ordered ends.le
      · refine (placed.binary lines _).bind fun e last longer found => .require lines
          fun right isRight => ?_
        refine placed.binaryOperands lines (ordered.trans (further.trans longer)) ?_ least
        exact still.binaryExpr _ (found right isRight) longer

theorem unary_succ :
    Gives text place (Script.unary ctx (fuel + 1)) (Found text place.cursor.pos) := by
  refine .peek lines fun token follows isAt => ?_
  split
  · exact placed.primary lines
  · rename_i op isOp
    refine .taken lines follows fun middle ends => .atInterpolation lines fun opens => ?_
    have further : place.cursor.pos ≤ middle.cursor.pos :=
      ends ▸ isAt.forward
    split
    · refine (placed.markBeforeInterpolation lines further ?_ found_none).some
      exact (isAt.spans (ne_end_of_mark isOp) rfl).mono (Nat.le_refl _) ends.le
    · refine (placed.unary lines).bind fun e last longer found => .require lines
        fun operand isOperand => .pure ?_
      have spans := found operand isOperand
      rintro _ ⟨⟩
      refine isAt.spans_union spans.ends (ends.trans_lt spans.behind)
        ((isAt.ordered.trans ends.le).trans longer) ?_
      simpa [Form.parts] using spans.placed

theorem primary_succ :
    Gives text place (Script.primary ctx (fuel + 1)) (Found text place.cursor.pos) := by
  refine .peek lines fun token follows isAt => ?_
  have literal : ∀ v : Value, token.kind ≠ .endOfInput → Gives text place (do
      let token ← Script.next ctx
      return some (Expr.literal v token.line token.span)) (Found text place.cursor.pos) := by
    intro v filled
    refine .taken lines follows fun middle ends => .pure ?_
    rintro _ ⟨⟩
    exact (isAt.spans filled rfl).mono (Nat.le_refl _) ends.le
  dsimp only
  split
  · rename_i name kind
    refine .taken lines follows fun middle ends => (placed.arguments lines _).bind
      fun args last further all => .expectMark lines fun close stop isClose filled closed => .pure ?_
    have longer := isClose.behind.trans_lt (isClose.filled filled)
    rintro _ ⟨⟩
    refine isAt.spans_union isClose.ends ?_ ?_ all
    · rw [ends]
      exact further.trans_lt longer
    · rw [← closed]
      exact (isAt.ordered.trans (ends.le.trans further)).trans longer.le
  · rename_i kind
    exact literal _ (by simp [kind])
  · rename_i content isQuoted kind
    refine .taken lines follows fun middle ends => (placed.textParts lines ?_).bind
      fun found stop further all => .pure ?_
    · rw [exprs_pushPart]
      exact nofun
    · rintro _ ⟨⟩
      exact isAt.spans_union all.2.1 (ends.trans_lt all.2.2)
        ((isAt.ordered.trans ends.le).trans further) all.1
  · exact (placed.paren lines).some
  · rename_i name kind
    refine .taken lines follows fun middle ends => .pure ?_
    exact ((isAt.spans (by simp [kind]) rfl).mono (Nat.le_refl _) ends.le).found
  · rename_i kind
    exact literal _ (by simp [kind])
  · rename_i kind
    exact literal _ (by simp [kind])
  · rename_i kind
    exact literal _ (by simp [kind])
  · rename_i kind
    split
    · exact .pure found_none
    · exact literal _ (by simp [kind])
  · rename_i kind
    exact literal _ (by simp [kind])
  · exact .pure found_none

theorem paren_succ :
    Gives text place (Script.paren ctx (fuel + 1)) (Spans text place.cursor.pos) := by
  refine .next lines fun opened inside _ isAt ends => ?_
  have sameLines : Context.lines { ctx with inParens := true } = .ofChars text := lines
  refine (placed.comma sameLines).bind fun inner behind further found =>
    .expectMark lines fun close last isClose filled closed => .pure ?_
  have longer := isClose.behind.trans_lt (isClose.filled filled)
  refine isAt.spans_union isClose.ends ?_ ?_ ?_
  · rw [ends]
    exact further.trans_lt longer
  · rw [← closed]
    exact (isAt.ordered.trans (ends.le.trans further)).trans longer.le
  · cases inner with
    | none => exact nofun
    | some e => simpa [Form.parts] using (found e rfl).placed

theorem textParts_succ {parts : Template} (all : ∀ e ∈ Template.exprs parts, e.IsPlaced text) :
    Gives text place (Script.textParts ctx parts (fuel + 1)) fun found _ =>
      (∀ e ∈ Template.exprs found.1, e.IsPlaced text) ∧
      (Text.IsPlace text found.2.start ∧ Text.IsPlace text found.2.stop) ∧
      place.cursor.pos < found.2.stop := by
  refine (placed.comma lines).bind fun e middle ordered found => .require lines fun e isExpr =>
    .next lines fun token behind _ isAt ends => ?_
  have more : ∀ content, ∀ d ∈ Template.exprs (pushPart (parts ++ [.expr e]) content),
      d.IsPlaced text := by
    intro content d member
    rw [exprs_pushPart, exprs_append_expr] at member
    rcases List.mem_append.mp member with member | member
    · exact all d member
    · rw [List.mem_singleton.mp member]
      exact (found e isExpr).placed
  split
  · refine (placed.textParts lines (more _)).weaken fun found stop _ all => ?_
    exact ⟨all.1, all.2.1, (ordered.trans (isAt.forward.trans ends.le)).trans_lt all.2.2⟩
  · rename_i kind
    refine .pure ⟨more _, isAt.ends, ?_⟩
    have filled := isAt.filled (by simp [kind])
    exact ordered.trans_lt (isAt.behind.trans_lt filled)
  · exact .throw

theorem arguments_succ (l : Level) :
    Gives text place (Script.arguments ctx l (fuel + 1)) fun args _ =>
      ∀ e ∈ args.exprs, e.IsPlaced text := by
  exact .peekMark lines (fun _ _ _ _ => .pure none_placed)
    (placed.argumentItems lines l none_placed)

theorem argumentItems_succ {positional : List Expr} {keywords : List (String × Expr)} (l : Level)
    (all : ∀ e ∈ (Arguments.mk positional keywords).exprs, e.IsPlaced text) :
    Gives text place (Script.argumentItems ctx l positional keywords (fuel + 1)) fun args _ =>
      ∀ e ∈ args.exprs, e.IsPlaced text := by
  have more : ∀ (given : List Expr × List (String × Expr)) {middle : Lexer.State},
      (∀ e ∈ (Arguments.mk given.1 given.2).exprs, e.IsPlaced text) → Gives text middle (do
        if ← eatMark ctx .comma then Script.argumentItems ctx l given.1 given.2 fuel
        else return Arguments.mk given.1 given.2) fun args _ => ∀ e ∈ args.exprs, e.IsPlaced text := by
    intro given middle all
    refine .eatMark lines fun ate behind _ => ?_
    split
    · exact placed.argumentItems lines l all
    · exact .pure all
  refine (placed.level lines l).bind fun e? middle ordered found => .require lines fun e isExpr => ?_
  have isPlaced := (found e isExpr).placed
  refine .peekMark lines (fun token follows _ _ => ?_) ?_
  · dsimp only
    rw [if_pos rfl]
    split
    · refine .taken lines follows fun behind _ => (placed.level lines l).bind
        fun value? last _ found => .require lines fun value isValue => ?_
      have isPlacedValue := (found value isValue).placed
      split
      · exact .throw_bind
      · refine more (_, _) fun d member => ?_
        rw [exprs_keyword] at member
        rcases List.mem_append.mp member with member | member
        · exact all d member
        · exact List.mem_singleton.mp member ▸ isPlacedValue
    · exact .failExpected_bind lines
  · dsimp only
    rw [if_neg Bool.false_ne_true]
    split
    · exact .throw_bind
    · refine more (_, _) fun d member => ?_
      rcases mem_exprs_positional member with rfl | member
      · exact isPlaced
      · exact all d member

end LevelsPlaced

theorem levels_placed (text : List Char) (fuel : Nat) : LevelsPlaced text fuel := by
  induction fuel with
  | zero => constructor <;> intros <;> exact .throw
  | succ fuel ih =>
    refine {
      level := fun lines l => ?_
      comma := ih.comma_succ
      commaItems := fun lines => ih.commaItems_succ lines
      equals := ih.equals_succ
      equalsOperands := fun lines => ih.equalsOperands_succ lines
      interpolation := ih.interpolation_succ
      interpolationStep := fun lines => ih.interpolationStep_succ lines
      interpolationChain := fun lines => ih.interpolationChain_succ lines
      interpolationBody := ih.interpolationBody_succ
      markAfterInterpolation := ih.markAfterInterpolation_succ
      markBeforeInterpolation := fun lines => ih.markBeforeInterpolation_succ lines
      space := ih.space_succ
      spaceItems := fun lines => ih.spaceItems_succ lines
      binary := ih.binary_succ
      binaryOperands := fun lines => ih.binaryOperands_succ lines
      unary := ih.unary_succ
      primary := ih.primary_succ
      paren := ih.paren_succ
      textParts := fun lines => ih.textParts_succ lines
      arguments := ih.arguments_succ
      argumentItems := fun lines => ih.argumentItems_succ lines }
    cases l with
    | comma => exact ih.comma lines
    | equals => exact ih.equals lines
    | space => exact ih.space lines
    | binary least => exact ih.binary lines least

section Readers

variable {c stop : Cursor}

/-- What a parser gives on the text at a place. -/
theorem Gives.of_runAt {parser : Parser α} {q : α → Nat → Prop} {a : α} (inside : c.In text)
    (gives : Gives text ⟨c, [], false⟩ parser q) (ran : runAt c parser = .ok (a, stop)) :
    q a stop.pos := by
  obtain ⟨⟨_, s⟩, found, same⟩ := exists_of_map_ok ran
  cases same
  obtain ⟨place, behind, -, holds⟩ := gives _ _ s ⟨inside, TokenStream.standsAt_start⟩ found
  rwa [behind.standsAt.position]

theorem Gives.unpeek {place : Lexer.State} {q : α → Nat → Prop} {next : Unit → Parser α}
    (behind : Gives text place (next ()) q) : Gives text place (Script.unpeek >>= next) q :=
  fun s a after isBehind ran =>
    behind s.unpeek a after ⟨isBehind.inside, isBehind.standsAt.unpeek⟩ ran

theorem parse_spans {stopWords : List String} {e : Expr} (inside : c.In text)
    (ran : parse (.ofChars text) c stopWords = .ok (e, stop)) : Spans text c.pos e stop.pos := by
  refine Gives.of_runAt inside (((levels_placed text _).comma rfl).bind
    fun e? middle ordered found => .require rfl fun e isExpr => .unpeek (.pure ?_)) ran
  exact found e isExpr

theorem parseInterpolation_spans {e : Expr} (inside : c.In text)
    (ran : parseInterpolation (.ofChars text) c = .ok (e, stop)) : Spans text c.pos e stop.pos := by
  refine Gives.of_runAt inside (fun s a after behind ran => ?_) ran
  have entered : Behind text ⟨c, [.plain], false⟩ s.enterInterpolation := by
    rw [TokenStream.enterInterpolation_eq, behind.standsAt.isPlace]
    exact ⟨inside, TokenStream.standsAt_start⟩
  have placed := levels_placed text (enough c)
  exact @placed.interpolationBody _ ⟨c, [.plain], false⟩ rfl _ a after entered ran

theorem parseArguments_placed {args : Arguments} (inside : c.In text)
    (ran : parseArguments (.ofChars text) c = .ok (args, stop)) :
    ∀ e ∈ args.exprs, e.IsPlaced text := by
  refine Gives.of_runAt (q := fun args _ => ∀ e ∈ args.exprs, e.IsPlaced text) inside
    (.eatMark rfl fun opens middle _ => ?_) ran
  split
  · exact ((levels_placed text _).arguments rfl _).bind fun args last _ all =>
      .expectMark rfl fun _ _ _ _ _ => .pure all
  · exact .unpeek (.pure none_placed)

/-- The defaults of parameters. -/
def defaults (params : List Param) : List Expr :=
  params.flatMap (·.defaultValue.toList)

theorem paramItems_placed {ctx : Context} {place : Lexer.State} (lines : ctx.lines = .ofChars text)
    {params : List Param} (fuel : Nat) (all : ∀ e ∈ defaults params, e.IsPlaced text) :
    Gives text place (paramItems ctx params fuel) fun found _ =>
      ∀ e ∈ defaults found, e.IsPlaced text := by
  induction fuel generalizing params place with
  | zero => exact .throw
  | succ fuel ih =>
    have more : ∀ (name : String) (value : Option Expr) {middle : Lexer.State},
        (∀ e ∈ value, e.IsPlaced text) → Gives text middle (do
          if ← eatMark ctx .comma then paramItems ctx (params ++ [⟨name, value⟩]) fuel
          else return params ++ [⟨name, value⟩]) fun found _ =>
            ∀ e ∈ defaults found, e.IsPlaced text := by
      intro name value middle isPlaced
      have longer : ∀ e ∈ defaults (params ++ [⟨name, value⟩]), e.IsPlaced text := by
        intro e member
        rw [defaults, List.flatMap_append, List.mem_append] at member
        rcases member with member | member
        · exact all e member
        · exact isPlaced e (by simpa using member)
      refine .eatMark lines fun ate behind _ => ?_
      split
      · exact ih longer
      · exact .pure longer
    have given : ∀ {place : Lexer.State}, Gives text place (do
        require ctx (← space ctx (enough ctx.origin))) fun e _ => e.IsPlaced text := by
      intro place
      exact ((levels_placed text _).space lines).bind fun e? middle _ found =>
        .required lines fun e isExpr => (found e isExpr).placed
    refine .next lines fun token middle _ _ _ => ?_
    split
    · rename_i name _
      refine .eatMark lines fun colon behind _ => ?_
      dsimp only
      refine .join (.pure trivial) (.ate lines) fun isOptional last _ _ => ?_
      split
      · refine (given.map (q := fun e _ => ∀ d ∈ e, d.IsPlaced text) fun e _ _ isPlaced => ?_).bind
          fun value stop _ isPlaced => more name value isPlaced
        rintro _ ⟨⟩
        exact isPlaced
      · split
        · exact .throw_bind
        · exact more name none nofun
    · exact .throw

theorem parseParams_placed {needParens : Bool} {params : List Param} (inside : c.In text)
    (ran : parseParams (.ofChars text) c needParens = .ok (params, stop)) :
    ∀ e ∈ defaults params, e.IsPlaced text := by
  refine Gives.of_runAt (q := fun params _ => ∀ e ∈ defaults params, e.IsPlaced text) inside
    (.eatMark rfl fun opens middle _ => ?_) ran
  split
  · have none : ∀ e ∈ defaults [], e.IsPlaced text := nofun
    refine .eatMark rfl fun closes last _ => ?_
    split
    · exact .pure none
    · exact (paramItems_placed rfl _ none).bind fun params last _ all =>
        .expectMark rfl fun _ _ _ _ _ => .pure all
  · split
    · exact .failExpected rfl
    · exact .unpeek (.pure nofun)

end Readers

end Script

end Stylesheet
