import Stylesheet.Expr.Parser
import Stylesheet.Proofs.Source.Cursor
import Stylesheet.Proofs.Statement.Unplaced
import Stylesheet.Proofs.Token.Lookahead

/-! Lists of literals are read as they are written. What a parser reads is told by the text in front
of it and the text that it leaves; the places do not matter. -/

namespace Stylesheet.Script

/-- A text that begins with a token, and the text behind the token. -/
def Begins (text : List Char) (kind : Token.Kind) (rest : List Char) : Prop :=
  ∀ lines (state : Lexer.State), state.cursor.rest = text → state.frames = [] →
    ∃ token after, Lexer.next lines state = .ok (token, after) ∧ token.kind = kind ∧
      after.cursor.rest = rest ∧ after.frames = [] ∧ after.afterInterpolation = false

/-- A stream of tokens in front of a text, outside of all interpolations. -/
structure At (lines : LineIndex) (text : List Char) (s : TokenStream) : Prop where
  rest : s.place.cursor.rest = text
  frames : s.place.frames = []
  plain : s.place.afterInterpolation = false
  standsAt : s.StandsAt lines s.place

theorem At.unpeek {lines : LineIndex} {text : List Char} {s : TokenStream}
    (before : At lines text s) : At lines text s.unpeek := by
  rw [s.unpeek_eq]
  exact ⟨before.rest, before.frames, before.plain, TokenStream.standsAt_start⟩

/-- In front of a text, a parser gives something with a property and leaves a rest. -/
def Gets (ctx : Context) (parser : Parser α) (text : List Char) (p : α → Prop)
    (rest : List Char) : Prop :=
  ∀ s, At ctx.lines text s → ∃ a after, parser s = .ok (a, after) ∧ p a ∧ At ctx.lines rest after

section Rules

variable {ctx : Context} {text middle rest : List Char} {kind : Token.Kind}

theorem Gets.pure {a : α} {p : α → Prop} (holds : p a) :
    Gets ctx (Pure.pure a) text p text := by
  intro s before
  exact ⟨a, s, rfl, holds, before⟩

theorem Gets.bind {parser : Parser α} {next : α → Parser β} {between : α → Prop} {p : β → Prop}
    (first : Gets ctx parser text between middle)
    (behind : ∀ a, between a → Gets ctx (next a) middle p rest) :
    Gets ctx (parser >>= next) text p rest := by
  intro s before
  obtain ⟨a, s', found, holds, between⟩ := first s before
  obtain ⟨b, after, last, result, done⟩ := behind a holds s' between
  refine ⟨b, after, ?_, result, done⟩
  simp only [Bind.bind, StateT.bind, Except.bind, found]
  exact last

theorem Gets.weaken {parser : Parser α} {p q : α → Prop} (gets : Gets ctx parser text p rest)
    (implies : ∀ a, p a → q a) : Gets ctx parser text q rest := by
  intro s before
  obtain ⟨a, after, found, holds, done⟩ := gets s before
  exact ⟨a, after, found, implies a holds, done⟩

theorem Gets.map {parser : Parser α} {f : α → β} {p : α → Prop} {q : β → Prop}
    (gets : Gets ctx parser text p rest) (implies : ∀ a, p a → q (f a)) :
    Gets ctx (f <$> parser) text q rest := by
  intro s before
  obtain ⟨a, after, found, holds, done⟩ := gets s before
  refine ⟨f a, after, ?_, implies a holds, done⟩
  simp only [Functor.map, StateT.map, found]
  rfl

theorem Gets.peek (begins : Begins text kind rest) :
    Gets ctx (peek ctx) text (fun token => token.kind = kind) text := by
  intro s before
  obtain ⟨token, after, found, isKind, _⟩ := begins ctx.lines s.place before.rest before.frames
  obtain ⟨middle, peeked, stands⟩ := before.standsAt.peek_ok found
  refine ⟨token, middle, peeked, isKind, ?_⟩
  have same := stands.isPlace
  exact ⟨same ▸ before.rest, same ▸ before.frames, same ▸ before.plain, same ▸ stands⟩

theorem Gets.next (begins : Begins text kind rest) :
    Gets ctx (next ctx) text (fun token => token.kind = kind) rest := by
  intro s before
  obtain ⟨token, after, found, isKind, left, frames, plain⟩ :=
    begins ctx.lines s.place before.rest before.frames
  refine ⟨token, ⟨after, none⟩, ?_, isKind, left, frames, plain, TokenStream.standsAt_start⟩
  change s.next ctx.lines = _
  rw [before.standsAt.next_eq, found]
  rfl

theorem Gets.peekMark {mark : Mark} (begins : Begins text kind rest) :
    Gets ctx (peekMark ctx mark) text (fun isMark => (isMark = true ↔ kind = .mark mark)) text := by
  refine (Gets.peek begins).bind fun token isKind => .pure ?_
  unfold Token.isMark
  rw [isKind]
  split
  · rename_i m
    simp
  · rename_i other
    simpa using fun same => other mark same

theorem Gets.atInterpolation (begins : Begins text kind rest)
    (plain : kind ≠ .beginInterpolation) :
    Gets ctx (atInterpolation ctx) text (· = false) text := by
  refine (Gets.peek begins).bind fun token isKind => .pure ?_
  unfold Token.beginsInterpolation
  rw [isKind]
  split
  · exact absurd rfl plain
  · rfl

theorem Gets.require {e : Option Expr} {found : Expr} (isFound : e.map Expr.unplaced = some found) :
    Gets ctx (require ctx e) text (fun e => e.unplaced = found) text := by
  cases e with
  | none => cases isFound
  | some e => exact .pure (Option.some.inj isFound)

/-- Behind anything but an interpolation, an operator is an operator. -/
theorem Gets.markAfterInterpolation {l : Level} {fuel : Nat} :
    Gets ctx (markAfterInterpolation ctx l (fuel + 1)) text (· = none) text := by
  have get : Gets ctx get text (fun s => s.afterInterpolation = false) text :=
    fun s before => ⟨s, s, rfl, before.standsAt.afterInterpolation.trans before.plain, before⟩
  refine get.bind fun s plain => ?_
  rw [plain]
  exact .pure rfl

end Rules

/-- A token that is a value by itself. -/
def literal? : Token.Kind → Option Value
  | .text content quoted => some (.text content quoted)
  | .number n => some (.number n)
  | .color c => some (.color c)
  | .bool b => some (.bool b)
  | .ident name => some (match Color.ofName? name with
    | some color => .color color
    | none => .unquoted name)
  | .flag "important" => some (.unquoted "!important")
  | _ => none

/-- A token at which the items of a space list end. -/
def endsItems : Token.Kind → Bool
  | .mark .comma | .mark .semicolon | .endOfInput => true
  | _ => false

/-- A token that is no operator and opens nothing. -/
def isQuiet (kind : Token.Kind) : Bool :=
  (literal? kind).isSome || endsItems kind

theorem unaryOp_of_quiet {token : Token} (quiet : isQuiet token.kind = true) :
    token.mark?.bind unaryOp? = none := by
  unfold Token.mark?
  split
  · rename_i m kind
    rw [kind] at quiet
    cases m <;> first | rfl | cases quiet
  · rfl

theorem binaryOp_of_quiet {token : Token} (quiet : isQuiet token.kind = true) :
    token.mark?.bind binaryOp? = none := by
  unfold Token.mark?
  split
  · rename_i m kind
    rw [kind] at quiet
    cases m <;> first | rfl | cases quiet
  · rfl

theorem quiet_of_literal {kind : Token.Kind} {v : Value} (literal : literal? kind = some v) :
    isQuiet kind = true := by
  simp [isQuiet, literal]

theorem quiet_of_end {kind : Token.Kind} (ends : endsItems kind = true) : isQuiet kind = true := by
  simp [isQuiet, ends]

theorem ne_beginInterpolation {kind : Token.Kind} (quiet : isQuiet kind = true) :
    kind ≠ .beginInterpolation := by
  rintro rfl
  cases quiet

/-- A text that begins with a token that is no operator. -/
def BeginsQuiet (text : List Char) : Prop :=
  ∃ kind rest, Begins text kind rest ∧ isQuiet kind = true

/-- Literals with nothing but blanks between them, up to a token that ends them. -/
inductive Items : List Char → List Value → List Char → Prop where
  | stop (begins : Begins text kind rest) (ends : endsItems kind = true) : Items text [] text
  | item (begins : Begins text kind middle) (literal : literal? kind = some v)
      (shorter : middle.length < text.length) (others : Items middle vs rest) :
      Items text (v :: vs) rest

/-- Further groups of literals with a comma in front of each, up to a token that ends them all. -/
inductive Groups : List Char → List (List Value) → List Char → Prop where
  | stop (begins : Begins text kind rest) (ends : endsItems kind = true)
      (notComma : kind ≠ .mark .comma) : Groups text [] text
  | group (begins : Begins text (.mark .comma) middle) (shorter : middle.length < text.length)
      (items : Items middle (v :: vs) behind) (others : Groups behind groups rest) :
      Groups text ((v :: vs) :: groups) rest

/-- A literal without a place. -/
def bare (v : Value) : Expr :=
  .literal v 0 default

/-- What stands for some expressions: a single one stands for itself. -/
def grouped (separator : Separator) : List Expr → Expr
  | [e] => e
  | items => .mk (.list items separator) 0 default

/-- What a space list of literals is read as. -/
def spaced (vs : List Value) : Expr :=
  grouped .space (vs.map bare)

/-- A text that is read as an expression, up to a rest. -/
def Yields (text : List Char) (e : Expr) (rest : List Char) : Prop :=
  ∀ lines (c : Cursor), c.rest = text →
    ∃ found after, Script.parse lines c [] = .ok (found, after) ∧ found.unplaced = e ∧
      after.rest = rest

theorem unplacedAll_eq_map (items : List Expr) : Expr.unplacedAll items = items.map Expr.unplaced := by
  induction items with
  | nil => rfl
  | cons e rest ih => rw [Expr.unplacedAll, ih, List.map_cons]

theorem unplaced_listOrSingle (items : List Expr) (separator : Separator) :
    (listOrSingle items separator).unplaced = grouped separator (items.map Expr.unplaced) := by
  match items with
  | [] => rfl
  | [e] => rfl
  | e :: f :: rest =>
    change (Expr.mk (.list (e :: f :: rest) separator) _ _).unplaced = _
    rw [Expr.unplaced, Form.unplaced, unplacedAll_eq_map]
    rfl

theorem Items.length_le {text rest : List Char} {vs : List Value} (items : Items text vs rest) :
    vs.length + rest.length ≤ text.length := by
  induction items with
  | stop => simp
  | item _ _ shorter _ ih =>
    rw [List.length_cons]
    omega

theorem Groups.beginsQuiet {text rest : List Char} {groups : List (List Value)}
    (listed : Groups text groups rest) : BeginsQuiet text := by
  cases listed with
  | stop begins ends => exact ⟨_, _, begins, quiet_of_end ends⟩
  | group begins => exact ⟨_, _, begins, rfl⟩

theorem Items.beginsQuiet {text rest : List Char} {vs : List Value} (items : Items text vs rest) :
    BeginsQuiet text := by
  cases items with
  | stop begins ends => exact ⟨_, _, begins, quiet_of_end ends⟩
  | item begins literal => exact ⟨_, _, begins, quiet_of_literal literal⟩

section Levels

variable {ctx : Context} {text middle rest behind : List Char} {kind : Token.Kind} {v : Value}

/-- A literal that was read. -/
def IsLiteral (v : Value) (e : Option Expr) : Prop :=
  e.map Expr.unplaced = some (bare v)

theorem Gets.primary (begins : Begins text kind rest) (literal : literal? kind = some v)
    (stopWords : ctx.stopWords = []) (inParens : ctx.inParens = false) {fuel : Nat} :
    Gets ctx (primary ctx (fuel + 1)) text (IsLiteral v) rest := by
  refine (Gets.peek begins).bind fun token isKind => ?_
  rw [isKind]
  have take : Gets ctx (do
      let token ← Script.next ctx
      Pure.pure (some (Expr.literal v token.line token.span))) text (IsLiteral v) rest :=
    (Gets.next begins).bind fun _ _ => .pure rfl
  fun_cases literal? kind with
  | case1 | case3 | case4 | case6 =>
    cases literal
    exact take
  | case2 n =>
    cases literal
    simp only [inParens]
    exact take
  | case5 name =>
    cases literal
    simp only [stopWords]
    exact take
  | case7 => simp_all [literal?]

theorem Gets.primary_none (begins : Begins text kind rest) (ends : endsItems kind = true)
    {fuel : Nat} : Gets ctx (Script.primary ctx (fuel + 1)) text (· = none) text := by
  refine (Gets.peek begins).bind fun token isKind => ?_
  rw [isKind]
  fun_cases endsItems kind with
  | case1 | case2 | case3 => exact .pure rfl
  | case4 => simp_all [endsItems]

theorem Gets.unary (begins : Begins text kind rest) (quiet : isQuiet kind = true) {fuel : Nat}
    {p : Option Expr → Prop} (gets : Gets ctx (Script.primary ctx fuel) text p behind) :
    Gets ctx (unary ctx (fuel + 1)) text p behind := by
  refine (Gets.peek begins).bind fun token isKind => ?_
  rw [unaryOp_of_quiet (isKind ▸ quiet)]
  exact gets

theorem Gets.binaryOperands (quiet : BeginsQuiet text) {least : Nat} {left : Expr} {fuel : Nat} :
    Gets ctx (binaryOperands ctx least left (fuel + 1)) text (· = left) text := by
  obtain ⟨kind, rest, begins, quiet⟩ := quiet
  refine (Gets.peek begins).bind fun token isKind => ?_
  rw [binaryOp_of_quiet (isKind ▸ quiet)]
  exact .pure rfl

theorem Gets.binary (begins : Begins text kind rest) (literal : literal? kind = some v)
    (quiet : BeginsQuiet rest) (stopWords : ctx.stopWords = []) (inParens : ctx.inParens = false)
    {least fuel : Nat} : Gets ctx (binary ctx least (fuel + 3)) text (IsLiteral v) rest := by
  refine Gets.markAfterInterpolation.bind fun e none => ?_
  subst none
  refine (Gets.unary begins (quiet_of_literal literal)
    (.primary begins literal stopWords inParens)).bind fun e isLiteral => ?_
  cases e with
  | none => cases isLiteral
  | some left =>
    refine (Gets.binaryOperands quiet).map ?_
    rintro _ rfl
    exact isLiteral

theorem Gets.binary_none (begins : Begins text kind rest) (ends : endsItems kind = true)
    {least fuel : Nat} : Gets ctx (Script.binary ctx least (fuel + 3)) text (· = none) text := by
  refine Gets.markAfterInterpolation.bind fun e none => ?_
  subst none
  refine (Gets.unary begins (quiet_of_end ends) (.primary_none begins ends)).bind fun e none => ?_
  subst none
  exact .pure rfl

/-- The induction follows the items; each one takes a step and at least one character. -/
theorem Gets.spaceItems {vs : List Value} (items : Items text vs rest)
    (stopWords : ctx.stopWords = []) (inParens : ctx.inParens = false) {found : List Expr}
    {fuel : Nat} (enough : text.length + 4 ≤ fuel) :
    Gets ctx (spaceItems ctx found fuel) text
      (fun e => e.unplaced = grouped .space (found.map Expr.unplaced ++ vs.map bare)) rest := by
  induction items generalizing found fuel with
  | stop begins ends =>
    obtain ⟨fuel, rfl⟩ := Nat.exists_eq_add_of_le' (show 4 ≤ fuel by omega)
    refine (Gets.binary_none begins ends).bind fun e none => ?_
    subst none
    refine .pure ?_
    rw [unplaced_listOrSingle, List.map_nil, List.append_nil]
  | item begins literal shorter others ih =>
    obtain ⟨fuel, rfl⟩ := Nat.exists_eq_add_of_le' (show 4 ≤ fuel by omega)
    refine (Gets.binary begins literal others.beginsQuiet stopWords inParens).bind
      fun e isLiteral => ?_
    cases e with
    | none => cases isLiteral
    | some item =>
      refine (ih (by omega)).weaken fun e isList => ?_
      rw [isList, List.map_append, List.map_cons, List.map_nil, Option.some.inj isLiteral]
      simp

/-- A space list up to its end. -/
def IsList (vs : List Value) (e : Option Expr) : Prop :=
  e.map Expr.unplaced = some (spaced vs)

theorem Gets.space {vs : List Value} (items : Items text (v :: vs) rest)
    (stopWords : ctx.stopWords = []) (inParens : ctx.inParens = false) {fuel : Nat}
    (enough : text.length + 4 ≤ fuel) :
    Gets ctx (space ctx fuel) text (IsList (v :: vs)) rest := by
  obtain ⟨fuel, rfl⟩ := Nat.exists_eq_add_of_le' (show 4 ≤ fuel by omega)
  cases items with
  | item begins literal shorter others =>
    refine (Gets.binary begins literal others.beginsQuiet stopWords inParens).bind
      fun e isLiteral => ?_
    cases e with
    | none => cases isLiteral
    | some first =>
      refine (Gets.spaceItems others stopWords inParens (by omega)).map fun e isList => ?_
      rw [IsList, Option.map_some, isList, List.map_cons, List.map_nil,
        Option.some.inj isLiteral]
      rfl

theorem Gets.interpolation {vs : List Value} (items : Items text (v :: vs) rest)
    (quiet : BeginsQuiet rest) (stopWords : ctx.stopWords = []) (inParens : ctx.inParens = false)
    {fuel : Nat} (enough : text.length + 5 ≤ fuel) :
    Gets ctx (interpolation ctx fuel) text (IsList (v :: vs)) rest := by
  obtain ⟨fuel, rfl⟩ := Nat.exists_eq_add_of_le' (show 1 ≤ fuel by omega)
  obtain ⟨kind, behind, begins, quiet⟩ := quiet
  refine (Gets.space items stopWords inParens (by omega)).bind fun e isList => ?_
  refine (Gets.atInterpolation begins (ne_beginInterpolation quiet)).bind fun opens no => ?_
  subst no
  exact .pure isList

theorem Gets.equals {vs : List Value} (items : Items text (v :: vs) rest)
    (quiet : BeginsQuiet rest) (stopWords : ctx.stopWords = []) (inParens : ctx.inParens = false)
    {fuel : Nat} (enough : text.length + 6 ≤ fuel) :
    Gets ctx (equals ctx fuel) text (IsList (v :: vs)) rest := by
  obtain ⟨fuel, rfl⟩ := Nat.exists_eq_add_of_le' (show 2 ≤ fuel by omega)
  refine Gets.markAfterInterpolation.bind fun e none => ?_
  subst none
  refine (Gets.interpolation items quiet stopWords inParens (by omega)).bind fun e isList => ?_
  obtain ⟨kind, behind, begins, quiet⟩ := quiet
  cases e with
  | none => cases isList
  | some first =>
    have operands : Gets ctx (equalsOperands ctx first (fuel + 1)) rest (· = first) rest := by
      refine (Gets.peekMark begins).bind fun isMark equals => ?_
      cases isMark with
      | true =>
        rw [equals.mp rfl] at quiet
        cases quiet
      | false => exact .pure rfl
    refine operands.map ?_
    rintro _ rfl
    exact isList

/-- The induction follows the groups; each one takes a step and its comma. -/
theorem Gets.commaItems {groups : List (List Value)} (listed : Groups text groups rest)
    (stopWords : ctx.stopWords = []) (inParens : ctx.inParens = false) {found : List Expr}
    {fuel : Nat} (enough : text.length + 7 ≤ fuel) :
    Gets ctx (commaItems ctx found fuel) text (fun e =>
      e.unplaced = grouped .comma (found.map Expr.unplaced ++ groups.map spaced)) rest := by
  induction listed generalizing found fuel with
  | stop begins ends notComma =>
    obtain ⟨fuel, rfl⟩ := Nat.exists_eq_add_of_le' (show 1 ≤ fuel by omega)
    refine (Gets.peekMark begins).bind fun isMark isComma => ?_
    cases isMark with
    | true => exact absurd (isComma.mp rfl) notComma
    | false =>
      refine .pure ?_
      rw [unplaced_listOrSingle, List.map_nil, List.append_nil]
  | group begins shorter items others ih =>
    obtain ⟨fuel, rfl⟩ := Nat.exists_eq_add_of_le' (show 1 ≤ fuel by omega)
    have shrinks := items.length_le
    obtain ⟨kind, behind, first, quiet⟩ := items.beginsQuiet
    refine (Gets.peekMark begins).bind fun isMark isComma => ?_
    rw [isComma.mpr rfl]
    refine (Gets.next begins).bind fun token _ => ?_
    refine (Gets.atInterpolation first (ne_beginInterpolation quiet)).bind fun opens no => ?_
    subst no
    refine (Gets.equals items others.beginsQuiet stopWords inParens (by omega)).bind
      fun e isList => (Gets.require isList).bind fun item isItem => ?_
    refine (ih (by omega)).weaken fun e isGroups => ?_
    rw [isGroups, List.map_append, List.map_cons, List.map_nil, isItem]
    simp

theorem Gets.comma {vs : List Value} {groups : List (List Value)}
    (items : Items text (v :: vs) middle) (listed : Groups middle groups rest)
    (stopWords : ctx.stopWords = []) (inParens : ctx.inParens = false) {fuel : Nat}
    (enough : text.length + 8 ≤ fuel) :
    Gets ctx (comma ctx fuel) text (fun e => e.map Expr.unplaced =
      some (grouped .comma (((v :: vs) :: groups).map spaced))) rest := by
  obtain ⟨fuel, rfl⟩ := Nat.exists_eq_add_of_le' (show 2 ≤ fuel by omega)
  have shrinks := items.length_le
  refine Gets.markAfterInterpolation.bind fun e none => ?_
  subst none
  refine (Gets.equals items listed.beginsQuiet stopWords inParens (by omega)).bind
    fun e isList => ?_
  cases e with
  | none => cases isList
  | some first =>
    refine (Gets.commaItems listed stopWords inParens (by omega)).map fun e isGroups => ?_
    rw [Option.map_some, isGroups, List.map_cons, List.map_nil, Option.some.inj isList]
    rfl

end Levels

/-- Literals with blanks and commas between them are read as the lists they look like. -/
theorem yields_groups {text middle rest : List Char} {v : Value} {vs : List Value}
    {groups : List (List Value)} (items : Items text (v :: vs) middle)
    (listed : Groups middle groups rest) :
    Yields text (grouped .comma (((v :: vs) :: groups).map spaced)) rest := by
  intro lines c isText
  let ctx : Context := { contextAt lines c with stopWords := [] }
  have start : At lines text (TokenStream.ofCursor c) :=
    ⟨isText, rfl, rfl, TokenStream.standsAt_start⟩
  have reads : Gets ctx (do
      let e ← Script.require ctx (← Script.comma ctx (enough c))
      Script.unpeek
      return e) text
      (fun e => e.unplaced = grouped .comma (((v :: vs) :: groups).map spaced)) rest := by
    have steps : text.length + 8 ≤ enough c := by
      unfold enough
      rw [isText]
      omega
    refine (Gets.comma items listed rfl rfl steps).bind fun e isGroups => ?_
    refine (Gets.require isGroups).bind fun e isExpr => ?_
    have forget : Gets ctx Script.unpeek rest (fun _ => True) rest :=
      fun s before => ⟨_, _, rfl, trivial, before.unpeek⟩
    exact forget.bind fun _ _ => .pure isExpr
  obtain ⟨e, s, found, isExpr, done⟩ := reads (TokenStream.ofCursor c) start
  refine ⟨e, s.position, ?_, isExpr, by rw [s.position_eq, done.rest]⟩
  have ran : StateT.run (do
      let e ← Script.require ctx (← Script.comma ctx (enough c))
      Script.unpeek
      return e) (TokenStream.ofCursor c) = .ok (e, s) := found
  change Except.map _ (StateT.run _ (TokenStream.ofCursor c)) = _
  rw [ran]
  rfl

end Stylesheet.Script
