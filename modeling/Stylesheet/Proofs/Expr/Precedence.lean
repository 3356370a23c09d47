import Stylesheet.Proofs.Except
import Stylesheet.Proofs.Expr.Reading
import Stylesheet.Proofs.Expr.Taking

/-! The tree of an expression without interpolations. Each operator has operands that bind at least
as tightly as its place demands, and reading the tree from left to right gives the tokens of the
text, each of them once. -/

namespace Stylesheet

namespace Expr

/-- The operator of an expression that is one operation. -/
def operator? : Expr → Option BinaryOp
  | .mk (.binary op _ _) _ _ => some op
  | _ => none

/-- A list that is not empty. -/
def IsFilledList : Expr → Prop
  | .mk (.list (_ :: _) _) _ _ => True
  | _ => False

/-- A list with commas between its items. -/
def IsCommaList : Expr → Prop
  | .mk (.list _ .comma) _ _ => True
  | _ => False

/-- At every node, the operands bind as tightly as their places demand. -/
inductive Climbed : Expr → Prop where
  | literal : Climbed (.mk (.literal v) row place)
  | variable : Climbed (.mk (.variable name) row place)
  | paren (inner : Climbed e) : Climbed (.mk (.paren e) row place)
  | call (positional : ∀ e ∈ es, Climbed e) (keywords : ∀ given ∈ ks, Climbed given.2) :
      Climbed (.mk (.call name (.mk es ks)) row place)
  | unary (operand : Climbed e) (noOperation : e.operator? = none) (noList : ¬e.IsFilledList) :
      Climbed (.mk (.unary op e) row place)
  | equals (left : Climbed l) (right : Climbed r) :
      Climbed (.mk (.binary .singleEq l r) row place)
  | binary (left : Climbed l) (right : Climbed r)
      (noListLeft : ¬l.IsFilledList) (noListRight : ¬r.IsFilledList)
      (notLooser : ∀ inner, l.operator? = some inner → op.precedence ≤ inner.precedence)
      (tighter : ∀ inner, r.operator? = some inner → op.precedence < inner.precedence) :
      Climbed (.mk (.binary op l r) row place)
  | spaces (items : ∀ e ∈ es, Climbed e) (noLists : ∀ e ∈ es, ¬e.IsFilledList) :
      Climbed (.mk (.list es .space) row place)
  | commas (items : ∀ e ∈ es, Climbed e) (noCommaLists : ∀ e ∈ es, ¬e.IsCommaList) :
      Climbed (.mk (.list es .comma) row place)

end Expr

namespace Script

/-- The value of a literal token; in parentheses a number forgets how it was written. -/
def Denotes (kind : Token.Kind) (v : Value) : Prop :=
  literal? kind = some v ∨ ∃ n, kind = .number n ∧ v = .number n.withoutSpelling

/-- What stands between the items of a list. -/
def Separates : Separator → List Token → Prop
  | .space, gap => gap = []
  | .comma, gap => ∃ token, gap = [token] ∧ token.Shows ","

/-- What stands between these arguments and the next: nothing in front of the first. -/
def Joins (positional : List Expr) (keywords : List (String × Expr)) (gap : List Token) : Prop :=
  (positional = [] ∧ keywords = [] ∧ gap = []) ∨
    ((positional ≠ [] ∨ keywords ≠ []) ∧ ∃ token, gap = [token] ∧ token.Shows ",")

mutual

/-- An expression and the tokens that it is written with, from left to right. -/
inductive Spelt : Expr → List Token → Prop where
  | literal (denotes : Denotes token.kind v) : Spelt (.literal v token.line token.span) [token]
  | variable (kind : token.kind = .variable name) :
      Spelt (.mk (.variable name) token.line token.span) [token]
  | paren (opens : opened.Shows "(") (inner : Spelt e tokens) (closes : closed.Shows ")") :
      Spelt (.mk (.paren e) row place) (opened :: tokens ++ [closed])
  | empty (opens : opened.Shows "(") (closes : closed.Shows ")") :
      Spelt (.mk (.list [] .space) row place) [opened, closed]
  | list (items : ItemsSpelt separator es tokens) (several : 1 < es.length) :
      Spelt (.mk (.list es separator) row place) tokens
  | binary (left : Spelt l before) (sign : token.Shows op.toText) (right : Spelt r behind) :
      Spelt (.mk (.binary op l r) row place) (before ++ token :: behind)
  | unary (sign : token.Shows op.toText) (operand : Spelt e tokens) :
      Spelt (.mk (.unary op e) row place) (token :: tokens)
  | call (kind : token.kind = .function name) (args : GivenSpelt es ks tokens)
      (closes : closed.Shows ")") :
      Spelt (.mk (.call name (.mk es ks)) row place) (token :: tokens ++ [closed])

/-- The items of a list with the separators between them. -/
inductive ItemsSpelt : Separator → List Expr → List Token → Prop where
  | first (item : Spelt e tokens) : ItemsSpelt separator [e] tokens
  | next (front : ItemsSpelt separator es before) (between : Separates separator gap)
      (item : Spelt e tokens) : ItemsSpelt separator (es ++ [e]) (before ++ gap ++ tokens)

/-- Arguments by position and by name with the commas between them. -/
inductive GivenSpelt : List Expr → List (String × Expr) → List Token → Prop where
  | none : GivenSpelt [] [] []
  | positional (front : GivenSpelt es [] before) (between : Joins es [] gap)
      (item : Spelt e tokens) : GivenSpelt (es ++ [e]) [] (before ++ gap ++ tokens)
  | keyword (front : GivenSpelt es ks before) (between : Joins es ks gap)
      (names : token.kind = .variable name) (assigns : mark.Shows ":") (value : Spelt e tokens) :
      GivenSpelt es (ks ++ [(name, e)]) (before ++ gap ++ token :: mark :: tokens)

end

theorem Spelt.filled_of_commaList {e : Expr} {tokens : List Token} (spelt : Spelt e tokens)
    (isList : e.IsCommaList) : e.IsFilledList := by
  cases spelt with
  | @list separator es _ _ _ items several =>
    match es with
    | [] => cases several
    | _ :: _ => trivial
  | _ => cases isList

theorem Spelt.of_variable {e : Expr} {tokens : List Token} {name : String}
    (spelt : Spelt e tokens) (isVariable : e.form = .variable name) :
    ∃ token, tokens = [token] ∧ token.kind = .variable name := by
  cases spelt with
  | «variable» kind =>
    cases isVariable
    exact ⟨_, rfl, kind⟩
  | _ => cases isVariable

/-- An expression that was read from some tokens, of a kind that its level gives. -/
def Read (kind : Expr → Prop) (e : Expr) (tokens : List Token) : Prop :=
  e.Climbed ∧ Spelt e tokens ∧ kind e

/-- What a level gives: nothing, and then no token was taken, or an expression. -/
def Given (kind : Expr → Prop) : Option Expr → List Token → Prop
  | none, tokens => tokens = []
  | some e, tokens => Read kind e tokens

/-- Neither an operation nor a list that is not in parentheses. -/
def IsSingle (e : Expr) : Prop :=
  ¬e.IsFilledList ∧ e.operator? = none

/-- An operand where operators bind at least as tightly as `least`. -/
def Fits (least : Nat) (e : Expr) : Prop :=
  ¬e.IsFilledList ∧ ∀ op, e.operator? = some op → least ≤ op.precedence

/-- Arguments that were read from some tokens. -/
def ArgumentsRead (args : Arguments) (tokens : List Token) : Prop :=
  (∀ e ∈ args.positional, e.Climbed) ∧ (∀ given ∈ args.keywords, given.2.Climbed) ∧
    GivenSpelt args.positional args.keywords tokens

/-- If an operator comes next, it is looser than `least`. -/
def EndsOperands (ctx : Context) (least : Nat) (place : Lexer.State) : Prop :=
  ∀ token op, Next ctx place token → token.mark?.bind binaryOp? = some op → op.precedence < least

theorem mark?_eq_some {token : Token} {mark : Mark} (isMark : token.mark? = some mark) :
    token.kind = .mark mark := by
  unfold Token.mark? at isMark
  split at isMark
  · rename_i kind
    cases isMark
    exact kind
  · cases isMark

theorem shows_of_binaryOp {token : Token} {op : BinaryOp}
    (isOp : token.mark?.bind binaryOp? = some op) :
    token.Shows op.toText ∧ token.kind.isInside = true ∧ op ≠ .singleEq := by
  obtain ⟨mark, isMark, isOp⟩ := Option.bind_eq_some_iff.mp isOp
  have kind := mark?_eq_some isMark
  rw [kind]
  refine ⟨⟨mark, kind, ?_⟩, ?_⟩ <;>
    cases mark <;> cases isOp <;> first | rfl | exact ⟨rfl, nofun⟩

theorem shows_of_unaryOp {token : Token} {op : UnaryOp}
    (isOp : token.mark?.bind unaryOp? = some op) :
    token.Shows op.toText ∧ token.kind.isInside = true := by
  obtain ⟨mark, isMark, isOp⟩ := Option.bind_eq_some_iff.mp isOp
  have kind := mark?_eq_some isMark
  rw [kind]
  refine ⟨⟨mark, kind, ?_⟩, ?_⟩ <;> cases mark <;> cases isOp <;> rfl

theorem ItemsSpelt.ne_nil {separator : Separator} {es : List Expr} {tokens : List Token}
    (items : ItemsSpelt separator es tokens) : es ≠ [] := by
  cases items with
  | first => exact List.cons_ne_nil _ _
  | next => exact List.append_ne_nil_of_right_ne_nil _ (List.cons_ne_nil _ _)

theorem ItemsSpelt.single {separator : Separator} {e : Expr} {tokens : List Token}
    (items : ItemsSpelt separator [e] tokens) : Spelt e tokens := by
  generalize same : [e] = es at items
  cases items with
  | first item =>
    cases same
    exact item
  | next front =>
    have lengths := congrArg List.length same
    rw [List.length_append, List.length_singleton, List.length_singleton] at lengths
    exact absurd (List.length_eq_zero_iff.mp (by omega)) front.ne_nil

theorem ItemsSpelt.listOrSingle {separator : Separator} {es : List Expr} {tokens : List Token}
    (items : ItemsSpelt separator es tokens) : Spelt (listOrSingle es separator) tokens := by
  match es, items with
  | [], items => exact absurd rfl items.ne_nil
  | [e], items => exact items.single
  | _ :: _ :: _, items => exact .list items (by simp)

theorem Read.spaces {es : List Expr} {tokens : List Token} (items : ItemsSpelt .space es tokens)
    (climbed : ∀ e ∈ es, e.Climbed) (noLists : ∀ e ∈ es, ¬e.IsFilledList) :
    Read (¬·.IsCommaList) (listOrSingle es .space) tokens := by
  have spelt := items.listOrSingle
  match es, items with
  | [], items => exact absurd rfl items.ne_nil
  | [e], items =>
    have member := List.mem_singleton_self e
    exact ⟨climbed e member, spelt,
      fun isList => noLists e member (items.single.filled_of_commaList isList)⟩
  | _ :: _ :: _, items => exact ⟨.spaces climbed noLists, spelt, id⟩

theorem Read.commas {es : List Expr} {tokens : List Token} (items : ItemsSpelt .comma es tokens)
    (climbed : ∀ e ∈ es, e.Climbed) (noCommaLists : ∀ e ∈ es, ¬e.IsCommaList) :
    Read (fun _ => True) (listOrSingle es .comma) tokens := by
  have spelt := items.listOrSingle
  match es, items with
  | [], items => exact absurd rfl items.ne_nil
  | [e], _ => exact ⟨climbed e (List.mem_singleton_self e), spelt, trivial⟩
  | _ :: _ :: _, _ => exact ⟨.commas climbed noCommaLists, spelt, trivial⟩

/-- What each level gives with some amount of fuel, wherever it starts. -/
structure Climbs (P : Lexer.State → Prop) (fuel : Nat) : Prop where
  level : ∀ ctx start, Takes P ctx start (level ctx .equals fuel)
    (fun e tokens _ => Given (¬·.IsCommaList) e tokens)
  comma : ∀ ctx start, Takes P ctx start (comma ctx fuel)
    (fun e tokens _ => Given (fun _ => True) e tokens)
  commaItems : ∀ ctx start es before, ItemsSpelt .comma es before → (∀ e ∈ es, e.Climbed) →
    (∀ e ∈ es, ¬e.IsCommaList) → Takes P ctx start (commaItems ctx es fuel)
      (fun e tokens _ => Read (fun _ => True) e (before ++ tokens))
  equals : ∀ ctx start, Takes P ctx start (equals ctx fuel)
    (fun e tokens _ => Given (¬·.IsCommaList) e tokens)
  equalsOperands : ∀ ctx start left before, Read (¬·.IsCommaList) left before →
    Takes P ctx start (equalsOperands ctx left fuel)
      (fun e tokens _ => Read (¬·.IsCommaList) e (before ++ tokens))
  interpolation : ∀ ctx start, Takes P ctx start (interpolation ctx fuel)
    (fun e tokens _ => Given (¬·.IsCommaList) e tokens)
  space : ∀ ctx start, Takes P ctx start (space ctx fuel)
    (fun e tokens _ => Given (¬·.IsCommaList) e tokens)
  spaceItems : ∀ ctx start es before, ItemsSpelt .space es before → (∀ e ∈ es, e.Climbed) →
    (∀ e ∈ es, ¬e.IsFilledList) → Takes P ctx start (spaceItems ctx es fuel)
      (fun e tokens _ => Read (¬·.IsCommaList) e (before ++ tokens))
  binary : ∀ ctx start least, Takes P ctx start (binary ctx least fuel)
    (fun e tokens stop => Given (Fits least) e tokens ∧ (e.isSome → EndsOperands ctx least stop))
  binaryOperands : ∀ ctx start least left before, Read (Fits least) left before →
    (∀ op, left.operator? = some op → EndsOperands ctx (op.precedence + 1) start) →
    Takes P ctx start (binaryOperands ctx least left fuel)
      (fun e tokens stop => Read (Fits least) e (before ++ tokens) ∧ EndsOperands ctx least stop)
  unary : ∀ ctx start, Takes P ctx start (unary ctx fuel)
    (fun e tokens _ => Given IsSingle e tokens)
  primary : ∀ ctx start, Takes P ctx start (primary ctx fuel)
    (fun e tokens _ => Given IsSingle e tokens)
  paren : ∀ ctx start opened, Next ctx start opened → opened.kind = .mark .openParen →
    Takes P ctx start (paren ctx fuel) (fun e tokens _ => Read IsSingle e tokens)
  arguments : ∀ ctx start, Takes P ctx start (arguments ctx .equals fuel)
    (fun args tokens _ => ArgumentsRead args tokens)
  argumentItems : ∀ ctx start es ks before gap, ArgumentsRead (.mk es ks) before →
    Joins es ks gap → Takes P ctx start (argumentItems ctx .equals es ks fuel)
      (fun args tokens _ => ArgumentsRead args (before ++ gap ++ tokens))

namespace Climbs

variable {P : Lexer.State → Prop} {fuel : Nat} {ctx : Context} {start : Lexer.State}

theorem space_succ (climbs : Climbs P fuel) : Takes P ctx start (Script.space ctx (fuel + 1))
    (fun e tokens _ => Given (¬·.IsCommaList) e tokens) := by
  refine (climbs.binary ctx start 1).bind fun e tokens middle given => ?_
  cases e with
  | none => exact .pure (by rw [Given, given.1, List.append_nil])
  | some first =>
    obtain ⟨climbed, spelt, noList, _⟩ := given.1
    refine (climbs.spaceItems ctx middle [first] tokens (.first spelt) ?_ ?_).map
      fun e others _ read => read
    · simpa using climbed
    · simpa using noList

theorem spaceItems_succ (climbs : Climbs P fuel) {es : List Expr} {before : List Token}
    (items : ItemsSpelt .space es before) (climbed : ∀ e ∈ es, e.Climbed)
    (noLists : ∀ e ∈ es, ¬e.IsFilledList) :
    Takes P ctx start (Script.spaceItems ctx es (fuel + 1))
      (fun e tokens _ => Read (¬·.IsCommaList) e (before ++ tokens)) := by
  refine (climbs.binary ctx start 1).bind fun e tokens middle given => ?_
  cases e with
  | none =>
    refine .pure ?_
    rw [given.1, List.append_nil, List.append_nil]
    exact .spaces items climbed noLists
  | some item =>
    obtain ⟨itemClimbed, spelt, noList, _⟩ := given.1
    refine (climbs.spaceItems ctx middle (es ++ [item]) (before ++ [] ++ tokens)
      (.next items rfl spelt) ?_ ?_).weaken fun e others _ read => ?_
    · simpa [or_imp, forall_and] using ⟨climbed, itemClimbed⟩
    · simpa [or_imp, forall_and] using ⟨noLists, noList⟩
    · simpa using read

variable [Lexer.Confines P]

theorem comma_succ (climbs : Climbs P fuel) : Takes P ctx start (Script.comma ctx (fuel + 1))
    (fun e tokens _ => Given (fun _ => True) e tokens) := by
  refine Takes.markAfterInterpolation ((climbs.equals ctx start).bind fun e tokens middle given => ?_)
  cases e with
  | none => exact .pure (by rw [Given, given, List.append_nil])
  | some first =>
    obtain ⟨climbed, spelt, noCommaList⟩ := given
    refine (climbs.commaItems ctx middle [first] tokens (.first spelt) ?_ ?_).map
      fun e others _ read => read
    · simpa using climbed
    · simpa using noCommaList

theorem commaItems_succ (climbs : Climbs P fuel) {es : List Expr} {before : List Token}
    (items : ItemsSpelt .comma es before) (climbed : ∀ e ∈ es, e.Climbed)
    (noCommaLists : ∀ e ∈ es, ¬e.IsCommaList) :
    Takes P ctx start (Script.commaItems ctx es (fuel + 1))
      (fun e tokens _ => Read (fun _ => True) e (before ++ tokens)) := by
  refine Takes.peekMark (fun token isNext kind => ?_) (.pure ?_)
  · refine Takes.next isNext (by rw [kind]; rfl) fun middle => ?_
    refine Takes.atInterpolation ((climbs.equals ctx middle).bind fun e tokens behind given => ?_)
    refine Takes.require fun item isItem => ?_
    subst isItem
    obtain ⟨itemClimbed, spelt, noCommaList⟩ := given
    refine (climbs.commaItems ctx behind (es ++ [item]) (before ++ [token] ++ tokens)
      (.next items ⟨token, rfl, .comma, kind, rfl⟩ spelt) ?_ ?_).weaken fun e others _ read => ?_
    · simpa [or_imp, forall_and] using ⟨climbed, itemClimbed⟩
    · simpa [or_imp, forall_and] using ⟨noCommaLists, noCommaList⟩
    · simpa using read
  · rw [List.append_nil]
    exact .commas items climbed noCommaLists

theorem equals_succ (climbs : Climbs P fuel) : Takes P ctx start (Script.equals ctx (fuel + 1))
    (fun e tokens _ => Given (¬·.IsCommaList) e tokens) := by
  refine Takes.markAfterInterpolation
    ((climbs.interpolation ctx start).bind fun e tokens middle given => ?_)
  cases e with
  | none => exact .pure (by rw [Given, given, List.append_nil])
  | some first => exact (climbs.equalsOperands ctx middle first tokens given).map fun _ _ _ => id

theorem equalsOperands_succ (climbs : Climbs P fuel) {left : Expr} {before : List Token}
    (read : Read (¬·.IsCommaList) left before) :
    Takes P ctx start (Script.equalsOperands ctx left (fuel + 1))
      (fun e tokens _ => Read (¬·.IsCommaList) e (before ++ tokens)) := by
  refine Takes.peekMark (fun token isNext kind => ?_) (.pure (by rwa [List.append_nil]))
  refine Takes.next isNext (by rw [kind]; rfl) fun middle => ?_
  refine Takes.atInterpolation
    ((climbs.interpolation ctx middle).bind fun e tokens behind given => ?_)
  refine Takes.require fun right isRight => ?_
  subst isRight
  refine (climbs.equalsOperands ctx behind _ (before ++ token :: tokens)
    ⟨.equals read.1 given.1, .binary read.2.1 ⟨.singleEq, kind, rfl⟩ given.2.1, id⟩).weaken
    fun e others _ read => ?_
  simpa using read

theorem interpolation_succ (climbs : Climbs P fuel) :
    Takes P ctx start (Script.interpolation ctx (fuel + 1))
      (fun e tokens _ => Given (¬·.IsCommaList) e tokens) := by
  refine (climbs.space ctx start).bind fun e tokens middle given => ?_
  exact Takes.atInterpolation (.pure (by rwa [List.append_nil]))

theorem binary_succ (climbs : Climbs P fuel) {least : Nat} :
    Takes P ctx start (Script.binary ctx least (fuel + 1)) (fun e tokens stop =>
      Given (Fits least) e tokens ∧ (e.isSome → EndsOperands ctx least stop)) := by
  refine Takes.markAfterInterpolation ((climbs.unary ctx start).bind fun e tokens middle given => ?_)
  cases e with
  | none => exact .pure ⟨by rw [Given, given, List.append_nil], nofun⟩
  | some left =>
    obtain ⟨climbed, spelt, noList, single⟩ := given
    refine (climbs.binaryOperands ctx middle least left tokens
      ⟨climbed, spelt, noList, fun op isOp => ?_⟩ fun op isOp => ?_).map
      fun e others _ read => ⟨read.1, fun _ => read.2⟩
    · rw [single] at isOp
      cases isOp
    · rw [single] at isOp
      cases isOp

theorem binaryOperands_succ (climbs : Climbs P fuel) {least : Nat} {left : Expr}
    {before : List Token} (read : Read (Fits least) left before)
    (settled : ∀ op, left.operator? = some op → EndsOperands ctx (op.precedence + 1) start) :
    Takes P ctx start (Script.binaryOperands ctx least left (fuel + 1)) (fun e tokens stop =>
      Read (Fits least) e (before ++ tokens) ∧ EndsOperands ctx least stop) := by
  refine Takes.peek fun token isNext _ => ?_
  have same : ∀ {other}, Next ctx start other → other = token := fun ⟨_, ran⟩ => isNext.unique ran
  cases isOp : token.mark?.bind binaryOp? with
  | none =>
    refine .pure ⟨by rwa [List.append_nil], fun other op isOther isBinary => ?_⟩
    rw [same isOther, isOp] at isBinary
    cases isBinary
  | some op =>
    dsimp only
    split
    · rename_i loose
      refine .pure ⟨by rwa [List.append_nil], fun other found isOther isBinary => ?_⟩
      rw [same isOther, isOp] at isBinary
      cases isBinary
      exact loose
    · rename_i tight
      obtain ⟨shows, inside, notEquals⟩ := shows_of_binaryOp isOp
      refine Takes.next isNext inside fun middle => ?_
      refine Takes.atInterpolation
        ((climbs.binary ctx middle (op.precedence + 1)).bind fun e tokens behind given => ?_)
      refine Takes.require fun right isRight => ?_
      subst isRight
      obtain ⟨⟨rightClimbed, rightSpelt, noListRight, tighter⟩, ended⟩ := given
      obtain ⟨leftClimbed, leftSpelt, noListLeft, _⟩ := read
      -- The loop that read the left operand stopped at this operator, so it binds no tighter.
      have notLooser : ∀ inner, left.operator? = some inner →
          op.precedence ≤ inner.precedence := fun inner isInner =>
        Nat.lt_succ_iff.mp (settled inner isInner token op isNext isOp)
      refine (climbs.binaryOperands ctx behind least (binaryExpr op left right)
        (before ++ token :: tokens)
        ⟨.binary leftClimbed rightClimbed noListLeft noListRight notLooser tighter,
          .binary leftSpelt shows rightSpelt, id, ?_⟩ ?_).weaken fun e others stop result => ?_
      · rintro _ ⟨⟩
        exact Nat.le_of_not_lt tight
      · rintro _ ⟨⟩
        exact ended rfl
      · simpa using result

theorem unary_succ (climbs : Climbs P fuel) : Takes P ctx start (Script.unary ctx (fuel + 1))
    (fun e tokens _ => Given IsSingle e tokens) := by
  refine Takes.peek fun token isNext _ => ?_
  cases isOp : token.mark?.bind unaryOp? with
  | none => exact climbs.primary ctx start
  | some op =>
    obtain ⟨shows, inside⟩ := shows_of_unaryOp isOp
    refine Takes.next isNext inside fun middle => ?_
    refine Takes.atInterpolation ((climbs.unary ctx middle).bind fun e tokens behind given => ?_)
    refine Takes.require fun operand isOperand => ?_
    subst isOperand
    obtain ⟨climbed, spelt, noList, single⟩ := given
    refine .pure ?_
    rw [List.append_nil]
    exact ⟨.unary climbed single noList, .unary shows spelt, id, rfl⟩

/-- A token that is a literal by itself. -/
theorem literal_read {token : Token} {v : Value} (isNext : Next ctx start token)
    (denotes : Denotes token.kind v) (inside : token.kind.isInside = true) :
    Takes P ctx start (do
      let token ← Script.next ctx
      return some (Expr.literal v token.line token.span))
      (fun e tokens _ => Given IsSingle e tokens) :=
  Takes.next isNext inside fun _ => .pure ⟨.literal, .literal denotes, id, rfl⟩

theorem primary_succ (climbs : Climbs P fuel) : Takes P ctx start (Script.primary ctx (fuel + 1))
    (fun e tokens _ => Given IsSingle e tokens) := by
  refine Takes.peek fun token isNext plain => ?_
  dsimp only
  split
  · rename_i name kind
    refine Takes.next isNext (by rw [kind]; rfl) fun middle => ?_
    refine (climbs.arguments ctx middle).bind fun args tokens behind read => ?_
    refine (Takes.expectMark rfl).bind fun close closing stop closes => .pure ?_
    obtain ⟨shows, rfl⟩ := closes
    obtain ⟨es, ks⟩ := args
    rw [List.append_nil]
    exact ⟨.call read.1 read.2.1, .call kind read.2.2 shows, id, rfl⟩
  · rename_i kind
    exact literal_read isNext (.inl (by rw [kind]; rfl)) (by rw [kind]; rfl)
  · rename_i kind
    rw [kind] at plain
    cases plain
  · rename_i kind
    exact (climbs.paren ctx start token isNext kind).map fun _ _ _ read => read
  · rename_i kind
    exact Takes.next isNext (by rw [kind]; rfl) fun _ =>
      .pure ⟨.variable, .variable kind, id, rfl⟩
  · rename_i n kind
    refine literal_read isNext ?_ (by rw [kind]; rfl)
    split
    · exact .inr ⟨n, kind, rfl⟩
    · exact .inl (by rw [kind]; rfl)
  · rename_i kind
    exact literal_read isNext (.inl (by rw [kind]; rfl)) (by rw [kind]; rfl)
  · rename_i kind
    exact literal_read isNext (.inl (by rw [kind]; rfl)) (by rw [kind]; rfl)
  · rename_i kind
    split
    · exact .pure rfl
    · exact literal_read isNext (.inl (by rw [kind]; rfl)) (by rw [kind]; rfl)
  · rename_i kind
    exact literal_read isNext (.inl (by rw [kind]; rfl)) (by rw [kind]; rfl)
  · exact .pure rfl

theorem paren_succ (climbs : Climbs P fuel) {opened : Token} (isNext : Next ctx start opened)
    (kind : opened.kind = .mark .openParen) :
    Takes P ctx start (Script.paren ctx (fuel + 1)) (fun e tokens _ => Read IsSingle e tokens) := by
  refine Takes.next isNext (by rw [kind]; rfl) fun middle => ?_
  refine Takes.bind (climbs.comma { ctx with inParens := true } middle)
    fun e tokens behind given => ?_
  refine (Takes.expectMark rfl).bind fun close closing stop closes => .pure ?_
  obtain ⟨shows, rfl⟩ := closes
  have opens : opened.Shows "(" := ⟨.openParen, kind, rfl⟩
  rw [List.append_nil]
  cases e with
  | none =>
    rw [given]
    exact ⟨.spaces nofun nofun, .empty opens shows, id, rfl⟩
  | some e => exact ⟨.paren given.1, .paren opens given.2.1 shows, id, rfl⟩

theorem arguments_succ (climbs : Climbs P fuel) :
    Takes P ctx start (Script.arguments ctx .equals (fuel + 1))
      (fun args tokens _ => ArgumentsRead args tokens) := by
  refine Takes.peekMark (fun _ _ _ => .pure ⟨nofun, nofun, .none⟩) ?_
  exact climbs.argumentItems ctx start [] [] [] [] ⟨nofun, nofun, .none⟩ (.inl ⟨rfl, rfl, rfl⟩)

/-- Behind an argument stands a comma and the next one, or nothing. -/
theorem moreArguments (climbs : Climbs P fuel) {es : List Expr} {ks : List (String × Expr)}
    {before : List Token} (filled : es ≠ [] ∨ ks ≠ []) (read : ArgumentsRead (.mk es ks) before) :
    Takes P ctx start (do
      if ← eatMark ctx .comma then Script.argumentItems ctx .equals es ks fuel
      else return .mk es ks) (fun args tokens _ => ArgumentsRead args (before ++ tokens)) := by
  have eats : Takes P ctx start (eatMark ctx .comma) (fun ate tokens _ =>
      (ate = false ∧ tokens = []) ∨ (ate = true ∧ ∃ token, tokens = [token] ∧ token.Shows ",")) := by
    refine Takes.peekMark (fun token isNext kind => ?_) (.pure (.inl ⟨rfl, rfl⟩))
    exact Takes.next isNext (by rw [kind]; rfl) fun _ =>
      .pure (.inr ⟨rfl, token, rfl, .comma, kind, rfl⟩)
  refine eats.bind ?_
  rintro _ _ middle (⟨rfl, rfl⟩ | ⟨rfl, token, rfl, comma⟩)
  · refine .pure ?_
    rwa [List.append_nil, List.append_nil]
  · refine (climbs.argumentItems ctx middle es ks before [token] read
      (.inr ⟨filled, token, rfl, comma⟩)).weaken fun args tokens _ result => ?_
    rwa [← List.append_assoc]

theorem argumentItems_succ (climbs : Climbs P fuel) {es : List Expr} {ks : List (String × Expr)}
    {before gap : List Token} (read : ArgumentsRead (.mk es ks) before) (joins : Joins es ks gap) :
    Takes P ctx start (Script.argumentItems ctx .equals es ks (fuel + 1))
      (fun args tokens _ => ArgumentsRead args (before ++ gap ++ tokens)) := by
  obtain ⟨climbedPositional, climbedKeywords, given⟩ := read
  refine (climbs.level ctx start).bind fun e tokens middle isItem => ?_
  refine Takes.require fun item same => ?_
  subst same
  obtain ⟨itemClimbed, itemSpelt, _⟩ := isItem
  refine Takes.peekMark (fun colon isColon colonKind => ?_) ?_
  · rw [if_pos rfl]
    dsimp only
    split
    · rename_i name isVariable
      obtain ⟨token, rfl, names⟩ := itemSpelt.of_variable isVariable
      refine Takes.next isColon (by rw [colonKind]; rfl) fun middle => ?_
      refine (climbs.level ctx middle).bind fun e tokens behind isValue => ?_
      refine Takes.require fun value same => ?_
      subst same
      obtain ⟨valueClimbed, valueSpelt, _⟩ := isValue
      split
      · exact Takes.throw_bind
      · have read : ArgumentsRead (.mk es (ks ++ [(name, value)]))
            (before ++ gap ++ token :: colon :: tokens) :=
          ⟨climbedPositional, by
            simpa [Arguments.keywords, or_imp, forall_and] using
              ⟨fun key e member => climbedKeywords (key, e) member, valueClimbed⟩,
            .keyword given joins names ⟨.colon, colonKind, rfl⟩ valueSpelt⟩
        refine (climbs.moreArguments (.inr (by simp)) read).weaken fun args others _ result => ?_
        simpa using result
    · exact Takes.failExpected_bind
  · rw [if_neg Bool.false_ne_true]
    dsimp only
    split
    · exact Takes.throw_bind
    · rename_i noKeywords
      obtain rfl : ks = [] := by simpa using noKeywords
      have read : ArgumentsRead (.mk (es ++ [item]) []) (before ++ gap ++ tokens) :=
        ⟨by simpa [Arguments.positional, or_imp, forall_and] using ⟨climbedPositional, itemClimbed⟩, nofun,
          .positional given joins itemSpelt⟩
      refine (climbs.moreArguments (.inl (by simp)) read).weaken fun args others _ result => ?_
      simpa using result

end Climbs

/-- The induction is on the fuel: every level is read with one step less by the others. -/
theorem climbs (P : Lexer.State → Prop) [Lexer.Confines P] (fuel : Nat) : Climbs P fuel := by
  induction fuel with
  | zero => constructor <;> intros <;> exact Takes.throw
  | succ fuel ih =>
    exact {
      level := fun _ _ => ih.equals _ _
      comma := fun _ _ => ih.comma_succ
      commaItems := fun _ _ _ _ => ih.commaItems_succ
      equals := fun _ _ => ih.equals_succ
      equalsOperands := fun _ _ _ _ => ih.equalsOperands_succ
      interpolation := fun _ _ => ih.interpolation_succ
      space := fun _ _ => ih.space_succ
      spaceItems := fun _ _ _ _ => ih.spaceItems_succ
      binary := fun _ _ _ => ih.binary_succ
      binaryOperands := fun _ _ _ _ _ => ih.binaryOperands_succ
      unary := fun _ _ => ih.unary_succ
      primary := fun _ _ => ih.primary_succ
      paren := fun _ _ _ => ih.paren_succ
      arguments := fun _ _ => ih.arguments_succ
      argumentItems := fun _ _ _ _ _ _ => ih.argumentItems_succ }

/-- Reading an expression takes the tokens that it is written with. -/
theorem parse_takes {P : Lexer.State → Prop} [Lexer.Confines P] {lines : LineIndex} {c stop : Cursor}
    {stopWords : List String} {e : Expr} (start : P ⟨c, [], false⟩)
    (parsed : parse lines c stopWords = .ok (e, stop)) :
    ∃ tokens, Lexer.Passes lines ⟨c, [], false⟩ tokens ⟨stop, [], false⟩ ∧ P ⟨stop, [], false⟩ ∧
      Read (fun _ => True) e tokens := by
  let ctx : Context := { contextAt lines c with stopWords }
  have reads : Takes P ctx ⟨c, [], false⟩ (do
      let e ← Script.require ctx (← Script.comma ctx (enough c))
      Script.unpeek
      return e) (fun e tokens _ => Read (fun _ => True) e tokens) := by
    refine ((climbs P (enough c)).comma ctx _).bind fun e? tokens middle given => ?_
    refine Takes.require fun e same => ?_
    subst same
    have forget : Takes P ctx middle Script.unpeek (fun _ tokens _ => tokens = []) := by
      rintro s _ _ before ⟨⟩
      exact ⟨[], middle, ⟨before.holds, before.standsAt.unpeek⟩, .stay, rfl⟩
    refine forget.bind ?_
    rintro _ _ stop rfl
    refine .pure ?_
    rwa [List.append_nil, List.append_nil]
  exact Takes.of_runAt reads start parsed

/-- No expression is read over a brace behind a tame text. -/
theorem parse_inFront {lines : LineIndex} {c stop : Cursor} {stopWords : List String} {e : Expr}
    {front behind : List Char} (tame : IsTame front) (isText : c.rest = front ++ '\x7b' :: behind)
    (parsed : parse lines c stopWords = .ok (e, stop)) :
    ∃ left, IsTame left ∧ stop.rest = left ++ '\x7b' :: behind := by
  have start : Lexer.State.IsInFrontOf behind ⟨c, [], false⟩ := ⟨rfl, rfl, front, tame, isText⟩
  obtain ⟨_, -, inFront, -⟩ := parse_takes start parsed
  exact inFront.text

theorem expectEnd_ok {lines : LineIndex} {c : Cursor} {what : String}
    (ended : expectEnd lines c what = .ok ()) :
    ∃ last after, Lexer.next lines ⟨c, [], false⟩ = .ok (last, after) ∧
      last.kind = .endOfInput := by
  obtain ⟨⟨last, ahead⟩, peeked, isEnd⟩ := exists_of_bind_ok ended
  obtain ⟨after, lexed, _⟩ := TokenStream.standsAt_start.of_peek peeked
  refine ⟨last, after, lexed, ?_⟩
  dsimp only at isEnd
  split at isEnd
  · rename_i ends
    unfold Token.isEnd at ends
    split at ends
    · assumption
    · cases ends
  · cases isEnd

end Script

/-- Whatever is read from a text without interpolations is grouped by how tightly the operators
bind, and is made of all the tokens of the text, each of them once and in their order. -/
theorem Expr.climbed_of_parse {source : String} {e : Expr} (plain : Uninterpolated source.toList)
    (parsed : Expr.parse source = .ok e) :
    e.Climbed ∧ ∃ tokens, Lexer.Tokenizes source tokens ∧ Script.Spelt e tokens ∧
      tokens.Pairwise (fun a b => a.span.stop ≤ b.span.start) ∧
      ∀ token ∈ tokens, token.span.start < token.span.stop := by
  obtain ⟨⟨found, rest⟩, read, parsed⟩ := exists_of_bind_ok parsed
  obtain ⟨⟨⟩, ended, same⟩ := exists_of_bind_ok parsed
  cases same
  have start : Lexer.State.IsPlain ⟨Cursor.ofText source, [], false⟩ := ⟨rfl, rfl, plain⟩
  obtain ⟨tokens, passes, -, climbed, spelt, -⟩ := Script.parse_takes start read
  obtain ⟨last, after, lexed, isEnd⟩ := Script.expectEnd_ok ended
  exact ⟨climbed, tokens, ⟨_, last, after, passes, lexed, isEnd⟩, spelt, passes.ordered,
    fun token member => (passes.bounds token member).2⟩

/-- Lists, calls, `=`, signs and operators of several strengths, with every operand a word. -/
theorem Expr.climbed_of_parse_mixed :
    let source := "a + b * -$x == not c, f(d, $k: e = g) (h or i) and j"
    Uninterpolated source.toList ∧ ∃ e, Expr.parse source = .ok e ∧ e.Climbed ∧
      ∃ tokens, Lexer.Tokenizes source tokens ∧ Script.Spelt e tokens ∧
        tokens.Pairwise (fun a b => a.span.stop ≤ b.span.start) ∧
        ∀ token ∈ tokens, token.span.start < token.span.stop := by
  have spelled : "a + b * -$x == not c, f(d, $k: e = g) (h or i) and j".toList = _ :=
    String.toList_ofList
  have plain : Uninterpolated "a + b * -$x == not c, f(d, $k: e = g) (h or i) and j".toList := by
    rw [spelled, Uninterpolated]
    decide +kernel
  have accepted : (Expr.parse "a + b * -$x == not c, f(d, $k: e = g) (h or i) and j").toOption.isSome =
      true := by
    rw [Expr.parse, LineIndex.ofText, Cursor.ofText, spelled]
    decide +kernel
  refine ⟨plain, ?_⟩
  cases parsed : Expr.parse "a + b * -$x == not c, f(d, $k: e = g) (h or i) and j" with
  | error fault =>
    rw [parsed] at accepted
    cases accepted
  | ok e => exact ⟨e, rfl, Expr.climbed_of_parse plain parsed⟩

end Stylesheet
