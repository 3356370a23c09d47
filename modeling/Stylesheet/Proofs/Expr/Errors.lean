import Stylesheet.Expr.Parser
import Stylesheet.Proofs.Except
import Stylesheet.Proofs.Source.Cursor
import Stylesheet.Proofs.Token.Lookahead

/-! Reading tokens and expressions fails with errors only: what fails is the fault of the
stylesheet. -/

namespace Stylesheet

/-- A result that is an error of the stylesheet if it is a failure. -/
def Blames (result : Except Diagnostic α) : Prop :=
  ∀ d, result = .error d → d.severity = .error

namespace Blames

theorem ok {a : α} : Blames (.ok a) :=
  nofun

theorem error {d : Diagnostic} (isError : d.severity = .error) :
    Blames (.error d : Except Diagnostic α) := by
  rintro _ ⟨⟩
  exact isError

theorem bind {first : Except Diagnostic α} {next : α → Except Diagnostic β}
    (blames : Blames first) (behind : ∀ a, Blames (next a)) : Blames (first >>= next) := by
  intro d failed
  cases found : first with
  | error fault =>
    rw [found] at failed
    cases failed
    exact blames d found
  | ok a =>
    rw [found] at failed
    exact behind a d failed

theorem map {result : Except Diagnostic α} {f : α → β} (blames : Blames result) :
    Blames (result.map f) := by
  intro d failed
  cases found : result with
  | error fault =>
    rw [found] at failed
    cases failed
    exact blames d found
  | ok a =>
    rw [found] at failed
    cases failed

end Blames

/-- A result that is an error of the stylesheet, or else comes with a state with a property. -/
def Settles (P : σ → Prop) (result : Except Diagnostic (α × σ)) : Prop :=
  Blames result ∧ ∀ a s, result = .ok (a, s) → P s

theorem Settles.ok {P : σ → Prop} {a : α} {s : σ} (holds : P s) :
    Settles P (.ok (a, s) : Except Diagnostic (α × σ)) := by
  refine ⟨.ok, ?_⟩
  rintro _ _ ⟨⟩
  exact holds

theorem Settles.error {P : σ → Prop} {d : Diagnostic} (isError : d.severity = .error) :
    Settles P (.error d : Except Diagnostic (α × σ)) :=
  ⟨.error isError, nofun⟩

/-- A reader that keeps a property of the state and fails with errors of the stylesheet only. -/
def Runs (P : σ → Prop) (reader : StateT σ (Except Diagnostic) α) : Prop :=
  ∀ s, P s → Settles P (reader s)

namespace Runs

variable {σ : Type} {P : σ → Prop}

theorem pure {a : α} : Runs P (Pure.pure a : StateT σ (Except Diagnostic) α) :=
  fun _ => .ok

theorem throw {d : Diagnostic} (isError : d.severity = .error) :
    Runs P (MonadExcept.throw d : StateT σ (Except Diagnostic) α) :=
  fun _ _ => .error isError

theorem bind {reader : StateT σ (Except Diagnostic) α} {next : α → StateT σ (Except Diagnostic) β}
    (runs : Runs P reader) (behind : ∀ a, Runs P (next a)) : Runs P (reader >>= next) := by
  intro s holds
  obtain ⟨blames, keeps⟩ := runs s holds
  simp only [Bind.bind, StateT.bind, Except.bind]
  cases found : reader s with
  | error d => exact .error (blames d found)
  | ok result => exact behind result.1 result.2 (keeps _ _ found)

theorem map {reader : StateT σ (Except Diagnostic) α} {f : α → β} (runs : Runs P reader) :
    Runs P (f <$> reader) :=
  runs.bind fun _ => .pure

theorem get_bind {next : σ → StateT σ (Except Diagnostic) α} (behind : ∀ s, P s → Runs P (next s)) :
    Runs P (MonadState.get >>= next) :=
  fun s holds => behind s holds s holds

theorem update {f : σ → σ} (keeps : ∀ s, P s → P (f s)) :
    Runs P (modify f : StateT σ (Except Diagnostic) PUnit) :=
  fun s holds => .ok (keeps s holds)

end Runs

namespace Lexer

variable {lines : LineIndex} {c : Cursor} {frames : List Frame}

theorem stringStep_blames {quote : Char} {isFirst : Bool} :
    Blames (stringStep lines c frames quote isFirst) := by
  unfold stringStep
  split
  · exact .error rfl
  · exact .ok

theorem rawStep_blames {skip depth : Nat} {isFirst : Bool} :
    Blames (rawStep lines c frames skip depth isFirst) := by
  unfold rawStep
  split
  · exact .error rfl
  · exact .ok

theorem braceStep_blames : Blames (braceStep lines c frames) := by
  unfold braceStep
  split
  · exact .ok
  · exact .ok
  · exact stringStep_blames
  · exact rawStep_blames

theorem wordStep_blames {spaceBefore : Bool} : Blames (wordStep lines c frames spaceBefore) := by
  have unexpected : Blames (.error (unexpectedCharacter lines c) : Except Diagnostic Step) :=
    .error rfl
  unfold wordStep
  dsimp only
  repeat' split
  all_goals first | exact .ok | exact unexpected | exact rawStep_blames

theorem step_blames {spaceBefore : Bool} : Blames (step lines c frames spaceBefore) := by
  unfold step
  repeat' split
  all_goals
    first
    | exact .ok
    | exact .error rfl
    | exact stringStep_blames
    | exact braceStep_blames
    | exact wordStep_blames

theorem next_blames {s : State} : Blames (next lines s) := by
  unfold next
  split
  · exact .error rfl
  · exact step_blames.map

/-- Behind a token lies a place further on. -/
theorem next_onward {P : Cursor → Prop} [Onward P] {s after : State} {token : Token}
    (here : P s.cursor) (found : next lines s = .ok (token, after)) : P after.cursor := by
  unfold next at found
  split at found
  · cases found
  · rename_i blanks _
    obtain ⟨taken, _, same⟩ := exists_of_map_ok found
    cases same
    exact Onward.advance (Onward.advance here blanks) taken.count

end Lexer

namespace Script

variable {P : Cursor → Prop} [Onward P] {ctx : Context}

/-- The place of a stream and that behind the token that was looked at have a property. -/
structure Stands (P : Cursor → Prop) (s : TokenStream) : Prop where
  here : P s.place.cursor
  ahead : P s.state.cursor

/-- A parser that fails with errors of the stylesheet only, at places with a property. -/
abbrev Sound (P : Cursor → Prop) (parser : Parser α) : Prop :=
  Runs (Stands P) parser

omit [Onward P] in
theorem Stands.unpeek {s : TokenStream} (stands : Stands P s) : Stands P s.unpeek := by
  rw [TokenStream.unpeek_eq]
  exact ⟨stands.here, stands.here⟩

omit [Onward P] in
theorem Stands.enterInterpolation {s : TokenStream} (stands : Stands P s) :
    Stands P s.enterInterpolation := by
  rw [TokenStream.enterInterpolation_eq]
  exact ⟨stands.here, stands.here⟩

theorem peek_sound : Sound P (peek ctx) := by
  rintro ⟨state, peeked⟩ stands
  cases peeked with
  | some peeked => exact .ok stands
  | none =>
    unfold peek TokenStream.peek
    cases found : Lexer.next ctx.lines state with
    | error d => exact .error (Lexer.next_blames d found)
    | ok result => exact .ok ⟨stands.here, Lexer.next_onward stands.here found⟩

theorem next_sound : Sound P (next ctx) := by
  rintro ⟨state, peeked⟩ stands
  cases peeked with
  | some peeked => exact .ok ⟨stands.ahead, stands.ahead⟩
  | none =>
    unfold next TokenStream.next
    cases found : Lexer.next ctx.lines state with
    | error d => exact .error (Lexer.next_blames d found)
    | ok result =>
      have onward := Lexer.next_onward stands.here found
      exact .ok ⟨onward, onward⟩

theorem failExpected_sound {what : String} : Sound P (failExpected ctx what : Parser α) :=
  peek_sound.bind fun _ => .throw rfl

theorem require_sound {e : Option Expr} : Sound P (require ctx e) := by
  cases e with
  | none => exact failExpected_sound
  | some e => exact .pure

theorem peekMark_sound {mark : Mark} : Sound P (peekMark ctx mark) :=
  peek_sound.bind fun _ => .pure

theorem atInterpolation_sound : Sound P (atInterpolation ctx) :=
  peek_sound.bind fun _ => .pure

theorem eatMark_sound {mark : Mark} : Sound P (eatMark ctx mark) := by
  refine peekMark_sound.bind fun isMark => ?_
  split
  · exact next_sound.bind fun _ => .pure
  · exact .pure

theorem expectMark_sound {mark : Mark} {what : String} :
    Sound P (expectMark ctx mark what) := by
  refine next_sound.bind fun token => ?_
  split
  · exact .pure
  · exact .throw rfl

/-- All levels blame the stylesheet for their failures. -/
structure LevelsSound (P : Cursor → Prop) (fuel : Nat) : Prop where
  level : ∀ ctx l, Sound P (level ctx l fuel)
  comma : ∀ ctx, Sound P (comma ctx fuel)
  commaItems : ∀ ctx items, Sound P (commaItems ctx items fuel)
  equals : ∀ ctx, Sound P (equals ctx fuel)
  equalsOperands : ∀ ctx left, Sound P (equalsOperands ctx left fuel)
  interpolation : ∀ ctx, Sound P (interpolation ctx fuel)
  interpolationStep : ∀ ctx before, Sound P (interpolationStep ctx before fuel)
  interpolationChain : ∀ ctx e, Sound P (interpolationChain ctx e fuel)
  interpolationBody : ∀ ctx, Sound P (interpolationBody ctx fuel)
  markAfterInterpolation : ∀ ctx l, Sound P (markAfterInterpolation ctx l fuel)
  markBeforeInterpolation : ∀ ctx token previous,
    Sound P (markBeforeInterpolation ctx token previous fuel)
  space : ∀ ctx, Sound P (space ctx fuel)
  spaceItems : ∀ ctx items, Sound P (spaceItems ctx items fuel)
  binary : ∀ ctx least, Sound P (binary ctx least fuel)
  binaryOperands : ∀ ctx least left, Sound P (binaryOperands ctx least left fuel)
  unary : ∀ ctx, Sound P (unary ctx fuel)
  primary : ∀ ctx, Sound P (primary ctx fuel)
  paren : ∀ ctx, Sound P (paren ctx fuel)
  textParts : ∀ ctx parts, Sound P (textParts ctx parts fuel)
  arguments : ∀ ctx l, Sound P (arguments ctx l fuel)
  argumentItems : ∀ ctx l positional keywords,
    Sound P (argumentItems ctx l positional keywords fuel)

namespace LevelsSound

variable {fuel : Nat}

omit [Onward P] in
theorem comma_succ (sound : LevelsSound P fuel) : Sound P (Script.comma ctx (fuel + 1)) := by
  refine (sound.markAfterInterpolation ctx _).bind fun found => ?_
  split
  · exact .pure
  · refine (sound.equals ctx).bind fun first => ?_
    split
    · exact .pure
    · exact (sound.commaItems ctx _).map

theorem commaItems_succ (sound : LevelsSound P fuel) (items : List Expr) :
    Sound P (Script.commaItems ctx items (fuel + 1)) := by
  refine peekMark_sound.bind fun isMark => ?_
  split
  · refine next_sound.bind fun token => atInterpolation_sound.bind fun opens => ?_
    split
    · exact sound.markBeforeInterpolation ctx _ _
    · exact (sound.equals ctx).bind fun e => require_sound.bind fun item =>
        sound.commaItems ctx _
  · exact .pure

omit [Onward P] in
theorem equals_succ (sound : LevelsSound P fuel) : Sound P (Script.equals ctx (fuel + 1)) := by
  refine (sound.markAfterInterpolation ctx _).bind fun found => ?_
  split
  · exact .pure
  · refine (sound.interpolation ctx).bind fun first => ?_
    split
    · exact .pure
    · exact (sound.equalsOperands ctx _).map

theorem equalsOperands_succ (sound : LevelsSound P fuel) (left : Expr) :
    Sound P (Script.equalsOperands ctx left (fuel + 1)) := by
  refine peekMark_sound.bind fun isMark => ?_
  split
  · refine next_sound.bind fun token => atInterpolation_sound.bind fun opens => ?_
    split
    · exact sound.markBeforeInterpolation ctx _ _
    · exact (sound.interpolation ctx).bind fun e => require_sound.bind fun right =>
        sound.equalsOperands ctx _
  · exact .pure

theorem interpolation_succ (sound : LevelsSound P fuel) :
    Sound P (Script.interpolation ctx (fuel + 1)) := by
  refine (sound.space ctx).bind fun first => atInterpolation_sound.bind fun opens => ?_
  split
  · exact (sound.interpolationStep ctx _).bind fun e => (sound.interpolationChain ctx e).map
  · exact .pure

theorem interpolationStep_succ (sound : LevelsSound P fuel) (before : Option Expr) :
    Sound P (Script.interpolationStep ctx before (fuel + 1)) :=
  next_sound.bind fun _ => (sound.interpolationBody ctx).bind fun _ =>
    Runs.get_bind fun _ _ => (sound.space ctx).bind fun _ => .pure

theorem interpolationChain_succ (sound : LevelsSound P fuel) (e : Expr) :
    Sound P (Script.interpolationChain ctx e (fuel + 1)) := by
  refine atInterpolation_sound.bind fun opens => ?_
  split
  · exact (sound.interpolationStep ctx _).bind fun e => sound.interpolationChain ctx e
  · exact .pure

theorem interpolationBody_succ (sound : LevelsSound P fuel) :
    Sound P (Script.interpolationBody ctx (fuel + 1)) := by
  refine (sound.comma ctx).bind fun e => require_sound.bind fun e => next_sound.bind
    fun close => ?_
  split
  · exact .pure
  · exact .throw rfl

theorem markAfterInterpolation_succ (sound : LevelsSound P fuel) (l : Level) :
    Sound P (Script.markAfterInterpolation ctx l (fuel + 1)) := by
  refine Runs.get_bind fun s _ => ?_
  split
  · exact .pure
  · refine peek_sound.bind fun token => ?_
    split
    · exact .pure
    · refine next_sound.bind fun token => atInterpolation_sound.bind fun opens => ?_
      split
      · exact (sound.markBeforeInterpolation ctx _ _).map
      · exact Runs.get_bind fun _ _ => (sound.level ctx _).bind fun _ =>
          require_sound.bind fun _ => .pure

omit [Onward P] in
theorem space_succ (sound : LevelsSound P fuel) : Sound P (Script.space ctx (fuel + 1)) := by
  refine (sound.binary ctx 1).bind fun first => ?_
  split
  · exact .pure
  · exact (sound.spaceItems ctx _).map

omit [Onward P] in
theorem spaceItems_succ (sound : LevelsSound P fuel) (items : List Expr) :
    Sound P (Script.spaceItems ctx items (fuel + 1)) := by
  refine (sound.binary ctx 1).bind fun item => ?_
  split
  · exact sound.spaceItems ctx _
  · exact .pure

omit [Onward P] in
theorem binary_succ (sound : LevelsSound P fuel) (least : Nat) :
    Sound P (Script.binary ctx least (fuel + 1)) := by
  refine (sound.markAfterInterpolation ctx _).bind fun found => ?_
  split
  · exact .pure
  · refine (sound.unary ctx).bind fun left => ?_
    split
    · exact .pure
    · exact (sound.binaryOperands ctx _ _).map

theorem binaryOperands_succ (sound : LevelsSound P fuel) (least : Nat) (left : Expr) :
    Sound P (Script.binaryOperands ctx least left (fuel + 1)) := by
  refine peek_sound.bind fun token => ?_
  split
  · exact .pure
  · split
    · exact .pure
    · refine next_sound.bind fun token => atInterpolation_sound.bind fun opens => ?_
      split
      · exact sound.markBeforeInterpolation ctx _ _
      · exact (sound.binary ctx _).bind fun e => require_sound.bind fun right =>
          sound.binaryOperands ctx _ _

theorem unary_succ (sound : LevelsSound P fuel) : Sound P (Script.unary ctx (fuel + 1)) := by
  refine peek_sound.bind fun token => ?_
  split
  · exact sound.primary ctx
  · refine next_sound.bind fun token => atInterpolation_sound.bind fun opens => ?_
    split
    · exact (sound.markBeforeInterpolation ctx _ _).map
    · exact (sound.unary ctx).bind fun e => require_sound.bind fun operand => .pure

theorem primary_succ (sound : LevelsSound P fuel) :
    Sound P (Script.primary ctx (fuel + 1)) := by
  have literal : ∀ v : Value, Sound P (do
      let token ← Script.next ctx
      return some (Expr.literal v token.line token.span)) :=
    fun _ => next_sound.bind fun _ => .pure
  refine peek_sound.bind fun token => ?_
  dsimp only
  split
  · exact next_sound.bind fun _ => (sound.arguments ctx _).bind fun _ =>
      expectMark_sound.bind fun _ => .pure
  · exact literal _
  · exact next_sound.bind fun _ => (sound.textParts ctx _).bind fun _ => .pure
  · exact (sound.paren ctx).map
  · exact next_sound.bind fun _ => .pure
  · exact literal _
  · exact literal _
  · exact literal _
  · split
    · exact .pure
    · exact literal _
  · exact literal _
  · exact .pure

theorem paren_succ (sound : LevelsSound P fuel) : Sound P (Script.paren ctx (fuel + 1)) :=
  next_sound.bind fun _ => (sound.comma _).bind fun _ => expectMark_sound.bind fun _ => .pure

theorem textParts_succ (sound : LevelsSound P fuel) (parts : List Part) :
    Sound P (Script.textParts ctx parts (fuel + 1)) := by
  refine (sound.comma ctx).bind fun _ => require_sound.bind fun _ => next_sound.bind
    fun token => ?_
  split
  · exact sound.textParts ctx _
  · exact .pure
  · exact .throw rfl

theorem arguments_succ (sound : LevelsSound P fuel) (l : Level) :
    Sound P (Script.arguments ctx l (fuel + 1)) := by
  refine peekMark_sound.bind fun closes => ?_
  split
  · exact .pure
  · exact sound.argumentItems ctx _ _ _

theorem argumentItems_succ (sound : LevelsSound P fuel) (l : Level) (positional : List Expr)
    (keywords : List (String × Expr)) :
    Sound P (Script.argumentItems ctx l positional keywords (fuel + 1)) := by
  have more : ∀ given : List Expr × List (String × Expr), Sound P (do
      if ← eatMark ctx .comma then Script.argumentItems ctx l given.1 given.2 fuel
      else return Arguments.mk given.1 given.2) := by
    intro given
    refine eatMark_sound.bind fun ate => ?_
    split
    · exact sound.argumentItems ctx l _ _
    · exact .pure
  refine (sound.level ctx l).bind fun e => require_sound.bind fun e => peekMark_sound.bind
    fun named => ?_
  dsimp only
  split
  · split
    · refine next_sound.bind fun _ => (sound.level ctx l).bind fun _ => require_sound.bind
        fun value => ?_
      split
      · exact Runs.bind (.throw rfl) more
      · exact Runs.bind .pure more
    · exact failExpected_sound.bind more
  · split
    · exact Runs.bind (.throw rfl) more
    · exact Runs.bind .pure more

end LevelsSound

theorem levels_sound (fuel : Nat) : LevelsSound P fuel := by
  induction fuel with
  | zero => constructor <;> intros <;> exact .throw rfl
  | succ fuel ih =>
    refine {
      level := fun ctx l => ?_
      comma := fun _ => ih.comma_succ
      commaItems := fun _ => ih.commaItems_succ
      equals := fun _ => ih.equals_succ
      equalsOperands := fun _ => ih.equalsOperands_succ
      interpolation := fun _ => ih.interpolation_succ
      interpolationStep := fun _ => ih.interpolationStep_succ
      interpolationChain := fun _ => ih.interpolationChain_succ
      interpolationBody := fun _ => ih.interpolationBody_succ
      markAfterInterpolation := fun _ => ih.markAfterInterpolation_succ
      markBeforeInterpolation := fun ctx _ _ => ih.interpolationChain ctx _
      space := fun _ => ih.space_succ
      spaceItems := fun _ => ih.spaceItems_succ
      binary := fun _ => ih.binary_succ
      binaryOperands := fun _ => ih.binaryOperands_succ
      unary := fun _ => ih.unary_succ
      primary := fun _ => ih.primary_succ
      paren := fun _ => ih.paren_succ
      textParts := fun _ => ih.textParts_succ
      arguments := fun _ => ih.arguments_succ
      argumentItems := fun _ => ih.argumentItems_succ }
    cases l with
    | comma => exact ih.comma ctx
    | equals => exact ih.equals ctx
    | space => exact ih.space ctx
    | binary least => exact ih.binary ctx least

section Readers

variable {lines : LineIndex} {c : Cursor}

omit [Onward P] in
theorem runAt_settles {parser : Parser α} (sound : Sound P parser) (here : P c) :
    Settles P (runAt c parser) := by
  obtain ⟨blames, keeps⟩ := sound (TokenStream.ofCursor c) ⟨here, here⟩
  unfold runAt
  cases ran : parser.run (TokenStream.ofCursor c) with
  | error d => exact .error (blames d ran)
  | ok result =>
    refine .ok ?_
    rw [TokenStream.position_eq]
    exact (keeps _ _ ran).here

theorem parse_settles {stopWords : List String} (here : P c) :
    Settles P (parse lines c stopWords) :=
  runAt_settles (((levels_sound _).comma _).bind fun _ => require_sound.bind fun _ =>
    (Runs.update fun _ stands => stands.unpeek).bind fun _ => .pure) here

theorem parseInterpolation_settles (here : P c) : Settles P (parseInterpolation lines c) :=
  runAt_settles ((Runs.update fun _ stands => stands.enterInterpolation).bind fun _ =>
    (levels_sound _).interpolationBody _) here

theorem parseArguments_settles (here : P c) : Settles P (parseArguments lines c) := by
  refine runAt_settles (eatMark_sound.bind fun opens => ?_) here
  split
  · exact ((levels_sound _).arguments _ _).bind fun _ => expectMark_sound.bind fun _ => .pure
  · exact (Runs.update fun _ stands => stands.unpeek).bind fun _ => .pure

theorem paramItems_sound {ctx : Context} (params : List Param) (fuel : Nat) :
    Sound P (paramItems ctx params fuel) := by
  induction fuel generalizing params with
  | zero => exact .throw rfl
  | succ fuel ih =>
    have more : ∀ params : List Param, Sound P (do
        if ← eatMark ctx .comma then paramItems ctx params fuel else return params) := by
      intro params
      refine eatMark_sound.bind fun ate => ?_
      split
      · exact ih params
      · exact .pure
    have given : Sound P (do require ctx (← space ctx (enough ctx.origin))) :=
      ((levels_sound _).space ctx).bind fun _ => require_sound
    refine next_sound.bind fun token => ?_
    split
    · refine eatMark_sound.bind fun colon => ?_
      dsimp only
      split
      rotate_left
      refine eatMark_sound.bind ?_
      rotate_left
      refine Runs.bind .pure ?_
      -- Both ways the default is read next, if there is one.
      all_goals
        intro isOptional
        split
        · exact given.map.bind fun _ => more _
        · split
          · exact Runs.bind (.throw rfl) fun _ => more _
          · exact Runs.bind .pure fun _ => more _
    · exact .throw rfl

theorem parseParams_settles {needParens : Bool} (here : P c) :
    Settles P (parseParams lines c needParens) := by
  refine runAt_settles (eatMark_sound.bind fun opens => ?_) here
  split
  · refine eatMark_sound.bind fun closes => ?_
    split
    · exact .pure
    · exact (paramItems_sound _ _).bind fun _ => expectMark_sound.bind fun _ => .pure
  · split
    · exact failExpected_sound
    · exact (Runs.update fun _ stands => stands.unpeek).bind fun _ => .pure

end Readers

end Script

end Stylesheet
