import Stylesheet.Expr.Parser
import Stylesheet.Proofs.Token.Lookahead
import Stylesheet.Proofs.Token.Sequence

/-! What a parser takes: outside of interpolations, the tokens between the place where it starts and
the place where it stops, and nothing else. Where reading tokens does not lead out of some kind of
places, no parser does. -/

namespace Stylesheet

/-- An operator or a piece of punctuation that is written so. -/
def Token.Shows (token : Token) (text : String) : Prop :=
  ∃ mark, token.kind = .mark mark ∧ mark.toText = text

/-- A token that may stand inside of an expression. -/
def Token.Kind.isInside : Token.Kind → Bool
  | .endOfInput | .mark .openBrace => false
  | _ => true

theorem Token.Kind.ne_of_isInside {kind other : Token.Kind} (inside : kind.isInside = true)
    (outside : other.isInside = false) : kind ≠ other := by
  rintro rfl
  rw [inside] at outside
  cases outside

namespace Lexer

/-- Places outside of all interpolations where tokens are plain, and which are left behind an opening
brace only. -/
class Confines (P : State → Prop) : Prop where
  outside {s : State} : P s → s.frames = [] ∧ s.afterInterpolation = false
  next {lines : LineIndex} {s after : State} {token : Token} : P s →
    Lexer.next lines s = .ok (token, after) →
      token.kind.isPlain = true ∧ (token.kind ≠ .mark .openBrace → P after)

instance : Confines State.IsPlain where
  outside plain := ⟨plain.frames, plain.outside⟩
  next plain ran := ⟨(next_isPlain plain ran).1, fun _ => (next_isPlain plain ran).2⟩

instance {behind : List Char} : Confines (State.IsInFrontOf behind) where
  outside inFront := ⟨inFront.frames, inFront.outside⟩
  next := next_isInFrontOf

end Lexer

namespace Script

/-- A stream at a place of some kind. -/
structure Before (P : Lexer.State → Prop) (lines : LineIndex) (place : Lexer.State)
    (s : TokenStream) : Prop where
  holds : P place
  standsAt : s.StandsAt lines place

/-- Wherever a parser succeeds, what it gives is related to the tokens that it takes and to the
place behind them, which is of the same kind as the one in front. -/
def Takes (P : Lexer.State → Prop) (ctx : Context) (start : Lexer.State) (parser : Parser α)
    (p : α → List Token → Lexer.State → Prop) : Prop :=
  ∀ s a after, Before P ctx.lines start s → parser s = .ok (a, after) →
    ∃ tokens stop, Before P ctx.lines stop after ∧ Lexer.Passes ctx.lines start tokens stop ∧
      p a tokens stop

section Rules

variable {P : Lexer.State → Prop} {ctx : Context} {start : Lexer.State}
  {p : α → List Token → Lexer.State → Prop}

theorem Takes.pure {a : α} (holds : p a [] start) : Takes P ctx start (Pure.pure a) p := by
  intro s b after before ran
  cases ran
  exact ⟨[], start, before, .stay, holds⟩

theorem Takes.throw {fault : Diagnostic} : Takes P ctx start (MonadExcept.throw fault) p := by
  intro s a after before ran
  cases ran

theorem Takes.throw_bind {fault : Diagnostic} {next : β → Parser α} :
    Takes P ctx start (MonadExcept.throw fault >>= next) p := by
  intro s a after before ran
  cases ran

theorem Takes.bind {parser : Parser β} {next : β → Parser α}
    {between : β → List Token → Lexer.State → Prop} (first : Takes P ctx start parser between)
    (behind : ∀ b tokens middle, between b tokens middle →
      Takes P ctx middle (next b) (fun a others stop => p a (tokens ++ others) stop)) :
    Takes P ctx start (parser >>= next) p := by
  intro s a after before ran
  obtain ⟨⟨b, middle⟩, found, ran⟩ := exists_of_bind_ok
    (show (parser s >>= fun result => next result.1 result.2) = .ok (a, after) from ran)
  obtain ⟨tokens, place, between, passes, holds⟩ := first s b middle before found
  obtain ⟨others, stop, done, others_pass, result⟩ :=
    behind b tokens place holds middle a after between ran
  exact ⟨tokens ++ others, stop, done, passes.trans others_pass, result⟩

theorem Takes.weaken {parser : Parser α} {q : α → List Token → Lexer.State → Prop}
    (takes : Takes P ctx start parser p) (implies : ∀ a tokens stop, p a tokens stop → q a tokens stop) :
    Takes P ctx start parser q := by
  intro s a after before ran
  obtain ⟨tokens, stop, done, passes, holds⟩ := takes s a after before ran
  exact ⟨tokens, stop, done, passes, implies a tokens stop holds⟩

theorem Takes.map {parser : Parser β} {f : β → α} {q : β → List Token → Lexer.State → Prop}
    (takes : Takes P ctx start parser q)
    (implies : ∀ b tokens stop, q b tokens stop → p (f b) tokens stop) :
    Takes P ctx start (f <$> parser) p := by
  intro s a after before ran
  obtain ⟨⟨b, middle⟩, found, same⟩ := exists_of_bind_ok
    (show (parser s >>= fun result => .ok (f result.1, result.2)) = .ok (a, after) from ran)
  cases same
  obtain ⟨tokens, stop, done, passes, holds⟩ := takes s b _ before found
  exact ⟨tokens, stop, done, passes, implies b tokens stop holds⟩

variable [Lexer.Confines P]

/-- The next token at a place. -/
def Next (ctx : Context) (start : Lexer.State) (token : Token) : Prop :=
  ∃ after, Lexer.next ctx.lines start = .ok (token, after)

theorem Takes.peek {next : Token → Parser α}
    (behind : ∀ token, Next ctx start token → token.kind.isPlain = true →
      Takes P ctx start (next token) p) : Takes P ctx start (peek ctx >>= next) p := by
  have look : Takes P ctx start (Script.peek ctx) (fun token tokens middle =>
      tokens = [] ∧ middle = start ∧ Next ctx start token ∧ token.kind.isPlain = true) := by
    intro s token after before ran
    obtain ⟨_, found, stands⟩ := before.standsAt.of_peek ran
    exact ⟨[], start, ⟨before.holds, stands⟩, .stay, rfl, rfl, ⟨_, found⟩,
      (Lexer.Confines.next before.holds found).1⟩
  refine look.bind ?_
  rintro token _ _ ⟨rfl, rfl, isNext, plain⟩
  exact behind token isNext plain

theorem Next.unique {token other : Token} {after : Lexer.State} (isNext : Next ctx start token)
    (ran : Lexer.next ctx.lines start = .ok (other, after)) : other = token := by
  obtain ⟨_, found⟩ := isNext
  rw [ran] at found
  cases found
  rfl

theorem Before.next_ok {s after : TokenStream} {token : Token} (before : Before P ctx.lines start s)
    (ran : Script.next ctx s = .ok (token, after)) (inside : token.kind.isInside = true) :
    ∃ middle, Lexer.next ctx.lines start = .ok (token, middle) ∧
      Before P ctx.lines middle after := by
  obtain ⟨middle, found, rfl⟩ := before.standsAt.of_next ran
  have stays := (Lexer.Confines.next before.holds found).2
  exact ⟨middle, found, stays (Token.Kind.ne_of_isInside inside rfl), TokenStream.standsAt_start⟩

theorem Takes.next {token : Token} {next : Token → Parser α} (isNext : Next ctx start token)
    (inside : token.kind.isInside = true)
    (behind : ∀ middle, Takes P ctx middle (next token)
      (fun a tokens stop => p a (token :: tokens) stop)) :
    Takes P ctx start (Script.next ctx >>= next) p := by
  have takes : Takes P ctx start (Script.next ctx)
      (fun other tokens _ => other = token ∧ tokens = [token]) := by
    intro s other after before ran
    obtain ⟨_, lexed, _⟩ := before.standsAt.of_next ran
    obtain rfl := isNext.unique lexed
    obtain ⟨middle, found, done⟩ := before.next_ok ran inside
    exact ⟨[other], middle, done,
      .take found (Token.Kind.ne_of_isInside inside rfl) .stay, rfl, rfl⟩
  refine takes.bind ?_
  rintro _ _ middle ⟨rfl, rfl⟩
  exact behind middle

theorem Takes.failExpected_bind {what : String} {next : β → Parser α} :
    Takes P ctx start (failExpected ctx what >>= next) p := by
  have fails : Takes P ctx start (failExpected ctx what) (fun (_ : β) _ _ => False) :=
    Takes.peek fun _ _ _ => .throw
  exact fails.bind fun _ _ _ => False.elim

theorem Takes.require {e? : Option Expr} {next : Expr → Parser α}
    (behind : ∀ e, e? = some e → Takes P ctx start (next e) p) :
    Takes P ctx start (require ctx e? >>= next) p := by
  cases e? with
  | none => exact Takes.failExpected_bind
  | some e => exact behind e rfl

theorem isMark_iff {token : Token} {mark : Mark} :
    token.isMark mark = true ↔ token.kind = .mark mark := by
  unfold Token.isMark
  split
  · rename_i kind
    simp [kind]
  · rename_i other
    simpa using fun kind => other mark kind

theorem Takes.peekMark {mark : Mark} {next : Bool → Parser α}
    (yes : ∀ token, Next ctx start token → token.kind = .mark mark → Takes P ctx start (next true) p)
    (no : Takes P ctx start (next false) p) :
    Takes P ctx start (peekMark ctx mark >>= next) p := by
  have look : Takes P ctx start (Script.peekMark ctx mark) (fun isMark tokens middle =>
      tokens = [] ∧ middle = start ∧ ∃ token, Next ctx start token ∧ isMark = token.isMark mark) :=
    Takes.peek fun token isNext _ => .pure ⟨rfl, rfl, token, isNext, rfl⟩
  refine look.bind ?_
  rintro _ _ _ ⟨rfl, rfl, token, isNext, rfl⟩
  cases isMark : token.isMark mark with
  | false => exact no
  | true => exact yes token isNext (isMark_iff.mp isMark)

theorem Takes.atInterpolation {next : Bool → Parser α} (behind : Takes P ctx start (next false) p) :
    Takes P ctx start (atInterpolation ctx >>= next) p := by
  have look : Takes P ctx start (Script.atInterpolation ctx) (fun opens tokens middle =>
      tokens = [] ∧ middle = start ∧ opens = false) := by
    refine Takes.peek fun token _ plain => .pure ⟨rfl, rfl, ?_⟩
    unfold Token.beginsInterpolation
    split
    · rename_i kind
      rw [kind] at plain
      cases plain
    · rfl
  refine look.bind ?_
  rintro _ _ _ ⟨rfl, rfl, rfl⟩
  exact behind

theorem Takes.markAfterInterpolation {l : Level} {fuel : Nat} {next : Option Expr → Parser α}
    (behind : Takes P ctx start (next none) p) :
    Takes P ctx start (markAfterInterpolation ctx l fuel >>= next) p := by
  cases fuel with
  | zero => exact Takes.throw_bind
  | succ fuel =>
    have skips : Takes P ctx start (Script.markAfterInterpolation ctx l (fuel + 1))
        (fun e tokens middle => e = none ∧ tokens = [] ∧ middle = start) := by
      intro s e after before ran
      have outside : s.afterInterpolation = false := by
        rw [before.standsAt.afterInterpolation, (Lexer.Confines.outside before.holds).2]
      unfold Script.markAfterInterpolation at ran
      simp only [Bind.bind, StateT.bind, Except.bind, get, getThe, MonadStateOf.get, StateT.get,
        Pure.pure, Except.pure, outside] at ran
      cases ran
      exact ⟨[], start, before, .stay, rfl, rfl, rfl⟩
    refine skips.bind ?_
    rintro _ _ _ ⟨rfl, rfl, rfl⟩
    exact behind

theorem Takes.expectMark {mark : Mark} {what : String}
    (inside : (Token.Kind.mark mark).isInside = true) :
    Takes P ctx start (expectMark ctx mark what)
      (fun token tokens _ => token.Shows mark.toText ∧ tokens = [token]) := by
  intro s token after before ran
  simp only [Script.expectMark, Bind.bind, StateT.bind, Except.bind] at ran
  cases took : Script.next ctx s with
  | error fault =>
    rw [took] at ran
    cases ran
  | ok result =>
    obtain ⟨found, behind⟩ := result
    rw [took] at ran
    dsimp only at ran
    split at ran
    · rename_i isMark
      cases ran
      have kind := isMark_iff.mp isMark
      obtain ⟨middle, lexed, done⟩ := before.next_ok took (kind ▸ inside)
      exact ⟨[token], middle, done, .take lexed (by rw [kind]; exact nofun) .stay,
        ⟨mark, kind, rfl⟩, rfl⟩
    · cases ran

/-- What a parser takes from the start of a text. -/
theorem Takes.of_runAt {parser : Parser α} {c stop : Cursor} {a : α} {p : α → List Token → Prop}
    (takes : Takes P ctx ⟨c, [], false⟩ parser fun a tokens _ => p a tokens)
    (start : P ⟨c, [], false⟩) (ran : runAt c parser = .ok (a, stop)) :
    ∃ tokens, Lexer.Passes ctx.lines ⟨c, [], false⟩ tokens ⟨stop, [], false⟩ ∧
      P ⟨stop, [], false⟩ ∧ p a tokens := by
  obtain ⟨⟨b, s⟩, found, same⟩ := exists_of_map_ok ran
  cases same
  obtain ⟨tokens, place, before, passes, holds⟩ :=
    takes _ _ s ⟨start, TokenStream.standsAt_start⟩ found
  obtain ⟨cursor, frames, afterInterpolation⟩ := place
  obtain ⟨rfl, rfl⟩ := Lexer.Confines.outside before.holds
  rw [before.standsAt.position]
  exact ⟨tokens, passes, before.holds, holds⟩

end Rules

end Script

end Stylesheet
