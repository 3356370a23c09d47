import Stylesheet.Proofs.Except
import Stylesheet.Token.Lexer

/-! Looking ahead. Looking at a token moves the lexer behind it, and all that it moves is kept, so
that it can be undone: looking and giving back leave no trace in what is read. -/

namespace Stylesheet

/-- The state of the lexer in front of a token that was looked at. -/
def Peeked.before (peeked : Peeked) : Lexer.State :=
  ⟨peeked.cursorBefore, peeked.framesBefore, peeked.afterInterpolationBefore⟩

namespace TokenStream

/-- The state in front of all that is not consumed. -/
def place (s : TokenStream) : Lexer.State :=
  match s.peeked with
  | some peeked => peeked.before
  | none => s.state

theorem position_eq (s : TokenStream) : s.position = s.place.cursor := by
  obtain ⟨state, peeked⟩ := s
  cases peeked <;> rfl

theorem afterInterpolation_eq (s : TokenStream) :
    s.afterInterpolation = s.place.afterInterpolation := by
  obtain ⟨state, peeked⟩ := s
  cases peeked <;> rfl

/-- Giving a token back undoes all that looking at it did. -/
theorem unpeek_eq (s : TokenStream) : s.unpeek = ⟨s.place, none⟩ := by
  obtain ⟨state, peeked⟩ := s
  cases peeked <;> rfl

theorem enterInterpolation_eq (s : TokenStream) :
    s.enterInterpolation = ⟨{ s.place with frames := .plain :: s.place.frames }, none⟩ := by
  rw [enterInterpolation, unpeek_eq]

/-- A stream at a place: what it has looked at, if anything, is what is read there. -/
structure StandsAt (lines : LineIndex) (place : Lexer.State) (s : TokenStream) : Prop where
  isPlace : s.place = place
  ahead : ∀ peeked, s.peeked = some peeked → Lexer.next lines place = .ok (peeked.token, s.state)

/-- What can be asked of a stream. -/
inductive Call where
  | peek
  | unpeek
  | next
deriving DecidableEq

/-- A call, with the token that it consumes, if it consumes one. -/
def call (lines : LineIndex) (s : TokenStream) :
    Call → Except Diagnostic (Option Token × TokenStream)
  | .peek => (s.peek lines).map fun (_, after) => (none, after)
  | .unpeek => .ok (none, s.unpeek)
  | .next => (s.next lines).map fun (token, after) => (some token, after)

/-- Calls one after another, with the tokens that they consume; the first that fails ends them. -/
def run (lines : LineIndex) : List Call → TokenStream → Except Diagnostic (List Token × TokenStream)
  | [], s => .ok ([], s)
  | first :: calls, s => do
    let (token, middle) ← s.call lines first
    let (tokens, last) ← run lines calls middle
    return (token.toList ++ tokens, last)

/-- The calls that consume a token. -/
def onlyNext (calls : List Call) : List Call :=
  calls.filter (· == .next)

/-- What a call does at a place: only consuming a token leads to another place. -/
inductive Moves (lines : LineIndex) (place : Lexer.State) :
    Call → Option Token → Lexer.State → Prop where
  | peek : Moves lines place .peek none place
  | unpeek : Moves lines place .unpeek none place
  | next (read : Lexer.next lines place = .ok (token, after)) :
    Moves lines place .next (some token) after

variable {lines : LineIndex} {place : Lexer.State} {s middle last : TokenStream} {token : Token}

theorem standsAt_start : StandsAt lines place ⟨place, none⟩ :=
  ⟨rfl, nofun⟩

namespace StandsAt

/-- The next token is the one at the place, whether it was looked at or not. -/
theorem next_eq (stands : s.StandsAt lines place) :
    s.next lines = (Lexer.next lines place).map fun (token, after) => (token, ⟨after, none⟩) := by
  obtain ⟨state, peeked⟩ := s
  obtain ⟨same, seen⟩ := stands
  cases peeked with
  | none =>
    cases same
    rfl
  | some peeked =>
    rw [seen peeked rfl]
    rfl

/-- Looking shows the same token and stays. -/
theorem of_peek (stands : s.StandsAt lines place) (ran : s.peek lines = .ok (token, middle)) :
    ∃ after, Lexer.next lines place = .ok (token, after) ∧ middle.StandsAt lines place := by
  obtain ⟨state, peeked⟩ := s
  obtain ⟨same, seen⟩ := id stands
  cases peeked with
  | none =>
    cases same
    obtain ⟨⟨token, after⟩, read, result⟩ := exists_of_map_ok ran
    cases result
    refine ⟨after, read, rfl, ?_⟩
    rintro _ ⟨⟩
    exact read
  | some peeked =>
    cases ran
    exact ⟨state, seen peeked rfl, stands⟩

theorem peek_ok {after : Lexer.State} (stands : s.StandsAt lines place)
    (read : Lexer.next lines place = .ok (token, after)) :
    ∃ middle, s.peek lines = .ok (token, middle) ∧ middle.StandsAt lines place := by
  obtain ⟨state, peeked⟩ := s
  obtain ⟨same, seen⟩ := id stands
  cases peeked with
  | none =>
    cases same
    refine ⟨⟨after, some ⟨token, state.cursor, state.frames, state.afterInterpolation⟩⟩, ?_, rfl, ?_⟩
    · change (Lexer.next lines state).map _ = _
      rw [show Lexer.next lines state = _ from read]
      rfl
    · rintro _ ⟨⟩
      exact read
  | some peeked =>
    cases (seen peeked rfl).symm.trans read
    exact ⟨_, rfl, stands⟩

theorem of_next (stands : s.StandsAt lines place) (ran : s.next lines = .ok (token, middle)) :
    ∃ after, Lexer.next lines place = .ok (token, after) ∧ middle = ⟨after, none⟩ := by
  rw [stands.next_eq] at ran
  obtain ⟨⟨token, after⟩, read, same⟩ := exists_of_map_ok ran
  cases same
  exact ⟨after, read, rfl⟩

theorem unpeek (stands : s.StandsAt lines place) : s.unpeek.StandsAt lines place := by
  rw [unpeek_eq, stands.isPlace]
  exact standsAt_start

theorem position (stands : s.StandsAt lines place) : s.position = place.cursor := by
  rw [position_eq, stands.isPlace]

theorem afterInterpolation (stands : s.StandsAt lines place) :
    s.afterInterpolation = place.afterInterpolation := by
  rw [afterInterpolation_eq, stands.isPlace]

end StandsAt

/-- One call keeps a stream at a place, or leads it on to the next. -/
theorem StandsAt.of_call {first : Call} {consumed : Option Token} (stands : s.StandsAt lines place)
    (ran : s.call lines first = .ok (consumed, middle)) :
    ∃ after, Moves lines place first consumed after ∧ middle.StandsAt lines after := by
  cases first with
  | peek =>
    obtain ⟨⟨token, after⟩, peeked, same⟩ := exists_of_map_ok ran
    cases same
    obtain ⟨_, _, there⟩ := stands.of_peek peeked
    exact ⟨place, .peek, there⟩
  | unpeek =>
    cases ran
    exact ⟨place, .unpeek, stands.unpeek⟩
  | next =>
    obtain ⟨⟨token, after⟩, taken, same⟩ := exists_of_map_ok ran
    cases same
    obtain ⟨after, read, rfl⟩ := stands.of_next taken
    exact ⟨after, .next read, standsAt_start⟩

section Runs

variable {calls front back : List Call} {tokens : List Token}

theorem run_cons_ok {first : Call} (ran : s.run lines (first :: calls) = .ok (tokens, last)) :
    ∃ consumed middle others, s.call lines first = .ok (consumed, middle) ∧
      middle.run lines calls = .ok (others, last) ∧ tokens = consumed.toList ++ others := by
  obtain ⟨⟨consumed, middle⟩, called, ran⟩ := exists_of_bind_ok ran
  obtain ⟨⟨others, stop⟩, ran, same⟩ := exists_of_bind_ok ran
  cases same
  exact ⟨consumed, middle, others, called, ran, rfl⟩

/-- A run stops on the way between any two of its calls. -/
theorem run_front (ran : s.run lines (front ++ back) = .ok (tokens, last)) :
    ∃ taken middle, s.run lines front = .ok (taken, middle) := by
  induction front generalizing s tokens with
  | nil => exact ⟨[], s, rfl⟩
  | cons first front ih =>
    obtain ⟨consumed, behind, others, called, ran, -⟩ := run_cons_ok ran
    obtain ⟨taken, middle, ran⟩ := ih ran
    refine ⟨consumed.toList ++ taken, middle, ?_⟩
    rw [run, called]
    change (behind.run lines front >>= _) = _
    rw [ran]
    rfl

/-- Without the calls that look ahead or forget, a run consumes the same tokens and comes to the
same place. -/
theorem StandsAt.run_onlyNext (stands : s.StandsAt lines place)
    (ran : s.run lines calls = .ok (tokens, last)) :
    ∃ stop, run lines (onlyNext calls) ⟨place, none⟩ = .ok (tokens, ⟨stop, none⟩) ∧
      last.StandsAt lines stop := by
  induction calls generalizing s place tokens with
  | nil =>
    cases ran
    exact ⟨place, rfl, stands⟩
  | cons first calls ih =>
    obtain ⟨consumed, middle, others, called, later, rfl⟩ := run_cons_ok ran
    obtain ⟨after, moves, there⟩ := stands.of_call called
    obtain ⟨stop, plain, done⟩ := ih there later
    refine ⟨stop, ?_, done⟩
    cases moves with
    | peek => exact plain
    | unpeek => exact plain
    | @next token _ read =>
      have taken : call lines ⟨place, none⟩ .next = .ok (some token, ⟨after, none⟩) := by
        rw [call, standsAt_start.next_eq, read]
        rfl
      change run lines (.next :: onlyNext calls) _ = _
      rw [run, taken]
      change (run lines (onlyNext calls) ⟨after, none⟩ >>= _) = _
      rw [plain]
      rfl

/-- Whatever calls look ahead or forget in between, the tokens are those of the run that consumes
only; and between any two calls the position, and whether an interpolation was closed in front of
it, are those of that run. -/
theorem lookahead_transparent (ran : run lines calls ⟨place, none⟩ = .ok (tokens, last)) :
    (∃ plain, run lines (onlyNext calls) ⟨place, none⟩ = .ok (tokens, plain)) ∧
      ∀ front back, calls = front ++ back → ∃ taken middle plain,
        run lines front ⟨place, none⟩ = .ok (taken, middle) ∧
        run lines (onlyNext front) ⟨place, none⟩ = .ok (taken, plain) ∧
        middle.position = plain.position ∧
        middle.afterInterpolation = plain.afterInterpolation := by
  constructor
  · obtain ⟨stop, plain, _⟩ := standsAt_start.run_onlyNext ran
    exact ⟨⟨stop, none⟩, plain⟩
  · rintro front back rfl
    obtain ⟨taken, middle, first⟩ := run_front ran
    obtain ⟨stop, plain, there⟩ := standsAt_start.run_onlyNext first
    exact ⟨taken, middle, ⟨stop, none⟩, first, plain, there.position, there.afterInterpolation⟩

/-- A string around an interpolation, each part of which is looked at and given back. -/
theorem lookahead_transparent_of_string :
    let lines := LineIndex.ofText "\"a#\x7b$b\x7dc\""
    let start := TokenStream.ofCursor (Cursor.ofText "\"a#\x7b$b\x7dc\"")
    let calls : List Call := [.peek, .unpeek, .next, .peek, .peek, .next, .unpeek, .peek, .next]
    ∃ tokens last plain, start.run lines calls = .ok (tokens, last) ∧
      start.run lines (onlyNext calls) = .ok (tokens, plain) ∧ tokens.length = 3 := by
  intro lines start calls
  have check : (start.run lines calls).toOption.any (·.1.length == 3) = true := by decide +kernel
  cases ran : start.run lines calls with
  | error fault =>
    rw [ran] at check
    cases check
  | ok result =>
    obtain ⟨tokens, last⟩ := result
    rw [ran] at check
    obtain ⟨plain, only⟩ := (lookahead_transparent ran).1
    exact ⟨tokens, last, plain, rfl, only, beq_iff_eq.mp check⟩

end Runs

end TokenStream

end Stylesheet
