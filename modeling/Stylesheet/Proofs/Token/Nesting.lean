import Stylesheet.Proofs.Source.Places
import Stylesheet.Proofs.Token.Lookahead
import Stylesheet.Proofs.Token.Sequence

/-! The tokens of a part of a text. They stand in it one behind the other, what one of them opens is
closed in turn by a token of its kind, and after no more of them than the part has bytes reading
ends. -/

namespace Stylesheet

namespace Token

/-- What a token opens: an interpolation in plain text, or a text that goes on behind one, either a
string or the raw text of a function. -/
inductive Opening where
  | interpolation
  | text (quoted : Bool)
deriving DecidableEq

/-- What is open behind a token, innermost first, given what is open in front of it. A token that
closes or goes on with something needs the innermost to be of its kind. -/
def Kind.nest (outer : List Opening) : Kind → Option (List Opening)
  | .beginInterpolation => some (.interpolation :: outer)
  | .endInterpolation =>
    match outer with
    | .interpolation :: outer => some outer
    | _ => none
  | .textStart _ quoted => some (.text quoted :: outer)
  | .textMiddle _ =>
    match outer with
    | .text quoted :: outer => some (.text quoted :: outer)
    | _ => none
  | .textEnd _ =>
    match outer with
    | .text _ :: outer => some outer
    | _ => none
  | _ => some outer

/-- What is open behind some tokens, if they are properly nested. -/
def nesting (outer : List Opening) (tokens : List Token) : Option (List Opening) :=
  tokens.foldlM (fun outer token => token.kind.nest outer) outer

end Token

namespace Lexer

/-- What was opened where a closing brace goes back to. -/
def Frame.opening : Frame → Token.Opening
  | .plain => .interpolation
  | .quoted _ => .text true
  | .raw _ => .text false

/-- In raw text at least the parenthesis of the function is open. -/
def IsDeep (frames : List Frame) : Prop :=
  ∀ depth, .raw depth ∈ frames → 1 ≤ depth

theorem isDeep_nil : IsDeep [] := nofun

theorem IsDeep.tail {frame : Frame} {frames : List Frame} (deep : IsDeep (frame :: frames)) :
    IsDeep frames :=
  fun depth member => deep depth (List.mem_cons_of_mem frame member)

theorem IsDeep.cons_raw {depth : Nat} {frames : List Frame} (positive : 1 ≤ depth)
    (deep : IsDeep frames) : IsDeep (.raw depth :: frames) := by
  intro other member
  rcases List.mem_cons.mp member with same | member
  · cases same
    exact positive
  · exact deep other member

theorem IsDeep.cons_quoted {quote : Char} {frames : List Frame} (deep : IsDeep frames) :
    IsDeep (.quoted quote :: frames) := by
  intro other member
  rcases List.mem_cons.mp member with same | member
  · cases same
  · exact deep other member

theorem IsDeep.cons_plain {frames : List Frame} (deep : IsDeep frames) :
    IsDeep (.plain :: frames) := by
  intro other member
  rcases List.mem_cons.mp member with same | member
  · cases same
  · exact deep other member

/-- A step that opens and closes as its kind says. -/
structure Step.Nests (frames : List Frame) (found : Step) : Prop where
  openings : found.kind.nest (frames.map Frame.opening) = some (found.frames.map Frame.opening)
  deep : IsDeep frames → IsDeep found.frames

section Steps

variable {lines : LineIndex} {c : Cursor} {frames : List Frame} {found : Step}

theorem rawPiece?_deep {depth : Nat} {text : List Char} {piece : RawPiece}
    (read : rawPiece? depth text = some piece) (positive : 1 ≤ depth)
    (opens : piece.interpolated = true) : 1 ≤ piece.depth := by
  fun_induction rawPiece? depth text generalizing piece with
  | case1 =>
    cases read
    exact positive
  | case2 =>
    cases read
    cases opens
  | case3 =>
    rename_i depth c rest _ notLast inner ih
    obtain ⟨within, isWithin, rfl⟩ := Option.map_eq_some_iff.mp read
    have deep := @ih within isWithin
    refine deep ?_ opens
    -- A parenthesis that closes the last one that is open ends the text instead.
    have remains : c = ')' → 1 < depth := by simpa using notLast
    unfold inner
    split
    · exact Nat.le_add_left 1 depth
    · split
      · rename_i closes
        exact Nat.le_sub_one_of_lt (remains (beq_iff_eq.mp closes))
      · exact positive
  | case4 => cases read

theorem stringStep_nests {quote : Char} {isFirst : Bool}
    (ran : stringStep lines c frames quote isFirst = .ok found) :
    found.Nests (if isFirst then frames else .quoted quote :: frames) := by
  unfold stringStep at ran
  split at ran
  · cases ran
  · rename_i piece _
    obtain ⟨text, count, interpolated⟩ := piece
    cases ran
    cases isFirst <;> cases interpolated
    · exact ⟨rfl, IsDeep.tail⟩
    · exact ⟨rfl, id⟩
    · exact ⟨rfl, id⟩
    · exact ⟨rfl, IsDeep.cons_quoted⟩

theorem rawStep_nests {skip depth : Nat} {isFirst : Bool}
    (ran : rawStep lines c frames skip depth isFirst = .ok found) (positive : 1 ≤ depth) :
    found.Nests (if isFirst then frames else .raw depth :: frames) := by
  unfold rawStep at ran
  split at ran
  · cases ran
  · rename_i piece read
    have deep := rawPiece?_deep read positive
    obtain ⟨⟨text, count, interpolated⟩, behind⟩ := piece
    cases ran
    cases isFirst <;> cases interpolated
    · exact ⟨rfl, IsDeep.tail⟩
    · exact ⟨rfl, fun outer => outer.tail.cons_raw (deep rfl)⟩
    · exact ⟨rfl, id⟩
    · exact ⟨rfl, fun outer => outer.cons_raw (deep rfl)⟩

theorem braceStep_nests (ran : braceStep lines c frames = .ok found) (deep : IsDeep frames) :
    found.Nests frames := by
  unfold braceStep at ran
  split at ran
  · cases ran
    exact ⟨rfl, id⟩
  · cases ran
    exact ⟨rfl, IsDeep.tail⟩
  · exact stringStep_nests ran
  · rename_i depth _
    exact rawStep_nests ran (deep depth List.mem_cons_self)

/-- All words but raw functions open nothing. -/
theorem wordStep_nests {spaceBefore : Bool} (ran : wordStep lines c frames spaceBefore = .ok found) :
    found.Nests frames := by
  unfold wordStep at ran
  dsimp only at ran
  split at ran
  · cases ran
    exact ⟨rfl, id⟩
  split at ran
  · cases ran
    exact ⟨rfl, id⟩
  split at ran
  · cases ran
    exact ⟨rfl, id⟩
  split at ran
  · exact rawStep_nests ran (Nat.le_refl 1)
  split at ran
  · cases ran
    exact ⟨rfl, id⟩
  · split at ran <;> cases ran
    exact ⟨rfl, id⟩
  split at ran
  · cases ran
    exact ⟨rfl, id⟩
  split at ran
  · split at ran <;> cases ran <;> exact ⟨rfl, id⟩
  split at ran <;> cases ran
  exact ⟨rfl, id⟩

theorem step_nests {spaceBefore : Bool} (ran : step lines c frames spaceBefore = .ok found)
    (deep : IsDeep frames) : found.Nests frames := by
  unfold step at ran
  split at ran
  · cases ran
    exact ⟨rfl, id⟩
  · split at ran <;> cases ran
    exact ⟨rfl, id⟩
  · exact stringStep_nests ran
  · exact stringStep_nests ran
  · cases ran
    exact ⟨rfl, IsDeep.cons_plain⟩
  · split at ran
    · split at ran <;> cases ran
      exact ⟨rfl, id⟩
    · cases ran
  · exact braceStep_nests ran deep
  · exact wordStep_nests ran

end Steps

section Tokens

variable {lines : LineIndex} {s after stop : State} {token : Token} {tokens : List Token}

theorem next_nests (ran : next lines s = .ok (token, after)) (deep : IsDeep s.frames) :
    token.kind.nest (s.frames.map Frame.opening) = some (after.frames.map Frame.opening) ∧
      IsDeep after.frames := by
  obtain ⟨_, _, found, stepped, kind, -, -, rfl⟩ := next_ok ran
  have nests := step_nests stepped deep
  rw [kind]
  exact ⟨nests.openings, nests.deep deep⟩

/-- Reading a token leaves the end of what can be read where it is, and less in front of it. -/
theorem next_rest (ran : next lines s = .ok (token, after)) :
    after.cursor.limit = s.cursor.limit ∧
      (token.kind ≠ .endOfInput → after.cursor.rest.length < s.cursor.rest.length) := by
  obtain ⟨blanks, _, found, stepped, kind, -, -, rfl⟩ := next_ok ran
  constructor
  · dsimp only
    rw [Cursor.limit_advance, Cursor.limit_advance]
  · intro filled
    rw [kind] at filled
    obtain ⟨left, positive⟩ := step_takes stepped filled
    have front := List.length_pos_of_ne_nil left
    dsimp only
    rw [Cursor.rest_advance, List.length_drop] at front ⊢
    rw [Cursor.rest_advance, List.length_drop]
    omega

/-- The next token is the end, or there is none. -/
def Ends (lines : LineIndex) (s : State) : Prop :=
  (∃ fault, next lines s = .error fault) ∨
    ∃ last after, next lines s = .ok (last, after) ∧ last.kind = .endOfInput

/-- Reading token by token ends. -/
theorem exists_passes (lines : LineIndex) (s : State) :
    ∃ tokens stop, Passes lines s tokens stop ∧ Ends lines stop := by
  induction length : s.cursor.rest.length using Nat.strongRecOn generalizing s with
  | ind length ih =>
    cases ran : next lines s with
    | error fault => exact ⟨[], s, .stay, .inl ⟨fault, ran⟩⟩
    | ok result =>
      obtain ⟨token, after⟩ := result
      by_cases filled : token.kind = .endOfInput
      · exact ⟨[], s, .stay, .inr ⟨token, after, ran, filled⟩⟩
      · have shorter := (next_rest ran).2 filled
        obtain ⟨tokens, stop, others, ends⟩ := ih _ (length ▸ shorter) after rfl
        exact ⟨token :: tokens, stop, .take ran filled others, ends⟩

namespace Passes

theorem nests (passes : Passes lines s tokens stop) (deep : IsDeep s.frames) :
    Token.nesting (s.frames.map Frame.opening) tokens = some (stop.frames.map Frame.opening) ∧
      IsDeep stop.frames := by
  induction passes with
  | stay => exact ⟨rfl, deep⟩
  | take ran _ _ ih =>
    obtain ⟨nest, deep⟩ := next_nests ran deep
    obtain ⟨nests, deep⟩ := ih deep
    refine ⟨?_, deep⟩
    rw [Token.nesting, List.foldlM_cons, nest]
    exact nests

theorem limit (passes : Passes lines s tokens stop) : stop.cursor.limit = s.cursor.limit := by
  induction passes with
  | stay => rfl
  | take ran _ _ ih => exact ih.trans (next_rest ran).1

/-- Each token takes a byte at least. -/
theorem pos_add_length_le (passes : Passes lines s tokens stop) :
    s.cursor.pos + tokens.length ≤ stop.cursor.pos := by
  induction passes with
  | stay => exact Nat.le_refl _
  | take ran filled _ ih =>
    obtain ⟨behind, ends, positive⟩ := next_span ran
    have := positive filled
    rw [List.length_cons]
    omega

theorem stop_le (passes : Passes lines s tokens stop) :
    ∀ token ∈ tokens, token.span.stop ≤ stop.cursor.pos := by
  induction passes with
  | stay => exact nofun
  | take ran _ others ih =>
    intro token member
    rcases List.mem_cons.mp member with rfl | member
    · have forward := others.pos_add_length_le
      rw [(next_span ran).2.1]
      omega
    · exact ih token member

end Passes

end Tokens

end Lexer

namespace TokenStream

variable {lines : LineIndex} {s : Lexer.State} {after : TokenStream} {tokens : List Token}

/-- Calls of `next` give these tokens, none of which is the end. -/
def Reads (lines : LineIndex) (s : TokenStream) (tokens : List Token) (after : TokenStream) : Prop :=
  s.run lines (List.replicate tokens.length .next) = .ok (tokens, after) ∧
    ∀ token ∈ tokens, token.kind ≠ .endOfInput

theorem call_next (ran : Lexer.next lines s = .ok (token, stop)) :
    call lines ⟨s, none⟩ .next = .ok (some token, ⟨stop, none⟩) := by
  rw [call, standsAt_start.next_eq, ran]
  rfl

theorem run_next_of_passes {stop : Lexer.State} (passes : Lexer.Passes lines s tokens stop) :
    run lines (List.replicate tokens.length .next) ⟨s, none⟩ = .ok (tokens, ⟨stop, none⟩) := by
  induction passes with
  | stay => rfl
  | @take s token middle tokens stop ran _ _ ih =>
    rw [List.length_cons, List.replicate_succ, run, call_next ran]
    change (run lines (List.replicate tokens.length .next) ⟨middle, none⟩ >>= _) = _
    rw [ih]
    rfl

/-- What calls of `next` read is what is passed on the way. -/
theorem reads_iff_passes : Reads lines ⟨s, none⟩ tokens after ↔
    ∃ stop, after = ⟨stop, none⟩ ∧ Lexer.Passes lines s tokens stop := by
  constructor
  · rintro ⟨ran, filled⟩
    induction tokens generalizing s with
    | nil =>
      cases ran
      exact ⟨s, rfl, .stay⟩
    | cons token tokens ih =>
      obtain ⟨consumed, middle, others, called, later, same⟩ := run_cons_ok ran
      obtain ⟨⟨first, behind⟩, taken, result⟩ := exists_of_map_ok called
      cases result
      cases same
      obtain ⟨place, read, rfl⟩ := standsAt_start.of_next taken
      obtain ⟨stop, rfl, passes⟩ := ih later fun other member =>
        filled other (List.mem_cons_of_mem token member)
      exact ⟨stop, rfl, .take read (filled token List.mem_cons_self) passes⟩
  · rintro ⟨stop, rfl, passes⟩
    exact ⟨run_next_of_passes passes, passes.filled⟩

/-- In every part of a text, reading comes to the end or to an error after at most as many tokens as
the part has bytes. The tokens stand in the part one behind the other and are not empty; they nest
properly, and what is open is what closing braces go back to. -/
theorem reading_wellFormed {source : String} {start limit : Nat}
    (first : Text.IsPlace source.toList start) (last : Text.IsPlace source.toList limit)
    (ordered : start ≤ limit) (lines : LineIndex) :
    let stream := ofCursor (((Cursor.ofText source).seek start).limitTo limit)
    (∃ tokens after, stream.Reads lines tokens after ∧ tokens.length + 1 ≤ limit - start + 1 ∧
        ((∃ fault, after.next lines = .error fault) ∨
          ∃ final done, after.next lines = .ok (final, done) ∧ final.kind = .endOfInput)) ∧
      ∀ tokens after, stream.Reads lines tokens after →
        (∀ token ∈ tokens, start ≤ token.span.start ∧ token.span.start < token.span.stop ∧
          token.span.stop ≤ limit) ∧
        tokens.Pairwise (fun a b => a.span.stop ≤ b.span.start) ∧
        Token.nesting [] tokens = some (after.state.frames.map Lexer.Frame.opening) ∧
        Lexer.IsDeep after.state.frames := by
  obtain ⟨front, middle, back, whole, rfl, rfl⟩ := first.exists_between last ordered
  obtain ⟨between, range⟩ := Cursor.limitTo_seek front middle back
  intro stream
  have isRange : stream = ⟨⟨⟨Text.size front, between, middle, back⟩, [], false⟩, none⟩ := by
    rw [← range, ← whole]
    rfl
  rw [isRange]
  have within : ∀ tokens stop, Lexer.Passes lines
      ⟨⟨Text.size front, between, middle, back⟩, [], false⟩ tokens stop →
        stop.cursor.pos ≤ Text.size front + Text.size middle := by
    intro tokens stop passes
    have limit : stop.cursor.limit = Text.size front + Text.size middle := passes.limit
    rw [← limit]
    exact Nat.le_add_right _ _
  constructor
  · obtain ⟨tokens, stop, passes, ends⟩ := Lexer.exists_passes lines
      ⟨⟨Text.size front, between, middle, back⟩, [], false⟩
    refine ⟨tokens, ⟨stop, none⟩, reads_iff_passes.mpr ⟨stop, rfl, passes⟩, ?_, ?_⟩
    · have taken : Text.size front + tokens.length ≤ stop.cursor.pos := passes.pos_add_length_le
      have := within tokens stop passes
      omega
    · rw [standsAt_start.next_eq]
      rcases ends with ⟨fault, failed⟩ | ⟨final, done, read, isEnd⟩
      · exact .inl ⟨fault, by rw [failed]; rfl⟩
      · exact .inr ⟨final, ⟨done, none⟩, by rw [read]; rfl, isEnd⟩
  · intro tokens after reads
    obtain ⟨stop, rfl, passes⟩ := reads_iff_passes.mp reads
    refine ⟨fun token member => ?_, passes.ordered, passes.nests Lexer.isDeep_nil⟩
    obtain ⟨behind, filled⟩ := passes.bounds token member
    exact ⟨behind, filled, (passes.stop_le token member).trans (within tokens stop passes)⟩

/-- A string around a raw function around a variable, up to the variable. -/
theorem reading_wellFormed_of_nested :
    let source := "a: \"x#\x7burl(#\x7b$y\x7d)\x7d\";"
    let stream := ofCursor (((Cursor.ofText source).seek 3).limitTo 19)
    ∃ tokens after, stream.Reads (LineIndex.ofText source) tokens after ∧ tokens.length = 3 ∧
      (∀ token ∈ tokens, 3 ≤ token.span.start ∧ token.span.stop ≤ 19) ∧
      Token.nesting [] tokens = some [.text false, .text true] := by
  intro source stream
  have first : Text.IsPlace source.toList 3 :=
    ⟨"a: ".toList, "\"x#\x7burl(#\x7b$y\x7d)\x7d\";".toList, by decide +kernel, rfl⟩
  have last : Text.IsPlace source.toList 19 :=
    ⟨"a: \"x#\x7burl(#\x7b$y\x7d)\x7d\"".toList, ";".toList, by decide +kernel, rfl⟩
  have check : (stream.run (LineIndex.ofText source) (List.replicate 3 .next)).toOption.any
      (fun result => result.1.length == 3 && result.1.all (!·.isEnd) &&
        result.2.state.frames == [.raw 1, .quoted '"']) = true := by decide +kernel
  cases ran : stream.run (LineIndex.ofText source) (List.replicate 3 .next) with
  | error fault =>
    rw [ran] at check
    cases check
  | ok result =>
    obtain ⟨tokens, after⟩ := result
    rw [ran] at check
    simp only [Except.toOption, Option.any_some, Bool.and_eq_true, beq_iff_eq, List.all_eq_true,
      Bool.not_eq_true'] at check
    obtain ⟨⟨three, filled⟩, frames⟩ := check
    have reads : stream.Reads (LineIndex.ofText source) tokens after := by
      refine ⟨by rw [three, ran], fun token member isEnd => ?_⟩
      have notEnd := filled token member
      rw [Token.isEnd, isEnd] at notEnd
      cases notEnd
    obtain ⟨spans, -, nests, -⟩ :=
      (reading_wellFormed first last (by decide) (LineIndex.ofText source)).2 tokens after reads
    refine ⟨tokens, after, reads, three, fun token member => ?_, ?_⟩
    · obtain ⟨behind, -, within⟩ := spans token member
      exact ⟨behind, within⟩
    · rw [nests, frames]
      rfl

end TokenStream

end Stylesheet
