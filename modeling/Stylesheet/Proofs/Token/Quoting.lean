import Stylesheet.Proofs.Source.Places
import Stylesheet.Proofs.Token.Literals
import Stylesheet.Proofs.Token.Sequence
import Stylesheet.Text.Quoted

/-! Quoted texts are read back. What quoting writes is one string token and nothing else, and its
content is the text up to the backslashes in front of quotes and hashes. -/

namespace Stylesheet

namespace Text.Quoted

/-- Whether the character behind a text is escaped, given whether its first is. -/
def endsEscaped : (escaped : Bool) → List Char → Bool
  | escaped, [] => escaped
  | escaped, c :: rest => endsEscaped (escapes escaped c) rest

/-- Whether an interpolation opens whose hash is not escaped. -/
def opensBare : (escaped : Bool) → List Char → Bool
  | _, [] => false
  | escaped, c :: rest =>
    (c == '#' && !escaped && rest.head? == some '\x7b') || opensBare (escapes escaped c) rest

/-- A text that can be told from its quoted form: on one line, with no backslash at its end that
would escape the quote, and with no interpolation. -/
structure IsQuotable (text : List Char) : Prop where
  noLineFeed : '\n' ∉ text
  noReturn : '\r' ∉ text
  closed : endsEscaped false text = false
  plain : opensBare false text = false

/-- A text without the backslashes that escape a quote or a hash. -/
def dropEscapes : List Char → List Char
  | '\\' :: c :: rest =>
    if c == '"' || c == '\'' || c == '#' then c :: dropEscapes rest
    else '\\' :: c :: dropEscapes rest
  | c :: rest => c :: dropEscapes rest
  | [] => []

/-- Put a backslash before every quote of a kind that has none. -/
def escapeBare (quote : Char) : List Char → List Char
  | '\\' :: c :: rest => '\\' :: c :: escapeBare quote rest
  | c :: rest => if c == quote then '\\' :: c :: escapeBare quote rest else c :: escapeBare quote rest
  | [] => []

/-- The quotes that a text is put in. -/
inductive IsQuote : Char → Prop where
  | double : IsQuote '"'
  | single : IsQuote '\''

/-- The character in front of a text is not the backslash of an escape. -/
def Alone (c : Char) (rest : List Char) : Prop :=
  c = '\\' → rest = []

section Escapes

variable {quote c : Char} {text rest : List Char}

theorem alone_of_no_pair (single : ∀ d more, c = '\\' → rest = d :: more → False) :
    Alone c rest := by
  intro slash
  cases rest with
  | nil => rfl
  | cons d more => exact (single d more slash rfl).elim

/-- Behind a character that stands alone nothing is escaped, or nothing comes. -/
theorem Alone.restart (alone : Alone c rest) (f : Bool → List Char → α)
    (atEnd : f true [] = f false []) : f (escapes false c) rest = f false rest := by
  by_cases slash : c = '\\'
  · rw [alone slash, slash]
    exact atEnd
  · rw [escapes, beq_eq_false_iff_ne.mpr slash]
    rfl

theorem escapes_second (c : Char) : escapes (escapes false '\\') c = false := by
  simp [escapes]

theorem dropEscapes_of_ne (notSlash : c ≠ '\\') :
    dropEscapes (c :: rest) = c :: dropEscapes rest := by
  rw [dropEscapes]
  exact fun d more slash _ => notSlash slash

theorem escapeDouble_eq (text : List Char) : escapeDouble false text = escapeBare '"' text := by
  fun_induction escapeBare '"' text with
  | case1 c rest ih =>
    rw [escapeDouble, escapeDouble, escapes_second, ih]
    simp [escapes]
  | case2 c rest single isQuote ih =>
    have alone := alone_of_no_pair single
    rw [escapeDouble, if_pos (by simpa using isQuote), alone.restart escapeDouble rfl, ih]
  | case3 c rest single notQuote ih =>
    have alone := alone_of_no_pair single
    rw [escapeDouble, if_neg (by simpa using notQuote), alone.restart escapeDouble rfl, ih]
  | case4 => rfl

theorem escapeBare_of_not_hasBare (none : hasBare quote false text = false) :
    escapeBare quote text = text := by
  fun_induction escapeBare quote text with
  | case1 c rest ih =>
    rw [hasBare, hasBare, escapes_second, Bool.or_eq_false_iff, Bool.or_eq_false_iff] at none
    rw [ih none.2.2]
  | case2 c rest single isQuote ih =>
    rw [hasBare, isQuote] at none
    cases none
  | case3 c rest single notQuote ih =>
    have alone := alone_of_no_pair single
    rw [hasBare, Bool.or_eq_false_iff, alone.restart (hasBare quote) rfl] at none
    rw [ih none.2]
  | case4 => rfl

/-- What quoting writes. -/
theorem encode_eq (text : List Char) :
    ∃ quote, IsQuote quote ∧ encode text = quote :: (escapeBare quote text ++ [quote]) := by
  unfold encode
  split
  · rename_i single
    simp only [Bool.and_eq_true, Bool.not_eq_true'] at single
    refine ⟨'\'', .single, ?_⟩
    rw [escapeBare_of_not_hasBare single.2, List.cons_append]
  · refine ⟨'"', .double, ?_⟩
    rw [escapeDouble_eq, List.cons_append]

theorem IsQuotable.pair (quotable : IsQuotable ('\\' :: c :: rest)) : c ≠ '\n' ∧ IsQuotable rest := by
  obtain ⟨noLineFeed, noReturn, closed, plain⟩ := quotable
  simp only [List.mem_cons, not_or] at noLineFeed noReturn
  rw [endsEscaped, endsEscaped, escapes_second] at closed
  rw [opensBare, opensBare, escapes_second, Bool.or_eq_false_iff, Bool.or_eq_false_iff] at plain
  exact ⟨Ne.symm noLineFeed.2.1, noLineFeed.2.2, noReturn.2.2, closed, plain.2.2⟩

theorem IsQuotable.alone (quotable : IsQuotable (c :: rest)) (alone : Alone c rest) :
    (c ≠ '\\' ∧ c ≠ '\n' ∧ c ≠ '\r' ∧ (c = '#' → rest.head? ≠ some '\x7b')) ∧
      IsQuotable rest := by
  obtain ⟨noLineFeed, noReturn, closed, plain⟩ := quotable
  simp only [List.mem_cons, not_or] at noLineFeed noReturn
  have notSlash : c ≠ '\\' := by
    intro slash
    rw [alone slash, slash] at closed
    cases closed
  rw [endsEscaped] at closed
  rw [opensBare, Bool.or_eq_false_iff, alone.restart opensBare rfl] at plain
  have same : escapes false c = false := by simp [escapes, notSlash]
  rw [same] at closed
  refine ⟨⟨notSlash, Ne.symm noLineFeed.1, Ne.symm noReturn.1, fun hash opens => ?_⟩,
    noLineFeed.2, noReturn.2, closed, plain.2⟩
  simp [hash, opens] at plain

theorem stringPiece?_escape {piece : Lexer.Piece}
    (read : Lexer.stringPiece? quote text = some piece) (notFeed : c ≠ '\n') :
    Lexer.stringPiece? quote ('\\' :: c :: text) =
      some ⟨if c = quote ∨ c = '#' then c :: piece.text else '\\' :: c :: piece.text,
        piece.count + 2, piece.interpolated⟩ := by
  rw [Lexer.stringPiece?, read]
  simp [notFeed]

theorem stringPiece?_char {piece : Lexer.Piece}
    (read : Lexer.stringPiece? quote text = some piece) (notQuote : c ≠ quote)
    (plain : c ≠ '\\' ∧ c ≠ '\n' ∧ c ≠ '\r' ∧ (c = '#' → text.head? ≠ some '\x7b')) :
    Lexer.stringPiece? quote (c :: text) =
      some ⟨c :: piece.text, piece.count + 1, piece.interpolated⟩ := by
  rw [Lexer.stringPiece?.eq_3, read]
  · simp [plain.1, plain.2.1, plain.2.2.1, notQuote]
  · rintro d more rfl
    exact absurd rfl plain.1
  · rintro more rfl rfl
    exact plain.2.2.2 rfl rfl

/-- Escapes do not put an opening brace in front. -/
theorem head?_escapeBare (isQuote : IsQuote quote) (text behind : List Char) :
    (escapeBare quote text ++ quote :: behind).head? = some '\x7b' →
      text.head? = some '\x7b' := by
  fun_cases escapeBare quote text with
  | case1 => exact nofun
  | case2 => exact nofun
  | case3 => exact id
  | case4 => cases isQuote <;> exact nofun

/-- Up to its closing quote a quoted text is read as what it was written from, escapes aside. -/
theorem stringPiece?_escapeBare (isQuote : IsQuote quote) (quotable : IsQuotable text)
    (behind : List Char) :
    ∃ content, Lexer.stringPiece? quote (escapeBare quote text ++ quote :: behind) =
        some ⟨content, (escapeBare quote text).length + 1, false⟩ ∧
      dropEscapes content = dropEscapes text := by
  fun_induction escapeBare quote text with
  | case1 c rest ih =>
    obtain ⟨notFeed, quotable⟩ := quotable.pair
    obtain ⟨inner, read, same⟩ := ih quotable
    refine ⟨_, stringPiece?_escape read notFeed, ?_⟩
    dsimp only
    by_cases drops : c = quote ∨ c = '#'
    · have special : c ≠ '\\' ∧ (c == '"' || c == '\'' || c == '#') = true := by
        rcases drops with rfl | rfl
        · cases isQuote <;> decide
        · decide
      rw [if_pos drops, dropEscapes_of_ne special.1, dropEscapes, if_pos special.2, same]
    · rw [if_neg drops, dropEscapes, dropEscapes, same]
  | case2 c rest single bare ih =>
    have alone := alone_of_no_pair single
    obtain ⟨plain, quotable⟩ := quotable.alone alone
    obtain ⟨inner, read, same⟩ := ih quotable
    refine ⟨c :: inner, ?_, ?_⟩
    · rw [List.cons_append, List.cons_append, stringPiece?_escape read plain.2.1]
      rw [if_pos (.inl (beq_iff_eq.mp bare))]
      rfl
    · rw [dropEscapes_of_ne plain.1, dropEscapes_of_ne plain.1, same]
  | case3 c rest single notQuote ih =>
    have alone := alone_of_no_pair single
    obtain ⟨plain, quotable⟩ := quotable.alone alone
    obtain ⟨inner, read, same⟩ := ih quotable
    refine ⟨c :: inner, ?_, ?_⟩
    · rw [List.cons_append, stringPiece?_char read (by simpa using notQuote)]
      · rfl
      · exact ⟨plain.1, plain.2.1, plain.2.2.1,
          fun hash opens => plain.2.2.2 hash (head?_escapeBare isQuote rest behind opens)⟩
    · rw [dropEscapes_of_ne plain.1, dropEscapes_of_ne plain.1, same]
  | case4 =>
    refine ⟨[], ?_, rfl⟩
    cases isQuote <;> simp [Lexer.stringPiece?]

end Escapes

end Text.Quoted

namespace Lexer

open Text.Quoted

variable {quote : Char} {text : List Char} {c : Cursor}

theorem step_quote (isQuote : IsQuote quote) (isText : c.rest = quote :: text) (lines : LineIndex)
    (frames : List Frame) (spaceBefore : Bool) :
    step lines c frames spaceBefore = stringStep lines c frames quote true := by
  unfold step
  rw [isText]
  cases isQuote <;> rfl

theorem gap_quote (isQuote : IsQuote quote) (text : List Char) :
    gap .outside 0 (quote :: text) = .ok 0 := by
  rw [gap_of_not_slash (by cases isQuote <;> decide)]
  cases isQuote <;> rfl

/-- A whole string is one step. -/
theorem stringStep_escapeBare (isQuote : IsQuote quote) (quotable : IsQuotable text)
    (isText : c.rest = quote :: (escapeBare quote text ++ [quote])) (lines : LineIndex)
    (frames : List Frame) :
    ∃ content : String, stringStep lines c frames quote true =
        .ok ⟨.text content true, c.rest.length, frames⟩ ∧
      dropEscapes content.toList = dropEscapes text := by
  obtain ⟨content, read, same⟩ := stringPiece?_escapeBare isQuote quotable []
  refine ⟨String.ofList content, ?_, by rwa [String.toList_ofList]⟩
  unfold stringStep
  rw [isText, List.drop_one, List.tail_cons, read]
  simp

theorem next_at_end {s : State} (ended : s.cursor.rest = []) (lines : LineIndex) :
    ∃ last after, next lines s = .ok (last, after) ∧ last.kind = .endOfInput := by
  have gap : gap .outside 0 s.cursor.rest = .ok 0 := by
    rw [ended]
    rfl
  have stepped : step lines (s.cursor.advance 0) s.frames
      ((s.cursor.advance 0).preceding?.any Text.isBlank) = .ok ⟨.endOfInput, 0, s.frames⟩ := by
    change step lines s.cursor s.frames _ = _
    unfold step
    rw [ended]
  unfold next
  rw [gap]
  dsimp only
  rw [stepped]
  exact ⟨_, _, rfl, rfl⟩

/-- At the start of a quoted text the whole text is the next token. -/
theorem next_escapeBare (isQuote : IsQuote quote) (quotable : IsQuotable text)
    (isText : c.rest = quote :: (escapeBare quote text ++ [quote])) (lines : LineIndex) :
    ∃ (token : Token) (content : String) (after : State),
      next lines ⟨c, [], false⟩ = .ok (token, after) ∧ token.kind = .text content true ∧
        token.span = Span.between c.pos c.limit ∧ after.cursor.rest = [] ∧
        dropEscapes content.toList = dropEscapes text := by
  have gap : gap .outside 0 c.rest = .ok 0 := by rw [isText, gap_quote isQuote]
  obtain ⟨content, stepped, same⟩ := stringStep_escapeBare isQuote quotable isText lines []
  have read : step lines (c.advance 0) [] ((c.advance 0).preceding?.any Text.isBlank) = _ :=
    (step_quote isQuote isText lines [] _).trans stepped
  have ended : (c.advance c.rest.length).rest = [] := by
    rw [Cursor.rest_advance, List.drop_length]
  have stop : (c.advance c.rest.length).pos = c.limit := by
    rw [← Cursor.limit_advance c.rest.length c, Cursor.limit, ended]
    rfl
  unfold next
  dsimp only
  rw [gap]
  dsimp only
  rw [read]
  refine ⟨_, content, _, rfl, rfl, ?_, ended, same⟩
  change Span.between c.pos (c.advance c.rest.length).pos = _
  rw [stop]

/-- A quoted text is read as one string of all its bytes, which has the text as its content but for
the backslashes of escaped quotes and hashes. -/
theorem tokenizes_quote (text : String) (quotable : IsQuotable text.toList) :
    ∃ token content, Tokenizes (Text.quote text) [token] ∧ token.kind = .text content true ∧
      token.span = ⟨0, Text.size (Text.quote text).toList⟩ ∧
      dropEscapes content.toList = dropEscapes text.toList := by
  obtain ⟨quote, isQuote, encoded⟩ := encode_eq text.toList
  have written : (Cursor.ofText (Text.quote text)).rest =
      quote :: (escapeBare quote text.toList ++ [quote]) := by
    change (Text.quote text).toList = _
    rw [Text.quote, String.toList_ofList, encoded]
  obtain ⟨token, content, after, read, kind, span, ended, same⟩ :=
    next_escapeBare isQuote quotable written (LineIndex.ofText (Text.quote text))
  obtain ⟨last, stop, isLast, isEnd⟩ := next_at_end ended (LineIndex.ofText (Text.quote text))
  refine ⟨token, content, ⟨after, last, stop, ?_, isLast, isEnd⟩, kind, ?_, same⟩
  · exact .take read (by rw [kind]; exact nofun) .stay
  · rw [span, Cursor.limit]
    change Span.mk 0 (max (0 + Text.size (Text.quote text).toList) 0) = _
    rw [Nat.zero_add, Nat.max_zero]

/-- Escaped quotes and hashes, a run of backslashes in front of a quote, and both kinds of quotes. -/
theorem tokenizes_quote_of_escapes :
    let text := "\\\"a\\\\\"b\" \\#\x7bc\x7d it\\'s '#\\\\"
    Text.Quoted.IsQuotable text.toList ∧
      ∃ token content, Tokenizes (Text.quote text) [token] ∧ token.kind = .text content true ∧
        token.span = ⟨0, 29⟩ ∧
        Text.Quoted.dropEscapes content.toList = "\"a\\\\\"b\" #\x7bc\x7d it's '#\\\\".toList := by
  intro text
  have quotable : Text.Quoted.IsQuotable text.toList :=
    ⟨by decide +kernel, by decide +kernel, by decide +kernel, by decide +kernel⟩
  obtain ⟨token, content, tokens, kind, span, same⟩ := tokenizes_quote text quotable
  refine ⟨quotable, token, content, tokens, kind, span.trans ?_, same.trans ?_⟩
  · decide +kernel
  · decide +kernel

end Lexer

end Stylesheet
