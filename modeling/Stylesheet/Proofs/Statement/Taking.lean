import Stylesheet.Proofs.Expr.Reading
import Stylesheet.Proofs.Source.Spelling
import Stylesheet.Statement.Parser

/-! What a reading takes in front of a text that is given, as rules for its parts: text in which
nothing is special is taken as it stands, and names and values as they are spelled. -/

namespace Stylesheet

namespace Template

theorem pushText_empty (parts : Template) : parts.pushText "" = parts := rfl

/-- Texts that are added one behind the other are added as one. -/
theorem pushText_pushText (parts : Template) (first second : String) :
    (parts.pushText first).pushText second = parts.pushText (first ++ second) := by
  by_cases noFirst : first = ""
  · rw [noFirst, pushText_empty, String.empty_append]
  by_cases noSecond : second = ""
  · rw [noSecond, pushText_empty, String.append_empty]
  have filled : (first ++ second).isEmpty = false := by simp [noFirst]
  have own : first.isEmpty = false := by simp [noFirst]
  have other : second.isEmpty = false := by simp [noSecond]
  unfold pushText
  simp only [filled, own, other, Bool.false_eq_true, if_false]
  cases parts.getLast? with
  | none => simp
  | some last => cases last <;> simp [String.append_assoc]

end Template

namespace Header

open Scan

/-- In front of a text, a reading gives something with a property and leaves a rest. -/
def Reads (lines : LineIndex) (reading : Reading α) (text : List Char) (p : α → Prop)
    (rest : List Char) : Prop :=
  ∀ c : Cursor, c.rest = text →
    ∃ a after, readAt lines c reading = .ok (a, after) ∧ p a ∧ after.rest = rest

/-- In front of a text, a reading fails. -/
def Fails (lines : LineIndex) (reading : Reading α) (text : List Char) : Prop :=
  ∀ c : Cursor, c.rest = text → ∃ error, readAt lines c reading = .error error

/-- Nothing is said of what is read. -/
abbrev Whatever (_ : α) : Prop := True

section Rules

variable {lines : LineIndex} {text middle rest : List Char}

theorem Reads.pure {a : α} {p : α → Prop} (holds : p a) : Reads lines (Pure.pure a) text p text :=
  fun c isText => ⟨a, c, rfl, holds, isText⟩

theorem Reads.bind {first : Reading α} {next : α → Reading β} {between : α → Prop} {p : β → Prop}
    (start : Reads lines first text between middle)
    (behind : ∀ a, between a → Reads lines (next a) middle p rest) :
    Reads lines (first >>= next) text p rest := by
  intro c isText
  obtain ⟨a, c', found, holds, left⟩ := start c isText
  obtain ⟨b, after, last, result, done⟩ := behind a holds c' left
  refine ⟨b, after, ?_, result, done⟩
  unfold readAt at found last ⊢
  simp only [Bind.bind, ReaderT.bind, StateT.bind, StateT.run, Except.bind] at found last ⊢
  rw [found]
  exact last

/-- What comes first does not matter. -/
theorem Reads.after {first : Reading α} {next : α → Reading β} {p : β → Prop} {q : α → Prop}
    (start : Reads lines first text q middle) (behind : ∀ a, Reads lines (next a) middle p rest) :
    Reads lines (first >>= next) text p rest :=
  start.bind fun a _ => behind a

theorem Reads.weaken {reading : Reading α} {p q : α → Prop} (reads : Reads lines reading text p rest)
    (implies : ∀ a, p a → q a) : Reads lines reading text q rest := by
  intro c isText
  obtain ⟨a, after, found, holds, left⟩ := reads c isText
  exact ⟨a, after, found, implies a holds, left⟩

theorem Reads.map {reading : Reading α} {f : α → β} {p : α → Prop} {q : β → Prop}
    (reads : Reads lines reading text p rest) (implies : ∀ a, p a → q (f a)) :
    Reads lines (f <$> reading) text q rest := by
  intro c isText
  obtain ⟨a, after, found, holds, left⟩ := reads c isText
  refine ⟨f a, after, ?_, implies a holds, left⟩
  unfold readAt at found ⊢
  simp only [Functor.map, StateT.map, StateT.run] at found ⊢
  rw [found]
  rfl

theorem Reads.get : Reads lines get text (fun c => c.rest = text) text :=
  fun c isText => ⟨c, c, rfl, isText, isText⟩

theorem Reads.set {c : Cursor} (isRest : c.rest = rest) :
    Reads lines (set c) text Whatever rest :=
  fun _ _ => ⟨_, c, rfl, trivial, isRest⟩

theorem Reads.modify {f : Cursor → Cursor}
    (moves : ∀ c : Cursor, c.rest = text → (f c).rest = rest) :
    Reads lines (modify f) text Whatever rest :=
  fun c isText => ⟨_, f c, rfl, trivial, moves c isText⟩

theorem Reads.read : Reads lines read text (· = lines) text :=
  fun c isText => ⟨lines, c, rfl, rfl, isText⟩

theorem Reads.lift {action : Except Diagnostic α} {a : α} (ok : action = .ok a) :
    Reads lines (liftM action) text (· = a) text := by
  subst ok
  exact fun c isText => ⟨a, c, rfl, rfl, isText⟩

theorem Reads.position : Reads lines position text Whatever text :=
  fun c isText => ⟨c.pos, c, rfl, trivial, isText⟩

theorem Reads.lineNumber : Reads lines lineNumber text Whatever text :=
  fun c isText => ⟨lines.line c.pos, c, rfl, trivial, isText⟩

theorem Reads.spanFrom {start : Nat} : Reads lines (spanFrom start) text Whatever text :=
  fun c isText => ⟨c.spanFrom start, c, rfl, trivial, isText⟩

theorem Reads.skipBlanks : Reads lines skipBlanks text Whatever (Text.afterBlanks text) :=
  .modify fun c isText => by rw [Cursor.rest_skipBlanks, isText]

theorem Reads.eat (word : String) (rest : List Char) :
    Reads lines (eat word) (word.toList ++ rest) (· = true) rest := by
  refine Reads.get.bind fun c isText => ?_
  obtain ⟨after, eaten, left⟩ := Cursor.eat?_of_append isText
  rw [eaten]
  exact (Reads.set left).after fun _ => .pure rfl

theorem Reads.eat_none {word : String} (other : word.toList.isPrefixOf text = false) :
    Reads lines (Header.eat word) text (· = false) text := by
  refine Reads.get.bind fun c isText => ?_
  have none : c.eat? word = none := by
    unfold Cursor.eat? Cursor.startsWith
    rw [isText, other]
    rfl
  rw [none]
  exact .pure rfl

theorem Reads.sees {word : String} :
    Reads lines (sees word) text (· = word.toList.isPrefixOf text) text := by
  intro c isText
  refine ⟨_, c, rfl, ?_, isText⟩
  rw [Cursor.startsWith, isText]

theorem fails_failExpected {what : String} : Fails lines (failExpected what : Reading α) text :=
  fun _ _ => ⟨_, rfl⟩

theorem Fails.bind {first : Reading α} {next : α → Reading β} {between : α → Prop}
    (start : Reads lines first text between middle)
    (behind : ∀ a, between a → Fails lines (next a) middle) :
    Fails lines (first >>= next) text := by
  intro c isText
  obtain ⟨a, c', found, holds, left⟩ := start c isText
  obtain ⟨error, failed⟩ := behind a holds c' left
  refine ⟨error, ?_⟩
  unfold readAt at found failed ⊢
  simp only [Bind.bind, ReaderT.bind, StateT.bind, StateT.run, Except.bind] at found failed ⊢
  rw [found]
  exact failed

theorem Reads.take {w : List Char} {count : Nat} (isCount : count = w.length) :
    Reads lines (take count) (w ++ rest) (· = String.ofList w) rest := by
  subst isCount
  intro c isText
  refine ⟨_, _, rfl, ?_, Cursor.rest_advance_append isText⟩
  rw [isText, List.take_left]

end Rules


section Texts

variable {lines : LineIndex} {text rest : List Char}

/-- No expression begins without a hash and a brace. -/
theorem opens_none (other : ∀ behind, text ≠ '#' :: '\x7b' :: behind) :
    ("#\x7b" : String).toList.isPrefixOf text = false := by
  rw [Bool.eq_false_iff]
  intro isPrefix
  obtain ⟨behind, rfl⟩ := List.isPrefixOf_iff_prefix.mp isPrefix
  exact other behind rfl

theorem not_opens_of_head (other : text.head? ≠ some '#') (behind : List Char) :
    text ≠ '#' :: '\x7b' :: behind := by
  rintro rfl
  exact other rfl

/-- A word is not there when the text starts with another character. -/
theorem isPrefixOf_false {word : String} {c : Char} {more text : List Char}
    (spelled : word.toList = c :: more) (other : text.head? ≠ some c) :
    word.toList.isPrefixOf text = false := by
  rw [Bool.eq_false_iff]
  intro isPrefix
  obtain ⟨behind, same⟩ := List.isPrefixOf_iff_prefix.mp isPrefix
  rw [spelled] at same
  exact other (by rw [← same]; rfl)

/-- Blanks are skipped where no comment stands behind them that ends with its line. -/
theorem reads_gaps {text : List Char} (noComment : lineComment? (Text.afterBlanks text) = none) :
    Reads lines skipBlanksAndLineComments text Whatever (Text.afterBlanks text) := by
  apply Reads.modify
  intro c isText
  have rest : c.skipBlanks.rest = Text.afterBlanks text := by rw [Cursor.rest_skipBlanks, isText]
  unfold skipGaps
  simp only [rest, noComment]

/-- Nothing is taken where text stops. -/
theorem reads_takeText_stop {stop : Char → Bool} {parts : Template} {fuel : Nat}
    (ends : ∀ c, rest.head? = some c → stop c = true ∧ c ≠ '#') :
    Reads lines (takeText stop parts (fuel + 1)) rest (· = parts) rest := by
  have noHash : rest.head? ≠ some '#' := fun head => (ends '#' head).2 rfl
  refine (Reads.eat_none (opens_none (not_opens_of_head noHash))).bind fun _ no => ?_
  subst no
  refine Reads.get.bind fun c isText => ?_
  unfold Cursor.peek?
  rw [isText]
  cases rest with
  | nil => exact .pure rfl
  | cons d behind =>
    simp only [List.head?_cons, (ends d rfl).1]
    exact .pure rfl

theorem reads_templateUntil_stop {stop : Char → Bool}
    (ends : ∀ c, rest.head? = some c → stop c = true ∧ c ≠ '#') :
    Reads lines (templateUntil stop) rest (· = []) rest :=
  Reads.get.bind fun _ _ => reads_takeText_stop ends

end Texts

section Plain

theorem quote_ne {quote c : Char} (opens : isQuote quote = true) (other : isQuote c = false) :
    quote ≠ c := by
  rintro rfl
  rw [opens] at other
  cases other

/-- A character that means nothing special outside of strings. -/
def isHeadChar (c : Char) : Bool :=
  c != '\\' && !isQuote c && !isStatementEnd c && c != '\n'

theorem isHeadChar_spec {c : Char} (plain : isHeadChar c = true) :
    isStatementEnd c = false ∧ c ≠ '\\' ∧ isQuote c = false ∧ c ≠ '\x7b' ∧ c ≠ '\n' := by
  simp only [isHeadChar, Bool.and_eq_true, bne_iff_ne, Bool.not_eq_true'] at plain
  obtain ⟨⟨⟨notEscape, notQuote⟩, notEnd⟩, notEol⟩ := plain
  refine ⟨notEnd, notEscape, notQuote, ?_, notEol⟩
  rintro rfl
  cases notEnd

/-- What may stand between two quotes: neither one of them, nor an escape, the end of a line or the
beginning of an expression. -/
structure IsInside (quote : Char) (body : List Char) : Prop where
  plain : ∀ c ∈ body, c ≠ quote ∧ c ≠ '\\' ∧ c ≠ '\n'
  noExpr : ¬ ['#', '\x7b'] <:+: body

/-- A text in which nothing is special outside of its strings, all of which are closed. -/
inductive IsVerbatim : List Char → Prop where
  | run {run : List Char} (plain : ∀ c ∈ run, isHeadChar c = true) : IsVerbatim run
  | string {run body rest : List Char} {quote : Char} (plain : ∀ c ∈ run, isHeadChar c = true)
      (isQuote : isQuote quote = true) (inside : IsInside quote body) (behind : IsVerbatim rest) :
      IsVerbatim (run ++ quote :: (body ++ quote :: rest))

/-- Two characters that stand side by side stand on one side of any other character. -/
theorem infix_of_separated {a b c : Char} {front behind : List Char} (notFirst : c ≠ a)
    (notSecond : c ≠ b) (inside : [a, b] <:+: front ++ c :: behind) :
    [a, b] <:+: front ∨ [a, b] <:+: behind := by
  induction front with
  | nil =>
    rcases List.infix_cons_iff.mp inside with here | later
    · exact absurd (List.cons_prefix_cons.mp here).1.symm notFirst
    · exact .inr later
  | cons x front ih =>
    rcases List.infix_cons_iff.mp inside with here | later
    · obtain ⟨rfl, next⟩ := List.cons_prefix_cons.mp here
      cases front with
      | nil => exact absurd (List.cons_prefix_cons.mp next).1.symm notSecond
      | cons y front =>
        obtain ⟨rfl, _⟩ := List.cons_prefix_cons.mp next
        exact .inl (List.infix_append' [] _ front)
    · exact (ih later).imp_left fun inside => inside.trans (List.suffix_cons x front).isInfix

theorem noExpr_of_isHeadChar {run : List Char} (plain : ∀ c ∈ run, isHeadChar c = true) :
    ¬ ['#', '\x7b'] <:+: run := by
  intro inside
  cases plain '\x7b' (inside.subset (by simp))

theorem IsInside.cons {quote c : Char} {body : List Char}
    (inside : IsInside quote body) (other : c ≠ quote) (notEscape : c ≠ '\\') (notEol : c ≠ '\n')
    (noExpr : c = '#' → body.head? ≠ some '\x7b') : IsInside quote (c :: body) where
  plain := by
    intro d member
    rcases List.mem_cons.mp member with rfl | behind
    · exact ⟨other, notEscape, notEol⟩
    · exact inside.plain d behind
  noExpr := by
    intro opens
    rcases List.infix_cons_iff.mp opens with here | later
    · obtain ⟨rfl, next⟩ := List.cons_prefix_cons.mp here
      cases body with
      | nil => simp at next
      | cons y body =>
        obtain ⟨rfl, _⟩ := List.cons_prefix_cons.mp next
        exact noExpr rfl rfl
    · exact inside.noExpr later

namespace IsVerbatim

variable {text : List Char}

/-- A text in which nothing is special stands on one line, without escapes. -/
theorem mem_ne (plain : IsVerbatim text) : ∀ c ∈ text, c ≠ '\\' ∧ c ≠ '\n' := by
  have inRun {run : List Char} (plain : ∀ c ∈ run, isHeadChar c = true) :
      ∀ c ∈ run, c ≠ '\\' ∧ c ≠ '\n' := by
    intro c member
    obtain ⟨_, notEscape, _, _, notEol⟩ := isHeadChar_spec (plain c member)
    exact ⟨notEscape, notEol⟩
  induction plain with
  | run plain => exact inRun plain
  | @string run body behind quote plain isQuote inside _ ih =>
    have ofQuote : quote ≠ '\\' ∧ quote ≠ '\n' :=
      ⟨quote_ne isQuote (by decide), quote_ne isQuote (by decide)⟩
    intro c member
    simp only [List.mem_append, List.mem_cons] at member
    rcases member with member | rfl | member | rfl | member
    · exact inRun plain c member
    · exact ofQuote
    · exact (inside.plain c member).2
    · exact ofQuote
    · exact ih c member

/-- No expression begins in a text in which nothing is special. -/
theorem noExpr (plain : IsVerbatim text) : ¬ ['#', '\x7b'] <:+: text := by
  induction plain with
  | run plain => exact noExpr_of_isHeadChar plain
  | @string run body behind quote plain isQuote inside _ ih =>
    have notHash : quote ≠ '#' := quote_ne isQuote (by decide)
    have notBrace : quote ≠ '\x7b' := quote_ne isQuote (by decide)
    intro opens
    rcases infix_of_separated notHash notBrace opens with inRun | opens
    · exact noExpr_of_isHeadChar plain inRun
    rcases infix_of_separated notHash notBrace opens with inBody | opens
    · exact inside.noExpr inBody
    · exact ih opens

theorem cons (plain : IsVerbatim text) {c : Char} (isHead : isHeadChar c = true) :
    IsVerbatim (c :: text) := by
  have behind {run : List Char} (plain : ∀ d ∈ run, isHeadChar d = true) :
      ∀ d ∈ c :: run, isHeadChar d = true := by
    intro d member
    exact (List.mem_cons.mp member).elim (fun same => same ▸ isHead) (plain d)
  cases plain with
  | run plain => exact .run (behind plain)
  | string plain isQuote inside others => exact .string (behind plain) isQuote inside others

theorem append (plain : IsVerbatim text) {more : List Char}
    (others : ∀ c ∈ more, isHeadChar c = true) : IsVerbatim (text ++ more) := by
  induction plain with
  | run plain =>
    refine .run fun c member => ?_
    exact (List.mem_append.mp member).elim (plain c) (others c)
  | string plain isQuote inside _ ih =>
    rw [List.append_assoc, List.cons_append, List.append_assoc, List.cons_append]
    exact .string plain isQuote inside ih

end IsVerbatim

theorem plainRun_append {special : Char → Bool} {w rest : List Char}
    (plain : ∀ c ∈ w, special c = false) (noExpr : ¬ ['#', '\x7b'] <:+: w)
    (gap : w.getLast? = some '#' → rest.head? ≠ some '\x7b')
    (stop : ∀ c, rest.head? = some c → special c = true) :
    plainRun special (w ++ rest) = w.length := by
  induction w with
  | nil =>
    cases rest with
    | nil => rfl
    | cons c rest => simp [plainRun, stop c rfl]
  | cons c w ih =>
    have noneHere : (c == '#' && (w ++ rest).head? == some '\x7b') = false := by
      rw [Bool.and_eq_false_iff, beq_eq_false_iff_ne, beq_eq_false_iff_ne]
      by_contra both
      obtain ⟨isHash, isBrace⟩ := not_or.mp both
      obtain rfl := not_not.mp isHash
      cases w with
      | nil => exact gap rfl (not_not.mp isBrace)
      | cons d w =>
        obtain rfl := Option.some.inj (not_not.mp isBrace)
        exact noExpr (List.infix_append' [] _ w)
    have behind := ih (fun d member => plain d (List.mem_cons_of_mem c member))
      (fun inside => noExpr (inside.trans (List.suffix_cons c w).isInfix)) (by
        intro isLast
        cases w with
        | nil => cases isLast
        | cons d w => exact gap (by rw [List.getLast?_cons_cons, isLast]))
    rw [List.cons_append, plainRun, plain c List.mem_cons_self, noneHere, behind]
    rfl

variable {lines : LineIndex} {text rest run body : List Char} {stop : Char → Bool}
  {parts : Template} {fuel : Nat} {quote : Char} {q : Template → Prop}

/-- The rest of a string is taken up to its end. -/
theorem reads_takeString (isQuote : isQuote quote = true) (inside : IsInside quote body) :
    Reads lines (takeString parts quote (fuel + 2)) (body ++ quote :: rest)
      (· = parts.pushText (String.ofList (body ++ [quote]))) rest := by
  have closing (parts : Template) (fuel : Nat) :
      Reads lines (takeString parts quote (fuel + 1)) (quote :: rest)
        (· = parts.pushText (String.ofList [quote])) rest := by
    have notHash : quote ≠ '#' := quote_ne isQuote (by decide)
    have notEol : quote ≠ '\n' := quote_ne isQuote (by decide)
    have notEscape : quote ≠ '\\' := quote_ne isQuote (by decide)
    refine (Reads.eat_none (opens_none (not_opens_of_head (by simpa using notHash)))).bind
      fun _ no => ?_
    subst no
    refine Reads.get.bind fun c isText => ?_
    unfold Cursor.peek?
    rw [isText, List.head?_cons]
    split
    · simp_all
    · simp_all
    · simp_all
    · rename_i same
      cases same
      rw [if_pos (beq_self_eq_true _)]
      refine (Reads.take (w := [quote]) rfl).bind fun _ same => ?_
      subst same
      exact .pure rfl
  cases body with
  | nil => exact closing parts (fuel + 1)
  | cons x more =>
    obtain ⟨notQuote, notEscape, notEol⟩ := inside.plain x List.mem_cons_self
    refine (Reads.eat_none (opens_none fun behind same => ?_)).bind fun _ no => ?_
    · cases more with
      | nil =>
        cases same
        cases isQuote
      | cons y more =>
        cases same
        exact inside.noExpr (List.infix_append' [] _ more)
    subst no
    refine Reads.get.bind fun c isText => ?_
    unfold Cursor.peek?
    have taken : plainRun (fun x => x == quote || x == '\\' || x == '\n') (x :: more ++ quote :: rest) =
        (x :: more).length := by
      refine plainRun_append (fun d member => ?_) inside.noExpr ?_ (by simp)
      · obtain ⟨notQuote, notEscape, notEol⟩ := inside.plain d member
        simp [notQuote, notEscape, notEol]
      · rintro _ ⟨⟩
        cases isQuote
    rw [isText, List.cons_append, List.head?_cons]
    split
    · simp_all
    · simp_all
    · simp_all
    · rename_i same
      cases same
      rw [if_neg (by simpa using notQuote)]
      dsimp only
      rw [← List.cons_append, taken]
      refine (Reads.take rfl).bind fun _ same => ?_
      subst same
      refine (closing _ fuel).weaken fun _ same => ?_
      rw [same, Template.pushText_pushText, ← String.ofList_append]

/-- Outside of strings, text is taken up to what is special. -/
theorem reads_takeText_run (calm : ∀ c, isStatementEnd c = false → stop c = false)
    (plain : ∀ c ∈ run, isHeadChar c = true) (filled : run ≠ [])
    (gap : run.getLast? = some '#' → text.head? ≠ some '\x7b')
    (special : ∀ c, text.head? = some c → (stop c || c == '\\' || isQuote c) = true)
    (behind : Reads lines (takeText stop (parts.pushText (String.ofList run)) fuel) text q rest) :
    Reads lines (takeText stop parts (fuel + 1)) (run ++ text) q rest := by
  obtain ⟨x, more, rfl⟩ := List.exists_cons_of_ne_nil filled
  obtain ⟨notEnd, notEscape, notQuote, notBrace, _⟩ := isHeadChar_spec (plain x List.mem_cons_self)
  refine (Reads.eat_none (opens_none fun behind same => ?_)).bind fun _ no => ?_
  · cases more with
    | nil =>
      obtain ⟨rfl, isText⟩ := List.cons.inj same
      exact gap rfl (by rw [show text = _ from isText]; rfl)
    | cons y more =>
      cases same
      exact noExpr_of_isHeadChar plain (List.infix_append' [] _ more)
  subst no
  refine Reads.get.bind fun c isText => ?_
  unfold Cursor.peek?
  have taken : plainRun (fun x => stop x || x == '\\' || isQuote x) (x :: more ++ text) =
      (x :: more).length := by
    refine plainRun_append (fun d member => ?_) (noExpr_of_isHeadChar plain) gap special
    obtain ⟨notEnd, notEscape, notQuote, _⟩ := isHeadChar_spec (plain d member)
    simp [calm d notEnd, notQuote, notEscape]
  simp only [isText, List.cons_append, List.head?_cons, calm x notEnd, notQuote, beq_iff_eq, notEscape]
  rw [← List.cons_append, taken]
  exact (Reads.take rfl).bind fun _ same => same ▸ behind

/-- A string is taken whole. -/
theorem reads_takeText_string (calm : ∀ c, isStatementEnd c = false → stop c = false)
    (isQuote : isQuote quote = true) (inside : IsInside quote body)
    (behind : Reads lines
      (takeText stop (parts.pushText (String.ofList (quote :: (body ++ [quote])))) fuel) text q rest) :
    Reads lines (takeText stop parts (fuel + 1)) (quote :: (body ++ quote :: text)) q rest := by
  have notEnd : isStatementEnd quote = false := by
    simp only [Header.isQuote, Bool.or_eq_true, beq_iff_eq] at isQuote
    rcases isQuote with rfl | rfl <;> decide
  have notEscape : quote ≠ '\\' := quote_ne isQuote (by decide)
  refine (Reads.eat_none (opens_none (not_opens_of_head ?_))).bind fun _ no => ?_
  · rintro ⟨⟩
    cases isQuote
  subst no
  refine Reads.get.bind fun c isText => ?_
  unfold Cursor.peek?
  simp only [isText, List.head?_cons, calm quote notEnd, beq_iff_eq, notEscape, isQuote, if_true]
  refine (Reads.take (w := [quote]) rfl).bind fun _ same => ?_
  subst same
  rw [List.length_cons, List.length_append, List.length_cons]
  refine (reads_takeString isQuote inside).bind fun _ same => ?_
  subst same
  rw [Template.pushText_pushText, ← String.ofList_append]
  exact behind

/-- A text in which nothing is special outside of strings is taken as it stands. -/
theorem reads_takeText (calm : ∀ c, isStatementEnd c = false → stop c = false)
    (plain : IsVerbatim text) (gap : text.getLast? ≠ some '#')
    (ends : ∀ c, rest.head? = some c → stop c = true ∧ c ≠ '#') (enough : text.length < fuel) :
    Reads lines (takeText stop parts fuel) (text ++ rest)
      (· = parts.pushText (String.ofList text)) rest := by
  induction plain generalizing parts fuel with
  | @run run plain =>
    obtain ⟨fuel, rfl⟩ := Nat.exists_eq_add_of_le' (Nat.one_le_of_lt enough)
    by_cases empty : run = []
    · subst empty
      exact reads_takeText_stop ends
    · obtain ⟨fuel, rfl⟩ := Nat.exists_eq_add_of_le' (show 1 ≤ fuel by
        have filled := List.length_pos_of_ne_nil empty
        omega)
      refine reads_takeText_run calm plain empty (fun isLast => absurd isLast gap) (fun c isHead => ?_)
        (reads_takeText_stop ends)
      simp [(ends c isHead).1]
  | @string run body behind quote plain isQuote inside others ih =>
    have last : behind.getLast? ≠ some '#' := by
      intro isLast
      refine gap ?_
      rw [show run ++ quote :: (body ++ quote :: behind) = (run ++ quote :: (body ++ [quote])) ++ behind
        by simp, List.getLast?_append, isLast]
      rfl
    have fromQuote (parts : Template) (fuel : Nat) (enough : behind.length < fuel) :
        Reads lines (takeText stop parts (fuel + 1)) (quote :: (body ++ quote :: (behind ++ rest)))
          (· = parts.pushText (String.ofList (quote :: (body ++ quote :: behind)))) rest := by
      refine reads_takeText_string calm isQuote inside ((ih last enough).weaken fun _ same => ?_)
      rw [same, Template.pushText_pushText, ← String.ofList_append]
      simp
    simp only [List.length_append, List.length_cons] at enough
    obtain ⟨fuel, rfl⟩ := Nat.exists_eq_add_of_le' (Nat.one_le_of_lt enough)
    rw [List.append_assoc, List.cons_append, List.append_assoc, List.cons_append]
    by_cases empty : run = []
    · subst empty
      exact fromQuote parts fuel (by omega)
    · have filled := List.length_pos_of_ne_nil empty
      obtain ⟨fuel, rfl⟩ := Nat.exists_eq_add_of_le' (show 1 ≤ fuel by omega)
      refine reads_takeText_run calm plain empty ?_ ?_
        ((fromQuote _ fuel (by omega)).weaken fun _ same => ?_)
      · rintro _ ⟨⟩
        cases isQuote
      · rintro _ ⟨⟩
        simp [isQuote]
      · rw [same, Template.pushText_pushText, ← String.ofList_append]

theorem reads_templateUntil (calm : ∀ c, isStatementEnd c = false → stop c = false)
    (plain : IsVerbatim text) (gap : text.getLast? ≠ some '#')
    (ends : ∀ c, rest.head? = some c → stop c = true ∧ c ≠ '#') :
    Reads lines (templateUntil stop) (text ++ rest) (· = Template.ofText (String.ofList text))
      rest := by
  refine Reads.get.bind fun c isText => ?_
  refine reads_takeText calm plain gap ends ?_
  rw [isText, List.length_append]
  omega

/-- All of a text without expressions is taken as it stands. -/
theorem reads_rawTemplate (noExpr : ¬ ['#', '\x7b'] <:+: text) :
    Reads lines rawTemplate text (· = Template.ofText (String.ofList text)) [] := by
  have ends (parts : Template) (fuel : Nat) : Reads lines (takeRaw parts fuel) [] (· = parts) [] := by
    cases fuel with
    | zero => exact .pure rfl
    | succ fuel =>
      refine (Reads.eat_none (opens_none (by simp))).bind fun _ no => ?_
      subst no
      refine Reads.get.bind fun c isText => ?_
      unfold Cursor.isDone
      rw [isText]
      exact .pure rfl
  refine Reads.get.bind fun c isText => ?_
  rw [isText]
  cases text with
  | nil => exact ends [] _
  | cons x more =>
    refine (Reads.eat_none (opens_none fun behind same => ?_)).bind fun _ no => ?_
    · rw [same] at noExpr
      exact noExpr (List.infix_append' [] _ behind)
    subst no
    refine Reads.get.bind fun c isText => ?_
    unfold Cursor.isDone
    rw [isText]
    refine Reads.get.bind fun c isText => ?_
    have taken : plainRun (fun _ => false) (x :: more ++ []) = (x :: more).length :=
      plainRun_append (fun _ _ => rfl) noExpr (by simp) (by simp)
    rw [List.append_nil] at taken
    rw [isText, taken]
    have whole : Reads lines (take (x :: more).length) (x :: more ++ [])
        (· = String.ofList (x :: more)) [] := .take rfl
    rw [List.append_nil] at whole
    refine whole.bind fun _ same => ?_
    subst same
    exact ends _ _

end Plain

section Forms

variable {lines : LineIndex} {text rest body : List Char} {quote : Char} {fuel : Nat}

theorem Reads.eatWord_none {word : String} (other : Scan.keyword word text = false) :
    Reads lines (eatWord word) text (· = false) text := by
  refine Reads.get.bind fun c isText => ?_
  rw [isText, other]
  exact .pure rfl

/-- A form that is not there is not taken. -/
theorem Reads.scan_none {form : List Char → Option Nat} (absent : form text = none) :
    Reads lines (scan? form) text (· = none) text := by
  refine Reads.get.bind fun c isText => ?_
  rw [isText, absent]
  exact .pure rfl

theorem Reads.scan_some {form : List Char → Option Nat} {w : List Char}
    (found : form (w ++ rest) = some w.length) :
    Reads lines (scan? form) (w ++ rest) (· = some (String.ofList w)) rest := by
  refine Reads.get.bind fun c isText => ?_
  rw [isText, found]
  exact (Reads.take rfl).map fun a same => congrArg some same

/-- A string ends at the first quote of its kind. -/
theorem stringEnd_inside (opens : isQuote quote = true)
    (plain : ∀ c ∈ body, c ≠ quote ∧ c ≠ '\\' ∧ c ≠ '\n') {c : Cursor}
    (isText : c.rest = body ++ quote :: rest) (enough : body.length < fuel) :
    stringEnd quote c fuel = .ok (c.advance (body.length + 1)) := by
  induction body generalizing c fuel with
  | nil =>
    obtain ⟨fuel, rfl⟩ := Nat.exists_eq_add_of_le' (Nat.one_le_of_lt enough)
    have first : c.peek? = some quote := by
      rw [Cursor.peek?, isText]
      rfl
    unfold stringEnd
    rw [first]
    split
    · rename_i same
      cases same
    · rename_i same
      exact absurd (Option.some.inj same) (quote_ne opens (by decide))
    · rename_i same
      exact absurd (Option.some.inj same) (quote_ne opens (by decide))
    · rename_i same
      cases same
      rw [if_pos (beq_self_eq_true _)]
      rfl
  | cons x body ih =>
    obtain ⟨fuel, rfl⟩ := Nat.exists_eq_add_of_le' (Nat.one_le_of_lt enough)
    obtain ⟨notQuote, notEscape, notEol⟩ := plain x List.mem_cons_self
    have first : c.peek? = some x := by
      rw [Cursor.peek?, isText]
      rfl
    have next : c.next.rest = body ++ quote :: rest := by
      rw [Cursor.rest_next, isText]
      rfl
    unfold stringEnd
    rw [first]
    split
    · rename_i same
      cases same
    · rename_i same
      exact absurd (Option.some.inj same) notEol
    · rename_i same
      exact absurd (Option.some.inj same) notEscape
    · rename_i same
      cases same
      rw [if_neg (by simpa using notQuote)]
      rw [ih (fun d member => plain d (List.mem_cons_of_mem x member)) next (by simpa using enough)]
      rfl

/-- A string is read with its quotes. -/
theorem reads_quoted (opens : isQuote quote = true)
    (plain : ∀ c ∈ body, c ≠ quote ∧ c ≠ '\\' ∧ c ≠ '\n') :
    Reads lines quoted (quote :: (body ++ quote :: rest))
      (· = String.ofList (quote :: (body ++ [quote]))) rest := by
  refine Reads.get.bind fun start isText => ?_
  have first : start.peek?.filter isQuote = some quote := by
    rw [Cursor.peek?, isText]
    simp [opens]
  have next : start.next.rest = body ++ quote :: rest := by
    rw [Cursor.rest_next, isText]
    rfl
  have spelled : start.rest = (quote :: (body ++ [quote])) ++ rest := by
    rw [isText]
    simp
  have stop : start.next.advance (body.length + 1) =
      start.advance (quote :: (body ++ [quote])).length := by
    rw [List.length_cons, List.length_append]
    rfl
  have ends : stringEnd quote start.next (start.rest.length + 1) =
      .ok (start.advance (quote :: (body ++ [quote])).length) := by
    rw [← stop]
    refine stringEnd_inside opens plain next ?_
    rw [isText]
    simp only [List.length_cons, List.length_append]
    omega
  rw [first]
  dsimp only
  rw [ends]
  refine (Reads.set (Cursor.rest_advance_append spelled)).after fun _ => ?_
  rw [Cursor.textTo_advance spelled]
  exact .pure rfl

/-- A text that starts neither with an asterisk nor with an expression. -/
structure StartsPlain (text : List Char) : Prop where
  notStar : text.head? ≠ some '*'
  notOpen : ∀ behind, text ≠ '#' :: '\x7b' :: behind

theorem StartsPlain.eat_star (starts : StartsPlain text) :
    Reads lines (Header.eat "*") text (· = false) text :=
  .eat_none (isPrefixOf_false (c := '*') rfl starts.notStar)

theorem Reads.propertyName_none (starts : StartsPlain text) (absent : ident? text = none) :
    Reads lines propertyName? text (· = none) text := by
  refine starts.eat_star.bind fun _ no => ?_
  subst no
  refine Reads.get.after fun c => ?_
  refine (Reads.eat_none (opens_none starts.notOpen)).bind fun _ no => ?_
  subst no
  refine (Reads.scan_none absent).bind fun _ no => ?_
  subst no
  exact .pure rfl

/-- An asterisk alone is no name. -/
theorem Reads.propertyName_star (notOpen : ∀ behind, text ≠ '#' :: '\x7b' :: behind)
    (absent : ident? text = none) : Reads lines propertyName? ('*' :: text) (· = none) text := by
  refine (Reads.eat "*" text).bind fun _ yes => ?_
  subst yes
  refine Reads.get.after fun c => ?_
  refine (Reads.eat_none (opens_none notOpen)).bind fun _ no => ?_
  subst no
  refine (Reads.scan_none absent).bind fun _ no => ?_
  subst no
  exact .pure rfl

theorem Reads.propertyName_some {name : List Char} (starts : StartsPlain (name ++ rest))
    (ident : Ident name) (stop : nameTail rest = 0)
    (noExpr : ∀ behind, rest ≠ '#' :: '\x7b' :: behind) :
    Reads lines propertyName? (name ++ rest)
      (· = some (Template.ofText (String.ofList name))) rest := by
  have noMore : name? rest = none := by
    unfold name?
    rw [stop]
    rfl
  have more (parts : Template) (fuel : Nat) :
      Reads lines (moreName parts fuel) rest (· = parts) rest := by
    cases fuel with
    | zero => exact .pure rfl
    | succ fuel =>
      refine (Reads.eat_none (opens_none noExpr)).bind fun _ no => ?_
      subst no
      refine (Reads.scan_none noMore).bind fun _ no => ?_
      subst no
      exact .pure rfl
  refine starts.eat_star.bind fun _ no => ?_
  subst no
  refine Reads.get.after fun c => ?_
  refine (Reads.eat_none (opens_none starts.notOpen)).bind fun _ no => ?_
  subst no
  refine (Reads.scan_some (ident?_append ident stop)).bind fun _ found => ?_
  subst found
  exact (more _ _).map fun parts same => congrArg some same

/-- A text that is read as an expression behind a blank, up to the end of a statement. -/
def IsValue (text : List Char) (e : Expr) : Prop :=
  (∃ x more, text = x :: more ∧ Text.isBlank x = false ∧ isStatementEnd x = false) ∧
    ∀ rest, (∀ c, rest.head? = some c → c = ';') → Script.Yields (' ' :: (text ++ rest)) e rest

theorem Reads.expr {e : Expr} (yields : Script.Yields text e rest) :
    Reads lines Header.expr text (fun found => found.unplaced = e) rest := by
  refine Reads.read.bind fun known same => Reads.get.bind fun c isText => ?_
  subst same
  obtain ⟨found, after, parsed, isExpr, left⟩ := yields known c isText
  refine (Reads.lift parsed).bind fun pair same => ?_
  subst same
  exact (Reads.set left).after fun _ => .pure isExpr

theorem Reads.propertyValue {value : List Char} {e : Expr} (isValue : IsValue value e)
    (ends : ∀ c, rest.head? = some c → c = ';') :
    Reads lines propertyValue? (' ' :: (value ++ rest))
      (fun found => found.map Expr.unplaced = some e) rest := by
  obtain ⟨⟨x, more, rfl, notBlank, notEnd⟩, yields⟩ := isValue
  refine Reads.get.bind fun c isText => ?_
  have next : c.skipBlanks.peek? = some x := by
    rw [Cursor.peek?, Cursor.rest_skipBlanks, isText]
    simp [notBlank, show Text.isBlank ' ' = true by decide]
  rw [next]
  simp only [notEnd]
  exact (Reads.expr (yields rest ends)).map fun found isExpr => congrArg some isExpr

end Forms

end Header

end Stylesheet
