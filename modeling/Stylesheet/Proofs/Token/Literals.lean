import Stylesheet.Proofs.Expr.Reading
import Stylesheet.Proofs.Source.Spelling
import Stylesheet.Proofs.Token.Sequence

/-! How tokens begin. Numbers, separators and the end of a text are found behind blanks, whatever
follows them. -/

namespace Stylesheet

namespace Scan

/-- The visible characters of ASCII are no blanks. -/
theorem isBlank_of_visible {c : Char} (atLeast : 33 ≤ c.toNat) (upTo : c.toNat ≤ 126) :
    Text.isBlank c = false := by
  simp only [Text.isBlank, Bool.or_eq_false_iff, Bool.and_eq_false_iff, decide_eq_false_iff_not,
    beq_eq_false_iff_ne]
  omega

theorem isBlank_of_isDigit {d : Char} (isDigit : d.isDigit = true) : Text.isBlank d = false := by
  have bounds := Bool.and_eq_true_iff.mp isDigit
  have atLeast : 48 ≤ d.toNat := UInt32.le_iff_toNat_le.mp (of_decide_eq_true bounds.1)
  have upTo : d.toNat ≤ 57 := UInt32.le_iff_toNat_le.mp (of_decide_eq_true bounds.2)
  exact isBlank_of_visible (Nat.le_trans (by decide) atLeast) (Nat.le_trans upTo (by decide))

theorem isBlank_of_isLower {c : Char} (isLower : c.isLower = true) : Text.isBlank c = false := by
  have bounds := Bool.and_eq_true_iff.mp isLower
  have atLeast : 97 ≤ c.toNat := UInt32.le_iff_toNat_le.mp (of_decide_eq_true bounds.1)
  have upTo : c.toNat ≤ 122 := UInt32.le_iff_toNat_le.mp (of_decide_eq_true bounds.2)
  exact isBlank_of_visible (Nat.le_trans (by decide) atLeast) (Nat.le_trans upTo (by decide))

theorem toLower_of_isDigit {d : Char} (isDigit : d.isDigit = true) : d.toLower = d := by
  unfold Char.toLower
  rw [dif_neg]
  rintro ⟨atLeast, -⟩
  have upTo : d.val ≤ 57 := of_decide_eq_true (Bool.and_eq_true_iff.mp isDigit).2
  have notDigit : (65 : UInt32) ≤ 57 := UInt32.le_trans atLeast upTo
  exact absurd notDigit (by decide)

/-- Digits, at least one. -/
def Digits (w : List Char) : Prop :=
  w ≠ [] ∧ ∀ c ∈ w, c.isDigit = true

/-- Digits with an optional fraction. -/
inductive DecimalText : List Char → Prop where
  | whole (digits : Digits w) : DecimalText w
  | point (digits : Digits w) (fraction : Digits v) : DecimalText (w ++ '.' :: v)

theorem DecimalText.exists_cons {w : List Char} (decimal : DecimalText w) :
    ∃ d more, w = d :: more ∧ d.isDigit = true := by
  have first : ∀ w, Digits w → ∃ d more, w = d :: more ∧ d.isDigit = true := by
    intro w digits
    obtain ⟨d, more, rfl⟩ := List.exists_cons_of_ne_nil digits.1
    exact ⟨d, more, rfl, digits.2 d List.mem_cons_self⟩
  cases decimal with
  | whole digits => exact first w digits
  | point digits fraction =>
    obtain ⟨d, more, rfl, isDigit⟩ := first _ digits
    exact ⟨d, _, rfl, isDigit⟩

/-- A letter or percent sign. -/
def isUnitChar (c : Char) : Bool :=
  c.isAlpha || c == '%'

theorem isUnitChar_ends {c : Char} (isUnit : isUnitChar c = true) : c.isDigit = false ∧ c ≠ '.' := by
  constructor
  · rcases Bool.or_eq_true_iff.mp isUnit with letter | percent
    · exact isDigit_of_isNameStart (by simp [isNameStart, letter])
    · rw [beq_iff_eq.mp percent]
      rfl
  · rintro rfl
    cases isUnit

/-- No character of a number stands in front. -/
def EndsDigits (rest : List Char) : Prop :=
  ∀ c, rest.head? = some c → c.isDigit = false ∧ c ≠ '.'

theorem digits?_append {w rest : List Char} (decimal : DecimalText w) (stop : EndsDigits rest) :
    digits? (w ++ rest) = some w.length := by
  cases decimal with
  | whole digits =>
    have length := run_append digits.2 fun c head => (stop c head).1
    have positive : w.length ≠ 0 := by simpa using digits.1
    unfold digits?
    dsimp only
    rw [length, List.drop_left]
    split
    · exact absurd rfl (stop '.' rfl).2
    · rw [if_neg positive]
  | point digits fraction =>
    rename_i w v
    have whole : run Char.isDigit (w ++ '.' :: (v ++ rest)) = w.length :=
      run_append digits.2 (by rintro c ⟨⟩; rfl)
    have part : run Char.isDigit (v ++ rest) = v.length :=
      run_append fraction.2 fun c head => (stop c head).1
    have positive : v.length ≠ 0 := by simpa using fraction.1
    rw [List.append_assoc, List.cons_append, digits?, whole, List.drop_left]
    split
    · rename_i behind same
      cases same
      rw [part]
      split
      · rename_i zero
        exact absurd zero positive
      · simp only [List.length_append, List.length_cons, Option.some.injEq]
        omega
    · rename_i other
      exact absurd rfl (other (v ++ rest))

theorem number?_append {w unit rest : List Char} (decimal : DecimalText w)
    (units : ∀ c ∈ unit, isUnitChar c = true) (stop : EndsDigits rest)
    (noUnit : ∀ c, rest.head? = some c → isUnitChar c = false) :
    number? (w ++ (unit ++ rest)) = some (w.length, unit.length) := by
  have ends : EndsDigits (unit ++ rest) := by
    intro c head
    cases unit with
    | nil => exact stop c head
    | cons d unit =>
      cases head
      exact isUnitChar_ends (units c List.mem_cons_self)
  have length : run (fun c => c.isAlpha || c == '%') (unit ++ rest) = unit.length :=
    run_append units noUnit
  unfold number?
  rw [digits?_append decimal ends, Option.map_some, List.drop_left, length]

theorem startsWithWord_of_head {c d : Char} {word : String} {tail : List Char}
    (spelled : word.toList = d :: tail) (other : c.toLower ≠ d.toLower) (rest : List Char) :
    startsWithWord word (c :: rest) = false := by
  have length : word.length = tail.length + 1 := by
    rw [← String.length_toList, spelled, List.length_cons]
  unfold startsWithWord
  rw [spelled, length, List.take_succ_cons, List.map_cons, List.map_cons]
  simpa using fun same => absurd same.symm other

theorem unicodeRange?_none {text : List Char}
    (other : ∀ u rest, text = u :: '+' :: rest → u ≠ 'u' ∧ u ≠ 'U') : unicodeRange? text = none := by
  unfold unicodeRange?
  split
  · rename_i u rest
    obtain ⟨notSmall, notLarge⟩ := other u rest rfl
    rw [if_neg (by simp [notSmall, notLarge])]
  · rfl

end Scan

namespace Double

open Scan

theorem splitDigits_append {w rest : List Char} (digits : ∀ c ∈ w, c.isDigit = true)
    (stop : ∀ c, rest.head? = some c → c.isDigit = false) : splitDigits (w ++ rest) = (w, rest) := by
  unfold splitDigits
  rw [List.takeWhile_append_of_pos digits, List.dropWhile_append_of_pos digits]
  cases rest with
  | nil => simp
  | cons c rest => simp [stop c rfl]

/-- A decimal number is read as some double. -/
theorem exists_ofText? {w : List Char} (decimal : DecimalText w) :
    ∃ x, ofText? (String.ofList w) = some x := by
  have magnitude : ∃ x, readMagnitude? w = some x := by
    cases decimal with
    | whole digits =>
      have all : splitDigits (w ++ []) = (w, []) := splitDigits_append digits.2 (by simp)
      rw [List.append_nil] at all
      have notEmpty : w.isEmpty = false := by simpa using digits.1
      unfold readMagnitude?
      rw [all]
      simp [notEmpty]
    | point digits fraction =>
      rename_i w v
      have front : splitDigits (w ++ '.' :: v) = (w, '.' :: v) :=
        splitDigits_append digits.2 (by rintro c ⟨⟩; rfl)
      have back : splitDigits (v ++ []) = (v, []) := splitDigits_append fraction.2 (by simp)
      rw [List.append_nil] at back
      have notEmpty : w.isEmpty = false := by simpa using digits.1
      unfold readMagnitude?
      rw [front]
      simp [back, notEmpty]
  obtain ⟨x, magnitude⟩ := magnitude
  obtain ⟨d, more, rfl, isDigit⟩ := decimal.exists_cons
  have unsigned : readUnsigned? (d :: more) = some x := by
    have notWord : ∀ word : String, word.toList.head? ≠ some d →
        (String.ofList ((d :: more).map Char.toLower) == word) = false := by
      intro word other
      rw [beq_eq_false_iff_ne]
      rintro rfl
      rw [String.toList_ofList, List.map_cons, Scan.toLower_of_isDigit isDigit] at other
      exact other rfl
    have letter : ∀ c : Char, c.isDigit = false → some c ≠ some d := by
      rintro c notDigit ⟨⟩
      rw [isDigit] at notDigit
      cases notDigit
    unfold readUnsigned?
    dsimp only
    rw [notWord "inf" (letter 'i' rfl), notWord "infinity" (letter 'i' rfl),
      notWord "nan" (letter 'n' rfl)]
    exact magnitude
  refine ⟨x, ?_⟩
  unfold ofText?
  rw [String.toList_ofList]
  split
  · rename_i same
    cases same
    cases isDigit
  · rename_i same
    cases same
    cases isDigit
  · exact unsigned

end Double

namespace Lexer

open Scan

theorem gap_of_blanks {blanks : List Char} (blank : ∀ c ∈ blanks, Text.isBlank c = true)
    (count : Nat) (rest : List Char) :
    gap .outside count (blanks ++ rest) = gap .outside (count + blanks.length) rest := by
  induction blanks generalizing count with
  | nil => rfl
  | cons c blanks ih =>
    have isBlank := blank c List.mem_cons_self
    have notSlash : c ≠ '/' := by
      rintro rfl
      cases isBlank
    rw [List.cons_append, gap_of_not_slash notSlash, if_pos isBlank,
      ih (fun d member => blank d (List.mem_cons_of_mem c member)), List.length_cons]
    congr 1
    omega

/-- A number as it is written. -/
structure NumberText where
  negative : Bool
  digits : List Char
  unit : List Char
  decimal : DecimalText digits
  units : ∀ c ∈ unit, isUnitChar c = true

namespace NumberText

def chars (w : NumberText) : List Char :=
  (if w.negative then ['-'] else []) ++ w.digits ++ w.unit

/-- The double that the digits are read as. -/
def magnitude (w : NumberText) : Double :=
  (Double.ofText? (String.ofList w.digits)).get
    (Option.isSome_iff_exists.mpr (Double.exists_ofText? w.decimal))

/-- The number that a text is read as. -/
def number (w : NumberText) : Number :=
  let value := if w.negative then -w.magnitude else w.magnitude
  let number := if w.unit = [] then Number.ofDouble value
    else Number.ofUnit value (String.ofList w.unit)
  number.withSpelling number.inspect

end NumberText

theorem splitSign_of_digit {d : Char} (isDigit : d.isDigit = true) (rest : List Char) :
    splitSign (d :: rest) = (false, d :: rest) := by
  unfold splitSign
  split
  · rename_i same
    cases same
    cases isDigit
  · rfl

/-- A number behind a blank is read up to its end. -/
theorem number?_append (w : NumberText) {rest : List Char} (stop : EndsDigits rest)
    (noUnit : ∀ c, rest.head? = some c → isUnitChar c = false) :
    number? (w.chars ++ rest) true = some (w.number, w.chars.length) := by
  have isRead : Double.ofText? (String.ofList w.digits) = some w.magnitude :=
    (Option.some_get _).symm
  unfold NumberText.number
  generalize w.magnitude = x at isRead ⊢
  obtain ⟨negative, digits, unit, decimal, units⟩ := w
  have isRead : Double.ofText? (String.ofList digits) = some x := isRead
  have scanned := Scan.number?_append decimal units stop noUnit
  have taken : (digits ++ (unit ++ rest)).take digits.length = digits := List.take_left
  have behind : ((digits ++ (unit ++ rest)).drop digits.length).take unit.length = unit := by
    rw [List.drop_left, List.take_left]
  have split : splitSign ((if negative then ['-'] else []) ++ digits ++ unit ++ rest) =
      (negative, digits ++ (unit ++ rest)) := by
    rw [List.append_assoc, List.append_assoc]
    cases negative with
    | true => rfl
    | false =>
      obtain ⟨d, more, rfl, isDigit⟩ := decimal.exists_cons
      exact splitSign_of_digit isDigit _
  unfold number? NumberText.chars
  simp only [split, scanned, taken, behind, isRead, Option.bind_eq_bind, Option.bind_some,
    Bool.not_true, Bool.and_false, Bool.false_eq_true, if_false, List.length_eq_zero_iff,
    List.length_append]
  cases negative with
  | true =>
    simp only [if_true, List.length_cons, List.length_nil]
    rw [Nat.add_assoc 1, Nat.add_comm 1]
  | false => simp

/-- The separators of lists and of statements. -/
inductive Separates : Char → Mark → Prop where
  | comma : Separates ',' .comma
  | semicolon : Separates ';' .semicolon

theorem wordStep_separator {c : Cursor} {x : Char} {mark : Mark} {rest : List Char}
    (separates : Separates x mark) (isText : c.rest = x :: rest) (lines : LineIndex)
    (frames : List Frame) (spaceBefore : Bool) :
    wordStep lines c frames spaceBefore = .ok ⟨.mark mark, 1, frames⟩ := by
  have number : number? (x :: rest) spaceBefore = none := by
    cases separates <;> simp [number?, splitSign, Scan.number?, digits?, run]
  have bool : bool? (x :: rest) = none := by
    cases separates <;> simp [bool?]
  have range : unicodeRange? (x :: rest) = none := by
    apply unicodeRange?_none
    rintro u behind ⟨⟩
    cases separates <;> decide
  have raw : rawFunction? (x :: rest) = none := by
    have notWord : startsWithWord "progid:" (x :: rest) = false := by
      have spelled : "progid:".toList = 'p' :: "rogid:".toList := rfl
      apply startsWithWord_of_head spelled
      cases separates <;> decide
    have noIdent : ident? (x :: rest) = none := by
      cases separates <;> rfl
    unfold rawFunction?
    rw [notWord, noIdent]
    rfl
  have word : wordMark? (x :: rest) = none := by
    cases separates <;> simp [wordMark?]
  unfold wordStep
  rw [isText]
  simp only [number, bool, range, raw, word]
  cases separates <;> rfl

/-- The characters that start a token by themselves. -/
def startsToken (c : Char) : Bool :=
  c == '$' || c == '"' || c == '\'' || c == '#' || c == '\x7d'

theorem step_word {c : Cursor} {x : Char} {rest : List Char} (isText : c.rest = x :: rest)
    (word : startsToken x = false) (lines : LineIndex) (frames : List Frame) (spaceBefore : Bool) :
    step lines c frames spaceBefore = wordStep lines c frames spaceBefore := by
  unfold step
  rw [isText]
  split <;> simp_all [startsToken]

end Lexer

namespace Script

open Scan Lexer

/-- In front of a text that starts with no blank, a token is found by one step. -/
theorem begins_of_step (blanks text : List Char) {rest : List Char} {kind : Token.Kind}
    (blank : ∀ c ∈ blanks, Text.isBlank c = true)
    (starts : ∀ c, text.head? = some c → Text.isBlank c = false ∧ c ≠ '/')
    (step : ∀ lines (c : Cursor) spaceBefore, c.rest = text → (blanks ≠ [] → spaceBefore = true) →
      ∃ count, Lexer.step lines c [] spaceBefore = .ok ⟨kind, count, []⟩ ∧ text.drop count = rest)
    (plain : kind ≠ .endInterpolation) : Begins (blanks ++ text) kind rest := by
  intro lines state isText frames
  have gap : Lexer.gap .outside 0 state.cursor.rest = .ok blanks.length := by
    rw [isText, Lexer.gap_of_blanks blank, Nat.zero_add]
    cases text with
    | nil => rfl
    | cons x more =>
      obtain ⟨notBlank, notSlash⟩ := starts x rfl
      rw [Lexer.gap_of_not_slash notSlash, notBlank]
      rfl
  have left := Cursor.rest_advance_append isText
  have spaced : blanks ≠ [] →
      (state.cursor.advance blanks.length).preceding?.any Text.isBlank = true := by
    intro some
    rw [Cursor.preceding?, Cursor.before_advance_append isText]
    obtain ⟨front, last, rfl⟩ := List.eq_nil_or_concat blanks |>.resolve_left some
    rw [List.concat_eq_append, List.reverse_append]
    exact blank last (by simp)
  obtain ⟨count, found, behind⟩ := step lines _ _ left spaced
  have closes : ∀ span line before,
      Token.endsInterpolation ⟨kind, span, line, before⟩ = false := by
    intro span line before
    unfold Token.endsInterpolation
    split
    · rename_i same
      exact absurd same plain
    · rfl
  unfold Lexer.next
  rw [gap, frames]
  simp only [found, Except.map]
  refine ⟨_, _, rfl, rfl, ?_, rfl, closes _ _ _⟩
  rw [Cursor.rest_advance, left, behind]

theorem begins_end : Begins [] .endOfInput [] := by
  refine begins_of_step [] [] (by simp) (by simp) ?_ (by simp)
  intro lines c spaceBefore isText _
  refine ⟨0, ?_, rfl⟩
  unfold Lexer.step
  rw [isText]

theorem begins_separator {x : Char} {mark : Mark} (separates : Lexer.Separates x mark)
    (rest : List Char) : Begins (x :: rest) (.mark mark) rest := by
  refine begins_of_step [] (x :: rest) (by simp) ?_ ?_ (by simp)
  · rintro c ⟨⟩
    cases separates <;> decide
  · intro lines c spaceBefore isText _
    refine ⟨1, ?_, rfl⟩
    rw [step_word isText (by cases separates <;> rfl)]
    exact wordStep_separator separates isText lines [] spaceBefore

/-- Nothing stands behind a literal that could be taken for a part of it. -/
def EndsLiteral (rest : List Char) : Prop :=
  ∀ c, rest.head? = some c → c = ' ' ∨ c = ',' ∨ c = ';'

theorem EndsLiteral.endsDigits {rest : List Char} (ends : EndsLiteral rest) : EndsDigits rest := by
  intro c head
  rcases ends c head with rfl | rfl | rfl <;> decide

theorem EndsLiteral.not_isUnitChar {rest : List Char} (ends : EndsLiteral rest) :
    ∀ c, rest.head? = some c → isUnitChar c = false := by
  intro c head
  rcases ends c head with rfl | rfl | rfl <;> decide

/-- A text that is read as a value behind a blank. -/
def Spells (w : List Char) (v : Value) : Prop :=
  w ≠ [] ∧ ∀ rest, EndsLiteral rest →
    ∃ kind, Begins (' ' :: (w ++ rest)) kind rest ∧ literal? kind = some v

theorem spells_of_wordStep (kind : Token.Kind) {w : List Char} {x : Char} {more : List Char}
    {v : Value} (isText : w = x :: more)
    (notBlank : Text.isBlank x = false) (notSlash : x ≠ '/') (word : startsToken x = false)
    (step : ∀ lines (c : Cursor) rest, EndsLiteral rest → c.rest = w ++ rest →
      wordStep lines c [] true = .ok ⟨kind, w.length, []⟩) (literal : literal? kind = some v) :
    Spells w v := by
  refine ⟨by simp [isText], fun rest ends => ⟨kind, ?_, literal⟩⟩
  refine begins_of_step [' '] (w ++ rest) (by simp; decide) ?_ ?_ ?_
  · rw [isText]
    rintro c ⟨⟩
    exact ⟨notBlank, notSlash⟩
  · intro lines c spaceBefore here spaced
    rw [spaced (by simp)]
    refine ⟨w.length, ?_, List.drop_left⟩
    rw [← step lines c rest ends here]
    apply step_word _ word
    · exact more ++ rest
    · rw [here, isText, List.cons_append]
  · rintro rfl
    cases literal

/-- A number is read with the text that it is shown by. -/
theorem spells_number (w : NumberText) : Spells w.chars (.number w.number) := by
  obtain ⟨d, more, isDigits, isDigit⟩ := w.decimal.exists_cons
  have first : ∃ y more, w.chars = y :: more ∧ (y = '-' ∨ y.isDigit = true) := by
    unfold NumberText.chars
    cases w.negative with
    | true => exact ⟨'-', _, rfl, .inl rfl⟩
    | false => exact ⟨d, more ++ w.unit, by simp [isDigits], .inr isDigit⟩
  obtain ⟨y, more, isText, starts⟩ := first
  have other : ∀ c, c ≠ '-' → c.isDigit = false → y ≠ c := by
    rintro c notMinus notDigit rfl
    rcases starts with rfl | digit
    · exact notMinus rfl
    · rw [digit] at notDigit
      cases notDigit
  have notBlank : Text.isBlank y = false := by
    rcases starts with rfl | digit
    · decide
    · exact isBlank_of_isDigit digit
  have word : startsToken y = false := by
    have marks : y ≠ '$' ∧ y ≠ '"' ∧ y ≠ '\'' ∧ y ≠ '#' ∧ y ≠ '\x7d' :=
      ⟨other _ (by decide) rfl, other _ (by decide) rfl, other _ (by decide) rfl,
        other _ (by decide) rfl, other _ (by decide) rfl⟩
    simp [startsToken, marks]
  refine spells_of_wordStep (.number w.number) isText notBlank
    (other '/' (by decide) rfl) word ?_ rfl
  intro lines c rest ends here
  have found := number?_append w ends.endsDigits ends.not_isUnitChar
  unfold wordStep
  rw [here]
  simp only [found]

end Script

end Stylesheet
