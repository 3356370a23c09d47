import Stylesheet.Proofs.Statement.Values

/-! Words and quoted strings are literals that are shown by the very text that they are read from. -/

namespace Stylesheet

open Scan Script

/-- A literal that is shown by the text that it is read from. -/
def WrittenLiteral.IsFaithful (l : WrittenLiteral) : Prop :=
  l.value.toCss .nested = .ok (String.ofList l.text)

section Names

variable {w rest : List Char}

theorem Script.EndsLiteral.not_isNameChar (ends : EndsLiteral rest) :
    ∀ c, rest.head? = some c → isNameChar c = false := by
  intro c head
  rcases ends c head with rfl | rfl | rfl <;> decide

theorem Script.EndsLiteral.nameTail (ends : EndsLiteral rest) : nameTail rest = 0 := by
  refine nameTail_eq_zero ?_ ends.not_isNameChar
  intro escape
  rcases ends _ escape with same | same | same <;> cases same

/-- A name in front of which a word stands alone is that word. -/
theorem eq_of_standsAlone {word : List Char} (names : ∀ c ∈ word, isNameChar c = true)
    (plain : ∀ c ∈ w, isNameChar c = true)
    (stop : ∀ c, rest.head? = some c → isNameChar c = false)
    (starts : word.isPrefixOf (w ++ rest) = true)
    (alone : ∀ c, ((w ++ rest).drop word.length).head? = some c → isNameChar c = false) :
    w = word := by
  have front : ∀ {front back : List Char}, (∀ c ∈ front, isNameChar c = true) →
      (∀ c, back.head? = some c → isNameChar c = false) →
      (front ++ back).takeWhile isNameChar = front := by
    intro front back inside behind
    rw [List.takeWhile_append_of_pos inside]
    cases back with
    | nil => simp
    | cons c back => rw [List.takeWhile_cons_of_neg (by simp [behind c rfl]), List.append_nil]
  obtain ⟨behind, same⟩ := List.isPrefixOf_iff_prefix.mp starts
  rw [← same, List.drop_left] at alone
  exact (front plain stop).symm.trans ((congrArg _ same.symm).trans (front names alone))

theorem bool?_none (plain : ∀ c ∈ w, isNameChar c = true) (ends : EndsLiteral rest)
    (notTrue : w ≠ "true".toList) (notFalse : w ≠ "false".toList) :
    Lexer.bool? (w ++ rest) = none := by
  have other : ∀ word : String, (∀ c ∈ word.toList, isNameChar c = true) → w ≠ word.toList →
      (word.toList.isPrefixOf (w ++ rest) &&
        !((w ++ rest).drop word.length).head?.any isNameChar) = false := by
    intro word names different
    rw [Bool.eq_false_iff]
    intro both
    obtain ⟨starts, alone⟩ := Bool.and_eq_true_iff.mp both
    refine different (eq_of_standsAlone names plain ends.not_isNameChar starts fun c isHead => ?_)
    rw [String.length_toList] at isHead
    simpa [isHead] using alone
  unfold Lexer.bool?
  simp only [other "true" (List.all_eq_true.mp (by decide)) notTrue,
    other "false" (List.all_eq_true.mp (by decide)) notFalse, Bool.false_eq_true, if_false]

theorem wordMark?_none (plain : ∀ c ∈ w, isNameChar c = true) (ends : EndsLiteral rest)
    (notAnd : w ≠ "and".toList) (notOr : w ≠ "or".toList) (notNot : w ≠ "not".toList) :
    Lexer.wordMark? (w ++ rest) = none := by
  have other : ∀ word : String, (∀ c ∈ word.toList, isNameChar c = true) → w ≠ word.toList →
      (word.toList.isPrefixOf (w ++ rest) &&
        ((w ++ rest).drop word.length).head?.any (!isNameChar ·)) = false := by
    intro word names different
    rw [Bool.eq_false_iff]
    intro both
    obtain ⟨starts, alone⟩ := Bool.and_eq_true_iff.mp both
    refine different (eq_of_standsAlone names plain ends.not_isNameChar starts fun c isHead => ?_)
    rw [String.length_toList] at isHead
    simpa [isHead] using alone
  unfold Lexer.wordMark?
  simp only [other "and" (List.all_eq_true.mp (by decide)) notAnd,
    other "or" (List.all_eq_true.mp (by decide)) notOr,
    other "not" (List.all_eq_true.mp (by decide)) notNot, Bool.false_eq_true, if_false]

theorem toLower_eq_colon {c : Char} (isColon : c.toLower = ':') : c = ':' := by
  unfold Char.toLower at isColon
  split at isColon
  · rename_i upper
    have code := congrArg (fun d : Char => d.val.toNat) isColon
    have atLeast := UInt32.le_iff_toNat_le.mp upper.1
    have atMost := UInt32.le_iff_toNat_le.mp upper.2
    simp [UInt32.toNat_add] at code atLeast atMost
    omega
  · exact isColon

/-- There is no colon in a name, and none right behind a literal. -/
theorem not_startsWithWord_progid (plain : ∀ c ∈ w, isNameChar c = true) (ends : EndsLiteral rest) :
    startsWithWord "progid:" (w ++ rest) = false := by
  rw [Bool.eq_false_iff]
  intro same
  have same : "progid:".toList = ((w ++ rest).take 7).map Char.toLower :=
    (beq_iff_eq.mp same : "progid:".toList.map Char.toLower = _)
  have inside : ∀ c ∈ (w ++ rest).take 7, c.toLower ∈ "progid:".toList := by
    intro c member
    rw [same]
    exact List.mem_map_of_mem member
  obtain ⟨c, member, isColon⟩ := List.mem_map.mp (same ▸ (by decide : ':' ∈ "progid:".toList))
  rw [toLower_eq_colon isColon, List.take_append] at member
  rw [List.take_append] at inside
  rcases List.mem_append.mp member with inName | behind
  · cases plain ':' (List.mem_of_mem_take inName)
  · -- then the first character behind the name is in front of the colon, or is the colon
    cases count : 7 - w.length with
    | zero =>
      rw [count] at behind
      cases behind
    | succ more =>
      rw [count] at inside
      cases rest with
      | nil =>
        rw [List.take_nil] at behind
        cases behind
      | cons d rest =>
        have first := inside d (List.mem_append_right _ List.mem_cons_self)
        rcases ends d rfl with rfl | rfl | rfl
        all_goals exact absurd first (by decide)

theorem rawFunction?_none (ident : Ident w) (plain : ∀ c ∈ w, isNameChar c = true)
    (ends : EndsLiteral rest) : Lexer.rawFunction? (w ++ rest) = none := by
  unfold Lexer.rawFunction?
  rw [not_startsWithWord_progid plain ends, ident?_append ident ends.nameTail]
  simp only [Bool.false_eq_true, if_false, Option.bind_eq_bind, Option.bind_some, List.drop_left]
  cases rest with
  | nil => rfl
  | cons c rest =>
    rcases ends c rfl with rfl | rfl | rfl <;> rfl

/-- An identifier without escapes starts with a letter, perhaps behind a hyphen. -/
theorem Ident.starts (ident : Ident w) (plain : ∀ c ∈ w, isNameChar c = true) :
    ∃ x more, isNameStart x = true ∧ (w = x :: more ∨ w = '-' :: x :: more) := by
  have ofBody : ∀ w, IdentBody w → (∀ c ∈ w, isNameChar c = true) →
      ∃ x more, isNameStart x = true ∧ w = x :: more := by
    intro w body plain
    cases body with
    | start isStart tail => exact ⟨_, _, isStart, rfl⟩
    | escape c tail => cases plain '\\' List.mem_cons_self
  cases ident with
  | plain body =>
    obtain ⟨x, more, isStart, same⟩ := ofBody w body plain
    exact ⟨x, more, isStart, .inl same⟩
  | hyphen body =>
    obtain ⟨x, more, isStart, rfl⟩ := ofBody _ body fun c member =>
      plain c (List.mem_cons_of_mem _ member)
    exact ⟨x, more, isStart, .inr rfl⟩

theorem number?_none (ident : Ident w) (plain : ∀ c ∈ w, isNameChar c = true) :
    Lexer.number? (w ++ rest) true = none := by
  have noDigits : ∀ {x : Char} {more : List Char}, isNameStart x = true →
      Scan.number? (x :: more) = none := by
    intro x more isStart
    have notDigit := isDigit_of_isNameStart isStart
    have notPoint : x ≠ '.' := by
      rintro rfl
      exact absurd isStart (by decide)
    have whole : run Char.isDigit (x :: more) = 0 := by
      rw [run, List.takeWhile_cons_of_neg (by simp [notDigit])]
      rfl
    unfold Scan.number? digits?
    simp only [whole, List.drop_zero]
    split
    · rename_i same
      cases same
      exact absurd rfl notPoint
    · rfl
  obtain ⟨x, more, isStart, rfl | rfl⟩ := Ident.starts ident plain
  · have noSign : Lexer.splitSign (x :: (more ++ rest)) = (false, x :: (more ++ rest)) := by
      unfold Lexer.splitSign
      split
      · rename_i same
        cases same
        exact absurd isStart (by decide)
      · rfl
    unfold Lexer.number?
    simp only [List.cons_append, noSign, noDigits isStart]
    rfl
  · unfold Lexer.number?
    simp only [List.cons_append, Lexer.splitSign, noDigits isStart]
    rfl

end Names

theorem ident_of_whole {text : List Char} (whole : ident? text = some text.length) : Ident text := by
  have found := (ident?_take whole).1
  rwa [List.take_length] at found

/-- A name without escapes that means nothing special. -/
structure Word where
  text : List Char
  isIdent : ident? text = some text.length
  plain : ∀ c ∈ text, isNameChar c = true ∧ Text.isBlank c = false
  ordinary : String.ofList text ∉ ["true", "false", "and", "or", "not"]
  colorless : Color.ofName? (String.ofList text) = none

namespace Word

variable (word : Word)

theorem ident : Ident word.text :=
  ident_of_whole word.isIdent

theorem isNameChar : ∀ c ∈ word.text, Scan.isNameChar c = true :=
  fun c member => (word.plain c member).1

theorem text_ne {name : String} (reserved : name ∈ ["true", "false", "and", "or", "not"]) :
    word.text ≠ name.toList := by
  intro same
  apply word.ordinary
  rwa [same, String.ofList_toList]

theorem wordStep {lines : LineIndex} {c : Cursor} {rest : List Char} (ends : EndsLiteral rest)
    (isText : c.rest = word.text ++ rest) :
    Lexer.wordStep lines c [] true =
      .ok ⟨.ident (String.ofList word.text), word.text.length, []⟩ := by
  have found := ident?_append word.ident ends.nameTail
  have noParen : (rest.head? == some '(') = false := by
    rw [beq_eq_false_iff_ne]
    intro paren
    rcases ends _ paren with same | same | same <;> cases same
  obtain ⟨x, more, isCons, _⟩ := word.ident.exists_cons
  have isName := word.isNameChar
  have noRange : unicodeRange? (word.text ++ rest) = none := by
    apply unicodeRange?_none
    intro u behind same
    rw [isCons, List.cons_append] at same
    have same := (List.cons.inj same).2
    cases more with
    | nil => rcases ends '+' (congrArg List.head? same) with other | other | other <;> cases other
    | cons y more =>
      obtain rfl : y = '+' := (List.cons.inj same).1
      cases isName '+' (by simp [isCons])
  have notFlag : x ≠ '!' := by
    rintro rfl
    cases isName '!' (by simp [isCons])
  have noWord := wordMark?_none word.isNameChar ends (word.text_ne (by decide))
    (word.text_ne (by decide)) (word.text_ne (by decide))
  have noBool := bool?_none word.isNameChar ends (word.text_ne (by decide))
    (word.text_ne (by decide))
  unfold Lexer.wordStep
  simp only [isText, number?_none word.ident word.isNameChar, noBool, noRange,
    rawFunction?_none word.ident word.isNameChar ends]
  split
  · rename_i same
    rw [isCons, List.cons_append] at same
    exact absurd (List.cons.inj same).1 notFlag
  · rename_i same
    rw [isCons, List.cons_append] at same
    exact absurd (List.cons.inj same).1 notFlag
  · simp only [noWord, found, List.drop_left, noParen, Lexer.slice, isText, List.take_left]
    rfl

theorem spells : Spells word.text (.unquoted (String.ofList word.text)) := by
  obtain ⟨x, more, isCons, start⟩ := word.ident.exists_cons
  have isName := word.isNameChar x (by simp [isCons])
  have noToken : Lexer.startsToken x = false := by
    have other : ∀ d : Char, Scan.isNameChar d = false → x ≠ d := by
      rintro d notName rfl
      rw [isName] at notName
      cases notName
    simp [Lexer.startsToken, other '$' rfl, start.double, start.single, other '#' rfl, other '\x7d' rfl]
  refine spells_of_wordStep (.ident (String.ofList word.text)) isCons
    (word.plain x (by simp [isCons])).2 start.slash noToken
    (fun lines c rest ends here => word.wordStep ends here) ?_
  simp only [literal?, word.colorless]

theorem not_mem_text {c : Char} (notName : Scan.isNameChar c = false) : c ∉ word.text := by
  intro member
  rw [word.isNameChar c member] at notName
  cases notName

/-- A word as a literal. -/
def literal : WrittenLiteral where
  text := word.text
  value := .unquoted (String.ofList word.text)
  spells := word.spells
  starts := by
    obtain ⟨x, more, isCons, _⟩ := word.ident.exists_cons
    have notBlank := (word.plain x (by simp [isCons])).2
    have notEnd : Header.isStatementEnd x = false := by
      have other : ∀ d : Char, Scan.isNameChar d = false → x ≠ d := by
        rintro d notName rfl
        exact word.not_mem_text notName (by simp [isCons])
      simp [Header.isStatementEnd, other '\x7b' rfl, other ';' rfl, other '\x7d' rfl]
    simp [isCons, notBlank, notEnd]
  ends := by
    obtain ⟨x, more, isCons, _⟩ := word.ident.exists_cons
    obtain ⟨front, last, isConcat⟩ :=
      (List.eq_nil_or_concat word.text).resolve_left (by simp [isCons])
    have member : last ∈ word.text := by simp [isConcat]
    have other : ∀ d : Char, Scan.isNameChar d = false → last ≠ d := by
      rintro d notName rfl
      exact word.not_mem_text notName member
    rw [isConcat, List.concat_eq_append, List.getLast?_concat]
    simp [endsLine, (word.plain last member).2, other ',' rfl, other '#' rfl]
  oneLine := word.not_mem_text rfl

theorem isFaithful : word.literal.IsFaithful := by
  have unbroken : Text.replaceChar '\n' ' ' (String.ofList word.text) = String.ofList word.text := by
    unfold Text.replaceChar
    rw [String.ext_iff, String.toList_map, String.toList_ofList]
    refine (List.map_congr_left fun c member => ?_).trans (List.map_id _)
    rw [if_neg]
    · rfl
    · rw [beq_iff_eq]
      rintro rfl
      exact word.not_mem_text rfl member
  change Value.toCss .nested (.text _ false) = _
  unfold Value.toCss
  exact congrArg Except.ok unbroken

end Word

section Quotes

variable {text : List Char} {needle : Char} {escaped : Bool}

theorem Text.Quoted.hasBare_of_not_mem (absent : needle ∉ text) :
    hasBare needle escaped text = false := by
  induction text generalizing escaped with
  | nil => rfl
  | cons c rest ih =>
    obtain ⟨different, absent⟩ := not_or.mp (List.mem_cons.not.mp absent)
    rw [hasBare, ih absent, beq_eq_false_iff_ne.mpr (Ne.symm different)]
    rfl

theorem Text.Quoted.escapeDouble_of_not_mem (absent : '"' ∉ text) :
    escapeDouble escaped text = text := by
  induction text generalizing escaped with
  | nil => rfl
  | cons c rest ih =>
    obtain ⟨different, absent⟩ := not_or.mp (List.mem_cons.not.mp absent)
    rw [escapeDouble, ih absent, beq_eq_false_iff_ne.mpr (Ne.symm different)]
    rfl

end Quotes

/-- A character that stands for itself in quotes. -/
def isQuotable (c : Char) : Bool :=
  !(['"', '\\', '\n', '\r', '#'].contains c)

/-- A text between double quotes in which nothing is special. -/
structure QuotedText where
  content : List Char
  plain : ∀ c ∈ content, isQuotable c = true

namespace QuotedText

variable (quoted : QuotedText)

def text : List Char :=
  '"' :: (quoted.content ++ ['"'])

theorem stringPiece?_eq (rest : List Char) :
    Lexer.stringPiece? '"' (quoted.content ++ '"' :: rest) =
      some ⟨quoted.content, quoted.content.length + 1, false⟩ := by
  obtain ⟨content, plain⟩ := quoted
  change Lexer.stringPiece? '"' (content ++ '"' :: rest) = some ⟨content, content.length + 1, false⟩
  induction content with
  | nil => simp [Lexer.stringPiece?]
  | cons c content ih =>
    have others := ih fun d member => plain d (List.mem_cons_of_mem c member)
    have special : ∀ d, isQuotable d = false → c ≠ d := by
      rintro d special rfl
      rw [plain c List.mem_cons_self] at special
      cases special
    rw [List.cons_append, Lexer.stringPiece?.eq_3]
    · rw [others]
      simp [special '\\' rfl, special '\n' rfl, special '\r' rfl, special '"' rfl]
    · rintro d more rfl
      exact absurd rfl (special '\\' rfl)
    · rintro more rfl
      exact absurd rfl (special '#' rfl)

theorem spells : Spells quoted.text (.text (String.ofList quoted.content) true) := by
  refine ⟨by simp [text], fun rest ends => ⟨.text (String.ofList quoted.content) true, ?_, rfl⟩⟩
  refine begins_of_step [' '] (quoted.text ++ rest) (by simp; decide) ?_ ?_ (by simp)
  · rintro c ⟨⟩
    exact ⟨by decide, by decide⟩
  · intro lines c spaceBefore here _
    refine ⟨quoted.text.length, ?_, List.drop_left⟩
    have isText : c.rest = '"' :: (quoted.content ++ '"' :: rest) := by
      rw [here]
      simp [text]
    unfold Lexer.step
    rw [isText]
    unfold Lexer.stringStep
    simp only [isText, List.drop_succ_cons, List.drop_zero, quoted.stringPiece?_eq rest]
    simp [text]

/-- A string as a literal. -/
def literal : WrittenLiteral where
  text := quoted.text
  value := .text (String.ofList quoted.content) true
  spells := quoted.spells
  starts := rfl
  ends := by
    rw [text, ← List.cons_append, List.getLast?_concat]
    rfl
  oneLine := by
    intro member
    rcases List.mem_cons.mp member with same | member
    · cases same
    · rcases List.mem_append.mp member with inside | last
      · cases quoted.plain _ inside
      · cases List.mem_singleton.mp last

theorem isFaithful : quoted.literal.IsFaithful := by
  have noDouble : '"' ∉ quoted.content := by
    intro member
    cases quoted.plain _ member
  change Except.ok (Text.quote (String.ofList quoted.content)) = _
  unfold Text.quote Text.Quoted.encode
  rw [String.toList_ofList, Text.Quoted.hasBare_of_not_mem noDouble,
    Text.Quoted.escapeDouble_of_not_mem noDouble]
  rfl

end QuotedText

end Stylesheet
