import Stylesheet.Proofs.Except
import Stylesheet.Proofs.Source.Cursor
import Stylesheet.Proofs.Source.Spelling
import Stylesheet.Token.Lexer

/-! The tokens of a text without interpolations: no frame is ever opened, every token takes some of
the text, and the tokens stand one behind the other. In front of a brace, only the brace itself is
read past it. -/

namespace Stylesheet

/-- A text in which no interpolation opens. -/
def Uninterpolated (text : List Char) : Prop :=
  ¬['#', '\x7b'] <:+: text

theorem Uninterpolated.suffix {text rest : List Char} (plain : Uninterpolated text)
    (suffix : rest <:+ text) : Uninterpolated rest :=
  fun opens => plain (opens.trans suffix.isInfix)

theorem Uninterpolated.cons {c : Char} {text : List Char} (plain : Uninterpolated (c :: text)) :
    Uninterpolated text :=
  plain.suffix (List.suffix_cons c text)

theorem Uninterpolated.drop {text : List Char} (plain : Uninterpolated text) (count : Nat) :
    Uninterpolated (text.drop count) :=
  plain.suffix (List.drop_suffix count text)

theorem Uninterpolated.not_opening {rest : List Char} :
    ¬Uninterpolated ('#' :: '\x7b' :: rest) :=
  fun plain => plain ⟨[], rest, rfl⟩

/-- A token that has nothing to do with interpolations. -/
def Token.Kind.isPlain : Token.Kind → Bool
  | .textStart .. | .textMiddle .. | .textEnd .. | .beginInterpolation | .endInterpolation => false
  | _ => true

theorem Token.endsInterpolation_of_isPlain {token : Token} (plain : token.kind.isPlain = true) :
    token.endsInterpolation = false := by
  unfold Token.endsInterpolation
  split
  · rename_i ends
    rw [ends] at plain
    cases plain
  · rfl

section Tame

variable {front : List Char}

/-- The words behind which text is kept as it stands. -/
def Lexer.rawWords : List String :=
  ["url(", "calc(", "expression(", "element(", "progid:"]

/-- A character that opens and closes nothing by itself. -/
def isTameChar (c : Char) : Bool :=
  !(['\\', '"', '\'', '/', '$', '!', ';', '\x7b', '\x7d'].contains c)

/-- A text with neither escapes nor quotes, comments and what is kept as it stands: where a brace
follows, no token reaches over it. -/
structure IsTame (front : List Char) : Prop where
  chars : ∀ c ∈ front, isTameChar c = true
  notHash : front.getLast? ≠ some '#'
  noRaw : ∀ word ∈ Lexer.rawWords, ¬word.toList <:+: front.map Char.toLower

theorem IsTame.not_mem (tame : IsTame front) {c : Char} (special : isTameChar c = false) :
    c ∉ front := by
  intro member
  rw [tame.chars c member] at special
  cases special

theorem IsTame.suffix (tame : IsTame front) {rest : List Char} (isSuffix : rest <:+ front) :
    IsTame rest where
  chars c member := tame.chars c (isSuffix.mem member)
  notHash isHash := by
    obtain ⟨before, rfl⟩ := isSuffix
    obtain ⟨more, rfl⟩ := List.getLast?_eq_some_iff.mp isHash
    exact tame.notHash (by simp)
  noRaw word member raw := tame.noRaw word member (raw.trans (isSuffix.map _).isInfix)

/-- A blank changes nothing. -/
theorem IsTame.concat_blank (tame : IsTame front) : IsTame (front ++ [' ']) where
  chars c member := by
    rcases List.mem_append.mp member with inside | last
    · exact tame.chars c inside
    · rw [List.mem_singleton.mp last]
      decide
  notHash := by simp
  noRaw word member raw := by
    have noBlank : ∀ word ∈ Lexer.rawWords, ' ' ∉ word.toList := by decide
    rw [List.map_append] at raw
    rcases List.infix_concat_iff.mp raw with atEnd | inside
    · rcases List.suffix_concat_iff.mp atEnd with empty | ⟨start, isWord, -⟩
      · exact tame.noRaw word member (empty ▸ List.nil_infix)
      · exact noBlank word member (by rw [isWord]; exact List.mem_concat_self)
    · exact tame.noRaw word member inside

theorem IsTame.drop (tame : IsTame front) (count : Nat) : IsTame (front.drop count) :=
  tame.suffix (List.drop_suffix count front)

end Tame

namespace Scan

theorem digits?_pos {text : List Char} {count : Nat} (found : digits? text = some count) :
    0 < count := by
  unfold digits? at found
  grind

theorem identBody?_pos {text : List Char} {count : Nat} (found : identBody? text = some count) :
    0 < count := by
  unfold identBody? at found
  grind

theorem ident?_pos {text : List Char} {count : Nat} (found : ident? text = some count) :
    0 < count := by
  unfold ident? at found
  split at found
  · obtain ⟨body, _, rfl⟩ := Option.map_eq_some_iff.mp found
    exact Nat.succ_pos body
  · exact identBody?_pos found

theorem unicodeRange?_pos {text : List Char} {count : Nat}
    (found : unicodeRange? text = some count) : 0 < count := by
  unfold unicodeRange? at found
  grind

end Scan

namespace Lexer

section Pieces

theorem stringPiece?_plain {quote : Char} {text : List Char} {piece : Piece}
    (found : stringPiece? quote text = some piece) (plain : Uninterpolated text) :
    piece.interpolated = false := by
  fun_induction stringPiece? quote text generalizing piece with
  | case1 c rest ih =>
    obtain ⟨inner, isInner, rfl⟩ := Option.map_eq_some_iff.mp found
    have whole := ih isInner plain.cons.cons
    exact whole
  | case2 => exact absurd plain Uninterpolated.not_opening
  | case3 | case6 => cases found
  | case4 => cases found; rfl
  | case5 c rest _ _ _ _ ih =>
    obtain ⟨inner, isInner, rfl⟩ := Option.map_eq_some_iff.mp found
    have whole := ih isInner plain.cons
    exact whole

theorem rawPiece?_plain {depth : Nat} {text : List Char} {piece : RawPiece}
    (found : rawPiece? depth text = some piece) (plain : Uninterpolated text) :
    piece.interpolated = false := by
  fun_induction rawPiece? depth text generalizing piece with
  | case1 => exact absurd plain Uninterpolated.not_opening
  | case2 => cases found; rfl
  | case3 =>
    rename_i ih
    obtain ⟨inner, isInner, rfl⟩ := Option.map_eq_some_iff.mp found
    have whole := ih isInner plain.cons
    exact whole
  | case4 => cases found

theorem number?_pos {text : List Char} {spaceBefore : Bool} {number : Number} {count : Nat}
    (found : number? text spaceBefore = some (number, count)) : 0 < count := by
  unfold number? at found
  dsimp only at found
  split at found
  · cases found
  · obtain ⟨⟨digits, unit⟩, scanned, found⟩ := Option.bind_eq_some_iff.mp found
    obtain ⟨value, _, found⟩ := Option.bind_eq_some_iff.mp found
    obtain ⟨digits, isDigits, same⟩ := Option.map_eq_some_iff.mp scanned
    cases same
    cases found
    have := Scan.digits?_pos isDigits
    omega

end Pieces

theorem gap_of_not_slash {c : Char} (notSlash : c ≠ '/') (count : Nat) (rest : List Char) :
    gap .outside count (c :: rest) =
      if Text.isBlank c then gap .outside (count + 1) rest else .ok count := by
  conv => lhs; unfold gap
  split <;> simp_all

section Bounds

variable {front behind : List Char} {count : Nat}

theorem withoutVendor_suffix (name : List Char) : withoutVendor name <:+ name := by
  unfold withoutVendor
  split
  · rename_i rest
    exact ((List.drop_suffix 1 _).trans (List.dropWhile_suffix _)).trans (List.suffix_cons '-' rest)
  · exact List.suffix_rfl

/-- A word that starts in front of a brace and does not hold one ends there. -/
theorem prefix_front {word : List Char} (noBrace : '\x7b' ∉ word)
    (isPrefix : word <+: front ++ '\x7b' :: behind) : word <+: front := by
  refine List.prefix_of_prefix_length_le isPrefix (List.prefix_append _ _) ?_
  by_contra longer
  have whole : front ++ ['\x7b'] <+: front ++ '\x7b' :: behind := ⟨behind, by simp⟩
  have inside := List.prefix_of_prefix_length_le whole isPrefix (by simp; omega)
  exact noBrace (inside.subset (by simp))

theorem length_le_of_isWord (word : String) {ends : Bool} (noBrace : '\x7b' ∉ word.toList)
    (isWord : (word.toList.isPrefixOf (front ++ '\x7b' :: behind) && ends) = true) :
    word.length ≤ front.length := by
  rw [← String.length_toList]
  exact (prefix_front noBrace
    (List.isPrefixOf_iff_prefix.mp (Bool.and_eq_true_iff.mp isWord).1)).length_le

theorem infix_of_startsWithWord {word : String} (noBrace : '\x7b' ∉ word.toList.map Char.toLower)
    (starts : Scan.startsWithWord word (front ++ '\x7b' :: behind) = true) :
    word.toList.map Char.toLower <:+: front.map Char.toLower := by
  have isPrefix := (List.take_prefix word.length (front ++ '\x7b' :: behind)).map Char.toLower
  rw [← eq_of_beq starts, List.map_append, List.map_cons] at isPrefix
  exact (prefix_front noBrace isPrefix).isInfix

/-- What is called is written with a parenthesis behind it. -/
theorem infix_of_call {more : List Char} (opens : front.drop count = '(' :: more) :
    (front.take count).map Char.toLower ++ ['('] <:+: front.map Char.toLower := by
  have split := congrArg (List.map Char.toLower) (List.take_append_drop count front)
  rw [opens, List.map_append, List.map_cons] at split
  exact ⟨[], more.map Char.toLower, by rw [← split]; simp⟩

theorem rawFunction?_none (tame : IsTame front) :
    rawFunction? (front ++ '\x7b' :: behind) = none := by
  rw [Option.eq_none_iff_forall_ne_some]
  intro count found
  unfold rawFunction? at found
  split at found
  · rename_i starts
    exact tame.noRaw "progid:" (by decide) (infix_of_startsWithWord (by decide) starts)
  obtain ⟨length, isName, found⟩ := Option.bind_eq_some_iff.mp found
  have within := Scan.ident?_le (tame.not_mem (by decide)) isName
  rw [Scan.drop_front within, List.take_append_of_le_length within] at found
  split at found
  · rename_i arguments opens
    obtain ⟨more, isMore, -⟩ := Scan.exists_front (by decide) opens
    have called := infix_of_call isMore
    generalize (front.take length).map Char.toLower = name at found called
    have notCalled (word : String) (raw : List Char) (member : word ∈ rawWords)
        (isWord : word.toList = raw ++ ['(']) (isSuffix : raw <:+ name) : False := by
      obtain ⟨before, rfl⟩ := isSuffix
      refine tame.noRaw word member (isWord ▸ List.IsInfix.trans ?_ called)
      exact ⟨before, [], by simp⟩
    dsimp only at found
    split at found
    · rename_i isUrl
      exact notCalled "url(" "url".toList (by decide) (by decide) (eq_of_beq isUrl ▸ List.suffix_rfl)
    split at found
    · rename_i isRaw
      rcases Bool.or_eq_true_iff.mp isRaw with isRaw | isCalc
      · simp only [List.any_cons, List.any_nil, Bool.or_false, Bool.or_eq_true, beq_iff_eq] at isRaw
        rcases isRaw with rfl | rfl | rfl
        · exact notCalled "calc(" _ (by decide) (by decide) List.suffix_rfl
        · exact notCalled "expression(" _ (by decide) (by decide) List.suffix_rfl
        · exact notCalled "element(" _ (by decide) (by decide) List.suffix_rfl
      · refine notCalled "calc(" "calc".toList (by decide) (by decide) ?_
        rw [← eq_of_beq isCalc]
        exact withoutVendor_suffix name
    · cases found
  · cases found

theorem number?_le {spaceBefore : Bool} {number : Number}
    (found : number? (front ++ '\x7b' :: behind) spaceBefore = some (number, count)) :
    count ≤ front.length := by
  unfold number? at found
  dsimp only at found
  split at found
  · cases found
  obtain ⟨⟨digits, unit⟩, scanned, found⟩ := Option.bind_eq_some_iff.mp found
  obtain ⟨value, _, found⟩ := Option.bind_eq_some_iff.mp found
  cases found
  unfold splitSign at scanned ⊢
  split at scanned <;> dsimp only at scanned ⊢
  · rename_i body same
    obtain ⟨more, rfl, rfl⟩ := Scan.exists_front (by decide) same
    exact Nat.succ_le_succ (Scan.number?_le scanned)
  · have within := Scan.number?_le scanned
    simpa using within

theorem bool?_le {value : Bool} (found : bool? (front ++ '\x7b' :: behind) = some (value, count)) :
    count ≤ front.length := by
  unfold bool? at found
  dsimp only at found
  split at found
  · rename_i isWord
    cases found
    exact length_le_of_isWord "true" (by decide) isWord
  split at found
  · rename_i isWord
    cases found
    exact length_le_of_isWord "false" (by decide) isWord
  · cases found

theorem wordMark?_le {mark : Mark}
    (found : wordMark? (front ++ '\x7b' :: behind) = some (mark, count)) :
    count ≤ front.length := by
  unfold wordMark? at found
  dsimp only at found
  split at found
  · rename_i isWord
    cases found
    exact length_le_of_isWord "and" (by decide) isWord
  split at found
  · rename_i isWord
    cases found
    exact length_le_of_isWord "or" (by decide) isWord
  split at found
  · rename_i isWord
    cases found
    exact length_le_of_isWord "not" (by decide) isWord
  · cases found

theorem mark?_le {mark : Mark} (found : mark? (front ++ '\x7b' :: behind) = some (mark, count)) :
    mark = .openBrace ∨ count ≤ front.length := by
  unfold mark? at found
  split at found
  case h_1 same | h_2 same | h_3 same =>
    obtain ⟨more, rfl, rest⟩ := Scan.exists_front (by decide) same
    obtain ⟨more, rfl, -⟩ := Scan.exists_front (by decide) rest.symm
    cases found
    exact .inr (Nat.le_add_left 2 _)
  all_goals
    rename_i same
    cases found
  case h_17 => exact .inl rfl
  all_goals
    obtain ⟨more, rfl, -⟩ := Scan.exists_front (by decide) same
    exact .inr (Nat.le_add_left 1 _)

/-- Blanks end in front of a brace. -/
theorem gap_front (noSlash : '/' ∉ front) (count : Nat) :
    ∃ blanks, gap .outside count (front ++ '\x7b' :: behind) = .ok (count + blanks) ∧
      blanks ≤ front.length := by
  induction front generalizing count with
  | nil => exact ⟨0, rfl, Nat.le_refl 0⟩
  | cons c front ih =>
    have notSlash : c ≠ '/' := fun same => noSlash (by simp [same])
    rw [List.cons_append, gap_of_not_slash notSlash]
    split
    · obtain ⟨blanks, found, within⟩ := ih (fun member => noSlash (by simp [member])) (count + 1)
      exact ⟨blanks + 1, by rw [found, Nat.add_assoc, Nat.add_comm 1], Nat.succ_le_succ within⟩
    · exact ⟨0, rfl, Nat.zero_le _⟩

end Bounds

/-- A step that opens nothing. -/
structure Step.IsPlain (found : Step) : Prop where
  frames : found.frames = []
  kind : found.kind.isPlain = true

section Steps

variable {lines : LineIndex} {c : Cursor} {found : Step}

theorem stringStep_isPlain {quote : Char} (plain : Uninterpolated c.rest)
    (ran : stringStep lines c [] quote true = .ok found) : found.IsPlain := by
  unfold stringStep at ran
  split at ran
  · cases ran
  · rename_i piece isPiece
    have whole := stringPiece?_plain isPiece (plain.drop 1)
    cases ran
    constructor <;> rw [whole] <;> rfl

theorem rawStep_isPlain {skip depth : Nat} (plain : Uninterpolated c.rest)
    (ran : rawStep lines c [] skip depth true = .ok found) : found.IsPlain := by
  unfold rawStep at ran
  split at ran
  · cases ran
  · rename_i piece isPiece
    have whole := rawPiece?_plain isPiece (plain.drop skip)
    cases ran
    constructor <;> rw [whole] <;> rfl

theorem rawFunction?_pos {text : List Char} {count : Nat}
    (found : rawFunction? text = some count) : 0 < count := by
  unfold rawFunction? at found
  split at found
  · grind
  · obtain ⟨name, _, found⟩ := Option.bind_eq_some_iff.mp found
    split at found
    · dsimp only at found
      split at found <;> split at found <;> cases found <;> exact Nat.succ_pos name
    · cases found

theorem mark?_pos {text : List Char} {mark : Mark} {count : Nat}
    (found : mark? text = some (mark, count)) : 0 < count := by
  unfold mark? at found
  split at found <;> cases found <;> decide

theorem wordMark?_pos {text : List Char} {mark : Mark} {count : Nat}
    (found : wordMark? text = some (mark, count)) : 0 < count := by
  unfold wordMark? at found
  dsimp only at found
  split at found
  · cases found
    decide
  split at found
  · cases found
    decide
  split at found <;> cases found
  decide

theorem bool?_pos {text : List Char} {value : Bool} {count : Nat}
    (found : bool? text = some (value, count)) : 0 < count := by
  unfold bool? at found
  dsimp only at found
  split at found
  · cases found
    decide
  split at found <;> cases found
  decide

theorem wordStep_isPlain {spaceBefore : Bool} (plain : Uninterpolated c.rest)
    (ran : wordStep lines c [] spaceBefore = .ok found) : found.IsPlain := by
  unfold wordStep at ran
  dsimp only at ran
  split at ran
  · cases ran
    exact ⟨rfl, rfl⟩
  split at ran
  · cases ran
    exact ⟨rfl, rfl⟩
  split at ran
  · cases ran
    exact ⟨rfl, rfl⟩
  split at ran
  · exact rawStep_isPlain plain ran
  split at ran
  · cases ran
    exact ⟨rfl, rfl⟩
  · split at ran <;> cases ran
    exact ⟨rfl, rfl⟩
  split at ran
  · cases ran
    exact ⟨rfl, rfl⟩
  split at ran
  · split at ran <;> cases ran <;> exact ⟨rfl, rfl⟩
  split at ran <;> cases ran
  exact ⟨rfl, rfl⟩

theorem step_isPlain {spaceBefore : Bool} (plain : Uninterpolated c.rest)
    (ran : step lines c [] spaceBefore = .ok found) : found.IsPlain := by
  unfold step at ran
  split at ran
  · cases ran
    exact ⟨rfl, rfl⟩
  · split at ran <;> cases ran
    exact ⟨rfl, rfl⟩
  · exact stringStep_isPlain plain ran
  · exact stringStep_isPlain plain ran
  · rename_i opens
    exact absurd (opens ▸ plain) Uninterpolated.not_opening
  · split at ran
    · split at ran <;> cases ran
      exact ⟨rfl, rfl⟩
    · cases ran
  · cases ran
    exact ⟨rfl, rfl⟩
  · exact wordStep_isPlain plain ran

variable {frames : List Frame}

theorem stringStep_takes {quote : Char} {isFirst : Bool}
    (ran : stringStep lines c frames quote isFirst = .ok found) : 0 < found.count := by
  unfold stringStep at ran
  split at ran <;> cases ran
  exact Nat.succ_pos _

theorem rawStep_takes {skip depth : Nat} {isFirst : Bool} (positive : 0 < skip)
    (ran : rawStep lines c frames skip depth isFirst = .ok found) : 0 < found.count := by
  unfold rawStep at ran
  split at ran <;> cases ran
  exact Nat.add_pos_right _ positive

theorem braceStep_takes (ran : braceStep lines c frames = .ok found) : 0 < found.count := by
  unfold braceStep at ran
  split at ran
  · cases ran
    exact Nat.one_pos
  · cases ran
    exact Nat.one_pos
  · exact stringStep_takes ran
  · exact rawStep_takes Nat.one_pos ran

theorem wordStep_takes {spaceBefore : Bool}
    (ran : wordStep lines c frames spaceBefore = .ok found) : 0 < found.count := by
  unfold wordStep at ran
  dsimp only at ran
  split at ran
  · rename_i isNumber
    cases ran
    exact number?_pos isNumber
  split at ran
  · rename_i isBool
    cases ran
    exact bool?_pos isBool
  split at ran
  · rename_i isRange
    cases ran
    exact Scan.unicodeRange?_pos isRange
  split at ran
  · rename_i isRaw
    exact rawStep_takes (rawFunction?_pos isRaw) ran
  split at ran
  · cases ran
    exact Nat.zero_lt_two
  · split at ran <;> cases ran
    dsimp only
    omega
  split at ran
  · rename_i isMark
    cases ran
    exact wordMark?_pos isMark
  split at ran
  · rename_i isName
    split at ran <;> cases ran
    · exact Nat.succ_pos _
    · exact Scan.ident?_pos isName
  split at ran
  · rename_i isMark
    cases ran
    exact mark?_pos isMark
  · cases ran

/-- A step takes some of the text unless this has ended. -/
theorem step_takes {spaceBefore : Bool} (ran : step lines c frames spaceBefore = .ok found)
    (filled : found.kind ≠ .endOfInput) : c.rest ≠ [] ∧ 0 < found.count := by
  have isText : c.rest ≠ [] := by
    intro ended
    unfold step at ran
    rw [ended] at ran
    cases ran
    exact filled rfl
  refine ⟨isText, ?_⟩
  unfold step at ran
  split at ran
  · contradiction
  · split at ran <;> cases ran
    exact Nat.succ_pos _
  · exact stringStep_takes ran
  · exact stringStep_takes ran
  · cases ran
    exact Nat.zero_lt_two
  · split at ran
    · rename_i isColor
      split at ran <;> cases ran
      unfold Scan.hexColor? at isColor
      grind
    · cases ran
  · exact braceStep_takes ran
  · exact wordStep_takes ran

end Steps

section Confined

variable {lines : LineIndex} {c : Cursor} {front behind : List Char} {found : Step}

/-- A step that stays in front of a brace unless the brace is what it takes. -/
structure Step.IsConfined (found : Step) (front : List Char) : Prop extends found.IsPlain where
  within : found.kind ≠ .mark .openBrace → found.count ≤ front.length

theorem wordStep_isConfined {spaceBefore : Bool} (tame : IsTame front)
    (isText : c.rest = front ++ '\x7b' :: behind)
    (ran : wordStep lines c [] spaceBefore = .ok found) : found.IsConfined front := by
  unfold wordStep at ran
  dsimp only at ran
  rw [isText] at ran
  split at ran
  · rename_i isNumber
    cases ran
    exact ⟨⟨rfl, rfl⟩, fun _ => number?_le isNumber⟩
  split at ran
  · rename_i isBool
    cases ran
    exact ⟨⟨rfl, rfl⟩, fun _ => bool?_le isBool⟩
  split at ran
  · rename_i isRange
    cases ran
    exact ⟨⟨rfl, rfl⟩, fun _ => Scan.unicodeRange?_le isRange⟩
  split at ran
  · rename_i isRaw
    rw [rawFunction?_none tame] at isRaw
    cases isRaw
  have notBang {rest : List Char} : front ++ '\x7b' :: behind ≠ '!' :: rest := by
    intro same
    obtain ⟨more, rfl, -⟩ := Scan.exists_front (by decide) same
    exact tame.not_mem (c := '!') (by decide) List.mem_cons_self
  split at ran
  · rename_i same
    exact absurd same notBang
  · rename_i same
    exact absurd same notBang
  split at ran
  · rename_i isMark
    cases ran
    exact ⟨⟨rfl, rfl⟩, fun _ => wordMark?_le isMark⟩
  split at ran
  · rename_i count isName
    have within := Scan.ident?_le (tame.not_mem (by decide)) isName
    split at ran <;> cases ran
    · rename_i opens
      rw [Scan.drop_front within] at opens
      obtain ⟨arguments, opens⟩ := List.head?_eq_some_iff.mp (eq_of_beq opens)
      obtain ⟨more, isMore, -⟩ := Scan.exists_front (by decide) opens
      have inside : count < front.length := by
        by_contra short
        rw [List.drop_eq_nil_of_le (Nat.le_of_not_lt short)] at isMore
        cases isMore
      exact ⟨⟨rfl, rfl⟩, fun _ => inside⟩
    · exact ⟨⟨rfl, rfl⟩, fun _ => within⟩
  split at ran <;> cases ran
  rename_i isMark
  refine ⟨⟨rfl, rfl⟩, fun notBrace => (mark?_le isMark).resolve_left ?_⟩
  rintro rfl
  exact notBrace rfl

theorem step_isConfined {spaceBefore : Bool} (tame : IsTame front)
    (isText : c.rest = front ++ '\x7b' :: behind)
    (ran : step lines c [] spaceBefore = .ok found) : found.IsConfined front := by
  have absent {x : Char} {rest : List Char} (special : isTameChar x = false) (notBrace : x ≠ '\x7b') :
      c.rest ≠ x :: rest := by
    intro same
    obtain ⟨more, rfl, -⟩ := Scan.exists_front notBrace (isText.symm.trans same)
    exact tame.not_mem special List.mem_cons_self
  unfold step at ran
  split at ran
  · rename_i ended
    rw [isText] at ended
    cases (List.append_eq_nil_iff.mp ended).2
  · rename_i same
    exact absurd same (absent (by decide) (by decide))
  · rename_i same
    exact absurd same (absent (by decide) (by decide))
  · rename_i same
    exact absurd same (absent (by decide) (by decide))
  · rename_i same
    obtain ⟨more, rfl, isBrace⟩ := Scan.exists_front (by decide) (isText.symm.trans same)
    cases more with
    | nil => exact absurd rfl tame.notHash
    | cons d more =>
      cases isBrace
      exact absurd (by simp) (tame.not_mem (c := '\x7b') (by decide))
  · split at ran
    · rename_i count isColor
      split at ran <;> cases ran
      rw [isText] at isColor
      exact ⟨⟨rfl, rfl⟩, fun _ => Scan.hexColor?_le isColor⟩
    · cases ran
  · rename_i same
    exact absurd same (absent (by decide) (by decide))
  · exact wordStep_isConfined tame isText ran

end Confined

/-- A place outside of all interpolations, and with none ahead. -/
structure State.IsPlain (s : State) : Prop where
  frames : s.frames = []
  outside : s.afterInterpolation = false
  text : Uninterpolated s.cursor.rest

/-- A place outside of all interpolations, in a tame text in front of a brace. -/
structure State.IsInFrontOf (behind : List Char) (s : State) : Prop where
  frames : s.frames = []
  outside : s.afterInterpolation = false
  text : ∃ front, IsTame front ∧ s.cursor.rest = front ++ '\x7b' :: behind

section Tokens

variable {lines : LineIndex} {s after : State} {token : Token}

/-- What reading a token does: it skips blanks and comments and takes a step. -/
theorem next_ok (ran : next lines s = .ok (token, after)) :
    ∃ blanks spaceBefore found,
      step lines (s.cursor.advance blanks) s.frames spaceBefore = .ok found ∧
      token.kind = found.kind ∧
      token.span = ((s.cursor.advance blanks).advance found.count).spanFrom
        (s.cursor.advance blanks).pos ∧
      token.line = lines.line (s.cursor.advance blanks).pos ∧
      after = ⟨(s.cursor.advance blanks).advance found.count, found.frames,
        token.endsInterpolation⟩ := by
  unfold next at ran
  split at ran
  · cases ran
  · rename_i blanks _
    obtain ⟨found, stepped, same⟩ := exists_of_map_ok ran
    cases same
    exact ⟨blanks, _, found, stepped, rfl, rfl, rfl, rfl⟩

theorem next_isPlain (plain : s.IsPlain) (ran : next lines s = .ok (token, after)) :
    token.kind.isPlain = true ∧ after.IsPlain := by
  obtain ⟨blanks, spaceBefore, found, stepped, kind, -, -, rfl⟩ := next_ok ran
  rw [plain.frames] at stepped
  have text : Uninterpolated (s.cursor.advance blanks).rest := by
    rw [Cursor.rest_advance]
    exact plain.text.drop blanks
  have isPlain := step_isPlain text stepped
  rw [kind]
  refine ⟨isPlain.kind, isPlain.frames, ?_, ?_⟩
  · exact Token.endsInterpolation_of_isPlain (kind ▸ isPlain.kind)
  · dsimp only
    rw [Cursor.rest_advance]
    exact text.drop found.count

theorem next_isInFrontOf {lines : LineIndex} {behind : List Char} {s after : State} {token : Token}
    (inFront : s.IsInFrontOf behind) (ran : next lines s = .ok (token, after)) :
    token.kind.isPlain = true ∧ (token.kind ≠ .mark .openBrace → after.IsInFrontOf behind) := by
  obtain ⟨front, tame, isText⟩ := inFront.text
  obtain ⟨blanks, isGap, within⟩ := gap_front (tame.not_mem (by decide)) 0
  unfold next at ran
  rw [isText, isGap, Nat.zero_add] at ran
  obtain ⟨found, stepped, same⟩ := exists_of_map_ok ran
  cases same
  have rest : (s.cursor.advance blanks).rest = front.drop blanks ++ '\x7b' :: behind := by
    rw [Cursor.rest_advance, isText, Scan.drop_front within]
  rw [inFront.frames] at stepped
  have confined := step_isConfined (tame.drop blanks) rest stepped
  refine ⟨confined.kind, fun notBrace => ⟨confined.frames, ?_, _, (tame.drop blanks).drop found.count, ?_⟩⟩
  · exact Token.endsInterpolation_of_isPlain confined.kind
  · dsimp only
    rw [Cursor.rest_advance, rest, Scan.drop_front (confined.within notBrace)]

/-- A token stands behind the place, ends where reading goes on and is not empty. -/
theorem next_span (ran : next lines s = .ok (token, after)) :
    s.cursor.pos ≤ token.span.start ∧ token.span.stop = after.cursor.pos ∧
      (token.kind ≠ .endOfInput → token.span.start < token.span.stop) := by
  obtain ⟨blanks, spaceBefore, found, stepped, kind, span, -, rfl⟩ := next_ok ran
  have forward := Cursor.pos_le_advance found.count (s.cursor.advance blanks)
  rw [span, kind]
  refine ⟨Cursor.pos_le_advance blanks s.cursor, Nat.max_eq_left forward, fun filled => ?_⟩
  obtain ⟨rest, positive⟩ := step_takes stepped filled
  exact Nat.lt_of_lt_of_le (Cursor.pos_lt_advance positive rest) (Nat.le_max_left _ _)

end Tokens

/-- The tokens that are read on the way from one place to another. -/
inductive Passes (lines : LineIndex) : State → List Token → State → Prop where
  | stay : Passes lines s [] s
  | take (ran : next lines s = .ok (token, middle)) (filled : token.kind ≠ .endOfInput)
      (others : Passes lines middle tokens stop) : Passes lines s (token :: tokens) stop

/-- The tokens of a whole text. -/
def Tokenizes (text : String) (tokens : List Token) : Prop :=
  ∃ stop last after, Passes (LineIndex.ofText text) ⟨Cursor.ofText text, [], false⟩ tokens stop ∧
    next (LineIndex.ofText text) stop = .ok (last, after) ∧ last.kind = .endOfInput

namespace Passes

variable {lines : LineIndex} {s middle stop : State} {tokens others : List Token}

theorem trans (first : Passes lines s tokens middle) (second : Passes lines middle others stop) :
    Passes lines s (tokens ++ others) stop := by
  induction first with
  | stay => exact second
  | take ran filled _ ih => exact .take ran filled (ih second)

/-- The end of the text is not passed. -/
theorem filled (passes : Passes lines s tokens stop) :
    ∀ token ∈ tokens, token.kind ≠ .endOfInput := by
  induction passes with
  | stay => exact nofun
  | take _ filled _ ih =>
    rintro other (_ | ⟨_, member⟩)
    · exact filled
    · exact ih other member

theorem bounds (passes : Passes lines s tokens stop) :
    ∀ token ∈ tokens, s.cursor.pos ≤ token.span.start ∧ token.span.start < token.span.stop := by
  induction passes with
  | stay => exact nofun
  | @take s token middle tokens stop ran filled _ ih =>
    obtain ⟨behind, ends, positive⟩ := next_span ran
    intro other member
    rcases List.mem_cons.mp member with rfl | member
    · exact ⟨behind, positive filled⟩
    · have later := ih other member
      have := positive filled
      omega

/-- Each token stands behind all those in front of it. -/
theorem ordered (passes : Passes lines s tokens stop) :
    tokens.Pairwise (fun a b => a.span.stop ≤ b.span.start) := by
  induction passes with
  | stay => exact .nil
  | take ran _ others ih =>
    refine .cons (fun other member => ?_) ih
    rw [(next_span ran).2.1]
    exact (others.bounds other member).1

end Passes

end Lexer

end Stylesheet
