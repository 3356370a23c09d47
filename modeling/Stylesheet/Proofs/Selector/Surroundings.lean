import Stylesheet.Proofs.Selector.Endings

/-! Blanks and comments around a selector. In front they are skipped. Behind it, blanks do not matter
if no name goes on with them; but reading does not get past a comment. -/

namespace Stylesheet.Selector

section Compounds

variable {w text rest : List Char} {nested : Reader Selector}

theorem moves_many (inner : Steady w nested) (trailing : Trailing w) (fuel : Nat)
    (text : List Char) : Moves text (many.go (readQualifier nested) fuel text).2 := by
  have steady := steady_readQualifier trailing inner
  induction fuel generalizing text with
  | zero => exact .refl text
  | succ fuel ih =>
    rw [many.go]
    cases found : readQualifier nested text with
    | none => exact .refl text
    | some pair => exact (steady.moves found).trans (ih pair.2)

theorem many_append (inner : Steady w nested) (spec : ReadsSpelled nested .nested)
    (trailing : Trailing w) (whole : IsWhole text) {fuel more : Nat} (enough : text.length ≤ fuel)
    (enough' : text.length ≤ more) :
    many.go (readQualifier nested) more (text ++ w) =
      ((many.go (readQualifier nested) fuel text).1,
        (many.go (readQualifier nested) fuel text).2 ++ w) := by
  have steady := steady_readQualifier trailing inner
  induction fuel generalizing text more with
  | zero =>
    have empty := List.eq_nil_of_length_eq_zero (Nat.le_zero.mp enough)
    subst empty
    have nothing : readQualifier nested ([] ++ w) = none := steady.append whole
    cases more with
    | zero => rfl
    | succ more =>
      rw [many.go.eq_2, nothing]
      rfl
  | succ fuel ih =>
    cases found : readQualifier nested text with
    | none =>
      have unread := steady.append whole
      rw [found] at unread
      rw [many.go, found]
      cases more with
      | zero => rfl
      | succ more =>
        rw [many.go, unread]
        rfl
    | some pair =>
      have shorter := (readQualifier_firmly spec found).shorter
      obtain ⟨more, rfl⟩ := Nat.exists_eq_add_one_of_ne_zero (by omega : more ≠ 0)
      have read := steady.append whole
      rw [found] at read
      rw [many.go, many.go, found, read]
      simp only [Option.map_some]
      rw [ih ((steady.moves found).whole.mp whole) (by omega) (by omega)]

theorem steady_readCompound (inner : Steady w nested) (spec : ReadsSpelled nested .nested)
    (trailing : Trailing w) : Steady w (readCompound nested) := by
  refine ⟨fun {text item rest} read => ?_, fun {text} whole => ?_⟩
  · have first := moves_readOptionalBase text
    have second := moves_many inner trailing (readOptionalBase text).2.length
      (readOptionalBase text).2
    unfold readCompound at read
    simp only [many] at read
    split at read
    · cases read
    · cases read
      exact first.trans second
  · have behind := (moves_readOptionalBase text).whole.mp whole
    have same := many_append inner spec trailing behind (Nat.le_refl _)
      (by rw [List.length_append]; omega : _ ≤ ((readOptionalBase text).2 ++ w).length)
    unfold readCompound
    simp only [many, readOptionalBase_append trailing whole, same]
    split <;> rfl

theorem steady_readCombinator (blank : ∀ c ∈ w, Text.isBlank c = true) :
    Steady w readCombinator := by
  refine ⟨fun {text item rest} read => ?_, fun {text} whole => ?_⟩
  · rw [readCombinator_some read]
    cases item <;> exact .behind (by decide) [] rest
  · fun_cases readCombinator text with
    | case4 _ child next following =>
      have other (sign : Char) (visible : Text.isBlank sign = false)
          (none : ∀ inner, text ≠ sign :: inner) : ∀ more, text ++ w ≠ sign :: more := by
        intro more same
        obtain ⟨inner, same, _⟩ := exists_of_append_eq_cons visible blank same
        exact none inner same
      rw [readCombinator.eq_4 _ (other '>' (by decide) child) (other '+' (by decide) next)
        (other '~' (by decide) following)]
      rfl
    | _ => rfl

end Compounds

section Chains

variable {w text rest : List Char} {nested : Reader Selector}

private theorem readCombinator_shorter {k : Combinator}
    (read : readCombinator text = some (k, rest)) : rest.length < text.length := by
  rw [readCombinator_some read]
  cases k <;> simp [Combinator.toText]

theorem moves_readComponents (inner : Steady w nested) (spec : ReadsSpelled nested .nested)
    (trailing : Trailing w) (fuel : Nat) (after : Bool) (text : List Char) :
    Moves text (readComponents nested fuel after text).2 := by
  have compound := steady_readCompound inner spec trailing
  have combinator := steady_readCombinator trailing.blank
  fun_induction readComponents nested fuel after text with
  | case2 fuel after text skipped k behind found components rest later ih =>
    rw [later] at ih
    exact ((Moves.skipBlanks text).trans (combinator.moves found)).trans ih
  | case4 fuel after text skipped spaced none stays c behind found components rest later ih =>
    rw [later] at ih
    exact ((Moves.skipBlanks text).trans (compound.moves found)).trans ih
  | _ => exact .refl _

/-- A compound directly behind another is not read. -/
private theorem readComponents_adjoining {fuel : Nat} {after : Bool}
    (sign : readCombinator (skipBlanks text) = none)
    (adjoins : ¬(after = true → (skipBlanks text).length < text.length)) :
    readComponents nested (fuel + 1) after text = ([], text) := by
  obtain ⟨rfl, close⟩ := Classical.not_imp.mp adjoins
  rw [readComponents]
  simp only [sign, close, decide_false, Bool.not_false, Bool.and_self, if_true]

theorem readComponents_append (inner : Steady w nested) (spec : ReadsSpelled nested .nested)
    (trailing : Trailing w) (whole : IsWhole text) {after : Bool} {fuel more : Nat}
    (enough : text.length < fuel) (enough' : text.length < more) :
    readComponents nested more after (text ++ w) =
      ((readComponents nested fuel after text).1,
        (readComponents nested fuel after text).2 ++ w) := by
  have compound := steady_readCompound inner spec trailing
  have combinator := steady_readCombinator trailing.blank
  induction fuel generalizing text after more with
  | zero => omega
  | succ fuel ih =>
    obtain ⟨more, rfl⟩ := Nat.exists_eq_add_one_of_ne_zero (by omega : more ≠ 0)
    have less := (skipBlanks_suffix text).length_le
    have whole' := (Moves.skipBlanks text).whole.mp whole
    have skipped := skipBlanks_append_blanks trailing.blank text
    by_cases all : skipBlanks text = []
    · rw [if_pos all] at skipped
      rw [readComponents_none (by rw [skipped]; rfl) (by rw [skipped]; rfl),
        readComponents_none (by rw [all]; rfl) (by rw [all]; rfl)]
    rw [if_neg all] at skipped
    have sign := combinator.append whole'
    have read := compound.append whole'
    rw [← skipped] at sign read
    cases found : readCombinator (skipBlanks text) with
    | some pair =>
      have shorter := readCombinator_shorter found
      rw [found] at sign
      rw [readComponents_combinator sign, readComponents_combinator found,
        ih ((combinator.moves found).whole.mp whole') (by omega) (by omega)]
    | none =>
      rw [found] at sign
      have spaced : (skipBlanks (text ++ w)).length < (text ++ w).length ↔
          (skipBlanks text).length < text.length := by
        rw [skipped, List.length_append, List.length_append]
        omega
      by_cases apart : after = true → (skipBlanks text).length < text.length
      · cases member : readCompound nested (skipBlanks text) with
        | none =>
          rw [member] at read
          rw [readComponents_none sign read, readComponents_none found member]
        | some pair =>
          have shorter := (readCompound_firmly spec (unblank_skipBlanks text) member).shorter
          rw [member] at read
          rw [readComponents_compound sign (fun isAfter => spaced.mpr (apart isAfter)) read,
            readComponents_compound found apart member,
            ih ((compound.moves member).whole.mp whole') (by omega) (by omega)]
      · rw [readComponents_adjoining sign (by rwa [spaced]), readComponents_adjoining found apart]

/-- What came of reading, with more text behind it. -/
def Outcome.before (w : List Char) : Outcome → Outcome
  | .read selector rest => .read selector (rest ++ w)
  | .missing rest => .missing (rest ++ w)

theorem moves_readChains (inner : Steady w nested) (spec : ReadsSpelled nested .nested)
    (trailing : Trailing w) {fuel : Nat} {found selector : Selector}
    (read : readChains nested fuel found text = .read selector rest) : Moves text rest := by
  induction fuel generalizing found text with
  | zero => cases read
  | succ fuel ih =>
    obtain ⟨chain, behind, _, first, goesOn⟩ := readChains_step read
    have moves := moves_readComponents inner spec trailing (text.length + 1) false text
    rw [first] at moves
    rcases goesOn with ⟨more, comma, later⟩ | ⟨_, rfl⟩
    · have skips := Moves.skipBlanks behind
      rw [comma] at skips
      exact ((moves.trans skips).trans (.behind (by decide) [] more)).trans (ih later)
    · exact moves

theorem readChains_append (inner : Steady w nested) (spec : ReadsSpelled nested .nested)
    (trailing : Trailing w) (whole : IsWhole text) {fuel more : Nat} (found : Selector)
    (enough : text.length < fuel) (enough' : text.length < more) :
    readChains nested more found (text ++ w) = (readChains nested fuel found text).before w := by
  induction fuel generalizing text found more with
  | zero => omega
  | succ fuel ih =>
    obtain ⟨more, rfl⟩ := Nat.exists_eq_add_one_of_ne_zero (by omega : more ≠ 0)
    have same : readComponents nested ((text ++ w).length + 1) false (text ++ w) = _ :=
      readComponents_append inner spec trailing whole (Nat.lt_succ_self text.length)
        (by rw [List.length_append]; omega)
    have moves := moves_readComponents inner spec trailing (text.length + 1) false text
    cases first : readComponents nested (text.length + 1) false text with
    | mk chain behind =>
      rw [first] at same moves
      by_cases empty : chain = []
      · subst empty
        rw [readChains, readChains, first, same]
        rfl
      have skips := Moves.skipBlanks behind
      have skipped := skipBlanks_append_blanks trailing.blank behind
      by_cases comma : ∃ inner, skipBlanks behind = ',' :: inner
      · obtain ⟨inner, comma⟩ := comma
        rw [comma] at skips
        rw [comma, if_neg (by simp)] at skipped
        have shorter := (moves.trans skips).suffix.length_le
        rw [List.length_cons] at shorter
        rw [readChains_comma same empty skipped, readChains_comma first empty comma]
        have next := (moves.trans skips).trans (.behind (by decide) [] inner)
        exact ih (next.whole.mp whole) _ (by omega) (by omega)
      · have last : ∀ more, skipBlanks (behind ++ w) ≠ ',' :: more := by
          intro more ends
          rw [skipped] at ends
          split at ends
          · cases ends
          · obtain ⟨inner, ends, _⟩ := exists_of_append_eq_cons (by decide) trailing.blank ends
            exact comma ⟨inner, ends⟩
        rw [readChains_last same empty last,
          readChains_last first empty fun more ends => comma ⟨more, ends⟩]
        rfl

theorem steady_readNested (trailing : Trailing w) (depth : Nat) : Steady w (readNested depth) := by
  induction depth with
  | zero => exact ⟨nofun, fun _ => rfl⟩
  | succ depth ih =>
    have spec := readsSpelled .nested depth
    refine ⟨fun {text selector rest} read => ?_, fun {text} whole => ?_⟩
    · unfold readNested at read
      split at read
      · rename_i found
        cases read
        exact moves_readChains ih spec trailing found
      · cases read
    · have same := readChains_append ih spec trailing whole [] (Nat.lt_succ_self text.length)
        (by rw [List.length_append]; omega : text.length < (text ++ w).length + 1)
      unfold readNested
      rw [same]
      cases readChains (readNested depth) (text.length + 1) [] text <;> rfl

theorem steady_readInner (trailing : Trailing w) : Steady w readInner := by
  refine ⟨fun {text selector rest} read => ?_, fun {text} whole => ?_⟩
  · exact (steady_readNested trailing text.length).moves read
  · unfold readInner
    rw [(steady_readNested trailing _).append whole,
      readNested_congr (by rw [List.length_append]; omega) (Nat.le_refl text.length)]

/-- Blanks behind a text do not change what is read from it. -/
theorem readList_append (trailing : Trailing w) (whole : IsWhole text) :
    readList (text ++ w) = (readList text).before w := by
  rw [readList_eq, readList_eq]
  exact readChains_append (steady_readInner trailing) (readsSpelled_inner .nested) trailing whole []
    (Nat.lt_succ_self _) (by rw [List.length_append]; omega)

theorem moves_readList {selector : Selector} (read : readList text = .read selector rest) :
    Moves text rest := by
  rw [readList_eq] at read
  exact moves_readChains (steady_readInner trailing_nil) (readsSpelled_inner .nested)
    trailing_nil read

/-- Blanks and comments in front of a text do not change what is read from it. -/
theorem readList_spaced {gap : List Char} (spacing : Spacing gap) (whole : IsWhole text)
    {selector : Selector} (read : readList text = .read selector rest) :
    readList (gap ++ text) = .read selector rest := by
  rw [readList_eq] at read ⊢
  have spec := readsSpelled_inner .nested
  have inner := steady_readInner trailing_nil
  obtain ⟨chain, behind, some, first, _⟩ := readChains_step read
  have moves := moves_readComponents inner spec trailing_nil (text.length + 1) false text
  rw [first] at moves
  have first' : readComponents readInner ((gap ++ text).length + 1) false (gap ++ text) =
      (chain, behind) := by
    rw [readComponents_skipped readInner (skipBlanks_append spacing text) some behind]
    have same : readComponents readInner ((gap ++ text).length + 1) false (text ++ []) = _ :=
      readComponents_append inner spec trailing_nil whole (Nat.lt_succ_self text.length)
        (by rw [List.length_append]; omega)
    rw [first, List.append_nil, List.append_nil] at same
    exact same
  by_cases comma : ∃ more, skipBlanks behind = ',' :: more
  · obtain ⟨more, comma⟩ := comma
    have skips := Moves.skipBlanks behind
    rw [comma] at skips
    have shorter := (moves.trans skips).suffix.length_le
    rw [List.length_cons] at shorter
    have next := (moves.trans skips).trans (.behind (by decide) [] more)
    have same : readChains readInner (gap ++ text).length ([] ++ [chain]) (more ++ []) = _ :=
      readChains_append inner spec trailing_nil (next.whole.mp whole) _
        (by omega : more.length < text.length) (by rw [List.length_append]; omega)
    rw [readChains_comma first some comma] at read
    rw [read, List.append_nil, Outcome.before, List.append_nil] at same
    rw [readChains_comma first' some comma, same]
  · have last : ∀ more, skipBlanks behind ≠ ',' :: more := fun more ends => comma ⟨more, ends⟩
    rw [readChains_last first some last] at read
    rw [readChains_last first' some last, read]

end Chains

section Parsing

variable {text gap : String} {line : Nat} {selector : Selector}

/-- Blanks and comments in front of a selector do not matter. Behind it, blanks do not matter if no
name goes on with the first of them; a comment is an error. -/
theorem parse_surrounded (parsed : parse text line = .ok selector) (spacing : Spacing gap.toList) :
    parse (gap ++ text) line = .ok selector ∧
      (Trailing gap.toList → parse (text ++ gap) line = .ok selector) ∧
      ((∃ c ∈ gap.toList, Text.isBlank c = false) → ∃ d, parse (text ++ gap) line = .error d) := by
  obtain ⟨rest, read, dropped⟩ := parse_ok.mp parsed
  have blank := List.dropWhile_eq_nil_iff.mp dropped
  have whole := (moves_readList read).whole.mpr (isWhole_of_blanks blank)
  refine ⟨?_, fun trailing => ?_, fun ⟨c, member, visible⟩ => ?_⟩
  · rw [parse_ok, String.toList_append]
    exact ⟨rest, readList_spaced spacing whole read, dropped⟩
  · rw [parse_ok, String.toList_append]
    refine ⟨rest ++ gap.toList, ?_, ?_⟩
    · rw [readList_append trailing whole, read]
      rfl
    · exact List.dropWhile_eq_nil_iff.mpr (List.forall_mem_append.mpr ⟨blank, trailing.blank⟩)
  · have loud : ¬∀ c ∈ gap.toList, Text.isBlank c = true := by
      intro all
      rw [all c member] at visible
      cases visible
    obtain ⟨front, blanks, same, blank'⟩ := spacing.exists_comment loud
    have ends : (text ++ gap).toList = text.toList ++ front ++ '*' :: '/' :: blanks := by
      rw [String.toList_append, same, List.append_assoc]
    cases found : parse (text ++ gap) line with
    | error d => exact ⟨d, rfl⟩
    | ok other => exact absurd found (parse_comment_last ends blank')

theorem spacing_comment : Spacing "/* c */".toList := by
  have closed : ¬['*', '/'] <:+: [' ', 'c', ' '] := by decide
  exact .comment closed .nil

theorem parse_surrounded_of_element :
    parse "/* c */a" 1 = .ok [[.compound (.mk (some (.element "a" none)) [])]] ∧
      parse "a " 1 = .ok [[.compound (.mk (some (.element "a" none)) [])]] ∧
      ∃ d, parse "a/* c */" 1 = .error d := by
  have parsed : parse "a" 1 = .ok [[.compound (.mk (some (.element "a" none)) [])]] := by rfl
  have commented := parse_surrounded parsed spacing_comment
  have space : Spacing " ".toList := .blank (by decide) .nil
  have spaced := parse_surrounded parsed space
  have trailing : Trailing " ".toList :=
    ⟨List.all_eq_true.mp (by decide), by rintro _ ⟨⟩; decide⟩
  refine ⟨commented.1, spaced.2.1 trailing, commented.2.2 ⟨'/', ?_, by decide⟩⟩
  decide

/-- Behind a selector a comment does not count as a blank, and a wide blank does not end a name. -/
theorem parse_not_surrounded :
    parse "a" 1 = .ok [[.compound (.mk (some (.element "a" none)) [])]] ∧
      Spacing "/* c */".toList ∧
      parse "a/* c */" 1 ≠ .ok [[.compound (.mk (some (.element "a" none)) [])]] ∧
      parse "a\u3000" 1 = .ok [[.compound (.mk (some (.element "a\u3000" none)) [])]] := by
  refine ⟨by rfl, spacing_comment, ?_, by rfl⟩
  intro parsed
  have failed : (parse "a/* c */" 1).isOk = false := by rfl
  rw [parsed] at failed
  cases failed

end Parsing

end Stylesheet.Selector
