import Stylesheet.Proofs.Selector.Steadiness

/-! The readers of simple selectors, with blanks behind the text. -/

namespace Stylesheet.Selector

open Scan (NameTail)

section Names

variable {w : List Char}

private theorem moves_take {text : List Char} {count : Nat} (spelled : NameTail (text.take count))
    (short : count ≤ text.length) : count ≤ text.length ∧ Moves text (text.drop count) := by
  have moves := Moves.name spelled (text.drop count)
  rw [List.take_append_drop] at moves
  exact ⟨short, moves⟩

theorem steady_readIdent (trailing : Trailing w) : Steady w readIdent := by
  refine .slicing (fun found => ?_) (ident?_trailing trailing)
  obtain ⟨ident, short⟩ := Scan.ident?_take found
  exact moves_take (nameTail_of_ident ident) short

theorem steady_readName (trailing : Trailing w) : Steady w readName := by
  refine .slicing (fun found => ?_) (name?_trailing trailing)
  obtain ⟨name, short⟩ := Scan.name?_take found
  exact moves_take name.1 short

theorem readChar_append {c : Char} (visible : Text.isBlank c = false)
    (blank : ∀ c ∈ w, Text.isBlank c = true) (text : List Char) :
    readChar c (text ++ w) = (readChar c text).map fun found => (found.1, found.2 ++ w) := by
  cases text with
  | nil =>
    cases w with
    | nil => rfl
    | cons d w =>
      have other := ne_of_isBlank (blank d List.mem_cons_self) visible
      simp [readChar, other]
  | cons d text => by_cases same : d = c <;> simp [readChar, same]

theorem steady_readChar {c : Char} (visible : Text.isBlank c = false) (plain : c ≠ '\\')
    (blank : ∀ c ∈ w, Text.isBlank c = true) : Steady w (readChar c) := by
  refine ⟨fun found => ?_, fun {text} _ => readChar_append visible blank text⟩
  rw [readChar_some found]
  exact .behind plain [] _

theorem steady_readElementName (trailing : Trailing w) : Steady w readElementName := by
  have ident := steady_readIdent trailing
  refine ⟨fun {text item rest} found => ?_, fun {text} whole => ?_⟩
  · obtain ⟨rfl, spelled⟩ := readElementName_some found
    rcases spelled with ident | rfl
    · exact .name (nameTail_of_ident ident) rest
    · exact .behind (by decide) [] rest
  · unfold readElementName
    rw [ident.append whole]
    cases found : readIdent text with
    | some pair => rfl
    | none =>
      cases text with
      | nil =>
        cases w with
        | nil => rfl
        | cons c w =>
          have other := ne_of_isBlank (d := '*') (trailing.blank c List.mem_cons_self) (by decide)
          simp [other]
      | cons c text => by_cases star : c = '*' <;> simp [star]

theorem steady_readQualifiedFrom (trailing : Trailing w) (first : Option String) :
    Steady w (readQualifiedFrom first) := by
  have element := steady_readElementName trailing
  refine ⟨fun {text item rest} read => ?_, fun {text} whole => ?_⟩
  · fun_cases readQualifiedFrom first text with
    | case1 behind =>
      obtain ⟨_, _, same⟩ := Option.map_eq_some_iff.mp read
      cases same
      exact .refl _
    | case2 behind notOperator =>
      rw [readQualifiedFrom.eq_2 _ _ notOperator] at read
      obtain ⟨⟨name, behind'⟩, found, same⟩ := Option.map_eq_some_iff.mp read
      cases same
      exact (Moves.behind (by decide) [] behind).trans (element.moves found)
    | case3 _ notOperator notBar =>
      rw [readQualifiedFrom.eq_3 _ _ notOperator notBar] at read
      obtain ⟨_, _, same⟩ := Option.map_eq_some_iff.mp read
      cases same
      exact .refl _
  · fun_cases readQualifiedFrom first text with
    | case1 behind => cases first <;> rfl
    | case2 behind notOperator =>
      rw [List.cons_append, readQualifiedFrom.eq_2,
        element.append ((isWhole_cons (by decide) _).mp whole)]
      · cases readElementName behind <;> rfl
      · intro more same
        obtain ⟨inner, same, _⟩ := exists_of_append_eq_cons (by decide) trailing.blank same
        exact notOperator inner same
    | case3 _ notOperator notBar =>
      have noBar : ∀ more, text ++ w ≠ '|' :: more := by
        intro more same
        obtain ⟨inner, same, _⟩ := exists_of_append_eq_cons (by decide) trailing.blank same
        exact notBar inner same
      rw [readQualifiedFrom.eq_3 _ _ (fun more => noBar _) noBar]
      cases first <;> rfl

theorem steady_readQualified (trailing : Trailing w) : Steady w readQualified := by
  have element := steady_readElementName trailing
  refine ⟨fun {text item rest} read => ?_, fun {text} whole => ?_⟩
  · unfold readQualified at read
    split at read
    · rename_i first behind found
      exact (element.moves found).trans ((steady_readQualifiedFrom trailing _).moves read)
    · exact (steady_readQualifiedFrom trailing _).moves read
  · unfold readQualified
    rw [element.append whole]
    cases found : readElementName text with
    | none => exact (steady_readQualifiedFrom trailing none).append whole
    | some pair =>
      exact (steady_readQualifiedFrom trailing (some pair.1)).append
        ((element.moves found).whole.mp whole)

private theorem run_trailing (trailing : Trailing w) (text : List Char) :
    Scan.run Char.isDigit (text ++ w) = Scan.run Char.isDigit text := by
  have none : w.takeWhile Char.isDigit = [] := by
    cases w with
    | nil => rfl
    | cons c w =>
      have apart := trailing.apart c rfl
      simp only [Scan.isNameChar, Bool.or_eq_false_iff] at apart
      exact List.takeWhile_cons_of_neg (by simp [apart.1.2])
  unfold Scan.run
  rw [List.takeWhile_append]
  split
  · rename_i all
    rw [none, List.append_nil, List.IsPrefix.eq_of_length (List.takeWhile_prefix _) all]
  · rfl

private theorem fractionLength_trailing (trailing : Trailing w) (text : List Char) :
    fractionLength (text ++ w) = fractionLength text := by
  fun_cases fractionLength text with
  | case3 _ other =>
    rw [fractionLength.eq_2]
    intro more same
    obtain ⟨inner, same, _⟩ := exists_of_append_eq_cons (by decide) trailing.blank same
    exact other inner same
  | _ rest digits => simp only [List.cons_append, fractionLength, run_trailing trailing, digits]

theorem steady_readPercentage (trailing : Trailing w) : Steady w readPercentage := by
  refine ⟨fun {text item rest} read => ?_, fun {text} whole => ?_⟩
  · obtain ⟨spelled, _, rfl, percentage⟩ := readPercentage_some read
    cases percentage with
    | @spelled whole fraction _ _ =>
      have same : whole ++ (fraction ++ ['%']) ++ rest = whole ++ fraction ++ '%' :: rest := by simp
      rw [same]
      exact .behind (by decide) _ rest
  · have digits : Scan.run Char.isDigit text ≤ text.length := (List.takeWhile_prefix _).length_le
    have point : fractionLength (text.drop (Scan.run Char.isDigit text)) ≤
        text.length - Scan.run Char.isDigit text := by
      rw [← List.length_drop]
      generalize text.drop (Scan.run Char.isDigit text) = rest
      fun_cases fractionLength rest with
      | case2 rest _ =>
        have := (List.takeWhile_prefix (p := Char.isDigit) (l := rest)).length_le
        simpa [Scan.run] using this
      | _ => exact Nat.zero_le _
    unfold readPercentage
    simp only [run_trailing trailing, List.drop_append_of_le_length digits,
      fractionLength_trailing trailing]
    split
    · rfl
    · rw [List.drop_append_of_le_length (by omega)]
      generalize Scan.run Char.isDigit text + fractionLength _ = count
      cases behind : text.drop count with
      | nil =>
        split
        · rename_i more same
          obtain ⟨inner, same, _⟩ := exists_of_append_eq_cons (by decide) trailing.blank same
          cases same
        · rfl
      | cons c rest =>
        by_cases percent : c = '%'
        · subst percent
          have more := congrArg List.length behind
          rw [List.length_drop, List.length_cons] at more
          have within : count + 1 ≤ text.length := by omega
          simp only [List.cons_append, List.take_append_of_le_length within, Option.map_some]
        · simp [percent]

theorem steady_readBase (trailing : Trailing w) : Steady w readBase := by
  have behind := (steady_readPercentage trailing).orElse (steady_readQualified trailing)
  refine ⟨fun {text item rest} read => ?_, fun {text} whole => ?_⟩
  · fun_cases readBase text with
    | case1 =>
      cases read
      exact .behind (by decide) [] _
    | case2 _ other =>
      rw [readBase.eq_2 _ other] at read
      exact behind.moves read
  · fun_cases readBase text with
    | case1 => rfl
    | case2 _ other =>
      rw [readBase.eq_2]
      · exact behind.append whole
      · intro more same
        obtain ⟨inner, same, _⟩ := exists_of_append_eq_cons (by decide) trailing.blank same
        exact other inner same


theorem readOptionalBase_append (trailing : Trailing w) {text : List Char}
    (whole : IsWhole text) :
    readOptionalBase (text ++ w) = ((readOptionalBase text).1, (readOptionalBase text).2 ++ w) := by
  unfold readOptionalBase
  rw [(steady_readBase trailing).append whole]
  cases readBase text <;> rfl

theorem moves_readOptionalBase (text : List Char) : Moves text (readOptionalBase text).2 := by
  have steady := steady_readBase trailing_nil
  unfold readOptionalBase
  cases found : readBase text with
  | none => exact .refl text
  | some pair => exact steady.moves found

end Names

section Attributes

variable {w : List Char}

theorem steady_readAttributeValue (trailing : Trailing w) : Steady w readAttributeValue := by
  have either := (Steady.slicing moves_quoted (quoted?_trailing trailing.blank)).orElse
    (steady_readIdent trailing)
  have same : readAttributeValue = fun text =>
      (quoted? text).map (fun count => slice count text) <|> readIdent text := by
    funext text
    unfold readAttributeValue
    cases quoted? text <;> rfl
  rw [same]
  exact either

private theorem readAttributeOperator_none {text : List Char} (first : ∀ c ∈ text.head?, c ≠ '=')
    (second : ∀ c ∈ text.tail.head?, c ≠ '=') : readAttributeOperator text = none := by
  rw [readAttributeOperator.eq_3]
  · rintro rest rfl
    exact first '=' rfl rfl
  · rintro c rest rfl
    exact second '=' rfl rfl

theorem steady_readAttributeOperator (trailing : Trailing w) : Steady w readAttributeOperator := by
  refine ⟨fun {text item rest} read => ?_, fun {text} whole => ?_⟩
  · obtain ⟨rfl, known⟩ := readAttributeOperator_some read
    simp only [operators, List.mem_cons, List.not_mem_nil, or_false] at known
    rcases known with rfl | rfl | rfl | rfl | rfl | rfl
    · exact .behind (by decide) [] rest
    all_goals exact .behind (by decide) [_] rest
  · have noEquals : ∀ d ∈ w, d ≠ '=' := fun d member =>
      ne_of_isBlank (trailing.blank d member) (by decide)
    rcases text with _ | ⟨c, _ | ⟨d, rest⟩⟩
    · have behind : readAttributeOperator w = none :=
        readAttributeOperator_none (fun d member => noEquals d (List.mem_of_head? member))
          fun d member => noEquals d (List.mem_of_mem_tail (List.mem_of_head? member))
      rw [List.nil_append, behind]
      rfl
    · by_cases first : c = '='
      · subst first
        rfl
      · have alone : readAttributeOperator [c] = none :=
          readAttributeOperator_none (by simpa using first) (by simp)
        have behind : readAttributeOperator (c :: w) = none :=
          readAttributeOperator_none (by simpa using first)
            fun d member => noEquals d (List.mem_of_head? member)
        rw [List.singleton_append, alone, behind]
        rfl
    · by_cases first : c = '='
      · subst first
        rfl
      by_cases second : d = '='
      · subst second
        simp only [List.cons_append, readAttributeOperator.eq_2 _ _ first]
        split <;> rfl
      · rw [List.cons_append, List.cons_append,
          readAttributeOperator_none (by simpa using first) (by simpa using second),
          readAttributeOperator_none (by simpa using first) (by simpa using second)]
        rfl

theorem steady_readTest (trailing : Trailing w) : Steady w readTest := by
  have operator := steady_readAttributeOperator trailing
  have bracket : Steady w (readChar ']') := steady_readChar (by decide) (by decide) trailing.blank
  have value (operator : String) : Steady w fun text =>
      (readAttributeValue (skipBlanks text)).bind fun value =>
        (readChar ']' (skipBlanks value.2)).bind fun close =>
          some (some (operator, value.1), close.2) :=
    ((steady_readAttributeValue trailing).skipping trailing.blank rfl).bind fun value =>
      (bracket.skipping trailing.blank rfl).bind fun _ => .pure w (some (operator, value))
  have alone : Steady w fun text =>
      (readChar ']' text).bind fun close => some ((none : Option (String × String)), close.2) :=
    bracket.bind fun _ => .pure w none
  refine ⟨fun {text item rest} read => ?_, fun {text} whole => ?_⟩
  · unfold readTest at read
    cases found : readAttributeOperator text with
    | none =>
      rw [found] at read
      exact alone.moves read
    | some pair =>
      rw [found] at read
      exact (operator.moves found).trans ((value pair.1).moves read)
  · unfold readTest
    rw [operator.append whole]
    cases found : readAttributeOperator text with
    | none => exact alone.append whole
    | some pair => exact (value pair.1).append ((operator.moves found).whole.mp whole)

/-- The rest of an attribute behind its name. -/
private def readBehindName (qualified : Simple) : Reader Simple := fun text =>
  match qualified with
  | .element name ns =>
    (readTest (skipBlanks text)).bind fun test =>
      some (Simple.attribute name ns (test.1.map (·.1)) (test.1.map (·.2)), test.2)
  | _ => none

theorem steady_readAttribute (trailing : Trailing w) : Steady w readAttribute := by
  have inside (qualified : Simple) : Steady w (readBehindName qualified) := by
    cases qualified with
    | element name ns =>
      exact ((steady_readTest trailing).skipping trailing.blank rfl).bind fun test =>
        .pure w (Simple.attribute name ns (test.map (·.1)) (test.map (·.2)))
    | _ => exact ⟨(fun read => by cases read), fun _ => rfl⟩
  exact (steady_readChar (by decide) (by decide) trailing.blank).bind fun _ =>
    ((steady_readQualified trailing).skipping trailing.blank rfl).bind inside

end Attributes

section Arguments

variable {w : List Char}

/-- A text that begins inside a whole one. -/
def IsInside (text : List Char) : Prop :=
  IsWhole text ∨ IsWhole ('\\' :: text)

theorem IsInside.tail {c : Char} {text : List Char} (inside : IsInside (c :: text)) :
    IsInside text := by
  by_cases escape : c = '\\'
  · subst escape
    rcases inside with whole | whole
    · exact .inr whole
    · exact .inl ((isWhole_escape _ text).mp whole)
  · rcases inside with whole | whole
    · exact .inl ((isWhole_cons escape text).mp whole)
    · exact .inl ((isWhole_escape c text).mp whole)

theorem IsInside.whole {c : Char} {text : List Char} (inside : IsInside (c :: text))
    (plain : c ≠ '\\') : IsWhole (c :: text) := by
  rcases inside with whole | whole
  · exact whole
  · exact (isWhole_cons plain text).mpr ((isWhole_escape c text).mp whole)

private theorem balanced?_blanks (blank : ∀ c ∈ w, Text.isBlank c = true) (fuel depth : Nat) :
    balanced? fuel depth w = none := by
  induction w generalizing fuel with
  | nil => cases fuel <;> rfl
  | cons c w ih =>
    cases fuel with
    | zero => rfl
    | succ fuel =>
      have isBlank := blank c List.mem_cons_self
      have double : c ≠ '"' := ne_of_isBlank isBlank (by decide)
      have single : c ≠ '\'' := ne_of_isBlank isBlank (by decide)
      have opens : c ≠ '(' := ne_of_isBlank isBlank (by decide)
      have closes : c ≠ ')' := ne_of_isBlank isBlank (by decide)
      simp [balanced?, double, single, opens, closes,
        ih (fun d member => blank d (List.mem_cons_of_mem c member)) fuel]

private theorem balanced?_cons (fuel depth : Nat) (c : Char) (rest : List Char) :
    balanced? (fuel + 1) depth (c :: rest) =
      if c == '"' || c == '\'' then
        (quoted? (c :: rest)).bind fun count =>
          (balanced? fuel depth ((c :: rest).drop count)).bind fun more => some (count + more)
      else if c == ')' then
        match depth with
        | 0 => some 0
        | depth + 1 => (balanced? fuel depth rest).map (· + 1)
      else (balanced? fuel (if c == '(' then depth + 1 else depth) rest).map (· + 1) := rfl

/-- Where the parenthesis is that closes an argument does not depend on blanks behind the text. -/
theorem balanced?_trailing (blank : ∀ c ∈ w, Text.isBlank c = true) {text : List Char}
    (inside : IsInside text) {fuel more depth : Nat} (enough : text.length < fuel)
    (enough' : text.length < more) :
    balanced? more depth (text ++ w) = balanced? fuel depth text := by
  induction fuel generalizing text more depth with
  | zero => omega
  | succ fuel ih =>
    obtain ⟨more, rfl⟩ := Nat.exists_eq_add_one_of_ne_zero (by omega : more ≠ 0)
    cases text with
    | nil =>
      rw [List.nil_append, balanced?_blanks blank]
      rfl
    | cons c rest =>
      rw [List.length_cons] at enough enough'
      have behind (depth : Nat) : balanced? more depth (rest ++ w) = balanced? fuel depth rest :=
        ih inside.tail (by omega) (by omega)
      rw [List.cons_append, balanced?_cons, balanced?_cons]
      split
      · rename_i quote
        have plain : c ≠ '\\' := by
          rintro rfl
          exact absurd quote (by decide)
        have string := quoted?_trailing blank (inside.whole plain)
        rw [← List.cons_append, string]
        cases found : quoted? (c :: rest) with
        | none => rfl
        | some count =>
          obtain ⟨short, moves⟩ := moves_quoted found
          have positive := quoted?_pos found
          have cut : (c :: rest ++ w).drop count = (c :: rest).drop count ++ w :=
            List.drop_append_of_le_length short
          have fewer := List.length_drop (i := count) (l := c :: rest)
          rw [List.length_cons] at short fewer
          rw [Option.bind_some, Option.bind_some, cut,
            ih (.inl (moves.whole.mp (inside.whole plain))) (by omega) (by omega)]
      · split
        · cases depth with
          | zero => rfl
          | succ depth => simp only [behind depth]
        · exact congrArg _ (behind _)

theorem steady_readRawArgument (blank : ∀ c ∈ w, Text.isBlank c = true) (kind : PseudoKind)
    (name : String) : Steady w (readRawArgument kind name) := by
  refine ⟨fun {text item rest} read => ?_, fun {text} whole => ?_⟩
  · obtain ⟨count, _, read⟩ := Option.bind_eq_some_iff.mp read
    obtain ⟨⟨_, rest'⟩, close, same⟩ := Option.bind_eq_some_iff.mp read
    cases same
    have suffix := List.drop_suffix count text
    rw [readChar_some close] at suffix
    exact .of_suffix (by decide) suffix
  · have same : balanced? ((text ++ w).length + 1) 0 (text ++ w) =
        balanced? (text.length + 1) 0 text :=
      balanced?_trailing blank (.inl whole) (by omega) (by rw [List.length_append]; omega)
    unfold readRawArgument
    simp only [bind, same]
    cases found : balanced? (text.length + 1) 0 text with
    | none => rfl
    | some count =>
      have short := (balanced?_take found).2
      simp only [Option.bind_some, List.drop_append_of_le_length short,
        List.take_append_of_le_length short, readChar_append (c := ')') (by decide) blank]
      cases readChar ')' (text.drop count) <;> rfl

end Arguments

section Qualifiers

variable {w : List Char} {nested : Reader Selector}

theorem steady_readColons (blank : ∀ c ∈ w, Text.isBlank c = true) : Steady w readColons := by
  refine ⟨fun {text item rest} read => ?_, fun {text} whole => ?_⟩
  · rw [readColons_some read]
    cases item with
    | ofClass => exact .behind (by decide) [] rest
    | ofElement => exact .behind (by decide) [':'] rest
  · fun_cases readColons text with
    | case1 => rfl
    | case2 behind alone =>
      rw [List.cons_append, readColons.eq_2]
      · rfl
      · intro more same
        obtain ⟨inner, same, _⟩ := exists_of_append_eq_cons (by decide) blank same
        exact alone inner same
    | case3 _ noPair noSingle =>
      have noColon : ∀ more, text ++ w ≠ ':' :: more := by
        intro more same
        obtain ⟨inner, same, _⟩ := exists_of_append_eq_cons (by decide) blank same
        exact noSingle inner same
      rw [readColons.eq_3 _ (fun more => noColon _) noColon]
      rfl

theorem steady_readArgument (blank : ∀ c ∈ w, Text.isBlank c = true) (inner : Steady w nested)
    (kind : PseudoKind) (name : String) : Steady w (readArgument nested kind name) := by
  have raw := steady_readRawArgument blank kind name
  have selector : Steady w (readSelectorArgument nested name) :=
    inner.bind fun argument =>
      ((steady_readChar (by decide) (by decide) blank).skipping blank rfl).bind fun _ =>
        .pure w (Simple.selectorPseudo name argument)
  unfold readArgument
  split
  · exact selector.orElse raw
  · exact raw

/-- The rest of a pseudo class or element behind its name. -/
private def readBehindColons (nested : Reader Selector) (kind : PseudoKind) (name : String) :
    Reader Simple := fun text =>
  match text with
  | '(' :: argument => readArgument nested kind name argument
  | _ => some (.pseudo kind name none, text)

theorem steady_readPseudo (trailing : Trailing w) (inner : Steady w nested) :
    Steady w (readPseudo nested) := by
  have behind (kind : PseudoKind) (name : String) : Steady w (readBehindColons nested kind name) := by
    have argument := steady_readArgument trailing.blank inner kind name
    refine ⟨fun {text item rest} read => ?_, fun {text} whole => ?_⟩
    · unfold readBehindColons at read
      split at read
      · exact (Moves.behind (by decide) [] _).trans (argument.moves read)
      · cases read
        exact .refl _
    · by_cases opens : ∃ inner, text = '(' :: inner
      · obtain ⟨inner, rfl⟩ := opens
        exact argument.append ((isWhole_cons (by decide) inner).mp whole)
      · unfold readBehindColons
        split
        · rename_i same
          obtain ⟨inner, same, _⟩ := exists_of_append_eq_cons (by decide) trailing.blank same
          exact absurd ⟨inner, same⟩ opens
        · split
          · exact absurd ⟨_, rfl⟩ opens
          · rfl
  exact (steady_readColons trailing.blank).bind fun kind =>
    (steady_readIdent trailing).bind fun name => behind kind name

theorem steady_readQualifier (trailing : Trailing w) (inner : Steady w nested) :
    Steady w (readQualifier nested) := by
  have className := (steady_readIdent trailing).map Simple.className
  have id := (steady_readName trailing).map Simple.id
  have pseudo := steady_readPseudo trailing inner
  refine ⟨fun {text item rest} read => ?_, fun {text} whole => ?_⟩
  · fun_cases readQualifier nested text with
    | case1 behind => exact (Moves.behind (by decide) [] behind).trans (className.moves read)
    | case2 behind => exact (Moves.behind (by decide) [] behind).trans (id.moves read)
    | case3 behind => exact (steady_readAttribute trailing).moves read
    | case4 _ dot hash bracket =>
      rw [readQualifier.eq_4 _ _ dot hash bracket] at read
      exact pseudo.moves read
  · fun_cases readQualifier nested text with
    | case1 behind => exact className.append ((isWhole_cons (by decide) behind).mp whole)
    | case2 behind => exact id.append ((isWhole_cons (by decide) behind).mp whole)
    | case3 behind => exact (steady_readAttribute trailing).append whole
    | case4 _ dot hash bracket =>
      have other (sign : Char) (visible : Text.isBlank sign = false)
          (none : ∀ inner, text ≠ sign :: inner) : ∀ more, text ++ w ≠ sign :: more := by
        intro more same
        obtain ⟨inner, same, _⟩ := exists_of_append_eq_cons visible trailing.blank same
        exact none inner same
      rw [readQualifier.eq_4 _ _ (other '.' (by decide) dot) (other '#' (by decide) hash)
        (other '[' (by decide) bracket)]
      exact pseudo.append whole

end Qualifiers


end Stylesheet.Selector
