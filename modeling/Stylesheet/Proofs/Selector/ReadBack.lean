import Stylesheet.Proofs.Selector.Depth

/-! Reading back what is printed. A raw argument of a pseudo-class that takes a selector was kept
because it did not read as one, and whether it does depends on all that stands behind it. A selector
is read back if none of these arguments reads as a selector at the place where it is printed. -/

namespace Stylesheet

open Selector

/-- The chains behind the first one. -/
def Selector.printedBehind (style : Style) : Selector → List Char
  | [] => []
  | chain :: rest => style.comma.toList ++ Selector.printed style (chain :: rest)

theorem Selector.printed_cons (style : Style) (chain : Chain) (rest : Selector) :
    Selector.printed style (chain :: rest) =
      Chain.printedFrom style .start chain ++ Selector.printedBehind style rest := by
  cases rest with
  | nil => rw [Selector.printed_singleton, Selector.printedBehind, List.append_nil]
  | cons next rest => rw [Selector.printed_cons_cons, Selector.printedBehind]

mutual

/-- The texts that begin with a raw argument of a pseudo-class that takes a selector, where `after`
is what is printed behind the selector. -/
def Simple.rawPlaces (style : Style) (after : List Char) : Simple → List (List Char)
  | .pseudo .ofClass name (some argument) =>
    if takesSelector name then [argument.toList ++ ')' :: after] else []
  | .selectorPseudo _ argument => Selector.rawPlaces style (')' :: after) argument
  | _ => []

def Simple.allRawPlaces (style : Style) (after : List Char) : List Simple → List (List Char)
  | [] => []
  | s :: rest =>
    s.rawPlaces style (Simple.allPrinted style rest ++ after) ++ Simple.allRawPlaces style after rest

def Compound.rawPlaces (style : Style) (after : List Char) : Compound → List (List Char)
  | .mk _ rest => Simple.allRawPlaces style after rest

def Chain.rawPlaces (style : Style) (after : List Char) : List Component → List (List Char)
  | [] => []
  | .compound c :: rest =>
    c.rawPlaces style (Chain.printedFrom style .compound rest ++ after) ++
      Chain.rawPlaces style after rest
  | .combinator _ :: rest => Chain.rawPlaces style after rest

def Selector.rawPlaces (style : Style) (after : List Char) : List (List Component) → List (List Char)
  | [] => []
  | chain :: rest =>
    Chain.rawPlaces style (Selector.printedBehind style rest ++ after) chain ++
      Selector.rawPlaces style after rest

end

namespace Selector

open Scan (nameTail Ident Name)

/-- Whether a text begins with a selector and the parenthesis that closes it. -/
def readsSelector (text : List Char) : Bool :=
  match readInner text with
  | some (_, rest) => (skipBlanks rest).head? == some ')'
  | none => false

/-- Nothing at these places reads as a selector. -/
def Settled (places : List (List Char)) : Prop :=
  ∀ place ∈ places, readsSelector place = false

theorem settled_nil : Settled [] :=
  fun _ member => nomatch member

theorem settled_append {first second : List (List Char)} :
    Settled (first ++ second) ↔ Settled first ∧ Settled second :=
  List.forall_mem_append

theorem readSelectorArgument_none {text : List Char} (name : String) :
    readSelectorArgument readInner name text = none ↔ readsSelector text = false := by
  unfold readSelectorArgument readsSelector
  cases readInner text with
  | none => simp
  | some pair =>
    obtain ⟨selector, rest⟩ := pair
    simp only [bind, Option.bind]
    cases skipBlanks rest with
    | nil => simp [readChar]
    | cons c behind => by_cases close : c = ')' <;> simp [readChar, close]

/-- The text is at its end or goes on with one of these signs. -/
def Begins (signs text : List Char) : Prop :=
  ∀ c ∈ text.head?, c ∈ signs

/-- What ends a chain. -/
def chainEnds : List Char := [',', ')']

/-- What ends a compound. -/
def compoundEnds : List Char := [',', ')', ' ', '>', '+', '~']

/-- What ends a simple selector. -/
def simpleEnds : List Char := [',', ')', ' ', '>', '+', '~', '.', '#', '[', ':']

section Ends

variable {signs more text : List Char}

theorem Begins.mono (begins : Begins signs text) (less : signs ⊆ more) : Begins more text :=
  fun c member => less (begins c member)

theorem begins_close (more : List Char) : Begins [')'] (')' :: more) := by
  intro c member
  cases member
  exact List.mem_singleton_self _

theorem Begins.nameTail (begins : Begins simpleEnds text) : nameTail text = 0 := by
  cases text with
  | nil => rfl
  | cons c rest =>
    have known : simpleEnds.all (fun d => !Scan.isNameChar d && d != '\\') = true := by decide
    have stop := List.all_eq_true.mp known c (begins c rfl)
    simp only [Bool.and_eq_true, Bool.not_eq_true', bne_iff_ne] at stop
    exact Scan.nameTail_stop stop.1 stop.2 rest

theorem Begins.qualifiedStop (begins : Begins simpleEnds text) : QualifiedStop text := by
  refine ⟨begins.nameTail, ?_⟩
  rintro rest rfl
  exact absurd (begins '|' rfl) (by decide)

/-- The characters that ask for no skipping. -/
theorem Begins.skipBlanks (begins : Begins chainEnds text) : skipBlanks text = text := by
  cases text with
  | nil => rfl
  | cons c rest =>
    have known : chainEnds.all (fun d => !Text.isBlank d && d != '/') = true := by decide
    have stop := List.all_eq_true.mp known c (begins c rfl)
    simp only [Bool.and_eq_true, Bool.not_eq_true', bne_iff_ne] at stop
    exact skipBlanks_of_head stop.1 stop.2 rest

theorem readQualifier_none (nested : Reader Selector) (begins : Begins compoundEnds text) :
    readQualifier nested text = none := by
  have colons : readColons text = none := by
    fun_cases readColons text with
    | case1 => exact absurd (begins ':' rfl) (by decide)
    | case2 => exact absurd (begins ':' rfl) (by decide)
    | case3 => rfl
  fun_cases readQualifier nested text with
  | case1 => exact absurd (begins '.' rfl) (by decide)
  | case2 => exact absurd (begins '#' rfl) (by decide)
  | case3 => exact absurd (begins '[' rfl) (by decide)
  | case4 =>
    unfold readPseudo
    rw [colons]
    rfl

/-- No base begins with a sign. -/
theorem readOptionalBase_none (begins : Begins simpleEnds text) :
    readOptionalBase text = (none, text) := by
  have nothing : readBase text = none := by
    cases text with
    | nil => rfl
    | cons c rest =>
      have known : simpleEnds.all (fun d => d != '&' && (d != '*' && (d != '|' && (d != '\\' &&
          (d != '-' && (!d.isDigit && !Scan.isNameStart d)))))) = true := by decide
      have plainly := List.all_eq_true.mp known c (begins c rfl)
      simp only [Bool.and_eq_true, Bool.not_eq_true', bne_iff_ne] at plainly
      obtain ⟨parent, star, bar, plain, hyphen, digit, start⟩ := plainly
      have unnamed : readElementName (c :: rest) = none := by
        unfold readElementName
        rw [readIdent_none plain hyphen start]
        split <;> simp_all
      have unqualified : readQualified (c :: rest) = none := by
        unfold readQualified
        rw [unnamed]
        simp only
        rw [readQualifiedFrom.eq_3 _ _ (by simp [bar]) (by simp [bar])]
        rfl
      rw [readBase.eq_2 _ (by simp [parent]), readPercentage_none digit, unqualified]
      rfl
  unfold readOptionalBase
  rw [nothing]

end Ends

section Again

variable {style : Style} {bound : Nat} {after : List Char}

/-- A selector inside parentheses is read back. -/
def ReadBack (style : Style) (selector : Selector) : Prop :=
  ∀ more, Settled (Selector.rawPlaces style (')' :: more) selector) →
    readInner (Selector.printed style selector ++ ')' :: more) = some (selector, ')' :: more)

/-- Selectors with a short text are read back. -/
def ReadBackBelow (style : Style) (bound : Nat) : Prop :=
  ∀ selector, selector ≠ [] → Selector.AllSpelled selector →
    (Selector.printed style selector).length < bound → ReadBack style selector

private theorem readColons_append {name : List Char} (ident : Ident name) (kind : PseudoKind)
    (rest : List Char) :
    readColons (colons kind ++ (name ++ rest)) = some (kind, name ++ rest) := by
  cases kind with
  | ofElement => rfl
  | ofClass =>
    obtain ⟨c, more, same, start⟩ := ident.exists_cons
    rw [same]
    exact readColons.eq_2 _ (by simp [start.colon])

private theorem readQualifier_colons (nested : Reader Selector) (kind : PseudoKind)
    (text : List Char) :
    readQualifier nested (colons kind ++ text) = readPseudo nested (colons kind ++ text) := by
  cases kind <;> rfl

/-- Behind the name only the argument is left to read. -/
theorem readQualifier_argument (nested : Reader Selector) {name : String}
    (ident : Ident name.toList) (kind : PseudoKind) (argument : List Char) :
    readQualifier nested (colons kind ++ (name.toList ++ '(' :: argument)) =
      readArgument nested kind name argument := by
  have stop : nameTail ('(' :: argument) = 0 := Scan.nameTail_stop (by decide) (by decide) _
  rw [readQualifier_colons]
  unfold readPseudo
  simp only [readColons_append ident, readIdent_append ident stop, bind, Option.bind]

private theorem readQualifier_bare (nested : Reader Selector) {name : String}
    (ident : Ident name.toList) (kind : PseudoKind) (ends : Begins simpleEnds after) :
    readQualifier nested (colons kind ++ (name.toList ++ after)) =
      some (.pseudo kind name none, after) := by
  rw [readQualifier_colons]
  unfold readPseudo
  simp only [readColons_append ident, readIdent_append ident ends.nameTail, bind, Option.bind]
  split
  · exact absurd (ends '(' rfl) (by decide)
  · rfl

theorem printed_raw_append (style : Style) (kind : PseudoKind) (name argument : String)
    (after : List Char) :
    (Simple.pseudo kind name (some argument)).printed style ++ after =
      colons kind ++ (name.toList ++ '(' :: (argument.toList ++ ')' :: after)) := by
  simp

theorem printed_selectorPseudo_append (style : Style) (name : String) (argument : Selector)
    (after : List Char) :
    (Simple.selectorPseudo name argument).printed style ++ after =
      colons .ofClass ++
        (name.toList ++ '(' :: (Selector.printed style argument ++ ')' :: after)) := by
  simp [colons]

theorem readQualifier_again {s : Simple} (inner : ReadBackBelow style bound) (spelled : s.Spelled)
    (short : (s.printed style).length ≤ bound) (ends : Begins simpleEnds after)
    (settled : Settled (s.rawPlaces style after)) :
    readQualifier readInner (s.printed style ++ after) = some (s, after) := by
  match s, spelled with
  | .className name, ident =>
    rw [Simple.printed_className, List.cons_append, readQualifier,
      readIdent_append ident ends.nameTail]
    rfl
  | .id name, spelled =>
    rw [Simple.printed_id, List.cons_append, readQualifier, readName_append spelled ends.nameTail]
    rfl
  | .attribute name ns operator value, spelled =>
    have read := readAttribute_append spelled after
    rw [attributeText] at read
    simpa [Simple.printed, Simple.toCss, attributeText, readQualifier] using read
  | .pseudo kind name none, ⟨ident, _⟩ =>
    rw [Simple.printed_pseudo_none, List.append_assoc]
    exact readQualifier_bare readInner ident kind ends
  | .pseudo kind name (some argument), ⟨ident, raw⟩ =>
    have kept := readRawArgument_append (raw argument rfl) kind name after
    rw [printed_raw_append, readQualifier_argument readInner ident]
    simp only [readArgument]
    split
    · rename_i takes
      simp only [Bool.and_eq_true, beq_iff_eq] at takes
      obtain ⟨rfl, takes⟩ := takes
      have unread : readsSelector (argument.toList ++ ')' :: after) = false :=
        settled _ (by simp [Simple.rawPlaces, takes])
      rw [(readSelectorArgument_none name).mpr unread, kept]
      rfl
    · exact kept
  | .selectorPseudo name argument, ⟨ident, takes, nonempty, spelled⟩ =>
    rw [Simple.printed_selectorPseudo] at short
    simp only [List.length_cons, List.length_append] at short
    have read := inner argument nonempty spelled (by omega) after
      (by simpa [Simple.rawPlaces] using settled)
    have close : skipBlanks (')' :: after) = ')' :: after :=
      skipBlanks_of_head (by decide) (by decide) after
    rw [printed_selectorPseudo_append, readQualifier_argument readInner ident]
    simp only [readArgument, takes, beq_self_eq_true, Bool.and_self, if_true, readSelectorArgument,
      read, close, readChar_self, bind, Option.bind]
    rfl

/-- Qualifiers do not run together. -/
theorem begins_allPrinted (style : Style) {list : List Simple} (spelled : Simple.AllSpelled list)
    (ends : Begins simpleEnds after) :
    Begins simpleEnds (Simple.allPrinted style list ++ after) := by
  cases list with
  | nil => exact ends
  | cons s rest =>
    obtain ⟨c, more, same, sign⟩ := Spelled.exists_cons spelled.1 style
    rw [Simple.allPrinted_cons, same]
    intro d member
    cases member
    rcases sign with rfl | rfl | rfl | rfl <;> decide

theorem many_again {list : List Simple} (inner : ReadBackBelow style bound)
    (spelled : Simple.AllSpelled list) (short : (Simple.allPrinted style list).length ≤ bound)
    (ends : Begins compoundEnds after) (settled : Settled (Simple.allRawPlaces style after list))
    {fuel : Nat} (enough : (Simple.allPrinted style list).length ≤ fuel) :
    many.go (readQualifier readInner) fuel (Simple.allPrinted style list ++ after) =
      (list, after) := by
  induction list generalizing fuel with
  | nil =>
    rw [Simple.allPrinted_nil, List.nil_append]
    cases fuel with
    | zero => rfl
    | succ fuel => rw [many.go, readQualifier_none readInner ends]
  | cons s rest ih =>
    obtain ⟨c, more, same, _⟩ := Spelled.exists_cons spelled.1 style
    have positive := congrArg List.length same
    rw [Simple.allPrinted_cons, List.length_append] at short enough
    rw [List.length_cons] at positive
    obtain ⟨fuel, rfl⟩ := Nat.exists_eq_add_one_of_ne_zero (by omega : fuel ≠ 0)
    rw [Simple.allRawPlaces, settled_append] at settled
    have first := readQualifier_again inner spelled.1 (by omega)
      (begins_allPrinted style spelled.2 (ends.mono (by decide))) settled.1
    have others := ih spelled.2 (by omega) settled.2 (by omega : _ ≤ fuel)
    rw [Simple.allPrinted_cons, List.append_assoc, many.go, first]
    simp only [others]

private theorem readBase_again {b : Simple} (spelled : BaseSpelled b)
    (ends : Begins simpleEnds after) : readBase (b.printed style ++ after) = some (b, after) := by
  rcases spelled with rfl | named | ⟨w, rfl, percentage⟩
  · simp [Simple.printed, Simple.toCss, readBase]
  · have read := readQualified_append style named ends.qualifiedStop
    obtain ⟨c, more, same, start⟩ := named.exists_cons style
    rw [Simple.printed]
    rw [same] at read ⊢
    rw [List.cons_append] at read ⊢
    rw [readBase.eq_2 _ (by simp [start.parent]), readPercentage_none start.digit, read]
    rfl
  · have read := readPercentage_append percentage after
    obtain ⟨c, rest, rfl, digit⟩ := percentage.exists_cons
    have printed : Simple.printed style (.element (String.ofList (c :: rest)) none) = c :: rest := by
      simp [Simple.printed, Simple.toCss, qualified]
    have other : c ≠ '&' := by
      rintro rfl
      exact absurd digit (by decide)
    rw [printed, List.cons_append, readBase.eq_2 _ (by simp [other]), ← List.cons_append, read]
    rfl

theorem readOptionalBase_again (style : Style) {base : Option Simple}
    (spelled : ∀ b ∈ base, BaseSpelled b) (ends : Begins simpleEnds after) :
    readOptionalBase (base.elim [] (Simple.printed style) ++ after) = (base, after) := by
  cases base with
  | none => exact readOptionalBase_none ends
  | some b =>
    unfold readOptionalBase
    rw [Option.elim_some, readBase_again (spelled b rfl) ends]

theorem Compound.printed_mk (style : Style) (base : Option Simple) (rest : List Simple) :
    Compound.printed style (.mk base rest) =
      base.elim [] (Simple.printed style) ++ Simple.allPrinted style rest := by
  cases base with
  | none => exact Compound.printed_none style rest
  | some b => exact Compound.printed_some style b rest

theorem readCompound_again {c : Compound} (inner : ReadBackBelow style bound)
    (spelled : c.Spelled) (short : (c.printed style).length ≤ bound)
    (ends : Begins compoundEnds after) (settled : Settled (c.rawPlaces style after)) :
    readCompound readInner (c.printed style ++ after) = some (c, after) := by
  obtain ⟨base, rest⟩ := c
  obtain ⟨spelledBase, spelledRest, different, nonempty⟩ := spelled
  rw [Compound.printed_mk, List.length_append] at short
  have first := readOptionalBase_again style (fun b member => (spelledBase b member).1)
    (begins_allPrinted style spelledRest (ends.mono (by decide)))
  have second := many_again inner spelledRest (by omega) ends settled
    (by rw [List.length_append]; omega :
      _ ≤ (Simple.allPrinted style rest ++ after).length)
  have whole : Compound.ofMembers (base.toList ++ rest) = .mk base rest := by
    rw [ofMembers_eq (fun b member => (spelledBase b member).1.isBase)
      (fun s member => isBase_of_spelled (allSpelled_iff.mp spelledRest s member))]
    rw [keepNew_of_pairwise different, List.nil_append]
  unfold readCompound
  simp only [Compound.printed_mk, List.append_assoc, first, many, second]
  split
  · rename_i empty
    cases base <;> simp_all
  · rw [whole]

private theorem printed_base {b : Simple} (spelled : BaseSpelled b) (style : Style) :
    b.printed style = (b.toCss .nested).toList := by
  rcases spelled with rfl | named | ⟨w, rfl, _⟩
  · simp [Simple.printed, Simple.toCss]
  · cases b with
    | element name ns => simp [Simple.printed, Simple.toCss]
    | universal ns => simp [Simple.printed, Simple.toCss]
    | _ => exact absurd named id
  · simp [Simple.printed, Simple.toCss]

theorem Compound.exists_cons {c : Compound} (spelled : c.Spelled) (style : Style) :
    ∃ d more, c.printed style = d :: more ∧ Text.isBlank d = false ∧ d ∉ ['/', '>', '+', '~'] := by
  obtain ⟨base, rest⟩ := c
  obtain ⟨spelledBase, spelledRest, _, nonempty⟩ := spelled
  cases base with
  | some b =>
    obtain ⟨spelled, unblank⟩ := spelledBase b rfl
    obtain ⟨d, more, same, sign⟩ := spelled.exists_cons style
    rw [← printed_base spelled style, same] at unblank
    exact ⟨d, more ++ Simple.allPrinted style rest, by rw [Compound.printed_some, same]; rfl,
      unblank d rfl, List.not_mem_of_not_mem_cons sign⟩
  | none =>
    obtain ⟨s, rest, rfl⟩ := List.exists_cons_of_ne_nil (nonempty.resolve_left Bool.false_ne_true)
    obtain ⟨d, more, same, sign⟩ := Spelled.exists_cons spelledRest.1 style
    refine ⟨d, more ++ Simple.allPrinted style rest, ?_, ?_⟩
    · rw [Compound.printed_none, Simple.allPrinted_cons, same]
      rfl
    · rcases sign with rfl | rfl | rfl | rfl <;> decide

/-- Blanks are skipped up to a compound, and it is no combinator. -/
theorem skipBlanks_compound {c : Compound} (spelled : c.Spelled) (style : Style)
    (before : Chain.Before) (rest : List Char) :
    skipBlanks ((spaceBeforeCompound style before).toList ++ (c.printed style ++ rest)) =
        c.printed style ++ rest ∧
      readCombinator (c.printed style ++ rest) = none := by
  obtain ⟨d, more, same, unblank, sign⟩ := Compound.exists_cons spelled style
  have space : skipBlanks ((spaceBeforeCompound style before).toList ++ (c.printed style ++ rest)) =
      skipBlanks (c.printed style ++ rest) := by
    cases style <;> cases before <;> rfl
  simp only [List.mem_cons, List.not_mem_nil, or_false, not_or] at sign
  obtain ⟨slash, child, next, following⟩ := sign
  rw [space, same, List.cons_append]
  refine ⟨skipBlanks_of_head unblank slash _, ?_⟩
  rw [readCombinator.eq_4 _ (by simp [child]) (by simp [next]) (by simp [following])]

/-- Between compounds there is a space. -/
theorem length_skipBlanks_lt (style : Style) {before : Chain.Before} {text : List Char}
    (isCompound : before = .compound)
    (skipped : skipBlanks ((spaceBeforeCompound style before).toList ++ text) = text) :
    (skipBlanks ((spaceBeforeCompound style before).toList ++ text)).length <
      ((spaceBeforeCompound style before).toList ++ text).length := by
  subst isCompound
  rw [skipped]
  simp [spaceBeforeCompound]

theorem skipBlanks_combinator (k : Combinator) (style : Style) (before : Chain.Before)
    (rest : List Char) :
    readCombinator (skipBlanks ((spaceBeforeCombinator style before).toList ++
      (k.toText.toList ++ rest))) = some (k, rest) := by
  have space : skipBlanks ((spaceBeforeCombinator style before).toList ++
      (k.toText.toList ++ rest)) = skipBlanks (k.toText.toList ++ rest) := by
    cases style <;> cases before <;> rfl
  have sign : skipBlanks (k.toText.toList ++ rest) = k.toText.toList ++ rest := by
    cases k <;> exact skipBlanks_of_head (by decide) (by decide) rest
  rw [space, sign]
  cases k <;> rfl

theorem begins_printedFrom (style : Style) (chain : Chain) (ends : Begins chainEnds after) :
    Begins compoundEnds (Chain.printedFrom style .compound chain ++ after) := by
  cases chain with
  | nil => exact ends.mono (by decide)
  | cons component rest =>
    cases component with
    | compound c =>
      have space : (spaceBeforeCompound style .compound).toList = [' '] := by
        simp [spaceBeforeCompound]
      rw [Chain.printedFrom_compound, space]
      intro d member
      cases member
      decide
    | combinator k =>
      rw [Chain.printedFrom_combinator]
      intro d member
      cases style <;> cases k <;> cases member <;> decide

section Steps

variable {nested : Reader Selector} {fuel : Nat} {behind : Bool} {text rest : List Char}

theorem readComponents_combinator {k : Combinator}
    (sign : readCombinator (skipBlanks text) = some (k, rest)) :
    readComponents nested (fuel + 1) behind text =
      (.combinator k :: (readComponents nested fuel false rest).1,
        (readComponents nested fuel false rest).2) := by
  rw [readComponents]
  simp only [sign]

theorem readComponents_none (sign : readCombinator (skipBlanks text) = none)
    (unread : readCompound nested (skipBlanks text) = none) :
    readComponents nested (fuel + 1) behind text = ([], text) := by
  rw [readComponents]
  simp only [sign, unread, ite_self]

theorem readComponents_compound {c : Compound} (sign : readCombinator (skipBlanks text) = none)
    (spaced : behind = true → (skipBlanks text).length < text.length)
    (read : readCompound nested (skipBlanks text) = some (c, rest)) :
    readComponents nested (fuel + 1) behind text =
      (.compound c :: (readComponents nested fuel true rest).1,
        (readComponents nested fuel true rest).2) := by
  have goesOn : (!decide ((skipBlanks text).length < text.length) && behind) = false := by
    cases behind with
    | false => exact Bool.and_false _
    | true => simp [spaced rfl]
  rw [readComponents]
  simp only [sign, goesOn, read, Bool.false_eq_true, if_false]

theorem readChains_comma {found : Selector} {chain : Chain} {more : List Char}
    (first : readComponents nested (text.length + 1) false text = (chain, rest))
    (nonempty : chain ≠ []) (comma : skipBlanks rest = ',' :: more) :
    readChains nested (fuel + 1) found text = readChains nested fuel (found ++ [chain]) more := by
  obtain ⟨component, others, rfl⟩ := List.exists_cons_of_ne_nil nonempty
  rw [readChains, first]
  simp only [comma]

theorem readChains_last {found : Selector} {chain : Chain}
    (first : readComponents nested (text.length + 1) false text = (chain, rest))
    (nonempty : chain ≠ []) (last : ∀ more, skipBlanks rest ≠ ',' :: more) :
    readChains nested (fuel + 1) found text = .read (found ++ [chain]) rest := by
  obtain ⟨component, others, rfl⟩ := List.exists_cons_of_ne_nil nonempty
  rw [readChains, first]
  simp only

/-- What reading chains has done at its first step. -/
theorem readChains_step {found selector : Selector}
    (read : readChains nested (fuel + 1) found text = .read selector rest) :
    ∃ chain behind, chain ≠ [] ∧
      readComponents nested (text.length + 1) false text = (chain, behind) ∧
      ((∃ more, skipBlanks behind = ',' :: more ∧
          readChains nested fuel (found ++ [chain]) more = .read selector rest) ∨
        selector = found ++ [chain] ∧ rest = behind) := by
  cases first : readComponents nested (text.length + 1) false text with
  | mk chain behind =>
    have nonempty : chain ≠ [] := by
      rintro rfl
      rw [readChains, first] at read
      cases read
    refine ⟨chain, behind, nonempty, rfl, ?_⟩
    by_cases comma : ∃ more, skipBlanks behind = ',' :: more
    · obtain ⟨more, comma⟩ := comma
      rw [readChains_comma first nonempty comma] at read
      exact .inl ⟨more, comma, read⟩
    · rw [readChains_last first nonempty (fun more same => comma ⟨more, same⟩)] at read
      cases read
      exact .inr ⟨rfl, rfl⟩

end Steps

private theorem readCompound_none (nested : Reader Selector) (ends : Begins chainEnds after) :
    readCompound nested after = none := by
  have nothing : many (readQualifier nested) after = ([], after) := by
    have none := readQualifier_none nested (ends.mono (by decide))
    unfold many
    cases after.length with
    | zero => rfl
    | succ fuel => rw [many.go, none]
  unfold readCompound
  simp only [readOptionalBase_none (ends.mono (by decide)), nothing]
  rfl

private theorem readComponents_stop (nested : Reader Selector) (fuel : Nat) (behind : Bool)
    (ends : Begins chainEnds after) : readComponents nested fuel behind after = ([], after) := by
  cases fuel with
  | zero => rfl
  | succ fuel =>
    have sign : readCombinator after = none := by
      fun_cases readCombinator after with
      | case4 => rfl
      | _ => exact absurd (ends _ rfl) (by decide)
    have unread := readCompound_none nested ends
    rw [← ends.skipBlanks] at sign unread
    exact readComponents_none sign unread

theorem readComponents_again {chain : Chain} (inner : ReadBackBelow style bound)
    (spelled : Chain.AllSpelled chain) (before : Chain.Before)
    (short : (Chain.printedFrom style before chain).length ≤ bound)
    (ends : Begins chainEnds after) (settled : Settled (Chain.rawPlaces style after chain))
    {fuel : Nat} (enough : (Chain.printedFrom style before chain).length ≤ fuel) :
    readComponents readInner fuel (decide (before = .compound))
      (Chain.printedFrom style before chain ++ after) = (chain, after) := by
  induction chain generalizing before fuel with
  | nil =>
    rw [Chain.printedFrom_nil, List.nil_append]
    exact readComponents_stop readInner fuel _ ends
  | cons component rest ih =>
    cases component with
    | combinator k =>
      have width : k.toText.toList.length = 1 := by cases k <;> rfl
      rw [Chain.printedFrom_combinator, List.length_append, List.length_append] at short enough
      obtain ⟨fuel, rfl⟩ := Nat.exists_eq_add_one_of_ne_zero (by omega : fuel ≠ 0)
      have sign := skipBlanks_combinator k style before
        (Chain.printedFrom style .combinator rest ++ after)
      have others := ih spelled .combinator (by omega) settled (by omega : _ ≤ fuel)
      rw [Chain.printedFrom_combinator, List.append_assoc, List.append_assoc,
        readComponents_combinator sign]
      simp only [reduceCtorEq, decide_false] at others
      rw [others]
    | compound c =>
      obtain ⟨_, _, nonempty, _⟩ := Compound.exists_cons spelled.1 style
      have positive := congrArg List.length nonempty
      rw [List.length_cons] at positive
      rw [Chain.printedFrom_compound, List.length_append, List.length_append] at short enough
      obtain ⟨fuel, rfl⟩ := Nat.exists_eq_add_one_of_ne_zero (by omega : fuel ≠ 0)
      rw [Chain.rawPlaces, settled_append] at settled
      obtain ⟨skipped, sign⟩ := skipBlanks_compound spelled.1 style before
        (Chain.printedFrom style .compound rest ++ after)
      have first := readCompound_again inner spelled.1 (by omega)
        (begins_printedFrom style rest ends) settled.1
      have others := ih spelled.2 .compound (by omega) settled.2 (by omega : _ ≤ fuel)
      rw [Chain.printedFrom_compound, List.append_assoc, List.append_assoc]
      rw [← skipped] at sign first
      rw [readComponents_compound sign _ first]
      · simp only [decide_true] at others
        rw [others]
      · exact fun behind => length_skipBlanks_lt style (of_decide_eq_true behind) skipped

/-- At the start of a chain it does not matter what is skipped in front. -/
theorem readComponents_skipped (nested : Reader Selector) {fuel : Nat} {text other : List Char}
    (same : skipBlanks text = skipBlanks other) {chain : Chain} (nonempty : chain ≠ [])
    (rest : List Char) :
    readComponents nested fuel false text = (chain, rest) ↔
      readComponents nested fuel false other = (chain, rest) := by
  cases fuel with
  | zero => simp [readComponents, nonempty.symm]
  | succ fuel =>
    unfold readComponents
    simp only [same, Bool.and_false, Bool.false_eq_true, if_false]
    split
    · rfl
    · split
      · rfl
      · simp [nonempty.symm]

/-- What stands behind a comma. -/
def commaSpace (style : Style) : List Char :=
  style.comma.toList.drop 1

theorem comma_eq (style : Style) : style.comma.toList = ',' :: commaSpace style := by
  cases style <;> rfl

theorem begins_printedBehind (style : Style) (selector : Selector) (ends : Begins [')'] after) :
    Begins chainEnds (Selector.printedBehind style selector ++ after) := by
  cases selector with
  | nil => exact ends.mono (by decide)
  | cons chain rest =>
    rw [Selector.printedBehind, comma_eq]
    intro c member
    cases member
    decide

theorem skipBlanks_printedBehind (style : Style) (chain : Chain) (rest : Selector)
    (after : List Char) :
    skipBlanks (Selector.printedBehind style (chain :: rest) ++ after) =
      ',' :: (commaSpace style ++ (Selector.printed style (chain :: rest) ++ after)) := by
  have text : Selector.printedBehind style (chain :: rest) ++ after =
      ',' :: (commaSpace style ++ (Selector.printed style (chain :: rest) ++ after)) := by
    rw [Selector.printedBehind, comma_eq]
    simp
  rw [text]
  exact skipBlanks_of_head (by decide) (by decide) _

theorem readComponents_commaSpace (nested : Reader Selector) {fuel : Nat} {text : List Char}
    {chain : Chain} (nonempty : chain ≠ []) (style : Style) (rest : List Char) :
    readComponents nested fuel false (commaSpace style ++ text) = (chain, rest) ↔
      readComponents nested fuel false text = (chain, rest) := by
  cases style <;>
    first
      | exact Iff.rfl
      | exact readComponents_skipped nested (skipBlanks_space text) nonempty rest

theorem length_firstChain_le (style : Style) (lead : List Char) (chain : Chain) (rest : Selector)
    (after : List Char) :
    (Chain.printedFrom style .start chain).length ≤
      (lead ++ (Selector.printed style (chain :: rest) ++ after)).length + 1 := by
  rw [Selector.printed_cons]
  simp only [List.length_append]
  omega

/-- The first of several chains, maybe behind the space of a comma. -/
theorem firstChain_again {chain : Chain} {rest : Selector} (inner : ReadBackBelow style bound)
    (nonempty : chain ≠ []) (spelled : Chain.AllSpelled chain)
    (short : (Chain.printedFrom style .start chain).length ≤ bound) (ends : Begins [')'] after)
    (settled : Settled (Chain.rawPlaces style (Selector.printedBehind style rest ++ after) chain))
    {lead : List Char} (blank : lead = [] ∨ lead = commaSpace style) {fuel : Nat}
    (enough : (Chain.printedFrom style .start chain).length ≤ fuel) :
    readComponents readInner fuel false
        (lead ++ (Selector.printed style (chain :: rest) ++ after)) =
      (chain, Selector.printedBehind style rest ++ after) := by
  have read := readComponents_again inner spelled .start short
    (begins_printedBehind style rest ends) settled enough
  rw [Selector.printed_cons, List.append_assoc]
  rcases blank with rfl | rfl
  · exact read
  · exact (readComponents_commaSpace readInner nonempty style _).mpr read

theorem readChains_again {selector : Selector} (inner : ReadBackBelow style bound)
    (nonempty : selector ≠ []) (spelled : Selector.AllSpelled selector)
    (short : (Selector.printed style selector).length ≤ bound) (ends : Begins [')'] after)
    (settled : Settled (Selector.rawPlaces style after selector)) {lead : List Char}
    (blank : lead = [] ∨ lead = commaSpace style) {fuel : Nat}
    (enough : (Selector.printed style selector).length < fuel) (found : Selector) :
    readChains readInner fuel found (lead ++ (Selector.printed style selector ++ after)) =
      .read (found ++ selector) after := by
  induction selector generalizing lead fuel found with
  | nil => exact absurd rfl nonempty
  | cons chain rest ih =>
    obtain ⟨fuel, rfl⟩ := Nat.exists_eq_add_one_of_ne_zero (by omega : fuel ≠ 0)
    obtain ⟨some, spelled, others⟩ := spelled
    rw [Selector.rawPlaces, settled_append] at settled
    rw [Selector.printed_cons, List.length_append] at short enough
    have first := firstChain_again inner some spelled (by omega) ends settled.1 blank
      (length_firstChain_le style lead chain rest after)
    cases rest with
    | nil =>
      apply readChains_last first some
      intro more comma
      rw [(begins_printedBehind style [] ends).skipBlanks, Selector.printedBehind,
        List.nil_append] at comma
      exact absurd (ends ',' (by rw [comma]; rfl)) (by decide)
    | cons next rest =>
      rw [Selector.printedBehind, comma_eq, List.length_append, List.length_cons] at short enough
      have later := ih (by simp) others (by omega) settled.2 (.inr rfl) (by omega : _ < fuel)
        (found ++ [chain])
      rw [readChains_comma first some (skipBlanks_printedBehind style next rest after), later,
        List.append_assoc, List.singleton_append]

/-- A selector with nothing unsettled in it is read back. -/
theorem readList_again {selector : Selector} (inner : ReadBackBelow style bound)
    (nonempty : selector ≠ []) (spelled : Selector.AllSpelled selector)
    (short : (Selector.printed style selector).length ≤ bound) (ends : Begins [')'] after)
    (settled : Settled (Selector.rawPlaces style after selector)) :
    readList (Selector.printed style selector ++ after) = .read selector after := by
  rw [readList_eq]
  exact readChains_again inner nonempty spelled short ends settled (.inl rfl)
    (by rw [List.length_append]; omega) []

theorem readBackBelow (style : Style) (bound : Nat) : ReadBackBelow style bound := by
  induction bound with
  | zero => exact fun _ _ _ short => absurd short (Nat.not_lt_zero _)
  | succ bound ih =>
    intro selector nonempty spelled short more settled
    rw [readInner_eq, readList_again ih nonempty spelled (by omega) (begins_close more) settled]

end Again

end Selector

end Stylesheet
