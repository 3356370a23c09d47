import Stylesheet.Proofs.Selector.ReadBack

/-! When a selector survives printing and reading. If its text is read as the selector itself, then
each raw argument was kept where it stands, or ink was lost on the way: what is skipped or dropped
has ink, and so has an argument that is read further than it goes. At the end no ink is left that
could make up for it, so that the condition for reading back is exact. -/

namespace Stylesheet.Selector

section Exact

variable {style : Style} {bound : Nat} {after rest : List Char}

/-- Where a selector is read as itself and no ink is lost, it is settled. -/
def ReadExactly (style : Style) (selector : Selector) : Prop :=
  ∀ more rest, readInner (Selector.printed style selector ++ ')' :: more) = some (selector, rest) →
    Settled (Selector.rawPlaces style (')' :: more) selector) ∨ ink rest < ink (')' :: more)

def ReadExactlyBelow (style : Style) (bound : Nat) : Prop :=
  ∀ selector, selector ≠ [] → Selector.AllSpelled selector →
    (Selector.printed style selector).length < bound → ReadExactly style selector

/-- The argument of a pseudo-class that takes a selector is read as one or kept as text. -/
private theorem readArgument_class {name : String} {s : Simple} {text : List Char}
    (takes : takesSelector name = true)
    (read : readArgument readInner .ofClass name text = some (s, rest)) :
    (∃ selector behind, s = .selectorPseudo name selector ∧
        readInner text = some (selector, behind) ∧ skipBlanks behind = ')' :: rest) ∨
      (∃ argument, s = .pseudo .ofClass name (some argument)) ∧ readsSelector text = false := by
  simp only [readArgument, takes, beq_self_eq_true, Bool.and_self, if_true] at read
  rcases orElse_some read with found | ⟨none, found⟩
  · left
    unfold readSelectorArgument at found
    obtain ⟨⟨selector, behind⟩, inside, found⟩ := Option.bind_eq_some_iff.mp found
    obtain ⟨⟨_, behind'⟩, close, found⟩ := Option.bind_eq_some_iff.mp found
    cases found
    exact ⟨selector, behind, rfl, inside, readChar_some close⟩
  · right
    obtain ⟨argument, same, _⟩ := readRawArgument_some found
    exact ⟨⟨argument, same⟩, (readSelectorArgument_none name).mp none⟩

theorem readQualifier_exact {s : Simple} (inner : ReadExactlyBelow style bound)
    (spelled : s.Spelled) (short : (s.printed style).length ≤ bound)
    (read : readQualifier readInner (s.printed style ++ after) = some (s, rest)) :
    Settled (s.rawPlaces style after) ∨ ink rest < ink after := by
  match s, spelled with
  | .className _, _ => exact .inl settled_nil
  | .id _, _ => exact .inl settled_nil
  | .attribute .., _ => exact .inl settled_nil
  | .pseudo .ofElement _ _, _ => exact .inl settled_nil
  | .pseudo .ofClass _ none, _ => exact .inl settled_nil
  | .pseudo .ofClass name (some argument), ⟨ident, raw⟩ =>
    left
    cases takes : takesSelector name with
    | false => simpa [Simple.rawPlaces, takes] using settled_nil
    | true =>
      rw [printed_raw_append, readQualifier_argument readInner ident] at read
      rcases readArgument_class takes read with ⟨_, _, other, _⟩ | ⟨_, unread⟩
      · cases other
      · simpa [Simple.rawPlaces, takes, Settled] using unread
  | .selectorPseudo name argument, ⟨ident, takes, nonempty, spelled⟩ =>
    rw [Simple.printed_selectorPseudo] at short
    simp only [List.length_cons, List.length_append] at short
    rw [printed_selectorPseudo_append, readQualifier_argument readInner ident] at read
    rcases readArgument_class takes read with ⟨_, behind, same, inside, close⟩ | ⟨⟨_, other⟩, _⟩
    · cases same
      rcases inner argument nonempty spelled (by omega) after behind inside with settled | lost
      · exact .inl (by simpa [Simple.rawPlaces] using settled)
      · right
        have less := (Leaves.skipBlanks behind).ink
        rw [close, ink_cons (by decide)] at less
        rw [ink_cons (by decide)] at lost
        omega
    · cases other

/-- A qualifier that is read as itself is read exactly, or ink is lost. -/
private theorem readQualifier_dichotomy {s : Simple} (inner : ReadExactlyBelow style bound)
    (spelled : s.Spelled) (short : (s.printed style).length ≤ bound)
    (ends : Begins simpleEnds after)
    (read : readQualifier readInner (s.printed style ++ after) = some (s, rest)) :
    Settled (s.rawPlaces style after) ∧ rest = after ∨ ink rest < ink after := by
  rcases readQualifier_exact inner spelled short read with settled | lost
  · left
    have again := readQualifier_again (readBackBelow style _) spelled (Nat.le_refl _) ends settled
    rw [again] at read
    cases read
    exact ⟨settled, rfl⟩
  · exact .inr lost

theorem many_exact {list : List Simple} (inner : ReadExactlyBelow style bound)
    (spelled : Simple.AllSpelled list) (short : (Simple.allPrinted style list).length ≤ bound)
    (ends : Begins compoundEnds after) {fuel : Nat} {items kept : List Simple}
    (read : many.go (readQualifier readInner) fuel (Simple.allPrinted style list ++ after) =
      (items, rest)) (same : keepNew kept items = kept ++ list) :
    Settled (Simple.allRawPlaces style after list) ∨ ink rest < ink after := by
  induction list generalizing fuel items kept with
  | nil => exact .inl settled_nil
  | cons s list ih =>
    have nothing : keepNew kept [] ≠ kept ++ s :: list := by simp [keepNew]
    cases fuel with
    | zero =>
      cases read
      exact absurd same nothing
    | succ fuel =>
      cases first : readQualifier readInner (Simple.allPrinted style (s :: list) ++ after) with
      | none =>
        rw [many.go, first] at read
        cases read
        exact absurd same nothing
      | some pair =>
        obtain ⟨item, behind⟩ := pair
        rw [many.go, first] at read
        cases later : many.go (readQualifier readInner) fuel behind with
        | mk others rest' =>
          simp only [later] at read
          cases read
          obtain ⟨spelledItem, leaves⟩ := readQualifier_some (readsSpelled_inner style) first
          obtain ⟨_, leaves'⟩ := many_some (readsSpelled_inner style) later
          rw [keepNew_cons] at same
          split at same
          · -- an item that is there already takes ink of its own
            right
            obtain ⟨added, found, sub⟩ := exists_keepNew kept others
            rw [found, List.append_cancel_left_eq] at same
            have less := ink_allPrinted_le style (same ▸ sub)
            have positive := ink_pos_of_spelled spelledItem style
            have whole := (leaves.trans leaves').ink
            rw [ink_append] at whole
            omega
          · obtain ⟨added, found, sub⟩ := exists_keepNew (kept ++ [item]) others
            rw [found, List.append_assoc, List.append_cancel_left_eq, List.singleton_append] at same
            cases same
            have less := ink_allPrinted_le style sub
            rw [Simple.allPrinted_cons, List.append_assoc] at first
            rw [Simple.allPrinted_cons, List.length_append] at short
            rcases readQualifier_dichotomy inner spelled.1 (by omega)
              (begins_allPrinted style spelled.2 (ends.mono (by decide))) first with
              ⟨settled, rfl⟩ | lost
            · rcases ih spelled.2 (by omega) later found with settled' | lost
              · exact .inl (settled_append.mpr ⟨settled, settled'⟩)
              · exact .inr lost
            · right
              have whole := leaves'.ink
              rw [ink_append] at lost
              omega

theorem readCompound_exact {c : Compound} (inner : ReadExactlyBelow style bound)
    (spelled : c.Spelled) (short : (c.printed style).length ≤ bound)
    (ends : Begins compoundEnds after)
    (read : readCompound readInner (c.printed style ++ after) = some (c, rest)) :
    Settled (c.rawPlaces style after) ∧ rest = after ∨ ink rest < ink after := by
  have settles : Settled (c.rawPlaces style after) ∨ ink rest < ink after := by
    obtain ⟨base, list⟩ := c
    obtain ⟨spelledBase, spelledList, different, nonempty⟩ := spelled
    have first := readOptionalBase_again style (fun b member => (spelledBase b member).1)
      (begins_allPrinted style spelledList (ends.mono (by decide)))
    rw [Compound.printed_mk, List.length_append] at short
    rw [Compound.printed_mk, List.append_assoc] at read
    unfold readCompound at read
    cases second : many (readQualifier readInner) (Simple.allPrinted style list ++ after) with
    | mk items behind =>
      simp only [first, second] at read
      split at read
      · cases read
      · rename_i some
        have items_spelled := allSpelled_iff.mp (many_some (readsSpelled_inner style) second).1
        rw [ofMembers_eq (fun b member => (spelledBase b member).1.isBase)
          (fun s member => isBase_of_spelled (items_spelled s member))] at read
        simp only [Option.some.injEq, Prod.mk.injEq, Compound.mk.injEq, true_and] at read
        obtain ⟨same, rfl⟩ := read
        exact many_exact inner spelledList (by omega) ends second same
  rcases settles with settled | lost
  · left
    have again := readCompound_again (readBackBelow style _) spelled (Nat.le_refl _) ends settled
    rw [again] at read
    cases read
    exact ⟨settled, rfl⟩
  · exact .inr lost

theorem readComponents_exact {chain : Chain} (inner : ReadExactlyBelow style bound)
    (spelled : Chain.AllSpelled chain) (before : Chain.Before)
    (short : (Chain.printedFrom style before chain).length ≤ bound)
    (ends : Begins chainEnds after) {fuel : Nat}
    (read : readComponents readInner fuel (decide (before = .compound))
      (Chain.printedFrom style before chain ++ after) = (chain, rest)) :
    Settled (Chain.rawPlaces style after chain) ∨ ink rest < ink after := by
  induction chain generalizing before fuel with
  | nil => exact .inl settled_nil
  | cons component chain ih =>
    cases fuel with
    | zero => cases read
    | succ fuel =>
      cases component with
      | combinator k =>
        have sign := skipBlanks_combinator k style before
          (Chain.printedFrom style .combinator chain ++ after)
        rw [Chain.printedFrom_combinator, List.append_assoc, List.append_assoc,
          readComponents_combinator sign] at read
        rw [Chain.printedFrom_combinator, List.length_append, List.length_append] at short
        simp only [Prod.mk.injEq, List.cons.injEq, true_and] at read
        exact ih spelled .combinator (by omega) (Prod.ext read.1 read.2)
      | compound c =>
        obtain ⟨skipped, sign⟩ := skipBlanks_compound spelled.1 style before
          (Chain.printedFrom style .compound chain ++ after)
        rw [Chain.printedFrom_compound, List.append_assoc, List.append_assoc] at read
        rw [Chain.printedFrom_compound, List.length_append, List.length_append] at short
        cases first : readCompound readInner
            (c.printed style ++ (Chain.printedFrom style .compound chain ++ after)) with
        | none =>
          rw [← skipped] at sign first
          rw [readComponents_none sign first] at read
          cases read
        | some pair =>
          obtain ⟨c', behind⟩ := pair
          have again := first
          rw [← skipped] at sign again
          rw [readComponents_compound sign _ again] at read
          · simp only [Prod.mk.injEq, List.cons.injEq, Component.compound.injEq] at read
            obtain ⟨⟨rfl, others⟩, rest_eq⟩ := read
            have later : readComponents readInner fuel true behind = (chain, rest) :=
              Prod.ext others rest_eq
            rcases readCompound_exact inner spelled.1 (by omega)
              (begins_printedFrom style chain ends) first with ⟨settled, rfl⟩ | lost
            · rcases ih spelled.2 .compound (by omega) later with settled' | lost
              · exact .inl (settled_append.mpr ⟨settled, settled'⟩)
              · exact .inr lost
            · right
              have whole := ((readComponents_some (readsSpelled_inner style) later).2 .compound).ink
              rw [ink_append] at lost
              omega
          · exact fun behind => length_skipBlanks_lt style (of_decide_eq_true behind) skipped

theorem ink_printedBehind (style : Style) {selector : Selector} (nonempty : selector ≠ []) :
    ink (Selector.printedBehind style selector) = 1 + ink (Selector.printed style selector) := by
  obtain ⟨chain, others, rfl⟩ := List.exists_cons_of_ne_nil nonempty
  have sign : ink style.comma.toList = 1 := by cases style <;> decide
  rw [Selector.printedBehind, ink_append, sign]

private theorem firstChain_exact {chain : Chain} {selector : Selector}
    (inner : ReadExactlyBelow style bound) (nonempty : chain ≠ [])
    (spelled : Chain.AllSpelled chain)
    (short : (Chain.printedFrom style .start chain).length ≤ bound) (ends : Begins [')'] after)
    {lead : List Char} (blank : lead = [] ∨ lead = commaSpace style) {fuel : Nat}
    (enough : (Chain.printedFrom style .start chain).length ≤ fuel)
    (read : readComponents readInner fuel false
      (lead ++ (Selector.printed style (chain :: selector) ++ after)) = (chain, rest)) :
    Settled (Chain.rawPlaces style (Selector.printedBehind style selector ++ after) chain) ∧
        rest = Selector.printedBehind style selector ++ after ∨
      ink rest < ink (Selector.printedBehind style selector ++ after) := by
  have behindEnds := begins_printedBehind style selector ends
  have unled : readComponents readInner fuel false
      (Chain.printedFrom style .start chain ++ (Selector.printedBehind style selector ++ after)) =
        (chain, rest) := by
    rw [Selector.printed_cons, List.append_assoc] at read
    rcases blank with rfl | rfl
    · exact read
    · exact (readComponents_commaSpace readInner nonempty style rest).mp read
  rcases readComponents_exact inner spelled .start short behindEnds unled with settled | lost
  · left
    have again := firstChain_again (readBackBelow style _) nonempty spelled (Nat.le_refl _) ends
      settled blank enough
    exact ⟨settled, (Prod.mk.inj (read.symm.trans again)).2⟩
  · exact .inr lost

theorem readChains_exact {selector : Selector} (inner : ReadExactlyBelow style bound)
    (spelled : Selector.AllSpelled selector)
    (short : (Selector.printed style selector).length ≤ bound) (ends : Begins [')'] after)
    {lead : List Char} (blank : lead = [] ∨ lead = commaSpace style) {fuel : Nat}
    {found : Selector}
    (read : readChains readInner fuel found (lead ++ (Selector.printed style selector ++ after)) =
      .read (found ++ selector) rest) :
    Settled (Selector.rawPlaces style after selector) ∨ ink rest < ink after := by
  induction selector generalizing lead fuel found with
  | nil => exact .inl settled_nil
  | cons chain selector ih =>
    cases fuel with
    | zero => cases read
    | succ fuel =>
      obtain ⟨first, behind, nonempty, components, step⟩ := readChains_step read
      rw [Selector.printed_cons, List.length_append] at short
      have enough := length_firstChain_le style lead chain selector after
      rcases step with ⟨more, comma, later⟩ | ⟨same, rfl⟩
      · obtain ⟨new, same, some, _, leaves⟩ := readChains_some (readsSpelled_inner style) later
        rw [List.append_assoc, List.append_cancel_left_eq, List.singleton_append] at same
        cases same
        have pieces := firstChain_exact inner nonempty spelled.2.1 (by omega) ends blank enough
          components
        have count := ink_printedBehind style some
        rcases pieces with ⟨settled, rfl⟩ | lost
        · obtain ⟨next, others, rfl⟩ := List.exists_cons_of_ne_nil some
          rw [skipBlanks_printedBehind] at comma
          cases comma
          rw [Selector.printedBehind, List.length_append] at short
          rw [List.append_cons found chain (next :: others)] at later
          rcases ih spelled.2.2 (by omega) (.inr rfl) later with settled' | lost
          · exact .inl (settled_append.mpr ⟨settled, settled'⟩)
          · exact .inr lost
        · right
          have skipped := (Leaves.skipBlanks behind).ink
          rw [comma, ink_cons (by decide)] at skipped
          have whole := leaves.ink
          rw [ink_append] at lost
          omega
      · rw [List.append_cancel_left_eq] at same
        cases same
        rcases firstChain_exact inner nonempty spelled.2.1 (by omega) ends blank enough components
          with ⟨settled, _⟩ | lost
        · exact .inl (settled_append.mpr ⟨settled, settled_nil⟩)
        · exact .inr lost

theorem readExactlyBelow (style : Style) (bound : Nat) : ReadExactlyBelow style bound := by
  induction bound with
  | zero => exact fun _ _ _ short => absurd short (Nat.not_lt_zero _)
  | succ bound ih =>
    intro selector nonempty spelled short more rest read
    rw [readInner_eq, readList_eq] at read
    split at read
    · rename_i whole
      cases read
      exact readChains_exact ih spelled (by omega) (begins_close more) (.inl rfl) whole
    · cases read

end Exact

/-- A text is a selector if reading it leaves only blanks. -/
theorem parse_ok {text : String} {line : Nat} {selector : Selector} :
    parse text line = .ok selector ↔
      ∃ rest, readList text.toList = .read selector rest ∧ rest.dropWhile Text.isBlank = [] := by
  unfold parse
  constructor
  · intro parsed
    simp only at parsed
    split at parsed
    · rename_i found rest read
      split at parsed
      · cases parsed
        exact ⟨rest, read, ‹_›⟩
      · cases parsed
    · cases parsed
  · rintro ⟨rest, read, blank⟩
    simp only [read, blank]

/-- What is read as a whole is spelled. -/
theorem spelled_of_parse {text : String} {line : Nat} {selector : Selector}
    (parsed : parse text line = .ok selector) :
    selector ≠ [] ∧ Selector.AllSpelled selector := by
  obtain ⟨rest, read, _⟩ := parse_ok.mp parsed
  rw [readList_eq] at read
  obtain ⟨new, rfl, nonempty, spelled, _⟩ := readChains_some (readsSpelled_inner .nested) read
  exact ⟨nonempty, spelled⟩

/-- A selector that was read is read back from its text, whatever the style, exactly if none of its
raw arguments reads as a selector where it is printed. -/
theorem parse_toCss_iff {text : String} {line : Nat} {selector : Selector}
    (parsed : parse text line = .ok selector) (style : Style) (again : Nat) :
    parse (Selector.toCss style selector) again = .ok selector ↔
      ∀ place ∈ Selector.rawPlaces style [] selector, readsSelector place = false := by
  obtain ⟨nonempty, spelled⟩ := spelled_of_parse parsed
  have ends : Begins [')'] [] := fun _ member => nomatch member
  rw [parse_ok]
  change (∃ rest, readList (Selector.printed style selector) = _ ∧ _) ↔ Settled _
  constructor
  · rintro ⟨rest, read, _⟩
    rw [readList_eq, ← List.append_nil (Selector.printed style selector)] at read
    rcases readChains_exact (readExactlyBelow style _) spelled (Nat.le_refl _) ends (.inl rfl) read
      with settled | lost
    · exact settled
    · exact absurd lost (Nat.not_lt_zero _)
  · intro settled
    have read := readList_again (readBackBelow style _) nonempty spelled (Nat.le_refl _) ends settled
    rw [List.append_nil] at read
    exact ⟨[], read, rfl⟩

/-- Whether a text is a selector with raw arguments all of which stay so. -/
def keepsRaw (style : Style) (text : String) : Bool :=
  match parse text 1 with
  | .ok selector =>
    let places := Selector.rawPlaces style [] selector
    !places.isEmpty && places.all (!readsSelector ·)
  | .error _ => false

theorem parse_toCss_of_raw :
    ∃ selector, parse "a|b.c:not(.d, :not( %x )) > e" 1 = .ok selector ∧
      Selector.rawPlaces .compressed [] selector ≠ [] ∧
        parse (Selector.toCss .compressed selector) 2 = .ok selector := by
  have spelled : "a|b.c:not(.d, :not( %x )) > e".toList = _ := String.toList_ofList
  have checks : keepsRaw .compressed "a|b.c:not(.d, :not( %x )) > e" = true := by
    rw [keepsRaw, parse, spelled]
    decide +kernel
  unfold keepsRaw at checks
  split at checks
  · rename_i selector parsed
    simp only [Bool.and_eq_true, Bool.not_eq_true', List.isEmpty_eq_false_iff, List.all_eq_true]
      at checks
    exact ⟨selector, parsed, checks.1, (parse_toCss_iff parsed .compressed 2).mpr checks.2⟩
  · cases checks

/-- Whether the text of a selector is read as another selector. -/
def readsOther (style : Style) (selector : Selector) : Bool :=
  match parse (Selector.toCss style selector) 1 with
  | .ok other => !(other == selector)
  | .error _ => false

/-- A comment may begin in a raw argument and end in another. It does not where a comment between
the two ends it, but that one is not printed. -/
theorem parse_toCss_differs :
    ∃ selector, parse ":not(.a/*)/**/ b:c(*/)" 1 = .ok selector ∧
      ∀ style, ∃ other, parse (Selector.toCss style selector) 1 = .ok other ∧
        (other == selector) = false := by
  have spelled : ":not(.a/*)/**/ b:c(*/)".toList = _ := String.toList_ofList
  have checks : (match parse ":not(.a/*)/**/ b:c(*/)" 1 with
      | .ok selector =>
        [Style.nested, .expanded, .compact, .compressed].all (readsOther · selector)
      | .error _ => false) = true := by
    rw [parse, spelled]
    decide +kernel
  split at checks
  · rename_i selector parsed
    refine ⟨selector, parsed, ?_⟩
    intro style
    have other : readsOther style selector = true :=
      List.all_eq_true.mp checks style (by cases style <;> decide)
    unfold readsOther at other
    split at other
    · rename_i found again
      exact ⟨found, again, by simpa using other⟩
    · cases other
  · cases checks

end Stylesheet.Selector
