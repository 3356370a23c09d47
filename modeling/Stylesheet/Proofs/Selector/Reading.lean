import Stylesheet.Proofs.Selector.Attribute
import Stylesheet.Proofs.Selector.Equality

/-! What reading gives. Every selector that is read is spelled in a certain way, and reading takes at
least as much ink as the selector has when it is printed. -/

namespace Stylesheet

open Selector

section Printed

def Simple.printed (style : Style) (s : Simple) : List Char :=
  (s.toCss style).toList

def Simple.allPrinted (style : Style) (list : List Simple) : List Char :=
  (Simple.listToCss style list).toList

def Compound.printed (style : Style) (c : Compound) : List Char :=
  (c.toCss style).toList

def Chain.printedFrom (style : Style) (before : Chain.Before) (chain : Chain) : List Char :=
  (Chain.toCssFrom style before chain).toList

def Selector.printed (style : Style) (selector : Selector) : List Char :=
  (Selector.toCss style selector).toList

attribute [local simp] Simple.toCss Simple.listToCss Compound.toCss Chain.toCssFrom

variable (style : Style)

@[simp] theorem Simple.printed_className (name : String) :
    Simple.printed style (.className name) = '.' :: name.toList := by
  simp [Simple.printed]

@[simp] theorem Simple.printed_id (name : String) :
    Simple.printed style (.id name) = '#' :: name.toList := by
  simp [Simple.printed]

@[simp] theorem Simple.printed_selectorPseudo (name : String) (argument : Selector) :
    Simple.printed style (.selectorPseudo name argument) =
      ':' :: (name.toList ++ '(' :: (Selector.printed style argument ++ [')'])) := by
  simp [Simple.printed, Selector.printed, Selector.toCss]

def Selector.colons : PseudoKind → List Char
  | .ofClass => [':']
  | .ofElement => [':', ':']

@[simp] theorem Simple.printed_pseudo_none (kind : PseudoKind) (name : String) :
    Simple.printed style (.pseudo kind name none) = colons kind ++ name.toList := by
  cases kind <;> simp [Simple.printed, pseudoText, colons]

@[simp] theorem Simple.printed_pseudo_some (kind : PseudoKind) (name argument : String) :
    Simple.printed style (.pseudo kind name (some argument)) =
      colons kind ++ (name.toList ++ '(' :: (argument.toList ++ [')'])) := by
  cases kind <;> simp [Simple.printed, pseudoText, colons]

@[simp] theorem Simple.allPrinted_nil : Simple.allPrinted style [] = [] := by
  simp [Simple.allPrinted]

@[simp] theorem Simple.allPrinted_cons (s : Simple) (rest : List Simple) :
    Simple.allPrinted style (s :: rest) = s.printed style ++ Simple.allPrinted style rest := by
  simp [Simple.allPrinted, Simple.printed]

@[simp] theorem Compound.printed_none (rest : List Simple) :
    Compound.printed style (.mk none rest) = Simple.allPrinted style rest := by
  simp [Compound.printed, Simple.allPrinted]

@[simp] theorem Compound.printed_some (base : Simple) (rest : List Simple) :
    Compound.printed style (.mk (some base) rest) =
      base.printed style ++ Simple.allPrinted style rest := by
  simp [Compound.printed, Simple.allPrinted, Simple.printed]

@[simp] theorem Chain.printedFrom_nil (before : Chain.Before) :
    Chain.printedFrom style before [] = [] := by
  simp [Chain.printedFrom]

theorem Chain.printedFrom_compound (before : Chain.Before) (c : Compound) (rest : Chain) :
    Chain.printedFrom style before (.compound c :: rest) =
      (spaceBeforeCompound style before).toList ++
        (c.printed style ++ Chain.printedFrom style .compound rest) := by
  simp [Chain.printedFrom, Compound.printed]

theorem Chain.printedFrom_combinator (before : Chain.Before) (k : Combinator) (rest : Chain) :
    Chain.printedFrom style before (.combinator k :: rest) =
      (spaceBeforeCombinator style before).toList ++
        (k.toText.toList ++ Chain.printedFrom style .combinator rest) := by
  simp [Chain.printedFrom]

@[simp] theorem Selector.printed_singleton (chain : Chain) :
    Selector.printed style [chain] = Chain.printedFrom style .start chain := by
  simp [Selector.printed, Selector.toCss, Selector.chainTexts, Chain.printedFrom]

theorem Selector.printed_cons_cons (chain next : Chain) (rest : Selector) :
    Selector.printed style (chain :: next :: rest) =
      Chain.printedFrom style .start chain ++
        (style.comma.toList ++ Selector.printed style (next :: rest)) := by
  simp [Selector.printed, Selector.toCss, Selector.chainTexts, Chain.printedFrom]

end Printed

/-- What a compound can begin with besides its qualifiers. -/
def Selector.BaseSpelled (b : Simple) : Prop :=
  b = .parent ∨ Qualified b ∨ ∃ w, b = .element (String.ofList w) none ∧ Percentage w

mutual

/-- A simple selector behind the base, as reading gives it. -/
def Simple.Spelled : Simple → Prop
  | .className name => Scan.Ident name.toList
  | .id name => Scan.Name name.toList
  | .attribute name ns operator value => AttributeSpelled name ns operator value
  | .pseudo _ name argument => Scan.Ident name.toList ∧ ∀ a ∈ argument, Raw a
  | .selectorPseudo name argument =>
    Scan.Ident name.toList ∧ takesSelector name = true ∧ argument ≠ [] ∧
      Selector.AllSpelled argument
  | _ => False

def Simple.AllSpelled : List Simple → Prop
  | [] => True
  | s :: rest => s.Spelled ∧ Simple.AllSpelled rest

/-- A base that begins with no blank, if there is one, and qualifiers without repetition. -/
def Compound.Spelled : Compound → Prop
  | .mk base rest =>
    (∀ b ∈ base, BaseSpelled b ∧ Unblank (b.toCss .nested).toList) ∧ Simple.AllSpelled rest ∧
      rest.Pairwise (fun a b => (a == b) = false) ∧ (base.isSome = true ∨ rest ≠ [])

def Chain.AllSpelled : List Component → Prop
  | [] => True
  | .compound c :: rest => c.Spelled ∧ Chain.AllSpelled rest
  | .combinator _ :: rest => Chain.AllSpelled rest

def Selector.AllSpelled : List (List Component) → Prop
  | [] => True
  | chain :: rest => chain ≠ [] ∧ Chain.AllSpelled chain ∧ Selector.AllSpelled rest

end

theorem foldl_insert (base : Option Simple) (kept items : List Simple)
    (qualifiers : ∀ s ∈ items, s.isBase = false) :
    items.foldl Compound.insert (.mk base kept) = .mk base (keepNew kept items) := by
  induction items generalizing kept with
  | nil => rfl
  | cons item rest ih =>
    have here := qualifiers item (List.mem_cons_self ..)
    have later := fun s member => qualifiers s (List.mem_cons_of_mem _ member)
    rw [List.foldl_cons, keepNew, List.foldl_cons]
    by_cases known : kept.contains item = true
    · simp only [Compound.insert, here, Bool.false_and, Bool.false_eq_true, if_false,
        Compound.rest, known, if_true]
      exact ih kept later
    · simp only [Compound.insert, here, Bool.false_and, Bool.false_eq_true, if_false,
        Compound.rest, Compound.base, known]
      exact ih (kept ++ [item]) later

namespace Selector

open Scan (nameTail Ident Name)

variable {text rest : List Char}

theorem Qualified.isBase {s : Simple} (spelled : Qualified s) : s.isBase = true := by
  cases s <;> first | rfl | exact absurd spelled id

theorem BaseSpelled.isBase {b : Simple} (spelled : BaseSpelled b) : b.isBase = true := by
  rcases spelled with rfl | qualified | ⟨w, rfl, _⟩
  · rfl
  · exact qualified.isBase
  · rfl

theorem orElse_some {first second : Option α} {x : α} (found : (first <|> second) = some x) :
    first = some x ∨ first = none ∧ second = some x := by
  cases first with
  | none => exact .inr ⟨rfl, found⟩
  | some y => exact .inl found

theorem readBase_some {b : Simple} (style : Style) (read : readBase text = some (b, rest)) :
    BaseSpelled b ∧ text = b.printed style ++ rest := by
  fun_cases readBase text with
  | case1 =>
    cases read
    exact ⟨.inl rfl, by simp [Simple.printed, Simple.toCss]⟩
  | case2 _ other =>
    rw [readBase.eq_2 _ other] at read
    rcases orElse_some read with percentage | ⟨_, named⟩
    · obtain ⟨w, rfl, same, spelled⟩ := readPercentage_some percentage
      exact ⟨.inr (.inr ⟨w, rfl, spelled⟩), by simp [Simple.printed, Simple.toCss, qualified, same]⟩
    · obtain ⟨same, spelled⟩ := readQualified_some style named
      exact ⟨.inr (.inl spelled), same⟩

/-- What holds of a reader of nested selectors. -/
def ReadsSpelled (nested : Reader Selector) (style : Style) : Prop :=
  ∀ text selector rest, nested text = some (selector, rest) →
    selector ≠ [] ∧ Selector.AllSpelled selector ∧
      Leaves text rest (ink (Selector.printed style selector))

section Readers

variable {nested : Reader Selector} {style : Style}

theorem readColons_some {kind : PseudoKind} (read : readColons text = some (kind, rest)) :
    text = colons kind ++ rest := by
  fun_cases readColons text with
  | case1 =>
    cases read
    rfl
  | case2 behind other =>
    rw [readColons.eq_2 _ other] at read
    cases read
    rfl
  | case3 _ first second =>
    rw [readColons.eq_3 _ first second] at read
    cases read

theorem readSelectorArgument_some {name : String} {s : Simple} (spec : ReadsSpelled nested style)
    (read : readSelectorArgument nested name text = some (s, rest)) :
    ∃ selector, s = .selectorPseudo name selector ∧ selector ≠ [] ∧ Selector.AllSpelled selector ∧
      Leaves text rest (ink (Selector.printed style selector) + 1) := by
  unfold readSelectorArgument at read
  obtain ⟨⟨selector, behind⟩, inner, read⟩ := Option.bind_eq_some_iff.mp read
  obtain ⟨⟨_, behind'⟩, close, read⟩ := Option.bind_eq_some_iff.mp read
  cases read
  obtain ⟨nonempty, spelled, leaves⟩ := spec text selector behind inner
  refine ⟨selector, rfl, nonempty, spelled, ?_⟩
  have closed := leaves.trans (.skipBlanks behind)
  rw [readChar_some close] at closed
  exact closed.trans (.cons (by decide) rest)

private theorem ink_parentheses (name argument : List Char) :
    ink (name ++ '(' :: (argument ++ [')'])) = ink name + (1 + (ink argument + 1)) := by
  rw [ink_append, ink_cons (by decide), ink_append]
  rfl

theorem readArgument_some {kind : PseudoKind} {name : String} {s : Simple}
    (spec : ReadsSpelled nested style) (ident : Ident name.toList)
    (read : readArgument nested kind name text = some (s, rest)) :
    s.Spelled ∧ ∃ amount, Leaves text rest amount ∧
      ink (s.printed style) = ink (colons kind ++ name.toList) + 1 + amount := by
  have raw : readRawArgument kind name text = some (s, rest) → s.Spelled ∧
      ∃ amount, Leaves text rest amount ∧
        ink (s.printed style) = ink (colons kind ++ name.toList) + 1 + amount := by
    intro read
    obtain ⟨argument, rfl, spelled, leaves⟩ := readRawArgument_some read
    refine ⟨⟨ident, fun a member => Option.mem_some.mp member ▸ spelled⟩, _, leaves, ?_⟩
    rw [Simple.printed_pseudo_some, ink_append, ink_parentheses, ink_append]
    omega
  unfold readArgument at read
  split at read
  · rename_i takes
    simp only [Bool.and_eq_true, beq_iff_eq] at takes
    obtain ⟨rfl, takes⟩ := takes
    rcases orElse_some read with found | ⟨_, found⟩
    · obtain ⟨selector, rfl, nonempty, spelled, leaves⟩ := readSelectorArgument_some spec found
      refine ⟨⟨ident, takes, nonempty, spelled⟩, _, leaves, ?_⟩
      rw [Simple.printed_selectorPseudo, ← List.singleton_append, ink_append, ink_parentheses,
        ink_append]
      have colon : ink (colons .ofClass) = ink [':'] := rfl
      omega
    · exact raw found
  · exact raw read

theorem readPseudo_some {s : Simple} (spec : ReadsSpelled nested style)
    (read : readPseudo nested text = some (s, rest)) :
    s.Spelled ∧ Leaves text rest (ink (s.printed style)) := by
  unfold readPseudo at read
  obtain ⟨⟨kind, behind⟩, begun, read⟩ := Option.bind_eq_some_iff.mp read
  obtain ⟨⟨name, behind'⟩, named, final⟩ := Option.bind_eq_some_iff.mp read
  rw [readColons_some begun]
  obtain ⟨rfl, ident⟩ := readIdent_some named
  have front := Leaves.append (colons kind ++ name.toList) behind'
  rw [List.append_assoc] at front
  simp only at final
  split at final
  · rename_i argument
    obtain ⟨spelled, amount, leaves, same⟩ := readArgument_some spec ident final
    refine ⟨spelled, ?_⟩
    rw [same]
    exact (front.trans (.cons (by decide : '(' ≠ ' ') argument)).trans leaves
  · cases final
    refine ⟨⟨ident, by simp⟩, ?_⟩
    rw [Simple.printed_pseudo_none]
    exact front

theorem readQualifier_some {s : Simple} (spec : ReadsSpelled nested style)
    (read : readQualifier nested text = some (s, rest)) :
    s.Spelled ∧ Leaves text rest (ink (s.printed style)) := by
  fun_cases readQualifier nested text with
  | case1 behind =>
    obtain ⟨⟨name, _⟩, named, same⟩ := Option.map_eq_some_iff.mp read
    cases same
    obtain ⟨rfl, ident⟩ := readIdent_some named
    exact ⟨ident, by rw [Simple.printed_className]; exact .append ('.' :: name.toList) rest⟩
  | case2 behind =>
    obtain ⟨⟨name, _⟩, named, same⟩ := Option.map_eq_some_iff.mp read
    cases same
    obtain ⟨rfl, spelled⟩ := readName_some named
    exact ⟨spelled, by rw [Simple.printed_id]; exact .append ('#' :: name.toList) rest⟩
  | case3 behind =>
    obtain ⟨name, ns, operator, value, rfl, spelled, leaves⟩ := readAttribute_some style read
    exact ⟨spelled, leaves⟩
  | case4 _ dot hash bracket =>
    rw [readQualifier.eq_4 _ _ dot hash bracket] at read
    exact readPseudo_some spec read

theorem many_some (spec : ReadsSpelled nested style) {fuel : Nat} {items : List Simple}
    (read : many.go (readQualifier nested) fuel text = (items, rest)) :
    Simple.AllSpelled items ∧ Leaves text rest (ink (Simple.allPrinted style items)) := by
  fun_induction many.go (readQualifier nested) fuel text generalizing items rest with
  | case1 =>
    cases read
    exact ⟨trivial, .refl _⟩
  | case2 fuel text item behind found items' rest' later ih =>
    cases read
    obtain ⟨spelled, leaves⟩ := readQualifier_some spec found
    obtain ⟨others, leaves'⟩ := ih later
    refine ⟨⟨spelled, others⟩, ?_⟩
    rw [Simple.allPrinted_cons, ink_append]
    exact leaves.trans leaves'
  | case3 =>
    cases read
    exact ⟨trivial, .refl _⟩

private theorem ink_pos {c : Char} {more : List Char} (notSpace : c ≠ ' ') :
    0 < ink (c :: more) := by
  rw [ink_cons notSpace]
  omega

theorem BaseSpelled.exists_cons {b : Simple} (spelled : BaseSpelled b) (style : Style) :
    ∃ c rest, b.printed style = c :: rest ∧ c ∉ [' ', '/', '>', '+', '~'] := by
  rcases spelled with rfl | named | ⟨w, rfl, percentage⟩
  · exact ⟨'&', [], by simp [Simple.printed, Simple.toCss], by decide⟩
  · obtain ⟨c, rest, same, start⟩ := named.exists_cons style
    refine ⟨c, rest, same, ?_⟩
    simp [start.space, start.slash, start.child, start.next, start.following]
  · obtain ⟨c, rest, rfl, digit⟩ := percentage.exists_cons
    refine ⟨c, rest, by simp [Simple.printed, Simple.toCss, qualified], ?_⟩
    intro sign
    have signs : [' ', '/', '>', '+', '~'].any Char.isDigit = false := by decide
    exact List.any_eq_false.mp signs c sign digit

/-- A qualifier begins with one of four signs. -/
theorem Spelled.exists_cons {s : Simple} (spelled : s.Spelled) (style : Style) :
    ∃ c rest, s.printed style = c :: rest ∧ (c = '.' ∨ c = '#' ∨ c = '[' ∨ c = ':') := by
  match s, spelled with
  | .className name, _ => exact ⟨'.', _, Simple.printed_className style name, by simp⟩
  | .id name, _ => exact ⟨'#', _, Simple.printed_id style name, by simp⟩
  | .attribute name ns operator value, _ =>
    exact ⟨'[', (qualified ns name ++ testText operator value ++ "]").toList,
      by simp [Simple.printed, Simple.toCss, attributeText], by simp⟩
  | .pseudo kind name argument, _ => cases kind <;> cases argument <;> simp [colons]
  | .selectorPseudo name argument, _ =>
    exact ⟨':', _, Simple.printed_selectorPseudo style name argument, by simp⟩

theorem ink_pos_of_spelled {s : Simple} (spelled : s.Spelled) (style : Style) :
    0 < ink (s.printed style) := by
  obtain ⟨c, more, same, sign⟩ := Spelled.exists_cons spelled style
  rw [same]
  apply ink_pos
  rcases sign with rfl | rfl | rfl | rfl <;> decide

theorem isBase_of_spelled {s : Simple} (spelled : s.Spelled) : s.isBase = false := by
  cases s <;> first | rfl | exact absurd spelled id

theorem allSpelled_iff {list : List Simple} : Simple.AllSpelled list ↔ ∀ s ∈ list, s.Spelled := by
  induction list with
  | nil => simp [Simple.AllSpelled]
  | cons s rest ih => simp [Simple.AllSpelled, ih]

theorem ink_allPrinted_le (style : Style) {list other : List Simple} (sub : list.Sublist other) :
    ink (Simple.allPrinted style list) ≤ ink (Simple.allPrinted style other) := by
  induction sub with
  | slnil => exact Nat.le_refl _
  | cons s _ ih =>
    rw [Simple.allPrinted_cons, ink_append]
    omega
  | cons_cons s _ ih =>
    rw [Simple.allPrinted_cons, Simple.allPrinted_cons, ink_append, ink_append]
    omega

theorem ofMembers_eq {base : Option Simple} (isBase : ∀ b ∈ base, b.isBase = true)
    {items : List Simple} (qualifiers : ∀ s ∈ items, s.isBase = false) :
    Compound.ofMembers (base.toList ++ items) = .mk base (keepNew [] items) := by
  cases base with
  | none => exact foldl_insert none [] items qualifiers
  | some b =>
    have first : Compound.insert .empty b = .mk (some b) [] := by
      simp [Compound.insert, Compound.empty, Compound.base, Compound.rest, isBase b rfl]
    rw [Option.toList_some, List.singleton_append, Compound.ofMembers, List.foldl_cons, first]
    exact foldl_insert (some b) [] items qualifiers

/-- A compound is spelled if what it is made of is. -/
private theorem spelled_ofMembers (style : Style) {base : Option Simple} {items : List Simple}
    (spelledBase : ∀ b ∈ base, BaseSpelled b ∧ Unblank (b.toCss .nested).toList)
    (spelled : Simple.AllSpelled items) (nonempty : base.toList ++ items ≠ []) :
    (Compound.ofMembers (base.toList ++ items)).Spelled ∧
      ink ((Compound.ofMembers (base.toList ++ items)).printed style) ≤
        ink (Compound.printed style (.mk base items)) ∧
      0 < ink ((Compound.ofMembers (base.toList ++ items)).printed style) := by
  have each := allSpelled_iff.mp spelled
  rw [ofMembers_eq (fun b member => (spelledBase b member).1.isBase)
    (fun s member => isBase_of_spelled (each s member))]
  obtain ⟨added, same, sub⟩ := exists_keepNew ([] : List Simple) items
  have different : (keepNew ([] : List Simple) items).Pairwise fun a b => (a == b) = false :=
    pairwise_keepNew .nil items
  rw [List.nil_append] at same
  rw [same] at different ⊢
  have kept : Simple.AllSpelled added :=
    allSpelled_iff.mpr fun s member => each s (sub.subset member)
  have first : base.isSome = true ∨ added ≠ [] := by
    cases base with
    | some b => exact .inl rfl
    | none =>
      right
      rintro rfl
      cases items with
      | nil => simp at nonempty
      | cons item rest =>
        obtain ⟨more, found, _⟩ := exists_keepNew [item] rest
        have single : keepNew [] (item :: rest) = keepNew [item] rest := rfl
        rw [single, found] at same
        cases same
  refine ⟨⟨spelledBase, kept, different, first⟩, ?_, ?_⟩
  · have less := ink_allPrinted_le style sub
    cases base with
    | none => simpa using less
    | some b => simpa [ink_append] using less
  · cases base with
    | none =>
      rw [Compound.printed_none]
      cases added with
      | nil => simp at first
      | cons s more =>
        rw [Simple.allPrinted_cons, ink_append]
        have := ink_pos_of_spelled kept.1 style
        omega
    | some b =>
      obtain ⟨c, rest, begins, sign⟩ := (spelledBase b rfl).1.exists_cons style
      rw [Compound.printed_some, begins]
      exact ink_pos (List.ne_of_not_mem_cons sign)

theorem readOptionalBase_spec (style : Style) {base : Option Simple}
    (read : readOptionalBase text = (base, rest)) :
    (∀ b ∈ base, BaseSpelled b) ∧ text = (base.elim [] (Simple.printed style)) ++ rest := by
  unfold readOptionalBase at read
  split at read
  · rename_i found
    cases read
    obtain ⟨spelled, same⟩ := readBase_some style found
    exact ⟨fun b member => Option.mem_some.mp member ▸ spelled, same⟩
  · cases read
    exact ⟨by simp, rfl⟩

theorem readCompound_some {c : Compound} (spec : ReadsSpelled nested style)
    (unblank : Unblank text) (read : readCompound nested text = some (c, rest)) :
    c.Spelled ∧ Leaves text rest (ink (c.printed style)) ∧ 0 < ink (c.printed style) := by
  unfold readCompound at read
  cases first : readOptionalBase text with
  | mk base behind =>
    cases second : many (readQualifier nested) behind with
    | mk items behind' =>
      simp only [first, second] at read
      obtain ⟨spelledBase, same⟩ := readOptionalBase_spec style first
      obtain ⟨_, same'⟩ := readOptionalBase_spec .nested first
      obtain ⟨spelled, leaves⟩ := many_some spec second
      have nonempty : base.toList ++ items ≠ [] := by
        intro empty
        rw [empty] at read
        cases read
      split at read
      · contradiction
      · cases read
        have clean : ∀ b ∈ base, BaseSpelled b ∧ Unblank (b.toCss .nested).toList := by
          intro b member
          cases member
          refine ⟨spelledBase b rfl, unblank_of_isPrefix unblank ⟨behind, same'.symm⟩⟩
        obtain ⟨whole, less, positive⟩ := spelled_ofMembers style clean spelled nonempty
        refine ⟨whole, ?_, positive⟩
        have front := Leaves.append (base.elim [] (Simple.printed style)) behind
        rw [← same] at front
        refine (front.trans leaves).mono (Nat.le_trans less ?_)
        cases base with
        | none => simp
        | some b => simp [ink_append]

theorem readCombinator_some {k : Combinator} (read : readCombinator text = some (k, rest)) :
    text = k.toText.toList ++ rest := by
  fun_cases readCombinator text with
  | case4 _ child next following =>
    rw [readCombinator.eq_4 _ child next following] at read
    cases read
  | _ =>
    cases read
    rfl

theorem ink_printedFrom_compound (style : Style) (before : Chain.Before) (c : Compound)
    (rest : Chain) :
    ink (Chain.printedFrom style before (.compound c :: rest)) =
      ink (c.printed style) + ink (Chain.printedFrom style .compound rest) := by
  have space : ink (spaceBeforeCompound style before).toList = 0 := by
    cases style <;> cases before <;> decide
  rw [Chain.printedFrom_compound, ink_append, ink_append, space, Nat.zero_add]

theorem ink_printedFrom_combinator (style : Style) (before : Chain.Before) (k : Combinator)
    (rest : Chain) :
    ink (Chain.printedFrom style before (.combinator k :: rest)) =
      1 + ink (Chain.printedFrom style .combinator rest) := by
  have space : ink (spaceBeforeCombinator style before).toList = 0 := by
    cases style <;> cases before <;> decide
  have sign : ink k.toText.toList = 1 := by cases k <;> decide
  rw [Chain.printedFrom_combinator, ink_append, ink_append, space, sign, Nat.zero_add]

theorem readComponents_some (spec : ReadsSpelled nested style) {fuel : Nat} {after : Bool}
    {chain : Chain} (read : readComponents nested fuel after text = (chain, rest)) :
    Chain.AllSpelled chain ∧
      ∀ before, Leaves text rest (ink (Chain.printedFrom style before chain)) := by
  have nothing : ∀ text, Chain.AllSpelled [] ∧
      ∀ before, Leaves text text (ink (Chain.printedFrom style before [])) := by
    intro text
    exact ⟨trivial, fun before => by rw [Chain.printedFrom_nil]; exact .refl text⟩
  fun_induction readComponents nested fuel after text generalizing chain rest with
  | case1 =>
    cases read
    exact nothing _
  | case2 fuel after text skipped k behind found components rest' later =>
    rename_i ih
    cases read
    obtain ⟨spelled, leaves⟩ := ih later
    refine ⟨spelled, fun before => ?_⟩
    have sign : ink k.toText.toList = 1 := by cases k <;> decide
    have front : Leaves text skipped 0 := .skipBlanks text
    rw [readCombinator_some found] at front
    have whole := (front.trans (.append k.toText.toList behind)).trans (leaves .combinator)
    rw [ink_printedFrom_combinator]
    exact whole.mono (by omega)
  | case3 =>
    cases read
    exact nothing _
  | case4 fuel after text skipped spaced none stays c behind found components rest' =>
    rename_i later ih
    cases read
    obtain ⟨spelled, leaves, _⟩ := readCompound_some spec (unblank_skipBlanks text) found
    obtain ⟨others, leaves'⟩ := ih later
    refine ⟨⟨spelled, others⟩, fun before => ?_⟩
    have whole := ((Leaves.skipBlanks text).trans leaves).trans (leaves' .compound)
    rw [ink_printedFrom_compound]
    exact whole.mono (by omega)
  | case5 =>
    cases read
    exact nothing _

/-- Chains are read behind those that are found already. -/
theorem readChains_some (spec : ReadsSpelled nested style) {fuel : Nat} {found selector : Selector}
    (read : readChains nested fuel found text = .read selector rest) :
    ∃ new, selector = found ++ new ∧ new ≠ [] ∧ Selector.AllSpelled new ∧
      Leaves text rest (ink (Selector.printed style new)) := by
  fun_induction readChains nested fuel found text generalizing selector rest with
  | case1 => cases read
  | case2 => cases read
  | case3 fuel found text chain behind nonempty first more comma ih =>
    obtain ⟨new, rfl, some, spelled, leaves⟩ := ih read
    obtain ⟨next, others, rfl⟩ := List.exists_cons_of_ne_nil some
    obtain ⟨spelled', leaves'⟩ := readComponents_some spec first
    refine ⟨chain :: next :: others, by simp, by simp, ⟨nonempty, spelled', spelled⟩, ?_⟩
    have front := (leaves' .start).trans (.skipBlanks behind)
    rw [comma] at front
    have whole := (front.trans (.cons (by decide) more)).trans leaves
    have sign : ink style.comma.toList = 1 := by cases style <;> decide
    rw [Selector.printed_cons_cons, ink_append, ink_append]
    exact whole.mono (by omega)
  | case4 fuel found text chain behind nonempty first alone =>
    cases read
    obtain ⟨spelled, leaves⟩ := readComponents_some spec first
    refine ⟨[chain], rfl, by simp, ⟨nonempty, spelled, trivial⟩, ?_⟩
    rw [Selector.printed_singleton]
    exact leaves .start

end Readers

/-- What is read is spelled, however deep selectors are nested. -/
theorem readsSpelled (style : Style) (depth : Nat) : ReadsSpelled (readNested depth) style := by
  induction depth with
  | zero =>
    intro text selector rest read
    cases read
  | succ depth ih =>
    intro text selector rest read
    unfold readNested at read
    split at read
    · rename_i found
      cases read
      obtain ⟨new, rfl, nonempty, spelled, leaves⟩ := readChains_some ih found
      exact ⟨nonempty, spelled, leaves⟩
    · cases read

end Selector

end Stylesheet
