import Stylesheet.Proofs.Selector.Reading

/-! Nested selectors are shorter than the text around them, so that the depth up to which they are
read does not matter once it is as large as the text is long. -/

namespace Stylesheet.Selector

variable {nested other : Reader Selector} {bound : Nat} {text : List Char}

/-- Readers that give the same on texts below a length. -/
def Agree (bound : Nat) (nested other : Reader Selector) : Prop :=
  ∀ text, text.length < bound → nested text = other text

private theorem readArgument_congr (agree : Agree bound nested other) (kind : PseudoKind)
    (name : String) (short : text.length < bound) :
    readArgument nested kind name text = readArgument other kind name text := by
  simp only [readArgument, readSelectorArgument, agree text short]

private theorem readPseudo_congr (agree : Agree bound nested other) (short : text.length ≤ bound) :
    readPseudo nested text = readPseudo other text := by
  unfold readPseudo
  cases begun : readColons text with
  | none => rfl
  | some first =>
    obtain ⟨kind, behind⟩ := first
    cases named : readIdent behind with
    | none => simp only [bind, Option.bind, named]
    | some second =>
      obtain ⟨name, behind'⟩ := second
      simp only [bind, Option.bind, named]
      split
      · apply readArgument_congr agree
        have length := congrArg List.length (readColons_some begun)
        have length' := congrArg List.length (readIdent_some named).1
        simp only [List.length_append, List.length_cons] at length length'
        omega
      · rfl

private theorem readQualifier_congr (agree : Agree bound nested other)
    (short : text.length ≤ bound) : readQualifier nested text = readQualifier other text := by
  fun_cases readQualifier nested text with
  | case4 _ dot hash bracket =>
    rw [readQualifier.eq_4 _ _ dot hash bracket]
    exact readPseudo_congr agree short
  | _ => rfl

private theorem many_congr (agree : Agree bound nested other) (spec : ReadsSpelled nested .nested)
    {fuel : Nat} (short : text.length ≤ bound) :
    many.go (readQualifier nested) fuel text = many.go (readQualifier other) fuel text := by
  induction fuel generalizing text with
  | zero => rfl
  | succ fuel ih =>
    have same := readQualifier_congr agree short
    cases read : readQualifier nested text with
    | none => simp only [many.go, read, ← same]
    | some pair =>
      obtain ⟨item, behind⟩ := pair
      have less := (readQualifier_some spec read).2.suffix.length_le
      simp only [many.go, read, ← same, ih (Nat.le_trans less short)]

private theorem readCompound_congr (agree : Agree bound nested other)
    (spec : ReadsSpelled nested .nested) (short : text.length ≤ bound) :
    readCompound nested text = readCompound other text := by
  unfold readCompound
  cases first : readOptionalBase text with
  | mk base behind =>
    have length := congrArg List.length (readOptionalBase_spec .nested first).2
    rw [List.length_append] at length
    simp only [many, many_congr agree spec (by omega : behind.length ≤ bound)]

private theorem readComponents_congr (agree : Agree bound nested other)
    (spec : ReadsSpelled nested .nested) {fuel : Nat} {after : Bool} (short : text.length ≤ bound) :
    readComponents nested fuel after text = readComponents other fuel after text := by
  induction fuel generalizing after text with
  | zero => rfl
  | succ fuel ih =>
    have less := (skipBlanks_suffix text).length_le
    have same := readCompound_congr agree spec (Nat.le_trans less short)
    unfold readComponents
    cases sign : readCombinator (skipBlanks text) with
    | some pair =>
      obtain ⟨k, behind⟩ := pair
      have length := congrArg List.length (readCombinator_some sign)
      rw [List.length_append] at length
      simp only [sign, ih (by omega : behind.length ≤ bound)]
    | none =>
      cases read : readCompound nested (skipBlanks text) with
      | none => simp only [sign, ← same, read]
      | some pair =>
        obtain ⟨c, behind⟩ := pair
        have less' := (readCompound_some spec (unblank_skipBlanks text) read).2.1.suffix.length_le
        simp only [sign, ← same, read, ih (by omega : behind.length ≤ bound)]

private theorem readChains_congr (agree : Agree bound nested other)
    (spec : ReadsSpelled nested .nested) {fuel : Nat} {found : Selector}
    (short : text.length ≤ bound) :
    readChains nested fuel found text = readChains other fuel found text := by
  induction fuel generalizing found text with
  | zero => rfl
  | succ fuel ih =>
    unfold readChains
    rw [← readComponents_congr agree spec short]
    split
    · rfl
    · rename_i chain behind _ read
      have less := ((readComponents_some spec read).2 .start).suffix.length_le
      split
      · rename_i more comma
        have less' := (skipBlanks_suffix behind).length_le
        rw [comma, List.length_cons] at less'
        exact ih (by omega)
      · rfl

private theorem readNested_nil (depth : Nat) : readNested depth [] = none := by
  cases depth <;> rfl

theorem readNested_congr {depth deeper : Nat} (short : text.length ≤ depth)
    (short' : text.length ≤ deeper) : readNested depth text = readNested deeper text := by
  induction depth generalizing deeper text with
  | zero =>
    have empty : text = [] := List.eq_nil_of_length_eq_zero (by omega)
    rw [empty, readNested_nil, readNested_nil]
  | succ depth ih =>
    cases deeper with
    | zero =>
      have empty : text = [] := List.eq_nil_of_length_eq_zero (by omega)
      rw [empty, readNested_nil, readNested_nil]
    | succ deeper =>
      have agree : Agree text.length (readNested depth) (readNested deeper) := by
        intro inner less
        exact ih (by omega) (by omega)
      unfold readNested
      rw [readChains_congr agree (readsSpelled .nested depth) (Nat.le_refl _)]

/-- Read a selector inside a text, as deep as there is need for. -/
def readInner : Reader Selector := fun text =>
  readNested text.length text

theorem readsSpelled_inner (style : Style) : ReadsSpelled readInner style :=
  fun text selector rest read => readsSpelled style text.length text selector rest read

theorem readList_eq (text : List Char) :
    readList text = readChains readInner (text.length + 1) [] text := by
  have agree : Agree text.length readInner (readNested text.length) := by
    intro inner less
    exact readNested_congr (Nat.le_refl _) (by omega)
  exact (readChains_congr agree (readsSpelled_inner .nested) (Nat.le_refl _)).symm

theorem readInner_eq (text : List Char) :
    readInner text = match readList text with
      | .read selector rest => some (selector, rest)
      | .missing _ => none := by
  rw [readInner, readNested_congr (Nat.le_refl _) (Nat.le_succ text.length)]
  rfl

end Stylesheet.Selector
