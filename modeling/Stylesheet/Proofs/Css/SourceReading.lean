import Stylesheet.Proofs.Css.Legible

/-! The source of a legible tree is read as what is written for its nodes, in either dialect. The
empty lines between the top statements change nothing. -/

namespace Stylesheet

open Written

namespace Braces

variable {w : Written} {rest : List Written} {depth : Nat} {tail behind : List Char}

theorem LaidOut.cons (laid : LaidOut depth tail rest behind) :
    LaidOut depth tail (w :: rest) ((w.text .scss depth).toList ++ behind) := by
  obtain ⟨x, more, isContent, notBlank, _⟩ := w.exists_content depth
  refine ⟨behind, ?_, laid⟩
  rw [toList_text, List.append_assoc, Text.afterBlanks_append (Text.isBlank_indent depth), isContent,
    List.cons_append, Text.afterBlanks_of_head notBlank]

theorem LaidOut.emptyLine (laid : LaidOut depth tail rest behind) :
    LaidOut depth tail rest ('\n' :: behind) :=
  laid.congr (Text.afterBlanks_cons (by decide) behind)

end Braces

namespace Written

/-- The top statements with an empty line between them. -/
def spread (dialect : Dialect) (found : List Written) : List Char :=
  ['\n'].intercalate (found.map fun w => (w.text dialect 0).toList)

theorem laidOut_spread : (found : List Written) → Braces.LaidOut 0 [] found (spread .scss found)
  | [] => rfl
  | [w] => by
    have laid : Braces.LaidOut 0 [] [w] ((w.text .scss 0).toList ++ []) :=
      Braces.LaidOut.cons (show Braces.LaidOut 0 [] [] [] from rfl)
    simpa [spread] using laid
  | w :: v :: rest => by
    have laid := Braces.LaidOut.cons (w := w) (laidOut_spread (v :: rest)).emptyLine
    simpa [spread, List.intercalate_cons_cons] using laid

theorem shows_spread : (found : List Written) →
    Outline.Shows (spread .indented found) (rowsOfAll 0 found)
  | [] => .nil
  | [w] => by
    have shown := shows_text .nil w 0
    simpa [spread, rowsOfAll] using shown
  | w :: v :: rest => by
    have shown := shows_text (.empty (shows_spread (v :: rest))) w 0
    simpa [spread, List.intercalate_cons_cons, rowsOfAll] using shown

theorem parse_spread {found : List Written} (filled : AllFilled found) (dialect : Dialect)
    (filename : Option String) :
    ∃ root, Statement.parse (String.ofList (spread dialect found)) dialect filename = .ok root ∧
      root.unplaced =
        (Statement.mk .root (statements found) 0 default none).withFilename filename := by
  cases dialect with
  | scss =>
    have laid := laidOut_spread found
    rw [← String.toList_ofList (l := spread .scss found)] at laid
    obtain ⟨root, parsed, isRoot⟩ := Braces.parse_laidOut laid
    refine ⟨root.withFilename filename, ?_, ?_⟩
    · unfold Statement.parse
      simp only [parsed]
    · rw [Statement.unplaced_withFilename, isRoot]
  | indented =>
    have shown := shows_spread found
    rw [← String.toList_ofList (l := spread .indented found)] at shown
    obtain ⟨root, parsed, isRoot⟩ := Indented.parse_shows filled shown
    refine ⟨root.withFilename filename, ?_, ?_⟩
    · unfold Statement.parse
      simp only [parsed]
    · rw [Statement.unplaced_withFilename, isRoot]

theorem text_ne_empty (w : Written) (dialect : Dialect) (depth : Nat) : w.text dialect depth ≠ "" := by
  have ended : '\n' ∈ (w.text dialect depth).toList := by
    cases w with
    | comment remark =>
      rw [text, remark.source_eq]
      simp
    | _ => cases dialect <;> simp [text, SourceText.block, SourceText.statement]
  intro empty
  rw [empty] at ended
  cases ended

theorem toSource_eq {style : Style} {tree : Css} {found : List Written}
    (prints : PrintsAll style found tree.children) (dialect : Dialect) : tree.toSource dialect = String.ofList (spread dialect found) := by
  have texts : ∀ (found : List Written) (children : List Css), PrintsAll style found children →
      children.map (SourceText.node dialect 0) = found.map fun w => w.text dialect 0 := by
    intro found
    induction found with
    | nil =>
      intro children prints
      cases children with
      | nil => rfl
      | cons c others => exact absurd prints id
    | cons w rest ih =>
      intro children prints
      cases children with
      | nil => exact absurd prints id
      | cons c others =>
        rw [List.map_cons, List.map_cons, Prints.node_eq dialect w c 0 prints.1, ih others prints.2]
  have filled : ∀ text ∈ found.map fun w => w.text dialect 0, (!text.isEmpty) = true := by
    intro text member
    obtain ⟨w, _, rfl⟩ := List.mem_map.mp member
    simpa using w.text_ne_empty dialect 0
  unfold Css.toSource
  dsimp only
  rw [texts found tree.children prints, List.filter_eq_self.mpr filled, ← String.toList_inj,
    String.toList_intercalate, List.map_map]
  exact (String.toList_ofList (l := spread dialect found)).symm

/-- The source of a tree is read as what is written for its nodes. -/
theorem parse_toSource {style : Style} {tree : Css} {found : List Written}
    (prints : PrintsAll style found tree.children) (dialect : Dialect) (filename : Option String) :
    ∃ root, Statement.parse (tree.toSource dialect) dialect filename = .ok root ∧
      root.unplaced =
        (Statement.mk .root (statements found) 0 default none).withFilename filename := by
  rw [toSource_eq prints]
  exact parse_spread (PrintsAll.allFilled found tree.children prints) dialect filename

end Written

end Stylesheet
