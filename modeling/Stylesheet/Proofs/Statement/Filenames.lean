import Stylesheet.Nesting
import Stylesheet.Statement.Parser

/-! What statements say depends on the characters that are read, and not on the file they stand in. -/

namespace Stylesheet

namespace Statement

mutual

/-- The last file counts. -/
theorem withFilename_withFilename (first second : Option String) :
    (s : Statement) → (s.withFilename first).withFilename second = s.withFilename second
  | mk kind children line span filename => by
    have below := withFilenames_withFilenames first second children
    cases kind with
    | branch condition otherwise =>
      cases otherwise with
      | none => simp only [withFilename, below]
      | some other => simp only [withFilename, below, withFilename_withFilename first second other]
    | _ => simp only [withFilename, below]

theorem withFilenames_withFilenames (first second : Option String) :
    (found : List Statement) →
      withFilenames second (withFilenames first found) = withFilenames second found
  | [] => rfl
  | s :: rest => by
    simp only [withFilenames, withFilename_withFilename first second s,
      withFilenames_withFilenames first second rest]

end

/-- Only a conditional has another statement besides those in its block. -/
theorem withFilename_of_not_branch {kind : StatementKind} {children : List Statement} {line : Nat}
    {span : Span} {filename old : Option String}
    (plain : ∀ condition other, kind ≠ .branch condition other) :
    (mk kind children line span old).withFilename filename =
      mk kind (withFilenames filename children) line span filename :=
  withFilename.eq_2 _ _ _ _ _ _ fun condition other => plain condition (some other)

theorem withFilename_branch {condition : Option Expr} {otherwise : Option Statement}
    {children : List Statement} {line : Nat} {span : Span} {filename old : Option String} :
    (mk (.branch condition otherwise) children line span old).withFilename filename =
      mk (.branch condition (otherwise.map (withFilename filename)))
        (withFilenames filename children) line span filename := by
  cases otherwise <;> simp only [withFilename, Option.map_none, Option.map_some]

/-- Statements that differ in their files only. -/
theorem exists_of_withFilename {kind : StatementKind} {children : List Statement} {line : Nat}
    {span : Span} {filename : Option String} {t : Statement}
    (same : (mk kind children line span filename).withFilename none = t.withFilename none) :
    ∃ kind' children' filename', t = mk kind' children' line span filename' ∧
      withFilenames none children = withFilenames none children' ∧
      (kind = kind' ∧ (∀ condition other, kind ≠ .branch condition other) ∨
        ∃ condition other other', kind = .branch condition other ∧ kind' = .branch condition other' ∧
          other.map (withFilename none) = other'.map (withFilename none)) := by
  obtain ⟨kind', children', line', span', filename'⟩ := t
  by_cases first : ∃ condition other, kind = .branch condition other
  · obtain ⟨condition, other, rfl⟩ := first
    rw [withFilename_branch] at same
    by_cases second : ∃ condition other, kind' = .branch condition other
    · obtain ⟨condition', other', rfl⟩ := second
      rw [withFilename_branch] at same
      obtain ⟨kinds, bodies, rfl, rfl, -⟩ := mk.inj same
      obtain ⟨rfl, others⟩ := StatementKind.branch.inj kinds
      exact ⟨_, _, _, rfl, bodies, .inr ⟨_, _, _, rfl, rfl, others⟩⟩
    · simp only [not_exists] at second
      rw [withFilename_of_not_branch second] at same
      exact absurd (mk.inj same).1.symm (second _ _)
  · simp only [not_exists] at first
    rw [withFilename_of_not_branch first] at same
    by_cases second : ∃ condition other, kind' = .branch condition other
    · obtain ⟨condition', other', rfl⟩ := second
      rw [withFilename_branch] at same
      exact absurd (mk.inj same).1 (first _ _)
    · simp only [not_exists] at second
      rw [withFilename_of_not_branch second] at same
      obtain ⟨rfl, bodies, rfl, rfl, -⟩ := mk.inj same
      exact ⟨_, _, _, rfl, bodies, .inl ⟨rfl, first⟩⟩

open Header in
/-- The stylesheet that some characters are. -/
def ofChars (chars : List Char) (dialect : Dialect) : Except Diagnostic Statement := do
  let index := LineIndex.ofChars chars
  let start := Cursor.ofChars chars
  match dialect with
  | .indented =>
    let children ← Indented.statements ⟨start, index⟩ [] (← Outline.ofLines (← Outline.lines chars))
    return (leaf .root 1 (Span.between 0 (Text.size chars))).withChildren children
  | .scss =>
    let (root, _) ← readAt index start do
      let children ← Braces.statements [] (8 * chars.length + 8)
      skipBlanks
      if (← get).isDone then
        return (leaf .root 1 (Span.between 0 (← position))).withChildren children
      else failExpected "selector or at-rule"
    return root

/-- A text is read by its characters. Those of a literal are at hand, so the bytes that the text is
made of need not be decoded where it is read in a proof. -/
theorem parse_of_toList {text : String} {chars : List Char} (spelled : text.toList = chars)
    (dialect : Dialect) (filename : Option String) :
    parse text dialect filename =
      match ofChars chars dialect with
      | .ok root => .ok (root.withFilename filename)
      | .error error => .error (error.withFilename filename) := by
  subst spelled
  unfold parse ofChars
  cases dialect with
  | indented => rfl
  | scss =>
    rw [String.length_toList]
    rfl

theorem toList_append_of_toList {text more : String} {chars others : List Char}
    (spelled : text.toList = chars) (others_spelled : more.toList = others) :
    (text ++ more).toList = chars ++ others := by
  rw [String.toList_append, spelled, others_spelled]

/-- Whether a text is a stylesheet does not depend on its file. -/
theorem parse_filenames (text : String) (dialect : Dialect) :
    (∃ raw : Statement, ∀ filename, parse text dialect filename = .ok (raw.withFilename filename)) ∨
      ∃ error : Option String → Diagnostic,
        ∀ filename, parse text dialect filename = .error (error filename) := by
  cases dialect with
  | indented =>
    cases parsed : Indented.parse text with
    | ok raw => exact .inl ⟨raw, fun filename => by unfold parse; simp only [parsed]⟩
    | error error =>
      exact .inr ⟨error.withFilename, fun filename => by unfold parse; simp only [parsed]⟩
  | scss =>
    cases parsed : Braces.parse text with
    | ok raw => exact .inl ⟨raw, fun filename => by unfold parse; simp only [parsed]⟩
    | error error =>
      exact .inr ⟨error.withFilename, fun filename => by unfold parse; simp only [parsed]⟩

theorem children_withFilename (s : Statement) (filename : Option String) :
    (s.withFilename filename).children = withFilenames filename s.children := by
  fun_cases withFilename filename s <;> rfl

theorem filename_withFilename (s : Statement) (filename : Option String) :
    (s.withFilename filename).filename = filename := by
  fun_cases withFilename filename s <;> rfl

theorem exists_of_mem_withFilenames {filename : Option String} {s : Statement}
    {found : List Statement} (member : s ∈ withFilenames filename found) :
    ∃ raw ∈ found, s = raw.withFilename filename := by
  induction found with
  | nil => cases member
  | cons first rest ih =>
    rcases List.mem_cons.mp member with rfl | later
    · exact ⟨first, List.mem_cons_self, rfl⟩
    · obtain ⟨raw, isRaw, same⟩ := ih later
      exact ⟨raw, List.mem_cons_of_mem first isRaw, same⟩

/-- The statements of a stylesheet get its file. -/
theorem exists_of_parse {text : String} {dialect : Dialect} {filename : Option String}
    {root s : Statement} (parsed : parse text dialect filename = .ok root)
    (member : s ∈ root.children) : ∃ raw : Statement, s = raw.withFilename filename := by
  rcases parse_filenames text dialect with ⟨raw, always⟩ | ⟨error, never⟩
  · rw [always] at parsed
    cases parsed
    rw [children_withFilename] at member
    obtain ⟨raw, -, same⟩ := exists_of_mem_withFilenames member
    exact ⟨raw, same⟩
  · rw [never] at parsed
    cases parsed

end Statement

namespace Nesting

open Statement

mutual

theorem below_withFilename (filename : Option String) (parent : Enclosure) :
    (s : Statement) → (below parent (s.withFilename filename) = [] ↔ below parent s = [])
  | .mk kind children line span old => by
    have inner := fun effective own => violations_withFilenames filename effective own children
    cases kind with
    | branch condition otherwise =>
      cases otherwise with
      | none => simp only [withFilename, below, List.append_eq_nil_iff, inner]
      | some other =>
        have others := below_withFilename filename parent other
        simp only [withFilename, below, Nesting.otherwise, List.append_eq_nil_iff, inner, others]
        rfl
    | _ => simp only [withFilename, below, List.append_eq_nil_iff, inner]

/-- Whether statements may stand where they do does not depend on their file. -/
theorem violations_withFilenames (filename : Option String) (parent direct : Enclosure) :
    (found : List Statement) →
      (violations parent direct (withFilenames filename found) = [] ↔
        violations parent direct found = [])
  | [] => Iff.rfl
  | s :: rest => by
    have inner := below_withFilename filename parent s
    have others := violations_withFilenames filename parent direct rest
    have same : violation? parent direct (s.withFilename filename).kind =
        violation? parent direct s.kind := by
      obtain ⟨kind, children, line, span, old⟩ := s
      cases kind with
      | branch condition otherwise =>
        cases otherwise with
        | none => rw [withFilename] <;> first | rfl | nofun
        | some other =>
          rw [withFilename]
          rfl
      | _ => rfl
    simp only [withFilenames, violations, List.append_eq_nil_iff, inner, others, same]
    cases violation? parent direct s.kind with
    | none => rfl
    | some violation => simp

end

theorem checkImported_withFilenames (filename filename' : Option String) (parent : Enclosure)
    (found : List Statement) :
    (checkImported parent (withFilenames filename found)).isOk =
      (checkImported parent (withFilenames filename' found)).isOk := by
  have same := (violations_withFilenames filename parent .importing found).trans
    (violations_withFilenames filename' parent .importing found).symm
  unfold checkImported
  generalize violations parent .importing (withFilenames filename found) = one at same ⊢
  generalize violations parent .importing (withFilenames filename' found) = other at same ⊢
  cases one with
  | nil => rw [same.mp rfl]
  | cons d rest =>
    cases other with
    | nil => cases same.mpr rfl
    | cons d' rest' => rfl

end Nesting

end Stylesheet
