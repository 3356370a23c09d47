import Stylesheet.Proofs.Statement.BracesReading
import Stylesheet.Proofs.Statement.IndentedReading
import Stylesheet.Proofs.Statement.Values

/-! The same statements are read from either dialect. -/

namespace Stylesheet

open Header

/-- What is written in a dialect is read back in the dialect, in the file it is given. -/
theorem Written.parse_textOfAll {found : List Written} (filled : AllFilled found)
    (dialect : Dialect) (filename : Option String) :
    ∃ root, Statement.parse (textOfAll dialect 0 found) dialect filename = .ok root ∧
      root.unplaced =
        (Statement.mk .root (statements found) 0 default none).withFilename filename := by
  cases dialect with
  | scss =>
    have laid := Braces.laidOut_textOfAll found 0 [] (by simp) []
    rw [List.nil_append, List.append_nil] at laid
    obtain ⟨root, parsed, isRoot⟩ := Braces.parse_laidOut laid
    refine ⟨root.withFilename filename, ?_, ?_⟩
    · unfold Statement.parse
      simp only [parsed]
    · rw [Statement.unplaced_withFilename, isRoot]
  | indented =>
    have shows := shows_textOfAll .nil found 0
    rw [List.append_nil, List.append_nil] at shows
    obtain ⟨root, parsed, isRoot⟩ := Indented.parse_shows filled shows
    refine ⟨root.withFilename filename, ?_, ?_⟩
    · unfold Statement.parse
      simp only [parsed]
    · rw [Statement.unplaced_withFilename, isRoot]

/-- A character of a name in lower case. -/
def isPlainChar (c : Char) : Bool :=
  c.isLower || c.isDigit || c == '-'

/-- A lower-case letter and then lower-case letters, digits and hyphens. -/
structure ClassName where
  text : List Char
  starts : text.head?.any Char.isLower = true
  plain : ∀ c ∈ text, isPlainChar c = true

/-- A lower-case letter and then lower-case letters and hyphens. -/
structure LowerName where
  text : List Char
  starts : text.head?.any Char.isLower = true
  plain : ∀ c ∈ text, (c.isLower || c == '-') = true

/-- A length in pixels: its digits, at least one. -/
structure Pixels where
  digits : List Char
  filled : digits ≠ []
  areDigits : ∀ c ∈ digits, c.isDigit = true

/-- A rule with a class as its selector, or a declaration of a length. -/
inductive Styling where
  | rule (name : ClassName) (body : List Styling)
  | declaration (name : LowerName) (value : Pixels)

namespace Styling

mutual

/-- The text with braces and semicolons. -/
def braces (depth : Nat) : Styling → String
  | rule name body =>
    Text.indent depth ++ "." ++ String.ofList name.text ++ " \x7b\n" ++
      bracesOfAll (depth + 1) body ++ Text.indent depth ++ "\x7d\n"
  | declaration name value =>
    Text.indent depth ++ String.ofList name.text ++ ": " ++ String.ofList value.digits ++ "px;\n"

def bracesOfAll (depth : Nat) : List Styling → String
  | [] => ""
  | s :: rest => braces depth s ++ bracesOfAll depth rest

end

mutual

/-- The text with two blanks for each level and a line for each statement. -/
def lines (depth : Nat) : Styling → String
  | rule name body =>
    Text.indent depth ++ "." ++ String.ofList name.text ++ "\n" ++ linesOfAll (depth + 1) body
  | declaration name value =>
    Text.indent depth ++ String.ofList name.text ++ ": " ++ String.ofList value.digits ++ "px\n"

def linesOfAll (depth : Nat) : List Styling → String
  | [] => ""
  | s :: rest => lines depth s ++ linesOfAll depth rest

end

end Styling

section Names

variable {c : Char}

theorem isPlainChar_ne {d : Char} (plain : isPlainChar c = true) (other : isPlainChar d = false) :
    c ≠ d := by
  rintro rfl
  rw [plain] at other
  cases other

theorem isBlank_of_isPlainChar (plain : isPlainChar c = true) : Text.isBlank c = false := by
  simp only [isPlainChar, Bool.or_eq_true, beq_iff_eq] at plain
  rcases plain with (isLower | isDigit) | rfl
  · exact Scan.isBlank_of_isLower isLower
  · exact Scan.isBlank_of_isDigit isDigit
  · decide

theorem isHeadChar_of_isPlainChar (plain : isPlainChar c = true) : isHeadChar c = true := by
  simp only [isHeadChar, isQuote, isStatementEnd, Bool.and_eq_true, bne_iff_ne,
    Bool.not_eq_true', Bool.or_eq_false_iff, beq_eq_false_iff_ne]
  refine ⟨⟨⟨?_, ?_, ?_⟩, ⟨?_, ?_⟩, ?_⟩, ?_⟩
  all_goals exact isPlainChar_ne plain rfl

theorem endsLine_of_isPlainChar (plain : isPlainChar c = true) : endsLine c = true := by
  unfold endsLine
  rw [isBlank_of_isPlainChar plain, bne_iff_ne.mpr (isPlainChar_ne plain rfl),
    bne_iff_ne.mpr (isPlainChar_ne plain rfl)]
  rfl

theorem startsHead_of_isLower (isLower : c.isLower = true) : startsHead c = true := by
  have plain : isPlainChar c = true := by simp [isPlainChar, isLower]
  unfold startsHead
  rw [isBlank_of_isPlainChar plain, Bool.not_false, Bool.true_and, Bool.not_eq_true',
    List.contains_eq_mem, decide_eq_false_iff_not]
  intro special
  simp only [List.mem_cons, List.not_mem_nil, or_false] at special
  rcases special with rfl | rfl | rfl | rfl | rfl | rfl | rfl | rfl | rfl | rfl | rfl
  all_goals cases isLower

theorem isNameStart_of_isLower (isLower : c.isLower = true) : Scan.isNameStart c = true := by
  have isAlpha : c.isAlpha = true := Bool.or_eq_true_iff.mpr (.inr isLower)
  simp [Scan.isNameStart, isAlpha]

theorem isNameChar_of_isPlainChar (plain : isPlainChar c = true) : Scan.isNameChar c = true := by
  simp only [isPlainChar, Bool.or_eq_true] at plain
  rcases plain with (isLower | isDigit) | isHyphen
  · simp [Scan.isNameChar, isNameStart_of_isLower isLower]
  · simp [Scan.isNameChar, isDigit]
  · simp [Scan.isNameChar, isHyphen]

end Names

namespace ClassName

/-- The selector of a class is no property. -/
def head (name : ClassName) : RuleHead where
  text := '.' :: name.text
  plain := .run fun c member => by
    rcases List.mem_cons.mp member with rfl | behind
    · rfl
    · exact isHeadChar_of_isPlainChar (name.plain c behind)
  starts := rfl
  ends := by
    obtain ⟨x, isHead, _⟩ := (Option.any_eq_true _ _).mp name.starts
    obtain ⟨more, isText⟩ := List.head?_eq_some_iff.mp isHead
    rw [isText, List.getLast?_cons_cons, ← isText]
    obtain ⟨front, last, isConcat⟩ :=
      (List.eq_nil_or_concat name.text).resolve_left (by simp [isText])
    have isLast := name.plain last (by simp [isConcat])
    rw [isConcat, List.concat_eq_append, List.getLast?_concat]
    exact endsLine_of_isPlainChar isLast
  startsRule := rfl
  starIsAlone := by
    rintro _ ⟨⟩
  notProperty := by
    rintro _ _ ⟨⟩

end ClassName

namespace LowerName

theorem isPlain (name : LowerName) {c : Char} (member : c ∈ name.text) : isPlainChar c = true := by
  rcases Bool.or_eq_true_iff.mp (name.plain c member) with isLower | isHyphen
  · simp [isPlainChar, isLower]
  · simp [isPlainChar, isHyphen]

/-- A name in lower case names a property. -/
def property (name : LowerName) : PropertyName where
  text := name.text
  ident := by
    obtain ⟨x, isHead, isLower⟩ := (Option.any_eq_true _ _).mp name.starts
    obtain ⟨more, isText⟩ := List.head?_eq_some_iff.mp isHead
    rw [isText]
    refine .plain (.start (isNameStart_of_isLower isLower) (.of_all fun c member => ?_))
    exact isNameChar_of_isPlainChar (name.isPlain (by simp [isText, member]))
  starts := by
    obtain ⟨x, isHead, isLower⟩ := (Option.any_eq_true _ _).mp name.starts
    rw [isHead]
    exact startsHead_of_isLower isLower
  oneLine := by
    intro member
    cases name.plain _ member

end LowerName

namespace Pixels

/-- The number of pixels. -/
def number (value : Pixels) : Lexer.NumberText where
  negative := false
  digits := value.digits
  unit := ['p', 'x']
  decimal := .whole ⟨value.filled, value.areDigits⟩
  units := List.all_eq_true.mp (by decide)

def literal (value : Pixels) : WrittenLiteral where
  text := value.digits ++ ['p', 'x']
  value := .number value.number.number
  spells := Script.spells_number value.number
  starts := by
    obtain ⟨d, more, isDigits⟩ := List.exists_cons_of_ne_nil value.filled
    have plain : isPlainChar d = true := by
      simp [isPlainChar, value.areDigits d (by simp [isDigits])]
    have inside := (isHeadChar_spec (isHeadChar_of_isPlainChar plain)).1
    simp [isDigits, isBlank_of_isPlainChar plain, inside]
  ends := by simp; decide
  oneLine := by
    intro member
    rcases List.mem_append.mp member with isDigit | isUnit
    · cases value.areDigits _ isDigit
    · cases isUnit with
      | tail _ isUnit => cases isUnit with
        | tail _ none => cases none

end Pixels

namespace Styling

mutual

/-- A styling as statements that can be written in either dialect. -/
def written : Styling → Written
  | rule name body => .block (.rule name.head) (writtenAll body)
  | declaration name value =>
    .leaf (.declaration name.property (WrittenList.single value.literal).value)

def writtenAll : List Styling → List Written
  | [] => []
  | s :: rest => written s :: writtenAll rest

end

mutual

theorem text_scss : (s : Styling) → (depth : Nat) → s.written.text .scss depth = s.braces depth
  | rule name body, depth => by
    have inner := textOfAll_scss body (depth + 1)
    simp [written, Written.text, braces, SourceText.block, Opening.text, ClassName.head, inner,
      String.ext_iff]
  | declaration name value, depth => by
    simp [written, Written.text, Leaf.text, braces, SourceText.statement, LowerName.property,
      WrittenList.value, WrittenList.text_single, Pixels.literal, String.ext_iff]

theorem textOfAll_scss : (found : List Styling) → (depth : Nat) →
    Written.textOfAll .scss depth (writtenAll found) = bracesOfAll depth found
  | [], depth => rfl
  | s :: rest, depth => by
    rw [writtenAll, Written.textOfAll, bracesOfAll, text_scss s, textOfAll_scss rest]

end

mutual

theorem text_indented : (s : Styling) → (depth : Nat) →
    s.written.text .indented depth = s.lines depth
  | rule name body, depth => by
    have inner := textOfAll_indented body (depth + 1)
    have head : (Opening.rule name.head).source .indented = '.' :: name.text := rfl
    simp [written, Written.text, lines, SourceText.block, head, inner, String.ext_iff]
  | declaration name value, depth => by
    simp [written, Written.text, Leaf.text, lines, SourceText.statement, LowerName.property,
      WrittenList.value, WrittenList.text_single, Pixels.literal, String.ext_iff]

theorem textOfAll_indented : (found : List Styling) → (depth : Nat) →
    Written.textOfAll .indented depth (writtenAll found) = linesOfAll depth found
  | [], depth => rfl
  | s :: rest, depth => by
    rw [writtenAll, Written.textOfAll, linesOfAll, text_indented s, textOfAll_indented rest]

end

mutual

theorem filled_written : (s : Styling) → s.written.Filled
  | rule _ body => ⟨nofun, filled_writtenAll body⟩
  | declaration _ _ => trivial

/-- There is no directive among the stylings. -/
theorem filled_writtenAll : (found : List Styling) → Written.AllFilled (writtenAll found)
  | [] => trivial
  | s :: rest => ⟨filled_written s, filled_writtenAll rest⟩

end

/-- Braces and indentation tell the same tree, which is the one that was written. -/
theorem parse_dialects_agree (found : List Styling) (filename : Option String) :
    ∃ first second,
      Statement.parse (bracesOfAll 0 found) .scss filename = .ok first ∧
      Statement.parse (linesOfAll 0 found) .indented filename = .ok second ∧
      first.unplaced = second.unplaced ∧
      first.unplaced = (Statement.mk .root (Written.statements (writtenAll found)) 0 default
        none).withFilename filename := by
  obtain ⟨first, readFirst, isFirst⟩ :=
    Written.parse_textOfAll (filled_writtenAll found) .scss filename
  obtain ⟨second, readSecond, isSecond⟩ :=
    Written.parse_textOfAll (filled_writtenAll found) .indented filename
  rw [textOfAll_scss] at readFirst
  rw [textOfAll_indented] at readSecond
  exact ⟨first, second, readFirst, readSecond, isFirst.trans isSecond.symm, isFirst⟩

end Styling

end Stylesheet
