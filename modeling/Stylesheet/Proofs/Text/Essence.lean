import Mathlib.Data.List.Forall2
import Mathlib.Data.List.TakeWhile
import Stylesheet.Text.Blank

/-! What is left of a text if its layout does not count: all but the blanks and the semicolons in
front of closing braces. Pieces of text are compared with whatever may stand behind them, since that
decides whether their last semicolons count. -/

namespace Stylesheet.Text

/-- Leave out every run of semicolons right in front of a closing brace. -/
def dropSeparators : List Char → List Char
  | [] => []
  | c :: rest =>
    if c = ';' ∧ (dropSeparators rest).head? = some '\x7d' then dropSeparators rest
    else c :: dropSeparators rest

/-- A text without its blanks. -/
def unblanked (text : List Char) : List Char :=
  text.filter fun c => !isBlank c

/-- A text without its blanks, and then without the runs of semicolons in front of closing braces. -/
def essence (text : List Char) : List Char :=
  dropSeparators (unblanked text)

example : essence "a \x7b b: c;\n ; \x7d ;\n".toList = "a\x7bb:c\x7d;".toList := by decide

/-- A text of ASCII characters. -/
def IsAscii (text : String) : Prop :=
  ∀ c ∈ text.toList, c.toNat < 0x80

instance (text : String) : Decidable (IsAscii text) :=
  List.decidableBAll (fun c : Char => c.toNat < 0x80) text.toList

/-- A piece of ASCII text that comes to the same as another one, whatever stands behind the two. -/
structure Spells (text plain : String) : Prop where
  ascii : IsAscii text
  same : ∀ behind, essence (text.toList ++ behind) = essence (plain.toList ++ behind)

section Essence

variable {front rest : List Char}

theorem essence_of_blanks (blanks : ∀ c ∈ front, isBlank c = true) (rest : List Char) :
    essence (front ++ rest) = essence rest := by
  have none : unblanked front = [] := by
    simpa [unblanked, List.filter_eq_nil_iff] using blanks
  rw [essence, unblanked, List.filter_append, ← unblanked, none, List.nil_append, ← unblanked,
    ← essence]

theorem essence_cons_of_blank {c : Char} (blank : isBlank c = true) (rest : List Char) :
    essence (c :: rest) = essence rest :=
  @essence_of_blanks [c] (by simpa using blank) rest

theorem essence_cons {c : Char} (ink : isBlank c = false) (rest : List Char) :
    essence (c :: rest) =
      if c = ';' ∧ (essence rest).head? = some '\x7d' then essence rest else c :: essence rest := by
  rw [essence, unblanked, List.filter_cons_of_pos (by simp [ink]), dropSeparators, ← unblanked,
    ← essence]

/-- What stands in front does not see more than the essence of the rest. -/
theorem essence_append_congr {other : List Char} (same : essence rest = essence other)
    (front : List Char) : essence (front ++ rest) = essence (front ++ other) := by
  induction front with
  | nil => exact same
  | cons c front ih =>
    cases ink : isBlank c with
    | true => simpa [essence_cons_of_blank ink] using ih
    | false => simp only [List.cons_append, essence_cons ink, ih]

/-- A semicolon in front of a closing brace does not count. -/
theorem essence_semicolon (rest : List Char) :
    essence (';' :: '\x7d' :: rest) = essence ('\x7d' :: rest) := by
  rw [essence_cons rfl, essence_cons (c := '\x7d') rfl]
  simp

end Essence

section Pieces

variable {text other plain : String}

theorem isAscii_append (first : IsAscii text) (second : IsAscii other) : IsAscii (text ++ other) := by
  intro c member
  rw [String.toList_append, List.mem_append] at member
  exact member.elim (first c) (second c)

theorem IsAscii.spells (ascii : IsAscii text) : Spells text text :=
  ⟨ascii, fun _ => rfl⟩

theorem Spells.append {otherPlain : String} (first : Spells text plain)
    (second : Spells other otherPlain) : Spells (text ++ other) (plain ++ otherPlain) where
  ascii := isAscii_append first.ascii second.ascii
  same := by
    intro behind
    simp only [String.toList_append, List.append_assoc]
    rw [first.same]
    exact essence_append_congr (second.same behind) plain.toList

theorem Spells.trans {plainer : String} (first : Spells text plain) (second : Spells plain plainer) :
    Spells text plainer :=
  ⟨first.ascii, fun behind => (first.same behind).trans (second.same behind)⟩

/-- Texts that differ in blanks only come to the same. -/
theorem spells_of_unblanked (ascii : IsAscii text)
    (same : unblanked text.toList = unblanked plain.toList) : Spells text plain := by
  refine ⟨ascii, fun behind => ?_⟩
  simp only [essence, unblanked, List.filter_append]
  exact congrArg (fun front => dropSeparators (front ++ unblanked behind)) same

/-- Blanks stand for nothing. -/
theorem spells_blanks (ascii : IsAscii text) (blanks : ∀ c ∈ text.toList, isBlank c = true) :
    Spells text "" :=
  ⟨ascii, fun behind => essence_of_blanks blanks behind⟩

theorem spells_line : Spells "\n" "" :=
  spells_of_unblanked (by decide) (by decide)

theorem spells_space : Spells " " "" :=
  spells_of_unblanked (by decide) (by decide)

theorem spells_empty : Spells "" "" :=
  IsAscii.spells (by decide)

theorem spells_semicolon : Spells ";" ";" :=
  IsAscii.spells (by decide)

theorem spells_brace : Spells "\x7d" "\x7d" :=
  IsAscii.spells (by decide)

theorem spells_indent (count : Nat) : Spells (indent count) "" := by
  apply spells_blanks
  all_goals
    intro c member
    simp only [indent, String.toList_ofList, List.mem_replicate] at member
    rw [member.2]
    decide

theorem Spells.dropBlanks {front blanks : List Char} (spells : Spells text plain)
    (parts : text.toList = front ++ blanks) (blank : ∀ c ∈ blanks, isBlank c = true) :
    Spells (String.ofList front) plain where
  ascii := by
    intro c member
    rw [String.toList_ofList] at member
    exact spells.ascii c (parts ▸ List.mem_append_left blanks member)
  same := by
    intro behind
    rw [String.toList_ofList, ← spells.same behind, parts, List.append_assoc]
    exact (essence_append_congr (essence_of_blanks blank behind) front).symm

theorem Spells.trimEnd (spells : Spells text plain) : Spells (trimEnd text) plain := by
  have parts : text.toList =
      dropEndWhile isBlank text.toList ++ (text.toList.reverse.takeWhile isBlank).reverse := by
    rw [dropEndWhile, ← List.reverse_append, List.takeWhile_append_dropWhile, List.reverse_reverse]
  exact spells.dropBlanks parts fun c member =>
    List.mem_takeWhile_imp (List.mem_reverse.mp member)

theorem Spells.trimStart (spells : Spells text plain) : Spells (trimStart text) plain where
  ascii := by
    intro c member
    rw [Text.trimStart, String.toList_ofList] at member
    exact spells.ascii c ((List.dropWhile_sublist _).subset member)
  same := by
    intro behind
    rw [Text.trimStart, String.toList_ofList, ← spells.same behind]
    conv_rhs => rw [← List.takeWhile_append_dropWhile (p := isBlank) (l := text.toList)]
    rw [List.append_assoc]
    exact (essence_of_blanks (fun c member => List.mem_takeWhile_imp member) _).symm

theorem Spells.dropLast {c : Char} (spells : Spells text plain)
    (ends : text.toList.getLast? = some c) (blank : isBlank c = true) :
    Spells (String.ofList text.toList.dropLast) plain := by
  obtain ⟨front, parts⟩ := List.getLast?_eq_some_iff.mp ends
  rw [parts, List.dropLast_concat]
  exact spells.dropBlanks parts (by simpa using blank)

/-- A closing brace does for the semicolon in front of it. -/
theorem Spells.close (spells : Spells (text ++ ";") plain) :
    Spells (text ++ "\x7d") (plain ++ "\x7d") where
  ascii := by
    refine isAscii_append (fun c member => spells.ascii c ?_) (by decide)
    rw [String.toList_append]
    exact List.mem_append_left _ member
  same := by
    intro behind
    have within := spells.same ('\x7d' :: behind)
    simp only [String.toList_append, List.append_assoc] at within ⊢
    rw [show "\x7d".toList ++ behind = '\x7d' :: behind from rfl, ← within]
    exact (essence_append_congr (essence_semicolon behind) text.toList).symm

end Pieces

section Lists

variable {texts plains : List String}

theorem spells_intercalate {divider : String} (blank : Spells divider "")
    (each : List.Forall₂ Spells texts plains) :
    Spells (divider.intercalate texts) (String.join plains) := by
  induction each with
  | nil => exact spells_empty
  | cons first others ih =>
    rw [String.join_cons]
    cases others with
    | nil => simpa using first
    | cons second others =>
      rw [String.intercalate_cons_cons]
      simpa using (first.append blank).append ih

/-- Semicolons between texts come to the same as one behind each of them, if a brace follows. -/
theorem spells_separated
    (each : List.Forall₂ (fun text plain => Spells (text ++ ";") plain) texts plains) :
    Spells (";".intercalate texts ++ "\x7d") (String.join plains ++ "\x7d") := by
  induction each with
  | nil => exact spells_brace
  | cons first others ih =>
    rw [String.join_cons]
    cases others with
    | nil => simpa using first.close
    | cons second others =>
      rw [String.intercalate_cons_cons]
      simpa only [String.append_assoc] using first.append ih

end Lists

/-- A text without its spaces. -/
def unspaced (text : String) : List Char :=
  text.toList.filter (· != ' ')

section Unspaced

@[simp]
theorem unspaced_append (one other : String) :
    unspaced (one ++ other) = unspaced one ++ unspaced other := by
  simp [unspaced]

theorem unspaced_intercalate (divider : String) (texts : List String) :
    unspaced (divider.intercalate texts) = (unspaced divider).intercalate (texts.map unspaced) := by
  induction texts with
  | nil => rfl
  | cons first rest ih =>
    cases rest with
    | nil => simp
    | cons second rest =>
      rw [String.intercalate_cons_cons, unspaced_append, unspaced_append, ih, List.map_cons,
        List.map_cons, List.map_cons, List.intercalate_cons_cons]

theorem unblanked_unspaced (text : String) : unblanked (unspaced text) = unblanked text.toList := by
  rw [unspaced, unblanked, List.filter_filter, unblanked]
  congr 1
  funext c
  by_cases space : c = ' '
  · rw [space]
    decide
  · simp [space]

/-- Texts that differ in spaces only come to the same. -/
theorem spells_of_unspaced {text plain : String} (ascii : IsAscii plain)
    (same : unspaced text = unspaced plain) : Spells text plain := by
  apply spells_of_unblanked
  · intro c member
    by_cases space : c = ' '
    · rw [space]
      decide
    · have kept : c ∈ unspaced text := List.mem_filter.mpr ⟨member, by simpa using space⟩
      rw [same] at kept
      exact ascii c (List.mem_filter.mp kept).1
  · rw [← unblanked_unspaced, same, unblanked_unspaced]

end Unspaced

end Stylesheet.Text
