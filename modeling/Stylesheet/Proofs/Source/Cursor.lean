import Mathlib.Data.List.DropRight
import Stylesheet.Source.Cursor

/-! Where reading goes on. What is read next depends on the text at the place only, so moving is told
by the text that is left. -/

namespace Stylesheet

namespace Text

theorem size_cons (c : Char) (text : List Char) : size (c :: text) = c.utf8Size + size text := by
  have shift : ∀ (text : List Char) (start : Nat),
      text.foldl (fun total c => total + c.utf8Size) start = start + size text := by
    intro text
    induction text with
    | nil => intro start; rfl
    | cons c rest ih =>
      intro start
      unfold size
      rw [List.foldl_cons, List.foldl_cons, ih, ih]
      omega
  unfold size
  rw [List.foldl_cons, shift]
  unfold size
  omega

theorem size_append (first second : List Char) :
    size (first ++ second) = size first + size second := by
  induction first with
  | nil => simp [size]
  | cons c rest ih => rw [List.cons_append, size_cons, size_cons, ih]; omega

/-- A text without the blanks in front. -/
abbrev afterBlanks (text : List Char) : List Char :=
  text.dropWhile isBlank

theorem afterBlanks_append {blanks : List Char} (blank : ∀ c ∈ blanks, isBlank c = true)
    (text : List Char) : afterBlanks (blanks ++ text) = afterBlanks text :=
  List.dropWhile_append_of_pos blank

theorem afterBlanks_cons {c : Char} (blank : isBlank c = true) (text : List Char) :
    afterBlanks (c :: text) = afterBlanks text :=
  List.dropWhile_cons_of_pos blank

theorem afterBlanks_of_head {c : Char} (notBlank : isBlank c = false) (rest : List Char) :
    afterBlanks (c :: rest) = c :: rest :=
  List.dropWhile_cons_of_neg (by simp [notBlank])

theorem afterBlanks_afterBlanks (text : List Char) :
    afterBlanks (afterBlanks text) = afterBlanks text :=
  List.dropWhile_idempotent _ text

theorem dropEndWhile_prefix {p : Char → Bool} (text : List Char) :
    dropEndWhile p text <+: text :=
  List.rdropWhile_prefix p text

/-- Blanks at the end are dropped, up to something that is none. -/
theorem dropEndWhile_append {p : Char → Bool} {front back : List Char} {x : Char}
    (stop : p x = false) (all : ∀ c ∈ back, p c = true) :
    dropEndWhile p (front ++ ([x] ++ back)) = front ++ [x] := by
  unfold dropEndWhile
  rw [List.reverse_append, List.reverse_append, List.append_assoc,
    List.dropWhile_append_of_pos (by simpa using all)]
  simp [stop]

theorem size_spaces (count : Nat) : size (List.replicate count ' ') = count := by
  induction count with
  | zero => rfl
  | succ count ih =>
    rw [List.replicate_succ, size_cons, ih, Nat.add_comm]
    rfl

theorem toList_indent (depth : Nat) : (indent depth).toList = List.replicate (2 * depth) ' ' := by
  unfold indent
  rw [String.toList_ofList]

theorem isBlank_indent (depth : Nat) : ∀ c ∈ (indent depth).toList, isBlank c = true := by
  intro c member
  rw [toList_indent] at member
  rw [(List.mem_replicate.mp member).2]
  decide

theorem splitLines_oneLine {line : List Char} (oneLine : '\n' ∉ line) : splitLines line = [line] := by
  induction line with
  | nil => rfl
  | cons c line ih =>
    simp only [List.mem_cons, not_or] at oneLine
    rw [splitLines, if_neg (by simpa using Ne.symm oneLine.1), ih oneLine.2]

theorem splitLines_append {line : List Char} (oneLine : '\n' ∉ line) (rest : List Char) :
    splitLines (line ++ '\n' :: rest) = line :: splitLines rest := by
  induction line with
  | nil => rfl
  | cons c line ih =>
    rw [List.mem_cons, not_or] at oneLine
    rw [List.cons_append, splitLines, if_neg (by simpa using Ne.symm oneLine.1), ih oneLine.2]

end Text

/-- A property of places that moving forward keeps. -/
class Onward (P : Cursor → Prop) : Prop where
  next {c : Cursor} : P c → P c.next

namespace Onward

variable {P : Cursor → Prop} [Onward P] {c : Cursor}

theorem advance (here : P c) (count : Nat) : P (c.advance count) := by
  induction count generalizing c with
  | zero => exact here
  | succ count ih => exact ih (next here)

theorem skipBlanks (here : P c) : P c.skipBlanks :=
  advance here _

theorem eat? {text : String} {after : Cursor} (here : P c) (ate : c.eat? text = some after) :
    P after := by
  unfold Cursor.eat? at ate
  split at ate
  · cases ate
    exact advance here _
  · cases ate

instance everywhere : Onward fun _ => True where
  next := fun _ => trivial

end Onward

namespace Cursor

theorem rest_next (c : Cursor) : c.next.rest = c.rest.drop 1 := by
  obtain ⟨pos, before, rest, beyond⟩ := c
  cases rest with
  | nil => rfl
  | cons x rest => rfl

theorem rest_advance (count : Nat) (c : Cursor) : (c.advance count).rest = c.rest.drop count := by
  induction count generalizing c with
  | zero => rfl
  | succ count ih => rw [advance, ih, rest_next, List.drop_drop, Nat.add_comm]

theorem rest_advance_append {c : Cursor} {front back : List Char} (rest : c.rest = front ++ back) :
    (c.advance front.length).rest = back := by
  rw [rest_advance, rest, List.drop_left]

theorem before_advance_append {c : Cursor} {front back : List Char}
    (rest : c.rest = front ++ back) :
    (c.advance front.length).before = front.reverse ++ c.before := by
  induction front generalizing c with
  | nil => rfl
  | cons x front ih =>
    obtain ⟨pos, before, text, beyond⟩ := c
    cases rest
    rw [List.length_cons, advance, ih rfl, List.reverse_cons, List.append_assoc]
    rfl

theorem pos_le_next (c : Cursor) : c.pos ≤ c.next.pos := by
  unfold next
  split
  · exact Nat.le_refl _
  · exact Nat.le_add_right _ _

theorem pos_le_advance (count : Nat) (c : Cursor) : c.pos ≤ (c.advance count).pos := by
  induction count generalizing c with
  | zero => exact Nat.le_refl _
  | succ count ih => exact (pos_le_next c).trans (ih c.next)

theorem pos_lt_advance {count : Nat} (positive : 0 < count) {c : Cursor} (filled : c.rest ≠ []) :
    c.pos < (c.advance count).pos := by
  obtain ⟨count, rfl⟩ := Nat.exists_eq_succ_of_ne_zero positive.ne'
  refine Nat.lt_of_lt_of_le ?_ (pos_le_advance count c.next)
  unfold next
  split
  · rename_i ended
    exact absurd ended filled
  · rename_i x _ _
    exact Nat.lt_add_of_pos_right x.utf8Size_pos

theorem limit_next (c : Cursor) : c.next.limit = c.limit := by
  obtain ⟨pos, before, rest, beyond⟩ := c
  cases rest with
  | nil => rfl
  | cons x rest =>
    unfold next limit
    rw [Text.size_cons, Nat.add_assoc]

/-- Moving leaves the end of what can be read where it is. -/
theorem limit_advance (count : Nat) (c : Cursor) : (c.advance count).limit = c.limit := by
  induction count generalizing c with
  | zero => rfl
  | succ count ih => exact (ih c.next).trans (limit_next c)

theorem rest_skipBlanks (c : Cursor) : c.skipBlanks.rest = Text.afterBlanks c.rest := by
  have split := List.takeWhile_append_dropWhile (p := Text.isBlank) (l := c.rest)
  exact rest_advance_append split.symm

theorem eat?_of_append {c : Cursor} {text : String} {back : List Char}
    (rest : c.rest = text.toList ++ back) :
    ∃ after, c.eat? text = some after ∧ after.rest = back := by
  refine ⟨c.advance text.length, ?_, ?_⟩
  · unfold eat? startsWith
    rw [rest, if_pos (by simp)]
  · rw [← String.length_toList]
    exact rest_advance_append rest

theorem seekFrom_append (front back before beyond : List Char) (pos : Nat) :
    ∃ between, seekFrom (pos + Text.size front) pos before beyond (front ++ back) =
      ⟨pos + Text.size front, between, back, beyond⟩ := by
  induction front generalizing pos before with
  | nil =>
    refine ⟨before, ?_⟩
    cases back with
    | nil => rfl
    | cons x rest => simp [seekFrom, Text.size]
  | cons x front ih =>
    obtain ⟨between, found⟩ := ih (x :: before) (pos + x.utf8Size)
    refine ⟨between, ?_⟩
    have positive := x.utf8Size_pos
    rw [List.cons_append, seekFrom, if_neg (by rw [Text.size_cons]; omega), Text.size_cons,
      ← Nat.add_assoc, found]

theorem splitBytes_append (front back : List Char) :
    splitBytes (Text.size front) (front ++ back) = (front, back) := by
  induction front with
  | nil =>
    cases back with
    | nil => rfl
    | cons x rest => simp [splitBytes, Text.size]
  | cons x front ih =>
    have positive := x.utf8Size_pos
    rw [List.cons_append, splitBytes, if_neg (by rw [Text.size_cons]; omega), Text.size_cons,
      Nat.add_sub_cancel_left, ih]

/-- The part of a text between two offsets. -/
theorem limitTo_seek (front middle back : List Char) :
    ∃ between, ((ofChars (front ++ middle ++ back)).seek (Text.size front)).limitTo
      (Text.size front + Text.size middle) = ⟨Text.size front, between, middle, back⟩ := by
  have at_start := seekFrom_append front (middle ++ back) [] [] 0
  rw [Nat.zero_add, ← List.append_assoc] at at_start
  obtain ⟨between, found⟩ := at_start
  refine ⟨between, ?_⟩
  unfold seek ofChars
  rw [found]
  unfold limitTo
  simp only [Nat.add_sub_cancel_left, splitBytes_append, List.append_nil]

theorem rest_limitTo_seek (front middle back : List Char) :
    (((ofChars (front ++ middle ++ back)).seek (Text.size front)).limitTo
      (Text.size front + Text.size middle)).rest = middle := by
  obtain ⟨between, found⟩ := limitTo_seek front middle back
  rw [found]

/-- The text that was moved over. -/
theorem textTo_advance {c : Cursor} {front back : List Char} (isText : c.rest = front ++ back) :
    c.textTo (c.advance front.length) = front := by
  have same := limit_advance front.length c
  unfold limit at same
  rw [rest_advance_append isText, isText, Text.size_append] at same
  have size : (c.advance front.length).pos - c.pos = Text.size front := by omega
  unfold textTo
  rw [size, isText, splitBytes_append]

theorem rest_limitTo_advance {c : Cursor} {front back : List Char} (isText : c.rest = front ++ back) :
    (c.limitTo (c.advance front.length).pos).rest = front :=
  textTo_advance isText

end Cursor

end Stylesheet
