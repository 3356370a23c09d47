import Mathlib.Data.List.Count
import Stylesheet.Proofs.Source.Cursor

/-! Places of a text. Reading moves between characters of the text, and the line of a place is one
more than the line feeds in front of it. -/

namespace Stylesheet

namespace Text

/-- The offset is a place between two characters, or an end of the text. -/
def IsPlace (text : List Char) (offset : Nat) : Prop :=
  ∃ front back, text = front ++ back ∧ size front = offset

/-- The offset is a place of the text with as many line feeds in front as the line has lines above
it. -/
def OnLine (text : List Char) (line offset : Nat) : Prop :=
  ∃ front back, text = front ++ back ∧ size front = offset ∧ line = front.count '\n' + 1

/-- A span of the text that begins on a line. -/
structure Begins (text : List Char) (line : Nat) (span : Span) : Prop where
  start : OnLine text line span.start
  stop : IsPlace text span.stop
  ordered : span.start ≤ span.stop

/-- A span of the text that is not empty and has something of a line in it. -/
structure Touches (text : List Char) (line : Nat) (span : Span) : Prop where
  start : IsPlace text span.start
  stop : IsPlace text span.stop
  within : ∃ offset, OnLine text line offset ∧ span.start ≤ offset ∧ offset < span.stop

variable {text : List Char} {line offset : Nat} {span : Span}

theorem onLine_start : OnLine text 1 0 :=
  ⟨[], text, rfl, rfl, rfl⟩

theorem OnLine.isPlace (onLine : OnLine text line offset) : IsPlace text offset := by
  obtain ⟨front, back, same, size, _⟩ := onLine
  exact ⟨front, back, same, size⟩

theorem IsPlace.le_size (isPlace : IsPlace text offset) : offset ≤ size text := by
  obtain ⟨front, back, rfl, rfl⟩ := isPlace
  rw [size_append]
  exact Nat.le_add_right _ _

/-- Two places, one not behind the other, cut a text in three. -/
theorem IsPlace.exists_between {limit : Nat} (first : IsPlace text offset)
    (last : IsPlace text limit) (ordered : offset ≤ limit) :
    ∃ front middle back, text = front ++ middle ++ back ∧ size front = offset ∧
      size front + size middle = limit := by
  obtain ⟨front, behind, rfl, rfl⟩ := first
  obtain ⟨longer, back, same, rfl⟩ := last
  rcases List.append_eq_append_iff.mp same with ⟨middle, rfl, rfl⟩ | ⟨extra, rfl, rfl⟩
  · exact ⟨front, middle, back, by simp, rfl, (size_append front middle).symm⟩
  · -- The two places are the same.
    rw [size_append] at ordered ⊢
    refine ⟨longer ++ extra, [], behind, by simp, size_append longer extra, ?_⟩
    rw [size_append]
    have nothing : size [] = 0 := rfl
    omega

theorem OnLine.begins {stop : Nat} (onLine : OnLine text line offset) (ends : IsPlace text stop)
    (ordered : offset ≤ stop) : Begins text line (Span.between offset stop) where
  start := onLine
  stop := by
    rw [Span.between, Nat.max_eq_left ordered]
    exact ends
  ordered := Nat.le_max_right _ _

/-- Two spans together have a line in them if it lies between their ends. -/
theorem OnLine.touches_union {a b : Span} (onLine : OnLine text line offset)
    (first : IsPlace text a.start ∧ IsPlace text a.stop)
    (second : IsPlace text b.start ∧ IsPlace text b.stop)
    (lower : a.start ≤ offset ∨ b.start ≤ offset) (upper : offset < a.stop ∨ offset < b.stop) :
    Touches text line (a.union b) where
  start := by
    rcases Nat.le_total a.start b.start with le | le
    · simpa [Span.union, Nat.min_eq_left le] using first.1
    · simpa [Span.union, Nat.min_eq_right le] using second.1
  stop := by
    rcases Nat.le_total a.stop b.stop with le | le
    · simpa [Span.union, Nat.max_eq_right le] using second.2
    · simpa [Span.union, Nat.max_eq_left le] using first.2
  within := by
    refine ⟨offset, onLine, ?_, ?_⟩ <;> dsimp only [Span.union] <;> omega

theorem Touches.union {a b : Span} (touches : Touches text line a)
    (second : IsPlace text b.start ∧ IsPlace text b.stop) : Touches text line (a.union b) := by
  obtain ⟨offset, onLine, lower, upper⟩ := touches.within
  exact onLine.touches_union ⟨touches.start, touches.stop⟩ second (.inl lower) (.inl upper)

end Text

namespace LineIndex

open Text

theorem startsFrom_gt {offset : Nat} {text : List Char} :
    ∀ start ∈ startsFrom offset text, offset < start := by
  intro start member
  fun_induction startsFrom offset text with
  | case1 => cases member
  | case2 offset c rest next isEnd ih =>
    have positive := c.utf8Size_pos
    rcases List.mem_cons.mp member with rfl | member
    · exact Nat.lt_add_of_pos_right positive
    · exact Nat.lt_trans (Nat.lt_add_of_pos_right positive) (ih member)
  | case3 offset c rest next notEnd ih =>
    exact Nat.lt_trans (Nat.lt_add_of_pos_right c.utf8Size_pos) (ih member)

theorem length_takeWhile_startsFrom (front back : List Char) (offset : Nat) :
    ((startsFrom offset (front ++ back)).takeWhile (· ≤ offset + size front)).length =
      front.count '\n' := by
  induction front generalizing offset with
  | nil =>
    have behind : ∀ start ∈ startsFrom offset back, ¬start ≤ offset + size [] :=
      fun start member => Nat.not_le.mpr (startsFrom_gt start member)
    rw [List.nil_append, List.count_nil, List.length_eq_zero_iff, List.takeWhile_eq_nil_iff]
    exact fun filled => by simpa using behind _ (List.getElem_mem filled)
  | cons c front ih =>
    have shift : offset + size (c :: front) = offset + c.utf8Size + size front := by
      rw [size_cons, Nat.add_assoc]
    rw [List.cons_append, startsFrom, shift]
    split
    · rename_i isEnd
      rw [List.takeWhile_cons_of_pos (by simp), List.length_cons, ih, List.count_cons,
        if_pos isEnd]
    · rename_i notEnd
      rw [ih, List.count_cons, if_neg notEnd, Nat.add_zero]

/-- A line index knows the line of every place of its text. -/
theorem onLine_ofChars {text : List Char} {offset : Nat} (isPlace : IsPlace text offset) :
    OnLine text ((ofChars text).line offset) offset := by
  obtain ⟨front, back, rfl, rfl⟩ := isPlace
  refine ⟨front, back, rfl, rfl, ?_⟩
  have behind := length_takeWhile_startsFrom front back 0
  rw [Nat.zero_add] at behind
  rw [line, ofChars, List.takeWhile_cons_of_pos (by simp), List.length_cons, behind]

end LineIndex

namespace Cursor

open Text

theorem next_advance (c : Cursor) (count : Nat) : (c.advance count).next = c.advance (count + 1) := by
  induction count generalizing c with
  | zero => rfl
  | succ count ih => exact ih c.next

/-- A cursor that stands in a text, wherever reading is limited. -/
structure In (text : List Char) (c : Cursor) : Prop where
  whole : c.before.reverse ++ (c.rest ++ c.beyond) = text
  pos : size c.before.reverse = c.pos

namespace In

variable {text : List Char} {c : Cursor}

theorem isPlace (inside : c.In text) : IsPlace text c.pos :=
  ⟨_, _, inside.whole.symm, inside.pos⟩

theorem ofChars : (Cursor.ofChars text).In text :=
  ⟨List.append_nil text, rfl⟩

theorem step {pos : Nat} {before rest beyond : List Char} {x : Char}
    (inside : In text ⟨pos, before, x :: rest, beyond⟩) :
    In text ⟨pos + x.utf8Size, x :: before, rest, beyond⟩ := by
  obtain ⟨whole, isPos⟩ := inside
  refine ⟨by simpa using whole, ?_⟩
  dsimp only at isPos ⊢
  rw [List.reverse_cons, size_append, isPos, size_cons]
  rfl

instance : Onward (In text) where
  next := by
    rintro ⟨pos, before, rest, beyond⟩ inside
    cases rest with
    | nil => exact inside
    | cons x rest => exact inside.step

theorem seek (inside : c.In text) (target : Nat) : (c.seek target).In text := by
  obtain ⟨pos, before, rest, beyond⟩ := c
  unfold Cursor.seek
  dsimp only
  induction rest generalizing pos before with
  | nil => exact inside
  | cons x rest ih =>
    unfold seekFrom
    split
    · exact inside
    · exact ih _ _ inside.step

theorem limitTo (inside : c.In text) (limit : Nat) : (c.limitTo limit).In text := by
  have parts : ∀ (count : Nat) (rest : List Char),
      (splitBytes count rest).1 ++ (splitBytes count rest).2 = rest := by
    intro count rest
    fun_induction splitBytes count rest <;> simp_all
  refine ⟨?_, inside.pos⟩
  unfold Cursor.limitTo
  dsimp only
  rw [← List.append_assoc, ← List.append_assoc, List.append_assoc _ _ (splitBytes _ _).2, parts,
    List.append_assoc, inside.whole]

end In

theorem le_seekFrom {target pos : Nat} {before beyond rest : List Char}
    (short : target ≤ pos + Text.size rest) :
    target ≤ (seekFrom target pos before beyond rest).pos := by
  induction rest generalizing pos before with
  | nil => exact short
  | cons x rest ih =>
    unfold seekFrom
    split
    · assumption
    · rw [Text.size_cons, ← Nat.add_assoc] at short
      exact ih short

/-- A cursor that stands in a text, at an offset or behind it. -/
def Past (text : List Char) (start : Nat) (c : Cursor) : Prop :=
  c.In text ∧ start ≤ c.pos

namespace Past

variable {text : List Char} {start : Nat} {c : Cursor}

theorem ofIn (inside : c.In text) : Past text c.pos c :=
  ⟨inside, Nat.le_refl _⟩

instance : Onward (Past text start) where
  next past := ⟨Onward.next past.1, past.2.trans (pos_le_next _)⟩

theorem limitTo (past : Past text start c) (limit : Nat) : Past text start (c.limitTo limit) :=
  ⟨past.1.limitTo limit, past.2⟩

theorem seek {target : Nat} (isPlace : Text.IsPlace text target) :
    Past text target ((ofChars text).seek target) := by
  refine ⟨In.ofChars.seek target, le_seekFrom ?_⟩
  rw [ofChars, Nat.zero_add]
  exact isPlace.le_size

end Past

end Cursor

end Stylesheet
