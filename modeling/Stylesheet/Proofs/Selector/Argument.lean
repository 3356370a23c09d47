import Stylesheet.Proofs.Selector.Spelling
import Stylesheet.Proofs.Source.Cursor

/-! How the raw arguments of pseudo selectors are spelled, and what reading does to a text: it leaves a
rest of it, and the ink it takes is counted. -/

namespace Stylesheet.Selector

section Blanks

/-- A text that does not begin with a blank. -/
def Unblank (text : List Char) : Prop :=
  ∀ c ∈ text.head?, Text.isBlank c = false

theorem skipBlanks_of_head {c : Char} (blank : Text.isBlank c = false) (slash : c ≠ '/')
    (rest : List Char) : skipBlanks (c :: rest) = c :: rest := by
  have noComment : Scan.blockComment? (c :: rest) = none := by
    unfold Scan.blockComment?
    split
    · rename_i same
      cases same
      exact absurd rfl slash
    · rfl
  simp [skipBlanks, skipBlanks.go, blank, noComment]

theorem skipBlanks_space (rest : List Char) : skipBlanks (' ' :: rest) = skipBlanks rest := rfl

private theorem blockComment?_pos {text : List Char} {count : Nat}
    (found : Scan.blockComment? text = some count) : 0 < count := by
  unfold Scan.blockComment? at found
  split at found
  · obtain ⟨inner, _, rfl⟩ := Option.map_eq_some_iff.mp found
    omega
  · cases found

private theorem skipBlanks_go {fuel : Nat} {text : List Char} (enough : text.length ≤ fuel) :
    skipBlanks.go fuel text <:+ text ∧ Unblank (skipBlanks.go fuel text) := by
  fun_induction skipBlanks.go fuel text with
  | case1 text =>
    have empty : text = [] := List.eq_nil_of_length_eq_zero (by omega)
    subst empty
    exact ⟨List.suffix_rfl, by simp [Unblank]⟩
  | case2 => exact ⟨List.suffix_rfl, by simp [Unblank]⟩
  | case3 fuel c rest blank ih =>
    have later := ih (by simpa using enough)
    exact ⟨later.1.trans (List.suffix_cons c rest), later.2⟩
  | case4 fuel c rest blank count found ih =>
    have positive := blockComment?_pos found
    have later := ih (by rw [List.length_drop]; omega)
    simp only [found]
    exact ⟨later.1.trans (List.drop_suffix count _), later.2⟩
  | case5 fuel c rest blank none =>
    simp only [none]
    refine ⟨List.suffix_rfl, ?_⟩
    intro d member
    cases member
    simpa using blank

theorem skipBlanks_suffix (text : List Char) : skipBlanks text <:+ text :=
  (skipBlanks_go (Nat.le_refl _)).1

theorem unblank_skipBlanks (text : List Char) : Unblank (skipBlanks text) :=
  (skipBlanks_go (Nat.le_refl _)).2

/-- The number of characters of a text that are no spaces. -/
def ink (text : List Char) : Nat :=
  text.countP (· != ' ')

theorem ink_append (first second : List Char) : ink (first ++ second) = ink first + ink second :=
  List.countP_append

theorem ink_cons {c : Char} (notSpace : c ≠ ' ') (rest : List Char) :
    ink (c :: rest) = 1 + ink rest := by
  simp [ink, notSpace, Nat.add_comm]

/-- Reading goes from one text to the rest of it and takes at least so much ink. -/
structure Leaves (text rest : List Char) (amount : Nat) : Prop where
  suffix : rest <:+ text
  ink : amount + ink rest ≤ ink text

namespace Leaves

variable {text middle rest : List Char} {amount more : Nat}

theorem refl (text : List Char) : Leaves text text 0 :=
  ⟨List.suffix_rfl, by omega⟩

theorem trans (first : Leaves text middle amount) (second : Leaves middle rest more) :
    Leaves text rest (amount + more) :=
  ⟨second.suffix.trans first.suffix, by have := first.ink; have := second.ink; omega⟩

theorem append (w rest : List Char) : Leaves (w ++ rest) rest (Selector.ink w) :=
  ⟨List.suffix_append w rest, Nat.le_of_eq (ink_append w rest).symm⟩

theorem cons {c : Char} (notSpace : c ≠ ' ') (rest : List Char) : Leaves (c :: rest) rest 1 :=
  ⟨List.suffix_cons c rest, Nat.le_of_eq (ink_cons notSpace rest).symm⟩

theorem skipBlanks (text : List Char) : Leaves text (Selector.skipBlanks text) 0 :=
  ⟨skipBlanks_suffix text, by
    rw [Nat.zero_add]
    exact (skipBlanks_suffix text).sublist.countP_le⟩

theorem mono (leaves : Leaves text rest amount) (less : more ≤ amount) : Leaves text rest more :=
  ⟨leaves.suffix, by have := leaves.ink; omega⟩

end Leaves

end Blanks

section Raw

/-- A text in which the parentheses that are open at its start, and all that it opens, are closed;
strings count as a whole. -/
inductive Enclosed : Nat → List Char → Prop where
  | nil : Enclosed 0 []
  | quoted (string : Quoted w) (rest : Enclosed depth v) : Enclosed depth (w ++ v)
  | opens (rest : Enclosed (depth + 1) v) : Enclosed depth ('(' :: v)
  | closes (rest : Enclosed depth v) : Enclosed (depth + 1) (')' :: v)
  | char (double : c ≠ '"') (single : c ≠ '\'') (opens : c ≠ '(') (closes : c ≠ ')')
    (rest : Enclosed depth v) : Enclosed depth (c :: v)

private theorem balanced?_quoted {w : List Char} (string : Quoted w) (fuel depth : Nat)
    (text : List Char) :
    balanced? (fuel + 1) depth (w ++ text) = (balanced? fuel depth text).map (w.length + ·) := by
  have whole := quoted?_append string text
  have cut : (w ++ text).drop w.length = text := List.drop_left
  cases string with
  | double body =>
    rw [List.cons_append] at whole cut ⊢
    simp only [balanced?, whole, bind, Option.bind, cut]
    cases balanced? fuel depth text <;> rfl
  | single body =>
    rw [List.cons_append] at whole cut ⊢
    simp only [balanced?, whole, bind, Option.bind, cut]
    cases balanced? fuel depth text <;> rfl

private theorem Quoted.length_pos {w : List Char} (string : Quoted w) : 0 < w.length := by
  cases string <;> simp

theorem balanced?_append {depth : Nat} {w : List Char} (spelled : Enclosed depth w)
    (rest : List Char) {fuel : Nat} (enough : w.length < fuel) :
    balanced? fuel depth (w ++ ')' :: rest) = some w.length := by
  obtain ⟨fuel, rfl⟩ := Nat.exists_eq_add_one_of_ne_zero (Nat.ne_of_gt (Nat.zero_lt_of_lt enough))
  induction spelled generalizing fuel with
  | nil => rfl
  | quoted string _ ih =>
    have positive := string.length_pos
    rw [List.length_append] at enough ⊢
    obtain ⟨fuel, rfl⟩ := Nat.exists_eq_add_one_of_ne_zero (by omega : fuel ≠ 0)
    rw [List.append_assoc, balanced?_quoted string, ih fuel (by omega)]
    rfl
  | opens _ ih =>
    rw [List.length_cons] at enough
    obtain ⟨fuel, rfl⟩ := Nat.exists_eq_add_one_of_ne_zero (by omega : fuel ≠ 0)
    simp [balanced?, ih fuel (by omega)]
  | closes _ ih =>
    rw [List.length_cons] at enough
    obtain ⟨fuel, rfl⟩ := Nat.exists_eq_add_one_of_ne_zero (by omega : fuel ≠ 0)
    simp [balanced?, ih fuel (by omega)]
  | char double single opens closes _ ih =>
    rw [List.length_cons] at enough
    obtain ⟨fuel, rfl⟩ := Nat.exists_eq_add_one_of_ne_zero (by omega : fuel ≠ 0)
    simp [balanced?, double, single, opens, closes, ih fuel (by omega)]

theorem balanced?_take {fuel depth : Nat} {text : List Char} {count : Nat}
    (found : balanced? fuel depth text = some count) :
    Enclosed depth (text.take count) ∧ count ≤ text.length := by
  fun_induction balanced? fuel depth text generalizing count with
  | case1 => cases found
  | case2 => cases found
  | case3 fuel depth c rest quote ih =>
    cases string : quoted? (c :: rest) with
    | none => simp [string] at found
    | some first =>
      simp only [string, Option.bind_eq_bind, Option.bind_some] at found
      obtain ⟨more, later, same⟩ := Option.bind_eq_some_iff.mp found
      cases same
      obtain ⟨spelled, short⟩ := quoted?_take string
      obtain ⟨spelled', short'⟩ := ih first later
      rw [List.length_drop] at short'
      rw [List.take_add]
      exact ⟨.quoted spelled spelled', by omega⟩
  | case4 =>
    cases found
    exact ⟨.nil, by simp⟩
  | case5 fuel c rest notQuote closes depth ih =>
    obtain ⟨more, later, rfl⟩ := Option.map_eq_some_iff.mp found
    obtain ⟨spelled, short⟩ := ih later
    rw [beq_iff_eq.mp closes]
    exact ⟨.closes spelled, by simpa using short⟩
  | case6 fuel depth c rest notQuote notClose ih =>
    obtain ⟨more, later, rfl⟩ := Option.map_eq_some_iff.mp found
    obtain ⟨spelled, short⟩ := ih later
    simp only [Bool.or_eq_true, beq_iff_eq, not_or] at notQuote notClose
    refine ⟨?_, by simpa using short⟩
    by_cases opens : c = '('
    · subst opens
      exact .opens spelled
    · simp only [beq_iff_eq, opens, if_false] at spelled
      exact .char notQuote.1 notQuote.2 opens notClose spelled

/-- Blanks in front may go. -/
private theorem Enclosed.of_cons_blank {depth : Nat} {c : Char} {w : List Char}
    (spelled : Enclosed depth (c :: w)) (blank : Text.isBlank c = true) : Enclosed depth w := by
  generalize same : c :: w = text at spelled
  cases spelled with
  | nil => cases same
  | quoted string rest =>
    cases string with
    | double => cases same; exact absurd blank (by decide)
    | single => cases same; exact absurd blank (by decide)
  | opens => cases same; exact absurd blank (by decide)
  | closes => cases same; exact absurd blank (by decide)
  | char _ _ _ _ rest => cases same; exact rest

private theorem QuotedBody.last {quote : Char} {w : List Char} (body : QuotedBody quote w) :
    w.getLast? = some quote := by
  induction body with
  | close => rfl
  | escape c rest ih =>
    cases rest <;> simp_all
  | char _ _ _ rest ih =>
    cases rest <;> simp_all

private theorem Quoted.last_not_blank {w : List Char} {c : Char} (string : Quoted (w ++ [c])) :
    Text.isBlank c = false := by
  generalize same : w ++ [c] = text at string
  have last : text.getLast? = some c := by simp [← same]
  cases string with
  | double body =>
    rw [List.getLast?_cons, body.last] at last
    cases last
    decide
  | single body =>
    rw [List.getLast?_cons, body.last] at last
    cases last
    decide

/-- Blanks at the end may go. -/
private theorem Enclosed.of_concat_blank {depth : Nat} {c : Char} {w : List Char}
    (spelled : Enclosed depth (w ++ [c])) (blank : Text.isBlank c = true) : Enclosed depth w := by
  generalize same : w ++ [c] = text at spelled
  induction spelled generalizing w with
  | nil => simp at same
  | @quoted string depth rest isString spelled ih =>
    rcases List.eq_nil_or_concat rest with rfl | ⟨before, d, rfl⟩
    · rw [List.append_nil] at same
      subst same
      rw [isString.last_not_blank] at blank
      cases blank
    · rw [List.concat_eq_append] at same ih
      rw [← List.append_assoc] at same
      obtain ⟨rfl, last⟩ := List.append_inj' same rfl
      cases last
      exact .quoted isString (ih rfl)
  | opens spelled ih =>
    cases w with
    | nil => cases same; exact absurd blank (by decide)
    | cons d w =>
      cases same
      exact .opens (ih rfl)
  | closes spelled ih =>
    cases w with
    | nil => cases same; exact absurd blank (by decide)
    | cons d w =>
      cases same
      exact .closes (ih rfl)
  | char double single opens closes spelled ih =>
    cases w with
    | nil => cases same; exact spelled
    | cons d w =>
      cases same
      exact .char double single opens closes (ih rfl)

private theorem dropWhile_of_unblank {text : List Char} (unblank : Unblank text) :
    text.dropWhile Text.isBlank = text := by
  cases text with
  | nil => rfl
  | cons c rest => exact List.dropWhile_cons_of_neg (by simp [unblank c rfl])

private theorem unblank_dropWhile (text : List Char) : Unblank (text.dropWhile Text.isBlank) := by
  intro c member
  have found := List.head?_dropWhile_not Text.isBlank text
  rw [Option.mem_def.mp member] at found
  exact found

theorem unblank_of_isPrefix {text start : List Char} (unblank : Unblank text)
    (isPrefix : start <+: text) : Unblank start := by
  intro c member
  obtain ⟨rest, rfl⟩ := isPrefix
  cases start with
  | nil => cases member
  | cons d start => exact unblank c member

theorem trim_trim (text : String) : Text.trim (Text.trim text) = Text.trim text := by
  have front : Unblank (Text.dropEndWhile Text.isBlank (text.toList.dropWhile Text.isBlank)) :=
    unblank_of_isPrefix (unblank_dropWhile _) (Text.dropEndWhile_prefix _)
  unfold Text.trim
  rw [String.toList_ofList, dropWhile_of_unblank front]
  unfold Text.dropEndWhile
  rw [List.reverse_reverse, dropWhile_of_unblank (unblank_dropWhile _)]

theorem ink_trim_le (text : String) : ink (Text.trim text).toList ≤ ink text.toList := by
  unfold Text.trim
  rw [String.toList_ofList]
  exact ((Text.dropEndWhile_prefix _).sublist.trans (List.dropWhile_sublist _)).countP_le

theorem Enclosed.trim {text : String} (spelled : Enclosed 0 text.toList) :
    Enclosed 0 (Text.trim text).toList := by
  have front : ∀ w, Enclosed 0 w → Enclosed 0 (w.dropWhile Text.isBlank) := by
    intro w spelled
    induction w with
    | nil => exact spelled
    | cons c w ih =>
      by_cases blank : Text.isBlank c = true
      · rw [List.dropWhile_cons_of_pos blank]
        exact ih (spelled.of_cons_blank blank)
      · rw [List.dropWhile_cons_of_neg blank]
        exact spelled
  have back : ∀ w : List Char, Enclosed 0 w.reverse →
      Enclosed 0 (w.dropWhile Text.isBlank).reverse := by
    intro w spelled
    induction w with
    | nil => exact spelled
    | cons c w ih =>
      by_cases blank : Text.isBlank c = true
      · rw [List.dropWhile_cons_of_pos blank]
        rw [List.reverse_cons] at spelled
        exact ih (spelled.of_concat_blank blank)
      · rw [List.dropWhile_cons_of_neg blank]
        exact spelled
  unfold Text.trim Text.dropEndWhile
  rw [String.toList_ofList]
  apply back
  rw [List.reverse_reverse]
  exact front _ spelled

/-- An argument that is kept as text. -/
def Raw (argument : String) : Prop :=
  Enclosed 0 argument.toList ∧ Text.trim argument = argument

theorem readRawArgument_append {argument : String} (spelled : Raw argument) (kind : PseudoKind)
    (name : String) (rest : List Char) :
    readRawArgument kind name (argument.toList ++ ')' :: rest) =
      some (.pseudo kind name (some argument), rest) := by
  have count : balanced? ((argument.toList ++ ')' :: rest).length + 1) 0
      (argument.toList ++ ')' :: rest) = some argument.toList.length :=
    balanced?_append spelled.1 rest (by rw [List.length_append]; omega)
  have trimmed : Text.trim (String.ofList argument.toList) = argument := by
    rw [String.ofList_toList, spelled.2]
  simp only [readRawArgument, count, bind, Option.bind, List.drop_left, List.take_left, readChar,
    beq_self_eq_true, if_true, trimmed]

theorem readRawArgument_some {kind : PseudoKind} {name : String} {text rest : List Char} {s : Simple}
    (read : readRawArgument kind name text = some (s, rest)) :
    ∃ argument, s = .pseudo kind name (some argument) ∧ Raw argument ∧
      Leaves text rest (ink argument.toList + 1) := by
  unfold readRawArgument at read
  obtain ⟨count, found, read⟩ := Option.bind_eq_some_iff.mp read
  obtain ⟨⟨_, behind⟩, close, read⟩ := Option.bind_eq_some_iff.mp read
  cases read
  obtain ⟨spelled, short⟩ := balanced?_take found
  have closes : text.drop count = ')' :: rest := by
    cases found : text.drop count with
    | nil => simp [found, readChar] at close
    | cons c behind =>
      simp only [found, readChar] at close
      split at close
      · rename_i same
        cases close
        rw [beq_iff_eq.mp same]
      · cases close
  refine ⟨_, rfl, ⟨Enclosed.trim (by rwa [String.toList_ofList]), trim_trim _⟩, ?_⟩
  have whole := Leaves.append (text.take count) (text.drop count)
  rw [List.take_append_drop, closes] at whole
  refine (whole.trans (.cons (by decide) rest)).mono ?_
  have less := ink_trim_le (String.ofList (text.take count))
  rw [String.toList_ofList] at less
  omega

end Raw

end Stylesheet.Selector
