import Stylesheet.Text.Json

/-! Data that is written as JSON is read back. Each kind of value has its own rule, with whatever
may stand behind it left over. -/

namespace Stylesheet.Json

/-- What may stand behind a value inside of other data. -/
def EndsValue (rest : List Char) : Prop :=
  ∀ c ∈ rest.head?, c = ',' ∨ c = ']' ∨ c = '\x7d'

section Strings

theorem number?_pair : ∀ n < 0x20, Text.Hex.number? ('0' :: '0' :: Text.Hex.pair n) = some n := by
  decide

theorem escapedCode?_pair {n : Nat} (control : n < 0x20) (rest : List Char) :
    escapedCode? ('0' :: '0' :: Text.Hex.pair n ++ rest) = some (Char.ofNat n, rest) := by
  have unit : codeUnit? ('0' :: '0' :: Text.Hex.pair n ++ rest) = some (n, rest) :=
    congrArg (Option.map fun unit => (unit, rest)) (number?_pair n control)
  have small : ¬ 0xd800 ≤ n := by omega
  have smaller : ¬ 0xdc00 ≤ n := by omega
  unfold escapedCode?
  rw [unit]
  simp [small, smaller]

/-- Each written character is read back. -/
theorem stringTail?_escape (found : List Char) (fuel : Nat) (c : Char) (rest : List Char) :
    stringTail? found (fuel + 1) (escape c ++ rest) = stringTail? (c :: found) fuel rest := by
  unfold escape
  split
  -- A character without an escape of its own: a control character is written by its code.
  case h_8 _ notQuote notSlash _ _ _ _ _ =>
    split
    · rename_i control
      have code := escapedCode?_pair control rest
      simp only [Char.ofNat_toNat, List.cons_append] at code
      simp [stringTail?, code]
    · rename_i printable
      simp only [List.singleton_append, stringTail?, beq_iff_eq, if_neg notQuote, if_neg notSlash,
        if_neg printable]
  all_goals simp [stringTail?, simpleEscape?]

theorem stringTail?_written (text found rest : List Char) {fuel : Nat}
    (enough : text.length < fuel) :
    stringTail? found fuel (text.flatMap escape ++ '"' :: rest) =
      some (String.ofList (found.reverse ++ text), rest) := by
  induction text generalizing found fuel with
  | nil =>
    obtain ⟨fuel, rfl⟩ := Nat.exists_eq_succ_of_ne_zero (Nat.ne_zero_of_lt enough)
    simp [stringTail?]
  | cons c text ih =>
    obtain ⟨fuel, rfl⟩ := Nat.exists_eq_succ_of_ne_zero (Nat.ne_zero_of_lt enough)
    rw [List.flatMap_cons, List.append_assoc, stringTail?_escape,
      ih (c :: found) (Nat.lt_of_succ_lt_succ enough)]
    simp

theorem length_le_flatMap_escape (text : List Char) :
    text.length ≤ (text.flatMap escape).length := by
  induction text with
  | nil => exact Nat.le_refl 0
  | cons c text ih =>
    have some : 1 ≤ (escape c).length := by
      unfold escape
      split
      case h_8 => split <;> simp
      all_goals simp
    simp only [List.flatMap_cons, List.length_cons, List.length_append]
    omega

theorem toList_quote (text : String) :
    (quote text).toList = '"' :: (text.toList.flatMap escape ++ ['"']) := by
  simp [quote]

/-- A quoted text is read back behind its opening quote. -/
theorem stringTail?_quote (text : String) (rest : List Char) :
    let behind := text.toList.flatMap escape ++ '"' :: rest
    stringTail? [] (behind.length + 1) behind = some (text, rest) := by
  intro behind
  have enough : text.toList.length < behind.length + 1 := by
    have atLeast := length_le_flatMap_escape text.toList
    simp only [behind, List.length_append, List.length_cons]
    omega
  simpa using stringTail?_written text.toList [] rest enough

end Strings

section Numbers

theorem readDigits_toDigits (n : Nat) : readDigits (Nat.toDigits 10 n) = n := by
  have back := @Nat.ofDigitChars_toDigits 10 n (by omega) (by omega)
  unfold Nat.ofDigitChars at back
  unfold readDigits
  simpa [Nat.mul_comm] using back

theorem digitChar_ne_zero : ∀ n < 10, 0 < n → Nat.digitChar n ≠ '0' := by
  decide

/-- A number is written without a zero in front of other digits. -/
theorem head?_toDigits {n : Nat} (positive : 0 < n) : (Nat.toDigits 10 n).head? ≠ some '0' := by
  induction n using Nat.strongRecOn with
  | ind n ih =>
    rcases Nat.lt_or_ge n 10 with small | large
    · rw [Nat.toDigits_of_lt_base small]
      simpa using digitChar_ne_zero n small positive
    · have earlier := ih (n / 10) (by omega) (by omega)
      rw [Nat.toDigits_of_base_le (by omega) large, List.head?_append]
      rwa [Option.or_of_isSome (List.isSome_head?.mpr (Nat.toDigits_ne_nil))]

theorem number?_toDigits (n : Nat) {rest : List Char} (ends : EndsValue rest) :
    number? (Nat.toDigits 10 n ++ rest) = some (.integer n, rest) := by
  have digits : ∀ c ∈ Nat.toDigits 10 n, c.isDigit = true :=
    fun c member => Nat.isDigit_of_mem_toDigits (by omega) (by omega) member
  have stops : ∀ c ∈ rest.head?, c.isDigit = false ∧ ¬ (c = '.' ∨ c = 'e' ∨ c = 'E') := by
    intro c isHead
    rcases ends c isHead with rfl | rfl | rfl
    all_goals decide
  have taken : (Nat.toDigits 10 n ++ rest).takeWhile Char.isDigit = Nat.toDigits 10 n := by
    rw [List.takeWhile_append_of_pos digits]
    cases rest with
    | nil => simp
    | cons c rest => simp [(stops c rfl).1]
  have noSign : ∀ more, Nat.toDigits 10 n ++ rest ≠ '-' :: more := by
    intro more isSigned
    cases written : Nat.toDigits 10 n with
    | nil => exact Nat.toDigits_ne_nil written
    | cons c more =>
      have isDigit := digits c (by simp [written])
      rw [written] at isSigned
      cases isSigned
      cases isDigit
  have noZero : ¬ ((Nat.toDigits 10 n).length > 1 ∧ (Nat.toDigits 10 n).head? = some '0') := by
    rintro ⟨long, zero⟩
    rcases Nat.eq_zero_or_pos n with rfl | positive
    · exact absurd long (by decide)
    · exact head?_toDigits positive zero
  have whole : (rest.head?.any fun c => c == '.' || c == 'e' || c == 'E') = false := by
    cases rest with
    | nil => rfl
    | cons c rest => simpa [and_assoc] using (stops c rfl).2
  unfold number?
  split
  rename_i negative body isSplit
  split at isSplit
  · rename_i isSigned
    exact absurd isSigned (noSign _)
  · cases isSplit
    simp [taken, whole, readDigits_toDigits, noZero]

end Numbers

/-- A text is read as some data, whatever stands behind it. -/
structure Reads (text : List Char) (document : Document) : Prop where
  starts : ∃ c more, text = c :: more ∧ isGap c = false ∧ c ≠ ']'
  reads : ∀ fuel rest, text.length ≤ fuel → EndsValue rest →
    value? fuel (text ++ rest) = some (document, rest)

section Values

theorem dropWhile_isGap {c : Char} (notGap : isGap c = false) (rest : List Char) :
    (c :: rest).dropWhile isGap = c :: rest := by
  simp [notGap]

theorem reads_quote (text : String) : Reads (quote text).toList (.text text) := by
  rw [toList_quote]
  refine ⟨⟨'"', _, rfl, by decide, by decide⟩, fun fuel rest enough ends => ?_⟩
  obtain ⟨fuel, rfl⟩ := Nat.exists_eq_succ_of_ne_zero (Nat.ne_zero_of_lt enough)
  simp only [List.cons_append, List.append_assoc, List.nil_append, value?,
    dropWhile_isGap (by decide : isGap '"' = false)]
  rw [stringTail?_quote text rest]
  rfl

theorem ne_of_isDigit {c d : Char} (isDigit : c.isDigit = true) (notDigit : d.isDigit = false) :
    c ≠ d := by
  rintro rfl
  rw [isDigit] at notDigit
  cases notDigit

theorem isGap_of_isDigit {c : Char} (isDigit : c.isDigit = true) : isGap c = false := by
  have other (d : Char) (notDigit : d.isDigit = false) : c ≠ d := ne_of_isDigit isDigit notDigit
  simp [isGap, other ' ' rfl, other '\n' rfl, other '\t' rfl, other '\r' rfl]

theorem value?_digit {c : Char} (isDigit : c.isDigit = true) (fuel : Nat) (rest : List Char) :
    value? (fuel + 1) (c :: rest) = number? (c :: rest) := by
  have other (d : Char) (notDigit : d.isDigit = false) : c ≠ d := ne_of_isDigit isDigit notDigit
  rw [value?, dropWhile_isGap (isGap_of_isDigit isDigit)]
  split
  · rename_i starts
    exact absurd (List.cons.inj starts).1 (other 'n' rfl)
  · rename_i starts
    exact absurd (List.cons.inj starts).1 (other 't' rfl)
  · rename_i starts
    exact absurd (List.cons.inj starts).1 (other 'f' rfl)
  · rename_i starts
    exact absurd (List.cons.inj starts).1 (other '"' rfl)
  · rename_i starts
    exact absurd (List.cons.inj starts).1 (other '[' rfl)
  · rename_i starts
    exact absurd (List.cons.inj starts).1 (other '\x7b' rfl)
  · rfl

theorem reads_toDigits (n : Nat) : Reads (Nat.toDigits 10 n) (.integer n) := by
  cases written : Nat.toDigits 10 n with
  | nil => exact absurd written Nat.toDigits_ne_nil
  | cons c more =>
    have isDigit : c.isDigit = true :=
      @Nat.isDigit_of_mem_toDigits 10 n c (by omega) (by omega) (by simp [written])
    refine ⟨⟨c, more, rfl, isGap_of_isDigit isDigit, ne_of_isDigit isDigit rfl⟩, ?_⟩
    intro fuel rest enough ends
    obtain ⟨fuel, rfl⟩ := Nat.exists_eq_succ_of_ne_zero (Nat.ne_zero_of_lt enough)
    rw [List.cons_append, value?_digit isDigit, ← List.cons_append, ← written]
    exact number?_toDigits n ends

/-- Items with commas between them are read up to the bracket behind them. -/
theorem items?_reads {items : List (List Char × Document)} (nonempty : items ≠ [])
    (all : ∀ item ∈ items, Reads item.1 item.2) (found : List Document) {fuel : Nat}
    (rest : List Char) (enough : ([','].intercalate (items.map Prod.fst)).length < fuel) :
    items? found fuel ([','].intercalate (items.map Prod.fst) ++ ']' :: rest) =
      some (found.reverse ++ items.map Prod.snd, rest) := by
  induction items generalizing found fuel with
  | nil => exact absurd rfl nonempty
  | cons item items ih =>
    obtain ⟨fuel, rfl⟩ := Nat.exists_eq_succ_of_ne_zero (Nat.ne_zero_of_lt enough)
    have head := (all item List.mem_cons_self).reads fuel
    cases items with
    | nil =>
      have read := head (']' :: rest) (by simpa using Nat.le_of_lt_succ enough) (by simp [EndsValue])
      simp [items?, read, isGap]
    | cons next items =>
      simp only [List.map_cons, List.intercalate_cons_cons, List.length_append, List.length_cons,
        List.append_assoc, List.singleton_append] at enough ih ⊢
      have read := head (',' :: ([','].intercalate (next.1 :: items.map Prod.fst) ++ ']' :: rest))
        (by omega) (by simp [EndsValue])
      have others := @ih (by simp) (fun other member => all other (List.mem_cons_of_mem item member))
        (item.2 :: found) fuel (by omega)
      simp [items?, read, isGap, others]

theorem reads_list {items : List (List Char × Document)}
    (all : ∀ item ∈ items, Reads item.1 item.2) :
    Reads ('[' :: ([','].intercalate (items.map Prod.fst) ++ [']']))
      (.list (items.map Prod.snd)) := by
  refine ⟨⟨'[', _, rfl, by decide, by decide⟩, fun fuel rest enough ends => ?_⟩
  obtain ⟨fuel, rfl⟩ := Nat.exists_eq_succ_of_ne_zero (Nat.ne_zero_of_lt enough)
  simp only [List.length_cons, List.length_append] at enough
  simp only [List.cons_append, List.append_assoc, List.nil_append, value?,
    dropWhile_isGap (by decide : isGap '[' = false)]
  cases items with
  | nil => simp [isGap]
  | cons item items =>
    obtain ⟨c, more, starts, notGap, notEnd⟩ := (all item List.mem_cons_self).starts
    have read := @items?_reads (item :: items) (by simp) all [] fuel rest (by omega)
    simp only [List.map_cons, starts, List.intercalate_cons_cons_left, List.cons_append] at read ⊢
    rw [dropWhile_isGap notGap]
    split
    · rename_i closed
      exact absurd (List.cons.inj closed).1 notEnd
    · rw [read]
      rfl

/-- A key and the text of its value. -/
def entryText (entry : String × List Char × Document) : List Char :=
  (quote entry.1).toList ++ ':' :: entry.2.1

def entryData (entry : String × List Char × Document) : String × Document :=
  (entry.1, entry.2.2)

theorem entryText_eq (entry : String × List Char × Document) :
    entryText entry = '"' :: (entry.1.toList.flatMap escape ++ '"' :: ':' :: entry.2.1) := by
  simp [entryText, toList_quote]

/-- What comes of the entries so far and the text behind them. -/
def entriesBehind? (found : List (String × Document)) (fuel : Nat) (rest : List Char) :
    Option (List (String × Document) × List Char) :=
  match rest.dropWhile isGap with
  | ',' :: rest => entries? found fuel rest
  | '\x7d' :: rest => some (found.reverse, rest)
  | _ => none

theorem entries?_entry {entry : String × List Char × Document}
    (read : Reads entry.2.1 entry.2.2) (found : List (String × Document)) {fuel : Nat}
    {rest : List Char} (enough : (entryText entry).length ≤ fuel) (ends : EndsValue rest) :
    entries? found (fuel + 1) (entryText entry ++ rest) =
      entriesBehind? (entryData entry :: found) fuel rest := by
  have value := read.reads fuel rest (by simp [entryText] at enough; omega) ends
  have key := stringTail?_quote entry.1 (':' :: (entry.2.1 ++ rest))
  simp only [entryText_eq, List.cons_append, List.append_assoc, entries?,
    dropWhile_isGap (by decide : isGap '"' = false)]
  rw [key]
  simp only [Option.bind_eq_bind, Option.bind_some, value, entryData,
    dropWhile_isGap (by decide : isGap ':' = false)]
  rfl

/-- Entries with commas between them are read up to the brace behind them. -/
theorem entries?_reads {entries : List (String × List Char × Document)} (nonempty : entries ≠ [])
    (all : ∀ entry ∈ entries, Reads entry.2.1 entry.2.2) (found : List (String × Document))
    {fuel : Nat} (rest : List Char)
    (enough : ([','].intercalate (entries.map entryText)).length < fuel) :
    entries? found fuel ([','].intercalate (entries.map entryText) ++ '\x7d' :: rest) =
      some (found.reverse ++ entries.map entryData, rest) := by
  induction entries generalizing found fuel with
  | nil => exact absurd rfl nonempty
  | cons entry entries ih =>
    obtain ⟨fuel, rfl⟩ := Nat.exists_eq_succ_of_ne_zero (Nat.ne_zero_of_lt enough)
    have read := all entry List.mem_cons_self
    cases entries with
    | nil =>
      simp only [List.map_cons, List.map_nil, List.intercalate_singleton] at enough ⊢
      rw [entries?_entry read found (Nat.le_of_lt_succ enough) (by simp [EndsValue])]
      simp [entriesBehind?, isGap]
    | cons next entries =>
      simp only [List.map_cons, List.intercalate_cons_cons, List.length_append, List.length_cons,
        List.append_assoc, List.singleton_append] at enough ih ⊢
      have others := @ih (by simp) (fun other member => all other (List.mem_cons_of_mem entry member))
        (entryData entry :: found) fuel (by omega)
      rw [entries?_entry read found (by omega) (by simp [EndsValue])]
      simp [entriesBehind?, isGap, others]

theorem reads_table {entries : List (String × List Char × Document)} (nonempty : entries ≠ [])
    (all : ∀ entry ∈ entries, Reads entry.2.1 entry.2.2) :
    Reads ('\x7b' :: ([','].intercalate (entries.map entryText) ++ ['\x7d']))
      (.table (entries.map entryData)) := by
  refine ⟨⟨'\x7b', _, rfl, by decide, by decide⟩, fun fuel rest enough ends => ?_⟩
  obtain ⟨fuel, rfl⟩ := Nat.exists_eq_succ_of_ne_zero (Nat.ne_zero_of_lt enough)
  simp only [List.length_cons, List.length_append] at enough
  simp only [List.cons_append, List.append_assoc, List.nil_append, value?,
    dropWhile_isGap (by decide : isGap '\x7b' = false)]
  have read := @entries?_reads entries nonempty all [] fuel rest (by omega)
  cases entries with
  | nil => exact absurd rfl nonempty
  | cons entry entries =>
    simp only [List.map_cons, entryText_eq, List.intercalate_cons_cons_left, List.cons_append]
      at read ⊢
    rw [dropWhile_isGap (by decide : isGap '"' = false)]
    simp [read]

theorem read?_of_reads {text : String} {document : Document} (reads : Reads text.toList document) :
    read? text = some document := by
  have value := reads.reads (2 * text.length + 2) [] (by rw [String.length_toList]; omega)
    (by simp [EndsValue])
  rw [List.append_nil] at value
  unfold read?
  rw [value]
  rfl

end Values

end Stylesheet.Json
