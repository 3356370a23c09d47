import Stylesheet.Proofs.Source.Spelling
import Stylesheet.Selector.Parser
import Stylesheet.Selector.Printer

/-! How the parts of a compound selector are spelled: names with namespaces, strings and percentages.
What is read is spelled so, and what is spelled so is read back. -/

namespace Stylesheet.Selector

open Scan (nameTail Ident Name)

section Names

variable {text rest : List Char} {name : String}

theorem slice_append (w : String) (rest : List Char) :
    slice w.toList.length (w.toList ++ rest) = (w, rest) := by
  simp [slice]

theorem readIdent_append (spelled : Ident name.toList) (stop : nameTail rest = 0) :
    readIdent (name.toList ++ rest) = some (name, rest) := by
  rw [readIdent, Scan.ident?_append spelled stop, Option.map_some, slice_append]

theorem readIdent_some (read : readIdent text = some (name, rest)) :
    text = name.toList ++ rest ∧ Ident name.toList := by
  obtain ⟨count, found, cut⟩ := Option.map_eq_some_iff.mp read
  cases cut
  simp only [String.toList_ofList, List.take_append_drop, true_and]
  exact (Scan.ident?_take found).1

theorem readName_append (spelled : Name name.toList) (stop : nameTail rest = 0) :
    readName (name.toList ++ rest) = some (name, rest) := by
  rw [readName, Scan.name?_append spelled stop, Option.map_some, slice_append]

theorem readName_some (read : readName text = some (name, rest)) :
    text = name.toList ++ rest ∧ Name name.toList := by
  obtain ⟨count, found, cut⟩ := Option.map_eq_some_iff.mp read
  cases cut
  simp only [String.toList_ofList, List.take_append_drop, true_and]
  exact (Scan.name?_take found).1

/-- The characters an identifier does not begin with are many; these are those that matter. -/
theorem readIdent_none {c : Char} (plain : c ≠ '\\') (hyphen : c ≠ '-')
    (start : Scan.isNameStart c = false) (rest : List Char) : readIdent (c :: rest) = none := by
  rw [readIdent, Scan.ident?.eq_2 _ (by simp [hyphen]),
    Scan.identBody?.eq_2 _ _ (fun _ _ same => absurd same plain), start]
  rfl

/-- An identifier or `*`. -/
def ElementName (name : String) : Prop :=
  Ident name.toList ∨ name = "*"

theorem readElementName_append (spelled : ElementName name) (stop : nameTail rest = 0) :
    readElementName (name.toList ++ rest) = some (name, rest) := by
  rcases spelled with ident | rfl
  · unfold readElementName
    rw [readIdent_append ident stop]
  · have star : readIdent ('*' :: rest) = none := readIdent_none (by decide) (by decide) rfl rest
    have same : "*".toList ++ rest = '*' :: rest := rfl
    unfold readElementName
    rw [same, star]
    rfl

theorem readElementName_some (read : readElementName text = some (name, rest)) :
    text = name.toList ++ rest ∧ ElementName name := by
  unfold readElementName at read
  split at read
  · rename_i found same
    cases read
    obtain ⟨split, ident⟩ := readIdent_some same
    exact ⟨split, .inl ident⟩
  · cases read
    exact ⟨rfl, .inr rfl⟩
  · cases read

end Names

section Strings

/-- A string behind its opening quote. -/
inductive QuotedBody (quote : Char) : List Char → Prop where
  | close : QuotedBody quote [quote]
  | escape (c : Char) (rest : QuotedBody quote w) : QuotedBody quote ('\\' :: c :: w)
  | char (other : c ≠ quote) (plain : c ≠ '\\') (sameLine : c ≠ '\n') (rest : QuotedBody quote w) :
    QuotedBody quote (c :: w)

inductive Quoted : List Char → Prop where
  | double (body : QuotedBody '"' w) : Quoted ('"' :: w)
  | single (body : QuotedBody '\'' w) : Quoted ('\'' :: w)

theorem quotedBody?_append {quote : Char} (plain : quote ≠ '\\') {w : List Char}
    (spelled : QuotedBody quote w) (rest : List Char) :
    quotedBody? quote (w ++ rest) = some w.length := by
  induction spelled with
  | close =>
    rw [List.singleton_append, quotedBody?.eq_2 _ _ _ (fun _ _ same => absurd same plain)]
    simp
  | escape c _ ih =>
    rw [List.cons_append, List.cons_append, quotedBody?, ih]
    rfl
  | char other plain sameLine _ ih =>
    rw [List.cons_append, quotedBody?.eq_2 _ _ _ (fun _ _ same => absurd same plain), ih]
    simp [other, plain, sameLine]

theorem quotedBody?_take {quote : Char} {text : List Char} {count : Nat}
    (found : quotedBody? quote text = some count) :
    QuotedBody quote (text.take count) ∧ count ≤ text.length := by
  fun_induction quotedBody? quote text generalizing count with
  | case1 c rest ih =>
    obtain ⟨inner, body, rfl⟩ := Option.map_eq_some_iff.mp found
    have spelled := ih body
    exact ⟨.escape c spelled.1, by simpa using spelled.2⟩
  | case2 c rest plain closes =>
    cases found
    rw [beq_iff_eq.mp closes]
    exact ⟨.close, by simp⟩
  | case3 => cases found
  | case4 c rest plain other stays ih =>
    obtain ⟨inner, body, rfl⟩ := Option.map_eq_some_iff.mp found
    have spelled := ih body
    simp only [Bool.or_eq_true, beq_iff_eq, not_or] at stays other
    exact ⟨.char other stays.1 stays.2 spelled.1, by simpa using spelled.2⟩
  | case5 => cases found

theorem quoted?_append {w : List Char} (spelled : Quoted w) (rest : List Char) :
    quoted? (w ++ rest) = some w.length := by
  cases spelled with
  | double body => simp [quoted?, quotedBody?_append (by decide) body rest]
  | single body => simp [quoted?, quotedBody?_append (by decide) body rest]

theorem quoted?_take {text : List Char} {count : Nat} (found : quoted? text = some count) :
    Quoted (text.take count) ∧ count ≤ text.length := by
  cases text with
  | nil => cases found
  | cons c rest =>
    rw [quoted?] at found
    split at found
    · rename_i quote
      obtain ⟨inner, body, rfl⟩ := Option.map_eq_some_iff.mp found
      have spelled := quotedBody?_take body
      refine ⟨?_, by simpa using spelled.2⟩
      simp only [Bool.or_eq_true, beq_iff_eq] at quote
      rcases quote with rfl | rfl
      · exact .double spelled.1
      · exact .single spelled.1
    · cases found

end Strings

section Qualified

/-- A namespace: nothing in front of the bar, an identifier or `*`. -/
def Namespace (ns : Option String) : Prop :=
  ∀ n ∈ ns, n = "" ∨ ElementName n

/-- An element or `*` in a namespace. -/
def Qualified : Simple → Prop
  | .element name ns => Ident name.toList ∧ Namespace ns
  | .universal ns => Namespace ns
  | _ => False

/-- No name goes on here, and no bar that would end a namespace. -/
structure QualifiedStop (rest : List Char) : Prop where
  name : nameTail rest = 0
  bar : ∀ more, rest = '|' :: more → ∃ value, more = '=' :: value

private theorem ident_ne_star {name : String} (ident : Ident name.toList) : (name == "*") = false := by
  rw [beq_eq_false_iff_ne]
  rintro rfl
  cases ident with
  | plain body => cases body with
    | start isStart _ => exact absurd isStart (by decide)

private theorem elementName_ne_equals {name : String} (spelled : ElementName name)
    (rest : List Char) : ∀ more, name.toList ++ rest ≠ '=' :: more := by
  intro more same
  rcases spelled with ident | rfl
  · generalize name.toList = w at ident same
    cases ident with
    | plain body => cases body with
      | start isStart _ =>
        cases same
        exact absurd isStart (by decide)
      | escape c _ => cases same
    | hyphen body => cases same
  · cases same

private theorem named_spec {name : String} (spelled : ElementName name) (ns : Option String)
    (outer : Namespace ns) (style : Style) :
    Qualified (named name ns) ∧ (named name ns).toCss style = qualified ns name := by
  rcases spelled with ident | rfl
  · rw [named, ident_ne_star ident]
    exact ⟨⟨ident, outer⟩, by simp [Simple.toCss]⟩
  · exact ⟨outer, by simp [named, Simple.toCss]⟩

private theorem readQualifiedFrom_some {first : Option String} {text rest : List Char} {s : Simple}
    (style : Style) (outer : ∀ name ∈ first, ElementName name)
    (read : readQualifiedFrom first text = some (s, rest)) :
    (first.getD "").toList ++ text = (s.toCss style).toList ++ rest ∧ Qualified s := by
  have alone : ∀ {text}, (first.map fun name => (named name none, text)) = some (s, rest) →
      (first.getD "").toList ++ text = (s.toCss style).toList ++ rest ∧ Qualified s := by
    intro text found
    obtain ⟨name, rfl, same⟩ := Option.map_eq_some_iff.mp found
    cases same
    have plain := named_spec (outer name rfl) none (by simp [Namespace]) style
    exact ⟨by rw [plain.2]; rfl, plain.1⟩
  fun_cases readQualifiedFrom first text with
  | case1 => exact alone read
  | case2 behind notOperator =>
    rw [readQualifiedFrom.eq_2 _ _ notOperator] at read
    obtain ⟨⟨name, behind'⟩, inner, same⟩ := Option.map_eq_some_iff.mp read
    cases same
    obtain ⟨rfl, spelled⟩ := readElementName_some inner
    have outside : Namespace (some (first.getD "")) := by
      intro n member
      cases member
      cases first with
      | none => exact .inl rfl
      | some name => exact .inr (outer name rfl)
    have whole := named_spec spelled _ outside style
    exact ⟨by simp [whole.2, qualified], whole.1⟩
  | case3 _ notOperator notBar =>
    rw [readQualifiedFrom.eq_3 _ _ notOperator notBar] at read
    exact alone read

theorem readQualified_some {text rest : List Char} {s : Simple} (style : Style)
    (read : readQualified text = some (s, rest)) :
    text = (s.toCss style).toList ++ rest ∧ Qualified s := by
  unfold readQualified at read
  split at read
  · rename_i first behind found
    obtain ⟨rfl, spelled⟩ := readElementName_some found
    exact readQualifiedFrom_some style (fun name member => Option.mem_some.mp member ▸ spelled) read
  · exact readQualifiedFrom_some style (by simp) read

private theorem readQualifiedFrom_bar (first : Option String) {name : String} {rest : List Char}
    (spelled : ElementName name) (stop : nameTail rest = 0) :
    readQualifiedFrom first ('|' :: (name.toList ++ rest)) =
      some (named name (some (first.getD "")), rest) := by
  rw [readQualifiedFrom.eq_2 _ _ (elementName_ne_equals spelled rest),
    readElementName_append spelled stop]
  rfl

private theorem readQualifiedFrom_stop (name : String) {rest : List Char}
    (stop : QualifiedStop rest) :
    readQualifiedFrom (some name) rest = some (named name none, rest) := by
  fun_cases readQualifiedFrom (some name) rest with
  | case1 => rfl
  | case2 behind notOperator =>
    obtain ⟨value, same⟩ := stop.bar behind rfl
    exact absurd same (notOperator value)
  | case3 => rfl

/-- An element name in a namespace is read back. -/
theorem readQualified_named {name : String} {ns : Option String} {rest : List Char}
    (spelled : ElementName name) (outer : Namespace ns) (stop : QualifiedStop rest) :
    readQualified ((qualified ns name).toList ++ rest) = some (named name ns, rest) := by
  cases ns with
  | none =>
    unfold readQualified
    rw [qualified, readElementName_append spelled stop.name]
    exact readQualifiedFrom_stop name stop
  | some n =>
    have text : (qualified (some n) name).toList ++ rest =
        n.toList ++ '|' :: (name.toList ++ rest) := by simp [qualified]
    have bar : nameTail ('|' :: (name.toList ++ rest)) = 0 :=
      Scan.nameTail_stop (by decide) (by decide) _
    unfold readQualified
    rw [text]
    rcases outer n rfl with rfl | spelled'
    · have nothing : readElementName ('|' :: (name.toList ++ rest)) = none := by
        unfold readElementName
        rw [readIdent_none (by decide) (by decide) rfl]
        rfl
      rw [show "".toList ++ '|' :: (name.toList ++ rest) = '|' :: (name.toList ++ rest) from rfl,
        nothing]
      exact readQualifiedFrom_bar none spelled stop.name
    · rw [readElementName_append spelled' bar]
      exact readQualifiedFrom_bar (some n) spelled stop.name

theorem readQualified_append {s : Simple} (style : Style) (spelled : Qualified s)
    {rest : List Char} (stop : QualifiedStop rest) :
    readQualified ((s.toCss style).toList ++ rest) = some (s, rest) := by
  cases s with
  | element name ns =>
    rw [Simple.toCss, readQualified_named (.inl spelled.1) spelled.2 stop, named,
      ident_ne_star spelled.1]
    rfl
  | universal ns =>
    rw [Simple.toCss, readQualified_named (.inr rfl) spelled stop]
    rfl
  | _ => exact absurd spelled id

end Qualified

section Percentage

def Digits (w : List Char) : Prop :=
  w ≠ [] ∧ ∀ c ∈ w, c.isDigit = true

/-- Nothing, or a point and digits. -/
inductive Fraction : List Char → Prop where
  | none : Fraction []
  | point (digits : Digits w) : Fraction ('.' :: w)

inductive Percentage : List Char → Prop where
  | spelled (whole : Digits w) (fraction : Fraction v) : Percentage (w ++ (v ++ ['%']))

private theorem run_append {w : List Char} (digits : ∀ c ∈ w, c.isDigit = true) {c : Char}
    (stop : c.isDigit = false) (rest : List Char) :
    Scan.run Char.isDigit (w ++ c :: rest) = w.length := by
  rw [Scan.run, List.takeWhile_append_of_pos digits, List.takeWhile_cons_of_neg (by simp [stop]),
    List.append_nil]

private theorem run_split (text : List Char) :
    ∃ w rest, text = w ++ rest ∧ Scan.run Char.isDigit text = w.length ∧
      ∀ c ∈ w, c.isDigit = true :=
  ⟨text.takeWhile Char.isDigit, text.dropWhile Char.isDigit,
    List.takeWhile_append_dropWhile.symm, rfl,
    fun _ member => List.all_eq_true.mp List.all_takeWhile _ member⟩

private theorem fractionLength_append {v : List Char} (spelled : Fraction v) (rest : List Char) :
    fractionLength (v ++ '%' :: rest) = v.length := by
  cases spelled with
  | none => rfl
  | point digits =>
    rename_i w
    have positive : w.length ≠ 0 := by simpa using digits.1
    rw [List.cons_append, fractionLength, run_append digits.2 rfl]
    split
    · omega
    · rfl

private theorem fractionLength_split (text : List Char) :
    ∃ v rest, text = v ++ rest ∧ fractionLength text = v.length ∧ Fraction v := by
  fun_cases fractionLength text with
  | case1 rest none => exact ⟨[], '.' :: rest, rfl, rfl, .none⟩
  | case2 rest positive =>
    obtain ⟨w, behind, rfl, length, digits⟩ := run_split rest
    refine ⟨'.' :: w, behind, rfl, by rw [length]; rfl, .point ⟨?_, digits⟩⟩
    rintro rfl
    exact positive length
  | case3 => exact ⟨[], text, rfl, rfl, .none⟩

private theorem readPercentage_of_split {w v rest : List Char}
    (run : Scan.run Char.isDigit (w ++ (v ++ rest)) = w.length) (nonempty : w ≠ [])
    (length : fractionLength (v ++ rest) = v.length) :
    readPercentage (w ++ (v ++ rest)) =
      if rest.head? = some '%' then
        some (.element (String.ofList (w ++ (v ++ ['%']))) none, rest.drop 1)
      else none := by
  have positive : w.length ≠ 0 := by simpa using nonempty
  have cut : (w ++ (v ++ rest)).drop (w.length + v.length) = rest := by
    rw [← List.append_assoc]
    exact List.drop_left' (by simp)
  have kept : (w ++ (v ++ rest)).take (w.length + v.length + 1) = w ++ (v ++ rest.take 1) := by
    rw [← List.append_assoc, ← List.append_assoc, List.take_append, List.take_of_length_le (by simp)]
    simp
  rw [readPercentage, run, if_neg positive, List.drop_left, length]
  simp only [cut, kept]
  cases rest with
  | nil => rfl
  | cons c rest =>
    by_cases percent : c = '%'
    · subst percent
      rfl
    · simp [percent]

theorem readPercentage_append {w : List Char} (spelled : Percentage w) (rest : List Char) :
    readPercentage (w ++ rest) = some (.element (String.ofList w) none, rest) := by
  cases spelled with
  | spelled whole fraction =>
    rename_i w v
    have run : Scan.run Char.isDigit (w ++ (v ++ '%' :: rest)) = w.length := by
      cases fraction with
      | none => exact run_append whole.2 rfl _
      | point => exact run_append whole.2 rfl _
    have text : w ++ (v ++ ['%']) ++ rest = w ++ (v ++ '%' :: rest) := by simp
    rw [text, readPercentage_of_split run whole.1 (fractionLength_append fraction rest)]
    rfl

theorem readPercentage_some {text rest : List Char} {s : Simple}
    (read : readPercentage text = some (s, rest)) :
    ∃ w, s = .element (String.ofList w) none ∧ text = w ++ rest ∧ Percentage w := by
  obtain ⟨w, behind, rfl, run, digits⟩ := run_split text
  obtain ⟨v, rest', rfl, length, fraction⟩ := fractionLength_split behind
  have nonempty : w ≠ [] := by
    rintro rfl
    rw [readPercentage, run] at read
    cases read
  rw [readPercentage_of_split run nonempty length] at read
  cases rest' with
  | nil => cases read
  | cons c behind =>
    split at read
    · rename_i percent
      cases percent
      cases read
      exact ⟨_, rfl, by simp, .spelled ⟨nonempty, digits⟩ fraction⟩
    · cases read

theorem Percentage.exists_cons {w : List Char} (spelled : Percentage w) :
    ∃ c rest, w = c :: rest ∧ c.isDigit = true := by
  cases spelled with
  | spelled whole fraction =>
    obtain ⟨c, w, rfl⟩ := List.exists_cons_of_ne_nil whole.1
    exact ⟨c, _, rfl, whole.2 c (List.mem_cons_self ..)⟩

theorem readPercentage_none {c : Char} (notDigit : c.isDigit = false) (rest : List Char) :
    readPercentage (c :: rest) = none := by
  simp [readPercentage, Scan.run, notDigit]

end Percentage

end Stylesheet.Selector
