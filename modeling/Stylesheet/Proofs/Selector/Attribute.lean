import Stylesheet.Proofs.Selector.Argument

/-! How attribute selectors are spelled. Blanks are read at four places inside the brackets and
printed at none. -/

namespace Stylesheet.Selector

open Scan (nameTail Ident)

section Attribute

def operators : List String :=
  ["=", "~=", "|=", "^=", "$=", "*="]

theorem readAttributeOperator_append {operator : String} (known : operator ∈ operators)
    (rest : List Char) :
    readAttributeOperator (operator.toList ++ rest) = some (operator, rest) := by
  simp only [operators, List.mem_cons, List.not_mem_nil, or_false] at known
  rcases known with rfl | rfl | rfl | rfl | rfl | rfl <;> rfl

theorem readAttributeOperator_some {text rest : List Char} {operator : String}
    (read : readAttributeOperator text = some (operator, rest)) :
    text = operator.toList ++ rest ∧ operator ∈ operators := by
  fun_cases readAttributeOperator text with
  | case1 =>
    cases read
    exact ⟨rfl, by decide⟩
  | case2 c behind other known =>
    rw [readAttributeOperator.eq_2 _ _ other, if_pos known] at read
    cases read
    simp only [Bool.or_eq_true, beq_iff_eq] at known
    refine ⟨by simp, ?_⟩
    rcases known with (((rfl | rfl) | rfl) | rfl) | rfl <;> decide
  | case3 c behind other unknown =>
    rw [readAttributeOperator.eq_2 _ _ other, if_neg unknown] at read
    cases read
  | case4 _ first second =>
    rw [readAttributeOperator.eq_3 _ first second] at read
    cases read

/-- A string or an identifier, behind the blanks in front of it. -/
def AttributeValue (value : String) : Prop :=
  (Quoted value.toList ∨ Ident value.toList) ∧ Unblank value.toList

/-- The test of an attribute: none, or an operator and a value. -/
inductive Test : Option (String × String) → Prop where
  | none : Test none
  | some (known : operator ∈ operators) (spelled : AttributeValue value) :
    Test (some (operator, value))

theorem readAttributeValue_append {value : String} (spelled : AttributeValue value)
    {rest : List Char} (stop : nameTail rest = 0) :
    readAttributeValue (value.toList ++ rest) = some (value, rest) := by
  unfold readAttributeValue
  rcases spelled.1 with string | ident
  · rw [quoted?_append string]
    exact congrArg some (slice_append value rest)
  · have plain : quoted? (value.toList ++ rest) = none := by
      obtain ⟨c, more, same, start⟩ := ident.exists_cons
      rw [same, List.cons_append, quoted?, if_neg]
      simp [start.double, start.single]
    rw [plain, readIdent_append ident stop]

theorem readAttributeValue_some {text rest : List Char} {value : String} (unblank : Unblank text)
    (read : readAttributeValue text = some (value, rest)) :
    text = value.toList ++ rest ∧ AttributeValue value := by
  have spelled : text = value.toList ++ rest ∧ (Quoted value.toList ∨ Ident value.toList) := by
    unfold readAttributeValue at read
    split at read
    · rename_i count found
      cases read
      simp only [String.toList_ofList, List.take_append_drop, true_and]
      exact .inl (quoted?_take found).1
    · obtain ⟨same, ident⟩ := readIdent_some read
      exact ⟨same, .inr ident⟩
  refine ⟨spelled.1, spelled.2, unblank_of_isPrefix unblank ?_⟩
  exact ⟨rest, spelled.1.symm⟩

/-- The first character of an element name. -/
theorem Qualified.exists_cons {s : Simple} (spelled : Qualified s) (style : Style) :
    ∃ c rest, (s.toCss style).toList = c :: rest ∧ Scan.IdentStart c := by
  have outer : ∀ n name, (n = "" ∨ ElementName n) →
      ∃ c rest, (qualified (some n) name).toList = c :: rest ∧ Scan.IdentStart c := by
    intro n name spelled
    rcases spelled with rfl | ident | rfl
    · exact ⟨'|', name.toList, by simp [qualified], by constructor <;> decide⟩
    · obtain ⟨c, rest, same, start⟩ := ident.exists_cons
      exact ⟨c, rest ++ '|' :: name.toList, by simp [qualified, same], start⟩
    · exact ⟨'*', '|' :: name.toList, by simp [qualified], by constructor <;> decide⟩
  cases s with
  | element name ns =>
    rw [Simple.toCss]
    cases ns with
    | none => exact spelled.1.exists_cons
    | some n => exact outer n name (spelled.2 n rfl)
  | universal ns =>
    rw [Simple.toCss]
    cases ns with
    | none => exact ⟨'*', [], by simp [qualified], by constructor <;> decide⟩
    | some n => exact outer n "*" (spelled n rfl)
  | _ => exact absurd spelled id

/-- A test ends the name in front of it and the blanks there. -/
private theorem test_stop {test : Option (String × String)} (spelled : Test test)
    (rest : List Char) :
    ∃ c more, (testText (test.map (·.1)) (test.map (·.2))).toList ++ ']' :: rest = c :: more ∧
      QualifiedStop (c :: more) ∧ skipBlanks (c :: more) = c :: more := by
  cases spelled with
  | none =>
    exact ⟨']', rest, rfl, ⟨Scan.nameTail_stop (by decide) (by decide) _, fun _ same => nomatch same⟩,
      skipBlanks_of_head (by decide) (by decide) _⟩
  | some known spelled =>
    simp only [operators, List.mem_cons, List.not_mem_nil, or_false] at known
    rcases known with rfl | rfl | rfl | rfl | rfl | rfl
    all_goals
      simp only [Option.map_some, testText, String.toList_append, List.append_assoc]
      refine ⟨_, _, rfl, ⟨Scan.nameTail_stop (by decide) (by decide) _, ?_⟩,
        skipBlanks_of_head (by decide) (by decide) _⟩
      intro more same
      cases same
    exact ⟨_, rfl⟩

theorem readChar_self (c : Char) (rest : List Char) :
    readChar c (c :: rest) = some ((), rest) := by
  simp [readChar]

theorem readChar_some {c : Char} {text rest : List Char} {u : Unit}
    (read : readChar c text = some (u, rest)) : text = c :: rest := by
  fun_cases readChar c text with
  | case1 x behind same =>
    rw [readChar, if_pos same] at read
    cases read
    rw [beq_iff_eq.mp same]
  | case2 x behind other =>
    rw [readChar, if_neg other] at read
    cases read
  | case3 => cases read

private theorem skipBlanks_value {value : String} (spelled : AttributeValue value)
    (rest : List Char) : skipBlanks (value.toList ++ rest) = value.toList ++ rest := by
  obtain ⟨c, more, same, slash⟩ : ∃ c more, value.toList = c :: more ∧ c ≠ '/' := by
    rcases spelled.1 with string | ident
    · generalize value.toList = w at string
      cases string with
      | double => exact ⟨_, _, rfl, by decide⟩
      | single => exact ⟨_, _, rfl, by decide⟩
    · obtain ⟨c, more, same, start⟩ := ident.exists_cons
      exact ⟨c, more, same, start.slash⟩
  have unblank := spelled.2
  rw [same] at unblank ⊢
  exact skipBlanks_of_head (unblank c rfl) slash _

private theorem readTest_append {test : Option (String × String)} (spelled : Test test)
    (rest : List Char) :
    readTest ((testText (test.map (·.1)) (test.map (·.2))).toList ++ ']' :: rest) =
      some (test, rest) := by
  unfold readTest
  cases spelled with
  | none =>
    have noOperator : readAttributeOperator (']' :: rest) = none := by
      cases read : readAttributeOperator (']' :: rest) with
      | none => rfl
      | some pair =>
        obtain ⟨same, known⟩ := readAttributeOperator_some read
        simp only [operators, List.mem_cons, List.not_mem_nil, or_false] at known
        rcases known with known | known | known | known | known | known <;>
          simp [known] at same
    simp [testText, noOperator, readChar_self]
  | some known spelled =>
    rename_i operator value
    have stop : nameTail (']' :: rest) = 0 := Scan.nameTail_stop (by decide) (by decide) _
    have close : skipBlanks (']' :: rest) = ']' :: rest :=
      skipBlanks_of_head (by decide) (by decide) _
    simp only [Option.map_some, testText, String.toList_append, List.append_assoc,
      readAttributeOperator_append known, skipBlanks_value spelled, bind, Option.bind,
      readAttributeValue_append spelled stop, close, readChar_self]

private theorem readTest_some {text rest : List Char} {test : Option (String × String)}
    (read : readTest text = some (test, rest)) :
    Test test ∧
      Leaves text rest (ink (testText (test.map (·.1)) (test.map (·.2))).toList + 1) := by
  unfold readTest at read
  split at read
  · rename_i operator behind found
    obtain ⟨⟨value, behind'⟩, inner, read⟩ := Option.bind_eq_some_iff.mp read
    obtain ⟨⟨_, behind''⟩, close, read⟩ := Option.bind_eq_some_iff.mp read
    cases read
    obtain ⟨rfl, known⟩ := readAttributeOperator_some found
    obtain ⟨same, spelled⟩ := readAttributeValue_some (unblank_skipBlanks _) inner
    refine ⟨.some known spelled, ?_⟩
    have first := (Leaves.append operator.toList behind).trans (.skipBlanks behind)
    rw [same] at first
    have second := (first.trans (.append value.toList behind')).trans (.skipBlanks behind')
    rw [readChar_some close] at second
    refine (second.trans (.cons (by decide) rest)).mono ?_
    simp only [Option.map_some, testText, String.toList_append, ink_append]
    omega
  · obtain ⟨⟨_, behind⟩, close, read⟩ := Option.bind_eq_some_iff.mp read
    cases read
    rw [readChar_some close]
    exact ⟨.none, (Leaves.cons (by decide) rest).mono (by simp [testText, ink])⟩

/-- What an attribute selector holds. -/
structure AttributeSpelled (name : String) (ns operator value : Option String) : Prop where
  element : Qualified (.element name ns)
  unblank : Unblank (qualified ns name).toList
  test : ∃ test, Test test ∧ operator = test.map (·.1) ∧ value = test.map (·.2)

theorem readAttribute_append {name : String} {ns operator value : Option String}
    (spelled : AttributeSpelled name ns operator value) (rest : List Char) :
    readAttribute ((attributeText name ns operator value).toList ++ rest) =
      some (.attribute name ns operator value, rest) := by
  obtain ⟨element, unblank, test, spelled, rfl, rfl⟩ := spelled
  obtain ⟨c, more, same, stop, behind⟩ := test_stop spelled rest
  have tested := readTest_append spelled rest
  rw [same] at tested
  have named := readQualified_append .nested element stop
  obtain ⟨d, front, start, isStart⟩ := element.exists_cons .nested
  rw [Simple.toCss] at named start
  have before : skipBlanks ((qualified ns name).toList ++ c :: more) =
      (qualified ns name).toList ++ c :: more := by
    rw [start] at unblank ⊢
    exact skipBlanks_of_head (unblank d rfl) isStart.slash _
  have text : (attributeText name ns (test.map (·.1)) (test.map (·.2))).toList ++ rest =
      '[' :: ((qualified ns name).toList ++ c :: more) := by
    rw [← same]
    simp [attributeText]
  rw [text]
  simp only [readAttribute, readChar_self, bind, Option.bind, before, named, behind, tested]

theorem readAttribute_some {text rest : List Char} {s : Simple} (style : Style)
    (read : readAttribute text = some (s, rest)) :
    ∃ name ns operator value, s = .attribute name ns operator value ∧
      AttributeSpelled name ns operator value ∧ Leaves text rest (ink (s.toCss style).toList) := by
  unfold readAttribute at read
  obtain ⟨⟨_, behind⟩, opens, read⟩ := Option.bind_eq_some_iff.mp read
  obtain ⟨⟨element, behind'⟩, named, read⟩ := Option.bind_eq_some_iff.mp read
  obtain ⟨same, spelled⟩ := readQualified_some style named
  rw [readChar_some opens]
  cases element with
  | element name ns =>
    obtain ⟨⟨test, behind''⟩, tested, read⟩ := Option.bind_eq_some_iff.mp read
    cases read
    obtain ⟨spelled', leaves⟩ := readTest_some tested
    have unblank : Unblank (qualified ns name).toList := by
      refine unblank_of_isPrefix (unblank_skipBlanks behind) ⟨behind', ?_⟩
      rw [same, Simple.toCss]
    refine ⟨name, ns, _, _, rfl, ⟨spelled, unblank, test, spelled', rfl, rfl⟩, ?_⟩
    have first := (Leaves.cons (by decide : '[' ≠ ' ') behind).trans (.skipBlanks behind)
    rw [same] at first
    have second := (first.trans (.append _ behind')).trans (.skipBlanks behind')
    refine (second.trans leaves).mono ?_
    simp only [Simple.toCss, attributeText, String.toList_append, ink_append]
    have brackets : ink "[".toList = 1 ∧ ink "]".toList = 1 := by decide
    omega
  | _ => cases read

end Attribute

end Stylesheet.Selector
