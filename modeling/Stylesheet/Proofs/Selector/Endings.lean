import Stylesheet.Proofs.Selector.RoundTrip
import Stylesheet.Proofs.Selector.SteadyReaders

/-! What a selector ends in. Reading stops behind a sign, a name or an escaped character, so that no
text is accepted that has a comment at its end. -/

namespace Stylesheet.Selector

open Scan (NameTail)

section Endings

variable {text middle rest : List Char} {nested : Reader Selector}

/-- A text that ends, but for blanks in its last name, in a sign or an escaped character. -/
def Firm (text : List Char) : Prop :=
  ∃ front c back, text = front ++ c :: back ∧ (∀ d ∈ back, Text.isBlank d = true) ∧
    (c ≠ '/' ∧ Text.isBlank c = false ∨ front.getLast? = some '\\')

/-- Reading stops right behind the end of something firm. -/
def Firmly (text rest : List Char) : Prop :=
  ∃ piece, text = piece ++ rest ∧ Firm piece

theorem Firm.sign {c : Char} (front : List Char) (slash : c ≠ '/')
    (visible : Text.isBlank c = false) : Firm (front ++ [c]) :=
  ⟨front, c, [], rfl, nofun, .inl ⟨slash, visible⟩⟩

theorem Firm.name {w : List Char} (firm : Firm text) (spelled : NameTail w) : Firm (text ++ w) := by
  induction spelled generalizing text with
  | nil => rwa [List.append_nil]
  | @char c w isName _ ih =>
    rw [← List.singleton_append, ← List.append_assoc]
    refine ih ?_
    cases blank : Text.isBlank c with
    | true =>
      obtain ⟨front, d, back, rfl, blanks, ends⟩ := firm
      refine ⟨front, d, back ++ [c], by simp, fun e member => ?_, ends⟩
      rcases List.mem_append.mp member with member | member
      · exact blanks e member
      · rw [List.mem_singleton.mp member, blank]
    | false =>
      refine .sign text ?_ blank
      rintro rfl
      exact absurd isName (by decide)
  | @escape w c _ ih =>
    have split : text ++ '\\' :: c :: w = text ++ ['\\', c] ++ w := by simp
    rw [split]
    exact ih ⟨text ++ ['\\'], c, [], by simp, nofun, .inr (by simp)⟩

theorem Firm.append_left (firm : Firm text) (front : List Char) : Firm (front ++ text) := by
  obtain ⟨inner, c, back, rfl, blank, ends⟩ := firm
  refine ⟨front ++ inner, c, back, by simp, blank, ends.imp_right fun last => ?_⟩
  rw [List.getLast?_append, last]
  rfl

/-- The last character that is no blank. -/
private theorem last_visible_inj {x y : Char} {front inner blanks back : List Char}
    (visible : Text.isBlank x = false) (visible' : Text.isBlank y = false)
    (blank : ∀ c ∈ blanks, Text.isBlank c = true) (blank' : ∀ c ∈ back, Text.isBlank c = true)
    (same : front ++ x :: blanks = inner ++ y :: back) : front = inner ∧ x = y := by
  have first : Text.dropEndWhile Text.isBlank (front ++ x :: blanks) = front ++ [x] :=
    Text.dropEndWhile_append visible blank
  have second : Text.dropEndWhile Text.isBlank (inner ++ y :: back) = inner ++ [y] :=
    Text.dropEndWhile_append visible' blank'
  rw [same, second] at first
  have ends := List.append_inj' first rfl
  exact ⟨ends.1.symm, (List.singleton_inj.mp ends.2).symm⟩

/-- What is firm does not end in a comment. -/
theorem Firm.not_comment (firm : Firm text) {blanks : List Char}
    (blank : ∀ c ∈ blanks, Text.isBlank c = true) (front : List Char) :
    text ≠ front ++ '*' :: '/' :: blanks := by
  rintro rfl
  obtain ⟨inner, c, back, same, blank', ends⟩ := firm
  have split : front ++ '*' :: '/' :: blanks = front ++ ['*'] ++ '/' :: blanks := by simp
  rw [split] at same
  cases isBlank : Text.isBlank c with
  | false =>
    obtain ⟨isInner, isSlash⟩ := last_visible_inj (by decide) isBlank blank blank' same
    rcases ends with ⟨slash, _⟩ | escape
    · exact slash isSlash.symm
    · rw [← isInner, List.getLast?_concat] at escape
      cases escape
  | true =>
    rcases ends with ⟨_, visible⟩ | escape
    · rw [isBlank] at visible
      cases visible
    · obtain ⟨before, rfl⟩ := List.getLast?_eq_some_iff.mp escape
      have behind : ∀ d ∈ c :: back, Text.isBlank d = true :=
        List.forall_mem_cons.mpr ⟨isBlank, blank'⟩
      have escaped : front ++ ['*'] ++ '/' :: blanks = before ++ '\\' :: (c :: back) := by
        rw [same, List.append_assoc, List.singleton_append]
      have slash : '/' = '\\' :=
        (last_visible_inj (by decide) (by decide) blank behind escaped).2
      exact absurd slash (by decide)

namespace Firmly

theorem of_suffix (firmly : Firmly middle rest) (suffix : middle <:+ text) : Firmly text rest := by
  obtain ⟨front, rfl⟩ := suffix
  obtain ⟨piece, rfl, firm⟩ := firmly
  exact ⟨front ++ piece, by simp, firm.append_left front⟩

/-- A sign is firm. -/
theorem sign {c : Char} (slash : c ≠ '/') (visible : Text.isBlank c = false)
    (suffix : c :: rest <:+ text) : Firmly text rest := by
  refine of_suffix ⟨[c], rfl, ?_⟩ suffix
  exact .sign [] slash visible

/-- A sign and a name behind it. -/
theorem signed {c : Char} (slash : c ≠ '/') (visible : Text.isBlank c = false) {w : List Char}
    (spelled : NameTail w) (rest : List Char) : Firmly (c :: (w ++ rest)) rest :=
  ⟨c :: w, rfl, (Firm.sign [] slash visible).name spelled⟩

theorem shorter (firmly : Firmly text rest) : rest.length < text.length := by
  obtain ⟨_, rfl, _, _, _, rfl, _, _⟩ := firmly
  simp only [List.length_append, List.length_cons]
  omega

end Firmly

/-- A name that does not begin with a blank. -/
private theorem firmly_name {w : List Char} (spelled : NameTail w) (some : w ≠ [])
    (unblank : Unblank (w ++ rest)) : Firmly (w ++ rest) rest := by
  refine ⟨w, rfl, ?_⟩
  cases spelled with
  | nil => exact absurd rfl some
  | @char c w isName tail =>
    have slash : c ≠ '/' := by
      rintro rfl
      exact absurd isName (by decide)
    exact (Firm.sign [] slash (unblank c rfl)).name tail
  | @escape w c tail =>
    have start : Firm ['\\', c] := ⟨['\\'], c, [], rfl, nofun, .inr rfl⟩
    exact start.name tail

theorem readElementName_firmly {name : String} (unblank : Unblank text)
    (read : readElementName text = some (name, rest)) : Firmly text rest := by
  obtain ⟨rfl, ident | rfl⟩ := readElementName_some read
  · obtain ⟨c, more, same, _⟩ := ident.exists_cons
    exact firmly_name (nameTail_of_ident ident) (by simp [same]) unblank
  · exact .sign (by decide) (by decide) List.suffix_rfl

private theorem firmly_namespaced {name : String} (spelled : ElementName name)
    (rest : List Char) : Firmly ('|' :: (name.toList ++ rest)) rest := by
  rcases spelled with ident | rfl
  · exact .signed (by decide) (by decide) (nameTail_of_ident ident) rest
  · exact .sign (c := '*') (by decide) (by decide) (List.suffix_cons '|' _)

theorem readQualifiedFrom_firmly {first : Option String} {s : Simple}
    (read : readQualifiedFrom first text = some (s, rest)) :
    rest = text ∧ first.isSome = true ∨ Firmly text rest := by
  fun_cases readQualifiedFrom first text with
  | case1 behind =>
    obtain ⟨_, rfl, same⟩ := Option.map_eq_some_iff.mp read
    cases same
    exact .inl ⟨rfl, rfl⟩
  | case2 behind notOperator =>
    rw [readQualifiedFrom.eq_2 _ _ notOperator] at read
    obtain ⟨⟨name, _⟩, found, same⟩ := Option.map_eq_some_iff.mp read
    cases same
    obtain ⟨rfl, spelled⟩ := readElementName_some found
    exact .inr (firmly_namespaced spelled _)
  | case3 _ notOperator notBar =>
    rw [readQualifiedFrom.eq_3 _ _ notOperator notBar] at read
    obtain ⟨_, rfl, same⟩ := Option.map_eq_some_iff.mp read
    cases same
    exact .inl ⟨rfl, rfl⟩

theorem readBase_firmly {b : Simple} (unblank : Unblank text)
    (read : readBase text = some (b, rest)) : Firmly text rest := by
  have qualified (found : readQualified text = some (b, rest)) : Firmly text rest := by
    unfold readQualified at found
    split at found
    · rename_i name behind element
      have first := readElementName_firmly unblank element
      rcases readQualifiedFrom_firmly found with ⟨rfl, _⟩ | second
      · exact first
      · exact second.of_suffix ((steady_readElementName trailing_nil).moves element).suffix
    · rcases readQualifiedFrom_firmly found with ⟨_, named⟩ | second
      · cases named
      · exact second
  fun_cases readBase text with
  | case1 =>
    cases read
    exact .sign (by decide) (by decide) List.suffix_rfl
  | case2 _ other =>
    rw [readBase.eq_2 _ other] at read
    rcases orElse_some read with percentage | ⟨_, found⟩
    · obtain ⟨w, _, rfl, spelled⟩ := readPercentage_some percentage
      cases spelled with
      | @spelled whole fraction _ _ =>
        refine .sign (c := '%') (by decide) (by decide) ⟨whole ++ fraction, ?_⟩
        simp
    · exact qualified found

private theorem readTest_closes {test : Option (String × String)}
    (read : readTest text = some (test, rest)) : ']' :: rest <:+ text := by
  unfold readTest at read
  split at read
  · rename_i operator behind found
    obtain ⟨⟨value, behind'⟩, valued, read⟩ := Option.bind_eq_some_iff.mp read
    obtain ⟨⟨_, last⟩, close, same⟩ := Option.bind_eq_some_iff.mp read
    cases same
    have suffix := skipBlanks_suffix behind'
    rw [readChar_some close] at suffix
    have value := ((steady_readAttributeValue trailing_nil).moves valued).suffix
    have operator := ((steady_readAttributeOperator trailing_nil).moves found).suffix
    exact ((suffix.trans value).trans (skipBlanks_suffix behind)).trans operator
  · obtain ⟨⟨_, last⟩, close, same⟩ := Option.bind_eq_some_iff.mp read
    cases same
    exact readChar_some close ▸ List.suffix_rfl

theorem readAttribute_closes {s : Simple} (read : readAttribute text = some (s, rest)) :
    ']' :: rest <:+ text := by
  unfold readAttribute at read
  obtain ⟨⟨_, inside⟩, opens, read⟩ := Option.bind_eq_some_iff.mp read
  obtain ⟨⟨qualified, behind⟩, found, read⟩ := Option.bind_eq_some_iff.mp read
  cases qualified with
  | element name ns =>
    obtain ⟨⟨test, last⟩, tested, same⟩ := Option.bind_eq_some_iff.mp read
    cases same
    have suffix := ((readTest_closes tested).trans (skipBlanks_suffix behind)).trans
      ((steady_readQualified trailing_nil).moves found).suffix
    rw [readChar_some opens]
    exact (suffix.trans (skipBlanks_suffix inside)).trans (List.suffix_cons '[' inside)
  | _ => cases read

theorem readArgument_closes {kind : PseudoKind} {name : String} {s : Simple}
    (spec : ReadsSpelled nested .nested)
    (read : readArgument nested kind name text = some (s, rest)) : ')' :: rest <:+ text := by
  have raw (read : readRawArgument kind name text = some (s, rest)) : ')' :: rest <:+ text := by
    obtain ⟨count, _, read⟩ := Option.bind_eq_some_iff.mp read
    obtain ⟨⟨_, last⟩, close, same⟩ := Option.bind_eq_some_iff.mp read
    cases same
    have suffix := List.drop_suffix count text
    rwa [readChar_some close] at suffix
  unfold readArgument at read
  split at read
  · rcases orElse_some read with selector | ⟨_, found⟩
    · obtain ⟨⟨argument, behind⟩, inner, selector⟩ := Option.bind_eq_some_iff.mp selector
      obtain ⟨⟨_, last⟩, close, same⟩ := Option.bind_eq_some_iff.mp selector
      cases same
      have suffix := skipBlanks_suffix behind
      rw [readChar_some close] at suffix
      exact suffix.trans (spec text argument behind inner).2.2.suffix
    · exact raw found
  · exact raw read

theorem readPseudo_firmly {s : Simple} (spec : ReadsSpelled nested .nested)
    (read : readPseudo nested text = some (s, rest)) : Firmly text rest := by
  unfold readPseudo at read
  obtain ⟨⟨kind, behind⟩, begun, read⟩ := Option.bind_eq_some_iff.mp read
  obtain ⟨⟨name, behind'⟩, named, final⟩ := Option.bind_eq_some_iff.mp read
  rw [readColons_some begun]
  obtain ⟨rfl, ident⟩ := readIdent_some named
  have suffix : ':' :: (name.toList ++ behind') <:+ colons kind ++ (name.toList ++ behind') := by
    cases kind with
    | ofClass => exact List.suffix_rfl
    | ofElement => exact List.suffix_cons ':' _
  simp only at final
  split at final
  · rename_i argument
    have closes := (readArgument_closes spec final).trans (List.suffix_cons '(' argument)
    refine .sign (by decide) (by decide) (closes.trans (.trans ?_ suffix))
    exact List.suffix_append (':' :: name.toList) _
  · cases final
    have name := nameTail_of_ident ident
    exact (Firmly.signed (c := ':') (by decide) (by decide) name rest).of_suffix suffix

theorem readQualifier_firmly {s : Simple} (spec : ReadsSpelled nested .nested)
    (read : readQualifier nested text = some (s, rest)) : Firmly text rest := by
  fun_cases readQualifier nested text with
  | case1 behind =>
    obtain ⟨⟨name, _⟩, named, same⟩ := Option.map_eq_some_iff.mp read
    cases same
    obtain ⟨rfl, ident⟩ := readIdent_some named
    exact .signed (by decide) (by decide) (nameTail_of_ident ident) rest
  | case2 behind =>
    obtain ⟨⟨name, _⟩, named, same⟩ := Option.map_eq_some_iff.mp read
    cases same
    obtain ⟨rfl, spelled⟩ := readName_some named
    exact .signed (by decide) (by decide) spelled.1 rest
  | case3 behind => exact .sign (by decide) (by decide) (readAttribute_closes read)
  | case4 _ dot hash bracket =>
    rw [readQualifier.eq_4 _ _ dot hash bracket] at read
    exact readPseudo_firmly spec read

private theorem firmly_goesOn {behind : List Char} {p : Prop} (first : Firmly middle behind)
    (suffix : middle <:+ text) (later : p ∧ rest = behind ∨ Firmly behind rest) :
    Firmly text rest := by
  rcases later with ⟨_, rfl⟩ | second
  · exact first.of_suffix suffix
  · obtain ⟨piece, same, _⟩ := first
    exact second.of_suffix (.trans ⟨piece, same.symm⟩ suffix)

theorem many_firmly (spec : ReadsSpelled nested .nested) {fuel : Nat} {items : List Simple}
    (read : many.go (readQualifier nested) fuel text = (items, rest)) :
    items = [] ∧ rest = text ∨ Firmly text rest := by
  fun_induction many.go (readQualifier nested) fuel text generalizing items rest with
  | case2 fuel text item behind found items' rest' later ih =>
    cases read
    exact .inr (firmly_goesOn (readQualifier_firmly spec found) List.suffix_rfl (ih later))
  | _ =>
    cases read
    exact .inl ⟨rfl, rfl⟩

theorem readCompound_firmly (spec : ReadsSpelled nested .nested) (unblank : Unblank text)
    {c : Compound} (read : readCompound nested text = some (c, rest)) : Firmly text rest := by
  unfold readCompound at read
  cases first : readOptionalBase text with
  | mk base behind =>
    cases second : many (readQualifier nested) behind with
    | mk items behind' =>
      simp only [first, second] at read
      have suffix := (moves_readOptionalBase text).suffix
      rw [first] at suffix
      split at read
      · cases read
      · rename_i some
        cases read
        rcases many_firmly spec second with ⟨rfl, rfl⟩ | firmly
        · unfold readOptionalBase at first
          split at first
          · rename_i found
            cases first
            exact readBase_firmly unblank found
          · cases first
            exact absurd rfl some
        · exact firmly.of_suffix suffix

theorem readComponents_firmly (spec : ReadsSpelled nested .nested) {fuel : Nat} {after : Bool}
    {chain : Chain} (read : readComponents nested fuel after text = (chain, rest)) :
    chain = [] ∧ rest = text ∨ Firmly text rest := by
  fun_induction readComponents nested fuel after text generalizing chain rest with
  | case2 fuel after text skipped k behind found components rest' later =>
    rename_i ih
    cases read
    have sign : Firmly skipped behind := by
      rw [readCombinator_some found]
      cases k <;> exact .sign (by decide) (by decide) List.suffix_rfl
    exact .inr (firmly_goesOn sign (skipBlanks_suffix text) (ih later))
  | case4 fuel after text skipped spaced none stays c behind found components rest' =>
    rename_i later ih
    cases read
    have compound := readCompound_firmly spec (unblank_skipBlanks text) found
    exact .inr (firmly_goesOn compound (skipBlanks_suffix text) (ih later))
  | _ =>
    cases read
    exact .inl ⟨rfl, rfl⟩

theorem readChains_firmly (spec : ReadsSpelled nested .nested) {fuel : Nat}
    {found selector : Selector} (read : readChains nested fuel found text = .read selector rest) :
    Firmly text rest := by
  induction fuel generalizing found text with
  | zero => cases read
  | succ fuel ih =>
    obtain ⟨chain, behind, some, first, goesOn⟩ := readChains_step read
    have firmly := (readComponents_firmly spec first).resolve_left fun nothing => some nothing.1
    rcases goesOn with ⟨more, comma, later⟩ | ⟨_, rfl⟩
    · obtain ⟨piece, same, _⟩ := firmly
      have skips := skipBlanks_suffix behind
      rw [comma] at skips
      exact (ih later).of_suffix
        (((List.suffix_cons ',' more).trans skips).trans ⟨piece, same.symm⟩)
    · exact firmly

/-- No accepted text ends in a comment. -/
theorem parse_comment_last {text : String} {line : Nat} {selector : Selector}
    {front blanks : List Char} (ends : text.toList = front ++ '*' :: '/' :: blanks)
    (blank : ∀ c ∈ blanks, Text.isBlank c = true) : parse text line ≠ .ok selector := by
  intro parsed
  obtain ⟨rest, read, dropped⟩ := parse_ok.mp parsed
  rw [readList_eq] at read
  obtain ⟨_, same, inner, c, back, rfl, blank', visible⟩ :=
    readChains_firmly (readsSpelled_inner .nested) read
  have firm : Firm text.toList := by
    refine ⟨inner, c, back ++ rest, by simp [same], ?_, visible⟩
    exact List.forall_mem_append.mpr ⟨blank', List.dropWhile_eq_nil_iff.mp dropped⟩
  exact firm.not_comment blank front ends

end Endings

end Stylesheet.Selector
