import Stylesheet.Proofs.Statement.Written

/-! Directives are read up to their blocks or to their ends, as both dialects do it. -/

namespace Stylesheet

open Scan Header

variable {lines : LineIndex} {blanks rest : List Char}

/-- Behind what opens a block, or is a statement without one, there are spaces and then the block or
a semicolon, or nothing. -/
structure EndsOpening (blanks rest : List Char) : Prop where
  spaces : ∀ c ∈ blanks, c = ' '
  stop : ∀ c, rest.head? = some c → c = '\x7b' ∨ c = ';'

namespace EndsOpening

theorem isBlank (ends : EndsOpening blanks rest) : ∀ c ∈ blanks, Text.isBlank c = true := by
  intro c member
  rw [ends.spaces c member]
  decide

theorem stops (ends : EndsOpening blanks rest) :
    ∀ c, rest.head? = some c → isStatementEnd c = true ∧ c ≠ '#' := by
  intro c isHead
  rcases ends.stop c isHead with rfl | rfl <;> decide

theorem afterBlanks (ends : EndsOpening blanks rest) : Text.afterBlanks (blanks ++ rest) = rest := by
  rw [Text.afterBlanks_append ends.isBlank]
  cases rest with
  | nil => rfl
  | cons c rest =>
    refine Text.afterBlanks_of_head ?_ rest
    rcases ends.stop c rfl with rfl | rfl <;> decide

end EndsOpening

/-- A text in which nothing is special is taken as it stands, and so are the blanks behind it. -/
theorem Phrase.reads_template (phrase : Phrase) (ends : EndsOpening blanks rest) :
    Reads lines (templateUntil isStatementEnd) (phrase.text ++ (blanks ++ rest))
      (fun found => found.trimmed = phrase.template) rest := by
  have plain : IsVerbatim (phrase.text ++ blanks) := phrase.plain.append fun c blank => by
    rw [ends.spaces c blank]
    decide
  have gap : (phrase.text ++ blanks).getLast? ≠ some '#' := by
    rw [List.getLast?_append]
    cases isLast : blanks.getLast? with
    | none => exact phrase.notHash
    | some c =>
      rintro ⟨⟩
      cases ends.spaces '#' (List.mem_of_getLast? isLast)
  have taken : Reads lines (templateUntil isStatementEnd) (phrase.text ++ blanks ++ rest)
      (· = Template.ofText (String.ofList (phrase.text ++ blanks))) rest :=
    reads_templateUntil (fun _ same => same) plain gap ends.stops
  rw [List.append_assoc] at taken
  refine taken.weaken fun found same => ?_
  rw [same, phrase.trimmed ends.isBlank]

/-- What stands behind the name of a directive. -/
theorem reads_params (params : Option Phrase) (ends : EndsOpening blanks rest) :
    Reads lines (templateUntil isStatementEnd)
      (Text.afterBlanks (Opening.paramsText params ++ (blanks ++ rest)))
      (fun found => found.trimmed = params.elim [] Phrase.template) rest := by
  cases params with
  | none =>
    rw [Opening.paramsText, List.nil_append, ends.afterBlanks]
    refine (reads_templateUntil_stop ends.stops).weaken ?_
    rintro _ rfl
    rfl
  | some params =>
    obtain ⟨x, more, isText, notBlank⟩ := params.exists_cons
    have skipped : Text.afterBlanks (Opening.paramsText (some params) ++ (blanks ++ rest)) =
        params.text ++ (blanks ++ rest) := by
      rw [Opening.paramsText, isText, List.cons_append]
      exact (Text.afterBlanks_cons (by decide) _).trans (Text.afterBlanks_of_head notBlank _)
    rw [skipped]
    exact params.reads_template ends

theorem EndsOpening.nameTail (ends : EndsOpening blanks rest) : nameTail (blanks ++ rest) = 0 := by
  have next : ∀ c, (blanks ++ rest).head? = some c → c = ' ' ∨ c = '\x7b' ∨ c = ';' := by
    intro c isHead
    cases blanks with
    | nil => exact .inr (ends.stop c isHead)
    | cons d blanks =>
      cases isHead
      exact .inl (ends.spaces c List.mem_cons_self)
  apply nameTail_eq_zero
  · intro escape
    rcases next _ escape with same | same | same <;> cases same
  · intro c isHead
    rcases next c isHead with rfl | rfl | rfl <;> decide

/-- No name goes on behind the name of a directive. -/
theorem nameTail_params (params : Option Phrase) (ends : EndsOpening blanks rest) :
    nameTail (Opening.paramsText params ++ (blanks ++ rest)) = 0 := by
  cases params with
  | none => exact ends.nameTail
  | some params => exact nameTail_stop (by decide) (by decide) _

/-- A name is another word when it differs from the word and ends where the text behind it does not
go on with it. -/
theorem keyword_of_name {word : String} {name text : List Char}
    (isName : ∀ c ∈ name, isNameChar c = true)
    (other : name.map Char.toLower ≠ word.toList.map Char.toLower)
    (stop : ∀ c, text.head? = some c → c.toLower ∉ word.toList.map Char.toLower) :
    keyword word (name ++ text) = false := by
  rw [Bool.eq_false_iff]
  intro seen
  simp only [keyword, startsWithWord, Bool.and_eq_true, beq_iff_eq, Bool.not_eq_true'] at seen
  obtain ⟨same, ends⟩ := seen
  rcases Nat.lt_trichotomy name.length word.length with shorter | equal | longer
  · obtain ⟨more, isWord⟩ := Nat.exists_eq_add_of_lt shorter
    rw [isWord, List.take_append, List.take_of_length_le (by omega)] at same
    cases text with
    | nil =>
      have length := congrArg List.length same
      simp only [List.length_map, String.length_toList, List.take_nil, List.append_nil] at length
      omega
    | cons c text =>
      refine stop c rfl ?_
      rw [same, show name.length + more + 1 - name.length = more + 1 by omega]
      simp
  · rw [← equal, List.take_left] at same
    exact other same.symm
  · obtain ⟨c, rest, isRest⟩ := List.exists_cons_of_ne_nil
      (show name.drop word.length ≠ [] by simpa using longer)
    have isHead : (name.drop word.length).head? = some c := by rw [isRest]; rfl
    have inside := isName c (List.mem_of_mem_drop (List.mem_of_head? isHead))
    rw [List.drop_append_of_le_length (by omega), List.head?_append, isHead] at ends
    simp [inside] at ends

/-- No directive at hand is an `@else`. -/
theorem Opening.keyword_else (opening : Opening) (dialect : Dialect) {more : List Char}
    (isSource : opening.source dialect = '@' :: more) : keyword "else" more = false := by
  have isText : opening.text = '@' :: more := by
    rcases opening.source_cases dialect with same | escaped
    · exact same.symm.trans isSource
    · cases escaped.symm.trans isSource
  have params : ∀ params : Option Phrase, ∀ c, (paramsText params).head? = some c →
      c.toLower ∉ "else".toList.map Char.toLower := by
    intro params c isHead
    cases params with
    | none => cases isHead
    | some params =>
      cases isHead
      decide
  cases opening with
  | rule head =>
    obtain ⟨x, rest, isCons, starts⟩ := head.exists_starts
    rw [Opening.text, isCons] at isText
    cases isText
    cases starts
  | media query =>
    cases isText
    exact keyword_of_name (List.all_eq_true.mp (by decide)) (by decide) (params (some query))
  | directive head =>
    cases isText
    have isName := head.ident.isNameChar head.name.unescaped
    exact keyword_of_name isName (by simpa using head.notElse) (params head.params)

/-- No statement without a block is an `@else`. -/
theorem Leaf.keyword_else (l : Leaf) {more : List Char} (isText : l.text = '@' :: more) :
    keyword "else" more = false := by
  have blank : ∀ (text : List Char) c, (' ' :: text).head? = some c →
      c.toLower ∉ "else".toList.map Char.toLower := by
    rintro text c ⟨⟩
    decide
  cases l with
  | declaration name value =>
    obtain ⟨x, rest, isCons, starts⟩ := name.exists_cons
    rw [Leaf.text, isCons] at isText
    cases isText
    cases starts
  | directive head => exact (Opening.directive head).keyword_else .scss isText
  | charset name =>
    cases isText
    exact keyword_of_name (List.all_eq_true.mp (by decide)) (by decide) (blank _)
  | importing target =>
    cases isText
    exact keyword_of_name (List.all_eq_true.mp (by decide)) (by decide) (blank _)

/-- A directive that was read up to its block. -/
def IsHeader (kind : StatementKind) (found : List Statement) : Prop :=
  ∃ line span, found = [.leaf kind line span]

section Names

variable {name text : List Char}

/-- A directive is told by its name. -/
theorem reads_directive_of_name (ident : Ident name) (stop : nameTail text = 0)
    {p : List Statement → Prop}
    (behind : ∀ origin line, Reads lines (do
      if String.ofList name == "import" then imports [] ((← get).rest.length + 1)
      else
        let kind ← directiveKind origin (String.ofList name)
        return [Statement.leaf kind line (← spanFrom origin.pos)]) (Text.afterBlanks text) p rest) :
    Reads lines directive ('@' :: (name ++ text)) p rest := by
  refine Reads.get.after fun origin => Reads.lineNumber.after fun line => ?_
  refine (Reads.eat "@" (name ++ text)).bind fun _ _ => ?_
  refine (Reads.scan_some (ident?_append ident stop)).bind fun _ found => ?_
  subst found
  exact Reads.skipBlanks.after fun _ => behind origin line

theorem reads_named (ident : Ident name) (stop : nameTail text = 0) {kind : StatementKind}
    (notImport : String.ofList name ≠ "import")
    (isKind : ∀ start, Reads lines (directiveKind start (String.ofList name))
      (Text.afterBlanks text) (· = kind) rest) :
    Reads lines directive ('@' :: (name ++ text)) (IsHeader kind) rest := by
  refine reads_directive_of_name ident stop fun origin line => ?_
  have other : (String.ofList name == "import") = false := beq_eq_false_iff_ne.mpr notImport
  simp only [other]
  refine (isKind origin).bind fun found same => ?_
  subst same
  exact Reads.spanFrom.after fun span => .pure ⟨line, span, rfl⟩

end Names

/-- A media query is read up to its block. -/
theorem reads_media (query : Phrase) (ends : EndsOpening blanks rest) :
    Reads lines directive ((Opening.media query).text ++ (blanks ++ rest))
      (IsHeader (.media query.template)) rest := by
  have ident : Ident "media".toList := by
    refine .plain (.start (by decide) (.of_all ?_))
    exact List.all_eq_true.mp (by decide)
  rw [Opening.text, List.cons_append, List.append_assoc]
  refine reads_named ident (nameTail_params _ ends) (by decide) fun start => ?_
  exact (reads_params (some query) ends).bind fun found trimmed => .pure (by rw [trimmed]; rfl)

theorem reads_directiveKind (head : DirectiveHead) (ends : EndsOpening blanks rest)
    (start : Cursor) :
    Reads lines (directiveKind start (String.ofList head.name.text))
      (Text.afterBlanks (Opening.paramsText head.params ++ (blanks ++ rest)))
      (· = .directive (String.ofList head.name.text) (head.params.elim [] Phrase.template) false)
      rest := by
  have other : ∀ name ∈ reservedNames, String.ofList head.name.text ≠ name := by
    rintro name reserved rfl
    exact head.ordinary reserved
  have generic : Reads lines
      (do
        let found ← templateUntil isStatementEnd
        return StatementKind.directive (String.ofList head.name.text) found.trimmed false)
      (Text.afterBlanks (Opening.paramsText head.params ++ (blanks ++ rest)))
      (· = .directive (String.ofList head.name.text) (head.params.elim [] Phrase.template) false)
      rest :=
    (reads_params head.params ends).bind fun found trimmed => .pure (by rw [trimmed])
  unfold directiveKind
  split
  all_goals first
    | exact generic
    | exact absurd ‹_› (other _ (by decide))

/-- A directive without a meaning of its own is read up to its block. -/
theorem reads_directive (head : DirectiveHead) (ends : EndsOpening blanks rest) :
    Reads lines directive ((Opening.directive head).text ++ (blanks ++ rest))
      (IsHeader (.directive (String.ofList head.name.text) (head.params.elim [] Phrase.template)
        false)) rest := by
  have notImport : String.ofList head.name.text ≠ "import" := by
    intro same
    exact head.ordinary (by rw [same]; decide)
  rw [Opening.text, List.cons_append, List.append_assoc]
  exact reads_named head.ident (nameTail_params _ ends) notImport fun start =>
    reads_directiveKind head ends start

section Imports

variable {name text : List Char} {path : String} {isUrl : Bool}

theorem isBlank_of_toLower {c : Char} (isU : c.toLower = 'u') : Text.isBlank c = false := by
  unfold Char.toLower at isU
  split at isU
  · rename_i upper
    have atLeast : 65 ≤ c.toNat := UInt32.le_iff_toNat_le.mp upper.1
    have atMost : c.toNat ≤ 90 := UInt32.le_iff_toNat_le.mp upper.2
    unfold Text.isBlank
    simp only [Bool.or_eq_false_iff, Bool.and_eq_false_iff, decide_eq_false_iff_not, beq_eq_false_iff_ne]
    omega
  · rw [isU]
    decide

theorem IsImportName.exists_cons (isName : IsImportName name path isUrl) :
    ∃ x more, name = x :: more ∧ Text.isBlank x = false := by
  cases isName with
  | quoted isQuote plain =>
    refine ⟨_, _, rfl, ?_⟩
    simp only [Header.isQuote, Bool.or_eq_true, beq_iff_eq] at isQuote
    rcases isQuote with rfl | rfl <;> decide
  | @url front word plain =>
    cases front with
    | nil => cases word
    | cons x front =>
      refine ⟨x, _, rfl, isBlank_of_toLower ?_⟩
      exact (List.cons.inj (beq_iff_eq.mp word)).1.symm

/-- The name of an import is read as it is written. -/
theorem reads_importName (isName : IsImportName name path isUrl) :
    Reads lines importName (name ++ text) (· = (String.ofList name, path, isUrl)) text := by
  refine Reads.get.bind fun c isText => ?_
  unfold Cursor.peek?
  cases isName with
  | @quoted quote path isQuote plain =>
    rw [isText, List.cons_append, List.head?_cons, Option.any_some, isQuote]
    have read : Reads lines quoted (quote :: (path ++ quote :: text))
        (· = String.ofList (quote :: (path ++ [quote]))) text := reads_quoted isQuote plain
    rw [List.append_assoc, List.singleton_append]
    refine read.bind fun found same => .pure ?_
    subst same
    unfold unquote
    simp
  | @url front word plain =>
    have long : 4 ≤ front.length := by
      have same := congrArg List.length (beq_iff_eq.mp word)
      simp only [List.length_map, String.length_toList, List.length_take] at same
      have size : "url(".length = 4 := by decide
      omega
    obtain ⟨x, more, rfl⟩ := List.exists_cons_of_length_pos (show 0 < front.length by omega)
    have notQuote : isQuote x = false := by
      have isU : x.toLower = 'u' := (List.cons.inj (beq_iff_eq.mp word)).1.symm
      rw [Bool.eq_false_iff]
      intro opens
      simp only [Header.isQuote, Bool.or_eq_true, beq_iff_eq] at opens
      rcases opens with rfl | rfl <;> cases isU
    have seen : startsWithWord "url(" (x :: more ++ ')' :: text) = true := by
      have size : "url(".length = 4 := by decide
      unfold startsWithWord at word ⊢
      rw [size] at word ⊢
      rw [List.take_append_of_le_length long]
      exact word
    have count : run (· != ')') (x :: more ++ ')' :: text) = (x :: more).length :=
      run_append (fun d member => by simp [(plain d member).1]) (by rintro _ ⟨⟩; rfl)
    have shorter : (x :: more).length < (x :: more ++ ')' :: text).length := by simp
    rw [isText, List.append_assoc, List.singleton_append]
    rw [seen, count, if_pos shorter, List.cons_append, List.head?_cons, Option.any_some, notQuote]
    have whole : Reads lines (take ((x :: more).length + 1)) ((x :: more ++ [')']) ++ text)
        (· = String.ofList (x :: more ++ [')'])) text := .take (by simp)
    rw [List.append_assoc, List.singleton_append] at whole
    refine whole.bind fun found same => .pure ?_
    rw [same, show x :: (more ++ ')' :: text) = x :: more ++ ')' :: text from rfl, List.take_left]
/-- What stands behind the name of an import is taken up to the end of the statement. -/
theorem reads_mediaText (target : BrowserImport) (ends : EndsOpening [] rest) {c : Cursor}
    (isText : c.rest = Text.afterBlanks (Opening.paramsText target.media ++ rest)) :
    Reads lines (take (run (!isImportEnd ·) c.rest))
      (Text.afterBlanks (Opening.paramsText target.media ++ rest))
      (· = target.media.elim "" fun media => String.ofList media.text) rest := by
  have stop : ∀ c, rest.head? = some c → (!isImportEnd c) = false := by
    intro c isHead
    rcases ends.stop c isHead with rfl | rfl <;> decide
  have plain := target.mediaPlain
  rw [isText]
  cases found : target.media with
  | none =>
    have nothing : Text.afterBlanks (Opening.paramsText none ++ rest) = [] ++ rest := ends.afterBlanks
    rw [nothing, run_append (by simp) stop]
    exact .take rfl
  | some media =>
    obtain ⟨x, more, isCons, notBlank⟩ := media.exists_cons
    have skipped : Text.afterBlanks (Opening.paramsText (some media) ++ rest) = media.text ++ rest := by
      rw [Opening.paramsText, isCons, List.cons_append]
      exact (Text.afterBlanks_cons (by decide) _).trans (Text.afterBlanks_of_head notBlank _)
    rw [skipped, run_append (fun d member => by rw [plain media found d member]; rfl) stop]
    exact .take rfl

/-- An import that is left to the browser is read up to its end. -/
theorem reads_importing (target : BrowserImport) (ends : EndsOpening [] rest) :
    Reads lines directive ((Leaf.importing target).text ++ rest)
      (IsHeader (Leaf.importing target).kind) rest := by
  have ident : Ident "import".toList := by
    refine .plain (.start (by decide) (.of_all ?_))
    exact List.all_eq_true.mp (by decide)
  rw [Leaf.text, List.cons_append, List.append_assoc, List.cons_append]
  refine reads_directive_of_name ident (nameTail_stop (by decide) (by decide) _) fun origin line => ?_
  have isImport : (String.ofList "import".toList == "import") = true := by decide
  obtain ⟨x, more, isCons, notBlank⟩ := target.isName.exists_cons
  have skipped : Text.afterBlanks (' ' :: (target.text ++ rest)) = target.text ++ rest := by
    rw [Text.afterBlanks_cons (by decide), BrowserImport.text, isCons]
    exact Text.afterBlanks_of_head notBlank _
  rw [isImport, skipped]
  refine Reads.get.after fun c => Reads.skipBlanks.after fun _ => ?_
  have same : Text.afterBlanks (target.text ++ rest) =
      target.name ++ (Opening.paramsText target.media ++ rest) := by
    rw [BrowserImport.text, isCons, List.append_assoc]
    exact Text.afterBlanks_of_head notBlank _
  rw [same]
  refine Reads.position.after fun start => Reads.lineNumber.after fun line => ?_
  refine (reads_importName target.isName).bind fun found isName => ?_
  subst isName
  refine Reads.skipBlanks.after fun _ => Reads.get.bind fun c isText => ?_
  refine (reads_mediaText target ends isText).bind fun media isMedia => ?_
  have trimmed : Text.trim media = target.media.elim "" fun media => String.ofList media.text := by
    rw [isMedia]
    cases target.media with
    | none => rfl
    | some media => exact media.trim
  rw [trimmed, target.target_eq]
  refine Reads.spanFrom.after fun span => Reads.skipBlanks.after fun _ => ?_
  rw [← List.nil_append rest, ends.afterBlanks]
  have noMore : rest.head? ≠ some ',' := by
    intro isComma
    rcases ends.stop _ isComma with same | same <;> cases same
  refine (Reads.eat_none (isPrefixOf_false (c := ',') rfl noMore)).bind fun _ no => ?_
  subst no
  exact .pure ⟨line, span, rfl⟩

/-- A character set is read with its name. -/
theorem reads_charset (name : CharsetName) :
    Reads lines directive ((Leaf.charset name).text ++ rest) (IsHeader (Leaf.charset name).kind)
      rest := by
  have ident : Ident "charset".toList := by
    refine .plain (.start (by decide) (.of_all ?_))
    exact List.all_eq_true.mp (by decide)
  rw [Leaf.text, List.cons_append, List.append_assoc, List.cons_append, List.cons_append,
    List.append_assoc, List.singleton_append]
  refine reads_named ident (nameTail_stop (by decide) (by decide) _) (by decide) fun start => ?_
  rw [Text.afterBlanks_cons (by decide), Text.afterBlanks_of_head (by decide)]
  have read : Reads lines (do return StatementKind.charset (unquote (← quoted)))
      ('"' :: (name.text ++ '"' :: rest)) (· = (Leaf.charset name).kind) rest := by
    refine (reads_quoted (by decide) name.plain).bind fun found same => .pure ?_
    subst same
    unfold unquote
    simp [Leaf.kind]
  exact read

end Imports

end Stylesheet
