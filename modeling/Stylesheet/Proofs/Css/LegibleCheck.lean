import Mathlib.Data.List.Infix
import Stylesheet.Proofs.Css.Legible
import Stylesheet.Proofs.Selector.RoundTrip

/-! A check that accepts trees with legible nodes: texts in which nothing is special, selectors that
are read back, and values that are lists of words and plain strings. -/

namespace Stylesheet

open Scan Header

section Texts

/-- Nothing is special in a text outside of its strings. With a quote, a string has begun. -/
def checksVerbatim : Option Char → List Char → Bool
  | quote, [] => quote.isNone
  | none, c :: rest =>
    if isQuote c then checksVerbatim (some c) rest else isHeadChar c && checksVerbatim none rest
  | some quote, c :: rest =>
    if c == quote then checksVerbatim none rest
    else c != '\\' && c != '\n' && !(c == '#' && rest.head? == some '\x7b') &&
      checksVerbatim (some quote) rest

theorem isVerbatim_of_check (text : List Char) :
    (checksVerbatim none text = true → IsVerbatim text) ∧
      ∀ quote, isQuote quote = true → checksVerbatim (some quote) text = true →
        ∃ body rest, text = body ++ quote :: rest ∧ IsInside quote body ∧ IsVerbatim rest := by
  induction text with
  | nil => exact ⟨fun _ => .run (by simp), fun _ _ checked => nomatch checked⟩
  | cons c rest ih =>
    refine ⟨fun checked => ?_, fun quote opens checked => ?_⟩
    · rw [checksVerbatim] at checked
      split at checked
      · rename_i opens
        obtain ⟨body, behind, rfl, inside, others⟩ := ih.2 c opens checked
        exact .string (List.forall_mem_nil _) opens inside others
      · obtain ⟨plain, others⟩ := Bool.and_eq_true_iff.mp checked
        exact (ih.1 others).cons plain
    · rw [checksVerbatim] at checked
      split at checked
      · rename_i closes
        obtain rfl := eq_of_beq closes
        exact ⟨[], rest, rfl, ⟨by simp, by simp⟩, ih.1 checked⟩
      · rename_i other
        simp only [Bool.and_eq_true, bne_iff_ne, Bool.not_eq_true', Bool.and_eq_false_iff,
          beq_eq_false_iff_ne] at checked
        obtain ⟨⟨⟨notEscape, notEol⟩, noExpr⟩, others⟩ := checked
        obtain ⟨body, behind, rfl, inside, isVerbatim⟩ := ih.2 quote opens others
        refine ⟨c :: body, behind, rfl, ?_, isVerbatim⟩
        refine inside.cons (by simpa using other) notEscape notEol fun isHash isBrace => ?_
        refine noExpr.resolve_left (not_not.mpr isHash) ?_
        rw [List.head?_append, isBrace]
        rfl

/-- Nothing is special in a text that stands on a line. -/
def isPhrase (text : List Char) : Bool :=
  checksVerbatim none text && text.head?.any (!Text.isBlank ·) && text.getLast?.any endsLine

theorem exists_phrase {text : List Char} (checked : isPhrase text = true) :
    ∃ phrase : Phrase, phrase.text = text := by
  simp only [isPhrase, Bool.and_eq_true] at checked
  obtain ⟨⟨plain, starts⟩, ends⟩ := checked
  exact ⟨⟨text, (isVerbatim_of_check text).1 plain, starts, ends⟩, rfl⟩

/-- A text may stand behind a colon in a selector. -/
def followsColon (text : List Char) : Bool :=
  text.head?.any (!Text.isBlank ·) && text.all isTameChar && text.getLast? != some '#' &&
    Lexer.rawWords.all fun word => !decide (word.toList <:+: text.map Char.toLower)

theorem followsColon_of_check {text : List Char} (checked : followsColon text = true) :
    FollowsColon text := by
  simp only [followsColon, Bool.and_eq_true, bne_iff_ne, List.all_eq_true, Bool.not_eq_true',
    decide_eq_false_iff_not] at checked
  obtain ⟨⟨⟨close, chars⟩, notHash⟩, noRaw⟩ := checked
  exact ⟨close, chars, notHash, noRaw⟩

/-- An asterisk in front belongs to no name. -/
def starIsAlone : List Char → Bool
  | '*' :: more => (ident? more).isNone
  | _ => true

/-- A text opens a rule, and nothing in it is special. -/
def isRuleHead (text : List Char) : Bool :=
  isPhrase text && text.head?.any startsSelector && starIsAlone text && (ident? text).all fun count =>
    match Text.afterBlanks (text.drop count) with
    | ':' :: more => followsColon more
    | _ => true

theorem exists_ruleHead {text : List Char} (checked : isRuleHead text = true) :
    ∃ head : RuleHead, head.text = text := by
  simp only [isRuleHead, Bool.and_eq_true] at checked
  obtain ⟨⟨⟨isPhrase, startsRule⟩, alone⟩, notProperty⟩ := checked
  obtain ⟨phrase, rfl⟩ := exists_phrase isPhrase
  refine ⟨⟨phrase, startsRule, fun more star => ?_, fun count more found colon => ?_⟩, rfl⟩
  · rw [star] at alone
    exact Option.isNone_iff_eq_none.mp alone
  · rw [found, Option.all_some, colon] at notProperty
    exact followsColon_of_check notProperty

/-- A directive without a meaning of its own has this name. -/
def isDirectiveName (name : List Char) : Bool :=
  isPhrase name && ident? name == some name.length && !reservedNames.contains (String.ofList name) &&
    name.map Char.toLower != "else".toList

theorem exists_directiveHead {name params : String} (isName : isDirectiveName name.toList = true)
    (isParams : (params.isEmpty || isPhrase params.toList) = true) :
    ∃ head : DirectiveHead, String.ofList head.name.text = name ∧ head.paramsText = params := by
  simp only [isDirectiveName, Bool.and_eq_true, beq_iff_eq, Bool.not_eq_true', bne_iff_ne] at isName
  obtain ⟨⟨⟨phrase, whole⟩, ordinary⟩, notElse⟩ := isName
  obtain ⟨phrase, isText⟩ := exists_phrase phrase
  rw [← isText] at whole ordinary notElse
  have ident := ident_of_whole whole
  have ordinary : String.ofList phrase.text ∉ reservedNames := by
    simpa [List.contains_eq_mem] using ordinary
  have named : String.ofList phrase.text = name := by rw [isText, String.ofList_toList]
  rcases Bool.or_eq_true_iff.mp isParams with empty | filled
  · rw [String.isEmpty_iff] at empty
    exact ⟨⟨phrase, ident, ordinary, notElse, none⟩, named, empty.symm⟩
  · obtain ⟨params', isText⟩ := exists_phrase filled
    refine ⟨⟨phrase, ident, ordinary, notElse, some params'⟩, named, ?_⟩
    change String.ofList params'.text = params
    rw [isText, String.ofList_toList]

/-- A text names a property. -/
def isPropertyName (name : List Char) : Bool :=
  ident? name == some name.length && name.head?.any startsHead && !name.contains '\n'

theorem exists_propertyName {name : String} (checked : isPropertyName name.toList = true) :
    ∃ found : PropertyName, String.ofList found.text = name := by
  simp only [isPropertyName, Bool.and_eq_true, beq_iff_eq, Bool.not_eq_true'] at checked
  obtain ⟨⟨whole, starts⟩, oneLine⟩ := checked
  have oneLine : '\n' ∉ name.toList := by simpa [List.contains_eq_mem] using oneLine
  exact ⟨⟨name.toList, ident_of_whole whole, starts, oneLine⟩, String.ofList_toList⟩

/-- The selector is read back from its text. -/
def isReadBack (selector : Selector) : Bool :=
  match Selector.parse (selector.toCss .nested) 0 with
  | .ok found => Selector.isSame found selector
  | .error _ => false

theorem parse_of_isReadBack {selector : Selector} (checked : isReadBack selector = true)
    (line : Nat) : Selector.parse (selector.toCss .nested) line = .ok selector := by
  unfold isReadBack at checked
  split at checked
  · rename_i found parsed
    rw [Selector.eq_of_isSame found selector checked] at parsed
    exact Selector.parse_ok.mpr (Selector.parse_ok.mp parsed)
  · cases checked

/-- The name of a character set is written between quotes. -/
def isCharsetName (name : List Char) : Bool :=
  name.all fun c => c != '"' && c != '\\' && c != '\n'

theorem exists_charsetName {name : String} (checked : isCharsetName name.toList = true) :
    ∃ found : CharsetName, String.ofList found.text = name := by
  refine ⟨⟨name.toList, fun c member => ?_⟩, String.ofList_toList⟩
  have plain := List.all_eq_true.mp checked c member
  simp only [Bool.and_eq_true, bne_iff_ne] at plain
  exact ⟨plain.1.1, plain.1.2, plain.2⟩

/-- What stands behind the name of an import that is left to the browser. -/
def isImportMedia (isLeft : Bool) : List Char → Bool
  | [] => isLeft
  | ' ' :: media => isPhrase media && media.all (!isImportEnd ·)
  | _ => false

theorem IsImportName.exists_import {name behind : List Char} {path : String} {isUrl : Bool}
    (isName : IsImportName name path isUrl)
    (checked : isImportMedia (isUrl || path.startsWith "http://" || path.startsWith "https://")
      behind = true) :
    ∃ target : BrowserImport, target.text = name ++ behind := by
  unfold isImportMedia at checked
  split at checked
  · refine ⟨⟨name, path, isUrl, isName, none, nofun, ?_⟩, rfl⟩
    rw [checked, Bool.true_or]
  · rename_i media
    obtain ⟨isPhrase, plain⟩ := Bool.and_eq_true_iff.mp checked
    obtain ⟨phrase, rfl⟩ := exists_phrase isPhrase
    refine ⟨⟨name, path, isUrl, isName, some phrase, ?_, Bool.or_true _⟩, rfl⟩
    rintro _ ⟨⟩ c member
    simpa using List.all_eq_true.mp plain c member
  · cases checked

/-- A text is a quoted path or an address, with media behind it. -/
def isImport : List Char → Bool
  | [] => false
  | c :: rest =>
    if isQuote c then
      let path := rest.takeWhile (· != c)
      path.all (fun d => d != '\\' && d != '\n') &&
        match rest.dropWhile (· != c) with
        | _ :: behind =>
          isImportMedia (false || (String.ofList path).startsWith "http://" ||
            (String.ofList path).startsWith "https://") behind
        | [] => false
    else
      let front := (c :: rest).takeWhile (· != ')')
      startsWithWord "url(" front && front.all (· != '\n') &&
        match (c :: rest).dropWhile (· != ')') with
        | _ :: behind => isImportMedia true behind
        | [] => false

/-- A text up to the first of some character, and what is behind it. -/
theorem split_at {c : Char} {text rest : List Char} {x : Char}
    (found : text.dropWhile (· != c) = x :: rest) :
    text = text.takeWhile (· != c) ++ [c] ++ rest ∧ ∀ d ∈ text.takeWhile (· != c), d ≠ c := by
  obtain rfl : x = c := by
    have stop := List.head?_dropWhile_not (· != c) text
    rw [found] at stop
    simpa using stop
  refine ⟨?_, fun d member => by simpa using List.mem_takeWhile_imp member⟩
  rw [List.append_assoc, List.singleton_append, ← found, List.takeWhile_append_dropWhile]

theorem exists_import {text : List Char} (checked : isImport text = true) :
    ∃ target : BrowserImport, target.text = text := by
  unfold isImport at checked
  split at checked
  · cases checked
  · rename_i c rest
    split at checked
    · rename_i quoted
      obtain ⟨plain, behind⟩ := Bool.and_eq_true_iff.mp checked
      split at behind
      · rename_i x others found
        obtain ⟨isRest, inside⟩ := split_at found
        have isName : IsImportName (c :: (rest.takeWhile (· != c) ++ [c]))
            (String.ofList (rest.takeWhile (· != c))) false := by
          refine .quoted quoted fun d member => ⟨inside d member, ?_⟩
          simpa using List.all_eq_true.mp plain d member
        obtain ⟨target, isText⟩ := isName.exists_import behind
        exact ⟨target, by rw [isText, List.cons_append, ← isRest]⟩
      · cases behind
    · obtain ⟨front, behind⟩ := Bool.and_eq_true_iff.mp checked
      obtain ⟨word, oneLine⟩ := Bool.and_eq_true_iff.mp front
      split at behind
      · rename_i x others found
        obtain ⟨isRest, inside⟩ := split_at found
        have isName := IsImportName.url word fun d member =>
          ⟨inside d member, by simpa using List.all_eq_true.mp oneLine d member⟩
        obtain ⟨target, isText⟩ := isName.exists_import behind
        exact ⟨target, by rw [isText, ← isRest]⟩
      · cases behind

/-- A text is a comment on one line with a blank at its end. -/
def isRemark (text : List Char) : Bool :=
  let content := (text.drop 2).dropLast.dropLast.dropLast
  text == '/' :: '*' :: (content ++ [' ', '*', '/']) && !content.contains '\n' &&
    !decide (['*', '/'] <:+: content) && !decide (['#', '\x7b'] <:+: content) &&
    content.head? != some '*'

theorem exists_remark {text : List Char} (checked : isRemark text = true) :
    ∃ remark : Remark, remark.text = text := by
  simp only [isRemark, Bool.and_eq_true, beq_iff_eq, bne_iff_ne, Bool.not_eq_true',
    decide_eq_false_iff_not] at checked
  obtain ⟨⟨⟨⟨isText, oneLine⟩, noEnd⟩, noExpr⟩, notStar⟩ := checked
  refine ⟨⟨_, ?_, noEnd, noExpr, notStar⟩, isText.symm⟩
  simpa [List.contains_eq_mem] using oneLine

end Texts

/-- Literals with their texts for them. -/
abbrev FaithfulLiteral := { l : WrittenLiteral // l.IsFaithful }

/-- A word or a plain string as it is written. -/
def Value.literal? : Value → Option FaithfulLiteral
  | .text content false =>
    if checked : ident? content.toList = some content.toList.length ∧
        content.toList.all (fun c => isNameChar c && !Text.isBlank c) = true ∧
        String.ofList content.toList ∉ ["true", "false", "and", "or", "not"] ∧
        Color.ofName? (String.ofList content.toList) = none then
      have ordinary : ∀ c ∈ content.toList, isNameChar c = true ∧ Text.isBlank c = false := by
        simpa using checked.2.1
      let word : Word := ⟨content.toList, checked.1, ordinary, checked.2.2.1, checked.2.2.2⟩
      some ⟨word.literal, word.isFaithful⟩
    else none
  | .text content true =>
    if plain : content.toList.all isQuotable = true then
      let quoted : QuotedText := ⟨content.toList, List.all_eq_true.mp plain⟩
      some ⟨quoted.literal, quoted.isFaithful⟩
    else none
  | _ => none

/-- The items of a list with this separator; any other value is a list of itself. -/
def Value.itemsOf (separator : Separator) : Value → List Value
  | .list items other => if other = separator then items else [.list items other]
  | other => [other]

/-- A list of which no group is empty. -/
def WrittenList.ofGroups? :
    List (List FaithfulLiteral) → Option { w : WrittenList // w.IsFaithful }
  | (first :: items) :: groups =>
    if filled : ∀ g ∈ groups, g ≠ [] then
      some ⟨⟨first.1, items.map (·.1), groups.map (·.map (·.1)), by
        intro g member
        obtain ⟨group, isGroup, rfl⟩ := List.mem_map.mp member
        exact fun empty => filled group isGroup (List.map_eq_nil_iff.mp empty)⟩, by
        intro l member
        simp only [WrittenList.literals, List.mem_cons, List.mem_append, List.mem_map,
          List.mem_flatten] at member
        rcases member with rfl | ⟨item, _, rfl⟩ | ⟨_, ⟨g, _, rfl⟩, inside⟩
        · exact first.2
        · exact item.2
        · obtain ⟨item, _, rfl⟩ := List.mem_map.mp inside
          exact item.2⟩
    else none
  | _ => none

/-- A value as a list of words and plain strings. -/
def Value.written? (value : Value) : Option { w : WrittenList // w.IsFaithful } :=
  ((value.itemsOf .comma).mapM fun (g : Value) => (g.itemsOf .space).mapM Value.literal?).bind
    WrittenList.ofGroups?

/-- The text of a value is that of a list of words and plain strings. -/
def Value.isPlainList (value : Value) : Bool :=
  match value.written?, value.toCss .nested with
  | some found, .ok shown => shown == String.ofList found.1.text
  | _, _ => false

theorem Value.exists_list {value : Value} (checked : value.isPlainList = true) :
    ∃ list : WrittenList, list.IsFaithful ∧
      value.toCss .nested = .ok (String.ofList list.text) := by
  unfold isPlainList at checked
  split at checked
  · rename_i found _ _ shown
    exact ⟨found.1, found.2, by rw [shown, eq_of_beq checked]⟩
  · cases checked

namespace Css

/-- A node is legible by itself. -/
def isLegibleNode (style : Style) (kind : CssKind) (isEmpty : Bool) : Bool :=
  match kind with
  | .rule selector =>
    isRuleHead (selector.toCss .nested).toList && isReadBack selector && !selector.hasParentRef
  | .media query => isPhrase query.toList
  | .directive name params hasBlock =>
    isDirectiveName name.toList && (params.isEmpty || isPhrase params.toList) && hasBlock == !isEmpty
  | .property name (some value) =>
    isPropertyName name.toList && Text.trim name == name && value.isPlainList
  | .charset name => isCharsetName name.toList
  | .importing uri => isImport uri.toList
  | .comment text preserved =>
    isRemark text.toList && preserved == text.startsWith "/*!" &&
      (!style.isCompressed || preserved)
  | _ => false

variable {style : Style}

theorem isLegible_of_node {c : Css} (checked : isLegibleNode style c.kind c.children.isEmpty = true) :
    c.IsLegible style := by
  obtain ⟨kind, children, line, filename, tabs, groupEnd⟩ := c
  unfold isLegibleNode at checked
  split at checked
  · rename_i selector isKind
    simp only [Bool.and_eq_true, Bool.not_eq_true'] at checked
    obtain ⟨⟨isHead, back⟩, isTop⟩ := checked
    obtain ⟨head, isText⟩ := exists_ruleHead isHead
    have isText : selector.toCss .nested = String.ofList head.text := by
      rw [isText, String.ofList_toList]
    refine .rule isKind head isText (fun line => ?_) isTop
    rw [← isText]
    exact parse_of_isReadBack back line
  · rename_i query isKind
    obtain ⟨phrase, isText⟩ := exists_phrase checked
    exact .media phrase (isKind.trans (by rw [isText, String.ofList_toList]))
  · rename_i name params hasBlock isKind
    simp only [Bool.and_eq_true, beq_iff_eq] at checked
    obtain ⟨⟨isName, isParams⟩, filled⟩ := checked
    obtain ⟨head, rfl, rfl⟩ := exists_directiveHead isName isParams
    cases hasBlock with
    | true => exact .directive head isKind (by simpa using filled.symm)
    | false => exact .statement head isKind (by simpa using filled.symm)
  · rename_i name value isKind
    simp only [Bool.and_eq_true, beq_iff_eq] at checked
    obtain ⟨⟨isName, trimmed⟩, isList⟩ := checked
    obtain ⟨found, rfl⟩ := exists_propertyName isName
    obtain ⟨list, faithful, shown⟩ := value.exists_list isList
    exact .property found isKind trimmed list.value (list.isFaithful_value faithful) shown
  · rename_i name isKind
    obtain ⟨found, rfl⟩ := exists_charsetName checked
    exact .charset found isKind
  · rename_i uri isKind
    obtain ⟨target, isText⟩ := exists_import checked
    exact .importing target (isKind.trans (by rw [isText, String.ofList_toList]))
  · rename_i text preserved isKind
    simp only [Bool.and_eq_true, beq_iff_eq] at checked
    obtain ⟨⟨isRemark, kept⟩, stays⟩ := checked
    obtain ⟨remark, isText⟩ := exists_remark isRemark
    have isText : String.ofList remark.text = text := by rw [isText, String.ofList_toList]
    have isKept : preserved = remark.isKept := by rw [kept, Remark.isKept, isText]
    refine .comment remark (isKind.trans (by rw [isText, isKept])) fun compressed => ?_
    rw [compressed, isKept] at stays
    simpa using stays
  · cases checked

mutual

/-- All nodes of a tree are legible by themselves. -/
def isLegibleTree (style : Style) : Css → Bool
  | ⟨kind, children, _, _, _, _⟩ =>
    isLegibleNode style kind children.isEmpty && areLegibleTrees style children

def areLegibleTrees (style : Style) : List Css → Bool
  | [] => true
  | c :: rest => isLegibleTree style c && areLegibleTrees style rest

end

mutual

theorem isLegible_of_tree : (c : Css) → c.isLegibleTree style = true → c.Everywhere (IsLegible style)
  | ⟨kind, children, line, filename, tabs, groupEnd⟩, checked => by
    obtain ⟨here, below⟩ := Bool.and_eq_true_iff.mp checked
    exact .intro (isLegible_of_node here) (areLegible_of_trees children below)

theorem areLegible_of_trees : (found : List Css) → areLegibleTrees style found = true →
    ∀ c ∈ found, c.Everywhere (IsLegible style)
  | [], _ => nofun
  | c :: rest, checked => by
    obtain ⟨first, others⟩ := Bool.and_eq_true_iff.mp checked
    intro d member
    rcases List.mem_cons.mp member with same | behind
    · exact same ▸ isLegible_of_tree c first
    · exact areLegible_of_trees rest others d behind

end

end Css

end Stylesheet
