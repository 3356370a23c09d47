import Stylesheet.Css.Source
import Stylesheet.Proofs.Statement.Taking
import Stylesheet.Proofs.Token.Sequence

/-! Statements as they are written in either dialect. A block is told by a plain text in front of it, a
declaration by an identifier and a text that is read as a value; directives without a block, character
sets, imports that are left to the browser and comments stand by themselves. -/

namespace Stylesheet

open Scan Header

/-- A character that no other statement than a rule or a property starts with. -/
def startsHead (c : Char) : Bool :=
  !Text.isBlank c && !(['$', '@', '/', '*', '=', '+', ':', '\\', ';', '\x7b', '\x7d'].contains c)

theorem startsHead_notBlank {c : Char} (starts : startsHead c = true) : Text.isBlank c = false := by
  simp only [startsHead, Bool.and_eq_true, Bool.not_eq_true'] at starts
  exact starts.1

/-- A character that a selector starts with. -/
def startsSelector (c : Char) : Bool :=
  startsHead c || c == '*' || c == ':'

theorem startsSelector_of_startsHead {c : Char} (starts : startsHead c = true) :
    startsSelector c = true := by
  rw [startsSelector, starts]
  rfl

/-- A character that starts a rule, a directive or a property. -/
def startsStatement (c : Char) : Bool :=
  startsSelector c || c == '@' || c == '\\'

theorem startsStatement_of_startsSelector {c : Char} (starts : startsSelector c = true) :
    startsStatement c = true := by
  rw [startsStatement, starts]
  rfl

theorem startsStatement_notBlank {c : Char} (starts : startsStatement c = true) :
    Text.isBlank c = false := by
  simp only [startsStatement, startsSelector, Bool.or_eq_true, beq_iff_eq] at starts
  rcases starts with ((((head | rfl) | rfl) | rfl) | rfl)
  · exact startsHead_notBlank head
  all_goals decide

/-- A character behind which a line is complete. -/
def endsLine (c : Char) : Bool :=
  !Text.isBlank c && c != ',' && c != '#'

theorem endsLine_notBlank {c : Char} (ends : endsLine c = true) : Text.isBlank c = false := by
  simp only [endsLine, Bool.and_eq_true, Bool.not_eq_true'] at ends
  exact ends.1.1

/-- A text on a line by itself in which nothing is special. -/
structure Phrase where
  text : List Char
  plain : IsVerbatim text
  starts : text.head?.any (!Text.isBlank ·) = true
  ends : text.getLast?.any endsLine = true

namespace Phrase

variable (phrase : Phrase)

theorem exists_cons : ∃ x more, phrase.text = x :: more ∧ Text.isBlank x = false := by
  obtain ⟨x, isHead, starts⟩ := (Option.any_eq_true _ _).mp phrase.starts
  obtain ⟨more, isText⟩ := List.head?_eq_some_iff.mp isHead
  exact ⟨x, more, isText, by simpa using starts⟩

theorem exists_concat : ∃ front x, phrase.text = front ++ [x] ∧ endsLine x = true := by
  obtain ⟨x, isLast, ends⟩ := (Option.any_eq_true _ _).mp phrase.ends
  obtain ⟨front, isText⟩ := List.getLast?_eq_some_iff.mp isLast
  exact ⟨front, x, isText, ends⟩

theorem unescaped : '\\' ∉ phrase.text :=
  fun member => (phrase.plain.mem_ne _ member).1 rfl

theorem oneLine : '\n' ∉ phrase.text :=
  fun member => (phrase.plain.mem_ne _ member).2 rfl

theorem notHash : phrase.text.getLast? ≠ some '#' := by
  obtain ⟨front, last, isConcat, ends⟩ := phrase.exists_concat
  rw [isConcat, List.getLast?_concat]
  rintro ⟨⟩
  cases ends

/-- What a text is read as. -/
def template : Template :=
  Template.ofText (String.ofList phrase.text)

theorem template_eq : phrase.template = [.text (String.ofList phrase.text)] := by
  obtain ⟨x, more, isText, _⟩ := phrase.exists_cons
  unfold template Template.ofText Template.pushText
  rw [if_neg (by simp [isText])]
  rfl

end Phrase

theorem Template.trimmed_text (content : String) :
    Template.trimmed [.text content] =
      if (Text.trimEnd (Text.trimStart content)).isEmpty then []
      else [.text (Text.trimEnd (Text.trimStart content))] := by
  unfold Template.trimmed
  cases empty : (Text.trimEnd (Text.trimStart content)).isEmpty with
  | true => exact List.filter_cons_of_neg (by simp [empty])
  | false => exact List.filter_cons_of_pos (by simp [empty])

/-- Blanks behind a text are trimmed. -/
theorem Phrase.trimmed (phrase : Phrase) {blanks : List Char}
    (blank : ∀ c ∈ blanks, Text.isBlank c = true) :
    Template.trimmed (Template.ofText (String.ofList (phrase.text ++ blanks))) =
      phrase.template := by
  obtain ⟨x, more, isText, notBlank⟩ := phrase.exists_cons
  obtain ⟨front, last, isConcat, ends⟩ := phrase.exists_concat
  have lastNotBlank := endsLine_notBlank ends
  have atStart : Text.trimStart (String.ofList (phrase.text ++ blanks)) =
      String.ofList (phrase.text ++ blanks) := by
    unfold Text.trimStart
    rw [String.toList_ofList, isText, List.cons_append,
      List.dropWhile_cons_of_neg (by simp [notBlank])]
  have atEnd : Text.trimEnd (String.ofList (phrase.text ++ blanks)) = String.ofList phrase.text := by
    unfold Text.trimEnd
    rw [String.toList_ofList, isConcat, List.append_assoc,
      Text.dropEndWhile_append lastNotBlank blank]
  have whole : Template.ofText (String.ofList (phrase.text ++ blanks)) =
      [.text (String.ofList (phrase.text ++ blanks))] := by
    unfold Template.ofText Template.pushText
    rw [if_neg (by simp [isText])]
    rfl
  have filled : (String.ofList phrase.text).isEmpty = false := by simp [isText]
  rw [whole, phrase.template_eq]
  rw [Template.trimmed_text, atStart, atEnd, filled]
  rfl

/-- What stands behind a colon in a selector: no blank as in a property, and nothing that could be read
as a value beyond the brace behind it. -/
structure FollowsColon (text : List Char) : Prop where
  close : text.head?.any (!Text.isBlank ·) = true
  tame : IsTame text

theorem FollowsColon.exists_peek {text tail : List Char} (follows : FollowsColon text) {c : Cursor}
    (isText : c.rest = text ++ tail) : ∃ x, c.peek? = some x ∧ Text.isBlank x = false := by
  obtain ⟨x, isHead, notBlank⟩ := (Option.any_eq_true _ _).mp follows.close
  refine ⟨x, ?_, by simpa using notBlank⟩
  rw [Cursor.peek?, isText, List.head?_append, isHead]
  rfl

/-- What stands in front of the block of a rule: it does not look like a property. -/
structure RuleHead extends Phrase where
  startsRule : text.head?.any startsSelector = true
  starIsAlone : ∀ more, text = '*' :: more → ident? more = none
  notProperty : ∀ count more, ident? text = some count →
    Text.afterBlanks (text.drop count) = ':' :: more → FollowsColon more

namespace RuleHead

variable (head : RuleHead)

theorem exists_starts : ∃ x more, head.text = x :: more ∧ startsSelector x = true := by
  obtain ⟨x, isHead, starts⟩ := (Option.any_eq_true _ _).mp head.startsRule
  obtain ⟨more, isText⟩ := List.head?_eq_some_iff.mp isHead
  exact ⟨x, more, isText, starts⟩

/-- The head as it is written: by indentation, a colon in front would be that of a property. -/
def source (dialect : Dialect) : List Char :=
  if dialect == .indented && head.text.head? == some ':' then '\\' :: head.text else head.text

theorem source_cases (dialect : Dialect) :
    head.source dialect = head.text ∧ (dialect = .indented → head.text.head? ≠ some ':') ∨
      head.source dialect = '\\' :: head.text ∧ dialect = .indented ∧ head.text.head? = some ':' := by
  unfold source
  split
  · rename_i colon
    simp only [Bool.and_eq_true, beq_iff_eq] at colon
    exact .inr ⟨rfl, colon⟩
  · rename_i noColon
    refine .inl ⟨rfl, ?_⟩
    rintro rfl colon
    exact noColon (by rw [colon]; rfl)

end RuleHead

/-- The names of directives with a meaning of their own. -/
def reservedNames : List String :=
  ["import", "mixin", "function", "include", "return", "debug", "warn", "if", "else", "while", "for",
    "each", "extend", "media", "charset"]

/-- A directive without a meaning of its own, up to its block. -/
structure DirectiveHead where
  name : Phrase
  ident : Ident name.text
  ordinary : String.ofList name.text ∉ reservedNames
  notElse : (name.text.map Char.toLower ≠ "else".toList)
  params : Option Phrase

theorem DirectiveHead.unplaced_params (head : DirectiveHead) :
    Part.unplacedAll (head.params.elim [] Phrase.template) = head.params.elim [] Phrase.template := by
  cases head.params with
  | none => rfl
  | some params => exact Part.unplacedAll_ofText _

/-- What opens a block. -/
inductive Opening where
  | rule (head : RuleHead)
  | media (query : Phrase)
  | directive (head : DirectiveHead)

namespace Opening

/-- What stands behind the name of a directive. -/
def paramsText : Option Phrase → List Char
  | none => []
  | some params => ' ' :: params.text

def text : Opening → List Char
  | rule head => head.text
  | media query => '@' :: ("media".toList ++ paramsText (some query))
  | directive head => '@' :: (head.name.text ++ paramsText head.params)

/-- What a block is read as. -/
def kind : Opening → StatementKind
  | rule head => .rule head.template
  | media query => .media query.template
  | directive head =>
    .directive (String.ofList head.name.text) (head.params.elim [] Phrase.template) true

/-- The text as it is written in a dialect. -/
def source (dialect : Dialect) : Opening → List Char
  | rule head => head.source dialect
  | media query => (media query).text
  | directive head => (directive head).text

@[simp] theorem source_scss (opening : Opening) : opening.source .scss = opening.text := by
  cases opening <;> rfl

/-- A dialect adds nothing but a backslash in front. -/
theorem source_cases (opening : Opening) (dialect : Dialect) :
    opening.source dialect = opening.text ∨ opening.source dialect = '\\' :: opening.text := by
  cases opening with
  | rule head => exact (head.source_cases dialect).imp And.left And.left
  | media query | directive head => exact .inl rfl

theorem exists_cons_text (opening : Opening) :
    ∃ x more, opening.text = x :: more ∧ startsStatement x = true := by
  cases opening with
  | rule head =>
    obtain ⟨x, more, isText, starts⟩ := head.exists_starts
    exact ⟨x, more, isText, startsStatement_of_startsSelector starts⟩
  | media query => exact ⟨'@', _, rfl, rfl⟩
  | directive head => exact ⟨'@', _, rfl, rfl⟩

theorem exists_cons (opening : Opening) (dialect : Dialect) :
    ∃ x more, opening.source dialect = x :: more ∧ startsStatement x = true := by
  rcases opening.source_cases dialect with same | escaped
  · rw [same]
    exact opening.exists_cons_text
  · exact ⟨'\\', _, escaped, rfl⟩

theorem exists_concat_text (opening : Opening) :
    ∃ front x, opening.text = front ++ [x] ∧ endsLine x = true := by
  have behind : ∀ (front : List Char) (phrase : Phrase),
      ∃ initial x, front ++ phrase.text = initial ++ [x] ∧ endsLine x = true := by
    intro front phrase
    obtain ⟨initial, x, isText, ends⟩ := phrase.exists_concat
    exact ⟨front ++ initial, x, by rw [isText, List.append_assoc], ends⟩
  cases opening with
  | rule head => exact head.exists_concat
  | media query => exact behind ('@' :: ("media".toList ++ [' '])) query
  | directive head =>
    rw [text]
    cases head.params with
    | none =>
      rw [paramsText, List.append_nil]
      exact behind ['@'] head.name
    | some params =>
      have last := behind ('@' :: (head.name.text ++ [' '])) params
      rwa [List.cons_append, List.append_assoc] at last

theorem exists_concat (opening : Opening) (dialect : Dialect) :
    ∃ front x, opening.source dialect = front ++ [x] ∧ endsLine x = true := by
  obtain ⟨front, x, isText, ends⟩ := opening.exists_concat_text
  rcases opening.source_cases dialect with same | escaped
  · exact ⟨front, x, same.trans isText, ends⟩
  · exact ⟨'\\' :: front, x, by rw [escaped, isText, List.cons_append], ends⟩

theorem oneLine_text (opening : Opening) : '\n' ∉ opening.text := by
  cases opening with
  | rule head => exact head.oneLine
  | media query => simp [text, paramsText, query.oneLine]
  | directive head =>
    rw [text]
    cases head.params with
    | none => simp [paramsText, head.name.oneLine]
    | some params => simp [paramsText, head.name.oneLine, params.oneLine]

theorem oneLine (opening : Opening) (dialect : Dialect) : '\n' ∉ opening.source dialect := by
  rcases opening.source_cases dialect with same | escaped
  · rw [same]
    exact opening.oneLine_text
  · rw [escaped]
    simp [opening.oneLine_text]

def isDirective : Opening → Bool
  | directive _ => true
  | _ => false

theorem unplaced_kind (opening : Opening) : opening.kind.unplaced = opening.kind := by
  cases opening with
  | rule head => rw [kind, StatementKind.unplaced, Phrase.template, Part.unplacedAll_ofText]
  | media query => rw [kind, StatementKind.unplaced, Phrase.template, Part.unplacedAll_ofText]
  | directive head => rw [kind, StatementKind.unplaced, head.unplaced_params]

end Opening

/-- The name of a property. -/
structure PropertyName where
  text : List Char
  ident : Ident text
  starts : text.head?.any startsHead = true
  oneLine : '\n' ∉ text

/-- A value as it is written, with what it is read as. -/
structure WrittenValue where
  text : List Char
  expr : Expr
  isValue : IsValue text expr
  oneLine : '\n' ∉ text
  ends : text.getLast?.any endsLine = true

/-- The name of a character set, without its quotes. -/
structure CharsetName where
  text : List Char
  plain : ∀ c ∈ text, c ≠ '"' ∧ c ≠ '\\' ∧ c ≠ '\n'

/-- What an import names, as it is written: a string or an address, with the path in it. -/
inductive IsImportName : List Char → String → Bool → Prop where
  | quoted {quote : Char} {path : List Char} (isQuote : isQuote quote = true)
      (plain : ∀ c ∈ path, c ≠ quote ∧ c ≠ '\\' ∧ c ≠ '\n') :
      IsImportName (quote :: (path ++ [quote])) (String.ofList path) false
  | url {front : List Char} (word : startsWithWord "url(" front = true)
      (plain : ∀ c ∈ front, c ≠ ')' ∧ c ≠ '\n') :
      IsImportName (front ++ [')']) (Text.trim (String.ofList (front.drop 4))) true

/-- An import that is left to the browser, as it is written: what it names, and the media that it is
for. -/
structure BrowserImport where
  name : List Char
  path : String
  isUrl : Bool
  isName : IsImportName name path isUrl
  media : Option Phrase
  mediaPlain : ∀ phrase, media = some phrase → ∀ c ∈ phrase.text, isImportEnd c = false
  isLeft : (isUrl || path.startsWith "http://" || path.startsWith "https://" || media.isSome) = true

namespace IsImportName

variable {name : List Char} {path : String} {isUrl : Bool}

theorem oneLine (isName : IsImportName name path isUrl) : '\n' ∉ name := by
  cases isName with
  | quoted isQuote plain =>
    intro member
    simp only [List.mem_cons, List.mem_append, List.not_mem_nil, or_false] at member
    rcases member with rfl | inside | rfl
    · cases isQuote
    · exact (plain _ inside).2.2 rfl
    · cases isQuote
  | url word plain =>
    intro member
    rcases List.mem_append.mp member with inside | last
    · exact (plain _ inside).2 rfl
    · cases List.mem_singleton.mp last

theorem exists_concat (isName : IsImportName name path isUrl) :
    ∃ front x, name = front ++ [x] ∧ endsLine x = true := by
  cases isName with
  | @quoted quote path isQuote plain =>
    refine ⟨quote :: path, quote, rfl, ?_⟩
    simp only [Header.isQuote, Bool.or_eq_true, beq_iff_eq] at isQuote
    rcases isQuote with rfl | rfl <;> decide
  | url word plain => exact ⟨_, ')', rfl, by decide⟩

end IsImportName

namespace BrowserImport

variable (target : BrowserImport)

def text : List Char :=
  target.name ++ Opening.paramsText target.media

end BrowserImport

/-- A statement without a block, as it is written. -/
inductive Leaf where
  | declaration (name : PropertyName) (value : WrittenValue)
  | directive (head : DirectiveHead)
  | charset (name : CharsetName)
  | importing (target : BrowserImport)

namespace Leaf

/-- The text of a statement, up to its semicolon. -/
def text : Leaf → List Char
  | declaration name value => name.text ++ ':' :: ' ' :: value.text
  | directive head => (Opening.directive head).text
  | charset name => '@' :: ("charset".toList ++ ' ' :: '"' :: (name.text ++ ['"']))
  | importing target => '@' :: ("import".toList ++ ' ' :: target.text)

/-- What a statement is read as. -/
def kind : Leaf → StatementKind
  | declaration name value => .property (Template.ofText (String.ofList name.text)) (some value.expr)
  | directive head =>
    .directive (String.ofList head.name.text) (head.params.elim [] Phrase.template) false
  | charset name => .charset (String.ofList name.text)
  | importing target => .importing (.css (Template.ofText (String.ofList target.text)))

end Leaf

/-- What stands in a comment on one line. The indented dialect takes an asterisk in front away. -/
structure Remark where
  content : List Char
  oneLine : '\n' ∉ content
  noEnd : ¬ ['*', '/'] <:+: content
  noExpr : ¬ ['#', '\x7b'] <:+: content
  notStar : content.head? ≠ some '*'

namespace Remark

/-- The comment with its delimiters. -/
def text (remark : Remark) : List Char :=
  '/' :: '*' :: (remark.content ++ [' ', '*', '/'])

/-- What a comment is read as. -/
def kind (remark : Remark) : StatementKind :=
  .comment (Template.ofText (String.ofList remark.text)) false

/-- A comment that compressed output keeps. -/
def isKept (remark : Remark) : Bool :=
  (String.ofList remark.text).startsWith "/*!"

end Remark

/-- A statement as it is written. -/
inductive Written where
  | block (opening : Opening) (body : List Written)
  | leaf (l : Leaf)
  | comment (remark : Remark)

namespace Written

mutual

/-- The source of a statement. -/
def text (dialect : Dialect) (depth : Nat) : Written → String
  | block opening body =>
    SourceText.block dialect depth (String.ofList (opening.source dialect))
      (textOfAll dialect (depth + 1) body)
  | leaf l => SourceText.statement dialect depth (String.ofList l.text)
  | comment remark => SourceText.comment dialect depth (String.ofList remark.text)

def textOfAll (dialect : Dialect) (depth : Nat) : List Written → String
  | [] => ""
  | w :: rest => text dialect depth w ++ textOfAll dialect depth rest

end

mutual

/-- What a statement is read as, without places. -/
def statement : Written → Statement
  | block opening body => .mk opening.kind (statements body) 0 default none
  | leaf l => .mk l.kind [] 0 default none
  | comment remark => .mk remark.kind [] 0 default none

def statements : List Written → List Statement
  | [] => []
  | w :: rest => statement w :: statements rest

end

end Written

section Heads

variable {tail : List Char}

/-- Nothing but a blank stands behind the text in front of a block. -/
def EndsHead (tail : List Char) : Prop :=
  (∀ c, tail.head? = some c → c = ' ') ∧ (Text.afterBlanks tail).head? ≠ some ':'

/-- No expression begins in a part of the text in front of a block. -/
theorem RuleHead.not_opens (head : RuleHead) (ends : EndsHead tail) {part : List Char}
    (inside : part <:+ head.text) (behind : List Char) : part ++ tail ≠ '#' :: '\x7b' :: behind := by
  intro same
  match part with
  | [] => cases ends.1 '#' (by simpa using congrArg List.head? same)
  | ['#'] => cases ends.1 '\x7b' (by simpa using congrArg List.head? (List.cons.inj same).2)
  | _ :: y :: more =>
    cases same
    exact head.plain.noExpr ((List.infix_append' [] _ more).trans inside.isInfix)

theorem RuleHead.startsPlain (head : RuleHead) (ends : EndsHead tail)
    (notStar : head.text.head? ≠ some '*') : StartsPlain (head.text ++ tail) := by
  obtain ⟨x, more, isText, starts⟩ := head.exists_starts
  refine ⟨?_, head.not_opens ends (List.suffix_refl _)⟩
  rwa [isText] at notStar ⊢

/-- In front of a rule there is no name of a property, or what stands behind its colon belongs to a
selector. -/
theorem RuleHead.reads_name (head : RuleHead) (lines : LineIndex) (ends : EndsHead tail) :
    (∃ rest, Reads lines propertyName? (head.text ++ tail) (· = none) rest) ∨
      ∃ name rest, Reads lines propertyName? (head.text ++ tail) (· = some name) rest ∧
        ∀ more, Text.afterBlanks rest = ':' :: more →
          ∃ left, more = left ++ tail ∧ FollowsColon left := by
  by_cases star : head.text.head? = some '*'
  · left
    obtain ⟨more, isText⟩ := List.head?_eq_some_iff.mp star
    have isSuffix : more <:+ head.text := isText ▸ List.suffix_cons '*' more
    refine ⟨more ++ tail, ?_⟩
    rw [isText, List.cons_append]
    apply Reads.propertyName_star (head.not_opens ends isSuffix)
    cases more with
    | nil => exact ident?_blank ends.1
    | cons y rest =>
      have unescaped : '\\' ∉ y :: rest := fun member => head.unescaped (isSuffix.mem member)
      exact ident?_append_none unescaped (by simp) ends.1 (head.starIsAlone _ isText)
  have starts := head.startsPlain ends star
  obtain ⟨x, more, isText, _⟩ := head.exists_cons
  cases found : ident? head.text with
  | none =>
    left
    refine ⟨_, .propertyName_none starts ?_⟩
    exact ident?_append_none head.unescaped (by simp [isText]) ends.1 found
  | some count =>
    right
    obtain ⟨ident, inside⟩ := ident?_take found
    have stop : ∀ c, (head.text.drop count ++ tail).head? = some c →
        isNameChar c = false ∧ c ≠ '\\' := by
      intro c isHead
      cases behind : head.text.drop count with
      | nil =>
        rw [behind] at isHead
        rw [ends.1 c isHead]
        decide
      | cons d rest =>
        rw [behind] at isHead
        cases isHead
        refine ⟨ident?_stop head.unescaped found c (by rw [behind]; rfl), ?_⟩
        rintro rfl
        have member : '\\' ∈ head.text.drop count := by simp [behind]
        exact head.unescaped (List.mem_of_mem_drop member)
    have split : head.text ++ tail = head.text.take count ++ (head.text.drop count ++ tail) := by
      rw [← List.append_assoc, List.take_append_drop]
    rw [split] at starts ⊢
    refine ⟨_, _, Reads.propertyName_some starts ident ?_ ?_, ?_⟩
    · exact nameTail_eq_zero (fun escape => (stop _ escape).2 rfl) fun c isHead => (stop c isHead).1
    · exact head.not_opens ends (List.drop_suffix count head.text)
    · intro more colon
      rw [Text.afterBlanks, List.dropWhile_append] at colon
      split at colon
      · exact absurd (by rw [Text.afterBlanks, colon]; rfl) ends.2
      · cases behind : (head.text.drop count).dropWhile Text.isBlank with
        | nil =>
          rename_i filled
          exact absurd (by rw [behind]; rfl) filled
        | cons y left =>
          rw [behind] at colon
          cases colon
          exact ⟨left, rfl, head.notProperty count left found behind⟩

theorem PropertyName.exists_cons (name : PropertyName) :
    ∃ x more, name.text = x :: more ∧ startsHead x = true := by
  obtain ⟨x, more, isText, _⟩ := name.ident.exists_cons
  have starts := name.starts
  rw [isText] at starts
  exact ⟨x, more, isText, starts⟩

theorem PropertyName.startsPlain (name : PropertyName) : StartsPlain (name.text ++ tail) := by
  obtain ⟨x, more, isText, starts⟩ := name.exists_cons
  have notHash : x ≠ '#' := by
    rintro rfl
    have ident := name.ident
    rw [isText] at ident
    cases ident with
    | plain body => cases body with
      | start isStart => cases isStart
  rw [isText]
  constructor
  · rintro ⟨⟩
    cases starts
  · intro behind same
    exact notHash (List.cons.inj same).1

end Heads

/-- Nothing is trimmed if there is no blank in front or behind. -/
theorem Text.trim_of_ends {text more front : List Char} {x last : Char} (starts : text = x :: more)
    (notBlank : Text.isBlank x = false) (ends : text = front ++ [last])
    (lastNotBlank : Text.isBlank last = false) :
    Text.trim (String.ofList text) = String.ofList text := by
  have atEnd : Text.dropEndWhile Text.isBlank text = text := by
    have dropped : Text.dropEndWhile Text.isBlank (front ++ ([last] ++ [])) = front ++ [last] :=
      Text.dropEndWhile_append lastNotBlank fun c member => nomatch member
    rwa [List.append_nil, ← ends] at dropped
  unfold Text.trim
  rw [String.toList_ofList, starts, List.dropWhile_cons_of_neg (by simp [notBlank]), ← starts, atEnd]

theorem Phrase.trim (phrase : Phrase) :
    Text.trim (String.ofList phrase.text) = String.ofList phrase.text := by
  obtain ⟨x, more, isText, notBlank⟩ := phrase.exists_cons
  obtain ⟨front, last, isConcat, ends⟩ := phrase.exists_concat
  exact Text.trim_of_ends isText notBlank isConcat (endsLine_notBlank ends)

namespace BrowserImport

variable (target : BrowserImport)

theorem oneLine : '\n' ∉ target.text := by
  unfold text
  cases target.media with
  | none => simp [Opening.paramsText, target.isName.oneLine]
  | some media => simp [Opening.paramsText, target.isName.oneLine, media.oneLine]

theorem exists_concat : ∃ front x, target.text = front ++ [x] ∧ endsLine x = true := by
  unfold text
  cases target.media with
  | none =>
    rw [Opening.paramsText, List.append_nil]
    exact target.isName.exists_concat
  | some media =>
    obtain ⟨front, x, isText, ends⟩ := media.exists_concat
    exact ⟨target.name ++ ' ' :: front, x, by simp [Opening.paramsText, isText], ends⟩

/-- What is written for an import is left to the browser as it stands. -/
theorem target_eq :
    importTarget (String.ofList target.name) target.path
        (target.media.elim "" fun media => String.ofList media.text) target.isUrl =
      .css (Template.ofText (String.ofList target.text)) := by
  have whole : Text.trimEnd (String.ofList target.name ++ " " ++
      target.media.elim "" fun media => String.ofList media.text) = String.ofList target.text := by
    have spelled : (String.ofList target.name ++ " " ++
        target.media.elim "" fun media => String.ofList media.text) =
          String.ofList (target.text ++ if target.media.isNone then [' '] else []) := by
      unfold text
      cases target.media <;> simp [Opening.paramsText, String.ext_iff]
    obtain ⟨front, x, isText, ends⟩ := target.exists_concat
    rw [spelled, Text.trimEnd, String.toList_ofList, isText, List.append_assoc,
      Text.dropEndWhile_append (endsLine_notBlank ends)]
    intro c member
    split at member
    · rw [List.mem_singleton.mp member]
      decide
    · cases member
  have left := target.isLeft
  have filled : (!(target.media.elim "" fun media => String.ofList media.text).isEmpty) =
      target.media.isSome := by
    cases target.media with
    | none => rfl
    | some media =>
      obtain ⟨x, more, isText, _⟩ := media.exists_cons
      simp [isText]
  rw [← filled] at left
  unfold importTarget
  rw [left, whole]
  rfl

end BrowserImport

namespace Leaf

theorem exists_cons (l : Leaf) : ∃ x more, l.text = x :: more ∧ startsStatement x = true := by
  cases l with
  | declaration name value =>
    obtain ⟨x, more, isText, starts⟩ := name.exists_cons
    exact ⟨x, _, by rw [text, isText, List.cons_append],
      startsStatement_of_startsSelector (startsSelector_of_startsHead starts)⟩
  | directive head => exact (Opening.directive head).exists_cons_text
  | charset | importing => exact ⟨'@', _, rfl, rfl⟩

theorem exists_concat (l : Leaf) : ∃ front x, l.text = front ++ [x] ∧ endsLine x = true := by
  cases l with
  | declaration name value =>
    obtain ⟨last, isLast, ends⟩ := (Option.any_eq_true _ _).mp value.ends
    obtain ⟨front, isText⟩ := List.getLast?_eq_some_iff.mp isLast
    exact ⟨name.text ++ ':' :: ' ' :: front, last, by simp [text, isText], ends⟩
  | directive head => exact (Opening.directive head).exists_concat_text
  | charset name =>
    exact ⟨'@' :: ("charset".toList ++ ' ' :: '"' :: name.text), '"', by simp [text], by decide⟩
  | importing target =>
    obtain ⟨front, x, isText, ends⟩ := target.exists_concat
    exact ⟨'@' :: ("import".toList ++ ' ' :: front), x, by simp [text, isText], ends⟩

/-- There are no places in what a directive is read as. -/
theorem unplaced_kind (l : Leaf) (isDirective : ∀ name value, l ≠ .declaration name value) :
    l.kind.unplaced = l.kind := by
  cases l with
  | declaration name value => exact absurd rfl (isDirective name value)
  | directive head => rw [kind, StatementKind.unplaced, head.unplaced_params]
  | charset name => rfl
  | importing target =>
    rw [kind, StatementKind.unplaced, ImportTarget.unplaced, Part.unplacedAll_ofText]

theorem oneLine (l : Leaf) : '\n' ∉ l.text := by
  cases l with
  | declaration name value => simp [text, name.oneLine, value.oneLine]
  | directive head => exact (Opening.directive head).oneLine_text
  | charset name =>
    have inside : '\n' ∉ name.text := fun member => (name.plain _ member).2.2 rfl
    simp [text, inside]
  | importing target => simp [text, target.oneLine]

end Leaf

namespace Remark

variable (remark : Remark)

theorem oneLine_text : '\n' ∉ remark.text := by
  simp [text, remark.oneLine]

theorem noExpr_text : ¬ ['#', '\x7b'] <:+: remark.text := by
  intro opens
  have opens : ['#', '\x7b'] <:+: ['/'] ++ '*' :: (remark.content ++ [' ', '*', '/']) := opens
  rcases infix_of_separated (by decide) (by decide) opens with front | opens
  · exact absurd front (by decide)
  rcases infix_of_separated (by decide) (by decide) opens with inside | behind
  · exact remark.noExpr inside
  · exact absurd behind (by decide)

/-- A comment is found up to its end. -/
theorem blockComment?_text (behind : List Char) :
    blockComment? (remark.text ++ behind) = some remark.text.length := by
  have closed : ¬ ['*', '/'] <:+: remark.content ++ [' '] := by
    intro ends
    rcases infix_of_separated (by decide) (by decide) ends with inside | behind
    · exact remark.noEnd inside
    · exact absurd behind (by decide)
  have body := commentBody?_closed closed behind
  have split : remark.text ++ behind =
      '/' :: '*' :: (remark.content ++ [' '] ++ '*' :: '/' :: behind) := by
    simp [text]
  rw [split, blockComment?, body]
  simp [text]

/-- A comment on one line is written on a line by itself. -/
theorem source_eq (dialect : Dialect) (depth : Nat) :
    SourceText.comment dialect depth (String.ofList remark.text) =
      Text.indent depth ++ String.ofList remark.text ++ "\n" := by
  have one : Text.lines (String.ofList remark.text) = [String.ofList remark.text] := by
    unfold Text.lines
    rw [String.toList_ofList, Text.splitLines_oneLine remark.oneLine_text]
    rfl
  have trimmed : Text.trimStart (String.ofList remark.text) = String.ofList remark.text := by
    unfold Text.trimStart
    rw [String.toList_ofList, text, List.dropWhile_cons_of_neg (by decide)]
  unfold SourceText.comment
  simp only [one, trimmed, List.map_nil]
  simp

end Remark

end Stylesheet
