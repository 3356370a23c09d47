import Stylesheet.Proofs.Expr.Places
import Stylesheet.Proofs.Statement.Errors
import Stylesheet.Proofs.Statement.Parsed

/-! What the header of a statement gives, told by the place where it is read and the place where
reading ends. Whatever is read from a text stands in it: a statement begins on its line, and the
expressions in it have places of their own. -/

namespace Stylesheet

/-- The expressions that a kind of statement is made of. -/
def StatementKind.exprs : StatementKind → List Expr
  | .root | .charset _ | .importing (.stylesheet _) => []
  | .rule parts | .comment parts _ | .directive _ parts _ | .media parts | .extend parts
  | .importing (.css parts) => Template.exprs parts
  | .property name value => Template.exprs name ++ value.toList
  | .assign _ value _ | .returning value | .loopWhile value | .debug value | .warn value => [value]
  | .defineMixin _ params | .defineFunction _ params => Script.defaults params
  | .includeMixin _ args => args.exprs
  | .branch condition _ => condition.toList
  | .loopCount _ start stop _ => [start, stop]
  | .loopEach _ list => [list]

namespace Statement

/-- A statement is another one, or stands in its block or in one of its other branches. -/
inductive Within (s : Statement) : Statement → Prop where
  | here : Within s s
  | inside {t u : Statement} (member : t ∈ u.children) (inner : Within s t) : Within s u
  | otherwise {t u : Statement} {condition : Option Expr}
      (kind : u.kind = .branch condition (some t)) (inner : Within s t) : Within s u

/-- Something is true of a statement and of all within it. -/
def Throughout (p : Statement → Prop) (s : Statement) : Prop :=
  ∀ t : Statement, t.Within s → p t

theorem throughout_iff {p : Statement → Prop} {s : Statement} :
    s.Throughout p ↔ p s ∧ (∀ t ∈ s.children, t.Throughout p) ∧
      ∀ condition t, s.kind = .branch condition (some t) → t.Throughout p := by
  constructor
  · intro all
    exact ⟨all s .here, fun t member u within => all u (.inside member within),
      fun condition t kind u within => all u (.otherwise kind within)⟩
  · rintro ⟨here, inner, otherwise⟩ t (_ | ⟨member, within⟩ | ⟨kind, within⟩)
    · exact here
    · exact inner _ member t within
    · exact otherwise _ _ kind t within

theorem within_withFilename {filename : Option String} {s t : Statement}
    (within : t.Within (s.withFilename filename)) :
    ∃ u : Statement, u.Within s ∧ t = u.withFilename filename := by
  generalize same : s.withFilename filename = top at within
  induction within generalizing s with
  | here => exact ⟨s, .here, same.symm⟩
  | inside member _ ih =>
    rw [← same, children_withFilename] at member
    obtain ⟨raw, isRaw, same⟩ := exists_of_mem_withFilenames member
    obtain ⟨u, inner, same⟩ := ih same.symm
    exact ⟨u, .inside isRaw inner, same⟩
  | otherwise isBranch _ ih =>
    obtain ⟨kind, children, line, span, old⟩ := s
    cases same
    cases kind with
    | branch condition other =>
      rw [withFilename_branch] at isBranch
      cases other with
      | none => cases isBranch
      | some other =>
        cases isBranch
        obtain ⟨u, inner, same⟩ := ih rfl
        exact ⟨u, .otherwise rfl inner, same⟩
    | _ =>
      rw [withFilename_of_not_branch (by simp)] at isBranch
      cases isBranch

/-- Statements that differ only in what stands within them and in their files. -/
structure Alike (s t : Statement) : Prop where
  line : s.line = t.line
  span : s.span = t.span
  kind : s.kind = t.kind ∨ ∃ condition other other',
    s.kind = .branch condition other ∧ t.kind = .branch condition other'

/-- A property that does not depend on what stands within a statement. -/
def IsShallow (p : Statement → Prop) : Prop :=
  ∀ s t : Statement, Alike s t → p s → p t

section Throughout

variable {p q : Statement → Prop} {s added result : Statement} {children : List Statement}
  {filename : Option String}

theorem alike_withChildren : Alike s (s.withChildren children) := by
  cases s
  exact ⟨rfl, rfl, .inl rfl⟩

theorem alike_withFilename : Alike s (s.withFilename filename) := by
  fun_cases withFilename filename s with
  | case1 => exact ⟨rfl, rfl, .inr ⟨_, _, _, rfl, rfl⟩⟩
  | case2 => exact ⟨rfl, rfl, .inl rfl⟩

theorem alike_branch {condition : Option Expr} {other other' : Option Statement} {line : Nat}
    {span : Span} : Alike (mk (.branch condition other) children line span filename)
      (mk (.branch condition other') children line span filename) :=
  ⟨rfl, rfl, .inr ⟨_, _, _, rfl, rfl⟩⟩

theorem IsShallow.and (first : IsShallow p) (second : IsShallow q) :
    IsShallow fun s => p s ∧ q s :=
  fun s t alike holds => ⟨first s t alike holds.1, second s t alike holds.2⟩

/-- What is true of a plain statement and of those in its block. -/
theorem throughout_of_isPlain (plain : s.kind.isPlain = true) (holds : p s)
    (inner : ∀ t ∈ s.children, t.Throughout p) : s.Throughout p := by
  refine throughout_iff.mpr ⟨holds, inner, fun condition t isBranch => ?_⟩
  rw [isBranch] at plain
  cases plain

theorem Throughout.here (all : s.Throughout p) : p s :=
  all s .here

theorem Throughout.withChildren (all : s.Throughout p) (shallow : IsShallow p)
    (inner : ∀ t ∈ children, t.Throughout p) : (s.withChildren children).Throughout p := by
  have holds : p (s.withChildren children) := shallow _ _ alike_withChildren all.here
  cases s
  exact throughout_iff.mpr ⟨holds, inner, (throughout_iff.mp all).2.2⟩

theorem Throughout.addElse (all : s.Throughout p) (shallow : IsShallow p)
    (addedAll : added.Throughout p) (found : s.addElse? added = some result) :
    result.Throughout p := by
  fun_induction addElse? s added generalizing result with
  | case1 condition otherwise children line span filename added ih =>
    obtain ⟨inner, longer, rfl⟩ := Option.map_eq_some_iff.mp found
    obtain ⟨here, inside, below⟩ := throughout_iff.mp all
    have innerAll := ih (below condition otherwise rfl) addedAll longer
    refine throughout_iff.mpr ⟨shallow _ _ alike_branch here, inside, ?_⟩
    rintro _ _ ⟨⟩
    exact innerAll
  | case2 condition children line span filename added =>
    cases found
    obtain ⟨here, inside, _⟩ := throughout_iff.mp all
    refine throughout_iff.mpr ⟨shallow _ _ alike_branch here, inside, ?_⟩
    rintro _ _ ⟨⟩
    exact addedAll
  | case3 => cases found

theorem Throughout.withFilename (all : s.Throughout p) (shallow : IsShallow p)
    (filename : Option String) : (s.withFilename filename).Throughout p := by
  intro t within
  obtain ⟨u, inner, rfl⟩ := within_withFilename within
  exact shallow _ _ alike_withFilename (all u inner)

end Throughout

/-- A statement in a text: it begins on its line, and its expressions stand in the text. -/
structure Sits (text : List Char) (s : Statement) : Prop where
  begins : Text.Begins text s.line s.span
  exprs : ∀ e ∈ s.kind.exprs, e.IsPlaced text

theorem exprs_of_alike {s t : Statement} (alike : Alike s t) : t.kind.exprs = s.kind.exprs := by
  rcases alike.kind with same | ⟨_, _, _, before, after⟩
  · rw [same]
  · rw [before, after]
    rfl

theorem isShallow_sits {text : List Char} : IsShallow (Sits text) := by
  intro s t alike sits
  refine ⟨?_, ?_⟩
  · rw [← alike.line, ← alike.span]
    exact sits.begins
  · rw [exprs_of_alike alike]
    exact sits.exprs

/-- A statement in a text as its header alone gives it, with nothing within. -/
structure SitsAlone (text : List Char) (s : Statement) : Prop extends s.Sits text where
  bare : s.children = []
  plain : s.kind.isPlain = true

/-- What is true of a statement that stands alone is true of all within it. -/
theorem SitsAlone.throughout {text : List Char} {s : Statement} {p : Statement → Prop}
    (alone : s.SitsAlone text) (holds : p s) : s.Throughout p := by
  refine throughout_of_isPlain alone.plain holds ?_
  rw [alone.bare]
  exact nofun

end Statement

namespace Header

open Cursor (Past)

/-- What a reading gives at a place and where it ends fit together. -/
def Leads (lines : LineIndex) (c : Cursor) (reading : Reading α) (q : α → Cursor → Prop) : Prop :=
  ∀ a stop, readAt lines c reading = .ok (a, stop) → q a stop

section Leads

variable {P : Cursor → Prop} {lines : LineIndex} {c : Cursor} {q : β → Cursor → Prop}

theorem Leads.pure {b : β} (holds : q b c) : Leads lines c (Pure.pure b) q := by
  rintro _ _ ⟨⟩
  exact holds

theorem Leads.throw {error : Diagnostic} : Leads lines c (MonadExcept.throw error) q := by
  rintro _ _ ⟨⟩

theorem Leads.bind {first : Reading α} {next : α → Reading β} {r : α → Cursor → Prop}
    (leads : Leads lines c first r)
    (behind : ∀ a d, r a d → Leads lines d (next a) q) :
    Leads lines c (first >>= next) q := by
  intro b stop ok
  have both : (first lines c >>= fun x => next x.1 lines x.2) = .ok (b, stop) := ok
  obtain ⟨⟨a, d⟩, found, rest⟩ := exists_of_bind_ok both
  exact behind a d (leads a d found) b stop rest

theorem Leads.weaken {reading : Reading β} {r : β → Cursor → Prop}
    (leads : Leads lines c reading r) (implies : ∀ b stop, r b stop → q b stop) :
    Leads lines c reading q :=
  fun b stop ok => implies b stop (leads b stop ok)

theorem Leads.map {first : Reading α} {f : α → β} {r : α → Cursor → Prop}
    (leads : Leads lines c first r) (implies : ∀ a stop, r a stop → q (f a) stop) :
    Leads lines c (f <$> first) q :=
  leads.bind fun a d holds => .pure (implies a d holds)

theorem Leads.and {reading : Reading β} {r : β → Cursor → Prop} (first : Leads lines c reading q)
    (second : Leads lines c reading r) :
    Leads lines c reading fun b stop => q b stop ∧ r b stop :=
  fun b stop ok => ⟨first b stop ok, second b stop ok⟩

theorem Sound.leads {reading : Reading α} (sound : Sound P reading) (here : P c) :
    Leads lines c reading fun _ => P :=
  fun a stop ok => (sound lines c here).2 a stop ok

theorem Yields.leads {reading : Reading α} {p : α → Prop} (yields : Yields reading p) :
    Leads lines c reading fun a _ => p a :=
  fun a stop ok => yields lines c a stop ok

/-- A step that keeps a property of the place. -/
theorem Leads.step {first : Reading α} {next : α → Reading β} (sound : Sound P first) (here : P c)
    (behind : ∀ a d, P d → Leads lines d (next a) q) : Leads lines c (first >>= next) q :=
  (sound.leads here).bind behind

/-- Two ways to go on in the same way. -/
theorem Leads.join {condition : Prop} [Decidable condition] {one other : Reading α}
    {next : α → Reading β} {r : α → Cursor → Prop} (first : Leads lines c one r)
    (second : Leads lines c other r)
    (behind : ∀ a d, r a d → Leads lines d (next a) q) :
    Leads lines c (if condition then one >>= next else other >>= next) q := by
  split
  · exact first.bind behind
  · exact second.bind behind

theorem Leads.get {next : Cursor → Reading β} (behind : Leads lines c (next c) q) :
    Leads lines c (MonadState.get >>= next) q :=
  behind

theorem Leads.read {next : LineIndex → Reading β} (behind : Leads lines c (next lines) q) :
    Leads lines c (MonadReader.read >>= next) q :=
  behind

theorem Leads.set {d : Cursor} {next : PUnit → Reading β} (behind : Leads lines d (next ⟨⟩) q) :
    Leads lines c (MonadState.set d >>= next) q :=
  behind

theorem Leads.position {next : Nat → Reading β} (behind : Leads lines c (next c.pos) q) :
    Leads lines c (position >>= next) q :=
  behind

theorem Leads.lineNumber {next : Nat → Reading β} (behind : Leads lines c (next (lines.line c.pos)) q) :
    Leads lines c (lineNumber >>= next) q :=
  behind

theorem Leads.spanFrom {start : Nat} {next : Span → Reading β}
    (behind : Leads lines c (next (c.spanFrom start)) q) :
    Leads lines c (spanFrom start >>= next) q :=
  behind

theorem Leads.skipBlanks {next : Unit → Reading β} (behind : Leads lines c.skipBlanks (next ()) q) :
    Leads lines c (skipBlanks >>= next) q :=
  behind

theorem Leads.skipBlanksAndLineComments {next : Unit → Reading β}
    (behind : Leads lines (skipGaps c (c.rest.length + 1)) (next ()) q) :
    Leads lines c (skipBlanksAndLineComments >>= next) q :=
  behind

theorem Leads.sees {word : String} {next : Bool → Reading β}
    (behind : Leads lines c (next (c.startsWith word)) q) : Leads lines c (sees word >>= next) q :=
  behind

theorem Leads.eat [Onward P] {word : String} {next : Bool → Reading β} (here : P c)
    (found : word.toList <+: c.rest → ∀ d, P d → Leads lines d (next true) q)
    (missing : Leads lines c (next false) q) : Leads lines c (eat word >>= next) q := by
  unfold Header.eat Cursor.eat?
  rw [bind_assoc]
  refine .get ?_
  by_cases starts : c.startsWith word = true
  · rw [if_pos starts]
    exact found (List.isPrefixOf_iff_prefix.mp starts) _ (Onward.advance here _)
  · rw [if_neg starts]
    exact missing

theorem Leads.eatWord {word : String} {next : Bool → Reading β}
    (found : Scan.keyword word c.rest = true → Leads lines (c.advance word.length) (next true) q)
    (missing : Leads lines c (next false) q) : Leads lines c (eatWord word >>= next) q := by
  unfold Header.eatWord
  rw [bind_assoc]
  refine .get ?_
  by_cases starts : Scan.keyword word c.rest = true
  · rw [if_pos starts]
    exact found starts
  · rw [if_neg starts]
    exact missing

theorem Leads.failExpected {what : String} : Leads lines c (failExpected what) q :=
  .read (.get .throw)

theorem Leads.fail {fault : Fault} {message : String} : Leads lines c (fail fault message) q :=
  .read (.get .throw)

theorem Leads.lift {result : Except Diagnostic α} {next : α → Reading β}
    (behind : ∀ a, result = .ok a → Leads lines c (next a) q) :
    Leads lines c (liftM result >>= next) q := by
  cases found : result with
  | error fault => rintro _ _ ⟨⟩
  | ok a => exact behind a found

theorem Leads.scripted {reader : LineIndex → Cursor → Except Diagnostic (α × Cursor)}
    {r : α → Cursor → Prop} (gives : ∀ a stop, reader lines c = .ok (a, stop) → r a stop) :
    Leads lines c (scripted reader) r :=
  .read (.get (.lift fun _ ran => .set (.pure (gives _ _ ran))))

end Leads

section Templates

variable {text : List Char} {e : Expr}

theorem exprs_map {parts : Template} {f : Part → Part} (keeps : ∀ e, f (.expr e) = .expr e)
    (others : ∀ content, ∃ other, f (.text content) = .text other) :
    Template.exprs (parts.map f) = Template.exprs parts := by
  unfold Template.exprs
  rw [List.filterMap_map]
  refine List.filterMap_congr fun part _ => ?_
  cases part with
  | text content =>
    obtain ⟨other, same⟩ := others content
    simp [same]
  | expr e => simp [keeps]

theorem exprs_filter {parts : Template} {p : Part → Bool} (keeps : ∀ e, p (.expr e) = true) :
    Template.exprs (parts.filter p) = Template.exprs parts := by
  unfold Template.exprs
  rw [List.filterMap_filter]
  refine List.filterMap_congr fun part _ => ?_
  cases part with
  | text content => split <;> rfl
  | expr e => rw [if_pos (keeps e)]

theorem exprs_exchangeLast {parts : Template} {before after : String}
    (isLast : parts.getLast? = some (.text before)) :
    Template.exprs (parts.dropLast ++ [.text after]) = Template.exprs parts := by
  conv_rhs => rw [← List.dropLast_append_getLast? _ isLast]
  simp [Template.exprs]

theorem exprs_pushText (parts : Template) (content : String) :
    Template.exprs (parts.pushText content) = Template.exprs parts := by
  unfold Template.pushText
  split
  · rfl
  · split
    · rename_i last isLast
      exact exprs_exchangeLast isLast
    · simp [Template.exprs]

theorem exprs_pushExpr (parts : Template) (e : Expr) :
    Template.exprs (parts.pushExpr e) = Template.exprs parts ++ [e] :=
  Script.exprs_append_expr parts e

theorem exprs_ofText (content : String) : Template.exprs (Template.ofText content) = [] :=
  exprs_pushText [] content

theorem exprs_trimmed (parts : Template) :
    Template.exprs parts.trimmed = Template.exprs parts := by
  have first : Template.exprs (Template.trimFirst parts) = Template.exprs parts := by
    unfold Template.trimFirst
    split <;> simp [Template.exprs]
  unfold Template.trimmed
  rw [exprs_filter fun _ => rfl, ← first]
  unfold Template.trimLast
  split
  · rename_i content isLast
    exact exprs_exchangeLast isLast
  · rfl

theorem exprs_append (parts others : Template) :
    Template.exprs (parts.append others) = Template.exprs parts ++ Template.exprs others := by
  unfold Template.append
  induction others generalizing parts with
  | nil => simp [Template.exprs]
  | cons part others ih =>
    rw [List.foldl_cons, ih]
    cases part with
    | text content =>
      rw [exprs_pushText]
      simp [Template.exprs]
    | expr e =>
      rw [exprs_pushExpr]
      simp [Template.exprs]

theorem exprs_dedent (column : Nat) (parts : Template) :
    Template.exprs (dedent column parts) = Template.exprs parts := by
  unfold dedent
  split
  · rfl
  · rw [exprs_append, exprs_map (fun _ => rfl) fun _ => ⟨_, rfl⟩]
    rfl

/-- The expressions in a template stand in a text. -/
abbrev TemplatePlaced (text : List Char) (parts : Template) : Prop :=
  ∀ e ∈ Template.exprs parts, e.IsPlaced text

variable {parts : Template}

theorem templatePlaced_nil : TemplatePlaced text [] :=
  nofun

theorem templatePlaced_ofText (content : String) :
    TemplatePlaced text (Template.ofText content) := by
  rw [TemplatePlaced, exprs_ofText]
  exact nofun

theorem TemplatePlaced.pushText (placed : TemplatePlaced text parts) (content : String) :
    TemplatePlaced text (parts.pushText content) := by
  rwa [TemplatePlaced, exprs_pushText]

theorem TemplatePlaced.pushExpr (placed : TemplatePlaced text parts) (isPlaced : e.IsPlaced text) :
    TemplatePlaced text (parts.pushExpr e) := by
  intro d member
  rw [exprs_pushExpr] at member
  rcases List.mem_append.mp member with member | member
  · exact placed d member
  · exact List.mem_singleton.mp member ▸ isPlaced

theorem TemplatePlaced.trimmed (placed : TemplatePlaced text parts) :
    TemplatePlaced text parts.trimmed := by
  rwa [TemplatePlaced, exprs_trimmed]

end Templates

section Places

variable {text : List Char} {c : Cursor} {start : Nat}

/-- A reading that goes on behind an offset of a text gives something with a property. -/
abbrev Gets (text : List Char) (start : Nat) (c : Cursor) (reading : Reading α) (p : α → Prop) :
    Prop :=
  Leads (.ofChars text) c reading fun a stop => Past text start stop ∧ p a

theorem interpolation_placed (here : Past text start c) :
    Gets text start c interpolation fun e => e.IsPlaced text :=
  (interpolation_sound.leads here).and
    (.scripted fun _ _ ran => (Script.parseInterpolation_spans here.1 ran).placed)

theorem exprBefore_placed {words : List String} (here : Past text start c) :
    Gets text start c (exprBefore words) fun e => e.IsPlaced text :=
  (exprBefore_sound.leads here).and
    (.scripted fun _ _ ran => (Script.parse_spans here.1 ran).placed)

theorem expr_placed (here : Past text start c) :
    Gets text start c expr fun e => e.IsPlaced text :=
  exprBefore_placed here

theorem takeString_placed {parts : Template} (here : Past text start c)
    (placed : TemplatePlaced text parts) (quote : Char) (fuel : Nat) :
    Gets text start c (takeString parts quote fuel) (TemplatePlaced text) := by
  induction fuel generalizing c parts with
  | zero => exact .fail
  | succ fuel ih =>
    refine .step eat_sound here fun opens d here => ?_
    split
    · exact (interpolation_placed here).bind fun e d found => ih found.1 (placed.pushExpr found.2)
    · refine .get ?_
      split
      · exact .fail
      · exact .set .fail
      · exact .step take_sound here fun more d here => ih here (placed.pushText more)
      · split
        · exact .step take_sound here fun more d here => .pure ⟨here, placed.pushText more⟩
        · exact .step take_sound here fun more d here => ih here (placed.pushText more)

theorem takeText_placed {parts : Template} (here : Past text start c)
    (placed : TemplatePlaced text parts) (stop : Char → Bool) (fuel : Nat) :
    Gets text start c (takeText stop parts fuel) (TemplatePlaced text) := by
  induction fuel generalizing c parts with
  | zero => exact .pure ⟨here, placed⟩
  | succ fuel ih =>
    refine .step eat_sound here fun opens d here => ?_
    split
    · exact (interpolation_placed here).bind fun e d found => ih found.1 (placed.pushExpr found.2)
    · refine .get ?_
      split
      · exact .pure ⟨here, placed⟩
      · split
        · exact .pure ⟨here, placed⟩
        · split
          · exact .step take_sound here fun more d here => ih here (placed.pushText more)
          · split
            · refine .step take_sound here fun more d here => ?_
              exact (takeString_placed here (placed.pushText more) _ _).bind fun parts d found =>
                ih found.1 found.2
            · exact .step take_sound here fun more d here => ih here (placed.pushText more)

theorem templateUntil_placed {stop : Char → Bool} (here : Past text start c) :
    Gets text start c (templateUntil stop) (TemplatePlaced text) :=
  .get (takeText_placed here templatePlaced_nil _ _)

theorem takeRaw_placed {parts : Template} (here : Past text start c)
    (placed : TemplatePlaced text parts) (fuel : Nat) :
    Leads (.ofChars text) c (takeRaw parts fuel) fun found _ => TemplatePlaced text found := by
  induction fuel generalizing c parts with
  | zero => exact .pure placed
  | succ fuel ih =>
    refine .step eat_sound here fun opens d here => ?_
    split
    · exact (interpolation_placed here).bind fun e d found => ih found.1 (placed.pushExpr found.2)
    · refine .get ?_
      split
      · exact .pure placed
      · exact .get (.step take_sound here fun more d here => ih here (placed.pushText more))

theorem rawTemplate_placed (inside : c.In text) :
    Leads (.ofChars text) c rawTemplate fun found _ => TemplatePlaced text found :=
  .get (takeRaw_placed (.ofIn inside) templatePlaced_nil _)

/-- In a text that is no part of the source, the expressions stand where they stand in it. -/
theorem templateOf_placed {laid : String} {parts : Template} (read : templateOf laid = .ok parts) :
    TemplatePlaced laid.toList parts := by
  obtain ⟨⟨_, stop⟩, read, same⟩ := exists_of_bind_ok read
  cases same
  exact rawTemplate_placed .ofChars parts stop read

theorem moreName_placed {parts : Template} (here : Past text start c)
    (placed : TemplatePlaced text parts) (fuel : Nat) :
    Gets text start c (moreName parts fuel) (TemplatePlaced text) := by
  induction fuel generalizing c parts with
  | zero => exact .pure ⟨here, placed⟩
  | succ fuel ih =>
    refine .step eat_sound here fun opens d here => ?_
    split
    · exact (interpolation_placed here).bind fun e d found => ih found.1 (placed.pushExpr found.2)
    · refine .step scan?_sound here fun more d here => ?_
      split
      · exact ih here (placed.pushText _)
      · exact .pure ⟨here, placed⟩

theorem propertyName?_placed (here : Past text start c) :
    Gets text start c propertyName? fun found => ∀ parts ∈ found, TemplatePlaced text parts := by
  have some : ∀ {reading : Reading Template} {c : Cursor},
      Gets text start c reading (TemplatePlaced text) → Gets text start c (Option.some <$> reading)
        fun found => ∀ parts ∈ found, TemplatePlaced text parts := by
    intro reading c gets
    refine gets.map fun parts stop found => ⟨found.1, ?_⟩
    rintro _ ⟨⟩
    exact found.2
  refine .step eat_sound here fun star d here => ?_
  dsimp only
  have first : TemplatePlaced text (if star then Template.ofText "*" else []) := by
    split
    · exact templatePlaced_ofText _
    · exact templatePlaced_nil
  refine .get (.step eat_sound here fun opens d here => ?_)
  split
  · exact (interpolation_placed here).bind fun e d found =>
      some (moreName_placed found.1 (first.pushExpr found.2) _)
  · refine .step scan?_sound here fun word d here => ?_
    split
    · exact some (moreName_placed here (first.pushText _) _)
    · exact .pure ⟨here, nofun⟩

theorem propertyValue?_placed (here : Past text start c) :
    Gets text start c propertyValue? fun found => ∀ e ∈ found, e.IsPlaced text := by
  refine .get ?_
  split
  · exact .pure ⟨here, nofun⟩
  · split
    · exact .pure ⟨here, nofun⟩
    · refine (expr_placed here).map fun e stop found => ⟨found.1, ?_⟩
      rintro _ ⟨⟩
      exact found.2

/-- What a statement is made of stands in a text. -/
abbrev KindPlaced (text : List Char) (kind : StatementKind) : Prop :=
  ∀ e ∈ kind.exprs, e.IsPlaced text

theorem kindPlaced_one {kind : StatementKind} {e : Expr} (only : kind.exprs = [e])
    (placed : e.IsPlaced text) : KindPlaced text kind := by
  intro d member
  rw [only] at member
  exact List.mem_singleton.mp member ▸ placed

theorem mixinDefinition_placed (here : Past text start c) :
    Gets text start c mixinDefinition (KindPlaced text) := by
  refine .step definitionName_sound here fun name d here => ?_
  refine Leads.bind ((Sound.leads (scripted_sound fun _ _ => Script.parseParams_settles) here).and
    (.scripted fun _ _ => Script.parseParams_placed here.1)) fun params d found => ?_
  exact .pure found

theorem inclusion_placed (here : Past text start c) :
    Gets text start c inclusion (KindPlaced text) := by
  refine .step definitionName_sound here fun name d here => ?_
  refine Leads.bind ((Sound.leads (scripted_sound fun _ _ => Script.parseArguments_settles) here).and
    (.scripted fun _ _ => Script.parseArguments_placed here.1)) fun args d found => ?_
  exact .pure found

theorem countHeader_placed (here : Past text start c) :
    Gets text start c countHeader (KindPlaced text) := by
  refine .step loopVariable_sound here fun counter d here => .step skipBlanks_sound here
    fun _ d here => .step eatWord_sound here fun hasFrom d here => ?_
  split
  · refine (exprBefore_placed here).bind fun first d found => .step skipBlanks_sound found.1
      fun _ d here => .step eatWord_sound here fun through d here => ?_
    have both : ∀ last : Expr, last.IsPlaced text → ∀ inclusive,
        KindPlaced text (.loopCount counter first last inclusive) := by
      intro last placed inclusive e member
      simp only [StatementKind.exprs, List.mem_cons, List.not_mem_nil, or_false] at member
      rcases member with rfl | rfl
      · exact found.2
      · exact placed
    split
    · exact (expr_placed here).bind fun last d more => .pure ⟨more.1, both last more.2 _⟩
    · refine .step eatWord_sound here fun upTo d here => ?_
      split
      · exact (expr_placed here).bind fun last d more => .pure ⟨more.1, both last more.2 _⟩
      · exact .failExpected
  · exact .failExpected

theorem eachHeader_placed (here : Past text start c) :
    Gets text start c eachHeader (KindPlaced text) := by
  refine .step loopVariable_sound here fun item d here => .step skipBlanks_sound here
    fun _ d here => .step eatWord_sound here fun hasIn d here => ?_
  split
  · exact (expr_placed here).bind fun list d found => .pure ⟨found.1, kindPlaced_one rfl found.2⟩
  · exact .failExpected

theorem directiveKind_placed {origin : Cursor} (here : Past text start c) (name : String) :
    Gets text start c (directiveKind origin name) (KindPlaced text) := by
  have value : ∀ kind : Expr → StatementKind, (∀ e, (kind e).exprs = [e]) →
      Gets text start c (do return kind (← expr)) (KindPlaced text) :=
    fun kind only => (expr_placed here).bind fun e d found =>
      .pure ⟨found.1, kindPlaced_one (only e) found.2⟩
  have template : ∀ kind : Template → StatementKind,
      (∀ parts, (kind parts).exprs = Template.exprs parts) →
      Gets text start c (do return kind (← templateUntil isStatementEnd).trimmed)
        (KindPlaced text) := by
    intro kind only
    refine (templateUntil_placed here).bind fun parts d found => .pure ⟨found.1, ?_⟩
    rw [KindPlaced, only]
    exact found.2.trimmed
  unfold directiveKind
  -- one case for each name with a meaning, and the last one for all others
  split
  · exact mixinDefinition_placed here
  · refine .step definitionName_sound here fun name d here => ?_
    refine Leads.bind ((Sound.leads (scripted_sound fun _ _ => Script.parseParams_settles) here).and
      (.scripted fun _ _ => Script.parseParams_placed here.1)) fun params d found => ?_
    exact .pure found
  · exact inclusion_placed here
  · exact value _ fun _ => rfl
  · exact value _ fun _ => rfl
  · exact value _ fun _ => rfl
  · exact value _ fun _ => rfl
  · exact .set .fail
  · exact value _ fun _ => rfl
  · exact countHeader_placed here
  · exact eachHeader_placed here
  · refine (templateUntil_placed here).bind fun parts d found => ?_
    dsimp only
    split
    · exact .failExpected
    · exact .pure ⟨found.1, found.2.trimmed⟩
  · exact template .media fun _ => rfl
  · exact .step quoted_sound here fun _ d here => .pure ⟨here, nofun⟩
  · exact template (.directive name · false) fun _ => rfl

end Places

section Sitting

open Statement

variable {text : List Char} {c : Cursor} {start line : Nat}

/-- A statement from a place to another. -/
theorem sitsAlone_leaf {kind : StatementKind} (here : Past text start c)
    (onLine : Text.OnLine text line start) (plain : kind.isPlain = true)
    (placed : KindPlaced text kind) : SitsAlone text (leaf kind line (c.spanFrom start)) :=
  ⟨⟨onLine.begins here.1.isPlace here.2, placed⟩, rfl, plain⟩

theorem assignment_sits (inside : c.In text) (dialect : Dialect) :
    Leads (.ofChars text) c (assignment dialect) fun s _ => s.SitsAlone text := by
  have onLine := LineIndex.onLine_ofChars inside.isPlace
  refine .position (.lineNumber (.step eat_sound (Past.ofIn inside) fun _ d here =>
    .step scan?_sound here fun name d here => ?_))
  split
  · exact .failExpected
  · refine .step skipBlanks_sound here fun _ d here => .step eat_sound here fun _ d here =>
      .join (eat_sound.leads here) (.pure here) fun separated d here => ?_
    dsimp only
    split
    · exact .failExpected
    · exact (expr_placed here).bind fun value d found => .step skipBlanks_sound found.1
        fun _ d here => .step eatWord_sound here fun guarded d here => .spanFrom
          (.pure (sitsAlone_leaf here onLine rfl (kindPlaced_one rfl found.2)))

/-- A statement that stands alone and begins in front of an offset. -/
abbrev SitsBefore (text : List Char) (stop : Nat) (s : Statement) : Prop :=
  s.SitsAlone text ∧ s.span.start ≤ stop

theorem imports_sit {found : List Statement} (here : Past text start c)
    (all : ∀ s ∈ found, SitsBefore text start s) (fuel : Nat) :
    Leads (.ofChars text) c (imports found fuel) fun found stop =>
      ∀ s ∈ found, SitsBefore text stop.pos s := by
  induction fuel generalizing c start found with
  | zero => exact .pure fun s member => ⟨(all s member).1, (all s member).2.trans here.2⟩
  | succ fuel ih =>
    refine .step skipBlanks_sound here fun _ d begun => .position (.lineNumber ?_)
    have onLine := LineIndex.onLine_ofChars begun.1.isPlace
    refine .step importName_sound (Past.ofIn begun.1) fun name e here => .step skipBlanks_sound here
      fun _ e here => .get (.step take_sound here fun media e here => .spanFrom ?_)
    have placed : KindPlaced text
        (.importing (importTarget name.1 name.2.1 (Text.trim media) name.2.2)) := by
      unfold importTarget
      split
      · exact templatePlaced_ofText _
      · split
        · exact templatePlaced_ofText _
        · exact nofun
    have longer := sitsAlone_leaf here onLine rfl placed
    refine .step skipBlanks_sound here fun _ e here => .step eat_sound here fun more e here => ?_
    have all : ∀ s ∈ found ++ [leaf _ _ _], SitsBefore text d.pos s := fun s member =>
      (List.mem_append.mp member).elim
        (fun isOld => ⟨(all s isOld).1, (all s isOld).2.trans begun.2⟩)
        fun isNew => List.mem_singleton.mp isNew ▸ ⟨longer, Nat.le_refl _⟩
    split
    · exact ih here all
    · exact .pure fun s member => ⟨(all s member).1, (all s member).2.trans here.2⟩

theorem directive_sits (inside : c.In text) :
    Leads (.ofChars text) c directive fun found stop =>
      ∀ s ∈ found, SitsBefore text stop.pos s := by
  have onLine := LineIndex.onLine_ofChars inside.isPlace
  refine .get (.lineNumber (.step eat_sound (Past.ofIn inside) fun _ d here =>
    .step scan?_sound here fun name d here => ?_))
  split
  · exact .failExpected
  · refine .step skipBlanks_sound here fun _ d here => ?_
    split
    · exact .get (imports_sit here (by simp) _)
    · refine ((directiveKind_placed here _).and (directiveKind_isPlain _ _).leads).bind
        fun kind d found => .spanFrom (.pure ?_)
      intro s member
      rw [List.mem_singleton.mp member]
      exact ⟨sitsAlone_leaf found.1.1 onLine found.2 found.1.2, found.1.1.2⟩

theorem elseBranch_sits (here : Past text start c) (onLine : Text.OnLine text line start) :
    Leads (.ofChars text) c (elseBranch start line) fun s _ => s.SitsAlone text := by
  refine .step skipBlanks_sound here fun _ d here => .step eatWord_sound here fun isIf d here => ?_
  refine .join (r := fun condition d => Past text start d ∧ ∀ e ∈ condition, e.IsPlaced text)
    ?_ (.pure ⟨here, nofun⟩) fun condition d found => .spanFrom (.pure (sitsAlone_leaf found.1 onLine rfl ?_))
  · refine (expr_placed here).map fun e stop found => ⟨found.1, ?_⟩
    rintro _ ⟨⟩
    exact found.2
  · simpa [KindPlaced, StatementKind.exprs] using found.2

theorem blockComment_onward {P : Cursor → Prop} [Onward P] {lines : LineIndex} (here : P c) :
    Leads lines c blockComment fun _ => P := by
  refine .get (.lineNumber (.read ?_))
  dsimp only
  split
  · exact .fail
  · exact .read (.lift fun _ _ => .set (.spanFrom (.pure (Onward.advance here _))))

theorem lineComment_onward {P : Cursor → Prop} [Onward P] {lines : LineIndex} (here : P c) :
    Leads lines c lineComment fun _ => P :=
  .position (.lineNumber (.get (.step take_sound here fun _ _ here => .spanFrom (.pure here))))

/-- A comment that stands alone. -/
abbrev SitsAsComment (text : List Char) (s : Statement) : Prop :=
  s.SitsAlone text ∧ ∃ parts silent, s.kind = .comment parts silent

theorem blockComment_sits (inside : c.In text) :
    Leads (.ofChars text) c blockComment fun s _ => SitsAsComment text s := by
  have onLine := LineIndex.onLine_ofChars inside.isPlace
  refine .get (.lineNumber (.read ?_))
  dsimp only
  split
  · exact .fail
  · rename_i count _
    refine .read (.lift fun found read => .set (.spanFrom (.pure ?_)))
    refine ⟨sitsAlone_leaf (Onward.advance (Past.ofIn inside) count) onLine rfl ?_, _, _, rfl⟩
    have placed := rawTemplate_placed (inside.limitTo _) found.1 found.2 read
    rwa [KindPlaced, StatementKind.exprs, exprs_dedent]

theorem lineComment_sits (inside : c.In text) :
    Leads (.ofChars text) c lineComment fun s _ => SitsAsComment text s := by
  have onLine := LineIndex.onLine_ofChars inside.isPlace
  exact .position (.lineNumber (.get (.step take_sound (Past.ofIn inside) fun content d here =>
    .spanFrom (.pure ⟨sitsAlone_leaf here onLine rfl (templatePlaced_ofText _), _, _, rfl⟩))))

end Sitting

end Header

end Stylesheet
