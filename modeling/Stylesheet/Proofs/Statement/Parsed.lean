import Stylesheet.Proofs.Except
import Stylesheet.Proofs.Statement.Filenames

/-! The shape of the trees that reading gives: only the whole stylesheet is a root, and the other
branch of a conditional is a branch again. Both dialects give such trees. -/

namespace Stylesheet

/-- An `@if` or `@else`. -/
def StatementKind.isBranch : StatementKind → Bool
  | .branch _ _ => true
  | _ => false

/-- A kind as a header alone can give it. -/
def StatementKind.isPlain : StatementKind → Bool
  | .root | .branch _ (some _) => false
  | _ => true

namespace Statement

/-- A statement below the root of a tree that was read. -/
inductive IsParsed : Statement → Prop where
  | intro {kind : StatementKind} {children : List Statement} {line : Nat} {span : Span}
      {filename : Option String} (notRoot : kind ≠ .root)
      (isBranch : ∀ condition other, kind = .branch condition (some other) →
        other.kind.isBranch = true)
      (otherwise : ∀ condition other, kind = .branch condition (some other) → IsParsed other)
      (inner : ∀ s ∈ children, IsParsed s) :
      IsParsed (.mk kind children line span filename)

/-- Statements as they stand in a block. -/
def AllParsed (found : List Statement) : Prop :=
  ∀ s ∈ found, s.IsParsed

section Shape

variable {s added result : Statement} {kind : StatementKind} {children : List Statement}
  {line : Nat} {span : Span} {filename : Option String}

theorem isParsed_of_isPlain (plain : kind.isPlain = true) (inner : AllParsed children) :
    (mk kind children line span filename).IsParsed := by
  refine .intro ?_ ?_ ?_ inner
  · rintro rfl
    cases plain
  all_goals
    rintro condition other rfl
    cases plain

theorem isParsed_branch {condition : Option Expr} {other : Statement}
    (isBranch : other.kind.isBranch = true) (otherParsed : other.IsParsed)
    (inner : AllParsed children) :
    (mk (.branch condition (some other)) children line span filename).IsParsed := by
  refine .intro (by simp) ?_ ?_ inner
  all_goals
    rintro _ _ ⟨⟩
    assumption

theorem isParsed_leaf (plain : kind.isPlain = true) : (leaf kind line span).IsParsed :=
  isParsed_of_isPlain plain (by simp [AllParsed])

theorem IsParsed.withChildren (parsed : s.IsParsed) (inner : AllParsed children) :
    (s.withChildren children).IsParsed := by
  cases parsed with
  | intro notRoot isBranch otherwise _ => exact .intro notRoot isBranch otherwise inner

theorem IsParsed.withSpan (parsed : s.IsParsed) : (s.withSpan span).IsParsed := by
  cases parsed with
  | intro notRoot isBranch otherwise inner => exact .intro notRoot isBranch otherwise inner

theorem IsParsed.withKind (parsed : s.IsParsed) (plain : kind.isPlain = true) :
    (s.withKind kind).IsParsed := by
  cases parsed with
  | intro _ _ _ inner => exact isParsed_of_isPlain plain inner

theorem kind_withChildren (s : Statement) (children : List Statement) :
    (s.withChildren children).kind = s.kind := by
  cases s
  rfl

/-- A chain of conditionals stays one. -/
theorem isBranch_of_addElse (found : s.addElse? added = some result) :
    result.kind.isBranch = true := by
  fun_cases addElse? s added with
  | case1 condition otherwise children line span filename =>
    simp only [addElse?, Option.map_eq_some_iff] at found
    obtain ⟨inner, _, rfl⟩ := found
    rfl
  | case2 condition children line span filename =>
    cases found
    rfl
  | case3 => simp_all [addElse?]

theorem IsParsed.addElse (parsed : s.IsParsed) (addedParsed : added.IsParsed)
    (addedBranch : added.kind.isBranch = true) (found : s.addElse? added = some result) :
    result.IsParsed := by
  fun_induction addElse? s added generalizing result with
  | case1 condition otherwise children line span filename added ih =>
    obtain ⟨inner, longer, rfl⟩ := Option.map_eq_some_iff.mp found
    cases parsed with
    | intro notRoot isBranch below inside =>
      have innerParsed := ih (below condition otherwise rfl) addedParsed addedBranch longer
      exact isParsed_branch (isBranch_of_addElse longer) innerParsed inside
  | case2 condition children line span filename added =>
    cases found
    cases parsed with
    | intro notRoot isBranch below inside => exact isParsed_branch addedBranch addedParsed inside
  | case3 => cases found

theorem AllParsed.append {first second : List Statement} (before : AllParsed first)
    (behind : AllParsed second) : AllParsed (first ++ second) := by
  intro s member
  rcases List.mem_append.mp member with early | late
  · exact before s early
  · exact behind s late

theorem allParsed_singleton (parsed : s.IsParsed) : AllParsed [s] := by
  intro t member
  rw [List.mem_singleton.mp member]
  exact parsed

/-- Statements of which the last one is exchanged. -/
theorem AllParsed.exchangeLast {found : List Statement} (all : AllParsed found)
    (parsed : s.IsParsed) : AllParsed (found.dropLast ++ [s]) :=
  AllParsed.append (fun t member => all t (List.dropLast_sublist _ |>.subset member))
    (allParsed_singleton parsed)

end Shape

theorem isBranch_withFilename (filename : Option String) (s : Statement) :
    (s.withFilename filename).kind.isBranch = s.kind.isBranch := by
  fun_cases withFilename filename s <;> rfl

theorem withFilename_of_isPlain {kind : StatementKind} (plain : kind.isPlain = true)
    (filename old : Option String) (children : List Statement) (line : Nat) (span : Span) :
    (mk kind children line span old).withFilename filename =
      mk kind (withFilenames filename children) line span filename := by
  unfold withFilename
  split
  · rename_i same
    cases same
    cases plain
  · rename_i same
    cases same
    rfl

mutual

theorem isParsed_withFilename (filename : Option String) :
    (s : Statement) → s.IsParsed → (s.withFilename filename).IsParsed
  | .mk kind children line span old, parsed => by
    cases parsed with
    | intro notRoot isBranch otherwise inner =>
      have below := allParsed_withFilenames filename children inner
      by_cases plain : kind.isPlain = true
      · rw [withFilename_of_isPlain plain]
        exact isParsed_of_isPlain plain below
      · match kind with
        | .root => exact absurd rfl notRoot
        | .branch condition (some other) =>
          have otherParsed :=
            isParsed_withFilename filename other (otherwise condition other rfl)
          have stillBranch : (other.withFilename filename).kind.isBranch = true := by
            rw [isBranch_withFilename]
            exact isBranch condition other rfl
          unfold withFilename
          exact isParsed_branch stillBranch otherParsed below

theorem allParsed_withFilenames (filename : Option String) :
    (found : List Statement) → AllParsed found → AllParsed (withFilenames filename found)
  | [], all => all
  | s :: rest, all => by
    unfold withFilenames
    have first := isParsed_withFilename filename s (all s List.mem_cons_self)
    have others := allParsed_withFilenames filename rest
      (fun t member => all t (List.mem_cons_of_mem s member))
    exact (allParsed_singleton first).append others

end

end Statement

namespace Header

open Statement

/-- What a reading gives, if it gives anything, has a property. -/
def Yields (reading : Reading α) (p : α → Prop) : Prop :=
  ∀ lines c a stop, readAt lines c reading = .ok (a, stop) → p a

section Yields

variable {p : β → Prop} {q : α → Prop}

theorem Yields.pure {b : β} (holds : p b) : Yields (pure b) p := by
  intro lines c a stop ok
  cases ok
  exact holds

theorem Yields.throw {error : Diagnostic} : Yields (throw error) p := by
  intro lines c a stop ok
  cases ok

theorem Yields.bind {first : Reading α} {next : α → Reading β} (before : Yields first q)
    (behind : ∀ a, q a → Yields (next a) p) : Yields (first >>= next) p := by
  intro lines c b stop ok
  have both : (first lines c >>= fun x => next x.1 lines x.2) = .ok (b, stop) := ok
  obtain ⟨⟨a, middle⟩, found, rest⟩ := exists_of_bind_ok both
  exact behind a (before lines c a middle found) lines middle b stop rest

/-- Nothing needs to be known of what was read before. -/
theorem Yields.after {first : Reading α} {next : α → Reading β}
    (behind : ∀ a, Yields (next a) p) : Yields (first >>= next) p :=
  Yields.bind (q := fun _ => True) (fun _ _ _ _ _ => trivial) fun a _ => behind a

theorem Yields.weaken {reading : Reading β} {q : β → Prop} (yields : Yields reading q)
    (implies : ∀ b, q b → p b) : Yields reading p :=
  fun lines c b stop ok => implies b (yields lines c b stop ok)

/-- Two ways to go on in the same way. -/
theorem Yields.join {condition : Prop} [Decidable condition] {one other : Reading α}
    {next : α → Reading β} (behind : ∀ a, Yields (next a) p) :
    Yields (if condition then one >>= next else other >>= next) p := by
  split
  · exact .after behind
  · exact .after behind

theorem Yields.failExpected {what : String} : Yields (failExpected what : Reading β) p :=
  .after fun _ => .after fun _ => .throw

theorem Yields.fail {fault : Fault} {message : String} :
    Yields (fail fault message : Reading β) p :=
  .after fun _ => .after fun _ => .throw

end Yields

/-- What is read at a place, without where reading ends. -/
theorem Yields.of_readAt {lines : LineIndex} {c : Cursor} {reading : Reading α} {q : α → Prop}
    {a : α} (yields : Yields reading q)
    (ok : (do let found ← readAt lines c reading; return found.1) = Except.ok a) : q a := by
  obtain ⟨found, read, same⟩ := exists_of_bind_ok ok
  cases same
  exact yields lines c found.1 found.2 read

/-- A plain kind is all that a header of its own gives. -/
abbrev IsPlain (kind : StatementKind) : Prop :=
  kind.isPlain = true

section Kinds

variable {p : StatementKind → Prop}

theorem mixinDefinition_yields (holds : ∀ name params, p (.defineMixin name params)) :
    Yields mixinDefinition p :=
  .after fun _ => .after fun _ => .pure (holds _ _)

theorem inclusion_yields (holds : ∀ name args, p (.includeMixin name args)) :
    Yields inclusion p :=
  .after fun _ => .after fun _ => .pure (holds _ _)

theorem countHeader_yields
    (holds : ∀ counter start stop inclusive, p (.loopCount counter start stop inclusive)) :
    Yields countHeader p := by
  refine .after fun _ => .after fun _ => .after fun _ => ?_
  split
  · refine .after fun _ => .after fun _ => .after fun _ => ?_
    split
    · exact .after fun _ => .pure (holds _ _ _ _)
    · refine .after fun _ => ?_
      split
      · exact .after fun _ => .pure (holds _ _ _ _)
      · exact .failExpected
  · exact .failExpected

theorem eachHeader_yields (holds : ∀ item list, p (.loopEach item list)) :
    Yields eachHeader p := by
  refine .after fun _ => .after fun _ => .after fun _ => ?_
  split
  · exact .after fun _ => .pure (holds _ _)
  · exact .failExpected

end Kinds

theorem directiveKind_isPlain (start : Cursor) (name : String) :
    Yields (directiveKind start name) IsPlain := by
  unfold directiveKind
  -- one case for each name with a meaning, and the last one for all others
  split
  · exact mixinDefinition_yields fun _ _ => rfl
  · exact .after fun _ => .after fun _ => .pure rfl
  · exact inclusion_yields fun _ _ => rfl
  · exact .after fun _ => .pure rfl
  · exact .after fun _ => .pure rfl
  · exact .after fun _ => .pure rfl
  · exact .after fun _ => .pure rfl
  · exact .after fun _ => .fail
  · exact .after fun _ => .pure rfl
  · exact countHeader_yields fun _ _ _ _ => rfl
  · exact eachHeader_yields fun _ _ => rfl
  · refine .after fun _ => ?_
    dsimp only
    split
    · exact .failExpected
    · exact .pure rfl
  · exact .after fun _ => .pure rfl
  · exact .after fun _ => .pure rfl
  · exact .after fun _ => .pure rfl

/-- An import adds nothing but statements of what is imported. -/
theorem imports_yields (found : List Statement) (fuel : Nat) :
    Yields (imports found fuel) fun all =>
      ∀ s ∈ all, s ∈ found ∨ ∃ target line span, s = leaf (.importing target) line span := by
  induction fuel generalizing found with
  | zero => exact .pure fun s member => .inl member
  | succ fuel ih =>
    have longer (target : ImportTarget) (line : Nat) (span : Span) (s : Statement)
        (member : s ∈ found ++ [leaf (.importing target) line span]) :
        s ∈ found ∨ ∃ target line span, s = leaf (.importing target) line span := by
      rcases List.mem_append.mp member with old | new
      · exact .inl old
      · exact .inr ⟨target, line, span, List.mem_singleton.mp new⟩
    refine .after fun _ => .after fun _ => .after fun _ => .after fun _ => .after fun _ => ?_
    refine .after fun _ => .after fun _ => .after fun _ => .after fun _ => .after fun _ => ?_
    split
    · refine (ih _).weaken fun all added s member => ?_
      exact (added s member).elim (longer _ _ _ s) .inr
    · exact .pure (longer _ _ _)

theorem directive_allParsed : Yields directive AllParsed := by
  refine .after fun _ => .after fun _ => .after fun _ => .after fun name => ?_
  split
  · exact .failExpected
  · refine .after fun _ => ?_
    split
    · refine .after fun _ => (imports_yields [] _).weaken fun all added s member => ?_
      obtain none | ⟨_, _, _, rfl⟩ := added s member
      · cases none
      · exact isParsed_leaf rfl
    · refine (directiveKind_isPlain _ _).bind fun kind plain => ?_
      exact .after fun _ => .pure (allParsed_singleton (isParsed_leaf plain))

theorem assignment_isParsed (dialect : Dialect) : Yields (assignment dialect) IsParsed := by
  refine .after fun _ => .after fun _ => .after fun _ => .after fun name => ?_
  split
  · exact .failExpected
  · refine .after fun _ => .after fun _ => .join fun _ => ?_
    dsimp only
    split
    · exact .failExpected
    · refine .after fun _ => .after fun _ => .after fun _ => .after fun _ => ?_
      exact .pure (isParsed_leaf rfl)

/-- What an `@else` starts. -/
def IsElse (s : Statement) : Prop :=
  s.IsParsed ∧ s.kind.isBranch = true

theorem IsElse.withChildren {s : Statement} {children : List Statement} (isElse : IsElse s)
    (inner : AllParsed children) : IsElse (s.withChildren children) := by
  refine ⟨isElse.1.withChildren inner, ?_⟩
  rw [kind_withChildren]
  exact isElse.2

theorem elseBranch_isElse (start line : Nat) : Yields (elseBranch start line) IsElse :=
  .after fun _ => .after fun _ => .join fun _ => .after fun _ => .pure ⟨isParsed_leaf rfl, rfl⟩

theorem blockComment_isParsed : Yields blockComment IsParsed := by
  refine .after fun _ => .after fun _ => .after fun _ => ?_
  dsimp only
  split
  · exact .fail
  · refine .after fun _ => .after fun _ => .after fun _ => .after fun _ => ?_
    exact .pure (isParsed_leaf rfl)

theorem lineComment_isParsed : Yields lineComment IsParsed :=
  .after fun _ => .after fun _ => .after fun _ => .after fun _ => .after fun _ =>
    .pure (isParsed_leaf rfl)

end Header

namespace Braces

open Header Statement

theorem comments_allParsed (fuel : Nat) {found : List Statement} (all : AllParsed found) :
    Yields (comments found fuel) AllParsed := by
  induction fuel generalizing found with
  | zero => exact .pure all
  | succ fuel ih =>
    refine .after fun _ => .after fun _ => ?_
    split
    · exact blockComment_isParsed.bind fun s parsed => ih (all.append (allParsed_singleton parsed))
    · refine .after fun _ => ?_
      split
      · exact lineComment_isParsed.bind fun s parsed => ih (all.append (allParsed_singleton parsed))
      · exact .pure all

-- All readers of the grammar at once, by induction on the fuel that they share.
mutual

theorem statements_allParsed : (fuel : Nat) → (found : List Statement) → AllParsed found →
    Yields (statements found fuel) AllParsed
  | 0, found, all => .pure all
  | fuel + 1, found, all => by
    refine .after fun _ => (comments_allParsed _ all).bind fun found all => ?_
    refine (statement_allParsed fuel).bind fun added behind => ?_
    have longer := all.append behind
    refine .after fun _ => .after fun _ => ?_
    split
    · exact statements_allParsed fuel _ longer
    · split
      · exact statements_allParsed fuel _ longer
      · exact .pure longer

theorem block_allParsed : (fuel : Nat) → Yields (block fuel) AllParsed
  | 0 => .failExpected
  | fuel + 1 => by
    refine .after fun _ => .after fun _ => ?_
    split
    · refine (statements_allParsed fuel [] (by simp [AllParsed])).bind fun children all => ?_
      refine .after fun _ => .after fun _ => ?_
      split
      · exact .pure all
      · exact .failExpected
    · exact .failExpected

theorem statement_allParsed : (fuel : Nat) → Yields (statement fuel) AllParsed
  | 0 => .pure (by simp [AllParsed])
  | fuel + 1 => by
    have nothing : AllParsed [] := by simp [AllParsed]
    refine .after fun _ => .after fun _ => ?_
    split
    · exact .pure nothing
    · exact .pure nothing
    · exact .pure nothing
    · exact (assignment_isParsed .scss).bind fun s parsed => .pure (allParsed_singleton parsed)
    · exact directiveWithBlock_allParsed fuel
    · exact (propertyOrRule_isParsed fuel).bind fun s parsed => .pure (allParsed_singleton parsed)

theorem directiveWithBlock_allParsed : (fuel : Nat) → Yields (directiveWithBlock fuel) AllParsed
  | 0 => .pure (by simp [AllParsed])
  | fuel + 1 => by
    refine directive_allParsed.bind fun found all => ?_
    split
    · exact .pure all
    · rename_i last isLast
      have parsed := all last (List.mem_of_getLast? isLast)
      have finish : ∀ s : Statement, s.IsParsed →
          Yields (spanFrom s.span.start >>= fun span => pure (found.dropLast ++ [s.withSpan span]))
            AllParsed :=
        fun s parsed => .after fun _ => .pure (all.exchangeLast parsed.withSpan)
      have filled : ∀ children, AllParsed children → (last.withChildren children).IsParsed :=
        fun children inner => parsed.withChildren inner
      split
      · refine .after fun _ => .after fun _ => ?_
        split
        · refine (block_allParsed fuel).bind fun children inner => ?_
          exact (Yields.pure ((filled children inner).withKind rfl)).bind finish
        · exact (Yields.pure parsed).bind finish
      case h_8 =>
        exact (block_allParsed fuel).bind fun children inner =>
          (elseChain_isParsed fuel _ (filled children inner)).bind finish
      case h_9 => exact (Yields.pure parsed).bind finish
      all_goals
        exact (block_allParsed fuel).bind fun children inner =>
          (Yields.pure (filled children inner)).bind finish

theorem elseChain_isParsed : (fuel : Nat) → (conditional : Statement) → conditional.IsParsed →
    Yields (elseChain conditional fuel) IsParsed
  | 0, conditional, parsed => .pure parsed
  | fuel + 1, conditional, parsed => by
    refine .after fun _ => .after fun _ => .after fun _ => .after fun _ => .after fun _ => ?_
    refine .join fun _ => ?_
    dsimp only
    split
    · refine (elseBranch_isElse _ _).bind fun header isElse => ?_
      refine (block_allParsed fuel).bind fun children all => ?_
      have added := isElse.withChildren all
      split
      · rename_i longer found
        exact elseChain_isParsed fuel longer (parsed.addElse added.1 added.2 found)
      · exact .throw
    · exact .after fun _ => .pure parsed

theorem propertyOrRule_isParsed : (fuel : Nat) → Yields (propertyOrRule fuel) IsParsed
  | 0 => .failExpected
  | fuel + 1 => by
    refine .after fun start => .after fun lines => ?_
    split
    · exact ruleSet_isParsed fuel
    · rename_i head afterColon _
      split
      · rename_i found stop read
        exact .after fun _ => .pure (propertyTail_isParsed fuel head lines afterColon found stop read)
      · split
        · rename_i found stop read
          exact .after fun _ => .pure (ruleSet_isParsed fuel lines start found stop read)
        · exact .throw

theorem propertyTail_isParsed : (fuel : Nat) → ∀ head, Yields (propertyTail head fuel) IsParsed
  | 0, head => .failExpected
  | fuel + 1, head => by
    refine .after fun value => .after fun _ => .after fun _ => ?_
    dsimp only
    split
    · split
      · refine (block_allParsed fuel).bind fun children all => .after fun _ => ?_
        exact .pure ((isParsed_leaf rfl).withChildren all)
      · exact .fail
    · split
      · exact .failExpected
      · refine .after fun _ => .after fun _ => ?_
        split
        · exact .after fun _ => .pure ((isParsed_leaf rfl).withChildren (by simp [AllParsed]))
        · exact .failExpected

theorem ruleSet_isParsed : (fuel : Nat) → Yields (ruleSet fuel) IsParsed
  | 0 => .failExpected
  | fuel + 1 => by
    refine .after fun _ => .after fun _ => .after fun _ => ?_
    dsimp only
    split
    · exact .failExpected
    · refine .after fun _ => ?_
      split
      · refine (block_allParsed fuel).bind fun children all => .after fun _ => ?_
        exact .pure ((isParsed_leaf rfl).withChildren all)
      · exact .failExpected

end

theorem parse_allParsed {text : String} {root : Statement} (ok : parse text = .ok root) :
    AllParsed root.children := by
  have whole : Yields (do
      let children ← statements [] (8 * text.length + 8)
      skipBlanks
      if (← get).isDone then
        return (leaf .root 1 (Span.between 0 (← position))).withChildren children
      else failExpected "selector or at-rule") (fun root => AllParsed root.children) := by
    refine (statements_allParsed _ [] (by simp [AllParsed])).bind fun children all => ?_
    refine .after fun _ => .after fun _ => ?_
    split
    · exact .after fun _ => .pure all
    · exact .failExpected
  exact whole.of_readAt ok

end Braces

namespace Indented

open Header Statement

variable {source : Source} {line : SourceLine} {hasChildren : Bool}

theorem property_isParsed : Yields (property source line hasChildren) IsParsed := by
  refine .after fun name => ?_
  split
  · exact .failExpected
  · refine .after fun _ => .after fun _ => ?_
    dsimp only
    -- the equals sign may be missing as well as the colon
    split
    · refine .after fun _ => .after fun _ => .after fun _ => ?_
      split
      · exact .throw
      · exact .pure (isParsed_leaf rfl)
    · refine .after fun _ => .after fun _ => ?_
      split
      · exact .throw
      · exact .pure (isParsed_leaf rfl)

theorem rule_isParsed : Yields (rule line) IsParsed := by
  refine .after fun selector => ?_
  dsimp only
  split
  · exact .failExpected
  · exact .pure (isParsed_leaf rfl)

theorem propertyOrRule_isParsed : Yields (propertyOrRule source line hasChildren) IsParsed := by
  refine .after fun _ => .after fun _ => .after fun _ => ?_
  split
  · exact property_isParsed
  · exact rule_isParsed

theorem header_allParsed : Yields (header source line hasChildren) AllParsed := by
  have single : ∀ s : Statement, s.IsParsed → Yields (pure [s]) AllParsed :=
    fun s parsed => .pure (allParsed_singleton parsed)
  have ownLine : ∀ kind : StatementKind, IsPlain kind →
      Yields (spanFrom line.start >>= fun span => pure [leaf kind line.number span]) AllParsed :=
    fun kind plain => .after fun _ => single _ (isParsed_leaf plain)
  refine .after fun c => ?_
  dsimp only
  split
  · exact (assignment_isParsed .indented).bind fun s parsed => .after fun _ => single s parsed
  · exact directive_allParsed.bind fun found all => .after fun _ => .pure all
  · refine .after fun _ => .after fun _ => (mixinDefinition_yields (p := IsPlain) fun _ _ => rfl).bind fun kind plain => ?_
    exact .after fun _ => ownLine kind plain
  · split
    · exact propertyOrRule_isParsed.bind single
    · refine .after fun _ => (inclusion_yields (p := IsPlain) fun _ _ => rfl).bind fun kind plain => ?_
      exact .after fun _ => ownLine kind plain
  · split
    · exact propertyOrRule_isParsed.bind single
    · exact .after fun _ => property_isParsed.bind single
  · exact .after fun _ => rule_isParsed.bind single
  · exact propertyOrRule_isParsed.bind single

theorem elseHeader?_isElse : Yields (elseHeader? line) (fun found => ∀ s ∈ found, IsElse s) := by
  refine .after fun _ => .join fun _ => ?_
  dsimp only
  split
  · refine (elseBranch_isElse _ _).bind fun branch isElse => .after fun _ => .pure ?_
    intro s member
    cases member
    exact isElse
  · exact .pure (by simp)

theorem attach_allParsed {found children : List Statement} (all : AllParsed found)
    (inner : AllParsed children) : AllParsed (attach found children) := by
  unfold attach mapLast
  split
  · rename_i last isLast
    have parsed := all last (List.mem_of_getLast? isLast)
    refine all.exchangeLast ?_
    dsimp only
    split
    · exact (parsed.withKind rfl).withChildren inner
    · exact parsed.withChildren inner
  · simp [AllParsed]

theorem addElse_allParsed {found longer : List Statement} {branch : Statement}
    (all : AllParsed found) (isElse : IsElse branch) (ok : addElse found branch = .ok longer) :
    AllParsed longer := by
  unfold addElse at ok
  split at ok
  · rename_i last added
    obtain ⟨before, isLast, more⟩ := Option.bind_eq_some_iff.mp added
    have parsed := all before (List.mem_of_getLast? isLast)
    cases ok
    exact all.exchangeLast (parsed.addElse isElse.1 isElse.2 more)
  · cases ok

theorem comment_isParsed {found : Statement} (read : comment source line = .ok found) :
    found.IsParsed := by
  obtain ⟨body, _, same⟩ := exists_of_bind_ok read
  cases same
  exact isParsed_leaf rfl

theorem statements_allParsed : (lines : List Outline) → (found : List Statement) →
    AllParsed found → ∀ {all}, statements source found lines = .ok all → AllParsed all
  | [], found, before, all, ok => by
    unfold statements at ok
    cases ok
    exact before
  | .mk line children :: rest, found, before, all, ok => by
    unfold statements at ok
    obtain ⟨header, read, ok⟩ := exists_of_bind_ok ok
    have isElse := elseHeader?_isElse.of_readAt read
    cases header with
    | some branch =>
      obtain ⟨block, inside, ok⟩ := exists_of_bind_ok ok
      obtain ⟨longer, added, ok⟩ := exists_of_bind_ok ok
      have inner := statements_allParsed children [] (by simp [AllParsed]) inside
      have first := addElse_allParsed before ((isElse branch rfl).withChildren inner) added
      exact statements_allParsed rest longer first ok
    | none =>
      dsimp only at ok
      split at ok
      · obtain ⟨found, read, ok⟩ := exists_of_bind_ok ok
        have parsed := allParsed_singleton (comment_isParsed read)
        exact statements_allParsed rest _ (before.append parsed) ok
      · obtain ⟨added, read, ok⟩ := exists_of_bind_ok ok
        obtain ⟨block, inside, ok⟩ := exists_of_bind_ok ok
        have inner := statements_allParsed children [] (by simp [AllParsed]) inside
        have behind := attach_allParsed (header_allParsed.of_readAt read) inner
        exact statements_allParsed rest _ (before.append behind) ok

theorem parse_allParsed {text : String} {root : Statement} (ok : parse text = .ok root) :
    AllParsed root.children := by
  unfold parse at ok
  obtain ⟨lines, _, ok⟩ := exists_of_bind_ok ok
  obtain ⟨tree, _, ok⟩ := exists_of_bind_ok ok
  obtain ⟨children, read, ok⟩ := exists_of_bind_ok ok
  cases ok
  exact statements_allParsed tree [] (by simp [AllParsed]) read

end Indented

namespace Statement

/-- Whatever the dialect, all below the root of a tree that was read has the shape. -/
theorem parse_allParsed {text : String} {dialect : Dialect} {filename : Option String}
    {root : Statement} (ok : parse text dialect filename = .ok root) :
    AllParsed root.children := by
  unfold parse at ok
  cases dialect with
  | indented =>
    cases read : Indented.parse text with
    | error error => simp [read] at ok
    | ok tree =>
      simp only [read, Except.ok.injEq] at ok
      rw [← ok, children_withFilename]
      exact allParsed_withFilenames filename _ (Indented.parse_allParsed read)
  | scss =>
    cases read : Braces.parse text with
    | error error => simp [read] at ok
    | ok tree =>
      simp only [read, Except.ok.injEq] at ok
      rw [← ok, children_withFilename]
      exact allParsed_withFilenames filename _ (Braces.parse_allParsed read)

end Statement

end Stylesheet
