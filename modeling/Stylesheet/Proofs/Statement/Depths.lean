import Mathlib.Data.List.Chain
import Mathlib.Data.List.TakeWhile
import Stylesheet.Statement.Outline

/-! The tree that the depths of lines describe. There is one exactly if no line is more than one
deeper than the line before it, and then it has every line once, in order and as deep as it says. One
pass over the lines that goes down and comes back with them gives the same. -/

namespace Stylesheet.Outline

/-- The lines of some outlines, each before those below it, with the number of lines above it. -/
def levels (level : Nat) : List Outline → List (Nat × SourceLine)
  | [] => []
  | .mk line children :: rest =>
    (level, line) :: (levels (level + 1) children ++ levels level rest)

/-- A line is at most one deeper than the line before it. -/
abbrev Near (row next : SourceLine) : Prop :=
  next.depth ≤ row.depth + 1

/-- The error for a line that is too deep below a line of depth `base`. -/
def tooDeep (base : Nat) (row : SourceLine) : Diagnostic :=
  layoutError .inconsistentIndentation
    ("The line was indented " ++ toString (row.depth - base) ++
      " levels deeper than the previous line.") row.number

/-- One pass over the lines. Behind the outlines found so far at a depth, it takes lines of that
depth, goes down for those under the last one, and comes back with the lines that are left at the
first that is not as deep. -/
inductive Builds : Nat → List Outline → List SourceLine →
    Except Diagnostic (List Outline × List SourceLine) → Prop where
  | done : Builds base found [] (.ok (found, []))
  | back (shallower : row.depth < base) :
      Builds base found (row :: rest) (.ok (found, row :: rest))
  | refused (deeper : base < row.depth) (misplaced : base + 1 < row.depth ∨ found = []) :
      Builds base found (row :: rest) (.error (tooDeep base row))
  | beside (same : row.depth = base) (more : Builds base (found ++ [.mk row []]) rest result) :
      Builds base found (row :: rest) result
  | down (deeper : row.depth = base + 1)
      (inner : Builds (base + 1) [] (row :: rest) (.ok (under, left)))
      (more : Builds base (found ++ [.mk parent under]) left result) :
      Builds base (found ++ [.mk parent old]) (row :: rest) result
  | failed (deeper : row.depth = base + 1) (filled : found ≠ [])
      (inner : Builds (base + 1) [] (row :: rest) (.error d)) :
      Builds base found (row :: rest) (.error d)

/-- The pass can end in one way only. -/
theorem Builds.unique {base : Nat} {found : List Outline} {rows : List SourceLine}
    {result other : Except Diagnostic (List Outline × List SourceLine)}
    (builds : Builds base found rows result) (again : Builds base found rows other) :
    result = other := by
  induction builds generalizing other with
  | done => cases again; rfl
  | back shallower =>
    cases again with
    | back => rfl
    | _ => omega
  | refused deeper misplaced =>
    cases again with
    | refused => rfl
    | down => simp at misplaced; omega
    | failed _ filled => exact absurd (misplaced.resolve_left (by omega)) filled
    | _ => omega
  | beside same _ ih =>
    cases again with
    | beside _ more => exact ih more
    | _ => omega
  | down deeper _ _ ihInner ihMore =>
    rename_i found _ parent old _ _
    generalize whole : found ++ [Outline.mk parent old] = before at again
    cases again with
    | refused _ misplaced =>
      subst whole
      simp at misplaced
      omega
    | down _ inner more =>
      obtain ⟨rfl, same⟩ := List.append_inj' whole rfl
      cases same
      cases ihInner inner
      exact ihMore more
    | failed _ _ inner => cases ihInner inner
    | _ => omega
  | failed deeper filled _ ihInner =>
    cases again with
    | refused _ misplaced => exact absurd (misplaced.resolve_left (by omega)) filled
    | down _ inner _ => cases ihInner inner
    | failed _ _ inner => exact ihInner inner
    | _ => omega

section Depths

variable {previous : Option Nat} {row : SourceLine} {rows first second : List SourceLine}
  {tree : List Outline}

theorem checkDepths_cons : checkDepths previous (row :: rows) =
    if row.depth > previous.elim 0 (· + 1) then .error (tooDeep (previous.getD 0) row)
    else checkDepths (some row.depth) rows :=
  rfl

theorem checkDepths_ok_iff : checkDepths previous rows = .ok () ↔
    (∀ row ∈ rows.head?, row.depth ≤ previous.elim 0 (· + 1)) ∧ rows.IsChain Near := by
  induction rows generalizing previous with
  | nil => simp [checkDepths]
  | cons row rest ih =>
    rw [checkDepths_cons]
    split
    · rename_i deeper
      simp [deeper]
    · rename_i near
      rw [ih, List.isChain_cons]
      simp [Nat.le_of_not_lt near, Near]

/-- Where the first line is not deeper than the others allow, what stood before does not matter. -/
theorem checkDepths_of_head {other : Option Nat}
    (near : ∀ row ∈ rows.head?, row.depth ≤ previous.elim 0 (· + 1) ∧
      row.depth ≤ other.elim 0 (· + 1)) : checkDepths previous rows = checkDepths other rows := by
  cases rows with
  | nil => rfl
  | cons row rest =>
    obtain ⟨first, second⟩ := near row rfl
    rw [checkDepths_cons, checkDepths_cons, if_neg (Nat.not_lt.mpr first),
      if_neg (Nat.not_lt.mpr second)]

/-- Behind lines that are at least as deep as a level, lines of that level go on as under one that
is above it. -/
theorem checkDepths_append {base : Nat} {last : Nat} (least : base ≤ last)
    (deep : ∀ row ∈ first, base ≤ row.depth) (near : ∀ row ∈ second.head?, row.depth ≤ base + 1) :
    checkDepths (some last) (first ++ second) =
      (checkDepths (some last) first).bind fun _ => checkDepths (some base) second := by
  induction first generalizing last with
  | nil =>
    refine checkDepths_of_head fun row isFirst => ⟨?_, near row isFirst⟩
    exact (near row isFirst).trans (Nat.succ_le_succ least)
  | cons row rest ih =>
    rw [List.cons_append, checkDepths_cons, checkDepths_cons]
    split
    · rfl
    · exact ih (deep row List.mem_cons_self) fun next member =>
        deep next (List.mem_cons_of_mem row member)

/-- Lines that begin at a level, without one above it or too deep. -/
structure Descends (level : Nat) (rows : List SourceLine) : Prop where
  start : ∀ row ∈ rows.head?, row.depth = level
  above : ∀ row ∈ rows, level ≤ row.depth
  chain : rows.IsChain Near

theorem Descends.below {level : Nat} (descends : Descends level (row :: rows)) :
    Descends (level + 1) (rows.takeWhile (·.depth > row.depth)) := by
  have here := descends.start row rfl
  have chain := List.isChain_cons.mp descends.chain
  have deeper : ∀ next ∈ rows.takeWhile (·.depth > row.depth), level + 1 ≤ next.depth := by
    intro next member
    have := List.mem_takeWhile_imp member
    simp only [decide_eq_true_eq] at this
    omega
  refine ⟨fun next isFirst => ?_, deeper, List.IsChain.prefix chain.2 (List.takeWhile_prefix _)⟩
  have member := List.mem_of_mem_head? isFirst
  have near : next ∈ rows.head? := by
    cases rows with
    | nil => cases isFirst
    | cons other rest =>
      rw [List.takeWhile_cons] at isFirst
      split at isFirst
      · exact isFirst
      · cases isFirst
  have := chain.1 next near
  have := deeper next member
  omega

theorem Descends.behind {level : Nat} (descends : Descends level (row :: rows)) :
    Descends level (rows.dropWhile (·.depth > row.depth)) := by
  have here := descends.start row rfl
  have chain := List.isChain_cons.mp descends.chain
  have above : ∀ next ∈ rows.dropWhile (·.depth > row.depth), level ≤ next.depth :=
    fun next member => descends.above next
      (List.mem_cons_of_mem row ((List.dropWhile_suffix _).subset member))
  refine ⟨fun next isFirst => ?_, above, chain.2.suffix (List.dropWhile_suffix _)⟩
  have ends := List.head?_dropWhile_not (fun next : SourceLine => decide (next.depth > row.depth)) rows
  rw [Option.mem_def.mp isFirst] at ends
  simp only [decide_eq_false_iff_not] at ends
  have := above next (List.mem_of_mem_head? isFirst)
  omega

/-- Every line is as deep in the tree as it says. -/
theorem levels_forest {level : Nat} (descends : Descends level rows) :
    levels level (forest rows) = rows.map fun row => (row.depth, row) := by
  fun_induction forest rows generalizing level with
  | case1 => rw [levels, List.map_nil]
  | case2 row rest below behind =>
    rw [levels, below descends.below, behind descends.behind, ← List.map_append,
      List.takeWhile_append_dropWhile, List.map_cons, descends.start row rfl]

/-- Lines below a line, and then lines beside it. -/
theorem Descends.cons {level : Nat} (here : row.depth = level) (under : Descends (level + 1) first)
    (beside : Descends level second) : Descends level (row :: (first ++ second)) := by
  refine ⟨by simpa using here, ?_, List.isChain_cons.mpr ⟨?_, ?_⟩⟩
  · intro next member
    rcases List.mem_cons.mp member with rfl | member
    · exact here.ge
    · rcases List.mem_append.mp member with member | member
      · exact (Nat.le_succ _).trans (under.above next member)
      · exact beside.above next member
  · intro next isFirst
    rw [List.head?_append] at isFirst
    rcases Option.or_eq_some_iff.mp isFirst with isFirst | ⟨-, isFirst⟩
    · rw [Near, under.start next isFirst, here]
    · rw [Near, beside.start next isFirst, here]
      exact Nat.le_succ level
  · refine List.isChain_append.mpr ⟨under.chain, beside.chain, fun last isLast next isFirst => ?_⟩
    have deep := under.above last (List.mem_of_mem_getLast? isLast)
    rw [Near, beside.start next isFirst]
    omega

/-- No other tree has the lines as deep as they say. -/
theorem forest_of_levels {level : Nat}
    (placed : levels level tree = rows.map fun row => (row.depth, row)) :
    Descends level rows ∧ forest rows = tree := by
  fun_induction levels level tree generalizing rows with
  | case1 level =>
    obtain rfl : rows = [] := by simpa using placed.symm
    exact ⟨⟨nofun, nofun, .nil⟩, by rw [forest]⟩
  | case2 level line children rest below behind =>
    obtain ⟨row, others, rfl, first, placed⟩ := List.map_eq_cons_iff.mp placed.symm
    obtain ⟨under, beside, rfl, placedUnder, placedBeside⟩ := List.map_eq_append_iff.mp placed
    obtain ⟨here, rfl⟩ := Prod.mk.inj first
    obtain ⟨descendsUnder, treeUnder⟩ := below placedUnder.symm
    obtain ⟨descendsBeside, treeBeside⟩ := behind placedBeside.symm
    refine ⟨.cons here descendsUnder descendsBeside, ?_⟩
    have deeper : ∀ next ∈ under, decide (next.depth > row.depth) = true := fun next member => by
      simpa [here] using Nat.lt_of_succ_le (descendsUnder.above next member)
    rw [forest, List.takeWhile_append_of_pos deeper, List.dropWhile_append_of_pos deeper]
    cases beside with
    | nil => simp [treeUnder, ← treeBeside]
    | cons next others =>
      have stops : next.depth ≤ row.depth := (descendsBeside.start next rfl).trans_le here.ge
      simp [stops, treeUnder, ← treeBeside]

/-- The lines that are at least as deep as a level, up to the first that is not. -/
abbrev upTo (level : Nat) (rows : List SourceLine) : List SourceLine :=
  rows.takeWhile (level ≤ ·.depth)

/-- The lines behind those. -/
abbrev fromOn (level : Nat) (rows : List SourceLine) : List SourceLine :=
  rows.dropWhile (level ≤ ·.depth)

theorem ofLines_eq : ofLines rows = (checkDepths none rows).map fun _ => forest rows := by
  unfold ofLines
  cases checkDepths none rows <;> rfl

/-- What a pass at a level gives: the error at the first line that is too deep, or the trees of the
lines that belong there. -/
def passed (base : Nat) (found : List Outline) (rows : List SourceLine) :
    Except Diagnostic (List Outline × List SourceLine) :=
  (checkDepths (some base) (upTo base rows)).map fun _ =>
    (found ++ forest (upTo base rows), fromOn base rows)

/-- The lines under one of depth `base`, and then those beside it. -/
theorem upTo_succ (base : Nat) (rows : List SourceLine) :
    upTo base rows = upTo (base + 1) rows ++ upTo base (fromOn (base + 1) rows) ∧
      fromOn base rows = fromOn base (fromOn (base + 1) rows) := by
  induction rows with
  | nil => exact ⟨rfl, rfl⟩
  | cons row rest ih =>
    unfold upTo fromOn at ih ⊢
    by_cases deeper : base + 1 ≤ row.depth
    · have above : base ≤ row.depth := by omega
      simp only [List.takeWhile_cons, List.dropWhile_cons, deeper, above, decide_true, if_true,
        List.cons_append]
      exact ⟨congrArg _ ih.1, ih.2⟩
    · simp only [List.takeWhile_cons, List.dropWhile_cons, deeper, decide_false,
        Bool.false_eq_true, if_false, List.nil_append, and_self]

theorem head_fromOn {base : Nat} : ∀ row ∈ (fromOn base rows).head?, row.depth < base := by
  intro row isFirst
  have ends := List.head?_dropWhile_not (fun next : SourceLine => decide (base ≤ next.depth)) rows
  rw [Option.mem_def.mp isFirst] at ends
  simpa using ends

theorem length_fromOn_le (base : Nat) (rows : List SourceLine) :
    (fromOn base rows).length ≤ rows.length :=
  (List.dropWhile_suffix _).length_le

theorem head_upTo (base : Nat) : ∀ row ∈ (upTo base rows).head?, row ∈ rows.head? := by
  intro row isFirst
  rw [upTo, List.head?_takeWhile] at isFirst
  exact (Option.filter_eq_some_iff.mp isFirst).1

theorem forest_upTo {base : Nat} (here : row.depth = base) : forest (upTo base (row :: rows)) =
    .mk row (forest (upTo (base + 1) rows)) :: forest (upTo base (fromOn (base + 1) rows)) := by
  have deeper : ∀ next ∈ upTo (base + 1) rows, decide (next.depth > row.depth) = true := by
    intro next member
    have := List.mem_takeWhile_imp member
    simp only [decide_eq_true_eq] at this ⊢
    omega
  have ends : ∀ next ∈ (upTo base (fromOn (base + 1) rows)).head?,
      ¬decide (next.depth > row.depth) = true := by
    intro next isFirst
    have := head_fromOn next (head_upTo base next isFirst)
    simp only [decide_eq_true_eq]
    omega
  have whole : upTo base (row :: rows) = row :: upTo base rows := by simp [upTo, here]
  rw [whole, (upTo_succ base rows).1, forest, List.takeWhile_append_of_pos deeper,
    List.dropWhile_append_of_pos deeper]
  generalize upTo base (fromOn (base + 1) rows) = beside at ends
  cases beside with
  | nil => simp
  | cons next others =>
    have stops : next.depth ≤ row.depth := by simpa using ends next rfl
    simp [stops]

/-- A pass takes the lines under one, and goes on behind them. -/
theorem passed_cons {base : Nat} {found : List Outline} (here : row.depth = base)
    (near : ∀ next ∈ rows.head?, next.depth ≤ base + 1) :
    passed base found (row :: rows) = (passed (base + 1) [] rows).bind fun under =>
      passed base (found ++ [.mk row under.1]) under.2 := by
  have whole : upTo base (row :: rows) = row :: upTo base rows := by simp [upTo, here]
  have left : fromOn base (row :: rows) = fromOn base rows := by simp [fromOn, here]
  have deep : ∀ next ∈ upTo (base + 1) rows, base ≤ next.depth := fun next member => by
    have := List.mem_takeWhile_imp member
    simp only [decide_eq_true_eq] at this
    omega
  have beside : ∀ next ∈ (upTo base (fromOn (base + 1) rows)).head?, next.depth ≤ base + 1 :=
    fun next isFirst => (head_fromOn next (head_upTo base next isFirst)).le
  have same : checkDepths (some base) (upTo (base + 1) rows) =
      checkDepths (some (base + 1)) (upTo (base + 1) rows) :=
    checkDepths_of_head fun next isFirst =>
      ⟨near next (head_upTo _ next isFirst),
        (near next (head_upTo _ next isFirst)).trans (Nat.le_succ _)⟩
  have checked : checkDepths (some base) (upTo base (row :: rows)) =
      (checkDepths (some (base + 1)) (upTo (base + 1) rows)).bind fun _ =>
        checkDepths (some base) (upTo base (fromOn (base + 1) rows)) := by
    rw [whole, checkDepths_cons, if_neg (by simp [here]), here, (upTo_succ base rows).1,
      checkDepths_append le_rfl deep beside, same]
  unfold passed
  rw [checked, forest_upTo here, left, (upTo_succ base rows).2]
  cases checkDepths (some (base + 1)) (upTo (base + 1) rows) with
  | error d => rfl
  | ok _ =>
    simp [Except.bind, Except.map]

theorem passed_back {base : Nat} {found : List Outline}
    (shallower : ∀ row ∈ rows.head?, row.depth < base) : passed base found rows = .ok (found, rows) := by
  cases rows with
  | nil => simp [passed, checkDepths, forest, Except.map]
  | cons row rest =>
    have shallow := shallower row rfl
    simp [passed, checkDepths, forest, Except.map, shallow]

theorem length_of_passed {base : Nat} {found : List Outline} {under : List Outline × List SourceLine}
    (run : passed base found rows = .ok under) :
    under.2.length ≤ rows.length ∧ ∀ row ∈ under.2.head?, row.depth < base := by
  unfold passed at run
  cases checked : checkDepths (some base) (upTo base rows) with
  | error d => rw [checked] at run; cases run
  | ok _ =>
    rw [checked] at run
    cases run
    exact ⟨length_fromOn_le base rows, head_fromOn⟩

theorem passed_beside {base : Nat} {found : List Outline} (here : row.depth = base)
    (near : ∀ next ∈ rows.head?, next.depth ≤ base) :
    passed base found (row :: rows) = passed base (found ++ [.mk row []]) rows := by
  rw [passed_cons here fun next isFirst => (near next isFirst).trans (Nat.le_succ _),
    passed_back fun next isFirst => Nat.lt_succ_of_le (near next isFirst)]
  rfl

theorem passed_refused {base : Nat} {found : List Outline} {next : SourceLine}
    (here : row.depth = base) (deeper : base + 1 < next.depth) :
    passed base found (row :: next :: rows) = .error (tooDeep base next) := by
  have both : upTo base (row :: next :: rows) = row :: next :: upTo base rows := by
    have : base ≤ next.depth := by omega
    simp [upTo, here, this]
  rw [passed, both, checkDepths_cons, if_neg (by simp [here]), checkDepths_cons,
    if_pos (by simpa [here] using deeper), here]
  rfl

/-- The pass gives the error at the first line that is too deep, or else the trees. -/
theorem builds_passed {base : Nat} {found : List Outline}
    (near : ∀ row ∈ rows.head?, row.depth ≤ base) : Builds base found rows (passed base found rows) := by
  induction size : rows.length using Nat.strong_induction_on generalizing base found rows with
  | _ count ih =>
    subst size
    cases rows with
    | nil =>
      rw [passed_back (by simp)]
      exact .done
    | cons row rest =>
      rcases (near row rfl).lt_or_eq with shallower | here
      · rw [passed_back (by simpa using shallower)]
        exact .back shallower
      refine .beside here ?_
      by_cases level : ∀ next ∈ rest.head?, next.depth ≤ base
      · rw [passed_beside here level]
        exact ih _ (Nat.lt_succ_self _) level rfl
      cases rest with
      | nil => simp at level
      | cons next others =>
        have deeper : base < next.depth := by simpa using level
        rcases (Nat.succ_le_of_lt deeper).lt_or_eq with misplaced | below
        · rw [passed_refused here misplaced]
          exact .refused deeper (.inl misplaced)
        have inner : Builds (base + 1) [] (next :: others) (passed (base + 1) [] (next :: others)) :=
          ih _ (Nat.lt_succ_self _) (by simpa using below.ge) rfl
        rw [passed_cons here (by simpa using below.ge)]
        cases run : passed (base + 1) [] (next :: others) with
        | error d =>
          rw [run] at inner
          exact .failed below.symm (by simp) inner
        | ok under =>
          rw [run] at inner
          obtain ⟨shorter, left⟩ := length_of_passed run
          exact .down below.symm inner (ih _ (Nat.lt_succ_of_le shorter)
            (fun row isFirst => Nat.le_of_lt_succ (left row isFirst)) rfl)

theorem descends_zero : Descends 0 rows ↔
    (∀ row ∈ rows.head?, row.depth = 0) ∧ rows.IsChain Near :=
  ⟨fun descends => ⟨descends.start, descends.chain⟩,
    fun ⟨start, chain⟩ => ⟨start, fun _ _ => Nat.zero_le _, chain⟩⟩

theorem ofLines_ok_iff : ofLines rows = .ok tree ↔ Descends 0 rows ∧ forest rows = tree := by
  have accepted : checkDepths none rows = .ok () ↔ Descends 0 rows := by
    rw [checkDepths_ok_iff, descends_zero]
    simp only [Option.elim_none, Nat.le_zero]
  rw [ofLines_eq, ← accepted]
  cases checkDepths none rows <;> simp [Except.map]

theorem builds_ofLines : Builds 0 [] rows ((ofLines rows).map fun tree => (tree, [])) := by
  by_cases start : ∀ row ∈ rows.head?, row.depth = 0
  · have same : checkDepths none rows = checkDepths (some 0) rows :=
      checkDepths_of_head fun row isFirst => by simp [start row isFirst]
    have builds : Builds 0 [] rows (passed 0 [] rows) :=
      builds_passed fun row isFirst => (start row isFirst).le
    have whole : upTo 0 rows = rows ∧ fromOn 0 rows = [] := by simp [upTo, fromOn]
    rw [passed, whole.1, whole.2, ← same] at builds
    rw [ofLines_eq]
    cases checked : checkDepths none rows with
    | error d => rwa [checked] at builds
    | ok _ => rwa [checked] at builds
  · cases rows with
    | nil => simp at start
    | cons row rest =>
      have deeper : 0 < row.depth := by simpa [Nat.pos_iff_ne_zero] using start
      rw [ofLines_eq, checkDepths_cons, if_pos (by exact deeper)]
      exact .refused deeper (.inr rfl)

/-- The tree of some lines is the only one in which each line, in the order of the text, is as deep
as it says. There is one exactly if the first line has no depth and each other is at most one deeper
than the one before it. The pass that goes down and back gives it, or its error. -/
theorem ofLines_exact (rows : List SourceLine) :
    ((∃ tree, ofLines rows = .ok tree) ↔
      (∀ row ∈ rows.head?, row.depth = 0) ∧ rows.IsChain Near) ∧
    (∀ tree, ofLines rows = .ok tree ↔
      levels 0 tree = rows.map fun row => (row.depth, row)) ∧
    Builds 0 [] rows ((ofLines rows).map fun tree => (tree, [])) := by
  refine ⟨?_, fun tree => ?_, builds_ofLines⟩
  · rw [← descends_zero]
    exact ⟨fun ⟨tree, run⟩ => (ofLines_ok_iff.mp run).1,
      fun descends => ⟨_, ofLines_ok_iff.mpr ⟨descends, rfl⟩⟩⟩
  · rw [ofLines_ok_iff]
    refine ⟨?_, forest_of_levels⟩
    rintro ⟨descends, rfl⟩
    exact levels_forest descends

end Depths

end Stylesheet.Outline
