import Stylesheet.Proofs.Double.Exact
import Stylesheet.Proofs.Evaluation.Course

/-! The integers that a count visits. Its bounds are accepted if they are close to an integer, but
their fractions are cut off: a bound that is a little too small counts as the integer below. -/

namespace Stylesheet.Evaluation

/-- Integers one after the other. -/
def consecutive (low : Int) (count : Nat) : List Int :=
  (List.range count).map fun (i : Nat) => low + i

section Consecutive

variable {low high : Int} {count : Nat}

theorem consecutive_succ (low : Int) (count : Nat) :
    consecutive low (count + 1) = low :: consecutive (low + 1) count := by
  simp [consecutive, List.range_succ_eq_map, Function.comp_def, Int.add_assoc, Int.add_comm 1]

theorem pairwise_consecutive (low : Int) (count : Nat) :
    (consecutive low count).Pairwise (· < ·) :=
  List.pairwise_map.mpr (List.pairwise_lt_range.imp fun less => by omega)

theorem mem_consecutive {i : Int} :
    i ∈ consecutive low (high - low + 1).toNat ↔ low ≤ i ∧ i ≤ high := by
  simp only [consecutive, List.mem_map, List.mem_range]
  constructor
  · rintro ⟨n, inside, rfl⟩
    omega
  · rintro ⟨above, below⟩
    exact ⟨(i - low).toNat, by omega, by omega⟩

/-- A count is a loop over its values. -/
theorem forIntegers_eq_forValues (body : Value → Evaluating Outcome) (value : Int → Value)
    (runs : List (List Css)) (low : Int) (count : Nat) :
    forIntegers (fun i => body (value i)) runs low count =
      forValues body runs ((consecutive low count).map value) := by
  induction count generalizing low runs with
  | zero => rfl
  | succ count ih =>
    rw [consecutive_succ, List.map_cons, forIntegers, forValues]
    simp only [ih]

/-- The same integers lie between two pairs of bounds if none do, or the bounds are the same. -/
theorem between_iff {first last first' last' : Int} :
    (∀ i : Int, first ≤ i ∧ i ≤ last ↔ first' ≤ i ∧ i ≤ last') ↔
      (last < first ∧ last' < first') ∨ (first = first' ∧ last = last') := by
  constructor
  · intro same
    have := same first
    have := same last
    have := same first'
    have := same last'
    omega
  · rintro (⟨none, none'⟩ | ⟨rfl, rfl⟩) i
    · omega
    · rfl

end Consecutive

section Count

variable {run : Runner} {scope : ScopeId} {line : Nat} {span : Span} {counter : String}
  {start stop : Expr} {inclusive : Bool} {body : ScopeId → Evaluating Outcome} {context : Context}
  {state between after : State} {a b c : Number}

/-- The last value of a count up to a bound. -/
def lastOf (inclusive : Bool) (bound : Number) : Double :=
  if inclusive then bound.value else bound.value - 1

theorem wholeNumber_number {e : Expr} (whole : a.isWhole = true) :
    wholeNumber e (.number a) = pure a := by
  simp [wholeNumber, whole]

theorem countOf_ok (isFirst : expr run scope start context state = .ok (.number a) between)
    (isLast : expr run scope stop context between = .ok (.number b) after)
    (whole : a.isWhole = true) (whole' : b.isWhole = true) (converts : b.coerce a.units = .ok c)
    (few : ¬ lastOf inclusive c - a.value + 1 > Double.ofNat context.options.maxLoopIterations) :
    countOf run scope line span start stop inclusive context state =
      .ok (a.units, a.value.toCount, ((lastOf inclusive c).toCount - a.value.toCount + 1).toNat)
        after := by
  unfold lastOf at few ⊢
  simp only [countOf, bind, ReaderT.bind, EStateM.bind, isFirst, isLast,
    wholeNumber_number whole, wholeNumber_number whole', converts, ofValue, pure, ReaderT.pure,
    EStateM.pure, options, read, readThe, MonadReaderOf.read, ReaderT.read, few, if_false]

/-- A count is a loop over the integers from its first value to its last one. -/
theorem loopCount_ok (isFirst : expr run scope start context state = .ok (.number a) between)
    (isLast : expr run scope stop context between = .ok (.number b) after)
    (whole : a.isWhole = true) (whole' : b.isWhole = true) (converts : b.coerce a.units = .ok c)
    (few : ¬ lastOf inclusive c - a.value + 1 > Double.ofNat context.options.maxLoopIterations) :
    loopCount run scope line span counter start stop inclusive body context state =
      inScope scope (fun inner =>
        forValues
          (fun value => do
            modifyEnv (·.declare inner counter value)
            body inner)
          [] ((consecutive a.value.toCount
            ((lastOf inclusive c).toCount - a.value.toCount + 1).toNat).map (countTo a.units)))
        context after := by
  rw [loopCount_eq]
  change EStateM.bind (countOf _ _ _ _ _ _ _ context) _ _ = _
  rw [EStateM.bind, countOf_ok isFirst isLast whole whole' converts few]
  change inScope scope _ context after = _
  simp only [← forIntegers_eq_forValues]

/-- How much less than its bound a count may reach. -/
def leftOut (inclusive : Bool) : Int :=
  if inclusive then 0 else 1

/-- Where the last value is exact it is the integer nearest to the bound, or the one before that,
exactly if the fraction of the bound is below one half. Between zero and one it is the other way
round, as the value before has the other sign. -/
theorem integerPart_leftOut_iff {q : ℚ} :
    integerPart (q - leftOut inclusive) = nearestInteger q - leftOut inclusive ↔
      if inclusive = false ∧ 0 < q ∧ q < 1 then 1 / 2 ≤ q else Int.fract |q| < 1 / 2 := by
  cases inclusive with
  | true => simpa [leftOut] using integerPart_eq_nearestInteger_iff
  | false => simpa [leftOut] using integerPart_sub_one_iff

/-- A count runs its body once for each integer between its bounds in increasing order, where both
bounds are cut to their integer part; its variable is that integer in the units of the first bound.
These are the integers between those nearest to the bounds only if there are none in either case, or
if neither bound is cut to another integer than the nearest one. -/
theorem loopCount_visits_iff
    (isFirst : expr run scope start context state = .ok (.number a) between)
    (isLast : expr run scope stop context between = .ok (.number b) after)
    (whole : a.isWhole = true) (whole' : b.isWhole = true) (converts : b.coerce a.units = .ok c)
    (small : |a.value.toRat| < 2 ^ 63) (small' : |c.value.toRat| < 2 ^ 63)
    (exact : (lastOf inclusive c).toRat = c.value.toRat - leftOut inclusive)
    (few : ¬ lastOf inclusive c - a.value + 1 > Double.ofNat context.options.maxLoopIterations) :
    ∃ visited : List Int,
      loopCount run scope line span counter start stop inclusive body context state =
        inScope scope (fun inner =>
          forValues
            (fun value => do
              modifyEnv (·.declare inner counter value)
              body inner)
            [] (visited.map fun i => .number (Number.ofUnits (Double.ofInt i) a.units)))
          context after ∧
      visited.Pairwise (· < ·) ∧
      (∀ i, i ∈ visited ↔
        integerPart a.value.toRat ≤ i ∧ i ≤ integerPart (c.value.toRat - leftOut inclusive)) ∧
      ((∀ i, i ∈ visited ↔ nearestInteger a.value.toRat ≤ i ∧
          i ≤ nearestInteger c.value.toRat - leftOut inclusive) ↔
        (visited = [] ∧
          nearestInteger c.value.toRat - leftOut inclusive < nearestInteger a.value.toRat) ∨
        (Int.fract |a.value.toRat| < 1 / 2 ∧
          if inclusive = false ∧ 0 < c.value.toRat ∧ c.value.toRat < 1 then 1 / 2 ≤ c.value.toRat
          else Int.fract |c.value.toRat| < 1 / 2)) := by
  obtain ⟨low, high⟩ := abs_lt.mp small
  obtain ⟨low', high'⟩ := abs_lt.mp small'
  have first : a.value.toCount = integerPart a.value.toRat :=
    Double.toCount_eq (by linarith) high
  have last : (lastOf inclusive c).toCount = integerPart (c.value.toRat - leftOut inclusive) := by
    rw [Double.toCount_eq, exact] <;> rw [exact] <;> cases inclusive <;> simp [leftOut] <;> linarith
  have members : ∀ i, i ∈ consecutive a.value.toCount
      ((lastOf inclusive c).toCount - a.value.toCount + 1).toNat ↔
        integerPart a.value.toRat ≤ i ∧ i ≤ integerPart (c.value.toRat - leftOut inclusive) :=
    fun i => by rw [mem_consecutive, first, last]
  refine ⟨_, loopCount_ok isFirst isLast whole whole' converts few, pairwise_consecutive _ _,
    members, ?_⟩
  · have none : consecutive a.value.toCount
        ((lastOf inclusive c).toCount - a.value.toCount + 1).toNat = [] ↔
          integerPart (c.value.toRat - leftOut inclusive) < integerPart a.value.toRat := by
      rw [consecutive, List.map_eq_nil_iff, List.range_eq_nil, first, last]
      omega
    simp only [members]
    rw [between_iff, none, integerPart_leftOut_iff, integerPart_eq_nearestInteger_iff]

/-- A bound as it is written. -/
def boundOf (value : Double) (units : List String) : Expr :=
  .mk (.literal (.number (Number.ofUnits value ⟨units, []⟩))) 1 ⟨0, 1⟩

/-- A body that gives a comment in each run. -/
def noting (_ : ScopeId) : Evaluating Outcome :=
  return .ofCss (.node (.comment "run" false) [] 1 none)

def countStart : State := Compilation.start .default "" none

/-- Three points are four pixels. -/
theorem loopCount_visits_iff_of_points :
    let bound : Number := ⟨4, ⟨["px"], []⟩, none⟩
    (Number.ofUnits 3 ⟨["pt"], []⟩).coerce ⟨["px"], []⟩ = .ok bound ∧
    ∃ visited : List Int,
      loopCount (runner 0) 0 1 ⟨0, 1⟩ "i" (boundOf 1 ["px"]) (boundOf 3 ["pt"]) false noting
          ⟨.default, .empty, []⟩ countStart =
        inScope 0 (fun inner =>
          forValues
            (fun value => do
              modifyEnv (·.declare inner "i" value)
              noting inner)
            [] (visited.map fun i => .number (Number.ofUnits (Double.ofInt i) ⟨["px"], []⟩)))
          ⟨.default, .empty, []⟩ countStart ∧
      visited.Pairwise (· < ·) ∧ ∀ i, i ∈ visited ↔ 1 ≤ i ∧ i ≤ 3 := by
  intro bound
  have isFirst : expr (runner 0) 0 (boundOf 1 ["px"]) ⟨.default, .empty, []⟩ countStart =
    .ok (.number (Number.ofUnits 1 ⟨["px"], []⟩)) countStart := rfl
  have isLast : expr (runner 0) 0 (boundOf 3 ["pt"]) ⟨.default, .empty, []⟩ countStart =
    .ok (.number (Number.ofUnits 3 ⟨["pt"], []⟩)) countStart := rfl
  have converts : (Number.ofUnits 3 ⟨["pt"], []⟩).coerce ⟨["px"], []⟩ = .ok bound := by
    with_unfolding_all rfl
  have one : (Number.ofUnits 1 ⟨["px"], []⟩).value.toRat = 1 :=
    calc _ = 4503599627370496 * (2 : ℚ) ^ (-52 : ℤ) :=
          Double.toRat_of_positive (by decide +kernel) (by decide +kernel)
      _ = 1 := by norm_num
  have four : bound.value.toRat = 4 :=
    calc _ = 4503599627370496 * (2 : ℚ) ^ (-50 : ℤ) :=
          Double.toRat_of_positive (by decide +kernel) (by decide +kernel)
      _ = 4 := by norm_num
  have three : (lastOf false bound).toRat = 3 :=
    calc _ = 6755399441055744 * (2 : ℚ) ^ (-51 : ℤ) :=
          Double.toRat_of_positive (by decide +kernel) (by decide +kernel)
      _ = 3 := by norm_num
  obtain ⟨visited, runs, increasing, -, nearest⟩ :=
    @loopCount_visits_iff (runner 0) 0 1 ⟨0, 1⟩ "i" _ _ false noting _ _ _ _ _ _ bound isFirst isLast
      (by decide +kernel) (by decide +kernel) converts (by rw [one]; norm_num)
      (by rw [four]; norm_num) (by rw [three, four]; norm_num [leftOut]) (by decide +kernel)
  refine ⟨converts, visited, runs, increasing, ?_⟩
  have near : nearestInteger 1 = 1 ∧ nearestInteger 4 - leftOut false = 3 := by
    norm_num [nearestInteger, leftOut]
  rw [one, four, near.1, near.2] at nearest
  exact nearest.mpr (.inr (by norm_num))

/-- A bound just below one, such as `(1 - 0.9) * 10`, counts as whole, and one is the nearest integer;
still a count from one through this bound never runs its body. -/
theorem count_misses_bound :
    let bound := Number.ofDouble 0.9999999999999998
    bound.isWhole = true ∧ nearestInteger bound.value.toRat = 1 ∧
      ∃ after, loopCount (runner 0) 0 1 ⟨0, 1⟩ "i" (boundOf 1 []) (boundOf bound.value []) true noting
        ⟨.default, .empty, []⟩ countStart = .ok .nothing after := by
  intro bound
  have whole : bound.isWhole = true := by decide +kernel
  have value : bound.value.toRat = 9007199254740990 * (2 : ℚ) ^ (-53 : ℤ) :=
    Double.toRat_of_positive (by decide +kernel) (by decide +kernel)
  have nearest : nearestInteger bound.value.toRat = 1 := by
    rw [value]
    norm_num [nearestInteger]
  have none : ((lastOf true bound).toCount - (Number.ofUnits 1 ⟨[], []⟩).value.toCount + 1).toNat = 0 := by
    decide +kernel
  refine ⟨whole, nearest, ?_⟩
  rw [loopCount_ok (c := bound) rfl rfl (by decide +kernel) whole rfl (by decide +kernel), none]
  exact ⟨_, rfl⟩

end Count

end Stylesheet.Evaluation
