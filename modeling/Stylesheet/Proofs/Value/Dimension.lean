import Mathlib.Algebra.Group.Pi.Basic
import Mathlib.Data.List.Count
import Mathlib.Data.List.Perm.Basic
import Mathlib.Data.Int.Basic
import Mathlib.Tactic.Common
import Stylesheet.Proofs.Except
import Stylesheet.Value.Number

/-! What the units of a number measure. A dimension counts, for each quantity and for each unit
outside the table, how often it is multiplied less how often it is divided by. Numbers combine as
their dimensions do, and no operation leaves two units that could still cancel. Numbers compare if,
without the units they share, what is left converts in order. So they have one dimension, but two of
one dimension with more than one unit left compare only if these stand in the same order. -/

namespace Stylesheet

namespace Unit

/-- What a unit measures. A unit outside the table measures only itself. -/
inductive Kind where
  | quantity (quantity : Quantity)
  | itself (unit : String)
deriving DecidableEq

def kind (unit : String) : Kind :=
  match measure? unit with
  | some (quantity, _) => .quantity quantity
  | none => .itself unit

theorem factor?_isSome_iff {unit target : String} :
    (factor? unit target).isSome = true ↔ kind unit = kind target := by
  by_cases same : unit = target
  · simp [factor?, same]
  · unfold factor? kind
    rw [if_neg (by simpa using same)]
    cases measure? unit with
    | none => cases measure? target <;> simp [same]
    | some measured =>
      cases measure? target with
      | none => simp
      | some other => by_cases quantity : measured.1 = other.1 <;> simp [quantity]

theorem factor?_eq_none_iff {unit target : String} :
    factor? unit target = none ↔ kind unit ≠ kind target := by
  rw [← Option.not_isSome_iff_eq_none, factor?_isSome_iff]

end Unit

namespace Units

/-- How often a kind of unit is multiplied, less how often it is divided by. -/
def dimension (units : Units) (kind : Unit.Kind) : Int :=
  (units.numerator.map Unit.kind).count kind - (units.denominator.map Unit.kind).count kind

/-- No unit is both multiplied and divided by, as itself or as one that it converts to. -/
def IsNormal (units : Units) : Prop :=
  ∀ unit ∈ units.numerator, ∀ other ∈ units.denominator, Unit.factor? unit other = none

section Lists

variable {source target numerator denominator : List String}

/-- Equal units leave both lists together, until the lists have none in common. -/
theorem cancelEqual_common (source target : List String) :
    ∃ common, source.Perm (common ++ (cancelEqual source target).1) ∧
      target.Perm (common ++ (cancelEqual source target).2) ∧
      (cancelEqual source target).1.Disjoint (cancelEqual source target).2 := by
  fun_induction cancelEqual source target with
  | case1 others => exact ⟨[], .refl _, .refl _, List.disjoint_nil_left _⟩
  | case2 unit rest others isThere ih =>
    obtain ⟨common, first, second, apart⟩ := ih
    have member : unit ∈ others := List.contains_iff_mem.mp isThere
    exact ⟨unit :: common, first.cons unit, (List.perm_cons_erase member).trans (second.cons unit),
      apart⟩
  | case3 unit rest others isAbsent kept left same ih =>
    rw [same] at ih
    obtain ⟨common, first, second, apart⟩ := ih
    have absent : unit ∉ left := fun member =>
      isAbsent (List.contains_iff_mem.mpr (second.symm.subset (List.mem_append_right _ member)))
    exact ⟨common, (first.cons unit).trans List.perm_middle.symm, second,
      List.disjoint_cons_left.mpr ⟨absent, apart⟩⟩

theorem dimension_cancelEqual (source target : List String) :
    dimension ⟨(cancelEqual source target).1, (cancelEqual source target).2⟩ =
      dimension ⟨source, target⟩ := by
  obtain ⟨common, first, second, -⟩ := cancelEqual_common source target
  funext kind
  have above := (first.map Unit.kind).count_eq kind
  have below := (second.map Unit.kind).count_eq kind
  simp only [List.map_append, List.count_append] at above below
  simp only [dimension]
  omega

theorem dimension_cancelConvertible (numerator denominator : List String) :
    (cancelConvertible numerator denominator).1.dimension = dimension ⟨numerator, denominator⟩ := by
  fun_induction cancelConvertible numerator denominator with
  | case1 numerator => rfl
  | case2 numerator unit rest other found units factors same ih =>
    rw [same] at ih
    have converts := List.find?_some found
    simp only [Bool.and_eq_true] at converts
    have kinds := Unit.factor?_isSome_iff.mp converts.2
    have parts := (List.perm_cons_erase (List.mem_of_find?_eq_some found)).map Unit.kind
    rw [ih]
    funext kind
    have above := parts.count_eq kind
    simp only [dimension, List.map_cons, List.count_cons, kinds] at above ⊢
    omega
  | case3 numerator unit rest alone units factors same ih =>
    rw [same] at ih
    funext kind
    have rest := congrFun ih kind
    simp only [dimension, List.map_cons, List.count_cons] at rest ⊢
    omega

theorem cancelConvertible_subset (numerator denominator : List String) :
    (cancelConvertible numerator denominator).1.numerator ⊆ numerator ∧
      (cancelConvertible numerator denominator).1.denominator ⊆ denominator := by
  fun_induction cancelConvertible numerator denominator with
  | case1 numerator => exact ⟨List.Subset.refl _, List.Subset.refl _⟩
  | case2 numerator unit rest other found units factors same ih =>
    rw [same] at ih
    exact ⟨List.Subset.trans ih.1 List.erase_subset, List.subset_cons_of_subset _ ih.2⟩
  | case3 numerator unit rest alone units factors same ih =>
    rw [same] at ih
    exact ⟨ih.1, List.cons_subset_cons _ ih.2⟩

theorem cancelConvertible_isNormal (apart : numerator.Disjoint denominator) :
    (cancelConvertible numerator denominator).1.IsNormal := by
  fun_induction cancelConvertible numerator denominator with
  | case1 numerator => exact fun _ _ _ => nofun
  | case2 numerator unit rest other found units factors same ih =>
    rw [same] at ih
    exact ih (List.disjoint_of_subset_left List.erase_subset (List.disjoint_cons_right.mp apart).2)
  | case3 numerator unit rest alone units factors same ih =>
    have subset := (cancelConvertible_subset numerator rest).1
    rw [same] at ih subset
    obtain ⟨absent, apart⟩ := List.disjoint_cons_right.mp apart
    intro above isAbove below isBelow
    rcases List.mem_cons.mp isBelow with rfl | isBelow
    · have stays := List.find?_eq_none.mp alone above (subset isAbove)
      have differs : above ≠ below := fun equal => absent (equal ▸ subset isAbove)
      rw [Unit.factor?_eq_none_iff]
      exact fun kinds => stays (by simp [differs, Unit.factor?_isSome_iff, kinds])
    · exact ih apart above isAbove below isBelow

end Lists

@[simp]
theorem dimension_normalize (units : Units) : units.normalize.1.dimension = units.dimension := by
  rw [normalize, dimension_cancelConvertible, dimension_cancelEqual]

theorem normalize_isNormal (units : Units) : units.normalize.1.IsNormal := by
  obtain ⟨-, -, -, apart⟩ := cancelEqual_common units.numerator units.denominator
  exact cancelConvertible_isNormal apart

@[simp]
theorem dimension_mul (a b : Units) : (a.mul b).dimension = a.dimension + b.dimension := by
  funext kind
  simp only [mul, dimension, List.map_append, List.count_append, Pi.add_apply]
  omega

@[simp]
theorem dimension_div (a b : Units) : (a.div b).dimension = a.dimension - b.dimension := by
  funext kind
  simp only [div, dimension, List.map_append, List.count_append, Pi.sub_apply]
  omega

/-- Without the units that the lists share, the first of one converts to the first of the other,
the second to the second, and so on. -/
def LineUp (source target : List String) : Prop :=
  (cancelEqual source target).1.map Unit.kind = (cancelEqual source target).2.map Unit.kind

theorem LineUp.perm {source target : List String} (lineUp : LineUp source target) :
    (source.map Unit.kind).Perm (target.map Unit.kind) := by
  obtain ⟨common, first, second, -⟩ := cancelEqual_common source target
  refine (first.map _).trans (.trans ?_ (second.map _).symm)
  rw [List.map_append, List.map_append, lineUp]

/-- Steps over pairs that go well for two of a kind go well over all if the kinds are the same. -/
theorem foldlM_ok_iff {step : Double → String × String → Except ValueError Double}
    (stepOk : ∀ total pair, (∃ next, step total pair = .ok next) ↔
      Unit.kind pair.1 = Unit.kind pair.2) {source target : List String} {total : Double}
    (length : source.length = target.length) :
    (∃ factor, (source.zip target).foldlM step total = .ok factor) ↔
      source.map Unit.kind = target.map Unit.kind := by
  induction source generalizing target total with
  | nil =>
    obtain rfl : target = [] := List.length_eq_zero_iff.mp length.symm
    exact ⟨fun _ => rfl, fun _ => ⟨total, rfl⟩⟩
  | cons unit rest ih =>
    cases target with
    | nil => cases length
    | cons other others =>
      have first := stepOk total (unit, other)
      rw [List.zip_cons_cons, List.foldlM_cons, List.map_cons, List.map_cons, List.cons.injEq,
        ← first]
      constructor
      · rintro ⟨factor, run⟩
        obtain ⟨next, run, others⟩ := exists_of_bind_ok run
        exact ⟨⟨next, run⟩, (ih (Nat.succ.inj length)).mp ⟨factor, others⟩⟩
      · rintro ⟨⟨next, run⟩, kinds⟩
        have more : ∃ factor, (rest.zip others).foldlM step next = .ok factor :=
          (ih (Nat.succ.inj length)).mpr kinds
        obtain ⟨factor, others⟩ := more
        exact ⟨factor, by rw [run]; exact others⟩

theorem productFactor_ok_iff {source target : List String} :
    (∃ factor, productFactor source target = .ok factor) ↔ LineUp source target := by
  unfold productFactor LineUp
  split
  rename_i kept left same
  rw [same]
  by_cases length : kept.length = left.length
  · rw [if_neg (by simpa using length)]
    refine foldlM_ok_iff (fun total (unit, other) => ?_) (by simpa using length)
    rw [← Unit.factor?_isSome_iff]
    cases converts : Unit.factor? unit other <;> simp [converts]
  · rw [if_pos (by simpa using length)]
    refine ⟨fun ⟨_, failed⟩ => (nomatch failed), fun equal => absurd ?_ length⟩
    simpa using congrArg List.length equal

end Units

namespace Number

section Operations

variable {a b c : Number} {units : Units} {aligned : Number × Number}

@[simp]
theorem units_ofUnits (value : Double) (units : Units) :
    (ofUnits value units).units = units.normalize.1 :=
  rfl

/-- A number with units takes others only if they come to the same. -/
theorem coerce_units (run : a.coerce units = .ok c) :
    c.units = units ∧ (a.isUnitless = false → units.dimension = a.units.dimension) := by
  unfold coerce at run
  split at run
  · rename_i unitless
    cases run
    exact ⟨rfl, by simp [unitless]⟩
  · obtain ⟨up, above, run⟩ := exists_of_bind_ok run
    obtain ⟨down, below, run⟩ := exists_of_bind_ok run
    cases run
    refine ⟨rfl, fun _ => funext fun kind => ?_⟩
    have numerator := (Units.productFactor_ok_iff.mp ⟨up, above⟩).perm.count_eq kind
    have denominator := (Units.productFactor_ok_iff.mp ⟨down, below⟩).perm.count_eq kind
    simp only [Units.dimension, numerator, denominator]

theorem align_units (run : align a b = .ok aligned) :
    (a.isUnitless = false → aligned.1.units = a.units) ∧
      (a.isUnitless = true → aligned.1.units = b.units) ∧
      (a.isUnitless = false → b.isUnitless = false → a.units.dimension = b.units.dimension) := by
  unfold align at run
  split at run
  · rename_i unitless
    obtain ⟨coerced, taken, done⟩ := exists_of_bind_ok run
    cases done
    simp [unitless, (coerce_units taken).1]
  · rename_i carries
    obtain ⟨coerced, taken, done⟩ := exists_of_bind_ok run
    cases done
    simpa [carries] using (coerce_units taken).2

/-- A sum or difference has the dimension of each operand that has units. -/
theorem dimension_of_align (run : align a b = .ok aligned)
    (sum : c.units = aligned.1.units.normalize.1) :
    (a.isUnitless = false → c.units.dimension = a.units.dimension) ∧
      (b.isUnitless = false → c.units.dimension = b.units.dimension) := by
  obtain ⟨own, others, agree⟩ := align_units run
  rw [sum, Units.dimension_normalize]
  cases unitless : a.isUnitless with
  | true => simp [others unitless]
  | false => simpa [own unitless] using agree unitless

theorem dimension_sum (run : a.plus b = .ok c ∨ a.minus b = .ok c) :
    (a.isUnitless = false → c.units.dimension = a.units.dimension) ∧
      (b.isUnitless = false → c.units.dimension = b.units.dimension) := by
  rcases run with run | run
  all_goals
    obtain ⟨aligned, isAligned, done⟩ := exists_of_bind_ok run
    cases done
    exact dimension_of_align isAligned rfl

theorem dimension_times (a b : Number) :
    (a.times b).units.dimension = a.units.dimension + b.units.dimension := by
  rw [times, units_ofUnits, Units.dimension_normalize, Units.dimension_mul]

theorem dimension_div (a b : Number) :
    (a.div b).units.dimension = a.units.dimension - b.units.dimension := by
  rw [div, units_ofUnits, Units.dimension_normalize, Units.dimension_div]

end Operations

/-- The numbers that arithmetic gives. -/
inductive Built : Number → Prop where
  | new (value : Double) (units : Units) : Built (ofUnits value units)
  | plus : Built a → Built b → a.plus b = .ok c → Built c
  | minus : Built a → Built b → a.minus b = .ok c → Built c
  | times : Built a → Built b → Built (a.times b)
  | div : Built a → Built b → Built (a.div b)
  | modulo : Built a → Built b → Built (a.modulo b)
  | negate : Built a → Built a.negate
  | withValue (value : Double) : Built a → Built (a.withValue value)

theorem Built.isNormal {number : Number} (built : Built number) : number.units.IsNormal := by
  induction built with
  | new => exact Units.normalize_isNormal _
  | plus _ _ run | minus _ _ run =>
    obtain ⟨aligned, -, done⟩ := exists_of_bind_ok run
    cases done
    exact Units.normalize_isNormal _
  | times | div | modulo => exact Units.normalize_isNormal _
  | negate _ normal | withValue _ _ normal => exact normal

/-- Numbers combine as their dimensions do. A new number has the dimension of the units it is given
and none of them left that cancel, and neither has a number that arithmetic gives. Products and
quotients add and subtract dimensions; a sum or difference has that of each operand with units. -/
theorem dimension_arithmetic :
    (∀ value units, (ofUnits value units).units.dimension = units.dimension ∧
      (ofUnits value units).units.IsNormal) ∧
    (∀ number, Built number → number.units.IsNormal) ∧
    (∀ a b : Number, (a.times b).units.dimension = a.units.dimension + b.units.dimension) ∧
    (∀ a b : Number, (a.div b).units.dimension = a.units.dimension - b.units.dimension) ∧
    (∀ a b c : Number, a.plus b = .ok c ∨ a.minus b = .ok c →
      (a.isUnitless = false → c.units.dimension = a.units.dimension) ∧
      (b.isUnitless = false → c.units.dimension = b.units.dimension)) :=
  ⟨fun _ units => ⟨units.dimension_normalize, units.normalize_isNormal⟩,
    fun _ built => built.isNormal, dimension_times, dimension_div,
    fun _ _ _ => dimension_sum⟩

end Number

namespace Units

section Normal

variable {units other : Units} {source target : List String}

/-- Without cancelling units, a kind is above the line or below it. -/
theorem IsNormal.count (normal : units.IsNormal) (kind : Unit.Kind) :
    (units.numerator.map Unit.kind).count kind = (units.dimension kind).toNat ∧
      (units.denominator.map Unit.kind).count kind = (-units.dimension kind).toNat := by
  have oneSide : (units.numerator.map Unit.kind).count kind = 0 ∨
      (units.denominator.map Unit.kind).count kind = 0 := by
    by_contra! both
    obtain ⟨above, isAbove, rfl⟩ := List.mem_map.mp (List.one_le_count_iff.mp (Nat.pos_of_ne_zero both.1))
    obtain ⟨below, isBelow, same⟩ := List.mem_map.mp (List.one_le_count_iff.mp (Nat.pos_of_ne_zero both.2))
    exact Unit.factor?_eq_none_iff.mp (normal above isAbove below isBelow) same.symm
  rw [dimension]
  omega

theorem dimension_eq_iff (normal : units.IsNormal) (normalOther : other.IsNormal) :
    units.dimension = other.dimension ↔
      (units.numerator.map Unit.kind).Perm (other.numerator.map Unit.kind) ∧
        (units.denominator.map Unit.kind).Perm (other.denominator.map Unit.kind) := by
  rw [List.perm_iff_count, List.perm_iff_count]
  constructor
  · intro same
    simp [(normal.count _).1, (normal.count _).2, (normalOther.count _).1,
      (normalOther.count _).2, same]
  · rintro ⟨above, below⟩
    funext kind
    rw [dimension, dimension, above, below]

/-- The units that are not shared convert in some order if all of them do. -/
theorem perm_cancelEqual_iff (source target : List String) :
    ((cancelEqual source target).1.map Unit.kind).Perm
        ((cancelEqual source target).2.map Unit.kind) ↔
      (source.map Unit.kind).Perm (target.map Unit.kind) := by
  obtain ⟨common, first, second, -⟩ := cancelEqual_common source target
  have kinds := first.map Unit.kind
  have others := second.map Unit.kind
  rw [List.map_append] at kinds others
  rw [kinds.congr_left, others.congr_right, List.perm_append_left_iff]

/-- At most one unit has an order of its own. -/
theorem LineUp.of_perm (perm : (source.map Unit.kind).Perm (target.map Unit.kind))
    (short : (cancelEqual source target).1.length ≤ 1) : LineUp source target := by
  have left := (perm_cancelEqual_iff source target).mpr perm
  unfold LineUp
  generalize (cancelEqual source target).1 = kept at short left
  match kept, short with
  | [], _ => exact left.nil_eq
  | [unit], _ => exact left.singleton_eq

end Normal

end Units

namespace Number

section Comparison

variable {a b : Number}

theorem coerce_ok_iff (carries : a.isUnitless = false) {units : Units} :
    (∃ c, a.coerce units = .ok c) ↔
      Units.LineUp a.units.numerator units.numerator ∧
        Units.LineUp a.units.denominator units.denominator := by
  rw [← Units.productFactor_ok_iff, ← Units.productFactor_ok_iff, coerce, if_neg (by simp [carries])]
  constructor
  · rintro ⟨c, run⟩
    obtain ⟨up, above, run⟩ := exists_of_bind_ok run
    obtain ⟨down, below, -⟩ := exists_of_bind_ok run
    exact ⟨⟨up, above⟩, down, below⟩
  · rintro ⟨⟨up, above⟩, down, below⟩
    exact ⟨_, by rw [above, below]; rfl⟩

theorem isComparable_iff (carries : a.isUnitless = false) (carriesOther : b.isUnitless = false) :
    a.isComparable b = true ↔ Units.LineUp b.units.numerator a.units.numerator ∧
      Units.LineUp b.units.denominator a.units.denominator := by
  rw [← coerce_ok_iff carriesOther, isComparable, align, if_neg (by simp [carries])]
  cases b.coerce a.units <;> simp [bind, Except.bind, Except.toBool]

theorem toBool_bind {first : Except ε α} {next : α → Except ε β}
    (total : ∀ x, (next x).toBool = true) : (first >>= next).toBool = first.toBool := by
  cases first with
  | error _ => rfl
  | ok x => exact total x

/-- Numbers that compare have one dimension. -/
theorem dimension_of_isComparable (carries : a.isUnitless = false)
    (carriesOther : b.isUnitless = false) (comparable : a.isComparable b = true) :
    a.units.dimension = b.units.dimension := by
  obtain ⟨above, below⟩ := (isComparable_iff carries carriesOther).mp comparable
  funext kind
  rw [Units.dimension, Units.dimension, above.perm.count_eq, below.perm.count_eq]

theorem dimension_times_reordered {other : Number} {otherFactor : Number}
    (first : a.units.dimension = other.units.dimension)
    (second : b.units.dimension = otherFactor.units.dimension) :
    (a.times b).units.dimension = (otherFactor.times other).units.dimension := by
  rw [dimension_times, dimension_times, first, second]
  exact funext fun kind => Int.add_comm _ _

theorem isComparable_of_dimension (normal : a.units.IsNormal) (normalOther : b.units.IsNormal)
    (carries : a.isUnitless = false) (carriesOther : b.isUnitless = false)
    (same : a.units.dimension = b.units.dimension)
    (fewAbove : (Units.cancelEqual b.units.numerator a.units.numerator).1.length ≤ 1)
    (fewBelow : (Units.cancelEqual b.units.denominator a.units.denominator).1.length ≤ 1) :
    a.isComparable b = true := by
  obtain ⟨above, below⟩ := (Units.dimension_eq_iff normal normalOther).mp same
  exact (isComparable_iff carries carriesOther).mpr
    ⟨.of_perm above.symm fewAbove, .of_perm below.symm fewBelow⟩

end Comparison

/-- Numbers with units can be added, subtracted and ordered exactly if they compare, and that is if
the units they do not share convert one for one, in order. Then they have one dimension. The
converse needs that above and below the line at most one unit is not shared. -/
theorem isComparable_units {a b : Number} (normal : a.units.IsNormal)
    (normalOther : b.units.IsNormal) (carries : a.isUnitless = false)
    (carriesOther : b.isUnitless = false) :
    (a.plus b).toBool = a.isComparable b ∧ (a.minus b).toBool = a.isComparable b ∧
    (a.compare b).toBool = a.isComparable b ∧
    (a.isComparable b = true ↔ Units.LineUp b.units.numerator a.units.numerator ∧
      Units.LineUp b.units.denominator a.units.denominator) ∧
    (a.isComparable b = true → a.units.dimension = b.units.dimension) ∧
    (a.units.dimension = b.units.dimension →
      (Units.cancelEqual b.units.numerator a.units.numerator).1.length ≤ 1 →
      (Units.cancelEqual b.units.denominator a.units.denominator).1.length ≤ 1 →
      a.isComparable b = true) :=
  ⟨toBool_bind fun _ => rfl, toBool_bind fun _ => rfl, toBool_bind fun _ => rfl,
    isComparable_iff carries carriesOther, dimension_of_isComparable carries carriesOther,
    isComparable_of_dimension normal normalOther carries carriesOther⟩

/-- An inch and a pixel in seconds. -/
theorem isComparable_units_in_px :
    (⟨1.0, ⟨["px"], ["s"]⟩, none⟩ : Number).units.IsNormal ∧
      (⟨1.0, ⟨["in"], ["s"]⟩, none⟩ : Number).units.IsNormal ∧
      (⟨1.0, ⟨["px"], ["s"]⟩, none⟩ : Number).isComparable ⟨1.0, ⟨["in"], ["s"]⟩, none⟩ = true := by
  have normal : (⟨1.0, ⟨["px"], ["s"]⟩, none⟩ : Number).units.IsNormal := by
    simp [Units.IsNormal, Unit.factor?_eq_none_iff, Unit.kind, Unit.measure?]
  have normalOther : (⟨1.0, ⟨["in"], ["s"]⟩, none⟩ : Number).units.IsNormal := by
    simp [Units.IsNormal, Unit.factor?_eq_none_iff, Unit.kind, Unit.measure?]
  obtain ⟨-, -, -, same, -⟩ := isComparable_units normal normalOther rfl rfl
  refine ⟨normal, normalOther, same.mpr ⟨?_, ?_⟩⟩
  · simp [Units.LineUp, Units.cancelEqual, Unit.kind, Unit.measure?]
  · simp [Units.LineUp, Units.cancelEqual]

/-- Two lengths compare, and so do two times. The products of one of each have one dimension, but
they do not compare when one is a length times a time and the other a time times a length. -/
theorem not_isComparable_reordered :
    (ofUnit 1.0 "px").isComparable (ofUnit 1.0 "in") = true ∧
      (ofUnit 1.0 "s").isComparable (ofUnit 1.0 "ms") = true ∧
      ((ofUnit 1.0 "px").times (ofUnit 1.0 "s")).units.dimension =
        ((ofUnit 1.0 "ms").times (ofUnit 1.0 "in")).units.dimension ∧
      ((ofUnit 1.0 "px").times (ofUnit 1.0 "s")).isComparable
        ((ofUnit 1.0 "ms").times (ofUnit 1.0 "in")) = false := by
  have lengths : (ofUnit 1.0 "px").isComparable (ofUnit 1.0 "in") = true := by
    rw [isComparable_iff rfl rfl]
    simp [ofUnit, Units.normalize, Units.LineUp, Units.cancelEqual, Units.cancelConvertible,
      Unit.kind, Unit.measure?]
  have times : (ofUnit 1.0 "s").isComparable (ofUnit 1.0 "ms") = true := by
    rw [isComparable_iff rfl rfl]
    simp [ofUnit, Units.normalize, Units.LineUp, Units.cancelEqual, Units.cancelConvertible,
      Unit.kind, Unit.measure?]
  refine ⟨lengths, times, ?_, ?_⟩
  · exact dimension_times_reordered (dimension_of_isComparable rfl rfl lengths)
      (dimension_of_isComparable rfl rfl times)
  · rw [← Bool.not_eq_true, isComparable_iff rfl rfl]
    simp [Number.times, ofUnit, Units.mul, Units.normalize, Units.LineUp, Units.cancelEqual,
      Units.cancelConvertible, Unit.kind, Unit.measure?]

end Number

end Stylesheet
