import Stylesheet.Evaluation.Statement
import Stylesheet.Proofs.Token.Words

/-! Lists of literals have the same value in every scope and every state. A list that is written as
text with blanks and commas is shown by that text, if each literal in it is. -/

namespace Stylesheet

open Script WrittenLiteral

/-- The value of a list; a single item stands for itself. -/
def Value.collected (separator : Separator) : List Value → Value
  | [v] => v
  | items => .list items separator

namespace Evaluation

/-- In every context and every state, something with a property is given. -/
def Gives (action : Evaluating α) (p : α → Prop) : Prop :=
  ∀ context state, ∃ a after, action context state = .ok a after ∧ p a

section Rules

variable {action : Evaluating α} {p : α → Prop}

theorem Gives.pure {a : α} (holds : p a) : Gives (pure a : Evaluating α) p :=
  fun _ state => ⟨a, state, rfl, holds⟩

theorem Gives.bind {next : α → Evaluating β} {q : β → Prop} (first : Gives action p)
    (behind : ∀ a, p a → Gives (next a) q) : Gives (action >>= next) q := by
  intro context state
  obtain ⟨a, middle, found, holds⟩ := first context state
  obtain ⟨b, after, last, result⟩ := behind a holds context middle
  refine ⟨b, after, ?_, result⟩
  change EStateM.bind (action context) (fun a => next a context) state = _
  rw [EStateM.bind, found]
  exact last

theorem Gives.after {next : α → Evaluating β} {q : β → Prop} (first : Gives action fun _ => True)
    (behind : ∀ a, Gives (next a) q) : Gives (action >>= next) q :=
  first.bind fun a _ => behind a

theorem Gives.weaken {q : α → Prop} (gives : Gives action p) (implies : ∀ a, p a → q a) :
    Gives action q := by
  intro context state
  obtain ⟨a, after, found, holds⟩ := gives context state
  exact ⟨a, after, found, implies a holds⟩

theorem Gives.get : Gives (get : Evaluating State) fun _ => True :=
  fun _ state => ⟨state, state, rfl, trivial⟩

theorem Gives.read : Gives (read : Evaluating Context) fun _ => True :=
  fun context state => ⟨context, state, rfl, trivial⟩

theorem Gives.modify (f : State → State) : Gives (modify f : Evaluating Unit) fun _ => True :=
  fun _ state => ⟨(), f state, rfl, trivial⟩

theorem Gives.ensuring {restore : State → State} (gives : Gives action p) :
    Gives (ensuring restore action) p := by
  intro context state
  obtain ⟨a, after, found, holds⟩ := gives context state
  exact ⟨a, restore after, by simp only [Evaluation.ensuring, found], holds⟩

theorem Gives.amending {amend : Diagnostic → Diagnostic} (gives : Gives action p) :
    Gives (amending amend action) p := by
  intro context state
  obtain ⟨a, after, found, holds⟩ := gives context state
  exact ⟨a, after, by simp only [Evaluation.amending, found], holds⟩

theorem Gives.inside {parent : Enclosure} (gives : Gives action p) : Gives (inside parent action) p :=
  Gives.get.after fun _ => (Gives.modify _).after fun _ => gives.ensuring

theorem Gives.forStatement {line : Nat} {filename : Option String} (gives : Gives action p) :
    Gives (forStatement line filename action) p :=
  Gives.get.after fun _ => (Gives.modify _).after fun _ => gives.ensuring.amending

theorem Gives.inScope {parent : ScopeId} {body : ScopeId → Evaluating α}
    (gives : ∀ scope, Gives (body scope) p) : Gives (inScope parent body) p := by
  have pushes : Gives (pushScope parent) fun _ => True :=
    fun _ state => ⟨_, _, rfl, trivial⟩
  exact pushes.after fun scope => (gives scope).ensuring

theorem Gives.nested {parent : Enclosure} {scope : ScopeId} {body : ScopeId → Evaluating Outcome}
    {q : List Css → Prop} (gives : ∀ scope, Gives (body scope) fun outcome => q outcome.css) :
    Gives (nested parent scope body) q :=
  (Gives.inside (.inScope gives)).bind fun _ holds => .pure holds

end Rules

/-- All expressions that are read as this one have a value that nothing around them changes. -/
def IsConstant (e : Expr) (v : Value) : Prop :=
  ∀ found : Expr, found.unplaced = e → ∀ run scope, Gives (expr run scope found) (· = v)

theorem isConstant_bare (v : Value) : IsConstant (bare v) v := by
  rintro ⟨form, line, span⟩ same run scope
  obtain ⟨isForm, _⟩ := Expr.mk.inj same
  cases form with
  | literal value =>
    cases isForm
    unfold expr
    exact .pure rfl
  | _ => cases isForm

theorem gives_exprs {es : List Expr} {vs : List Value} (constant : List.Forall₂ IsConstant es vs)
    (run : Runner) (scope : ScopeId) {found : List Expr} (same : found.map Expr.unplaced = es) :
    Gives (exprs run scope found) (· = vs) := by
  induction constant generalizing found with
  | nil =>
    obtain rfl := List.map_eq_nil_iff.mp same
    unfold exprs
    exact .pure rfl
  | cons first _ ih =>
    obtain ⟨e, rest, rfl, isFirst, areOthers⟩ := List.map_eq_cons_iff.mp same
    unfold exprs
    refine (first e isFirst run scope).bind fun v isValue => ?_
    refine (ih areOthers).bind fun others areValues => .pure ?_
    rw [isValue, areValues]

theorem isConstant_grouped {es : List Expr} {vs : List Value}
    (constant : List.Forall₂ IsConstant es vs) (separator : Separator) :
    IsConstant (grouped separator es) (Value.collected separator vs) := by
  have list : ∀ found : Expr, found.unplaced = .mk (.list es separator) 0 default →
      ∀ run scope, Gives (expr run scope found) (· = .list vs separator) := by
    rintro ⟨form, line, span⟩ same run scope
    obtain ⟨isForm, _⟩ := Expr.mk.inj same
    cases form with
    | list items other =>
      obtain ⟨areItems, rfl⟩ := Form.list.inj isForm
      rw [unplacedAll_eq_map] at areItems
      unfold expr
      exact (gives_exprs constant run scope areItems).bind fun values areValues =>
        .pure (by rw [areValues])
    | _ => cases isForm
  cases constant with
  | nil => exact list
  | cons first others =>
    cases others with
    | nil => exact first
    | cons => exact list

end Evaluation

namespace Value

variable {style : Style}

theorem not_isEmptyList {v : Value} {text : String} (shown : v.toCss style = .ok text) :
    v.isEmptyList = false := by
  unfold isEmptyList
  split
  · unfold toCss at shown
    cases shown
  · rfl

theorem itemsToCss_ok {vs : List Value} {texts : List String}
    (shown : List.Forall₂ (fun v text => v.toCss style = .ok text) vs texts) :
    itemsToCss style vs = .ok texts := by
  induction shown with
  | nil =>
    unfold itemsToCss
    rfl
  | cons first _ ih =>
    unfold itemsToCss
    rw [not_isEmptyList first, first, ih]
    rfl

theorem toCss_collected {vs : List Value} {texts : List String} (filled : vs ≠ [])
    (shown : List.Forall₂ (fun v text => v.toCss style = .ok text) vs texts)
    (separator : Separator) :
    (collected separator vs).toCss style = .ok ((separator.toText style).intercalate texts) := by
  have items := itemsToCss_ok shown
  cases shown with
  | nil => exact absurd rfl filled
  | cons first others =>
    cases others with
    | nil => exact first
    | cons second others =>
      unfold collected toCss
      rw [items]
      rfl

end Value

/-- Wherever the value is read and evaluated, it is shown by the text that it is read from. -/
def WrittenValue.IsFaithful (value : WrittenValue) : Prop :=
  ∃ v, Evaluation.IsConstant value.expr v ∧ v.toCss .nested = .ok (String.ofList value.text)

namespace WrittenList

variable (w : WrittenList)

/-- The literals of a list. -/
def literals : List WrittenLiteral :=
  w.first :: (w.items ++ w.groups.flatten)

/-- All literals of a list are shown by the texts that they are read from. -/
def IsFaithful : Prop :=
  ∀ l ∈ w.literals, l.IsFaithful

/-- The groups of literals between commas. -/
def allGroups : List (List WrittenLiteral) :=
  (w.first :: w.items) :: w.groups

/-- The value that the list stands for. -/
def result : Value :=
  Value.collected .comma (w.values.map (Value.collected .space))

theorem values_eq : w.values = w.allGroups.map (·.map (·.value)) := rfl

theorem allGroups_filled : ∀ g ∈ w.allGroups, g ≠ [] := by
  intro g member
  rcases List.mem_cons.mp member with rfl | other
  · exact List.cons_ne_nil _ _
  · exact w.filled g other

theorem isConstant : Evaluation.IsConstant w.expr w.result := by
  have literals : ∀ vs : List Value, List.Forall₂ Evaluation.IsConstant (vs.map bare) vs := by
    intro vs
    rw [List.forall₂_map_left_iff]
    exact List.forall₂_same.mpr fun v _ => Evaluation.isConstant_bare v
  refine Evaluation.isConstant_grouped ?_ .comma
  rw [List.forall₂_map_left_iff, List.forall₂_map_right_iff]
  exact List.forall₂_same.mpr fun vs _ => Evaluation.isConstant_grouped (literals vs) .space

/-- The text of a group of literals. -/
def groupText (g : List WrittenLiteral) : String :=
  " ".intercalate (g.map fun l => String.ofList l.text)

theorem toList_groupText (l : WrittenLiteral) (others : List WrittenLiteral) :
    (groupText (l :: others)).toList = l.text ++ spacedText others := by
  induction others generalizing l with
  | nil => simp [groupText, spacedText]
  | cons m others ih =>
    have split : groupText (l :: m :: others) =
        String.ofList l.text ++ " " ++ groupText (m :: others) := String.intercalate_cons_cons
    rw [split, String.toList_append, ih]
    simp [spacedText]

theorem toList_groupTexts (l : WrittenLiteral) (others : List WrittenLiteral)
    (groups : List (List WrittenLiteral)) (filled : ∀ g ∈ groups, g ≠ []) :
    (", ".intercalate (((l :: others) :: groups).map groupText)).toList =
      l.text ++ (spacedText others ++ listedText groups) := by
  induction groups generalizing l others with
  | nil =>
    have alone : ", ".intercalate ([l :: others].map groupText) = groupText (l :: others) :=
      String.intercalate_singleton
    rw [alone, toList_groupText, listedText, List.append_nil]
  | cons g groups ih =>
    obtain ⟨m, more, rfl⟩ := List.exists_cons_of_ne_nil (filled g List.mem_cons_self)
    have split : ", ".intercalate (((l :: others) :: (m :: more) :: groups).map groupText) =
        groupText (l :: others) ++ ", " ++
          ", ".intercalate (((m :: more) :: groups).map groupText) := String.intercalate_cons_cons
    rw [split, String.toList_append, ih m more fun g member => filled g (List.mem_cons_of_mem _ member),
      String.toList_append, toList_groupText]
    simp [listedText, spacedText]

/-- A list of faithful literals is shown by the text that it is read from. -/
theorem toCss_result (faithful : w.IsFaithful) :
    w.result.toCss .nested = .ok (String.ofList w.text) := by
  have group : ∀ g ∈ w.allGroups,
      (Value.collected .space (g.map (·.value))).toCss .nested = .ok (groupText g) := by
    intro g member
    refine Value.toCss_collected (by simpa using w.allGroups_filled g member) ?_ .space
    rw [List.forall₂_map_left_iff, List.forall₂_map_right_iff]
    refine List.forall₂_same.mpr fun l inside => faithful l ?_
    rcases List.mem_cons.mp member with rfl | other
    · rcases List.mem_cons.mp inside with rfl | item
      · exact List.mem_cons_self
      · exact List.mem_cons_of_mem _ (List.mem_append_left _ item)
    · exact List.mem_cons_of_mem _
        (List.mem_append_right _ (List.mem_flatten_of_mem other inside))
  have whole : w.result.toCss .nested = .ok (", ".intercalate (w.allGroups.map groupText)) := by
    refine Value.toCss_collected (by simp [values]) ?_ .comma
    rw [values_eq, List.map_map, List.forall₂_map_left_iff, List.forall₂_map_right_iff]
    exact List.forall₂_same.mpr group
  rw [whole, text, ← toList_groupTexts w.first w.items w.groups w.filled, String.ofList_toList]
  rfl

theorem isFaithful_value (faithful : w.IsFaithful) : w.value.IsFaithful :=
  ⟨w.result, w.isConstant, w.toCss_result faithful⟩

end WrittenList

end Stylesheet
