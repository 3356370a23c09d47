import Mathlib.Data.List.Nodup
import Stylesheet.Proofs.Bindings
import Stylesheet.Proofs.Evaluation.Effects

/-! How the parameters of a mixin or function get their values. Each one is filled by the argument at
its position, or else by the argument of its name if no parameter before has that name, or else by
its default, which is evaluated where the parameters before have their values. Keywords are taken out
of a list one after the other; each of them fills exactly one parameter all the same. -/

namespace Stylesheet.Evaluation

/-- Do something, and change the state if it fails. -/
def undoing (restore : State → State) (action : Evaluating α) : Evaluating α := fun context state =>
  match action context state with
  | .ok a state => .ok a state
  | .error error state => .error error (restore state)

/-- Open a scope in which the parameters of a callable have their values. -/
def bindArguments (run : Runner) (callable : Callable) (positional : List Value)
    (keywords : List (String × Value)) (line : Nat) (span : Span) : Evaluating ScopeId :=
  let fail := fun message => callError message line span
  match misfit? callable positional.length (keywords.map (·.1)) with
  | some message => throw (fail message)
  | none => do
    let scope ← pushScope callable.scope
    undoing (popScope scope)
      (bindParams run callable scope fail callable.params positional keywords)
    return scope

section Arguments

variable {context : Context} {run : Runner} {callable : Callable} {positional : List Value}
  {keywords : List (String × Value)} {line : Nat} {span : Span} {state : State}

theorem bindArguments_of_misfit {message : String}
    (misfit : misfit? callable positional.length (keywords.map (·.1)) = some message) :
    bindArguments run callable positional keywords line span context state =
      .error (callError message line span) state := by
  unfold bindArguments
  rw [misfit]
  rfl

theorem bindArguments_of_fit
    (fit : misfit? callable positional.length (keywords.map (·.1)) = none) :
    bindArguments run callable positional keywords line span context state =
      match bindParams run callable state.env.scopes.size (fun message => callError message line span)
          callable.params positional keywords context (state.scoped callable.scope) with
      | .ok _ t => .ok state.env.scopes.size t
      | .error error t => .error error (popScope state.env.scopes.size t) := by
  unfold bindArguments
  rw [fit]
  change (undoing _ _ >>= _) context (state.scoped callable.scope) = _
  simp only [Bind.bind, ReaderT.bind, EStateM.bind, undoing]
  cases bindParams run callable state.env.scopes.size (fun message => callError message line span)
    callable.params positional keywords context (state.scoped callable.scope) <;> rfl

theorem bindArguments_ok_iff {scope : ScopeId} {t : State} :
    bindArguments run callable positional keywords line span context state = .ok scope t ↔
      misfit? callable positional.length (keywords.map (·.1)) = none ∧
        scope = state.env.scopes.size ∧
        bindParams run callable state.env.scopes.size (fun message => callError message line span)
          callable.params positional keywords context (state.scoped callable.scope) = .ok () t := by
  cases fit : misfit? callable positional.length (keywords.map (·.1)) with
  | some message =>
    rw [bindArguments_of_misfit fit]
    exact ⟨nofun, nofun⟩
  | none =>
    rw [bindArguments_of_fit fit]
    cases bindParams run callable state.env.scopes.size
        (fun message => callError message line span) callable.params positional keywords context
        (state.scoped callable.scope) with
    | ok _ u =>
      constructor
      · rintro ⟨⟩
        exact ⟨rfl, rfl, rfl⟩
      · rintro ⟨-, rfl, ⟨⟩⟩
        rfl
    | error error u => exact ⟨nofun, nofun⟩

/-- A failure leaves nothing of the new scope, if it comes to be opened at all. -/
theorem bindArguments_error {error : Diagnostic} {t : State}
    (failed : bindArguments run callable positional keywords line span context state =
      .error error t) :
    t = state ∨ ∃ u, t = popScope state.env.scopes.size u ∧
      bindParams run callable state.env.scopes.size (fun message => callError message line span)
        callable.params positional keywords context (state.scoped callable.scope) =
        .error error u := by
  cases fit : misfit? callable positional.length (keywords.map (·.1)) with
  | some message =>
    rw [bindArguments_of_misfit fit] at failed
    cases failed
    exact .inl rfl
  | none =>
    rw [bindArguments_of_fit fit] at failed
    cases bound : bindParams run callable state.env.scopes.size
        (fun message => callError message line span) callable.params positional keywords context
        (state.scoped callable.scope) with
    | ok _ u =>
      rw [bound] at failed
      cases failed
    | error _ u =>
      rw [bound] at failed
      cases failed
      exact .inr ⟨u, rfl, rfl⟩

/-- What is done with arguments is done in the scope that has them. -/
theorem withArguments_eq (action : ScopeId → Evaluating α) :
    withArguments run callable positional keywords line span action = (do
      let scope ← bindArguments run callable positional keywords line span
      ensuring (popScope scope) (action scope)) := by
  funext context state
  simp only [Bind.bind, ReaderT.bind, EStateM.bind]
  unfold withArguments
  dsimp only
  cases found : misfit? callable positional.length (keywords.map (·.1)) with
  | some message =>
    rw [bindArguments_of_misfit found]
    rfl
  | none =>
    rw [bindArguments_of_fit found]
    change ensuring _ (_ >>= _) context (state.scoped callable.scope) = _
    simp only [ensuring, Bind.bind, ReaderT.bind, EStateM.bind]
    cases bindParams run callable state.env.scopes.size (fun message => callError message line span)
      callable.params positional keywords context (state.scoped callable.scope) <;> rfl

end Arguments

open List in
/-- Taking an item out and putting it in front changes the order only. -/
theorem swapRemove_perm {items : List α} {index : Nat} {item : α}
    (here : items[index]? = some item) : item :: swapRemove items index ~ items := by
  obtain ⟨inBounds, rfl⟩ := List.getElem?_eq_some_iff.mp here
  obtain rfl | ⟨front, last, isConcat⟩ := items.eq_nil_or_concat
  · cases inBounds
  rw [List.concat_eq_append] at isConcat
  subst isConcat
  have isLast : swapRemove (front ++ [last]) index =
      ((front ++ [last]).set index last).dropLast := by
    unfold swapRemove
    rw [List.getLast?_concat]
  rw [isLast]
  by_cases early : index < front.length
  · rw [List.set_append_left _ _ early, List.dropLast_concat, List.getElem_append_left early,
      List.set_eq_take_cons_drop _ early]
    calc front[index] :: (front.take index ++ last :: front.drop (index + 1))
      _ ~ front[index] :: last :: (front.take index ++ front.drop (index + 1)) :=
        perm_middle.cons _
      _ ~ last :: front[index] :: (front.take index ++ front.drop (index + 1)) := .swap _ _ _
      _ ~ last :: (front.take index ++ front[index] :: front.drop (index + 1)) :=
        perm_middle.symm.cons _
      _ = last :: front := by simp
      _ ~ front ++ [last] := (perm_append_singleton last front).symm
  · have isEnd : index = front.length := by
      simp only [List.length_append, List.length_singleton] at inBounds
      omega
    subst isEnd
    simpa using (perm_append_singleton last front).symm

section Keywords

variable {name : String} {keywords others : List (String × Value)}

/-- Whether a keyword has a name. -/
def isNamed (name : String) (keyword : String × Value) : Bool :=
  Text.normalizeName keyword.1 == Text.normalizeName name

theorem takeKeyword_eq (name : String) (keywords : List (String × Value)) :
    takeKeyword name keywords =
      match keywords.findIdx? (isNamed name) with
      | none => none
      | some index =>
        keywords[index]?.map fun keyword => (keyword.2, swapRemove keywords index) :=
  rfl

theorem takeKeyword_of_absent (absent : keywords.find? (isNamed name) = none) :
    takeKeyword name keywords = none := by
  have none : keywords.findIdx? (isNamed name) = none := by
    simpa [List.findIdx?_eq_none_iff] using List.find?_eq_none.mp absent
  rw [takeKeyword_eq, none]

/-- The first keyword of a name is taken out, and the others are left in another order. -/
theorem takeKeyword_of_present {keyword : String × Value}
    (present : keywords.find? (isNamed name) = some keyword) :
    ∃ rest, takeKeyword name keywords = some (keyword.2, rest) ∧
      (keyword :: rest).Perm keywords := by
  rw [List.find?_eq_bind_findIdx?_getElem?] at present
  obtain ⟨index, found, here⟩ := Option.bind_eq_some_iff.mp present
  refine ⟨swapRemove keywords index, ?_, swapRemove_perm here⟩
  rw [takeKeyword_eq, found]
  simp only [here, Option.map_some]

/-- Among keywords of different names, the order does not matter for which one is found. -/
theorem find?_isNamed_of_perm (distinct : (keywords.map fun keyword =>
      Text.normalizeName keyword.1).Nodup) (order : keywords.Perm others) :
    keywords.find? (isNamed name) = others.find? (isNamed name) := by
  cases found : keywords.find? (isNamed name) with
  | none =>
    refine (List.find?_eq_none.mpr fun keyword member => ?_).symm
    exact List.find?_eq_none.mp found keyword (order.mem_iff.mpr member)
  | some keyword =>
    obtain ⟨other, isOther⟩ := Option.isSome_iff_exists.mp <|
      List.find?_isSome.mpr
        ⟨keyword, order.mem_iff.mp (List.mem_of_find?_eq_some found), List.find?_some found⟩
    have own := List.find?_some found
    have others := List.find?_some isOther
    rw [isNamed, beq_iff_eq] at own others
    have same := List.inj_on_of_nodup_map distinct (List.mem_of_find?_eq_some found)
      (order.mem_iff.mpr (List.mem_of_find?_eq_some isOther)) (own.trans others.symm)
    rw [isOther, same]

end Keywords

/-- The parameters of a call with the values that are passed for them. -/
structure Supply where
  params : List Param
  positional : List Value
  keywords : List (String × Value)

/-- What a parameter gets its value from. -/
inductive Filling where
  | position (index : Nat)
  | keyword (index : Nat)
  | default (e : Expr)

namespace Supply

/-- The first parameter of a name. -/
def first? (supply : Supply) (name : String) : Option Nat :=
  supply.params.findIdx? fun param => Text.normalizeName param.name == Text.normalizeName name

/-- Whether a keyword is for a parameter. -/
def isFor (supply : Supply) (index : Nat) (keyword : String × Value) : Bool :=
  supply.first? keyword.1 == some index

/-- What fills a parameter: the argument at its position, or else the one whose first parameter it
is, or else its default. -/
def filling? (supply : Supply) (index : Nat) : Option Filling :=
  if index < supply.positional.length then some (.position index)
  else match supply.keywords.findIdx? (supply.isFor index) with
    | some keyword => some (.keyword keyword)
    | none => (supply.params[index]?.bind (·.defaultValue)).map .default

/-- No argument is too many, and each one by name has a parameter that none by position fills. -/
structure Fits (supply : Supply) : Prop where
  enough : supply.positional.length ≤ supply.params.length
  named : ∀ keyword ∈ supply.keywords, ∃ index, supply.first? keyword.1 = some index ∧
    supply.positional.length ≤ index

/-- No two arguments by name have the same one. -/
def IsDistinct (supply : Supply) : Prop :=
  (supply.keywords.map fun keyword => Text.normalizeName keyword.1).Nodup

/-- The value that is passed for a parameter, if it is not its default that fills it. -/
def value? (supply : Supply) : Filling → Option Value
  | .position index => supply.positional[index]?
  | .keyword index => supply.keywords[index]?.map (·.2)
  | .default _ => none

/-- The value that fills a parameter. A default is evaluated in the scope of the parameters. -/
inductive Gives (run : Runner) (context : Context) (supply : Supply) (scope : ScopeId) :
    Filling → State → Value → State → Prop where
  | passed {filling value s} (isPassed : supply.value? filling = some value) :
      Gives run context supply scope filling s value s
  | default {e value s t} (ok : run.expr e scope context s = .ok value t) :
      Gives run context supply scope (.default e) s value t

/-- The parameters from an index on get their values, each once those before have theirs. -/
inductive Fills (run : Runner) (context : Context) (supply : Supply) (scope : ScopeId) :
    Nat → List Param → State → List Filling → List Value → State → Prop where
  | nil {index s} : Fills run context supply scope index [] s [] [] s
  | cons {index param params s filling value t fillings values u}
      (filled : supply.filling? index = some filling)
      (gives : Gives run context supply scope filling s value t)
      (rest : Fills run context supply scope (index + 1) params
        (t.declaring scope param.name value) fillings values u) :
      Fills run context supply scope index (param :: params) s (filling :: fillings)
        (value :: values) u

/-- The keywords that are not taken when the turn of a parameter comes. -/
def pending (supply : Supply) (index : Nat) : List (String × Value) :=
  supply.keywords.filter fun keyword => (supply.first? keyword.1).any (index ≤ ·)

variable {run : Runner} {context : Context} {supply : Supply} {scope : ScopeId} {index : Nat}
  {param : Param} {params : List Param} {s t : State}

theorem misfit?_eq_none_iff {callable : Callable} {positional : List Value}
    {keywords : List (String × Value)} :
    misfit? callable positional.length (keywords.map (·.1)) = none ↔
      Fits ⟨callable.params, positional, keywords⟩ := by
  unfold misfit?
  dsimp only
  split
  · rename_i many
    exact ⟨nofun, fun fits => absurd fits.enough (Nat.not_le_of_lt many)⟩
  · rename_i few
    rw [List.findSome?_eq_none_iff]
    refine ⟨fun named => ⟨Nat.le_of_not_lt few, fun keyword member => ?_⟩, fun fits name member => ?_⟩
    · have isNamed := named keyword.1 (List.mem_map_of_mem member)
      split at isNamed
      · cases isNamed
      · rename_i index found
        exact ⟨index, found, by simpa using isNamed⟩
    · obtain ⟨keyword, isKeyword, rfl⟩ := List.mem_map.mp member
      obtain ⟨index, isFirst, late⟩ := fits.named keyword isKeyword
      split
      · rename_i missing
        cases missing.symm.trans isFirst
      · rename_i found isFound
        cases isFound.symm.trans isFirst
        exact if_neg (Nat.not_lt_of_le late)

theorem exists_fills_of_value {filling : Filling} {value : Value}
    (filled : supply.filling? index = some filling) (isPassed : supply.value? filling = some value) :
    (∃ fillings values, Fills run context supply scope index (param :: params) s fillings values t) ↔
      ∃ fillings values, Fills run context supply scope (index + 1) params
        (s.declaring scope param.name value) fillings values t := by
  constructor
  · rintro ⟨_, _, fills⟩
    cases fills with
    | cons isFilled gives rest =>
      rw [filled] at isFilled
      cases isFilled
      cases gives with
      | passed isGiven =>
        rw [isPassed] at isGiven
        cases isGiven
        exact ⟨_, _, rest⟩
      | default => cases isPassed
  · rintro ⟨_, _, rest⟩
    exact ⟨_, _, .cons filled (.passed isPassed) rest⟩

theorem exists_fills_of_default {e : Expr} (filled : supply.filling? index = some (.default e)) :
    (∃ fillings values, Fills run context supply scope index (param :: params) s fillings values t) ↔
      ∃ value u, run.expr e scope context s = .ok value u ∧
        ∃ fillings values, Fills run context supply scope (index + 1) params
          (u.declaring scope param.name value) fillings values t := by
  constructor
  · rintro ⟨_, _, fills⟩
    cases fills with
    | cons isFilled gives rest =>
      rw [filled] at isFilled
      cases isFilled
      cases gives with
      | passed isGiven => cases isGiven
      | default ok => exact ⟨_, _, ok, _, _, rest⟩
  · rintro ⟨_, _, ok, _, _, rest⟩
    exact ⟨_, _, .cons filled (.default ok) rest⟩

theorem not_exists_fills (unfilled : supply.filling? index = none) :
    ¬ ∃ fillings values,
      Fills run context supply scope index (param :: params) s fillings values t := by
  rintro ⟨_, _, fills⟩
  cases fills with
  | cons isFilled =>
    rw [unfilled] at isFilled
    cases isFilled

theorem first?_le {name : String} {found : Nat} (isFirst : supply.first? name = some found)
    (here : supply.params[index]? = some param)
    (same : Text.normalizeName name = Text.normalizeName param.name) : found ≤ index := by
  obtain ⟨alive, rfl⟩ := List.getElem?_eq_some_iff.mp here
  obtain ⟨_, _, before⟩ := List.findIdx?_eq_some_iff_getElem.mp isFirst
  refine Nat.le_of_not_lt fun early => before index early ?_
  rw [beq_iff_eq]
  exact same.symm

theorem same_of_first? {name : String} (isFirst : supply.first? name = some index)
    (here : supply.params[index]? = some param) :
    Text.normalizeName name = Text.normalizeName param.name := by
  obtain ⟨alive, rfl⟩ := List.getElem?_eq_some_iff.mp here
  obtain ⟨_, same, _⟩ := List.findIdx?_eq_some_iff_getElem.mp isFirst
  exact (beq_iff_eq.mp same).symm

section Pending

variable (fits : supply.Fits) (here : supply.params[index]? = some param)
include fits here

/-- Among the keywords that are not taken, those of the name of a parameter are for it. -/
theorem find?_pending :
    (supply.pending index).find? (isNamed param.name) =
      supply.keywords.find? (supply.isFor index) := by
  unfold pending
  rw [← List.head?_filter, ← List.head?_filter, List.filter_filter]
  refine congrArg List.head? (List.filter_congr fun keyword member => ?_)
  obtain ⟨first, isFirst, -⟩ := fits.named keyword member
  rw [isFor, isFirst, Bool.eq_iff_iff]
  simp only [isNamed, Option.any_some, Bool.and_eq_true, decide_eq_true_eq, beq_iff_eq,
    Option.some.injEq]
  constructor
  · rintro ⟨same, late⟩
    exact Nat.le_antisymm (first?_le isFirst here same) late
  · rintro rfl
    exact ⟨same_of_first? isFirst here, Nat.le_refl _⟩

theorem filter_pending :
    (supply.pending index).filter (!isNamed param.name ·) = supply.pending (index + 1) := by
  unfold pending
  rw [List.filter_filter]
  refine List.filter_congr fun keyword member => ?_
  obtain ⟨first, isFirst, -⟩ := fits.named keyword member
  rw [isFirst, Bool.eq_iff_iff]
  simp only [isNamed, Option.any_some, Bool.and_eq_true, Bool.not_eq_true', beq_eq_false_iff_ne,
    ne_eq, decide_eq_true_eq]
  constructor
  · rintro ⟨differs, late⟩
    refine Nat.lt_of_le_of_ne late fun same => differs ?_
    subst same
    exact same_of_first? isFirst here
  · intro later
    refine ⟨fun same => ?_, Nat.le_of_succ_le later⟩
    exact Nat.not_lt_of_le (first?_le isFirst here same) later

end Pending

theorem pending_distinct (distinct : supply.IsDistinct) (index : Nat) :
    ((supply.pending index).map fun keyword => Text.normalizeName keyword.1).Nodup :=
  distinct.sublist (List.filter_sublist.map _)

/-- The keywords from which those for a parameter are taken out are left for the next one, in
whatever order. -/
theorem perm_pending_succ (fits : supply.Fits) (distinct : supply.IsDistinct)
    (here : supply.params[index]? = some param) {keyword : String × Value}
    {rest : List (String × Value)} (named : isNamed param.name keyword = true)
    (order : (keyword :: rest).Perm (supply.pending index)) :
    rest.Perm (supply.pending (index + 1)) := by
  have others : ∀ other ∈ rest, isNamed param.name other = false := by
    have names := (order.map fun keyword => Text.normalizeName keyword.1).nodup_iff.mpr
      (pending_distinct distinct index)
    intro other member
    rw [isNamed, beq_iff_eq] at named
    rw [isNamed, beq_eq_false_iff_ne, ← named]
    exact fun same => (List.nodup_cons.mp names).1 (List.mem_map.mpr ⟨other, member, same⟩)
  have kept := order.filter (!isNamed param.name ·)
  rw [filter_pending fits here, List.filter_cons_of_neg (by simp [named]),
    List.filter_eq_self.mpr fun other member => by simp [others other member]] at kept
  exact kept

/-- A parameter that no keyword is for takes none. -/
theorem pending_succ (fits : supply.Fits) (here : supply.params[index]? = some param)
    (notNamed : supply.keywords.find? (supply.isFor index) = none) :
    supply.pending (index + 1) = supply.pending index := by
  rw [← find?_pending fits here] at notNamed
  rw [← filter_pending fits here]
  refine List.filter_eq_self.mpr fun keyword member => ?_
  simpa using List.find?_eq_none.mp notNamed keyword member

/-- While there are arguments by position, no keyword is taken. -/
theorem pending_eq (fits : supply.Fits) (early : index ≤ supply.positional.length) :
    supply.pending index = supply.keywords := by
  refine List.filter_eq_self.mpr fun keyword member => ?_
  obtain ⟨first, isFirst, late⟩ := fits.named keyword member
  rw [isFirst]
  simpa using Nat.le_trans early late

/-- Parameters get their values exactly if something fills each of them, one after the other. The
keywords that are left can have any order. -/
theorem bindParams_ok_iff (fits : supply.Fits) (distinct : supply.IsDistinct) {callable : Callable}
    {fail : String → Diagnostic} {before : List Param} (whole : before ++ params = supply.params)
    {keywords : List (String × Value)} (order : keywords.Perm (supply.pending before.length)) :
    bindParams run callable scope fail params (supply.positional.drop before.length) keywords context
        s = .ok () t ↔
      ∃ fillings values,
        Fills run context supply scope before.length params s fillings values t := by
  induction params generalizing before s keywords with
  | nil =>
    constructor
    · intro ok
      cases ok
      exact ⟨_, _, .nil⟩
    · rintro ⟨_, _, fills⟩
      cases fills
      rfl
  | cons param params ih =>
    have here : supply.params[before.length]? = some param := by simp [← whole]
    have next (u : State) {rest : List (String × Value)}
        (order : rest.Perm (supply.pending (before.length + 1))) :=
      @ih u (before ++ [param]) (by simpa using whole) rest (by simpa using order)
    simp only [List.length_append, List.length_singleton] at next
    by_cases early : before.length < supply.positional.length
    · have filled : supply.filling? before.length = some (.position before.length) := if_pos early
      have isPassed : supply.value? (.position before.length) =
        some supply.positional[before.length] := List.getElem?_eq_getElem early
      rw [pending_eq fits (Nat.le_of_lt early), ← pending_eq fits early] at order
      rw [List.drop_eq_getElem_cons early, exists_fills_of_value filled isPassed]
      exact next _ order
    · have late := Nat.le_of_not_lt early
      rw [List.drop_eq_nil_of_le (Nat.le_succ_of_le late)] at next
      rw [List.drop_eq_nil_of_le late]
      have found := @List.find?_eq_bind_findIdx?_getElem? _ supply.keywords
        (supply.isFor before.length)
      have names := (order.map fun keyword => Text.normalizeName keyword.1).nodup_iff.mpr
        (pending_distinct distinct before.length)
      have sees := (find?_isNamed_of_perm names order).trans (find?_pending fits here)
      unfold bindParams
      cases named : supply.keywords.findIdx? (supply.isFor before.length) with
      | some keyword =>
        have filled : supply.filling? before.length = some (.keyword keyword) := by
          simp [filling?, early, named]
        have alive := (List.findIdx?_eq_some_iff_getElem.mp named).1
        have isPassed : supply.value? (.keyword keyword) = some supply.keywords[keyword].2 := by
          simp [value?, List.getElem?_eq_getElem alive]
        rw [named, Option.bind_some, List.getElem?_eq_getElem alive] at found
        rw [found] at sees
        obtain ⟨rest, taken, same⟩ := takeKeyword_of_present sees
        rw [taken, exists_fills_of_value filled isPassed]
        have own := List.find?_some sees
        exact next _ (perm_pending_succ fits distinct here own (same.trans order))
      | none =>
        rw [named, Option.bind_none] at found
        rw [← pending_succ fits here found] at order
        rw [takeKeyword_of_absent (sees.trans found)]
        have filled : supply.filling? before.length = param.defaultValue.map .default := by
          simp [filling?, early, named, here]
        cases isDefault : param.defaultValue with
        | some e =>
          rw [isDefault] at filled
          rw [exists_fills_of_default filled]
          constructor
          · intro ok
            obtain ⟨value, u, isValue, rest⟩ := bind_ok ok
            exact ⟨value, u, isValue, (next _ order).mp rest⟩
          · rintro ⟨value, u, isValue, rest⟩
            simp only [Bind.bind, ReaderT.bind, EStateM.bind, isValue]
            exact (next _ order).mpr rest
        | none =>
          rw [isDefault] at filled
          refine ⟨fun ok => ?_, fun fills => absurd fills (not_exists_fills filled)⟩
          cases ok

section Fillings

variable {k : Nat} {fillings : List Filling} {values : List Value}

theorem filling?_eq_position_iff :
    supply.filling? index = some (.position k) ↔ index = k ∧ k < supply.positional.length := by
  unfold filling?
  split
  · rename_i early
    rw [Option.some.injEq, Filling.position.injEq]
    exact ⟨fun same => ⟨same, same ▸ early⟩, And.left⟩
  · rename_i late
    constructor
    · intro filled
      split at filled
      · cases filled
      · obtain ⟨_, _, same⟩ := Option.map_eq_some_iff.mp filled
        cases same
    · rintro ⟨rfl, early⟩
      exact absurd early late

theorem filling?_eq_keyword_iff :
    supply.filling? index = some (.keyword k) ↔
      supply.positional.length ≤ index ∧ supply.keywords.findIdx? (supply.isFor index) = some k := by
  unfold filling?
  split
  · rename_i early
    exact ⟨nofun, fun late => absurd early (Nat.not_lt_of_le late.1)⟩
  · rename_i late
    rw [and_iff_right (Nat.le_of_not_lt late)]
    split
    · rename_i found
      rw [found, Option.some.injEq, Option.some.injEq, Filling.keyword.injEq]
    · rename_i found
      rw [found]
      refine ⟨fun filled => ?_, nofun⟩
      obtain ⟨_, _, same⟩ := Option.map_eq_some_iff.mp filled
      cases same

/-- A keyword fills the first parameter of its name and no other one. -/
theorem filling?_eq_keyword_iff_first (fits : supply.Fits) (distinct : supply.IsDistinct)
    {keyword : String × Value} (isPassed : supply.keywords[k]? = some keyword) {first : Nat}
    (isFirst : supply.first? keyword.1 = some first) :
    supply.filling? index = some (.keyword k) ↔ index = first := by
  obtain ⟨alive, rfl⟩ := List.getElem?_eq_some_iff.mp isPassed
  rw [filling?_eq_keyword_iff, List.findIdx?_eq_some_iff_getElem]
  constructor
  · rintro ⟨-, _, own, -⟩
    rw [isFor, isFirst, beq_iff_eq, Option.some.injEq] at own
    exact own.symm
  · rintro rfl
    obtain ⟨other, sameFirst, late⟩ := fits.named _ (List.getElem_mem alive)
    rw [isFirst] at sameFirst
    cases sameFirst
    refine ⟨late, alive, by rw [isFor, isFirst, beq_self_eq_true], fun earlier before own => ?_⟩
    rw [isFor, beq_iff_eq] at own
    -- both keywords would have the name of the parameter
    have inBounds : index < supply.params.length :=
      (List.findIdx?_eq_some_iff_getElem.mp isFirst).1
    have here := List.getElem?_eq_getElem inBounds
    have same := (same_of_first? own here).trans (same_of_first? isFirst here).symm
    refine List.pairwise_iff_getElem.mp distinct earlier k ?_ ?_ before ?_
    · simpa using Nat.lt_trans before alive
    · simpa using alive
    · simpa using same

theorem Fills.filling (fills : Fills run context supply scope index params s fillings values t) :
    values.length = params.length ∧ fillings.length = params.length ∧
      ∀ k < params.length, fillings[k]? = supply.filling? (index + k) := by
  induction fills with
  | nil => exact ⟨rfl, rfl, nofun⟩
  | cons filled gives rest ih =>
    obtain ⟨values, fillings, later⟩ := ih
    refine ⟨by simp [values], by simp [fillings], fun k inBounds => ?_⟩
    cases k with
    | zero => exact filled.symm
    | succ k =>
      rw [List.getElem?_cons_succ, later k (Nat.lt_of_succ_lt_succ inBounds)]
      congr 1
      omega

/-- What is passed for a parameter is its value. -/
theorem Fills.value (fills : Fills run context supply scope index params s fillings values t)
    {filling : Filling} {value : Value} (found : fillings[k]? = some filling)
    (isPassed : supply.value? filling = some value) : values[k]? = some value := by
  induction fills generalizing k with
  | nil => cases found
  | cons filled gives rest ih =>
    cases k with
    | zero =>
      cases found
      cases gives with
      | passed isGiven => exact isGiven.symm.trans isPassed
      | default => cases isPassed
    | succ k => exact ih found

end Fillings

/-- The variables of a scope once parameters have their values; a later parameter of the same name
has the last word. -/
def boundValues (old : Bindings String Value) (params : List Param) (values : List Value) :
    Bindings String Value :=
  (params.zip values).foldl (fun bindings entry =>
    bindings.insert (Text.normalizeName entry.1.name) entry.2) old

theorem find?_boundValues_of_other {name : String} {values : List Value}
    {old : Bindings String Value}
    (others : ∀ param ∈ params, Text.normalizeName param.name ≠ Text.normalizeName name) :
    (boundValues old params values).find? (Text.normalizeName name) =
      old.find? (Text.normalizeName name) := by
  induction params generalizing old values with
  | nil => rfl
  | cons param params ih =>
    cases values with
    | nil => rfl
    | cons value values =>
      refine (ih fun other member => others other (List.mem_cons_of_mem param member)).trans ?_
      exact Bindings.find?_insert_of_ne (others param List.mem_cons_self).symm

theorem find?_boundValues_of_last {k : Nat} {value : Value} {values : List Value}
    {old : Bindings String Value} (here : params[k]? = some param)
    (isValue : values[k]? = some value)
    (last : ∀ later other, k < later → params[later]? = some other →
      Text.normalizeName other.name ≠ Text.normalizeName param.name) :
    (boundValues old params values).find? (Text.normalizeName param.name) = some value := by
  induction params generalizing old values k with
  | nil => cases here
  | cons first params ih =>
    cases values with
    | nil => cases isValue
    | cons own values =>
      cases k with
      | zero =>
        cases here
        cases isValue
        refine Eq.trans (@find?_boundValues_of_other params param.name values _ fun other member => ?_)
          Bindings.find?_insert_self
        obtain ⟨later, isLater⟩ := List.mem_iff_getElem?.mp member
        exact last (later + 1) other (Nat.succ_pos later) isLater
      | succ k =>
        exact ih here isValue fun later other after isOther =>
          last (later + 1) other (Nat.succ_lt_succ after) isOther

/-- Whatever defaults do, the scope holds the values of the parameters and nothing else. -/
theorem Fills.holds {depth : Nat} {held : Scope} {fillings : List Filling} {values : List Value}
    (fills : Fills (runner depth) context supply scope index params s fillings values t)
    (lexical : s.env.IsLexical scope) (known : s.env.AllKnown BodyFits)
    (found : s.env.scopes[scope]? = some held) (fresh : held.captured = false) :
    t.env.scopes[scope]? = some { held with values := boundValues held.values params values } := by
  induction fills generalizing held with
  | nil => exact found
  | @cons index param params s filling value u fillings values t filled gives rest ih =>
    have spares : Environment.Framed scope s.env u.env ∧ s.env.SparesLocals u.env := by
      cases gives with
      | passed => exact ⟨.refl lexical, .refl _⟩
      | default ok => exact (expr_sparesLocals context depth _ scope).ok ok lexical known
    obtain ⟨framed, spares⟩ := spares
    have declared : (u.declaring scope param.name value).env.scopes[scope]? =
        some { held with values := held.values.insert (Text.normalizeName param.name) value } := by
      simp [State.declaring, Environment.declare, Array.getElem?_modify,
        spares.locals scope held found fresh]
    have stillKnown := known.of_outlines spares.outlines
    exact ih (Environment.Framed.declare framed.lexical param.name value).lexical
      (stillKnown.declare scope param.name value) declared fresh

/-- All parameters have their values in a new scope inside of another one, and nothing else is there.
Each argument fills one parameter: one by position that of its index, and one by name the first of
that name. -/
structure Binds (supply : Supply) (home : ScopeId) (s t : State) (fillings : List Filling)
    (values : List Value) : Prop where
  outlines : t.env.outlines = s.env.outlines.push (Environment.freshScope (some home))
  all : values.length = supply.params.length ∧ fillings.length = supply.params.length
  position : ∀ (k : Nat) (value : Value), supply.positional[k]? = some value →
    values[k]? = some value ∧ ∀ index : Nat, fillings[index]? = some (.position k) ↔ index = k
  keyword : ∀ (k : Nat) (keyword : String × Value), supply.keywords[k]? = some keyword → ∃ first,
    supply.first? keyword.1 = some first ∧ values[first]? = some keyword.2 ∧
    ∀ index : Nat, fillings[index]? = some (.keyword k) ↔ index = first
  held : t.env.scopes[s.env.scopes.size]? = some
    { Environment.freshScope (some home) with values := boundValues [] supply.params values }
  named : ∀ (index : Nat) (param : Param) (value : Value), supply.params[index]? = some param →
    values[index]? = some value →
    (∀ (later : Nat) (other : Param), index < later → supply.params[later]? = some other →
      Text.normalizeName other.name ≠ Text.normalizeName param.name) →
    t.env.valueOf? s.env.scopes.size param.name = some value

theorem Fills.binds {depth : Nat} {home : ScopeId} {fillings : List Filling} {values : List Value}
    (fits : supply.Fits) (distinct : supply.IsDistinct)
    (lexical : s.env.IsLexical home) (known : s.env.AllKnown BodyFits)
    (outlines : t.env.outlines = (s.scoped home).env.outlines)
    (fills : Fills (runner depth) context supply s.env.scopes.size 0 supply.params (s.scoped home)
      fillings values t) : supply.Binds home s t fillings values := by
  obtain ⟨allValues, allFillings, filled⟩ := fills.filling
  have fills_iff (index : Nat) (filling : Filling)
      (inBounds : supply.filling? index = some filling → index < supply.params.length) :
      fillings[index]? = some filling ↔ supply.filling? index = some filling := by
    by_cases inside : index < supply.params.length
    · rw [filled index inside, Nat.zero_add]
    · rw [List.getElem?_eq_none (allFillings ▸ Nat.le_of_not_lt inside)]
      exact ⟨nofun, fun isFilled => absurd (inBounds isFilled) inside⟩
  have opened : (s.scoped home).env.scopes[s.env.scopes.size]? =
      some (Environment.freshScope (some home)) := by simp [State.scoped, Environment.push]
  have bound := fills.holds lexical.push (known.push home) opened rfl
  refine ⟨outlines.trans (Environment.outlines_push _ _), ⟨allValues, allFillings⟩, ?_, ?_, bound, ?_⟩
  · intro k value isPassed
    have early := (List.getElem?_eq_some_iff.mp isPassed).1
    have fills_k (index : Nat) : fillings[index]? = some (.position k) ↔ index = k := by
      rw [fills_iff, filling?_eq_position_iff, and_iff_left early]
      intro isFilled
      obtain ⟨rfl, _⟩ := filling?_eq_position_iff.mp isFilled
      exact Nat.lt_of_lt_of_le early fits.enough
    exact ⟨fills.value ((fills_k k).mpr rfl) isPassed, fills_k⟩
  · intro k keyword isPassed
    obtain ⟨first, isFirst, late⟩ := fits.named keyword (List.mem_of_getElem? isPassed)
    have fills_k (index : Nat) : fillings[index]? = some (.keyword k) ↔ index = first := by
      rw [fills_iff, filling?_eq_keyword_iff_first fits distinct isPassed isFirst]
      intro isFilled
      obtain rfl := (filling?_eq_keyword_iff_first fits distinct isPassed isFirst).mp isFilled
      exact (List.findIdx?_eq_some_iff_getElem.mp isFirst).1
    refine ⟨first, isFirst, fills.value ((fills_k first).mpr rfl) ?_, fills_k⟩
    simp [value?, isPassed]
  · intro index param value here isValue last
    unfold Environment.valueOf?
    rw [Environment.lookup_of_within bound rfl lexical.alive]
    rw [find?_boundValues_of_last here isValue last, Option.some_or]

end Supply

/-- Wherever the evaluation of a checked stylesheet is, a call of a mixin or function binds its
arguments exactly if there are not too many of them, each one by name has a parameter that none by
position fills, and each parameter that none fills has a default that can be evaluated where the
parameters before have their values. Then each parameter has the value that fills it, and each
argument fills one parameter. Otherwise the scopes are as before, apart from what the defaults
assigned. -/
theorem arguments_bind {context : Context} {source : String} {entry : Option SourceId}
    {root : Statement} {p : Point} (parsed : Statement.AllParsed root.children)
    (accepted : Nesting.check root = .ok ()) (reached : Reached context source entry root p)
    (depth : Nat) {callable : Callable} {positional : List Value} {keywords : List (String × Value)}
    (alive : callable.scope < p.state.env.scopes.size)
    (distinct : Supply.IsDistinct ⟨callable.params, positional, keywords⟩) (line : Nat)
    (span : Span) :
    let supply : Supply := ⟨callable.params, positional, keywords⟩
    let bind := bindArguments (runner depth) callable positional keywords line span
    let Fills := Supply.Fills (runner depth) context supply p.state.env.scopes.size 0 callable.params
      (p.state.scoped callable.scope)
    (∀ (action : ScopeId → Evaluating Outcome),
      withArguments (runner depth) callable positional keywords line span action = (do
        let scope ← bind
        ensuring (popScope scope) (action scope))) ∧
    ((∃ scope t, bind context p.state = .ok scope t) ↔
      supply.Fits ∧ ∃ fillings values t, Fills fillings values t) ∧
    (∀ scope t, bind context p.state = .ok scope t →
      scope = p.state.env.scopes.size ∧ ∃ fillings values, Fills fillings values t ∧
        supply.Binds callable.scope p.state t fillings values) ∧
    ∀ error t, bind context p.state = .error error t → t.env.outlines = p.state.env.outlines := by
  intro supply bind Fills
  have start := reached.isLexical
  have lexical : p.state.env.IsLexical callable.scope := ⟨start.arena, start.home, alive⟩
  have known : p.state.env.AllKnown BodyFits := by
    obtain ⟨checked, isChecked⟩ := reached.isChecked parsed accepted
    exact isChecked.definitions.weaken fun _ isDefined => isDefined.functionFits
  have notEmpty : 0 < p.state.env.scopes.size := Nat.zero_lt_of_lt alive
  -- the defaults define nothing, whether they succeed or fail
  have outlines : (final (bindParams (runner depth) callable p.state.env.scopes.size
      (fun message => callError message line span) callable.params positional keywords context
      (p.state.scoped callable.scope))).env.outlines = (p.state.scoped callable.scope).env.outlines := by
    have defaults := (runner_keepsOutlines context depth).1
    refine outlines_discipline.bindParams (fun e => defaults e _) _ _ _ _ ?_ (known.push _)
    exact Nat.lt_of_lt_of_le notEmpty (by simp [State.scoped, Environment.push])
  have bound_iff {t : State} (fits : supply.Fits) :
      bindParams (runner depth) callable p.state.env.scopes.size
        (fun message => callError message line span) callable.params positional keywords context
        (p.state.scoped callable.scope) = .ok () t ↔ ∃ fillings values, Fills fillings values t := by
    have whole : ([] : List Param) ++ callable.params = supply.params := rfl
    have pending : supply.pending 0 = keywords := Supply.pending_eq fits (Nat.zero_le _)
    have iff := @Supply.bindParams_ok_iff (runner depth) context supply p.state.env.scopes.size
      callable.params (p.state.scoped callable.scope) t fits distinct callable
      (fun message => callError message line span) [] whole keywords (.of_eq pending.symm)
    rwa [List.length_nil, List.drop_zero] at iff
  refine ⟨withArguments_eq, ⟨?_, ?_⟩, ?_, ?_⟩
  · rintro ⟨scope, t, ok⟩
    obtain ⟨fit, -, bound⟩ := bindArguments_ok_iff.mp ok
    have fits := Supply.misfit?_eq_none_iff.mp fit
    obtain ⟨fillings, values, fills⟩ := (bound_iff fits).mp bound
    exact ⟨fits, fillings, values, t, fills⟩
  · rintro ⟨fits, fillings, values, t, fills⟩
    have bound := (bound_iff fits).mpr ⟨fillings, values, fills⟩
    exact ⟨_, t, bindArguments_ok_iff.mpr ⟨Supply.misfit?_eq_none_iff.mpr fits, rfl, bound⟩⟩
  · intro scope t ok
    obtain ⟨fit, rfl, bound⟩ := bindArguments_ok_iff.mp ok
    have fits := Supply.misfit?_eq_none_iff.mp fit
    obtain ⟨fillings, values, fills⟩ := (bound_iff fits).mp bound
    rw [bound] at outlines
    exact ⟨rfl, fillings, values, fills, fills.binds fits distinct lexical known outlines⟩
  · intro error t failed
    rcases bindArguments_error failed with rfl | ⟨u, rfl, bound⟩
    · rfl
    · rw [bound] at outlines
      exact Environment.outlines_pop_push notEmpty outlines

/-- A mixin whose second parameter has the first one as its default. -/
def bordered : Callable :=
  ⟨.mixin, "bordered", [⟨"width", none⟩, ⟨"inner_width", some (.mk (.variable "width") 1 ⟨0, 6⟩)⟩,
    ⟨"color", none⟩], 0, []⟩

/-- The state in which the body of the mixin is evaluated. -/
def borderedState : State :=
  (((Compilation.start .default "" none).scoped 0).declaring 1 "width" (.unquoted "a")).declaring 1
    "inner_width" (.unquoted "a") |>.declaring 1 "color" (.unquoted "b")

/-- One argument comes by position and one by name, and a default fills the parameter between. -/
theorem arguments_bind_of_bordered :
    let context : Context := ⟨.default, .empty, []⟩
    let start := Point.start context "" none (.mk .root [] 1 ⟨0, 0⟩ none)
    let supply : Supply := ⟨bordered.params, [.unquoted "a"], [("color", .unquoted "b")]⟩
    bindArguments (runner 1) bordered supply.positional supply.keywords 1 ⟨0, 1⟩ context start.state =
        .ok 1 borderedState ∧
      borderedState.env.valueOf? 1 "inner-width" = some (.unquoted "a") ∧
      ∃ fillings values, supply.Binds 0 start.state borderedState fillings values := by
  intro context start supply
  have ok : bindArguments (runner 1) bordered supply.positional supply.keywords 1 ⟨0, 1⟩ context
      start.state = .ok 1 borderedState := by with_unfolding_all rfl
  have parsed : Statement.AllParsed [] := fun _ member => by cases member
  have distinct : supply.IsDistinct := List.pairwise_singleton _ _
  obtain ⟨-, -, binds, -⟩ := @arguments_bind context "" none (.mk .root [] 1 ⟨0, 0⟩ none) start
    parsed rfl .refl 1 bordered _ _ (by decide) distinct 1 ⟨0, 1⟩
  have spelled : Text.normalizeName "inner-width" = Text.normalizeName "inner_width" := by
    simp [← String.toList_inj, Text.normalizeName, Text.replaceChar]
  have differs : Text.normalizeName "inner-width" ≠ Text.normalizeName "color" := by
    simp [← String.toList_inj, Text.normalizeName, Text.replaceChar]
  have here : borderedState.env.scopes[1]? = some { Environment.freshScope (some 0) with
      values := Bindings.insert (Text.normalizeName "color") (.unquoted "b")
        (Bindings.insert (Text.normalizeName "inner_width") (.unquoted "a")
          (Bindings.insert (Text.normalizeName "width") (.unquoted "a") [])) } := rfl
  have known : borderedState.env.valueOf? 1 "inner-width" = some (.unquoted "a") := by
    refine (Environment.lookup_of_within here rfl Nat.zero_lt_one _).trans ?_
    rw [Bindings.find?_insert_of_ne differs, spelled, Bindings.find?_insert_self]
    rfl
  obtain ⟨-, fillings, values, -, bound⟩ := binds 1 borderedState ok
  exact ⟨ok, known, fillings, values, bound⟩

end Stylesheet.Evaluation
