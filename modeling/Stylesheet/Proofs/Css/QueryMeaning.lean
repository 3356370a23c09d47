import Mathlib.Data.List.Basic
import Stylesheet.Text.Blank

/-! The meaning of media queries as texts. A query is a list of parts, any of which may hold, and a
part holds if all its conditions do. Joining two texts with `and` joins the last part of the first
with the first part of the second, so the joined text says less than both queries together as soon
as one of them has several parts. -/

namespace Stylesheet.MediaQuery

/-- A condition, by its words. -/
abbrev Condition := List (List Char)

def words (text : List Char) : List (List Char) :=
  (text.splitOnP Text.isBlank).filter (!·.isEmpty)

/-- The conditions of a part: what stands between the words `and`. -/
def conditions (part : List Char) : List Condition :=
  (words part).splitOn "and".toList

/-- The parts of a query: what stands between commas, each by its conditions. -/
def parts (query : String) : List (List Condition) :=
  (query.toList.splitOn ',').map conditions

/-- Whether a query holds if some conditions are true. -/
def Holds (truth : Condition → Prop) (query : String) : Prop :=
  ∃ part ∈ parts query, ∀ condition ∈ part, truth condition

/-- Whether all of some queries hold. -/
def HoldAll (truth : Condition → Prop) (queries : List String) : Prop :=
  ∀ query ∈ queries, Holds truth query

/-- The text that stands for queries inside one another, outermost first. -/
def merge : List String → List String
  | [] => []
  | query :: rest => [" and ".intercalate (query :: rest)]

/-- Wherever a part holds the query does, because the part has all conditions of one of its parts. -/
def Demands (part : List Condition) (query : String) : Prop :=
  ∃ other ∈ parts query, other ⊆ part

section Split

theorem splitOnP_append {p : α → Bool} {first second : List α} {early late : List (List α)}
    {last head : List α} (splits : first.splitOnP p = early ++ [last])
    (splits' : second.splitOnP p = head :: late) :
    (first ++ second).splitOnP p = early ++ (last ++ head) :: late := by
  induction first generalizing early last with
  | nil =>
    rw [List.splitOnP_nil] at splits
    obtain ⟨rfl, rfl⟩ : early = [] ∧ last = [] := by
      cases early with
      | nil => simpa using splits.symm
      | cons => simp at splits
    simpa using splits'
  | cons a rest ih =>
    rw [List.splitOnP_cons_eq_if_modifyHead] at splits
    rw [List.cons_append, List.splitOnP_cons_eq_if_modifyHead]
    by_cases divides : p a = true
    · rw [if_pos divides] at splits ⊢
      cases early with
      | nil => simp at splits
      | cons piece early =>
        obtain ⟨rfl, later⟩ : [] = piece ∧ rest.splitOnP p = early ++ [last] := by
          simpa using splits
        rw [ih later, List.cons_append]
    · rw [if_neg divides] at splits ⊢
      cases early with
      | nil =>
        -- the first piece is also the last one
        cases pieces : rest.splitOnP p with
        | nil => exact absurd pieces (List.splitOnP_ne_nil p rest)
        | cons piece others =>
          rw [pieces] at splits
          obtain ⟨rfl, rfl⟩ : a :: piece = last ∧ others = [] := by simpa using splits
          rw [ih (show rest.splitOnP p = [] ++ [piece] from pieces)]
          rfl
      | cons piece early =>
        cases pieces : rest.splitOnP p with
        | nil => exact absurd pieces (List.splitOnP_ne_nil p rest)
        | cons first others =>
          rw [pieces] at splits
          obtain ⟨rfl, rfl⟩ : a :: first = piece ∧ others = early ++ [last] := by simpa using splits
          rw [ih (show rest.splitOnP p = (first :: early) ++ [last] by rw [pieces]; rfl)]
          rfl

theorem words_append_blank (first second : List Char) :
    words (first ++ ' ' :: second) = words first ++ words second := by
  unfold words
  rw [List.splitOnP_append_cons first second (by decide), List.filter_append]

/-- Two parts with `and` between them have the conditions of both. -/
theorem conditions_join (first second : List Char) :
    conditions (first ++ " and ".toList ++ second) = conditions first ++ conditions second := by
  have apart : first ++ " and ".toList ++ second =
      first ++ ' ' :: ("and".toList ++ ' ' :: second) := by
    simp
  have single : words "and".toList = ["and".toList] := by decide
  unfold conditions
  rw [apart, words_append_blank, words_append_blank, single, List.singleton_append]
  exact List.splitOn_append_cons_self _ _

end Split

section Join

variable {truth : Condition → Prop}

/-- Joining two queries joins one part of each. -/
theorem parts_join (outer inner : String) : ∃ early last head late,
    parts outer = early ++ [last] ∧ parts inner = head :: late ∧
      parts (outer ++ " and " ++ inner) = early ++ (last ++ head) :: late := by
  have some : ∀ text : String, text.toList.splitOn ',' ≠ [] := by simp
  obtain ⟨early, last, splits⟩ :=
    (List.eq_nil_or_concat' (outer.toList.splitOn ',')).resolve_left (some outer)
  obtain ⟨head, late, splits'⟩ := List.exists_cons_of_ne_nil (some inner)
  refine ⟨early.map conditions, conditions last, conditions head, late.map conditions, ?_, ?_, ?_⟩
  · simp [parts, splits]
  · simp [parts, splits']
  · have middle : (" and ".toList ++ inner.toList).splitOn ',' =
        (" and ".toList ++ head) :: late := by
      rw [List.splitOn_eq_splitOnP] at splits' ⊢
      have single : " and ".toList.splitOnP (· == ',') = [] ++ [" and ".toList] := by decide
      exact splitOnP_append single splits'
    have whole : (outer ++ " and " ++ inner).toList.splitOn ',' =
        early ++ (last ++ (" and ".toList ++ head)) :: late := by
      rw [String.toList_append, String.toList_append, List.append_assoc]
      rw [List.splitOn_eq_splitOnP] at splits middle ⊢
      exact splitOnP_append splits middle
    simp only [parts, whole, List.map_append, List.map_cons]
    rw [← List.append_assoc, conditions_join]

/-- Where both queries hold, the joined text holds. -/
theorem holds_join {outer inner : String} (first : Holds truth outer) (second : Holds truth inner) :
    Holds truth (outer ++ " and " ++ inner) := by
  obtain ⟨early, last, head, late, splits, splits', joined⟩ := parts_join outer inner
  obtain ⟨part, member, all⟩ := first
  obtain ⟨part', member', all'⟩ := second
  rw [splits, List.mem_append, List.mem_singleton] at member
  rw [splits', List.mem_cons] at member'
  unfold Holds
  rw [joined]
  rcases member with before | rfl
  · exact ⟨part, by simp [before], all⟩
  · rcases member' with rfl | after
    · refine ⟨part ++ part', by simp, ?_⟩
      intro condition found
      exact (List.mem_append.mp found).elim (all condition) (all' condition)
    · exact ⟨part', by simp [after], all'⟩

theorem parts_join_single {outer inner : String} {part part' : List Condition}
    (single : parts outer = [part]) (single' : parts inner = [part']) :
    parts (outer ++ " and " ++ inner) = [part ++ part'] := by
  obtain ⟨early, last, head, late, splits, splits', joined⟩ := parts_join outer inner
  rw [single] at splits
  rw [single'] at splits'
  cases splits'
  cases early with
  | nil =>
    cases splits
    exact joined
  | cons => simp at splits

end Join

section Merge

variable {truth : Condition → Prop}

/-- Where all queries hold, so does the text that stands for them. -/
theorem holdAll_merge {queries : List String} (all : HoldAll truth queries) :
    HoldAll truth (merge queries) := by
  cases queries with
  | nil => exact all
  | cons query rest =>
    intro text member
    rw [merge, List.mem_singleton] at member
    subst member
    induction rest generalizing query with
    | nil => simpa using all query (List.mem_cons_self ..)
    | cons next rest ih =>
      rw [String.intercalate_cons_cons]
      exact holds_join (all query (List.mem_cons_self ..))
        (ih next fun q later => all q (List.mem_cons_of_mem _ later))

theorem holds_of_demands {part : List Condition} {query : String} (demands : Demands part query)
    (all : ∀ condition ∈ part, truth condition) : Holds truth query := by
  obtain ⟨other, member, within⟩ := demands
  exact ⟨other, member, fun condition found => all condition (within found)⟩

/-- The text that stands for some queries means that they all hold, exactly if each of its parts
demands each of them. -/
theorem holdAll_merge_iff (queries : List String) :
    (∀ truth, HoldAll truth (merge queries) ↔ HoldAll truth queries) ↔
      ∀ text ∈ merge queries, ∀ part ∈ parts text, ∀ query ∈ queries, Demands part query := by
  constructor
  · intro same text member part found query enclosing
    -- the conditions of the part itself are a case in which the text holds
    have only : HoldAll (· ∈ part) (merge queries) := by
      intro other merged
      have : other = text := by
        cases queries with
        | nil => cases member
        | cons => exact (List.mem_singleton.mp merged).trans (List.mem_singleton.mp member).symm
      subst this
      exact ⟨part, found, fun condition inPart => inPart⟩
    exact (same _).mp only query enclosing
  · intro demands truth
    refine ⟨fun holds query enclosing => ?_, holdAll_merge⟩
    obtain ⟨text, member⟩ : ∃ text, text ∈ merge queries := by
      cases queries with
      | nil => cases enclosing
      | cons => exact ⟨_, List.mem_singleton_self _⟩
    obtain ⟨part, found, all⟩ := holds text member
    exact holds_of_demands (demands text member part found query enclosing) all

theorem parts_of_no_comma {query : String} (plain : ',' ∉ query.toList) :
    parts query = [conditions query.toList] := by
  simp [parts, List.splitOn_eq_singleton plain]

/-- Queries of one part each are joined without a loss. -/
theorem demands_of_no_comma {queries : List String} (plain : ∀ query ∈ queries, ',' ∉ query.toList) :
    ∀ text ∈ merge queries, ∀ part ∈ parts text, ∀ query ∈ queries, Demands part query := by
  cases queries with
  | nil => simp [merge]
  | cons query rest =>
    -- the one part of the text has all conditions of all queries
    have whole : ∃ part, parts (" and ".intercalate (query :: rest)) = [part] ∧
        ∀ q ∈ query :: rest, conditions q.toList ⊆ part := by
      induction rest generalizing query with
      | nil =>
        refine ⟨conditions query.toList, ?_, by simp⟩
        rw [String.intercalate_singleton, parts_of_no_comma (plain query (List.mem_cons_self ..))]
      | cons next rest ih =>
        obtain ⟨part, single, within⟩ :=
          ih next fun q later => plain q (List.mem_cons_of_mem _ later)
        refine ⟨conditions query.toList ++ part, ?_, ?_⟩
        · rw [String.intercalate_cons_cons]
          exact parts_join_single (parts_of_no_comma (plain query (List.mem_cons_self ..))) single
        · intro q member
          rcases List.mem_cons.mp member with rfl | later
          · exact List.subset_append_left _ _
          · exact List.Subset.trans (within q later) (List.subset_append_right _ _)
    obtain ⟨part, single, within⟩ := whole
    intro text member part' found q enclosing
    rw [merge, List.mem_singleton] at member
    subst member
    rw [single, List.mem_singleton] at found
    subst found
    exact ⟨_, by simp [parts_of_no_comma (plain q enclosing)], within q enclosing⟩

/-- Joining two queries before or after the others are put in front makes no difference. -/
theorem merge_concat_join (queries : List String) (outer inner : String) :
    merge (queries ++ [outer ++ " and " ++ inner]) = merge (queries ++ [outer] ++ [inner]) := by
  have text : " and ".intercalate (queries ++ [outer ++ " and " ++ inner]) =
      " and ".intercalate (queries ++ [outer] ++ [inner]) := by
    induction queries with
    | nil => simp [String.intercalate_cons_cons]
    | cons query rest ih =>
      rw [List.cons_append, List.cons_append, List.cons_append,
        String.intercalate_cons_of_ne_nil (by simp), String.intercalate_cons_of_ne_nil (by simp), ih]
  cases queries with
  | nil => exact congrArg (fun text => [text]) text
  | cons query rest => exact congrArg (fun text => [text]) text

end Merge

end Stylesheet.MediaQuery
