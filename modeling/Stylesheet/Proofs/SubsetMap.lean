import Mathlib.Data.List.Induction
import Mathlib.Data.List.Pairwise
import Mathlib.Data.List.Sort
import Stylesheet.Proofs.Selector.Equality
import Stylesheet.SubsetMap

/-! A multimap keyed by sets, against its definition. The index from elements to positions leads to
every entry that it should, so that a query finds what going through all entries would find, and an
identity stands for one set of elements. -/

namespace Stylesheet.SubsetMap

universe u v

variable {κ : Type u} {ν : Type v} [BEq κ]

/-- The same elements, in whatever order and however often. -/
def SameSet (a b : List κ) : Prop :=
  ∀ x, a.contains x = b.contains x

namespace SameSet

theorem refl (a : List κ) : SameSet a a := fun _ => rfl

theorem symm {a b : List κ} (same : SameSet a b) : SameSet b a := fun x => (same x).symm

theorem trans {a b c : List κ} (first : SameSet a b) (second : SameSet b c) : SameSet a c :=
  fun x => (first x).trans (second x)

end SameSet

section Sets

variable [EquivBEq κ]

theorem contains_distinct (items : List κ) (x : κ) :
    (distinct items).contains x = items.contains x := by
  rw [Bool.eq_iff_iff, List.contains_iff_exists_mem_beq, List.contains_iff_exists_mem_beq]
  constructor
  · rintro ⟨y, member, same⟩
    exact ⟨y, mem_of_mem_distinct member, same⟩
  · rintro ⟨y, member, same⟩
    obtain ⟨z, kept, equal⟩ := exists_mem_distinct member
    exact ⟨z, kept, BEq.trans same equal⟩

theorem distinct_ne_nil {items : List κ} (nonempty : items ≠ []) : distinct items ≠ [] := by
  obtain ⟨x, member⟩ := List.exists_mem_of_ne_nil items nonempty
  obtain ⟨y, kept, _⟩ := exists_mem_distinct member
  exact List.ne_nil_of_mem kept

theorem pairwise_distinct (items : List κ) :
    (distinct items).Pairwise fun a b => (a == b) = false :=
  pairwise_keepNew .nil items

theorem contains_of_beq {items : List κ} {x y : κ} (same : (x == y) = true)
    (holds : items.contains x = true) : items.contains y = true := by
  obtain ⟨z, member, equal⟩ := List.contains_iff_exists_mem_beq.mp holds
  exact List.contains_iff_exists_mem_beq.mpr ⟨z, member, BEq.trans (BEq.symm same) equal⟩

theorem isPartOf_iff {key query : List κ} :
    isPartOf key query = true ↔ ∀ x, key.contains x = true → query.contains x = true := by
  unfold isPartOf
  rw [List.all_eq_true]
  constructor
  · intro part x holds
    obtain ⟨y, member, same⟩ := List.contains_iff_exists_mem_beq.mp holds
    exact contains_of_beq (BEq.symm same) (part y member)
  · intro part x member
    exact part x (List.contains_iff_exists_mem_beq.mpr ⟨x, member, BEq.rfl⟩)

theorem SameSet.isPartOf_eq {a b : List κ} (same : SameSet a b) (query : List κ) :
    isPartOf a query = isPartOf b query := by
  rw [Bool.eq_iff_iff, isPartOf_iff, isPartOf_iff]
  simp only [same _]

/-- Different elements that all occur in another list are no more than that list has. -/
private theorem length_le_of_contains {a b : List κ}
    (different : a.Pairwise fun x y => (x == y) = false) (part : ∀ x ∈ a, b.contains x = true) :
    a.length ≤ b.length := by
  induction a generalizing b with
  | nil => exact Nat.zero_le _
  | cons x rest ih =>
    obtain ⟨others, different⟩ := List.pairwise_cons.mp different
    obtain ⟨y, member, same⟩ :=
      List.contains_iff_exists_mem_beq.mp (part x (List.mem_cons_self ..))
    obtain ⟨before, after, rfl⟩ := List.append_of_mem member
    have within : ∀ z ∈ rest, (before ++ after).contains z = true := by
      intro z later
      obtain ⟨w, found, equal⟩ :=
        List.contains_iff_exists_mem_beq.mp (part z (List.mem_cons_of_mem _ later))
      have kept : w ∈ before ++ after := by
        rcases List.mem_append.mp found with early | late
        · exact List.mem_append_left _ early
        · rcases List.mem_cons.mp late with rfl | late
          · have repeated : (x == z) = true := BEq.trans same (BEq.symm equal)
            rw [others z later] at repeated
            exact absurd repeated Bool.false_ne_true
          · exact List.mem_append_right _ late
      exact List.contains_iff_exists_mem_beq.mpr ⟨w, kept, equal⟩
    have shorter := ih different within
    simp only [List.length_cons, List.length_append] at shorter ⊢
    omega

/-- Keys that have each element once are compared by length and by one inclusion. -/
theorem sameKey_iff {a b : List κ} (different : a.Pairwise fun x y => (x == y) = false)
    (different' : b.Pairwise fun x y => (x == y) = false) :
    sameKey a b = true ↔ SameSet a b := by
  unfold sameKey
  rw [Bool.and_eq_true, beq_iff_eq, List.all_eq_true]
  constructor
  · rintro ⟨lengths, part⟩ x
    rw [Bool.eq_iff_iff]
    refine ⟨isPartOf_iff.mp (List.all_eq_true.mpr part) x, fun holds => ?_⟩
    -- One element more would not fit into as many places.
    by_contra missing
    have fresh : ∀ y ∈ a, (x == y) = false := by
      intro y member
      by_contra equal
      exact missing (List.contains_iff_exists_mem_beq.mpr ⟨y, member, by simpa using equal⟩)
    have longer : (x :: a).length ≤ b.length := by
      apply length_le_of_contains (List.pairwise_cons.mpr ⟨fresh, different⟩)
      intro y member
      rcases List.mem_cons.mp member with rfl | later
      · exact holds
      · exact part y later
    simp only [List.length_cons] at longer
    omega
  · intro same
    have forward : ∀ x ∈ a, b.contains x = true := fun x member =>
      (same x) ▸ List.contains_iff_exists_mem_beq.mpr ⟨x, member, BEq.rfl⟩
    have backward : ∀ x ∈ b, a.contains x = true := fun x member =>
      (same x).symm ▸ List.contains_iff_exists_mem_beq.mpr ⟨x, member, BEq.rfl⟩
    exact ⟨Nat.le_antisymm (length_le_of_contains different forward)
      (length_le_of_contains different' backward), forward⟩

end Sets

/-- What all insertions keep. -/
structure Valid (map : SubsetMap κ ν) : Prop where
  index_eq : ∀ (i : Nat) (entry : Entry κ ν), map.entries[i]? = some entry → entry.index = i
  key_ne_nil : ∀ entry ∈ map.entries, entry.key ≠ []
  different : ∀ entry ∈ map.entries, entry.key.Pairwise fun a b => (a == b) = false
  keyId_lt : ∀ entry ∈ map.entries, entry.keyId < map.entries.size
  keyId_iff : ∀ entry ∈ map.entries, ∀ other ∈ map.entries,
    entry.keyId = other.keyId ↔ SameSet entry.key other.key
  /-- The index from elements to positions leads to all entries. -/
  mem_positionsOf : ∀ (x : κ) (i : Nat), i ∈ map.positionsOf x ↔
    ∃ entry, map.entries[i]? = some entry ∧ entry.key.contains x = true

theorem valid_empty : Valid (empty : SubsetMap κ ν) where
  index_eq := by simp [empty]
  key_ne_nil := by simp [empty]
  different := by simp [empty]
  keyId_lt := by simp [empty]
  keyId_iff := by simp [empty]
  mem_positionsOf := by simp [empty, positionsOf]

/-- The identity that a key gets. -/
def identity (map : SubsetMap κ ν) (key : List κ) : Nat :=
  match map.entries.find? (fun entry => sameKey entry.key key) with
  | some entry => entry.keyId
  | none => map.entries.size

theorem Valid.identity_le {map : SubsetMap κ ν} (valid : map.Valid) (key : List κ) :
    map.identity key ≤ map.entries.size := by
  unfold identity
  split
  · rename_i entry found
    exact Nat.le_of_lt (valid.keyId_lt entry (Array.mem_of_find?_eq_some found))
  · exact Nat.le_refl _

theorem insert_nil (map : SubsetMap κ ν) (value : ν) : map.insert [] value = (map, none) := rfl

/-- The map after some insertions into the empty one. -/
def insertAll (inserts : List (List κ × ν)) : SubsetMap κ ν :=
  inserts.foldl (fun map (key, value) => (map.insert key value).1) empty

theorem insertAll_concat (inserts : List (List κ × ν)) (key : List κ) (value : ν) :
    insertAll (inserts ++ [(key, value)]) = ((insertAll inserts).insert key value).1 := by
  simp [insertAll]

/-- The insertions that are not refused. -/
def accepted (inserts : List (List κ × ν)) : List (List κ × ν) :=
  inserts.filter fun (key, _) => !key.isEmpty

/-- An entry holds what an insertion put at a position. -/
structure Entry.Stores (entry : Entry κ ν) (insertion : (List κ × ν) × Nat) : Prop where
  index_eq : entry.index = insertion.2
  value_eq : entry.value = insertion.1.2
  sameSet : SameSet entry.key insertion.1.1

/-- The positions of the entries that a query finds, once for each element that leads there. -/
def found (map : SubsetMap κ ν) (query : List κ) : List Nat :=
  (query.flatMap map.positionsOf).filterMap fun index =>
    match map.entries[index]? with
    | some entry => if isPartOf entry.key query then some index else none
    | none => none

theorem get_eq_found (map : SubsetMap κ ν) (query : List κ) :
    map.get query = (distinct ((map.found query).mergeSort fun a b => decide (a ≤ b))).filterMap
      fun index => map.entries[index]? := rfl

section Insert

variable [EquivBEq κ]

private theorem mem_positionsOf_addPosition (entries : Array (Entry κ ν)) (i position : Nat)
    (element x : κ) (positions : List (κ × List Nat)) :
    i ∈ positionsOf ⟨entries, addPosition position element positions⟩ x ↔
      i ∈ positionsOf ⟨entries, positions⟩ x ∨ (x == element) = true ∧ i = position := by
  unfold positionsOf
  induction positions with
  | nil =>
    by_cases same : (element == x) = true
    · simp [addPosition, same, BEq.comm (a := x)]
    · simp [addPosition, same, BEq.comm (a := x)]
  | cons first rest ih =>
    obtain ⟨other, found⟩ := first
    unfold addPosition
    by_cases own : (other == element) = true
    · have comparison : (other == x) = (x == element) := by
        rw [BEq.comm, BEq.congr_right own]
      by_cases same : (x == element) = true
      · simp [own, comparison, same]
      · simp [own, comparison, same]
    · simp only [own]
      by_cases here : (other == x) = true
      · have differs : ¬ (x == element) = true := fun same => own (BEq.trans here same)
        simp [here, differs]
      · simpa [here] using ih

private theorem mem_positionsOf_foldl (entries : Array (Entry κ ν)) (i position : Nat)
    (key : List κ) (x : κ) (positions : List (κ × List Nat)) :
    i ∈ positionsOf ⟨entries,
        key.foldl (fun positions element => addPosition position element positions) positions⟩ x ↔
      i ∈ positionsOf ⟨entries, positions⟩ x ∨ key.contains x = true ∧ i = position := by
  induction key generalizing positions with
  | nil => simp
  | cons element rest ih =>
    rw [List.foldl_cons, ih, mem_positionsOf_addPosition, List.contains_cons, Bool.or_eq_true]
    tauto

theorem insert_of_ne_nil (map : SubsetMap κ ν) {key : List κ} (nonempty : key ≠ []) (value : ν) :
    map.insert key value =
      (⟨map.entries.push ⟨map.entries.size, map.identity (distinct key), distinct key, value⟩,
        (distinct key).foldl
          (fun positions element => addPosition map.entries.size element positions) map.positions⟩,
        some map.entries.size) := by
  unfold insert
  rw [if_neg (by simpa using distinct_ne_nil nonempty)]
  rfl

/-- An identity is shared by the entries with the same set and by no others. -/
theorem Valid.identity_iff {map : SubsetMap κ ν} (valid : map.Valid) {key : List κ}
    (different : key.Pairwise fun a b => (a == b) = false) {entry : Entry κ ν}
    (member : entry ∈ map.entries) :
    entry.keyId = map.identity key ↔ SameSet entry.key key := by
  unfold identity
  cases search : map.entries.find? fun entry => sameKey entry.key key with
  | none =>
    have unequal := Array.find?_eq_none.mp search entry member
    rw [sameKey_iff (valid.different entry member) different] at unequal
    have below := valid.keyId_lt entry member
    exact ⟨fun equal => absurd equal (Nat.ne_of_lt below), fun same => absurd same unequal⟩
  | some first =>
    have present := Array.mem_of_find?_eq_some search
    have same := Array.find?_some search
    rw [sameKey_iff (valid.different first present) different] at same
    rw [valid.keyId_iff entry member first present]
    exact ⟨fun equal => equal.trans same, fun equal => equal.trans same.symm⟩

theorem Valid.insert {map : SubsetMap κ ν} (valid : map.Valid) (key : List κ) (value : ν) :
    (map.insert key value).1.Valid := by
  rcases eq_or_ne key [] with rfl | nonempty
  · exact valid
  · rw [insert_of_ne_nil map nonempty]
    have different := pairwise_distinct key
    have identified := fun entry (member : entry ∈ map.entries) =>
      valid.identity_iff different member
    constructor
    · intro i entry found
      rw [Array.getElem?_push] at found
      split at found
      · rename_i here
        cases found
        exact here.symm
      · exact valid.index_eq i entry found
    · intro entry member
      rcases Array.mem_push.mp member with old | rfl
      · exact valid.key_ne_nil entry old
      · exact distinct_ne_nil nonempty
    · intro entry member
      rcases Array.mem_push.mp member with old | rfl
      · exact valid.different entry old
      · exact different
    · intro entry member
      rw [Array.size_push]
      rcases Array.mem_push.mp member with old | rfl
      · exact Nat.lt_succ_of_lt (valid.keyId_lt entry old)
      · exact Nat.lt_succ_of_le (valid.identity_le _)
    · intro entry member other member'
      rcases Array.mem_push.mp member with old | rfl <;>
        rcases Array.mem_push.mp member' with old' | rfl
      · exact valid.keyId_iff entry old other old'
      · exact identified entry old
      · exact ⟨fun equal => ((identified other old').mp equal.symm).symm,
          fun same => ((identified other old').mpr same.symm).symm⟩
      · exact ⟨fun _ => .refl _, fun _ => rfl⟩
    · intro x i
      rw [mem_positionsOf_foldl, Array.getElem?_push]
      refine (or_congr_left (valid.mem_positionsOf x i)).trans ?_
      constructor
      · rintro (⟨entry, found, holds⟩ | ⟨holds, rfl⟩)
        · have below := (Array.getElem?_eq_some_iff.mp found).1
          exact ⟨entry, by rw [if_neg (Nat.ne_of_lt below), found], holds⟩
        · exact ⟨_, if_pos rfl, holds⟩
      · rintro ⟨entry, found, holds⟩
        split at found
        · rename_i here
          cases found
          exact .inr ⟨holds, here⟩
        · exact .inl ⟨entry, found, holds⟩

theorem valid_insertAll (inserts : List (List κ × ν)) : (insertAll inserts).Valid := by
  induction inserts using List.reverseRecOn with
  | nil => exact valid_empty
  | append_singleton inserts last ih =>
    rw [insertAll_concat]
    exact ih.insert last.1 last.2

theorem entries_insertAll (inserts : List (List κ × ν)) :
    List.Forall₂ Entry.Stores (insertAll inserts).entries.toList (accepted inserts).zipIdx := by
  induction inserts using List.reverseRecOn with
  | nil => exact .nil
  | append_singleton inserts last ih =>
    obtain ⟨key, value⟩ := last
    rw [insertAll_concat]
    rcases eq_or_ne key [] with rfl | nonempty
    · simpa [accepted, insert_nil] using ih
    · have size : (insertAll inserts).entries.size = (accepted inserts).length := by
        simpa using ih.length_eq
      have more : accepted (inserts ++ [(key, value)]) = accepted inserts ++ [(key, value)] := by
        simp [accepted, nonempty]
      rw [insert_of_ne_nil _ nonempty, more, List.zipIdx_append, Array.toList_push]
      refine List.rel_append ih (.cons ⟨?_, rfl, contains_distinct key⟩ .nil)
      simpa using size

theorem size_insertAll (inserts : List (List κ × ν)) :
    (insertAll inserts).entries.size = (accepted inserts).length := by
  simpa using (entries_insertAll inserts).length_eq

private theorem exists_of_forall₂ {r : α → β → Prop} {as : List α} {bs : List β}
    (related : List.Forall₂ r as bs) : ∀ a ∈ as, ∃ b ∈ bs, r a b := by
  induction related with
  | nil => simp
  | cons first _ ih =>
    intro a member
    rcases List.mem_cons.mp member with rfl | later
    · exact ⟨_, List.mem_cons_self .., first⟩
    · obtain ⟨b, found, holds⟩ := ih a later
      exact ⟨b, List.mem_cons_of_mem _ found, holds⟩

/-- Every entry comes from an insertion. -/
theorem exists_insertion_of_mem {inserts : List (List κ × ν)} {entry : Entry κ ν}
    (stored : entry ∈ (insertAll inserts).entries) :
    ∃ insertion ∈ inserts, insertion.1 ≠ [] ∧ SameSet entry.key insertion.1 ∧
      entry.value = insertion.2 := by
  obtain ⟨insertion, listed, stores⟩ :=
    exists_of_forall₂ (entries_insertAll inserts) entry (Array.mem_toList_iff.mpr stored)
  have kept : insertion.1 ∈ (accepted inserts).zipIdx.map Prod.fst := List.mem_map_of_mem listed
  rw [List.zipIdx_map_fst, accepted, List.mem_filter] at kept
  exact ⟨insertion.1, kept.1, by simpa using kept.2, stores.sameSet, stores.value_eq⟩

/-- Every insertion that is not refused has an entry. -/
theorem exists_entry_of_mem {inserts : List (List κ × ν)} {insertion : List κ × ν}
    (asked : insertion ∈ inserts) (nonempty : insertion.1 ≠ []) :
    ∃ entry ∈ (insertAll inserts).entries, SameSet entry.key insertion.1 ∧
      entry.value = insertion.2 := by
  have kept : insertion ∈ (accepted inserts).zipIdx.map Prod.fst := by
    rw [List.zipIdx_map_fst, accepted, List.mem_filter]
    exact ⟨asked, by simpa using nonempty⟩
  obtain ⟨placed, listed, rfl⟩ := List.mem_map.mp kept
  obtain ⟨entry, stored, stores⟩ :=
    exists_of_forall₂ (entries_insertAll inserts).flip placed listed
  exact ⟨entry, Array.mem_toList_iff.mp stored, stores.sameSet, stores.value_eq⟩

end Insert

section Get

variable [EquivBEq κ]

/-- Increasing numbers are known by which they are. -/
private theorem eq_filter_range {found : List Nat} (increasing : found.Pairwise (· < ·)) {n : Nat}
    {p : Nat → Bool} (exactly : ∀ i, i ∈ found ↔ i < n ∧ p i = true) :
    found = (List.range n).filter p := by
  have ordered : ((List.range n).filter p).Pairwise (· < ·) := List.pairwise_lt_range.filter p
  have same : found.Perm ((List.range n).filter p) := by
    rw [List.perm_ext_iff_of_nodup (increasing.imp Nat.ne_of_lt) (ordered.imp Nat.ne_of_lt)]
    intro i
    rw [exactly, List.mem_filter, List.mem_range]
  exact same.eq_of_pairwise (fun a b _ _ below above => absurd below (Nat.lt_asymm above))
    increasing ordered

/-- Sorting and leaving out repetitions makes numbers increase. -/
private theorem pairwise_distinct_mergeSort (found : List Nat) :
    (distinct (found.mergeSort fun a b => decide (a ≤ b))).Pairwise (· < ·) := by
  have sorted : (found.mergeSort fun a b => decide (a ≤ b)).Pairwise fun a b =>
      decide (a ≤ b) = true :=
    List.pairwise_mergeSort (by simp; omega) (by simp; omega) found
  obtain ⟨kept, same, sub⟩ := exists_keepNew [] (found.mergeSort fun a b => decide (a ≤ b))
  have ordered : (distinct (found.mergeSort fun a b => decide (a ≤ b))).Pairwise fun a b =>
      decide (a ≤ b) = true := by
    change (keepNew [] _).Pairwise _
    rw [same]
    exact sorted.sublist sub
  apply (ordered.and (pairwise_distinct _)).imp
  intro a b both
  have unequal : a ≠ b := by simpa using both.2
  have below : a ≤ b := by simpa using both.1
  omega

theorem mem_distinct_nat {i : Nat} {found : List Nat} :
    i ∈ distinct found ↔ i ∈ found := by
  have same := contains_distinct found i
  rw [Bool.eq_iff_iff] at same
  simpa using same

private theorem filterMap_getElem?_filter (items : List α) (p : α → Bool) :
    (((List.range items.length).filter fun i => items[i]?.any p).filterMap fun i => items[i]?) =
      items.filter p := by
  induction items with
  | nil => rfl
  | cons x rest ih =>
    rw [List.length_cons, List.range_succ_eq_map]
    by_cases holds : p x = true
    · simpa [List.filter_map, List.filterMap_map, Function.comp_def, holds] using ih
    · simpa [List.filter_map, List.filterMap_map, Function.comp_def, holds] using ih

theorem Valid.mem_found {map : SubsetMap κ ν} (valid : map.Valid) {query : List κ} {i : Nat} :
    i ∈ map.found query ↔
      ∃ entry, map.entries[i]? = some entry ∧ isPartOf entry.key query = true := by
  unfold found
  rw [List.mem_filterMap]
  constructor
  · rintro ⟨index, _, checked⟩
    split at checked
    · rename_i entry here
      split at checked
      · rename_i part
        cases checked
        exact ⟨entry, here, part⟩
      · cases checked
    · cases checked
  · rintro ⟨entry, here, part⟩
    -- An entry has some element, and the query has one equal to it that leads there.
    obtain ⟨x, member⟩ :=
      List.exists_mem_of_ne_nil _ (valid.key_ne_nil entry (Array.mem_of_getElem? here))
    have holds : entry.key.contains x = true :=
      List.contains_iff_exists_mem_beq.mpr ⟨x, member, BEq.rfl⟩
    obtain ⟨y, asked, same⟩ := List.contains_iff_exists_mem_beq.mp (isPartOf_iff.mp part x holds)
    have leads := (valid.mem_positionsOf y i).mpr ⟨entry, here, contains_of_beq same holds⟩
    exact ⟨i, List.mem_flatMap.mpr ⟨y, asked, leads⟩, by simp [here, part]⟩

/-- A query finds what going through all entries would find. -/
theorem Valid.get_eq {map : SubsetMap κ ν} (valid : map.Valid) (query : List κ) :
    map.get query = map.entries.toList.filter fun entry => isPartOf entry.key query := by
  have exactly (i : Nat) :
      i ∈ distinct ((map.found query).mergeSort fun a b => decide (a ≤ b)) ↔
        i < map.entries.toList.length ∧
          (map.entries.toList[i]?.any fun entry => isPartOf entry.key query) = true := by
    rw [mem_distinct_nat, List.mem_mergeSort, valid.mem_found, Array.getElem?_toList,
      Option.any_eq_true]
    constructor
    · rintro ⟨entry, here, part⟩
      exact ⟨by simpa using (Array.getElem?_eq_some_iff.mp here).1, entry, here, part⟩
    · rintro ⟨_, entry, here, part⟩
      exact ⟨entry, here, part⟩
  rw [get_eq_found, eq_filter_range (pairwise_distinct_mergeSort _) exactly]
  simpa using filterMap_getElem?_filter map.entries.toList fun entry => isPartOf entry.key query

theorem get_insertAll (inserts : List (List κ × ν)) (query : List κ) :
    List.Forall₂ Entry.Stores ((insertAll inserts).get query)
      ((accepted inserts).zipIdx.filter fun ((key, _), _) => isPartOf key query) := by
  rw [(valid_insertAll inserts).get_eq]
  refine List.rel_filter ?_ (entries_insertAll inserts)
  intro entry insertion stores
  exact iff_of_eq (congrArg (· = true) (stores.sameSet.isPartOf_eq query))

/-- After any insertions a query finds exactly the entries whose key is part of it, in the order of
insertion and at the positions that the insertions gave; an identity stands for one set; and an
empty key is refused. -/
theorem insertAll_brute_force (inserts : List (List κ × ν)) :
    (∀ query, List.Forall₂ Entry.Stores ((insertAll inserts).get query)
      ((accepted inserts).zipIdx.filter fun ((key, _), _) => isPartOf key query)) ∧
    (∀ entry ∈ (insertAll inserts).entries, ∀ other ∈ (insertAll inserts).entries,
      entry.keyId = other.keyId ↔ SameSet entry.key other.key) ∧
    (∀ key value, ((insertAll inserts).insert key value).2 =
      if key.isEmpty then none else some (accepted inserts).length) ∧
    ∀ value, (insertAll inserts).insert [] value = (insertAll inserts, none) := by
  refine ⟨get_insertAll inserts, (valid_insertAll inserts).keyId_iff, ?_, insert_nil _⟩
  intro key value
  rcases eq_or_ne key [] with rfl | nonempty
  · rfl
  · rw [insert_of_ne_nil _ nonempty, if_neg (by simpa using nonempty), size_insertAll]

/-- A key with a repetition, a refused one, the first key in another order, and one that is not
asked for. -/
theorem insertAll_brute_force_of_repetitions :
    ((insertAll [([2, 1, 2], "a"), ([], "b"), ([1, 2], "c"), ([3], "d")]).get [1, 2, 1]).map
        (fun entry => (entry.index, entry.value)) = [(0, "a"), (1, "c")] := by
  have finds := (insertAll_brute_force
    [([2, 1, 2], "a"), ([], "b"), ([1, 2], "c"), ([3], "d")]).1 [1, 2, 1]
  generalize (insertAll _).get [1, 2, 1] = got at finds
  cases finds with
  | cons first rest =>
    cases rest with
    | cons second rest =>
      cases rest
      simp [first.index_eq, first.value_eq, second.index_eq, second.value_eq]

end Get

end Stylesheet.SubsetMap
