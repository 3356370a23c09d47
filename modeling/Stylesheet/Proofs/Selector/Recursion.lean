import Stylesheet.Proofs.Selector.Extension
import Stylesheet.Proofs.SubsetMap

/-! The recursion of extension. To extend a compound is to extend the chains that its extensions
give, each time with one more target used. Whatever the extensions are, a target is used once on
the way, so that there is no endless chain of calls and none that is longer than there are
different targets. -/

namespace Stylesheet

theorem SubsetMap.nodup_keyIds (map : SubsetMap κ ν) : map.keyIds.Nodup :=
  (pairwise_distinct _).imp fun different => by simpa using different

theorem SubsetMap.mem_keyIds {map : SubsetMap κ ν} {id : Nat} :
    id ∈ map.keyIds ↔ ∃ entry ∈ map.entries, entry.keyId = id := by
  simp [keyIds, mem_distinct_nat]

namespace Extend

section Calls

variable {map : ExtendMap}

/-- The targets that can still be used once those in `seen` are. -/
def unseen (map : ExtendMap) (seen : List Nat) : List Nat :=
  map.keyIds.filter fun id => !seen.contains id

theorem mem_unseen {seen : List Nat} {id : Nat} :
    id ∈ unseen map seen ↔ id ∈ map.keyIds ∧ id ∉ seen := by
  simp [unseen]

theorem unseen_cons (map : ExtendMap) (id : Nat) (seen : List Nat) :
    unseen map (id :: seen) = (unseen map seen).erase id := by
  have once : (unseen map seen).Nodup := map.nodup_keyIds.filter _
  rw [once.erase_eq_filter, unseen, unseen, List.filter_filter]
  apply List.filter_congr
  intro other _
  rw [List.contains_cons, Bool.not_or]
  rfl

/-- With the targets in `seen` used, the extension of a compound uses a further one and asks for
the extension of a compound in the chain that this gives. -/
inductive Calls (map : ExtendMap) (seen : List Nat) (c : Compound) : Nat → Compound → Prop where
  | extension {hit : SubsetMap.Entry Simple Chain} {chain : Chain} {inner : Compound}
      (found : hit ∈ map.get c.members) (given : extended? c.members hit = some chain)
      (fresh : hit.keyId ∉ seen) (inside : .compound inner ∈ chain) :
      Calls map seen c hit.keyId inner

theorem Calls.mem_unseen {seen : List Nat} {c inner : Compound} {id : Nat}
    (call : Calls map seen c id inner) : id ∈ unseen map seen := by
  cases call with
  | extension found _ fresh _ =>
    have known := SubsetMap.mem_keyIds.mpr ⟨_, (SubsetMap.isPartOf_of_mem_get found).1, rfl⟩
    exact Extend.mem_unseen.mpr ⟨known, fresh⟩

/-- One call inside of another, each with the targets that are used. -/
def Below (map : ExtendMap) (inner outer : List Nat × Compound) : Prop :=
  ∃ id, inner.1 = id :: outer.1 ∧ Calls map outer.1 outer.2 id inner.2

theorem below_wellFounded (map : ExtendMap) : WellFounded (Below map) := by
  apply Subrelation.wf _ (measure fun call : List Nat × Compound => (unseen map call.1).length).wf
  rintro ⟨seen', inner⟩ ⟨seen, c⟩ ⟨id, same, call⟩
  simp only at same call
  have fewer := List.length_erase_of_mem call.mem_unseen
  have positive := List.length_pos_of_mem call.mem_unseen
  change (unseen map seen').length < (unseen map seen).length
  rw [same, unseen_cons, fewer]
  omega

/-- Calls inside of one another, with the targets they use in turn. -/
inductive Nested (map : ExtendMap) : List Nat → Compound → List Nat → Compound → Prop where
  | here {seen : List Nat} {c : Compound} : Nested map seen c [] c
  | deeper {seen ids : List Nat} {id : Nat} {c inner last : Compound}
      (call : Calls map seen c id inner) (rest : Nested map (id :: seen) inner ids last) :
      Nested map seen c (id :: ids) last

/-- No target is used twice on the way. -/
theorem Nested.nodup {seen ids : List Nat} {c last : Compound}
    (nested : Nested map seen c ids last) : ids.Nodup ∧ ∀ id ∈ ids, id ∈ unseen map seen := by
  induction nested with
  | here => simp
  | deeper call rest ih =>
    obtain ⟨once, fresh⟩ := ih
    constructor
    · refine List.nodup_cons.mpr ⟨fun again => ?_, once⟩
      exact (mem_unseen.mp (fresh _ again)).2 (List.mem_cons_self ..)
    · intro id member
      rcases List.mem_cons.mp member with rfl | later
      · exact call.mem_unseen
      · obtain ⟨known, other⟩ := mem_unseen.mp (fresh id later)
        exact mem_unseen.mpr ⟨known, fun used => other (List.mem_cons_of_mem _ used)⟩

/-- There are no more identities than there are different sets to stand for. -/
private theorem length_le_of_keyIds {map : ExtendMap} (valid : map.Valid) {ids : List Nat}
    (once : ids.Nodup) (known : ∀ id ∈ ids, id ∈ map.keyIds) {targets : List (List Simple)}
    (each : ∀ entry ∈ map.entries, ∃ t ∈ targets, SubsetMap.SameSet entry.key t) :
    ids.length ≤ targets.length := by
  have placed : ∀ id ∈ ids, ∃ i < targets.length, ∃ entry ∈ map.entries,
      entry.keyId = id ∧ SubsetMap.SameSet entry.key (targets.getD i []) := by
    intro id member
    obtain ⟨entry, stored, same⟩ := SubsetMap.mem_keyIds.mp (known id member)
    obtain ⟨t, found, equal⟩ := each entry stored
    obtain ⟨i, below, rfl⟩ := List.getElem_of_mem found
    refine ⟨i, below, entry, stored, same, ?_⟩
    rwa [List.getD_eq_getElem?_getD, List.getElem?_eq_getElem below]
  choose! place below holder using placed
  have within : Set.MapsTo place ids.toFinset (Finset.range targets.length) := by
    intro id member
    simpa using below id (by simpa using member)
  have apart : Set.InjOn place ids.toFinset := by
    intro id member id' member' together
    obtain ⟨entry, stored, rfl, same⟩ := holder id (by simpa using member)
    obtain ⟨entry', stored', rfl, same'⟩ := holder id' (by simpa using member')
    rw [together] at same
    exact (valid.keyId_iff entry stored entry' stored').mpr (same.trans same'.symm)
  have fits := Finset.card_le_card_of_injOn place within apart
  rwa [List.toFinset_card_of_nodup once, Finset.card_range] at fits

end Calls

section Body

variable {map : ExtendMap}

/-- The chains that a compound is extended to, given those of other compounds once more targets
are used. -/
def extensionsWith (map : ExtendMap) (recurse : List Nat → Compound → List Chain)
    (seen : List Nat) (c : Compound) : List Chain :=
  distinct <| (map.get c.members).flatMap fun hit =>
    match extended? c.members hit with
    | none => []
    | some chain =>
      if hit.keyId ∈ seen then [] else chainWith (recurse (hit.keyId :: seen)) chain

/-- The positions of the extensions that a compound meets, given those for other compounds once
more targets are used. -/
def matchesWith (map : ExtendMap) (recurse : List Nat → Compound → List Nat) (seen : List Nat)
    (c : Compound) : List Nat :=
  (map.get c.members).flatMap fun hit =>
    hit.index :: match extended? c.members hit with
      | none => []
      | some chain =>
        if hit.keyId ∈ seen then []
        else chain.flatMap fun
          | .compound inner => recurse (hit.keyId :: seen) inner
          | .combinator _ => []

theorem chainWith_congr {f g : Compound → List Chain} {chain : Chain}
    (same : ∀ c, .compound c ∈ chain → f c = g c) : chainWith f chain = chainWith g chain := by
  have each : chain.map (options f) = chain.map (options g) := by
    apply List.map_congr_left
    intro component member
    cases component with
    | compound c => simp only [options, same c member]
    | combinator k => rfl
  rw [chainWith, chainWith, each]

theorem extensionsWith_congr {f g : List Nat → Compound → List Chain} {seen : List Nat}
    {c : Compound} (same : ∀ id inner, Calls map seen c id inner →
      f (id :: seen) inner = g (id :: seen) inner) :
    extensionsWith map f seen c = extensionsWith map g seen c := by
  unfold extensionsWith
  congr 1
  apply List.flatMap_congr
  intro hit found
  cases given : extended? c.members hit with
  | none => rfl
  | some chain =>
    simp only
    split
    · rfl
    · rename_i fresh
      exact chainWith_congr fun inner inside => same _ _ (.extension found given fresh inside)

theorem matchesWith_congr {f g : List Nat → Compound → List Nat} {seen : List Nat}
    {c : Compound} (same : ∀ id inner, Calls map seen c id inner →
      f (id :: seen) inner = g (id :: seen) inner) :
    matchesWith map f seen c = matchesWith map g seen c := by
  unfold matchesWith
  apply List.flatMap_congr
  intro hit found
  cases given : extended? c.members hit with
  | none => rfl
  | some chain =>
    simp only
    split
    · rfl
    · rename_i fresh
      congr 1
      apply List.flatMap_congr
      intro component inside
      cases component with
      | compound inner => exact same _ _ (.extension found given fresh inside)
      | combinator k => rfl

/-- Where calls end, what is computed by them is determined. -/
theorem eq_of_body {body : (List Nat → Compound → β) → List Nat → Compound → β}
    (calling : ∀ f g seen c, (∀ id inner, Calls map seen c id inner →
      f (id :: seen) inner = g (id :: seen) inner) → body f seen c = body g seen c)
    {f g : List Nat → Compound → β} (first : ∀ seen c, f seen c = body f seen c)
    (second : ∀ seen c, g seen c = body g seen c) : f = g := by
  funext seen c
  suffices general : ∀ call : List Nat × Compound, f call.1 call.2 = g call.1 call.2 from
    general (seen, c)
  intro call
  induction call using (below_wellFounded map).induction with
  | h call ih =>
    rw [first, second]
    exact calling f g _ _ fun id inner made => ih (id :: call.1, inner) ⟨id, rfl, made⟩

theorem compound_unseen (map : ExtendMap) (seen : List Nat) (c : Compound) :
    compound map (unseen map seen) c =
      extensionsWith map (fun seen => compound map (unseen map seen)) seen c := by
  rw [compound, extensionsWith]
  congr 1
  apply List.flatMap_congr
  intro hit found
  cases extended? c.members hit with
  | none => rfl
  | some chain =>
    have known := SubsetMap.mem_keyIds.mpr ⟨_, (SubsetMap.isPartOf_of_mem_get found).1, rfl⟩
    by_cases used : hit.keyId ∈ seen
    · simp [used, mem_unseen]
    · simp [used, mem_unseen, known, unseen_cons]

theorem matchedByCompound_unseen (map : ExtendMap) (seen : List Nat) (c : Compound) :
    matchedByCompound map (unseen map seen) c =
      matchesWith map (fun seen => matchedByCompound map (unseen map seen)) seen c := by
  rw [matchedByCompound, matchesWith]
  apply List.flatMap_congr
  intro hit found
  cases extended? c.members hit with
  | none => rfl
  | some chain =>
    have known := SubsetMap.mem_keyIds.mpr ⟨_, (SubsetMap.isPartOf_of_mem_get found).1, rfl⟩
    by_cases used : hit.keyId ∈ seen
    · simp [used, mem_unseen]
    · have usable : hit.keyId ∈ unseen map seen := mem_unseen.mpr ⟨known, used⟩
      simp only [unseen_cons]
      exact congrArg (hit.index :: ·) ((dif_pos usable).trans (if_neg used).symm)

@[simp] theorem unseen_nil (map : ExtendMap) : unseen map [] = map.keyIds := by
  simp [unseen]

end Body

/-- Extension ends, whatever the extensions are. There is no endless chain of calls, so that the
equations of the recursion have one solution, which is what selectors are extended by; and the
targets used on the way are all different, so that no chain of calls is longer than there are
different targets. -/
theorem extend_ends (inserts : List (List Simple × Chain)) :
    let map := SubsetMap.insertAll inserts
    WellFounded (Below map) ∧
    (∃ extended : List Nat → Compound → List Chain,
      (∀ f, (∀ seen c, f seen c = extensionsWith map f seen c) ↔ f = extended) ∧
      ∀ selector, Selector.extend map selector =
        distinct (selector.flatMap (chainWith (extended [])))) ∧
    (∃ matched : List Nat → Compound → List Nat,
      (∀ f, (∀ seen c, f seen c = matchesWith map f seen c) ↔ f = matched) ∧
      ∀ selector, Selector.matched map selector =
        distinct (selector.flatMap fun chain => chain.flatMap fun
          | .compound c => matched [] c
          | .combinator _ => [])) ∧
    ∀ c ids last, Nested map [] c ids last → ids.Nodup ∧
      ∀ targets : List (List Simple), (∀ insertion ∈ inserts, insertion.1 ≠ [] →
        ∃ t ∈ targets, SubsetMap.SameSet insertion.1 t) → ids.length ≤ targets.length := by
  intro map
  refine ⟨below_wellFounded map, ?_, ?_, ?_⟩
  · refine ⟨fun seen => compound map (unseen map seen), fun f => ⟨fun solves => ?_, ?_⟩, ?_⟩
    · exact eq_of_body (fun _ _ _ _ => extensionsWith_congr) solves (compound_unseen map)
    · rintro rfl seen c
      exact compound_unseen map seen c
    · intro selector
      simp only [Selector.extend, unseen_nil]
      rfl
  · refine ⟨fun seen => matchedByCompound map (unseen map seen),
      fun f => ⟨fun solves => ?_, ?_⟩, ?_⟩
    · exact eq_of_body (fun _ _ _ _ => matchesWith_congr) solves (matchedByCompound_unseen map)
    · rintro rfl seen c
      exact matchedByCompound_unseen map seen c
    · intro selector
      simp only [unseen_nil]
      rfl
  · intro c ids last nested
    obtain ⟨once, fresh⟩ := nested.nodup
    refine ⟨once, fun targets each => ?_⟩
    apply length_le_of_keyIds (SubsetMap.valid_insertAll inserts) once
      (fun id member => (mem_unseen.mp (fresh id member)).1)
    intro entry stored
    obtain ⟨insertion, asked, nonempty, same, _⟩ := SubsetMap.exists_insertion_of_mem stored
    obtain ⟨t, found, equal⟩ := each insertion asked nonempty
    exact ⟨t, found, same.trans equal⟩

/-- Two classes that extend each other: both are used in turn, and no third call follows. -/
theorem extend_ends_of_cycle :
    let a : Compound := .mk none [.className "a"]
    let b : Compound := .mk none [.className "b"]
    let map := SubsetMap.insertAll [(a.members, [.compound b]), (b.members, [.compound a])]
    Nested map [] a [0, 1] a ∧ ∀ ids last, Nested map [] a ids last → ids.length ≤ 2 := by
  intro a b map
  constructor
  · have valid : map.Valid := SubsetMap.valid_insertAll _
    have first : map.get a.members = [⟨0, 0, a.members, [.compound b]⟩] :=
      (valid.get_eq _).trans (by with_unfolding_all rfl)
    have second : map.get b.members = [⟨1, 1, b.members, [.compound a]⟩] :=
      (valid.get_eq _).trans (by with_unfolding_all rfl)
    have given : extended? a.members ⟨0, 0, a.members, [.compound b]⟩ = some [.compound b] := by
      with_unfolding_all rfl
    have given' : extended? b.members ⟨1, 1, b.members, [.compound a]⟩ = some [.compound a] := by
      with_unfolding_all rfl
    refine .deeper (.extension (by rw [first]; exact List.mem_singleton_self _) given (by simp)
      (List.mem_singleton_self _)) ?_
    exact .deeper (.extension (by rw [second]; exact List.mem_singleton_self _) given' (by simp)
      (List.mem_singleton_self _)) .here
  · intro ids last nested
    have bounded := ((extend_ends _).2.2.2 a ids last nested).2 [a.members, b.members]
    apply bounded
    intro insertion asked _
    have target : insertion.1 ∈ [a.members, b.members] := List.mem_map_of_mem asked
    exact ⟨insertion.1, target, .refl _⟩

end Extend

end Stylesheet
