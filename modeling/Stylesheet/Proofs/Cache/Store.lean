import Stylesheet.Cache.Store
import Stylesheet.Proofs.Bindings

/-! What stores in memory hold. Whatever is put into them under a hash is given back under that
hash, and nothing else is, however often entries replace each other and are copied. -/

namespace Stylesheet.Workspace

/-- Work that keeps an invariant and gives a result with a property. -/
def Maintains (inv : Workspace → Prop) (action : Working α) (post : α → Prop) : Prop :=
  ∀ workspace, inv workspace →
    inv (action.run workspace).2 ∧ post (action.run workspace).1

section Rules

variable {inv : Workspace → Prop} {between : α → Prop} {post : β → Prop}

theorem Maintains.pure {b : β} (holds : post b) : Maintains inv (pure b) post :=
  fun _ before => ⟨before, holds⟩

theorem Maintains.bind {first : Working α} {next : α → Working β}
    (start : Maintains inv first between)
    (behind : ∀ a, between a → Maintains inv (next a) post) :
    Maintains inv (first >>= next) post := by
  intro workspace before
  obtain ⟨middle, holds⟩ := start workspace before
  exact behind _ holds _ middle

theorem Maintains.weaken {action : Working β} {weaker : β → Prop}
    (maintains : Maintains inv action post) (implies : ∀ b, post b → weaker b) :
    Maintains inv action weaker := by
  intro workspace before
  obtain ⟨after, holds⟩ := maintains workspace before
  exact ⟨after, implies _ holds⟩

theorem Maintains.get {next : Workspace → Working β}
    (behind : ∀ workspace, inv workspace → Maintains inv (next workspace) post) :
    Maintains inv (get >>= next) post :=
  fun workspace before => behind workspace before workspace before

end Rules

/-- The files are these, and all stores are in memory and have only valid entries. -/
structure Holds (files : FileTree) (valid : String → ByteArray → Prop) (workspace : Workspace) :
    Prop where
  files : workspace.files = files
  stores : ∀ store ∈ workspace.stores, ∃ entries, store = .memory entries ∧
    ∀ key hash bytes, entries.find? key = some (hash, bytes) → valid hash bytes

section Holds

variable {files : FileTree} {valid : String → ByteArray → Prop} {key : CacheKey} {hash : String}
  {bytes : ByteArray}

theorem Maintains.logEntries {entries : Log} :
    Maintains (Holds files valid) (logEntries entries) fun _ => True :=
  fun _ before => ⟨⟨before.files, before.stores⟩, trivial⟩

theorem Maintains.note {access : CacheAccess} :
    Maintains (Holds files valid) (note access) fun _ => True :=
  fun _ before => ⟨⟨before.files, before.stores⟩, trivial⟩

/-- A valid entry can be put into any store. -/
theorem Maintains.storeIn {index : Nat} (isValid : valid hash bytes) :
    Maintains (Holds files valid) (storeIn index key hash bytes) (· = .ok ()) := by
  refine .get fun workspace holds => ?_
  cases found : workspace.stores[index]? with
  | none => exact .pure rfl
  | some store =>
    obtain ⟨entries, rfl, valids⟩ := holds.stores store (List.mem_of_getElem? found)
    have changed : Holds files valid { workspace with
        stores := workspace.stores.set index (.memory (entries.insert key (hash, bytes))) } := by
      refine ⟨holds.files, fun store member => ?_⟩
      rcases List.mem_or_eq_of_mem_set member with old | rfl
      · exact holds.stores store old
      · refine ⟨_, rfl, fun other found there isFound => ?_⟩
        rcases Bindings.find?_insert_some isFound with ⟨_, same⟩ | old
        · cases same
          exact isValid
        · exact valids other found there old
    intro before _
    exact (Maintains.note.bind fun _ _ => .pure rfl) _ changed

/-- What is taken out of a store is valid. -/
theorem Maintains.retrieveFrom {index : Nat} :
    Maintains (Holds files valid) (retrieveFrom index key hash)
      fun found => ∀ bytes, found = some bytes → valid hash bytes := by
  refine .get fun workspace holds => ?_
  cases found : workspace.stores[index]? with
  | none => exact .pure nofun
  | some store =>
    obtain ⟨entries, rfl, valids⟩ := holds.stores store (List.mem_of_getElem? found)
    have given : ∀ bytes, ((Store.memory entries).get workspace.files key hash).1 = some bytes →
        valid hash bytes := by
      intro bytes isGiven
      unfold Store.get at isGiven
      dsimp only at isGiven
      split at isGiven
      · rename_i stored there isFound
        split at isGiven
        · rename_i same
          cases isGiven
          exact eq_of_beq same ▸ valids key stored bytes isFound
        · cases isGiven
      · cases isGiven
    exact Maintains.logEntries.bind fun _ _ => Maintains.note.bind fun _ _ => .pure given

theorem Maintains.storeInAll (isValid : valid hash bytes) (indices : List Nat) :
    Maintains (Holds files valid) (storeInAll key hash bytes indices) (· = .ok ()) := by
  induction indices with
  | nil => exact .pure rfl
  | cons index rest ih =>
    refine (Maintains.storeIn isValid).bind ?_
    rintro _ rfl
    exact ih

theorem Maintains.copyTo (isValid : valid hash bytes) (indices : List Nat) :
    Maintains (Holds files valid) (copyTo key hash bytes indices) fun _ => True := by
  induction indices with
  | nil => exact .pure trivial
  | cons index rest ih =>
    refine (Maintains.storeIn isValid).bind ?_
    rintro _ rfl
    exact ih

theorem Maintains.retrieveFromFirst (earlier indices : List Nat) :
    Maintains (Holds files valid) (retrieveFromFirst key hash earlier indices)
      fun found => ∀ bytes, found = some bytes → valid hash bytes := by
  induction indices generalizing earlier with
  | nil => exact .pure nofun
  | cons index rest ih =>
    refine Maintains.retrieveFrom.bind fun found given => ?_
    cases found with
    | none => exact ih (earlier ++ [index])
    | some bytes => exact (Maintains.copyTo (given bytes rfl) earlier).bind fun _ _ => .pure given

theorem Maintains.store (isValid : valid hash bytes) :
    Maintains (Holds files valid) (store key hash bytes) (· = .ok ()) :=
  .get fun _ _ => .storeInAll isValid _

theorem Maintains.retrieve :
    Maintains (Holds files valid) (retrieve key hash)
      fun found => ∀ bytes, found = some bytes → valid hash bytes :=
  .get fun _ _ => .retrieveFromFirst [] _

end Holds

end Stylesheet.Workspace
