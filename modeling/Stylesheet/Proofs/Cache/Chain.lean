import Mathlib.Data.List.FinRange
import Stylesheet.Proofs.Bindings
import Stylesheet.Proofs.Cache.Directory

/-! Chains of stores of any kind. A write that fails half way leaves the stores with different hashes
for one key, and a hit copies what may be an old entry over newer ones. Still a chain only gives back
what it was given, under the key and the hash that came with it. -/

namespace Stylesheet

/-- Stores of any kind, by name, on a state that they share. -/
structure StoreKind (ι σ : Type) where
  store : ι → CacheKey → String → ByteArray → StateM σ (Except FileError Unit)
  retrieve : ι → CacheKey → String → StateM σ (Option ByteArray)
  /-- What is reported when an entry cannot be copied. -/
  copyFailed : StateM σ Unit

namespace StoreKind

section Chains

variable {ι σ : Type} (kind : StoreKind ι σ)

/-- Put an entry into all stores of a chain, up to the first that fails. -/
def storeInAll (key : CacheKey) (hash : String) (bytes : ByteArray) :
    List ι → StateM σ (Except FileError Unit)
  | [] => return .ok ()
  | i :: rest => do
    match ← kind.store i key hash bytes with
    | .ok () => storeInAll key hash bytes rest
    | .error error => return .error error

def copyTo (key : CacheKey) (hash : String) (bytes : ByteArray) : List ι → StateM σ Unit
  | [] => return ()
  | i :: rest => do
    match ← kind.store i key hash bytes with
    | .ok () => pure ()
    | .error _ => kind.copyFailed
    copyTo key hash bytes rest

/-- Take an entry out of the first store of a chain that has it, and copy it to those before. -/
def retrieveFromFirst (key : CacheKey) (hash : String) (earlier : List ι) :
    List ι → StateM σ (Option ByteArray)
  | [] => return none
  | i :: rest => do
    match ← kind.retrieve i key hash with
    | some bytes =>
      kind.copyTo key hash bytes earlier
      return some bytes
    | none => retrieveFromFirst key hash (earlier ++ [i]) rest

end Chains

/-- One use of a chain. -/
inductive Call where
  | store (key : CacheKey) (hash : String) (bytes : ByteArray)
  | retrieve (key : CacheKey) (hash : String)

/-- The state after some calls of a chain, whatever they answer. -/
def afterCalls {ι σ : Type} (kind : StoreKind ι σ) (chain : List ι) : List Call → σ → σ
  | [], s => s
  | .store key hash bytes :: rest, s =>
    kind.afterCalls chain rest ((kind.storeInAll key hash bytes chain).run s).2
  | .retrieve key hash :: rest, s =>
    kind.afterCalls chain rest ((kind.retrieveFromFirst key hash [] chain).run s).2

end StoreKind

/-- What each store has under a key: bytes, and the hash that came with them. -/
abbrev Contents (ι : Type) := ι → CacheKey → Option (String × ByteArray)

namespace Contents

variable {ι : Type} {c d e : Contents ι} {i : ι} {key : CacheKey} {hash : String} {bytes : ByteArray}

def get (c : Contents ι) (i : ι) (key : CacheKey) (hash : String) : Option ByteArray :=
  match c i key with
  | some (stored, bytes) => if stored == hash then some bytes else none
  | none => none

def put [DecidableEq ι] (c : Contents ι) (i : ι) (key : CacheKey) (hash : String)
    (bytes : ByteArray) : Contents ι :=
  fun j other => if j = i ∧ other = key then some (hash, bytes) else c j other

theorem get_eq_some : c.get i key hash = some bytes ↔ c i key = some (hash, bytes) := by
  unfold get
  split
  · rename_i stored held isHeld
    simp only [isHeld, Option.ite_none_right_eq_some, beq_iff_eq, Option.some.injEq,
      Prod.mk.injEq]
  · rename_i isHeld
    simp [isHeld]

@[simp]
theorem put_self [DecidableEq ι] : c.put i key hash bytes i key = some (hash, bytes) :=
  if_pos ⟨rfl, rfl⟩

/-- Nothing changes but that some stores may now have this entry under its key. -/
def Changes (key : CacheKey) (hash : String) (bytes : ByteArray) (c d : Contents ι) : Prop :=
  ∀ i other, d i other = c i other ∨ other = key ∧ d i other = some (hash, bytes)

theorem Changes.refl : Changes key hash bytes c c :=
  fun _ _ => .inl rfl

theorem Changes.trans (first : Changes key hash bytes c d) (second : Changes key hash bytes d e) :
    Changes key hash bytes c e := by
  intro i other
  rcases second i other with same | changed
  · rw [same]
    exact first i other
  · exact .inr changed

theorem Changes.put [DecidableEq ι] : Changes key hash bytes c (c.put i key hash bytes) := by
  intro j other
  by_cases same : j = i ∧ other = key
  · exact .inr ⟨same.2, if_pos same⟩
  · exact .inl (if_neg same)

/-- A store that has the entry keeps it. -/
theorem Changes.keeps (changes : Changes key hash bytes c d) (held : c i key = some (hash, bytes)) :
    d i key = some (hash, bytes) := by
  rcases changes i key with same | ⟨-, changed⟩
  · rw [same, held]
  · exact changed

end Contents

namespace StoreKind

/-- Each store has at most one entry under a key. A write that fails changes nothing, and what is
retrieved is the entry with the right hash. `shows` tells what the stores have in a state. -/
structure HoldsMaps {ι σ : Type} [DecidableEq ι] (kind : StoreKind ι σ)
    (shows : σ → Contents ι → Prop) : Prop where
  store_ok {s t c i key hash bytes} : shows s c →
    (kind.store i key hash bytes).run s = (.ok (), t) → shows t (c.put i key hash bytes)
  store_error {s t c i key hash bytes error} : shows s c →
    (kind.store i key hash bytes).run s = (.error error, t) → shows t c
  retrieve {s t c i key hash found} : shows s c →
    (kind.retrieve i key hash).run s = (found, t) → found = c.get i key hash ∧ shows t c
  copyFailed {s c} : shows s c → shows (kind.copyFailed.run s).2 c

variable {ι σ : Type} {kind : StoreKind ι σ} {shows : σ → Contents ι → Prop} {s t : σ}
  {c : Contents ι} {key : CacheKey} {hash : String} {bytes : ByteArray}

section Runs

variable {i : ι} {rest : List ι}

theorem run_storeInAll_cons_ok (ok : (kind.store i key hash bytes).run s = (.ok (), t)) :
    (kind.storeInAll key hash bytes (i :: rest)).run s =
      (kind.storeInAll key hash bytes rest).run t := by
  rw [storeInAll, StateT.run_bind, ok]
  rfl

theorem run_storeInAll_cons_error {error : FileError}
    (failed : (kind.store i key hash bytes).run s = (.error error, t)) :
    (kind.storeInAll key hash bytes (i :: rest)).run s = (.error error, t) := by
  rw [storeInAll, StateT.run_bind, failed]
  rfl

theorem run_copyTo_cons_ok (ok : (kind.store i key hash bytes).run s = (.ok (), t)) :
    (kind.copyTo key hash bytes (i :: rest)).run s = (kind.copyTo key hash bytes rest).run t := by
  rw [copyTo, StateT.run_bind, ok]
  rfl

theorem run_copyTo_cons_error {error : FileError}
    (failed : (kind.store i key hash bytes).run s = (.error error, t)) :
    (kind.copyTo key hash bytes (i :: rest)).run s =
      (kind.copyTo key hash bytes rest).run (kind.copyFailed.run t).2 := by
  rw [copyTo, StateT.run_bind, failed]
  rfl

theorem run_retrieveFromFirst_cons_some {earlier : List ι}
    (hit : (kind.retrieve i key hash).run s = (some bytes, t)) :
    (kind.retrieveFromFirst key hash earlier (i :: rest)).run s =
      (some bytes, ((kind.copyTo key hash bytes earlier).run t).2) := by
  rw [retrieveFromFirst, StateT.run_bind, hit]
  rfl

theorem run_retrieveFromFirst_cons_none {earlier : List ι}
    (miss : (kind.retrieve i key hash).run s = (none, t)) :
    (kind.retrieveFromFirst key hash earlier (i :: rest)).run s =
      (kind.retrieveFromFirst key hash (earlier ++ [i]) rest).run t := by
  rw [retrieveFromFirst, StateT.run_bind, miss]
  rfl

theorem run_copyTo_append (front behind : List ι) :
    (kind.copyTo key hash bytes (front ++ behind)).run s =
      (kind.copyTo key hash bytes behind).run ((kind.copyTo key hash bytes front).run s).2 := by
  induction front generalizing s with
  | nil => rfl
  | cons i front ih =>
    rw [List.cons_append]
    cases stored : (kind.store i key hash bytes).run s with
    | mk answer t =>
      cases answer with
      | ok => rw [run_copyTo_cons_ok stored, run_copyTo_cons_ok stored, ih]
      | error => rw [run_copyTo_cons_error stored, run_copyTo_cons_error stored, ih]

/-- The stores that a search has passed without a hit are those that a hit is copied to. -/
theorem run_retrieveFromFirst_append {before : List ι} {earlier : List ι}
    (missed : (kind.retrieveFromFirst key hash earlier before).run s = (none, t)) :
    (kind.retrieveFromFirst key hash earlier (before ++ rest)).run s =
      (kind.retrieveFromFirst key hash (earlier ++ before) rest).run t := by
  induction before generalizing s earlier with
  | nil =>
    cases missed
    rw [List.append_nil, List.nil_append]
  | cons i before ih =>
    rw [List.cons_append]
    cases asked : (kind.retrieve i key hash).run s with
    | mk found u =>
      cases found with
      | some bytes =>
        rw [run_retrieveFromFirst_cons_some asked] at missed
        cases missed
      | none =>
        rw [run_retrieveFromFirst_cons_none asked] at missed ⊢
        rw [ih missed, List.append_assoc, List.singleton_append]

end Runs

variable [DecidableEq ι]

namespace HoldsMaps

variable (maps : kind.HoldsMaps shows)
include maps

theorem run_retrieve (start : shows s c) (i : ι) (key : CacheKey) (hash : String) :
    ((kind.retrieve i key hash).run s).1 = c.get i key hash :=
  (maps.retrieve start rfl).1

theorem storeInAll (chain : List ι) (start : shows s c) {answer : Except FileError Unit}
    (ran : (kind.storeInAll key hash bytes chain).run s = (answer, t)) :
    ∃ d, shows t d ∧ c.Changes key hash bytes d ∧
      (answer = .ok () → ∀ i ∈ chain, d i key = some (hash, bytes)) := by
  induction chain generalizing s c with
  | nil =>
    cases ran
    exact ⟨c, start, .refl, fun _ => List.forall_mem_nil _⟩
  | cons i rest ih =>
    cases stored : (kind.store i key hash bytes).run s with
    | mk first u =>
      cases first with
      | ok =>
        rw [run_storeInAll_cons_ok stored] at ran
        obtain ⟨d, after, changes, all⟩ := ih (maps.store_ok start stored) ran
        refine ⟨d, after, Contents.Changes.put.trans changes, fun ok => ?_⟩
        exact List.forall_mem_cons.mpr ⟨changes.keeps Contents.put_self, all ok⟩
      | error =>
        rw [run_storeInAll_cons_error stored] at ran
        cases ran
        exact ⟨c, maps.store_error start stored, .refl, nofun⟩

theorem copyTo (key : CacheKey) (hash : String) (bytes : ByteArray) (names : List ι)
    (start : shows s c) :
    ∃ d, shows ((kind.copyTo key hash bytes names).run s).2 d ∧ c.Changes key hash bytes d := by
  induction names generalizing s c with
  | nil => exact ⟨c, start, .refl⟩
  | cons i rest ih =>
    cases stored : (kind.store i key hash bytes).run s with
    | mk answer u =>
      cases answer with
      | ok =>
        rw [run_copyTo_cons_ok stored]
        obtain ⟨d, after, changes⟩ := ih (maps.store_ok start stored)
        exact ⟨d, after, Contents.Changes.put.trans changes⟩
      | error =>
        rw [run_copyTo_cons_error stored]
        exact ih (maps.copyFailed (maps.store_error start stored))

/-- What is found comes from one of the stores, and nothing changes where nothing is found. -/
theorem retrieveFromFirst (earlier chain : List ι) (start : shows s c) {found : Option ByteArray}
    (ran : (kind.retrieveFromFirst key hash earlier chain).run s = (found, t)) :
    (found = none ∧ shows t c ∧ ∀ i ∈ chain, c.get i key hash = none) ∨
      ∃ bytes d, found = some bytes ∧ (∃ i ∈ chain, c i key = some (hash, bytes)) ∧ shows t d ∧
        c.Changes key hash bytes d := by
  induction chain generalizing s earlier with
  | nil =>
    cases ran
    exact .inl ⟨rfl, start, List.forall_mem_nil _⟩
  | cons i rest ih =>
    cases asked : (kind.retrieve i key hash).run s with
    | mk first u =>
      obtain ⟨isHeld, between⟩ := maps.retrieve start asked
      cases first with
      | some bytes =>
        rw [run_retrieveFromFirst_cons_some asked] at ran
        cases ran
        obtain ⟨d, after, changes⟩ := maps.copyTo key hash bytes earlier between
        exact .inr ⟨bytes, d, rfl, ⟨i, List.mem_cons_self, Contents.get_eq_some.mp isHeld.symm⟩, after,
          changes⟩
      | none =>
        rw [run_retrieveFromFirst_cons_none asked] at ran
        rcases ih _ between ran with ⟨rfl, after, none⟩ | ⟨bytes, d, rfl, ⟨j, member, held⟩, rest⟩
        · exact .inl ⟨rfl, after, List.forall_mem_cons.mpr ⟨isHeld.symm, none⟩⟩
        · exact .inr ⟨bytes, d, rfl, ⟨j, List.mem_cons_of_mem i member, held⟩, rest⟩

/-- Every entry was there in the beginning or was given to a call. -/
theorem afterCalls_origin (chain : List ι) (calls : List Call) (start : shows s c) :
    ∃ d, shows (kind.afterCalls chain calls s) d ∧ ∀ i ∈ chain, ∀ key hash bytes,
      d i key = some (hash, bytes) →
      (∃ j ∈ chain, c j key = some (hash, bytes)) ∨ Call.store key hash bytes ∈ calls := by
  induction calls generalizing s c with
  | nil => exact ⟨c, start, fun i member key hash bytes held => .inl ⟨i, member, held⟩⟩
  | cons call rest ih =>
    -- What one call leaves behind has the same origin.
    have step : ∃ e u, kind.afterCalls chain (call :: rest) s = kind.afterCalls chain rest u ∧
        shows u e ∧ ∀ i ∈ chain, ∀ key hash bytes, e i key = some (hash, bytes) →
          (∃ j ∈ chain, c j key = some (hash, bytes)) ∨ call = .store key hash bytes := by
      cases call with
      | store key hash bytes =>
        obtain ⟨e, between, changes, -⟩ := maps.storeInAll chain start rfl
        refine ⟨e, _, rfl, between, fun i member other stored held isHeld => ?_⟩
        rcases changes i other with same | ⟨rfl, changed⟩
        · exact .inl ⟨i, member, same.symm.trans isHeld⟩
        · cases changed.symm.trans isHeld
          exact .inr rfl
      | retrieve key hash =>
        rcases maps.retrieveFromFirst [] chain start rfl with
          ⟨-, between, -⟩ | ⟨bytes, e, -, ⟨j, isMember, origin⟩, between, changes⟩
        · exact ⟨c, _, rfl, between, fun i member other stored held isHeld =>
            .inl ⟨i, member, isHeld⟩⟩
        · refine ⟨e, _, rfl, between, fun i member other stored held isHeld => .inl ?_⟩
          rcases changes i other with same | ⟨rfl, changed⟩
          · exact ⟨i, member, same.symm.trans isHeld⟩
          · cases changed.symm.trans isHeld
            exact ⟨j, isMember, origin⟩
    obtain ⟨e, u, same, between, origin⟩ := step
    obtain ⟨d, after, origins⟩ := ih between
    rw [same]
    refine ⟨d, after, fun i member key hash bytes held => ?_⟩
    rcases origins i member key hash bytes held with ⟨j, isMember, earlier⟩ | given
    · rcases origin j isMember key hash bytes earlier with old | rfl
      · exact .inl old
      · exact .inr List.mem_cons_self
    · exact .inr (List.mem_cons_of_mem call given)

/-- A hit is copied to an earlier store, and later copies leave it there. -/
theorem get_of_copied {front behind : List ι} {i : ι} (start : shows s c)
    (copied : ((kind.store i key hash bytes).run ((kind.copyTo key hash bytes front).run s).2).1 =
      .ok ()) :
    ((kind.retrieve i key hash).run
      ((kind.copyTo key hash bytes (front ++ i :: behind)).run s).2).1 = some bytes := by
  obtain ⟨d, between, -⟩ := maps.copyTo key hash bytes front start
  rw [run_copyTo_append]
  cases stored : (kind.store i key hash bytes).run ((kind.copyTo key hash bytes front).run s).2 with
  | mk answer u =>
    rw [stored] at copied
    cases copied
    rw [run_copyTo_cons_ok stored]
    obtain ⟨e, after, changes⟩ :=
      maps.copyTo key hash bytes behind (maps.store_ok between stored)
    rw [maps.run_retrieve after]
    exact Contents.get_eq_some.mpr (changes.keeps Contents.put_self)

/-- As long as nothing else is stored under the key, all stores of the chain keep the entry. -/
theorem afterCalls_keeps {chain : List ι} (calls : List Call) (start : shows s c)
    (held : ∀ i ∈ chain, c i key = some (hash, bytes))
    (others : ∀ other stored there, Call.store other stored there ∈ calls → other ≠ key) :
    ∃ d, shows (kind.afterCalls chain calls s) d ∧ ∀ i ∈ chain, d i key = some (hash, bytes) := by
  induction calls generalizing s c with
  | nil => exact ⟨c, start, held⟩
  | cons call rest ih =>
    have later : ∀ other stored there, Call.store other stored there ∈ rest → other ≠ key :=
      fun other stored there given => others other stored there (List.mem_cons_of_mem call given)
    cases call with
    | store other stored there =>
      have differs : other ≠ key := others other stored there List.mem_cons_self
      obtain ⟨e, between, changes, -⟩ := maps.storeInAll chain start rfl
      refine ih between (fun i member => ?_) later
      rcases changes i key with same | ⟨same, -⟩
      · rw [same, held i member]
      · exact absurd same.symm differs
    | retrieve other stored =>
      rcases maps.retrieveFromFirst [] chain start rfl with
        ⟨-, between, -⟩ | ⟨there, e, -, ⟨j, isMember, origin⟩, between, changes⟩
      · exact ih between held later
      · refine ih between (fun i member => ?_) later
        rcases changes i key with same | ⟨rfl, changed⟩
        · rw [same, held i member]
        · -- What is copied is the entry itself.
          rw [changed, ← origin, held j isMember]

end HoldsMaps

end StoreKind

namespace Workspace

variable {key : CacheKey} {hash : String} {bytes : ByteArray} {n : Nat}

/-- The first stores of a workspace. -/
def storeKind (n : Nat) : StoreKind (Fin n) Workspace where
  store i := storeIn i
  retrieve i := retrieveFrom i
  copyFailed := logEntries [LogEntry.warning "could not copy cache entry"]

theorem storeInAll_eq (chain : List (Fin n)) :
    storeInAll key hash bytes (chain.map (·.1)) = (storeKind n).storeInAll key hash bytes chain := by
  induction chain with
  | nil => rfl
  | cons i rest ih =>
    rw [List.map_cons, storeInAll, StoreKind.storeInAll, ih]
    rfl

theorem copyTo_eq (names : List (Fin n)) :
    copyTo key hash bytes (names.map (·.1)) = (storeKind n).copyTo key hash bytes names := by
  induction names with
  | nil => rfl
  | cons i rest ih =>
    rw [List.map_cons, copyTo, StoreKind.copyTo, ih]
    rfl

theorem retrieveFromFirst_eq (earlier chain : List (Fin n)) :
    retrieveFromFirst key hash (earlier.map (·.1)) (chain.map (·.1)) =
      (storeKind n).retrieveFromFirst key hash earlier chain := by
  induction chain generalizing earlier with
  | nil => rfl
  | cons i rest ih =>
    rw [List.map_cons, retrieveFromFirst, StoreKind.retrieveFromFirst]
    refine bind_congr fun found => ?_
    cases found with
    | none => rw [← ih, List.map_append, List.map_singleton]
    | some bytes =>
      dsimp only
      rw [copyTo_eq]

/-- The stores of a workspace are a chain of stores. -/
theorem run_store_eq (workspace : Workspace) :
    (store key hash bytes).run workspace = ((storeKind workspace.stores.length).storeInAll key hash
      bytes (List.finRange workspace.stores.length)).run workspace := by
  rw [← storeInAll_eq, List.map_coe_finRange_eq_range]
  rfl

theorem run_retrieve_eq (workspace : Workspace) :
    (retrieve key hash).run workspace = ((storeKind workspace.stores.length).retrieveFromFirst key
      hash [] (List.finRange workspace.stores.length)).run workspace := by
  rw [← retrieveFromFirst_eq, List.map_coe_finRange_eq_range]
  rfl

/-- What the stores of a workspace have, each of them in memory, or in a directory that cannot be
used because it is a file. -/
structure Serves (broken : Fin n → Bool) (workspace : Workspace) (contents : Contents (Fin n)) :
    Prop where
  memory : ∀ i, broken i = false → ∃ entries, workspace.stores[i.1]? = some (.memory entries) ∧
    ∀ key, contents i key = entries.find? key
  broken : ∀ i, broken i = true → (∃ path names, workspace.stores[i.1]? = some (.directory path) ∧
    workspace.files.target path = some names ∧ workspace.files.HasFile names) ∧
    ∀ key, contents i key = none

section Serving

variable {workspace : Workspace} {index : Nat}

theorem run_storeIn_memory {entries : Bindings CacheKey (String × ByteArray)}
    (found : workspace.stores[index]? = some (.memory entries)) :
    (storeIn index key hash bytes).run workspace = (.ok (), { workspace with
      stores := workspace.stores.set index (.memory (entries.insert key (hash, bytes)))
      accesses := workspace.accesses ++ [.stored index key hash bytes true] }) := by
  unfold storeIn
  simp only [StateT.run_bind, StateT.run_get, pure_bind, found]
  rfl

theorem run_storeIn_error {store : Store} {error : FileError}
    (found : workspace.stores[index]? = some store)
    (failed : store.put workspace.files workspace.now key hash bytes = .error error) :
    (storeIn index key hash bytes).run workspace = (.error error, { workspace with
      accesses := workspace.accesses ++ [.stored index key hash bytes false] }) := by
  unfold storeIn
  simp only [StateT.run_bind, StateT.run_get, pure_bind, found, failed]
  rfl

theorem run_retrieveFrom {store : Store} (found : workspace.stores[index]? = some store) :
    (retrieveFrom index key hash).run workspace =
      ((store.get workspace.files key hash).1, { workspace with
        log := workspace.log ++ (store.get workspace.files key hash).2
        accesses := workspace.accesses ++
          [.retrieved index key hash (store.get workspace.files key hash).1.isSome] }) := by
  unfold retrieveFrom
  simp only [StateT.run_bind, StateT.run_get, pure_bind, found]
  rfl

variable {broken : Fin n → Bool} {contents : Contents (Fin n)} {i : Fin n}

/-- A store in memory takes every entry. -/
theorem Serves.store_memory (serves : Serves broken workspace contents) (works : broken i = false)
    (key : CacheKey) (hash : String) (bytes : ByteArray) :
    ∃ later, ((storeKind n).store i key hash bytes).run workspace = (.ok (), later) ∧
      Serves broken later (contents.put i key hash bytes) := by
  obtain ⟨entries, found, has⟩ := serves.memory i works
  refine ⟨_, run_storeIn_memory found, fun j worksToo => ?_, fun j isBroken => ?_⟩
  · by_cases same : j = i
    · subst same
      have inside : j.1 < workspace.stores.length := (List.getElem?_eq_some_iff.mp found).1
      refine ⟨_, List.getElem?_set_self inside, fun other => ?_⟩
      by_cases sameKey : other = key
      · subst sameKey
        rw [Contents.put_self, Bindings.find?_insert_self]
      · rw [Bindings.find?_insert_of_ne sameKey, ← has other]
        exact if_neg fun both => sameKey both.2
    · obtain ⟨others, isFound, hasOthers⟩ := serves.memory j worksToo
      refine ⟨others, ?_, fun other => (if_neg fun both => same both.1).trans (hasOthers other)⟩
      rw [List.getElem?_set_ne (fun same' => same (Fin.ext same'.symm)), isFound]
  · have differs : j ≠ i := by
      rintro rfl
      cases works.symm.trans isBroken
    obtain ⟨⟨path, names, isFound, below⟩, empty⟩ := serves.broken j isBroken
    refine ⟨⟨path, names, ?_, below⟩, fun other =>
      (if_neg fun both => differs both.1).trans (empty other)⟩
    rw [List.getElem?_set_ne (fun same => differs (Fin.ext same.symm)), isFound]

/-- A directory that is a file takes none. -/
theorem Serves.store_broken (serves : Serves broken workspace contents) (isBroken : broken i = true)
    (key : CacheKey) (hash : String) (bytes : ByteArray) :
    ∃ error later, ((storeKind n).store i key hash bytes).run workspace = (.error error, later) ∧
      Serves broken later contents := by
  obtain ⟨⟨path, names, found, leads, isFile⟩, -⟩ := serves.broken i isBroken
  obtain ⟨error, failed⟩ := Store.put_below leads isFile workspace.now key hash bytes
  exact ⟨error, _, run_storeIn_error found failed, serves.memory, serves.broken⟩

theorem Serves.retrieve (serves : Serves broken workspace contents) (i : Fin n) (key : CacheKey)
    (hash : String) :
    ∃ later, ((storeKind n).retrieve i key hash).run workspace = (contents.get i key hash, later) ∧
      Serves broken later contents := by
  cases isBroken : broken i with
  | false =>
    obtain ⟨entries, found, has⟩ := serves.memory i isBroken
    have same : (Store.get workspace.files (.memory entries) key hash).1 = contents.get i key hash := by
      unfold Store.get Contents.get
      rw [has key]
      dsimp only
      cases entries.find? key <;> rfl
    refine ⟨_, (run_retrieveFrom found).trans (Prod.ext same rfl), serves.memory, serves.broken⟩
  | true =>
    obtain ⟨⟨path, names, found, leads, isFile⟩, empty⟩ := serves.broken i isBroken
    have same : (Store.get workspace.files (.directory path) key hash).1 =
        contents.get i key hash := by
      rw [Store.get_below leads isFile, Contents.get, empty key]
    refine ⟨_, (run_retrieveFrom found).trans (Prod.ext same rfl), serves.memory, serves.broken⟩

theorem serves_holdsMaps (broken : Fin n → Bool) : (storeKind n).HoldsMaps (Serves broken) where
  store_ok {s t c i key hash bytes} serves ran := by
    cases isBroken : broken i with
    | false =>
      obtain ⟨later, stored, after⟩ := serves.store_memory isBroken key hash bytes
      cases stored.symm.trans ran
      exact after
    | true =>
      obtain ⟨error, later, failed, -⟩ := serves.store_broken isBroken key hash bytes
      cases failed.symm.trans ran
  store_error {s t c i key hash bytes error} serves ran := by
    cases isBroken : broken i with
    | false =>
      obtain ⟨later, stored, -⟩ := serves.store_memory isBroken key hash bytes
      cases stored.symm.trans ran
    | true =>
      obtain ⟨error, later, failed, after⟩ := serves.store_broken isBroken key hash bytes
      cases failed.symm.trans ran
      exact after
  retrieve {s t c i key hash found} serves ran := by
    obtain ⟨later, asked, after⟩ := serves.retrieve i key hash
    cases asked.symm.trans ran
    exact ⟨rfl, after⟩
  copyFailed serves := ⟨serves.memory, serves.broken⟩

end Serving

end Workspace

namespace StoreKind

/-- Chains do not mix entries, whatever writes fail. -/
theorem chain_keeps_entries {ι σ : Type} [DecidableEq ι] {kind : StoreKind ι σ}
    {shows : σ → Contents ι → Prop} (maps : kind.HoldsMaps shows) {s : σ} {c : Contents ι}
    (start : shows s c) {chain : List ι} (nonempty : chain ≠ []) (calls : List Call) :
    let now := kind.afterCalls chain calls s
    (∀ key hash bytes, ((kind.retrieveFromFirst key hash [] chain).run now).1 = some bytes →
      (∃ i ∈ chain, c i key = some (hash, bytes)) ∨ Call.store key hash bytes ∈ calls) ∧
    (∀ key hash bytes before hit after missed found, chain = before ++ hit :: after →
      (kind.retrieveFromFirst key hash [] before).run now = (none, missed) →
      (kind.retrieve hit key hash).run missed = (some bytes, found) →
      ∃ final, (kind.retrieveFromFirst key hash [] chain).run now = (some bytes, final) ∧
        ∀ front i behind, before = front ++ i :: behind →
          ((kind.store i key hash bytes).run ((kind.copyTo key hash bytes front).run found).2).1 =
            .ok () →
          ((kind.retrieve i key hash).run final).1 = some bytes) ∧
    ∀ key hash bytes later, ((kind.storeInAll key hash bytes chain).run now).1 = .ok () →
      (∀ other stored there, Call.store other stored there ∈ later → other ≠ key) →
      ((kind.retrieveFromFirst key hash [] chain).run
        (kind.afterCalls chain (.store key hash bytes :: later) now)).1 = some bytes := by
  intro now
  obtain ⟨d, shown, origins⟩ := maps.afterCalls_origin chain calls start
  refine ⟨fun key hash bytes isFound => ?_, ?_, fun key hash bytes later ok others => ?_⟩
  · rcases maps.retrieveFromFirst [] chain shown rfl with
      ⟨none, -⟩ | ⟨there, -, found, ⟨i, member, held⟩, -⟩
    · cases none.symm.trans isFound
    · cases found.symm.trans isFound
      exact origins i member key hash bytes held
  · rintro key hash bytes before hit after missed found rfl isMissed isHit
    have isShown : shows found d := by
      rcases maps.retrieveFromFirst [] before shown isMissed with ⟨-, there, -⟩ | ⟨_, _, none, -⟩
      · exact (maps.retrieve there isHit).2
      · cases none
    refine ⟨_, (run_retrieveFromFirst_append isMissed).trans
      (run_retrieveFromFirst_cons_some isHit), ?_⟩
    rintro front i behind rfl copied
    exact maps.get_of_copied isShown copied
  · obtain ⟨e, stored, -, all⟩ := maps.storeInAll chain shown rfl
    obtain ⟨f, final, held⟩ := maps.afterCalls_keeps later stored (all ok) others
    rcases maps.retrieveFromFirst [] chain final rfl with
      ⟨-, -, none⟩ | ⟨there, -, found, ⟨i, member, isHeld⟩, -⟩
    · obtain ⟨i, member⟩ := List.exists_mem_of_ne_nil chain nonempty
      cases (none i member).symm.trans (Contents.get_eq_some.mpr (held i member))
    · cases (held i member).symm.trans isHeld
      exact found

/-- A directory that is a file, an empty store, and one with an entry. -/
def mixedStores : Workspace where
  files := ⟨[(["cache"], .file .empty 0)], []⟩
  stores := [.directory "cache", .memory [], .memory [(("n", "x"), ("h", "a".toUTF8))]]
  accesses := []
  log := []
  now := 0

def mixedContents : Contents (Fin 3) :=
  fun i key => if i = 2 ∧ key = ("n", "x") then some ("h", "a".toUTF8) else none

theorem serves_mixed : Workspace.Serves (· == (0 : Fin 3)) mixedStores mixedContents := by
  refine ⟨fun i works => ?_, fun i isBroken => ?_⟩
  · rcases i with ⟨_ | _ | _ | i, bound⟩
    · cases works
    · exact ⟨_, rfl, fun key => rfl⟩
    · refine ⟨_, rfl, fun key => ?_⟩
      by_cases same : key = ("n", "x")
      · subst same
        rfl
      · have differs : (key == ("n", "x")) = false := beq_eq_false_iff_ne.mpr same
        simp [mixedContents, same, Bindings.find?, List.lookup_cons, differs]
    · omega
  · obtain rfl : i = 0 := eq_of_beq isBroken
    exact ⟨⟨"cache", ["cache"], rfl, by decide +kernel, _, _, rfl⟩, fun key => rfl⟩

theorem chain_keeps_entries_of_mixed :
    let kind := Workspace.storeKind 3
    (∃ final, (kind.retrieveFromFirst ("n", "x") "h" [] [0, 1, 2]).run mixedStores =
        (some "a".toUTF8, final) ∧
      ((kind.retrieve 1 ("n", "x") "h").run final).1 = some "a".toUTF8) ∧
    ((kind.retrieveFromFirst ("n", "x") "g" [] [1, 2]).run (kind.afterCalls [1, 2]
      [.store ("n", "x") "g" "b".toUTF8, .retrieve ("n", "x") "h"] mixedStores)).1 =
        some "b".toUTF8 := by
  intro kind
  have maps : kind.HoldsMaps (Workspace.Serves (· == (0 : Fin 3))) :=
    Workspace.serves_holdsMaps _
  refine ⟨?_, ?_⟩
  · have passed : ∃ missed, Workspace.Serves (· == (0 : Fin 3)) missed mixedContents ∧
        (kind.retrieveFromFirst ("n", "x") "h" [] [0, 1]).run mixedStores = (none, missed) := by
      cases ran : (kind.retrieveFromFirst ("n", "x") "h" [] [0, 1]).run mixedStores with
      | mk found missed =>
        rcases maps.retrieveFromFirst [] [0, 1] serves_mixed ran with
          ⟨rfl, serves, -⟩ | ⟨bytes, -, -, ⟨i, member, held⟩, -⟩
        · exact ⟨missed, serves, rfl⟩
        · have first : i ≠ 2 := by
            rintro rfl
            revert member
            decide
          simp [mixedContents, first] at held
    obtain ⟨missed, serves, isMissed⟩ := passed
    obtain ⟨found, isHit, served⟩ := Workspace.Serves.retrieve serves 2 ("n", "x") "h"
    obtain ⟨final, isFound, copied⟩ :=
      (chain_keeps_entries maps serves_mixed (List.cons_ne_nil 0 [1, 2]) []).2.1
        ("n", "x") "h" "a".toUTF8 [0, 1] 2 [] missed found rfl isMissed isHit
    refine ⟨final, isFound, copied [0] 1 [] rfl ?_⟩
    obtain ⟨d, between, -⟩ := maps.copyTo ("n", "x") "h" "a".toUTF8 [0] served
    have works : ((1 : Fin 3) == 0) = false := by decide
    obtain ⟨later, stored, -⟩ := between.store_memory works ("n", "x") "h" "a".toUTF8
    exact congrArg Prod.fst stored
  · refine (chain_keeps_entries maps serves_mixed (List.cons_ne_nil 1 [2]) []).2.2
      ("n", "x") "g" "b".toUTF8 [.retrieve ("n", "x") "h"] rfl ?_
    intro other stored there given
    simp at given

end StoreKind

end Stylesheet
