import Stylesheet.Files.Tree
import Stylesheet.Proofs.Bindings

/-! What is read after something was put into a file. Directories are only added, and whether a path
leads anywhere depends on the directories alone, so that other files are read as before. -/

namespace Stylesheet.FileTree

/-- Where a name leads from a directory. -/
def advance (place : List String) (name : String) : Option (List String) :=
  if name == "." then some place
  else if name == ".." then some place.dropLast
  else if name.utf8ByteSize > nameLimit then none
  else some (place ++ [name])

/-- The names that a path leads to, with directories on the way. -/
def target (tree : FileTree) (path : String) : Option (List String) :=
  (Path.components path).foldlM advance (tree.start path)

variable {tree later last : FileTree} {path other : String} {names : List String} {now : Nat}
  {contents found : ByteArray}

section Following

variable {place final : List String}

theorem follow_cons {name : String} {rest : List String} :
    tree.follow place (name :: rest) = .ok final ↔ ∃ time next,
      tree.entryAt place = some (.directory time) ∧ advance place name = some next ∧
        tree.follow next rest = .ok final := by
  unfold advance
  rw [follow]
  split
  · rename_i missing
    simp [missing]
  · rename_i isFile
    simp [isFile]
  · rename_i time isDirectory
    rw [isDirectory]
    split
    · simp
    · split
      · simp
      · split <;> simp

theorem follow_append {rest : List String} (followed : tree.follow place (names ++ rest) = .ok final) :
    ∃ between, names.foldlM advance place = some between ∧ tree.follow between rest = .ok final := by
  induction names generalizing place with
  | nil => exact ⟨place, rfl, followed⟩
  | cons name names ih =>
    obtain ⟨time, next, -, advanced, followed⟩ := follow_cons.mp followed
    obtain ⟨between, leads, followed⟩ := ih followed
    exact ⟨between, by rw [List.foldlM_cons, advanced]; exact leads, followed⟩

theorem foldlM_advance_of_follow (followed : tree.follow place names = .ok final) :
    names.foldlM advance place = some final := by
  rw [← List.append_nil names] at followed
  obtain ⟨between, leads, same⟩ := follow_append followed
  cases same
  exact leads

/-- Whatever is a directory stays one. -/
def KeepsDirectories (tree later : FileTree) : Prop :=
  ∀ names time, tree.entryAt names = some (.directory time) →
    later.entryAt names = some (.directory time)

theorem KeepsDirectories.follow (keeps : KeepsDirectories tree later)
    (followed : tree.follow place names = .ok final) : later.follow place names = .ok final := by
  induction names generalizing place with
  | nil => exact followed
  | cons name rest ih =>
    obtain ⟨time, next, isDirectory, advanced, followed⟩ := follow_cons.mp followed
    exact follow_cons.mpr ⟨time, next, keeps place time isDirectory, advanced, ih followed⟩

end Following

section Reading

/-- A file stands at a place. -/
def HasFile (tree : FileTree) (names : List String) : Prop :=
  ∃ contents time, tree.entryAt names = some (.file contents time)

/-- What keeps a path from being followed at all. -/
def IsUnusable (path : String) : Prop :=
  path.toList.contains '\x00' = true ∨ path.isEmpty = true ∨ path.utf8ByteSize ≥ pathLimit

/-- A path that names a directory, whatever stands there. -/
def asksDirectory (path : String) : Bool :=
  path.endsWith "/" || path.endsWith "/."

theorem locate_ok_iff : tree.locate path = .ok names ↔
    ¬ IsUnusable path ∧ tree.follow (tree.start path) (Path.components path) = .ok names ∧
      (asksDirectory path = true → ¬ tree.HasFile names) := by
  unfold locate
  by_cases unusable : IsUnusable path
  · simp only [unusable, not_true_eq_false, false_and, iff_false]
    rcases unusable with nul | noPath | long
    · rw [if_pos nul]
      nofun
    · rw [if_pos noPath]
      split <;> nofun
    · rw [if_pos long]
      split
      · nofun
      · split <;> nofun
  · simp only [unusable, not_false_eq_true, true_and]
    simp only [IsUnusable, not_or] at unusable
    rw [if_neg unusable.1, if_neg unusable.2.1, if_neg unusable.2.2]
    cases tree.follow (tree.start path) (Path.components path) with
    | error error => simp
    | ok place =>
      simp only [Except.ok.injEq]
      change (if asksDirectory path = true then _ else _) = _ ↔ _
      split
      · rename_i asks
        split
        · rename_i contents time isFile
          simp only [reduceCtorEq, asks, true_imp_iff, false_iff]
          rintro ⟨rfl, noFile⟩
          exact noFile ⟨contents, time, isFile⟩
        · rename_i notFile
          simp only [Except.ok.injEq, asks, true_imp_iff, iff_self_and]
          rintro rfl ⟨contents, time, isFile⟩
          exact notFile contents time isFile
      · rename_i asks
        simp [asks]

theorem target_of_locate (located : tree.locate path = .ok names) :
    tree.target path = some names :=
  foldlM_advance_of_follow (locate_ok_iff.mp located).2.1

theorem read_ok_iff : tree.read path = .ok contents ↔ ∃ names time,
    tree.locate path = .ok names ∧ tree.entryAt names = some (.file contents time) := by
  unfold read entry
  cases located : tree.locate path with
  | error error => simp [Bind.bind, Except.bind]
  | ok place =>
    cases stands : tree.entryAt place with
    | none => simp [Bind.bind, Except.bind, stands]
    | some entry => cases entry <;> simp [Bind.bind, Except.bind, stands]

end Reading

section Growing

/-- Nothing is lost, and only directories are new. -/
structure Grows (tree later : FileTree) : Prop where
  here : later.here = tree.here
  keeps : ∀ names entry, tree.entryAt names = some entry → later.entryAt names = some entry
  files : ∀ names, later.HasFile names → tree.HasFile names

theorem Grows.refl : Grows tree tree :=
  ⟨rfl, fun _ _ stands => stands, fun _ isFile => isFile⟩

theorem Grows.trans (first : Grows tree later) (second : Grows later last) : Grows tree last :=
  ⟨second.here.trans first.here,
    fun names entry stands => second.keeps names entry (first.keeps names entry stands),
    fun names isFile => first.files names (second.files names isFile)⟩

theorem ne_nil_of_not_directory (notDirectory : ∀ time, tree.entryAt names ≠ some (.directory time)) :
    names ≠ [] := by
  rintro rfl
  exact notDirectory 0 rfl

theorem entryAt_insert_self {entry : FileEntry} (inside : names ≠ []) :
    (tree.insert names entry).entryAt names = some entry := by
  unfold entryAt
  rw [if_neg (by simpa using inside)]
  exact Bindings.find?_insert_self

theorem entryAt_insert_of_ne {entry : FileEntry} {others : List String} (differs : others ≠ names) :
    (tree.insert names entry).entryAt others = tree.entryAt others := by
  unfold entryAt
  split
  · rfl
  · exact Bindings.find?_insert_of_ne differs

theorem grows_insert (isFree : tree.entryAt names = none) {time : Nat} :
    Grows tree (tree.insert names (.directory time)) := by
  have noDirectory : ∀ time, tree.entryAt names ≠ some (.directory time) := by simp [isFree]
  have inside : names ≠ [] := ne_nil_of_not_directory noDirectory
  refine ⟨rfl, fun others entry stands => ?_, fun others isFile => ?_⟩
  · rw [entryAt_insert_of_ne, stands]
    rintro rfl
    cases isFree.symm.trans stands
  · by_cases same : others = names
    · obtain ⟨contents, modified, stands⟩ := isFile
      rw [same, entryAt_insert_self inside] at stands
      cases stands
    · unfold HasFile at isFile
      rwa [entryAt_insert_of_ne same] at isFile

theorem grows_makeDirectory (made : tree.makeDirectory now path = .ok later) : Grows tree later := by
  unfold makeDirectory at made
  cases located : tree.locate path with
  | error error =>
    rw [located] at made
    cases made
  | ok place =>
    simp only [located, Bind.bind, Except.bind] at made
    split at made
    · cases made
    · rename_i isFree
      split at made
      · cases made
        exact grows_insert isFree
      · cases made
      · cases made

theorem grows_makeDirectoriesWithin {fuel : Nat}
    (made : tree.makeDirectoriesWithin now path fuel = .ok later) : Grows tree later := by
  induction fuel generalizing path later with
  | zero => cases made
  | succ fuel ih =>
    unfold makeDirectoriesWithin at made
    split at made
    · cases made
      exact .refl
    · split at made
      · rename_i isMade
        cases made
        exact grows_makeDirectory isMade
      · split at made
        · cases made
        · rename_i parent isParent
          cases around : tree.makeDirectoriesWithin now parent fuel with
          | error error =>
            rw [around] at made
            cases made
          | ok between =>
            simp only [around, Bind.bind, Except.bind] at made
            have first := ih around
            split at made
            · rename_i isMade
              cases made
              exact first.trans (grows_makeDirectory isMade)
            · split at made
              · cases made
                exact first
              · cases made
      · split at made
        · cases made
          exact .refl
        · cases made

theorem grows_of_place (placed : tree.place now path contents = .ok later) :
    ∃ between, Grows tree between ∧ between.write now path contents = .ok later := by
  unfold place at placed
  cases made : tree.makeDirectories now ((Path.parent? path).getD "") with
  | error error =>
    rw [made] at placed
    cases placed
  | ok between =>
    simp only [made, Bind.bind, Except.bind] at placed
    exact ⟨between, grows_makeDirectoriesWithin made, placed⟩

/-- What is written goes to the file that the path leads to. -/
theorem write_ok (written : tree.write now path contents = .ok later) :
    ∃ names, tree.locate path = .ok names ∧ asksDirectory path = false ∧
      (∀ time, tree.entryAt names ≠ some (.directory time)) ∧
      later = tree.insert names (.file contents now) := by
  unfold write at written
  cases located : tree.locate path with
  | error error =>
    rw [located] at written
    cases written
  | ok place =>
    simp only [located, Bind.bind, Except.bind] at written
    split at written
    · cases written
    · rename_i old time isFile
      cases written
      refine ⟨place, rfl, eq_false_of_ne_true fun asks => ?_, by simp [isFile], rfl⟩
      exact (locate_ok_iff.mp located).2.2 asks ⟨old, time, isFile⟩
    · rename_i isFree
      split at written
      · cases written
      · rename_i asks
        split at written
        · cases written
          exact ⟨place, rfl, eq_false_of_ne_true asks, by simp [isFree], rfl⟩
        · cases written
        · cases written

end Growing

section Placing

/-- No file stands where a path leads. -/
def Vacant (tree : FileTree) (path : String) : Prop :=
  ∀ names, tree.target path = some names → ¬ tree.HasFile names

theorem Vacant.not_read (vacant : tree.Vacant path) : tree.read path ≠ .ok contents := by
  intro isRead
  obtain ⟨names, time, located, isFile⟩ := read_ok_iff.mp isRead
  exact vacant names (target_of_locate located) ⟨contents, time, isFile⟩

theorem Grows.keepsDirectories (grows : Grows tree later) : KeepsDirectories tree later :=
  fun names time => grows.keeps names (.directory time)

theorem keepsDirectories_insert {entry : FileEntry}
    (noDirectory : ∀ time, tree.entryAt names ≠ some (.directory time)) :
    KeepsDirectories tree (tree.insert names entry) := by
  intro others time isDirectory
  rwa [entryAt_insert_of_ne]
  rintro rfl
  exact noDirectory time isDirectory

theorem here_insert (tree : FileTree) (names : List String) (entry : FileEntry) :
    (tree.insert names entry).here = tree.here := rfl

/-- Where a path starts is decided by it and by the working directory. -/
theorem start_congr (here : later.here = tree.here) (path : String) :
    later.start path = tree.start path := by
  rw [start, start, here]

theorem target_congr (here : later.here = tree.here) (path : String) :
    later.target path = tree.target path := by
  rw [target, target, start_congr here]

/-- A file is read as before if no directory is lost and it stays as it is. -/
theorem read_of_keeps (here : later.here = tree.here) (keeps : KeepsDirectories tree later)
    (same : ∀ names entry, tree.target path = some names → tree.entryAt names = some entry →
      later.entryAt names = some entry)
    (isRead : tree.read path = .ok contents) : later.read path = .ok contents := by
  obtain ⟨names, time, located, isFile⟩ := read_ok_iff.mp isRead
  obtain ⟨usable, followed, noFile⟩ := locate_ok_iff.mp located
  refine read_ok_iff.mpr ⟨names, time, ?_, same names _ (target_of_locate located) isFile⟩
  rw [← start_congr here] at followed
  exact locate_ok_iff.mpr
    ⟨usable, keeps.follow followed, fun asks => absurd ⟨contents, time, isFile⟩ (noFile asks)⟩

/-- What is put into a file is read from it. -/
theorem read_place (placed : tree.place now path contents = .ok later) :
    later.read path = .ok contents := by
  obtain ⟨between, -, written⟩ := grows_of_place placed
  obtain ⟨names, located, asksNothing, noDirectory, rfl⟩ := write_ok written
  obtain ⟨usable, followed, -⟩ := locate_ok_iff.mp located
  refine read_ok_iff.mpr ⟨names, now, ?_, entryAt_insert_self (ne_nil_of_not_directory noDirectory)⟩
  refine locate_ok_iff.mpr ⟨usable, (keepsDirectories_insert noDirectory).follow followed, ?_⟩
  rw [asksNothing]
  nofun

/-- Other files are read as before. -/
theorem read_place_of_ne (placed : tree.place now path contents = .ok later)
    (differs : tree.target other ≠ tree.target path) (isRead : tree.read other = .ok found) :
    later.read other = .ok found := by
  obtain ⟨between, grows, written⟩ := grows_of_place placed
  obtain ⟨names, located, -, noDirectory, rfl⟩ := write_ok written
  have isRead : between.read other = .ok found :=
    read_of_keeps grows.here grows.keepsDirectories (fun names entry _ => grows.keeps names entry)
      isRead
  have leadsTo := target_of_locate located
  rw [target_congr grows.here] at leadsTo
  refine read_of_keeps (between.here_insert _ _) (keepsDirectories_insert noDirectory)
    (fun others entry leads stands => ?_) isRead
  rw [target_congr grows.here] at leads
  rwa [entryAt_insert_of_ne]
  rintro rfl
  exact differs (leads.trans leadsTo.symm)

theorem Vacant.place (vacant : tree.Vacant other)
    (placed : tree.place now path contents = .ok later)
    (differs : tree.target other ≠ tree.target path) : later.Vacant other := by
  obtain ⟨between, grows, written⟩ := grows_of_place placed
  obtain ⟨names, located, -, -, rfl⟩ := write_ok written
  have leadsTo := target_of_locate located
  rw [target_congr grows.here] at leadsTo
  intro others leads isFile
  rw [target_congr ((between.here_insert _ _).trans grows.here)] at leads
  have elsewhere : others ≠ names := by
    rintro rfl
    exact differs (leads.trans leadsTo.symm)
  unfold HasFile at isFile
  rw [entryAt_insert_of_ne elsewhere] at isFile
  exact vacant others leads (grows.files others isFile)

/-- Whatever is put somewhere, its path leads there. -/
theorem target_of_place (placed : tree.place now path contents = .ok later) :
    ∃ names, tree.target path = some names := by
  obtain ⟨between, grows, written⟩ := grows_of_place placed
  obtain ⟨names, located, -⟩ := write_ok written
  exact ⟨names, (target_congr grows.here path).symm.trans (target_of_locate located)⟩

end Placing

end Stylesheet.FileTree
