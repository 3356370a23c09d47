import Mathlib.Data.List.Induction
import Mathlib.Data.List.Nodup
import Mathlib.Data.List.Perm.Subperm
import Mathlib.Data.Nat.Digits.Defs
import Stylesheet.Import.Importer

/-! The names that stylesheets can have. Whatever an importer finds or knows the time of goes by one
of finitely many names, so that a row of stylesheets without a repetition is not longer than
`Importers.chainBound`. -/

namespace Stylesheet

namespace FileTree

/-- The bytes of a name as the digits of a number, with a one in front. -/
def nameCode (name : String) : Nat :=
  Nat.ofDigits 256 (name.toUTF8.data.toList.map UInt8.toNat ++ [1])

theorem digit_lt {bytes : List UInt8} {digit : Nat}
    (member : digit ∈ bytes.map UInt8.toNat ++ [1]) : digit < 256 := by
  rcases List.mem_append.mp member with fromByte | last
  · obtain ⟨byte, _, rfl⟩ := List.mem_map.mp fromByte
    exact UInt8.toNat_lt byte
  · rw [List.mem_singleton.mp last]
    decide

theorem nameCode_injective : Function.Injective nameCode := by
  intro one other same
  have digits (name : String) : Nat.digits 256 (nameCode name) =
      name.toUTF8.data.toList.map UInt8.toNat ++ [1] := by
    apply Nat.digits_ofDigits 256 (by decide) _ fun _ => digit_lt
    simp
  have bytes : one.toUTF8.data.toList.map UInt8.toNat =
      other.toUTF8.data.toList.map UInt8.toNat := by
    have whole := (digits one).symm.trans ((congrArg (Nat.digits 256) same).trans (digits other))
    exact List.append_cancel_right whole
  have sameBytes : one.toUTF8.data.toList = other.toUTF8.data.toList :=
    List.map_injective_iff.mpr (fun _ _ => UInt8.toNat_inj.mp) bytes
  exact String.toByteArray_inj.mp (ByteArray.ext (Array.toList_inj.mp sameBytes))

theorem nameCode_lt {name : String} {limit : Nat} (short : name.utf8ByteSize < limit) :
    nameCode name < 256 ^ limit := by
  have below := Nat.ofDigits_lt_base_pow_length (by decide : 1 < 256)
    fun digit (member : digit ∈ name.toUTF8.data.toList.map UInt8.toNat ++ [1]) => digit_lt member
  have size : name.toUTF8.data.toList.length = name.utf8ByteSize := rfl
  simp only [List.length_append, List.length_map, List.length_singleton, size] at below
  exact lt_of_lt_of_le below (Nat.pow_le_pow_right (by decide) short)

theorem length_le_of_short {names : List String} {limit : Nat} (distinct : names.Nodup)
    (short : ∀ name ∈ names, name.utf8ByteSize < limit) : names.length ≤ Nat.pow 256 limit := by
  have codes : (names.map nameCode).Nodup := List.Nodup.map nameCode_injective distinct
  have below : names.map nameCode ⊆ List.range (256 ^ limit) := by
    intro code member
    obtain ⟨name, isName, rfl⟩ := List.mem_map.mp member
    exact List.mem_range.mpr (nameCode_lt (short name isName))
  simpa using (codes.subperm below).length_le

theorem short_of_locate {tree : FileTree} {path : String} {place : List String}
    (located : tree.locate path = .ok place) : path.utf8ByteSize < pathLimit := by
  unfold locate at located
  split at located
  · cases located
  · split at located
    · cases located
    · split at located
      · cases located
      · omega

theorem short_of_entry {tree : FileTree} {path : String} {found : FileEntry}
    (entry : tree.entry path = .ok found) : path.utf8ByteSize < pathLimit := by
  cases located : tree.locate path with
  | error error =>
    simp only [FileTree.entry, located] at entry
    cases entry
  | ok place => exact short_of_locate located

theorem short_of_isFile {tree : FileTree} {path : String} (isFile : tree.isFile path = true) :
    path.utf8ByteSize < pathLimit := by
  unfold FileTree.isFile at isFile
  split at isFile
  · rename_i found
    exact short_of_entry found
  · cases isFile

theorem short_of_modified? {tree : FileTree} {path : String} {time : Nat}
    (modified : tree.modified? path = some time) : path.utf8ByteSize < pathLimit := by
  unfold FileTree.modified? at modified
  split at modified
  · rename_i found
    exact short_of_entry found
  · rename_i found
    exact short_of_entry found
  · cases modified

end FileTree

namespace Importer

/-- A stylesheet of an importer may have this name. -/
def IsName : Importer → String → Prop
  | memory sources _, name => sources.contains name = true
  | directory _, name => name.utf8ByteSize < FileTree.pathLimit

theorem holds_of_findIn {holds : String → Bool} {inDirectory : String → String}
    {uri name : String} (found : (findIn holds inDirectory uri).1 = some name) :
    holds name = true :=
  (List.mem_filter.mp (List.mem_of_head? found)).2

/-- What is found stands beside the importing stylesheet or in the other place. -/
theorem findFirst_some {beside : Option (Option String × Log)} {otherwise : Option String × Log}
    {name : String} (found : (findFirst beside otherwise).1 = some name) :
    (∃ log, beside = some (some name, log)) ∨ otherwise.1 = some name := by
  unfold findFirst at found
  split at found
  · rename_i other log
    cases found
    exact .inl ⟨log, rfl⟩
  · exact .inr found

theorem holds_of_findFirst {holds : String → Bool} {inDirectory : String → String → String}
    {uri name root : String} {base : Option String}
    (found : (findFirst (base.map fun directory => findIn holds (inDirectory directory) uri)
      (findIn holds (inDirectory root) uri)).1 = some name) : holds name = true := by
  rcases findFirst_some found with ⟨log, beside⟩ | otherwise
  · obtain ⟨directory, _, looked⟩ := Option.map_eq_some_iff.mp beside
    exact holds_of_findIn (congrArg Prod.fst looked)
  · exact holds_of_findIn otherwise

theorem isName_of_find {files : FileTree} {importer : Importer} {uri : String}
    {base : Option String} {source : ImportedSource}
    (found : (importer.find files uri base).1 = .ok (some source)) :
    importer.IsName source.canonical := by
  cases importer with
  | memory sources modified =>
    simp only [find, Except.ok.injEq] at found
    obtain ⟨name, isFound, found⟩ := Option.bind_eq_some_iff.mp found
    obtain ⟨contents, _, found⟩ := Option.bind_eq_some_iff.mp found
    cases found
    exact holds_of_findFirst isFound
  | directory root =>
    simp only [find] at found
    split at found
    · cases found
    · rename_i path isFound
      split at found
      · cases found
        exact FileTree.short_of_isFile (holds_of_findFirst isFound)
      · cases found

theorem isName_of_modified? {files : FileTree} {importer : Importer} {uri : String} {time : Nat}
    (modified : importer.modified? files uri = some time) : importer.IsName uri := by
  cases importer with
  | memory sources own =>
    simp only [modified?] at modified
    split at modified
    · assumption
    · cases modified
  | directory root => exact FileTree.short_of_modified? modified

end Importer

namespace Bindings

theorem mem_keys_of_contains {κ : Type u} {ν : Type v} [BEq κ] [LawfulBEq κ] {key : κ}
    {bindings : Bindings κ ν} (contains : bindings.contains key = true) :
    key ∈ bindings.map Prod.fst := by
  simpa [Bindings.contains, find?] using contains

end Bindings

theorem Importer.length_le_nameBound {importer : Importer} {names : List String}
    (distinct : names.Nodup) (all : ∀ name ∈ names, importer.IsName name) :
    names.length ≤ importer.nameBound := by
  cases importer with
  | memory sources modified =>
    have keys : names ⊆ sources.map Prod.fst := by
      intro name member
      exact Bindings.mem_keys_of_contains (all name member)
    simpa [nameBound] using (distinct.subperm keys).length_le
  | directory root => exact FileTree.length_le_of_short distinct all

namespace Importers

/-- One of some importers may have a stylesheet. -/
def HasName (importers : List Importer) (id : SourceId) : Prop :=
  ∃ importer, importers[id.importer]? = some importer ∧ importer.IsName id.uri

theorem hasName_of_tryAll {files : FileTree} {uri : String} {before rest : List Importer}
    {log : Log} {id : SourceId} {source : ImportedSource}
    (found : (tryAll files uri log before.length rest).1 = .ok (some (id, source))) :
    HasName (before ++ rest) id := by
  induction rest generalizing before log with
  | nil => cases found
  | cons importer rest ih =>
    unfold tryAll at found
    split at found
    · cases found
    · rename_i isFound
      cases found
      refine ⟨importer, by simp, ?_⟩
      exact Importer.isName_of_find (congrArg Prod.fst isFound)
    · have further : HasName ((before ++ [importer]) ++ rest) id := ih (by simpa using found)
      simpa using further

theorem hasName_of_resolve {files : FileTree} {importers : List Importer} {uri : String}
    {base : Option SourceId} {id : SourceId} {source : ImportedSource}
    (found : (resolve files importers uri base).1 = .ok (some (id, source))) :
    HasName importers id := by
  have anywhere {log : Log} (tried : (tryAll files uri log 0 importers).1 = .ok (some (id, source))) :
      HasName importers id :=
    @hasName_of_tryAll files uri [] importers log id source tried
  unfold resolve at found
  dsimp only at found
  split at found
  · cases found
  · rename_i index found' log beside
    cases found
    obtain ⟨other, _, beside⟩ := Option.bind_eq_some_iff.mp beside
    obtain ⟨importer, isImporter, beside⟩ := Option.bind_eq_some_iff.mp beside
    obtain ⟨rfl, isFound⟩ := Prod.mk.inj (Option.some.inj beside)
    exact ⟨importer, isImporter, Importer.isName_of_find (congrArg Prod.fst isFound)⟩
  · exact anywhere found
  · exact anywhere found

theorem length_le_of_importer {importers : List Importer} {importer : Importer} {index : Nat}
    {ids : List SourceId} (isImporter : importers[index]? = some importer) (distinct : ids.Nodup)
    (all : ∀ id ∈ ids, HasName importers id) (same : ∀ id ∈ ids, id.importer = index) :
    ids.length ≤ importer.nameBound := by
  have names : (ids.map (·.uri)).Nodup := by
    apply List.Nodup.map_on _ distinct
    intro one isOne other isOther sameUri
    have sameImporter : one.importer = other.importer :=
      (same one isOne).trans (same other isOther).symm
    cases one
    cases other
    exact congrArg₂ SourceId.mk sameImporter sameUri
  rw [← List.length_map (·.uri)]
  apply Importer.length_le_nameBound names
  intro name member
  obtain ⟨id, isMember, rfl⟩ := List.mem_map.mp member
  obtain ⟨found, isFound, isName⟩ := all id isMember
  rw [same id isMember, isImporter] at isFound
  cases isFound
  exact isName

/-- A stylesheet that the last importer does not have is one of the others. -/
theorem HasName.of_concat {importers : List Importer} {last : Importer} {id : SourceId}
    (has : HasName (importers ++ [last]) id) (other : id.importer ≠ importers.length) :
    HasName importers id := by
  obtain ⟨importer, isImporter, isName⟩ := has
  have inside : id.importer < (importers ++ [last]).length := (List.getElem?_eq_some_iff.mp isImporter).1
  have earlier : id.importer < importers.length := by
    rw [List.length_append, List.length_singleton] at inside
    omega
  exact ⟨importer, by rwa [List.getElem?_append_left earlier] at isImporter, isName⟩

theorem chainBound_concat (importers : List Importer) (last : Importer) :
    chainBound (importers ++ [last]) = chainBound importers + last.nameBound := by
  induction importers with
  | nil => simp [chainBound]
  | cons importer rest ih => rw [List.cons_append, chainBound, ih, chainBound, Nat.add_assoc]

theorem length_le_chainBound {importers : List Importer} {ids : List SourceId}
    (distinct : ids.Nodup) (all : ∀ id ∈ ids, HasName importers id) :
    ids.length ≤ chainBound importers := by
  induction importers using List.reverseRecOn generalizing ids with
  | nil =>
    cases ids with
    | nil => exact Nat.le_refl 0
    | cons id rest =>
      obtain ⟨importer, isImporter, _⟩ := all id List.mem_cons_self
      cases isImporter
  | append_singleton importers last ih =>
    let isLast : SourceId → Bool := fun id => id.importer == importers.length
    have ofLast : (ids.filter isLast).length ≤ last.nameBound := by
      have isImporter : (importers ++ [last])[importers.length]? = some last := List.getElem?_concat_length
      apply length_le_of_importer isImporter (distinct.filter _)
      · intro id member
        exact all id (List.mem_filter.mp member).1
      · intro id member
        exact eq_of_beq (List.mem_filter.mp member).2
    have ofOthers : (ids.filter (!isLast ·)).length ≤ chainBound importers := by
      apply ih (distinct.filter _)
      intro id member
      obtain ⟨isMember, notLast⟩ := List.mem_filter.mp member
      exact (all id isMember).of_concat (by simpa [isLast] using notLast)
    have split := List.length_eq_length_filter_add isLast (l := ids)
    rw [chainBound_concat]
    omega

end Importers

end Stylesheet
