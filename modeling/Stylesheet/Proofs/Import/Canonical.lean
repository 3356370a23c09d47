import Stylesheet.Proofs.Import.Names

/-! Whether the name under which an importer found a stylesheet finds that stylesheet again. It does
if the name tells its dialect, so that it stands for itself, and if the directory of the importer does
not get in front of it a second time. In all other cases only longer names are tried. -/

namespace Stylesheet

namespace Path

theorem length_le_join (directory path : String) : path.length ≤ (join directory path).length := by
  unfold join
  split
  · exact Nat.le_refl _
  · split <;> simp only [String.length_append] <;> omega

/-- A directory leaves a path alone only if it is empty or the path is absolute. -/
theorem join_eq_self_iff {directory path : String} :
    join directory path = path ↔ directory = "" ∨ isAbsolute path = true := by
  constructor
  · intro same
    by_contra neither
    obtain ⟨notEmpty, notAbsolute⟩ := not_or.mp neither
    have isLong : directory.length ≠ 0 := by simpa using notEmpty
    have length := congrArg String.length same
    unfold join at length
    rw [if_neg (by simpa [notEmpty] using notAbsolute)] at length
    split at length <;> simp only [String.length_append] at length <;> omega
  · rintro (rfl | absolute)
    · simp [join]
    · simp [join, absolute]

end Path

namespace Importer

/-- What an importer has under a name. -/
def contents? (files : FileTree) : Importer → String → Option String
  | memory sources _, name => sources.find? name
  | directory _, name => if files.isFile name then (files.readText name).toOption else none

/-- An import of such a name means nothing but the stylesheet of that name. -/
def MeansItself (importer : Importer) (name : String) : Prop :=
  (dialectOf? name).isSome = true ∧
    match importer with
    | memory _ _ => True
    | directory root => root = "" ∨ Path.isAbsolute name = true

section Candidates

variable {name candidate : String}

theorem candidates_of_isSome (told : (dialectOf? name).isSome = true) : candidates name = [name] := by
  unfold candidates
  rw [if_pos told]

/-- A name that does not tell its dialect is only tried with something added to it. -/
theorem length_lt_of_mem_candidates (untold : ¬ (dialectOf? name).isSome = true)
    (member : candidate ∈ candidates name) : name.length < candidate.length := by
  have short : (name.toList.reverse.takeWhile (· != '/')).length ≤ name.length := by
    have length := (List.takeWhile_prefix (l := name.toList.reverse) (· != '/')).length_le
    rwa [List.length_reverse, String.length_toList] at length
  unfold candidates at member
  rw [if_neg untold] at member
  obtain ⟨mark, _, member⟩ := List.mem_flatMap.mp member
  obtain ⟨dialect, _, rfl⟩ := List.mem_map.mp member
  simp only [String.length_append, String.length_ofList, List.length_reverse, List.length_take,
    String.length_toList]
  have dot : ".".length = 1 := rfl
  omega

variable {holds : String → Bool} {inDirectory : String → String}

theorem exists_of_findIn {uri : String} (found : (findIn holds inDirectory uri).1 = some name) :
    ∃ candidate ∈ candidates uri, inDirectory candidate = name :=
  List.mem_map.mp (List.mem_filter.mp (List.mem_of_head? found)).1

/-- Where directories only make names longer, a name finds itself if it tells its dialect and is the
same in the directory. -/
theorem findIn_self_iff (grows : ∀ other, other.length ≤ (inDirectory other).length)
    (isHeld : holds name = true) :
    (findIn holds inDirectory name).1 = some name ↔
      (dialectOf? name).isSome = true ∧ inDirectory name = name := by
  constructor
  · intro found
    obtain ⟨candidate, member, same⟩ := exists_of_findIn found
    by_cases told : (dialectOf? name).isSome = true
    · rw [candidates_of_isSome told, List.mem_singleton] at member
      exact ⟨told, member ▸ same⟩
    · have longer := length_lt_of_mem_candidates told member
      have length := grows candidate
      rw [same] at length
      omega
  · rintro ⟨told, same⟩
    simp [findIn, firstMatch, candidates_of_isSome told, same, isHeld]

end Candidates

section Find

variable {files : FileTree} {importer : Importer} {source : ImportedSource}

/-- What is found is what the importer has under the canonical name, in the dialect of that name. -/
theorem contents?_of_find {uri : String} {base : Option String}
    (found : (importer.find files uri base).1 = .ok (some source)) :
    importer.contents? files source.canonical = some source.contents ∧
      source.dialect = dialectOf source.canonical .indented := by
  cases importer with
  | memory sources modified =>
    simp only [find, Except.ok.injEq] at found
    obtain ⟨name, _, found⟩ := Option.bind_eq_some_iff.mp found
    obtain ⟨contents, isContents, found⟩ := Option.bind_eq_some_iff.mp found
    cases found
    exact ⟨isContents, rfl⟩
  | directory root =>
    simp only [find] at found
    split at found
    · cases found
    · rename_i path isFound
      split at found
      · rename_i contents isContents
        cases found
        simp [contents?, holds_of_findFirst isFound, isContents, Except.toOption, dialectOf]
      · cases found

/-- What an importer has under a name is found by that name if the name means itself. -/
theorem find_self_iff {name contents : String}
    (isContents : importer.contents? files name = some contents) :
    (importer.find files name none).1 =
        .ok (some ⟨contents, dialectOf name .indented, name⟩) ↔
      importer.MeansItself name := by
  cases importer with
  | memory sources modified =>
    replace isContents : sources.find? name = some contents := isContents
    have isHeld : sources.contains name = true := by simp [Bindings.contains, isContents]
    have self := @findIn_self_iff name sources.contains ("" ++ ·) (by simp) isHeld
    refine Iff.trans ⟨fun found => ?_, fun found => ?_⟩ (self.trans (and_congr_right (by simp)))
    · simp only [find, Except.ok.injEq] at found
      obtain ⟨other, isFound, found⟩ := Option.bind_eq_some_iff.mp found
      obtain ⟨_, _, same⟩ := Option.bind_eq_some_iff.mp found
      have names : other = name := congrArg ImportedSource.canonical (Option.some.inj same)
      exact names ▸ isFound
    · simp only [find, Option.bind_none, Option.map_none, findFirst, Except.ok.injEq]
      rw [found, Option.bind_eq_bind, Option.bind_some, isContents]
      rfl
  | directory root =>
    have isFile : files.isFile name = true := by
      by_contra notFile
      rw [contents?, if_neg notFile] at isContents
      cases isContents
    have isText : files.readText name = .ok contents := by
      rw [contents?, if_pos isFile] at isContents
      cases readText : files.readText name with
      | error error => simp [readText, Except.toOption] at isContents
      | ok text => simpa [readText, Except.toOption] using isContents
    have self := @findIn_self_iff name files.isFile (Path.join root) (Path.length_le_join root) isFile
    refine Iff.trans ⟨fun found => ?_, fun found => ?_⟩
      (self.trans (and_congr_right fun _ => Path.join_eq_self_iff))
    · simp only [find] at found
      split at found
      · cases found
      · rename_i path isFound
        split at found
        · have names : path = name :=
            congrArg ImportedSource.canonical (Option.some.inj (Except.ok.inj found))
          exact names ▸ isFound
        · cases found
    · simp [find, findFirst, found, isText, dialectOf]

/-- The canonical name of a stylesheet that was found finds the same stylesheet again, if it means
itself and not otherwise. -/
theorem find_canonical_iff {uri : String} {base : Option String}
    (found : (importer.find files uri base).1 = .ok (some source)) :
    (importer.find files source.canonical none).1 = .ok (some source) ↔
      importer.MeansItself source.canonical := by
  obtain ⟨isContents, dialect⟩ := contents?_of_find found
  have whole : source = ⟨source.contents, dialectOf source.canonical .indented, source.canonical⟩ := by
    rw [← dialect]
  rw [← find_self_iff isContents, ← whole]

/-- A partial beside the stylesheet that imports it, among others in memory. -/
def partials : Importer :=
  .memory [("theme/_a.scss", "b"), ("theme/main.scss", "c"), ("a.sass", "d")] 0

/-- A directory with one stylesheet in it, in the working directory. -/
def library : FileTree where
  entries := [
    (["work"], .directory 0),
    (["work", "lib"], .directory 0),
    (["work", "lib", "_a.scss"], .file "b".toUTF8 0)]
  here := ["work"]

theorem find_canonical_iff_of_partial :
    ((partials.find .empty "a" (some "theme/main.scss")).1 =
        .ok (some ⟨"b", .scss, "theme/_a.scss"⟩) ∧
      ((partials.find .empty "theme/_a.scss" none).1 = .ok (some ⟨"b", .scss, "theme/_a.scss"⟩) ↔
        partials.MeansItself "theme/_a.scss") ∧
      partials.MeansItself "theme/_a.scss") ∧
    ((directory "/work/lib").find library "a" none).1 =
        .ok (some ⟨"b", .scss, "/work/lib/_a.scss"⟩) ∧
      (((directory "/work/lib").find library "/work/lib/_a.scss" none).1 =
          .ok (some ⟨"b", .scss, "/work/lib/_a.scss"⟩) ↔
        (directory "/work/lib").MeansItself "/work/lib/_a.scss") ∧
      (directory "/work/lib").MeansItself "/work/lib/_a.scss" := by
  have found : (partials.find .empty "a" (some "theme/main.scss")).1 =
      .ok (some ⟨"b", .scss, "theme/_a.scss"⟩) := by
    decide +kernel
  have absolute : ((directory "/work/lib").find library "a" none).1 =
      .ok (some ⟨"b", .scss, "/work/lib/_a.scss"⟩) := by
    decide +kernel
  refine ⟨⟨found, find_canonical_iff found, by decide +kernel, trivial⟩, absolute,
    find_canonical_iff absolute, by decide +kernel, .inr ?_⟩
  decide +kernel

/-- The directory of the importer is a part of the canonical name, and is put in front of it once
more. -/
theorem canonical_not_found :
    ((directory "lib").find library "a" none).1 = .ok (some ⟨"b", .scss, "lib/_a.scss"⟩) ∧
    ((directory "lib").find library "lib/_a.scss" none).1 = .ok none := by
  constructor
  · decide +kernel
  · decide +kernel

end Find

end Importer

end Stylesheet
