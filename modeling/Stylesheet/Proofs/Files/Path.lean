import Stylesheet.Files.Path

/-! The components of paths that are joined. -/

namespace Stylesheet.Path

theorem cut_of_no_slash {start : Nat} {current text : List Char} (noSlash : '/' ∉ text) :
    cut start current text = [⟨current.reverse ++ text, start⟩] := by
  induction text generalizing current with
  | nil => simp [cut]
  | cons c rest ih =>
    have isName : c ≠ '/' := fun same => noSlash (same ▸ List.mem_cons_self)
    rw [cut.eq_3 _ _ _ _ isName, ih fun member => noSlash (List.mem_cons_of_mem c member)]
    simp

theorem cut_slash (start : Nat) (current before behind : List Char) :
    cut start current (before ++ '/' :: behind) =
      cut start current before ++ cut (start + current.length + before.length + 1) [] behind := by
  induction before generalizing start current with
  | nil => simp [cut]
  | cons c rest ih =>
    rw [List.cons_append]
    by_cases isSlash : c = '/'
    · subst isSlash
      rw [cut, cut, ih, List.cons_append]
      congr 3
      simp only [List.length_cons, List.length_nil]
      omega
    · rw [cut.eq_3 _ _ _ _ isSlash, cut.eq_3 _ _ _ _ isSlash, ih]
      congr 2
      simp only [List.length_cons]
      omega

/-- A text that stands for itself in a path. -/
def IsName (name : String) : Prop :=
  '/' ∉ name.toList ∧ name ≠ "" ∧ name ≠ "."

section Names

variable {directory name : String}

theorem isAbsolute_iff {path : String} : isAbsolute path = true ↔ ['/'] <+: path.toList := by
  unfold isAbsolute
  rw [String.startsWith_string_iff]
  rfl

theorem IsName.not_isAbsolute (isName : IsName name) : isAbsolute name = false := by
  refine eq_false_of_ne_true fun absolute => isName.1 ?_
  exact (isAbsolute_iff.mp absolute).subset List.mem_cons_self

theorem IsName.isKept (isName : IsName name) :
    name.toList.isEmpty = false ∧ name.toList ≠ ['.'] := by
  refine ⟨by simpa using isName.2.1, fun same => isName.2.2 ?_⟩
  rw [← String.ofList_toList (s := name), same]

theorem components_of_isName (isName : IsName name) : components name = [name] := by
  simp [components, pieces, cut_of_no_slash isName.1, isName.isKept.1]

theorem components_empty : components "" = [] := by
  decide

variable {path whole : String}

/-- A slash at the end of a path adds nothing to its components. -/
theorem components_slash (isWhole : whole.toList = path.toList ++ ['/']) :
    components whole = components path := by
  simp [components, pieces, isWhole, cut_slash, cut]

/-- A slash and a name behind a path add the name to its components. -/
theorem components_append (isName : IsName name)
    (isWhole : whole.toList = path.toList ++ '/' :: name.toList) :
    components whole = components path ++ [name] := by
  simp [components, pieces, isWhole, cut_slash, cut_of_no_slash isName.1, isName.isKept]

theorem endsWith_slash_iff : path.endsWith "/" = true ↔ ['/'] <:+ path.toList := by
  change path.toSlice.endsWith "/" = true ↔ _
  rw [String.Slice.endsWith_string_iff, String.copy_toSlice]
  rfl

theorem components_join (isName : IsName name) :
    components (join directory name) = components directory ++ [name] := by
  unfold join
  rw [isName.not_isAbsolute, Bool.false_or]
  split
  · rename_i isEmpty
    rw [String.isEmpty_iff.mp isEmpty, components_empty, components_of_isName isName]
    rfl
  · split
    · rename_i slash
      obtain ⟨front, same⟩ := endsWith_slash_iff.mp slash
      have isDirectory : directory.toList = (String.ofList front).toList ++ ['/'] := by
        rw [String.toList_ofList, same]
      rw [components_slash isDirectory]
      apply components_append isName
      rw [String.toList_append, isDirectory, List.append_assoc, List.singleton_append]
    · apply components_append isName
      simp

theorem isAbsolute_append {behind : String} (notEmpty : directory ≠ "") :
    isAbsolute (directory ++ behind) = isAbsolute directory := by
  rw [Bool.eq_iff_iff, isAbsolute_iff, isAbsolute_iff, String.toList_append]
  cases isList : directory.toList with
  | nil => exact absurd (String.toList_eq_nil_iff.mp isList) notEmpty
  | cons c rest => simp

/-- A name in a directory is absolute if the directory is. -/
theorem isAbsolute_join (isName : IsName name) :
    isAbsolute (join directory name) = isAbsolute directory := by
  unfold join
  rw [isName.not_isAbsolute, Bool.false_or]
  split
  · rename_i isEmpty
    rw [String.isEmpty_iff.mp isEmpty, isName.not_isAbsolute]
    decide
  · rename_i notEmpty
    have notEmpty : directory ≠ "" := by simpa using notEmpty
    split
    · exact isAbsolute_append notEmpty
    · rw [String.append_assoc, isAbsolute_append notEmpty]

end Names

end Stylesheet.Path
