import Mathlib.Algebra.Group.Nat.Defs
import Stylesheet.Cache.Artifact
import Stylesheet.Proofs.Text.Json

/-! What the cache keeps comes back as it was: the text of an artifact is read as the data it
writes, and what is hashed for a stylesheet tells its source. -/

namespace Stylesheet

namespace Artifact

open Json

/-- The entries that the text of a dependency has. -/
def sourceEntries (id : SourceId) : List (String × List Char × Document) :=
  [("importer", Nat.toDigits 10 id.importer, .integer id.importer),
    ("uri", (quote id.uri).toList, .text id.uri)]

/-- A dependency as data. -/
def sourceDocument (id : SourceId) : Document :=
  .table ((sourceEntries id).map entryData)

/-- The entries that the text of an artifact has. -/
def entries (artifact : Artifact) : List (String × List Char × Document) :=
  [("css", (quote artifact.css).toList, .text artifact.css),
    ("compiled_at", Nat.toDigits 10 artifact.compiledAt, .integer artifact.compiledAt),
    ("dependencies",
      '[' :: ([','].intercalate (artifact.dependencies.map fun id => (sourceText id).toList) ++ [']']),
      .list (artifact.dependencies.map sourceDocument))]

/-- An artifact as data. -/
def document (artifact : Artifact) : Document :=
  .table (artifact.entries.map entryData)

theorem quote_keys :
    quote "importer" = "\"importer\"" ∧ quote "uri" = "\"uri\"" ∧ quote "css" = "\"css\"" ∧
      quote "compiled_at" = "\"compiled_at\"" ∧ quote "dependencies" = "\"dependencies\"" := by
  decide +kernel

theorem reads_sourceText (id : SourceId) :
    Reads (sourceText id).toList (sourceDocument id) := by
  have written : (sourceText id).toList =
      '\x7b' :: ([','].intercalate ((sourceEntries id).map entryText) ++ ['\x7d']) := by
    simp [sourceText, sourceEntries, entryText, quote_keys]
  rw [written]
  apply reads_table (by simp [sourceEntries])
  simp only [sourceEntries, List.forall_mem_cons]
  exact ⟨reads_toDigits id.importer, reads_quote id.uri, by simp⟩

theorem reads_sources (ids : List SourceId) :
    Reads ('[' :: ([','].intercalate (ids.map fun id => (sourceText id).toList) ++ [']']))
      (.list (ids.map sourceDocument)) := by
  let items := ids.map fun id => ((sourceText id).toList, sourceDocument id)
  have all : ∀ item ∈ items, Reads item.1 item.2 := by
    intro item member
    obtain ⟨id, _, rfl⟩ := List.mem_map.mp member
    exact reads_sourceText id
  simpa [items, Function.comp_def] using reads_list all

theorem reads_toText (artifact : Artifact) : Reads artifact.toText.toList artifact.document := by
  have written : artifact.toText.toList =
      '\x7b' :: ([','].intercalate (artifact.entries.map entryText) ++ ['\x7d']) := by
    simp [toText, entries, entryText, quote_keys, String.toList_intercalate, Function.comp_def]
  rw [written]
  apply reads_table (by simp [entries])
  simp only [entries, List.forall_mem_cons]
  exact ⟨reads_quote artifact.css, reads_toDigits artifact.compiledAt,
    reads_sources artifact.dependencies, by simp⟩

theorem nat?_integer {n found : Nat} (isFound : (Document.integer n).nat? = some found) :
    found = n := by
  simp only [Document.nat?] at isFound
  split at isFound
  · simpa using isFound.symm
  · cases isFound

theorem fields?_sourceDocument (id : SourceId) :
    fields? ["importer", "uri"] (sourceDocument id) =
      some [.integer id.importer, .text id.uri] := by
  simp [fields?, sourceDocument, sourceEntries, entryData]

theorem source?_eq {document importer uri : Document}
    (fields : fields? ["importer", "uri"] document = some [importer, uri]) :
    source? document = importer.nat?.bind fun number => uri.text?.bind fun text =>
      some ⟨number, text⟩ := by
  simp [source?, fields]

theorem source?_sourceDocument {id found : SourceId}
    (isFound : source? (sourceDocument id) = some found) : found = id := by
  rw [source?_eq (fields?_sourceDocument id)] at isFound
  obtain ⟨importer, isImporter, same⟩ := Option.bind_eq_some_iff.mp isFound
  rw [nat?_integer isImporter] at same
  cases same
  rfl

theorem mapM_source? {ids found : List SourceId}
    (isFound : (ids.map sourceDocument).mapM source? = some found) : found = ids := by
  induction ids generalizing found with
  | nil => simpa using isFound.symm
  | cons id ids ih =>
    simp only [List.map_cons, List.mapM_cons, Option.bind_eq_bind, Option.bind_eq_some_iff,
      Option.pure_def, Option.some.injEq] at isFound
    obtain ⟨first, isFirst, others, isOthers, rfl⟩ := isFound
    rw [source?_sourceDocument isFirst, ih isOthers]

theorem decode?_toUTF8 (text : String) : Text.Utf8.decode? text.toUTF8 = some text := by
  simp only [Text.Utf8.decode?, String.fromUTF8?, String.toUTF8_eq_toByteArray,
    dif_pos text.isValidUTF8]
  rfl

theorem ofBytes?_eq {bytes : ByteArray} {text : String}
    {document css compiledAt dependencies : Document}
    (decoded : Text.Utf8.decode? bytes = some text) (isRead : read? text = some document)
    (fields : fields? ["css", "compiled_at", "dependencies"] document =
      some [css, compiledAt, dependencies]) :
    ofBytes? bytes = css.text?.bind fun css => compiledAt.nat?.bind fun compiledAt =>
      (sources? dependencies).bind fun dependencies => some ⟨css, compiledAt, dependencies⟩ := by
  simp [ofBytes?, decoded, isRead, fields]

theorem fields?_document (artifact : Artifact) :
    fields? ["css", "compiled_at", "dependencies"] artifact.document =
      some [.text artifact.css, .integer artifact.compiledAt,
        .list (artifact.dependencies.map sourceDocument)] := by
  simp [fields?, document, entries, entryData]

/-- What is read from the bytes of an artifact is that artifact. Numbers that do not fit in 64
bits are not read at all. -/
theorem eq_of_ofBytes? {artifact found : Artifact}
    (isFound : ofBytes? artifact.toBytes = some found) : found = artifact := by
  have decoded : Text.Utf8.decode? artifact.toBytes = some artifact.toText :=
    decode?_toUTF8 artifact.toText
  rw [ofBytes?_eq decoded (read?_of_reads (reads_toText artifact)) (fields?_document artifact)]
    at isFound
  obtain ⟨css, isCss, isFound⟩ := Option.bind_eq_some_iff.mp isFound
  obtain ⟨compiledAt, isTime, isFound⟩ := Option.bind_eq_some_iff.mp isFound
  obtain ⟨dependencies, areSources, same⟩ := Option.bind_eq_some_iff.mp isFound
  rw [← Option.some.inj same, ← Option.some.inj isCss, nat?_integer isTime, mapM_source? areSources]

theorem ofBytes?_toBytes {css : String} {now : Nat} (early : now < 2 ^ 64) :
    ofBytes? (toBytes ⟨css, now, []⟩) = some ⟨css, now, []⟩ := by
  have decoded : Text.Utf8.decode? (toBytes ⟨css, now, []⟩) = some (toText ⟨css, now, []⟩) :=
    decode?_toUTF8 _
  have inRange : (Document.integer now).nat? = some now := by
    have bound : Int.pow 2 64 = ((2 ^ 64 : Nat) : Int) := rfl
    have fits : (now : Int) < Int.pow 2 64 := by
      rw [bound]
      exact_mod_cast early
    simp only [Document.nat?, Int.natCast_nonneg, fits, decide_true, Bool.and_self, if_true,
      Int.toNat_natCast]
  rw [ofBytes?_eq decoded (read?_of_reads (reads_toText _)) (fields?_document _), inRange]
  rfl

end Artifact

/-- What is hashed tells the source. -/
theorem hashInput_injective {one other : String} {options : Options}
    (same : hashInput one options = hashInput other options) : one = other := by
  have pushed : one.toUTF8.push 0 = other.toUTF8.push 0 := (ByteArray.append_left_inj _).mp same
  have data : one.toUTF8.data = other.toUTF8.data := by
    simpa [Array.push_eq_push] using congrArg ByteArray.data pushed
  exact String.toByteArray_inj.mp (ByteArray.ext data)

end Stylesheet
