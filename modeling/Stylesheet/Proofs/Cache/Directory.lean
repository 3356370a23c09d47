import Mathlib.Data.List.TakeWhile
import Stylesheet.Cache.Store
import Stylesheet.Proofs.Cache.Artifact
import Stylesheet.Proofs.Files.Path
import Stylesheet.Proofs.Files.Tree
import Stylesheet.Proofs.Text.Utf8

/-! Stores that keep one file for each entry. What is put into one comes back under its hash, and stays
as long as nothing is put into the same file. -/

namespace Stylesheet

namespace Digest

theorem sha256_digits (message : ByteArray) :
    sha256 message ≠ "" ∧ ∀ c ∈ (sha256 message).toList, ∃ n < 16, c = Nat.digitChar n := by
  have isEncoded : ∃ byte bytes, sha256 message = String.ofList (Text.Hex.encode (byte :: bytes)) :=
    ⟨_, _, rfl⟩
  obtain ⟨byte, bytes, same⟩ := isEncoded
  rw [same]
  refine ⟨by simp [Text.Hex.encode, Text.Hex.pair], fun c member => ?_⟩
  rw [String.toList_ofList, Text.Hex.encode, List.mem_flatMap] at member
  obtain ⟨byte, -, isDigit⟩ := member
  have small : byte.toNat < 256 := byte.toNat_lt
  simp only [Text.Hex.pair, List.mem_cons, List.not_mem_nil, or_false] at isDigit
  rcases isDigit with rfl | rfl
  · exact ⟨_, by omega, rfl⟩
  · exact ⟨_, by omega, rfl⟩

end Digest

namespace Store

section Framing

theorem cutLine?_append {front : List UInt8} (oneLine : 10 ∉ front) (rest : List UInt8) :
    cutLine? (front ++ 10 :: rest) = some (front, rest) := by
  have all : ∀ byte ∈ front, (byte != 10) = true := by
    intro byte member
    simpa using fun same : byte = 10 => oneLine (same ▸ member)
  unfold cutLine?
  rw [List.dropWhile_append_of_pos all, List.takeWhile_append_of_pos all]
  simp

theorem toList_entryContents (hash : String) (bytes : ByteArray) :
    (entryContents hash bytes).toList = version.toUTF8.data.toList ++
      10 :: (hash.toUTF8.data.toList ++ 10 :: bytes.data.toList) := by
  have lineFeed : "\n".toByteArray.data.toList = [10] := by decide
  simp only [entryContents, Text.Utf8.toList_eq, ByteArray.toList_data_append,
    String.toUTF8_eq_toByteArray, String.toByteArray_append, lineFeed, List.append_assoc,
    List.nil_append, List.cons_append]

/-- The contents of an entry are taken apart as they were put together, whatever the bytes are. -/
theorem splitEntry?_entryContents {hash : String} (oneLine : '\n' ∉ hash.toList)
    (bytes : ByteArray) :
    splitEntry? (entryContents hash bytes) = some (version, hash, bytes) := by
  have versionLine : 10 ∉ version.toUTF8.data.toList := by decide
  have hashLine : 10 ∉ hash.toUTF8.data.toList := Text.Utf8.lineFeed_notMem_toUTF8 oneLine
  have whole (part : ByteArray) : (⟨part.data.toList.toArray⟩ : ByteArray) = part := rfl
  unfold splitEntry?
  rw [toList_entryContents, cutLine?_append versionLine]
  simp only [Option.bind_eq_bind, Option.bind_some, cutLine?_append hashLine, whole,
    Artifact.decode?_toUTF8]
  rfl

end Framing

section Places

/-- The name of the file of an entry, without its last letter. -/
def flatName (name : String) : String :=
  name.map fun c => if c == '/' || c == '\\' || c == ':' then '_' else c

/-- Two keys have the same file. -/
def SameFile (one other : CacheKey) : Prop :=
  one.1 = other.1 ∧ flatName one.2 = flatName other.2

instance (one other : CacheKey) : Decidable (SameFile one other) :=
  inferInstanceAs (Decidable (_ ∧ _))

theorem isName_digest (message : ByteArray) :
    Path.IsName (Digest.sha256 message) ∧ Digest.sha256 message ≠ ".." := by
  obtain ⟨notEmpty, digits⟩ := Digest.sha256_digits message
  have noMark : ∀ n < 16, Nat.digitChar n ≠ '/' ∧ Nat.digitChar n ≠ '.' := by decide
  refine ⟨⟨fun member => ?_, notEmpty, fun same => ?_⟩, fun same => ?_⟩
  · obtain ⟨n, small, same⟩ := digits '/' member
    exact (noMark n small).1 same.symm
  · obtain ⟨n, small, same⟩ := digits '.' (by simp [same])
    exact (noMark n small).2 same.symm
  · obtain ⟨n, small, same⟩ := digits '.' (by simp [same])
    exact (noMark n small).2 same.symm

theorem isName_flatName (name : String) :
    Path.IsName (flatName name ++ "c") ∧ flatName name ++ "c" ≠ ".." := by
  have noSlash (c : Char) : (if c == '/' || c == '\\' || c == ':' then '_' else c) ≠ '/' := by
    split
    · decide
    · rename_i plain
      simp_all
  have last : 'c' ∈ (flatName name ++ "c").toList := by simp
  refine ⟨⟨fun member => ?_, fun same => ?_, fun same => ?_⟩, fun same => ?_⟩
  · rw [String.toList_append, flatName, String.toList_map, List.mem_append] at member
    rcases member with inside | isLast
    · obtain ⟨c, -, isSlash⟩ := List.mem_map.mp inside
      exact noSlash c isSlash
    · simp at isLast
  · simp [same] at last
  · simp [same] at last
  · simp [same] at last

theorem components_entryPath (path : String) (key : CacheKey) :
    Path.components (entryPath path key) = Path.components path ++
      [Digest.sha256 key.1.toUTF8, flatName key.2 ++ "c"] := by
  change Path.components (Path.join (Path.join path (Digest.sha256 key.1.toUTF8))
    (flatName key.2 ++ "c")) = _
  rw [Path.components_join (isName_flatName key.2).1, Path.components_join (isName_digest _).1,
    List.append_assoc]
  rfl

theorem start_entryPath (files : FileTree) (path : String) (key : CacheKey) :
    files.start (entryPath path key) = files.start path := by
  have same : Path.isAbsolute (entryPath path key) = Path.isAbsolute path := by
    change Path.isAbsolute (Path.join (Path.join path (Digest.sha256 key.1.toUTF8))
      (flatName key.2 ++ "c")) = _
    rw [Path.isAbsolute_join (isName_flatName key.2).1, Path.isAbsolute_join (isName_digest _).1]
  rw [FileTree.start, FileTree.start, same]

theorem eq_of_advance {place next : List String} {name : String} (notDot : name ≠ ".")
    (notDots : name ≠ "..") (advanced : FileTree.advance place name = some next) :
    next = place ++ [name] := by
  unfold FileTree.advance at advanced
  rw [if_neg (by simpa using notDot), if_neg (by simpa using notDots)] at advanced
  split at advanced
  · cases advanced
  · exact (Option.some.inj advanced).symm

/-- The file of an entry stands in a directory for the name space. -/
theorem target_entryPath {files : FileTree} {path : String} {key : CacheKey} {names : List String}
    (leads : files.target (entryPath path key) = some names) :
    ∃ place, files.target path = some place ∧
      names = place ++ [Digest.sha256 key.1.toUTF8, flatName key.2 ++ "c"] := by
  unfold FileTree.target at leads
  rw [components_entryPath, start_entryPath, List.foldlM_append] at leads
  obtain ⟨place, isPlace, leads⟩ := Option.bind_eq_some_iff.mp leads
  rw [List.foldlM_cons] at leads
  obtain ⟨inside, first, leads⟩ := Option.bind_eq_some_iff.mp leads
  rw [List.foldlM_cons] at leads
  obtain ⟨file, second, last⟩ := Option.bind_eq_some_iff.mp leads
  cases last
  obtain ⟨isDigest, notDots⟩ := isName_digest key.1.toUTF8
  obtain ⟨isFlat, notDotsFlat⟩ := isName_flatName key.2
  refine ⟨place, isPlace, ?_⟩
  rw [eq_of_advance isFlat.2.2 notDotsFlat second, eq_of_advance isDigest.2.2 notDots first,
    List.append_assoc]
  rfl

/-- Keys whose files stand at the same place agree, but for characters that are replaced, as long as
the digests of their name spaces do not collide. -/
theorem sameFile_of_target {files : FileTree} {path : String} {one other : CacheKey}
    {names : List String}
    (noCollision : Digest.sha256 one.1.toUTF8 = Digest.sha256 other.1.toUTF8 → one.1 = other.1)
    (leads : files.target (entryPath path one) = some names)
    (same : files.target (entryPath path other) = some names) : SameFile one other := by
  obtain ⟨place, isPlace, rfl⟩ := target_entryPath leads
  obtain ⟨samePlace, isSame, names⟩ := target_entryPath same
  cases isPlace.symm.trans isSame
  simp only [List.append_cancel_left_eq, List.cons.injEq, String.append_left_inj, and_true] at names
  exact ⟨noCollision names.1, names.2⟩

theorem entryPath_congr {one other : CacheKey} (same : SameFile one other) (path : String) :
    entryPath path one = entryPath path other := by
  obtain ⟨namespaces, names⟩ := same
  change Path.join (Path.join path (Digest.sha256 one.1.toUTF8)) (flatName one.2 ++ "c") = _
  rw [namespaces, names]
  rfl

end Places

section Runs

/-- A call that puts an entry into a store. -/
structure Put where
  now : Nat
  key : CacheKey
  hash : String
  bytes : ByteArray

/-- Put entries into a directory, one after the other. -/
def putAll (path : String) : List Put → FileTree → Except FileError FileTree
  | [], files => .ok files
  | put :: rest, files => do
    let (files, _) ← Store.put files put.now (.directory path) put.key put.hash put.bytes
    putAll path rest files

/-- The bytes of an entry, if it came with this hash. -/
def Put.bytes? (put : Put) (hash : String) : Option ByteArray :=
  if put.hash == hash then some put.bytes else none

variable {path hash : String} {key : CacheKey} {files later : FileTree} {puts : List Put} {call : Put}

/-- What the file of a key has: what was put there last, or nothing. -/
def FileHas (files : FileTree) (path : String) (key : CacheKey) : Option Put → Prop
  | none => files.Vacant (entryPath path key)
  | some put => files.read (entryPath path key) = .ok (entryContents put.hash put.bytes)

theorem place_of_put (call : Put) {store : Store}
    (isPut : Store.put files call.now (.directory path) call.key call.hash call.bytes = .ok (later, store)) :
    files.place call.now (entryPath path call.key) (entryContents call.hash call.bytes) = .ok later := by
  unfold Store.put at isPut
  cases placed : files.place call.now (entryPath path call.key) (entryContents call.hash call.bytes) with
  | error error =>
    simp only [placed, Bind.bind, Except.bind] at isPut
    cases isPut
  | ok tree =>
    simp only [placed, Bind.bind, Except.bind] at isPut
    cases isPut
    rfl

theorem FileHas.put {store : Store} {held : Option Put} (has : FileHas files path key held)
    (noCollision : Digest.sha256 call.key.1.toUTF8 = Digest.sha256 key.1.toUTF8 → call.key.1 = key.1)
    (isPut : Store.put files call.now (.directory path) call.key call.hash call.bytes = .ok (later, store)) :
    FileHas later path key (if SameFile call.key key then some call else held) := by
  have placed := place_of_put call isPut
  split
  · rename_i same
    rw [FileHas, ← entryPath_congr same path]
    exact FileTree.read_place placed
  · rename_i differs
    have elsewhere : files.target (entryPath path key) ≠
        files.target (entryPath path call.key) := by
      intro same
      obtain ⟨names, leads⟩ := FileTree.target_of_place placed
      exact differs (sameFile_of_target noCollision leads (same.trans leads))
    cases held with
    | none => exact FileTree.Vacant.place has placed elsewhere
    | some old => exact FileTree.read_place_of_ne placed elsewhere has

theorem FileHas.putAll {held : Option Put} (has : FileHas files path key held)
    (noCollision : ∀ put ∈ puts, Digest.sha256 put.key.1.toUTF8 = Digest.sha256 key.1.toUTF8 →
      put.key.1 = key.1)
    (stored : putAll path puts files = .ok later) :
    FileHas later path key (((puts.filter (SameFile ·.key key)).getLast?).or held) := by
  induction puts generalizing files held with
  | nil =>
    cases stored
    exact has
  | cons put rest ih =>
    unfold Store.putAll at stored
    cases isPut : Store.put files put.now (.directory path) put.key put.hash put.bytes with
    | error error =>
      rw [isPut] at stored
      cases stored
    | ok result =>
      rw [isPut] at stored
      have step := has.put (noCollision put List.mem_cons_self) isPut
      have goesOn := ih step (fun put member => noCollision put (List.mem_cons_of_mem _ member)) stored
      by_cases same : SameFile put.key key
      · rw [if_pos same] at goesOn
        rw [List.filter_cons_of_pos (by simpa using same), List.getLast?_cons]
        cases last : (rest.filter (SameFile ·.key key)).getLast? with
        | none =>
          rw [last] at goesOn
          exact goesOn
        | some other =>
          rw [last] at goesOn
          exact goesOn
      · rw [if_neg same] at goesOn
        rwa [List.filter_cons_of_neg (by simpa using same)]

theorem get_of_not_read (notRead : ∀ contents, files.read (entryPath path key) ≠ .ok contents)
    (hash : String) : (Store.get files (.directory path) key hash).1 = none := by
  unfold Store.get
  dsimp only
  split
  · rfl
  · rfl
  · rename_i isRead
    exact absurd isRead (notRead _)

theorem FileHas.get {held : Option Put} (has : FileHas files path key held)
    (oneLine : ∀ put ∈ held, '\n' ∉ put.hash.toList) (hash : String) :
    (Store.get files (.directory path) key hash).1 = held.bind (·.bytes? hash) := by
  cases held with
  | none => exact get_of_not_read (fun _ => FileTree.Vacant.not_read has) hash
  | some put =>
    have isRead : files.read (entryPath path key) = .ok (entryContents put.hash put.bytes) := has
    have split := splitEntry?_entryContents (oneLine put rfl) put.bytes
    unfold Store.get
    simp only [isRead, split, Option.bind_some, Put.bytes?, bne_self_eq_false, Bool.false_eq_true,
      if_false]

/-- After some calls, a directory gives back what was last put into the file of a key, if it came with
the same hash, and nothing else. Where no other key has the same file, this is what was last put there
under the key. -/
theorem get_putAll (vacant : files.Vacant (entryPath path key))
    (oneLine : ∀ put ∈ puts, '\n' ∉ put.hash.toList)
    (noCollision : ∀ put ∈ puts, Digest.sha256 put.key.1.toUTF8 = Digest.sha256 key.1.toUTF8 →
      put.key.1 = key.1)
    (stored : putAll path puts files = .ok later) :
    (Store.get later (.directory path) key hash).1 =
        ((puts.filter (SameFile ·.key key)).getLast?).bind (·.bytes? hash) ∧
      ((∀ put ∈ puts, SameFile put.key key → put.key = key) →
        (Store.get later (.directory path) key hash).1 =
          ((puts.filter (·.key == key)).getLast?).bind (·.bytes? hash)) := by
  have start : FileHas files path key none := vacant
  have has := start.putAll noCollision stored
  rw [Option.or_none] at has
  have isFound := has.get (fun put last => oneLine put ?_) hash
  · refine ⟨isFound, fun alone => ?_⟩
    rw [isFound]
    congr 2
    refine List.filter_congr fun put member => ?_
    rw [Bool.eq_iff_iff, decide_eq_true_iff, beq_iff_eq]
    exact ⟨alone put member, fun same => same ▸ ⟨rfl, rfl⟩⟩
  · exact (List.mem_filter.mp (List.mem_of_getLast? last)).1

theorem vacant_empty (path : String) : FileTree.empty.Vacant path := by
  rintro names - ⟨contents, time, stands⟩
  unfold FileTree.entryAt at stands
  split at stands
  · cases stands
  · cases stands

/-- An entry is replaced. -/
def sampleCalls : List Put :=
  [⟨0, ("n", "a/b"), "h", "x".toUTF8⟩, ⟨1, ("n", "a/b"), "g", "z\nz".toUTF8⟩]

theorem digest_of_sample : Digest.sha256 "n".toUTF8 =
    "1b16b1df538ba12dc3f97edbb85caa7050d46c148134290feba80f8236c83db9" := by decide +kernel

/-- A directory below the working directory, and one that is named from the root. -/
def sampleDirectories : List String := ["cache", "/var/cache"]

theorem stored_sample {path : String} (sample : path ∈ sampleDirectories) :
    ∃ later, putAll path sampleCalls .empty = .ok later := by
  have succeeds : ∀ path ∈ sampleDirectories, (putAll path sampleCalls .empty).isOk = true := by
    simp only [sampleCalls, putAll, put, entryPath, digest_of_sample]
    decide +kernel
  replace succeeds := succeeds path sample
  cases stored : putAll path sampleCalls .empty with
  | error error =>
    rw [stored] at succeeds
    cases succeeds
  | ok later => exact ⟨later, rfl⟩

theorem get_putAll_of_calls :
    (∃ later, putAll "cache" sampleCalls .empty = .ok later ∧
      (Store.get later (.directory "cache") ("n", "a/b") "g").1 = some "z\nz".toUTF8 ∧
      (Store.get later (.directory "cache") ("n", "a/b") "h").1 = none) ∧
    ∃ later, putAll "/var/cache" sampleCalls .empty = .ok later ∧
      (Store.get later (.directory "/var/cache") ("n", "a/b") "g").1 = some "z\nz".toUTF8 ∧
      (Store.get later (.directory "/var/cache") ("n", "a/b") "h").1 = none := by
  have holds : ∀ path ∈ sampleDirectories, ∃ later, putAll path sampleCalls .empty = .ok later ∧
      (Store.get later (.directory path) ("n", "a/b") "g").1 = some "z\nz".toUTF8 ∧
      (Store.get later (.directory path) ("n", "a/b") "h").1 = none := by
    intro path sample
    obtain ⟨later, stored⟩ := stored_sample sample
    have oneLine : ∀ call ∈ sampleCalls, '\n' ∉ call.hash.toList := by decide
    have namespaces : ∀ call ∈ sampleCalls, call.key.1 = "n" := by decide
    have alone : ∀ call ∈ sampleCalls, SameFile call.key ("n", "a/b") → call.key = ("n", "a/b") := by
      decide +kernel
    have found (hash : String) : (Store.get later (.directory path) ("n", "a/b") hash).1 = _ :=
      (get_putAll (vacant_empty _) oneLine (fun call member _ => namespaces call member) stored).2 alone
    refine ⟨later, stored, (found "g").trans ?_, (found "h").trans ?_⟩
    · decide
    · decide
  exact ⟨holds _ (by decide), holds _ (by decide)⟩

/-- What was put under a key is found under another, whose name has a low line instead of a slash. -/
theorem other_key_found :
    ∃ later, putAll "cache" sampleCalls .empty = .ok later ∧
      (∀ call ∈ sampleCalls, call.key ≠ ("n", "a_b")) ∧
      (Store.get later (.directory "cache") ("n", "a_b") "g").1 = some "z\nz".toUTF8 := by
  obtain ⟨later, stored⟩ := stored_sample (List.mem_cons_self : "cache" ∈ sampleDirectories)
  have start : FileHas .empty "cache" ("n", "a_b") none := vacant_empty _
  have namespaces : ∀ call ∈ sampleCalls, call.key.1 = "n" := by decide
  have has := start.putAll (fun call member _ => namespaces call member) stored
  have last : (sampleCalls.filter (SameFile ·.key ("n", "a_b"))).getLast? =
      some ⟨1, ("n", "a/b"), "g", "z\nz".toUTF8⟩ := by
    have same : SameFile ("n", "a/b") ("n", "a_b") := by
      refine ⟨rfl, String.toList_inj.mp ?_⟩
      rw [flatName, flatName, String.toList_map, String.toList_map]
      decide
    simp [sampleCalls, same]
  rw [last] at has
  refine ⟨later, stored, by decide, (has.get ?_ "g").trans ?_⟩
  · rintro put ⟨⟩
    decide
  · decide

end Runs

section Below

variable {files : FileTree} {path : String} {names : List String}

/-- Nothing can be found below a file. -/
theorem not_located_below (leads : files.target path = some names) (isFile : files.HasFile names)
    (key : CacheKey) (place : List String) : files.locate (entryPath path key) ≠ .ok place := by
  intro located
  have followed := (FileTree.locate_ok_iff.mp located).2.1
  rw [components_entryPath, start_entryPath] at followed
  obtain ⟨between, same, followed⟩ := FileTree.follow_append followed
  cases leads.symm.trans same
  obtain ⟨time, next, isDirectory, -⟩ := FileTree.follow_cons.mp followed
  obtain ⟨contents, modified, stands⟩ := isFile
  cases stands.symm.trans isDirectory

/-- A store fails whose directory is a file. -/
theorem put_below (leads : files.target path = some names) (isFile : files.HasFile names)
    (now : Nat) (key : CacheKey) (hash : String) (bytes : ByteArray) :
    ∃ error, Store.put files now (.directory path) key hash bytes = .error error := by
  cases isPut : Store.put files now (.directory path) key hash bytes with
  | error error => exact ⟨error, rfl⟩
  | ok result =>
    obtain ⟨between, grows, written⟩ :=
      FileTree.grows_of_place (place_of_put ⟨now, key, hash, bytes⟩ isPut)
    obtain ⟨place, located, -⟩ := FileTree.write_ok written
    obtain ⟨contents, time, stands⟩ := isFile
    rw [← FileTree.target_congr grows.here] at leads
    exact absurd located
      (not_located_below leads ⟨contents, time, grows.keeps names _ stands⟩ key place)

theorem get_below (leads : files.target path = some names) (isFile : files.HasFile names)
    (key : CacheKey) (hash : String) : (Store.get files (.directory path) key hash).1 = none := by
  refine get_of_not_read (fun contents isRead => ?_) hash
  obtain ⟨place, time, located, -⟩ := FileTree.read_ok_iff.mp isRead
  exact not_located_below leads isFile key place located

end Below

end Store

end Stylesheet
