import Stylesheet.Cache.Artifact

/-!
Stores of bytes by key. An entry is only given back under the hash with which it was stored. A
chain of stores is filled as a whole, and asked in order; what a later store has is copied to the
earlier ones.
-/

namespace Stylesheet

/-- A name space and a name in it. -/
abbrev CacheKey := String × String

/-- Where entries are kept. -/
inductive Store where
  | memory (entries : Bindings CacheKey (String × ByteArray))
  /-- One file for each entry, below a directory. -/
  | directory (path : String)

/-- One use of a store. -/
inductive CacheAccess where
  | stored (store : Nat) (key : CacheKey) (hash : String) (bytes : ByteArray) (ok : Bool)
  | retrieved (store : Nat) (key : CacheKey) (hash : String) (hit : Bool)

/-- Files, stores and what happens to them. -/
structure Workspace where
  files : FileTree
  stores : List Store
  accesses : List CacheAccess
  log : Log
  /-- The time in milliseconds since the epoch. -/
  now : Nat

namespace Store

/-- The file of an entry below a directory. -/
def entryPath (path : String) (key : CacheKey) : String :=
  let name := key.2.map fun c => if c == '/' || c == '\\' || c == ':' then '_' else c
  Path.join (Path.join path (Digest.sha256 key.1.toUTF8)) (name ++ "c")

/-- The contents of the file of an entry: version and hash on a line each, and the bytes. -/
def entryContents (hash : String) (bytes : ByteArray) : ByteArray :=
  (version ++ "\n" ++ hash ++ "\n").toUTF8 ++ bytes

/-- Cut at the first line feed. -/
def cutLine? (bytes : List UInt8) : Option (List UInt8 × List UInt8) :=
  match bytes.dropWhile (· != 10) with
  | [] => none
  | _ :: rest => some (bytes.takeWhile (· != 10), rest)

/-- Version, hash and bytes of an entry. -/
def splitEntry? (contents : ByteArray) : Option (String × String × ByteArray) := do
  let (first, rest) ← cutLine? contents.toList
  let (second, rest) ← cutLine? rest
  return (← Text.Utf8.decode? ⟨first.toArray⟩, ← Text.Utf8.decode? ⟨second.toArray⟩, ⟨rest.toArray⟩)

/-- Put an entry into a store. -/
def put (files : FileTree) (now : Nat) (store : Store) (key : CacheKey) (hash : String)
    (bytes : ByteArray) : Except FileError (FileTree × Store) :=
  match store with
  | memory entries => .ok (files, memory (entries.insert key (hash, bytes)))
  | directory path => do
    let files ← files.place now (entryPath path key) (entryContents hash bytes)
    return (files, store)

/-- Take an entry out of a store, if it was stored with this hash. -/
def get (files : FileTree) (store : Store) (key : CacheKey) (hash : String) :
    Option ByteArray × Log :=
  match store with
  | memory entries =>
    match entries.find? key with
    | some (stored, bytes) => (if stored == hash then some bytes else none, [])
    | none => (none, [])
  | directory path =>
    match files.read (entryPath path key) with
    | .error .notFound => (none, [])
    | .error _ => (none, [LogEntry.warning "could not read cache entry"])
    | .ok contents =>
      match splitEntry? contents with
      | none => (none, [LogEntry.warning "cache entry has no valid header"])
      | some (found, stored, bytes) =>
        if found != version then
          (none, [LogEntry.warning "cache entry written by another version"])
        else (if stored == hash then some bytes else none, [])

end Store

namespace Workspace

/-- Work on files and stores. -/
abbrev Working := StateM Workspace

def logEntries (entries : Log) : Working Unit :=
  modify fun workspace => { workspace with log := workspace.log ++ entries }

def note (access : CacheAccess) : Working Unit :=
  modify fun workspace => { workspace with accesses := workspace.accesses ++ [access] }

/-- Put an entry into one store. -/
def storeIn (index : Nat) (key : CacheKey) (hash : String) (bytes : ByteArray) :
    Working (Except FileError Unit) := do
  let workspace ← get
  match workspace.stores[index]? with
  | none => return .ok ()
  | some store =>
    match store.put workspace.files workspace.now key hash bytes with
    | .ok (files, store) =>
      set { workspace with files, stores := workspace.stores.set index store }
      note (.stored index key hash bytes true)
      return .ok ()
    | .error error =>
      note (.stored index key hash bytes false)
      return .error error

/-- Take an entry out of one store. -/
def retrieveFrom (index : Nat) (key : CacheKey) (hash : String) : Working (Option ByteArray) := do
  let workspace ← get
  match workspace.stores[index]? with
  | none => return none
  | some store =>
    let (found, log) := store.get workspace.files key hash
    logEntries log
    note (.retrieved index key hash found.isSome)
    return found

def storeInAll (key : CacheKey) (hash : String) (bytes : ByteArray) :
    List Nat → Working (Except FileError Unit)
  | [] => return .ok ()
  | index :: rest => do
    match ← storeIn index key hash bytes with
    | .ok () => storeInAll key hash bytes rest
    | .error error => return .error error

def copyTo (key : CacheKey) (hash : String) (bytes : ByteArray) :
    List Nat → Working Unit
  | [] => return ()
  | index :: rest => do
    match ← storeIn index key hash bytes with
    | .ok () => pure ()
    | .error _ => logEntries [LogEntry.warning "could not copy cache entry"]
    copyTo key hash bytes rest

def retrieveFromFirst (key : CacheKey) (hash : String) (earlier : List Nat) :
    List Nat → Working (Option ByteArray)
  | [] => return none
  | index :: rest => do
    match ← retrieveFrom index key hash with
    | some bytes =>
      copyTo key hash bytes earlier
      return some bytes
    | none => retrieveFromFirst key hash (earlier ++ [index]) rest

/-- Put an entry into all stores, up to the first that fails. -/
def store (key : CacheKey) (hash : String) (bytes : ByteArray) : Working (Except FileError Unit) := do
  storeInAll key hash bytes (List.range (← get).stores.length)

/-- Take an entry out of the first store that has it, and copy it to those before. -/
def retrieve (key : CacheKey) (hash : String) : Working (Option ByteArray) := do
  retrieveFromFirst key hash [] (List.range (← get).stores.length)

end Workspace

end Stylesheet
