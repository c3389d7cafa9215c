import ScriptGraph.Value.Access

/-!
# The cache of results

The cache keeps the record of every script together with the state of its file.  It is one value:
its version, the time at which it was made, and the entries by path.
-/

namespace ScriptGraph

/-- What is kept of a script: the time and the size of its file, its record and its digest. -/
structure CacheEntry where
  mtime : Value
  size : Value
  record : Value
  digest : Value

/-- The results of a tree of scripts. -/
structure Cache where
  version : String
  createdAt : Value
  files : List (Key × CacheEntry)

/-- Why a value is no cache. -/
inductive CacheError where
  | access (error : AccessError)
  | notMap (value : Value)
  | filesNotMap (value : Value)

namespace CacheError

def message : CacheError → String
  | access error => error.message
  | notMap value => "'" ++ value.typeName ++ "' object has no attribute 'get'"
  | filesNotMap value => "'" ++ value.typeName ++ "' object has no attribute 'items'"

end CacheError

namespace CacheEntry

def toValue (entry : CacheEntry) : Value :=
  .map [
    (.text "mtime", entry.mtime), (.text "size", entry.size), (.text "record", entry.record),
    (.text "content_hash", entry.digest)]

/-- The entry that a value stands for; a digest may be missing. -/
def ofValue (v : Value) : Except AccessError CacheEntry := do
  let mtime ← v.get "mtime"
  let size ← v.get "size"
  let record ← v.get "record"
  .ok ⟨mtime, size, record, (v.get "content_hash").toOption.getD (.text "")⟩

end CacheEntry

namespace Cache

def currentVersion : String := "1.0"

def empty (createdAt : String) : Cache := ⟨currentVersion, .text createdAt, []⟩

def toValue (cache : Cache) : Value :=
  .map [
    (.text "version", .text cache.version),
    (.text "created_at", cache.createdAt),
    (.text "files", .map (cache.files.map fun (path, entry) => (path, entry.toValue)))]

def entriesOfValues :
    List (Key × Value) → Except AccessError (List (Key × CacheEntry))
  | [] => .ok []
  | (path, v) :: later => do
      let entry ← CacheEntry.ofValue v
      let rest ← entriesOfValues later
      .ok ((path, entry) :: rest)

def isCurrentVersion : Option Value → Bool
  | some (.text s) => s == currentVersion
  | _ => false

/-- The cache that a value stands for; a cache of another version counts as none. -/
def ofValue : Value → Except CacheError (Option Cache)
  | .map fields =>
      -- the version comes first: what another version holds is not looked at
      if isCurrentVersion (Value.lookup (.text "version") fields) then do
        let entries ← match (Value.lookup (.text "files") fields).getD (.map []) with
          | .map entries => (entriesOfValues entries).mapError .access
          | other => .error (.filesNotMap other)
        let createdAt ← ((Value.map fields).get "created_at").mapError .access
        .ok (some ⟨currentVersion, createdAt, entries⟩)
      else .ok none
  | other => .error (.notMap other)

end Cache

end ScriptGraph
