import ScriptGraph.Bytes.Sha256
import ScriptGraph.Cache.Basic
import ScriptGraph.Tree.Basic

/-!
# Reusing cached results

An entry is fresh if its file has the same time and the same size.  If only the time differs, the
digest decides, and a fresh entry takes the new time over.
-/

namespace ScriptGraph

def FileState.digest (file : FileState) : String := Sha256.hexDigest file.bytes

namespace CacheEntry

/-- Whether an entry has the digest of a file; an entry without a digest has not. -/
def hasDigestOf (entry : CacheEntry) (file : FileState) : Bool :=
  match entry.digest with
  | .text digest => digest != "" && file.digest == digest
  | _ => false

/-- The entry with the time that makes it fresh for a file, if it is fresh. -/
def refresh? (entry : CacheEntry) (file : FileState) : Option CacheEntry :=
  -- the digest is worked out only if the time alone has changed
  if !entry.size.eqInt file.size then none
  else if entry.mtime.eqDouble file.mtime then some entry
  else if entry.hasDigestOf file then some { entry with mtime := .float file.mtime }
  else none

end CacheEntry

namespace Cache

def get? (cache : Cache) (path : String) : Option CacheEntry := cache.files.lookup (.text path)

def put (cache : Cache) (path : String) (entry : CacheEntry) : Cache :=
  { cache with files := Entries.put (.text path) entry cache.files }

/-- Setting an entry changes one path and nothing else. -/
theorem get?_put (cache : Cache) (path other : String) (entry : CacheEntry) :
    (cache.put path entry).get? other = if other = path then some entry else cache.get? other := by
  simp [get?, put, Entries.lookup_put]

/-- The cache with the entry of a path refreshed, if the entry is fresh for the file. -/
def refresh? (cache : Cache) (path : String) (file : Option FileState) : Option Cache := do
  let entry ← cache.get? path
  let file ← file
  let entry ← entry.refresh? file
  some (cache.put path entry)

def keepOnly (cache : Cache) (paths : List String) : Cache :=
  { cache with files := cache.files.filter fun (path, _) =>
      match path with
      | .text s => paths.contains s
      | .bytes _ => false }

end Cache

end ScriptGraph
