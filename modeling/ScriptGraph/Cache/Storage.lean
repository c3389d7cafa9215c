import ScriptGraph.Cache.Basic
import ScriptGraph.Log.Basic
import ScriptGraph.MessagePack.Decode
import ScriptGraph.MessagePack.Encode
import ScriptGraph.Tree.Basic

/-!
# Cache files

The cache of a tree of scripts is a file below the root of the scripts, in MessagePack.  A file that
is no cache of the current version is passed over.
-/

namespace ScriptGraph.Cache

def directoryName : String := ".invograph"

def wayFrom (root : List String) : List String := root ++ [directoryName, "parse_cache.msgpack"]

/-- What becomes of loading a cache file. -/
inductive Loading where
  | absent
  | loaded (cache : Cache)
  /-- The cache has another version. -/
  | outdated
  /-- The file cannot be read, or its content is no cache, for the reason given. -/
  | damaged (reason : String)
  /-- The content has a shape in which no cache is looked for. -/
  | broken (error : CacheError)

namespace Loading

def log : Loading → Log
  | outdated => [.info "  Parse cache version mismatch, ignoring cache"]
  | damaged reason => [.warning ("  Failed to load parse cache: " ++ reason)]
  | _ => []

def cache? : Loading → Except CacheError (Option Cache)
  | loaded cache => .ok (some cache)
  | broken error => .error error
  | _ => .ok none

end Loading

def loadValue (v : Value) : Loading :=
  match ofValue v with
  | .ok (some cache) => .loaded cache
  | .ok none => .outdated
  | .error (.access error) => .damaged error.message
  | .error error => .broken error

def loadBytes (bytes : List UInt8) : Loading :=
  match MessagePack.unpack? bytes with
  | some v => loadValue v
  | none => .damaged "Unpack failed"

def load (t : Tree) (root : Place) : Loading :=
  match t.find (wayFrom root) with
  -- a way that leads nowhere, also through a file, counts as no cache
  | .error _ => .absent
  | .ok (place, .directory) => .damaged (FileFault.isDirectory.message (t.shown place))
  | .ok (_, .file state) => loadBytes state.bytes

def toBytes (packer : MessagePack.Packer) (cache : Cache) :
    Except MessagePack.PackError (List UInt8) :=
  MessagePack.pack packer cache.toValue

/-- What becomes of saving a cache. -/
structure Saving where
  tree : Tree
  log : Log := []
  /-- Why the cache cannot be written at all. -/
  error : Option MessagePack.PackError := none

/-- Saves the cache of a directory at the given time.  A fault of the file system is told to the
log; a cache that cannot be written leaves an empty file. -/
def save (packer : MessagePack.Packer) (t : Tree) (root : Place) (mtime : Double) (cache : Cache) :
    Saving :=
  let failed (fault : FileFault) (way : List String) : Log :=
    [.warning ("  Failed to save parse cache: " ++ fault.message (t.shown way))]
  match t.makeDirectory (root ++ [directoryName]) with
  | .error fault => { tree := t, log := failed fault (root ++ [directoryName]) }
  | .ok made =>
      let way := wayFrom root
      match cache.toBytes packer with
      | .ok bytes =>
          match made.write way ⟨bytes, mtime⟩ with
          | .error fault => { tree := made, log := failed fault way }
          | .ok written =>
              { tree := written
                log := [.info ("  Saved parse cache with " ++ toString cache.files.length ++
                  " files")] }
      | .error error =>
          -- the file is opened before the cache is packed
          match made.write way ⟨[], mtime⟩ with
          | .error fault => { tree := made, log := failed fault way }
          | .ok written => { tree := written, error := some error }

end ScriptGraph.Cache
