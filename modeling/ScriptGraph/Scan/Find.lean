import ScriptGraph.Cache.Storage
import ScriptGraph.Text.LowerCase
import ScriptGraph.Tree.Basic

/-!
# Finding scripts

The scripts of a directory are the files below it with the extension of scripts, except in
directories that hold no sources.
-/

namespace ScriptGraph.Scan

def extension : String := ".sql"

/-- The names of directories that are left out: those of version control, of tools, of build
outputs, and that of the cache. -/
def skippedNames : List String := [
  ".git", ".svn", ".hg", "__pycache__", ".pytest_cache", ".tox", "venv", ".venv", "bin", "obj",
  "dist", "build", ".vs", ".vscode", ".idea", Cache.directoryName]

/-- The extension of a file name: the part from the last dot on, if that dot is neither the first
nor the last character. -/
def extensionOf (name : List Char) : List Char :=
  let tail := name.reverse.takeWhile (· != '.')
  let stem := name.reverse.drop (tail.length + 1)
  if tail.isEmpty || stem.isEmpty then [] else '.' :: tail.reverse

def isScriptName (name : String) : Bool :=
  String.ofList (Text.lower (extensionOf name.toList)) == extension

/-- Whether a file counts: it is a script, and none of its directories is left out. -/
def isWanted (exclude : List String) (place : Place) : Bool :=
  match place.getLast? with
  | none => false
  | some name =>
      isScriptName name &&
        !place.dropLast.any fun part => skippedNames.contains part || exclude.contains part

/-- The scripts below a place, as seen from there, in the order of their places. -/
def find (t : Tree) (top : Place) (exclude : List String) : List Place :=
  ((t.filesBelow top).filter (isWanted exclude)).mergeSort Place.le

end ScriptGraph.Scan
