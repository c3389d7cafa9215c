import ScriptGraph.Script.Parse

/-!
# Outcomes of files

What became of one file of a script tree.
-/

namespace ScriptGraph

/-- What became of reading and parsing a file. -/
inductive FileResult where
  /-- The script has a definition. -/
  | parsed (script : ParsedScript)
  /-- The script creates nothing. -/
  | nothing
  /-- The file has no result, for the reason given. -/
  | failed (reason : String)
deriving DecidableEq

/-- A file, by its path below the root of the tree, with its result. -/
structure FileOutcome where
  file : String
  result : FileResult
deriving DecidableEq

namespace FileResult

def ofParse : Option ParsedScript → FileResult
  | some script => parsed script
  | none => nothing

def script? : FileResult → Option ParsedScript
  | parsed script => some script
  | _ => none

def reason? : FileResult → Option String
  | failed reason => some reason
  | _ => none

end FileResult

namespace FileOutcome

/-- The files that have no result, each with the reason. -/
def failures (files : List FileOutcome) : List (String × String) :=
  files.filterMap fun f => f.result.reason?.map fun reason => (f.file, reason)

/-- The files that create nothing. -/
def skipped (files : List FileOutcome) : List String :=
  (files.filter fun f => f.result == .nothing).map (·.file)

end FileOutcome

end ScriptGraph
