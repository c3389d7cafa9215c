import Std.Async.System
import Std.Time
import ScriptGraph.Command.Run

/-!
# The program

Takes what a command can see from the file system, runs the command, and carries out what it has
decided: the files it has written, the log, the output and the status.
-/

namespace ScriptGraph.Program

def secondsOf (nanoseconds : Int) : Double := Double.ofRatio nanoseconds 1000000000

def twoDigits (n : Int) : String := (if n < 10 then "0" else "") ++ toString n

/-- The present time, and the time of day as the log shows it. -/
def presentTime : IO (Clock × String) := do
  let now ← Std.Time.Timestamp.now
  let dateTime := Std.Time.DateTime.ofTimestamp now .UTC
  let day := twoDigits dateTime.hour.val ++ ":" ++ twoDigits dateTime.minute.val ++ ":" ++
    twoDigits dateTime.second.val
  let text := toString dateTime.year ++ "-" ++ twoDigits dateTime.month.val ++ "-" ++
    twoDigits dateTime.day.val ++ "T" ++ day ++ "+00:00"
  return (⟨text, secondsOf now.toNanosecondsSinceUnixEpoch.val⟩, day)

def presentSettings : IO Environment := do
  return {
    workers := ← IO.getEnv Scan.workersSetting
    logLevel := ← IO.getEnv "INVOGRAPH_LOG_LEVEL"
    disableProgress := ← IO.getEnv "INVOGRAPH_DISABLE_PROGRESS"
    processors := (← Std.Async.System.getCPUInfo).size }

/-- Whether the content of a file matters to a command. -/
def isOfUse (place : Place) : Bool :=
  place.getLast?.any Scan.isScriptName || (Cache.wayFrom []).isSuffixOf place

def pathOf (t : Tree) (place : Place) :=
  (fun here => here / (if place.isEmpty then "/" else t.shown place)) <$> IO.currentDir

def takeFile (t : Tree) (place : Place) : IO Tree := do
  let path ← pathOf t place
  if ← path.pathExists then
    let time := (← path.metadata).modified
    let mtime := secondsOf (time.sec * 1000000000 + time.nsec.toNat)
    return t.put place (.file ⟨(← IO.FS.readBinFile path).toList, mtime⟩)
  else return t

/-- Takes a directory into a tree, with everything of use below it. -/
partial def takeDirectory (t : Tree) (place : Place) : IO Tree := do
  let mut t := if place.isEmpty then t else t.put place .directory
  for entry in ← (← pathOf t place).readDir do
    let inner := place ++ [entry.fileName]
    if ← entry.path.isDir then t ← takeDirectory t inner
    else if isOfUse inner then t ← takeFile t inner
  return t

/-- Takes what is at a place into a tree, and the directories above it. -/
def takeAt (t : Tree) (place : Place) : IO Tree := do
  let mut t := t
  for above in Tree.wayTo place.dropLast do
    if ← (← pathOf t above).isDir then t := t.put above .directory
  if ← (← pathOf t place).isDir then takeDirectory t place else takeFile t place

/-- The tree of what the words of a command may name. -/
def presentTree (here : Place) (words : List String) : IO Tree := do
  let mut t : Tree := { location := "" }
  for word in words ++ words.filterMap fun word => (Command.splitWord word).2 do
    t ← takeAt t (Place.ofWay ((Path.ofText word).fromTop here))
  return t

def writeChanges (before after : Tree) : IO Unit := do
  for (place, node) in after.changesSince before do
    match node with
    | .directory => IO.FS.createDirAll (after.shown place)
    | .file state => IO.FS.writeBinFile (after.shown place) ⟨state.bytes.toArray⟩

def elapsedText (milliseconds : Nat) : String :=
  toString (milliseconds / 1000) ++ "." ++ twoDigits (milliseconds % 1000 / 10 : Nat)

/-- Runs a command in the present surroundings; the result is its status. -/
def run (words : List String) : IO UInt32 := do
  let start ← IO.monoMsNow
  let (clock, day) ← presentTime
  let env ← presentSettings
  let here := (Path.ofText (← IO.currentDir).toString).parts
  let tree ← presentTree here words
  let run := Command.run { env, clock, tree, here } .info words
  writeChanges tree run.outcome.tree
  for line in run.shown (elapsedText ((← IO.monoMsNow) - start)) do
    IO.eprintln ("[invograph] " ++ day ++ " " ++ line.severity.label ++ ": " ++ line.text)
  IO.print run.outcome.stdout
  IO.eprint run.outcome.stderr
  match run.outcome.ending with
  | .ok status => return UInt32.ofNat status
  | .error (.script error) => IO.eprintln error.message; return 1
  | .error (.scan error) => IO.eprintln error.message; return 1

end ScriptGraph.Program

def main (words : List String) : IO UInt32 := ScriptGraph.Program.run words
