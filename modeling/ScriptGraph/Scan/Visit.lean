import ScriptGraph.Cache.Reuse
import ScriptGraph.FileOutcome
import ScriptGraph.Script.Encoding

/-!
# Visiting a script

A visitor of a file reads it, takes its state and then its digest.  The file may change or vanish
between these steps, so each of them sees the file for itself.
-/

namespace ScriptGraph

/-- What may happen to a file when a script is read from it. -/
inductive Mishap where
  | denied (reason : String)
  | failed (reason : String)
  /-- The reader itself fails. -/
  | broken (reason : String)
  /-- The file is read and is gone afterwards. -/
  | vanishes
deriving DecidableEq

abbrev Mishaps := List (Place × Mishap)

inductive ReadError where
  | fault (kind : FileFault) (path : String)
  | denied (reason : String)
  | failed (reason : String)
  | broken (reason : String)
deriving DecidableEq

namespace ReadError

def message : ReadError → String
  | fault kind path => kind.message path
  | denied reason => reason
  | failed reason => reason
  | broken reason => reason

end ReadError

/-- Why a script has no outcome at all. -/
inductive ScriptError where
  | definition (error : Script.DefinitionError)
  | broken (reason : String)

namespace ScriptError

def message : ScriptError → String
  | definition error => error.message
  | broken reason => reason

end ScriptError

structure ScriptFile where
  /-- The way to the file from the top. -/
  way : List String
  /-- The path that messages show. -/
  shown : String
  /-- The path under which its outcome is kept. -/
  name : String

/-- The script file at the end of a way; its outcome is kept under its path from the base, or under
its whole path if it does not lie below the base. -/
def ScriptFile.below (t : Tree) (base way : List String) : ScriptFile where
  way := way
  shown := t.shown way
  name :=
    if base.isPrefixOf way then Path.text ⟨false, way.drop base.length⟩ else t.shown way

/-- Reads a script: its bytes, and the tree afterwards. -/
def readScript (t : Tree) (mishaps : Mishaps) (file : ScriptFile) :
    Except ReadError (List UInt8) × Tree :=
  let plain : Except ReadError (Place × FileState) :=
    (t.openFile file.way).mapError fun fault => .fault fault file.shown
  match mishaps.lookup (Place.ofWay file.way) with
  | some (.denied reason) => (.error (.denied reason), t)
  | some (.failed reason) => (.error (.failed reason), t)
  | some (.broken reason) => (.error (.broken reason), t)
  | some .vanishes =>
      match plain with
      | .ok (place, state) => (.ok state.bytes, t.remove place)
      | .error error => (.error error, t)
  | none => (plain.map (·.2.bytes), t)

/-- The outcome of a script from what reading it gave, and what the log says about it. -/
def outcomeOf (name : String) : Except ReadError (List UInt8) → Except ScriptError FileOutcome × Log
  | .error (.broken reason) => (.error (.broken reason), [])
  | .error error =>
      (.ok ⟨name, .failed error.message⟩,
        [.warning ("  Could not read " ++ name ++ ": " ++ error.message)])
  | .ok bytes =>
      match Script.analyze (String.ofList (Script.textOfBytes bytes)) with
      | .error error => (.error (.definition error), [])
      | .ok analysis =>
          (.ok ⟨name, .ofParse (analysis.map (·.result))⟩, [Script.analysisLine analysis])

/-- What a visitor sees of a file, step by step. -/
structure Sight where
  read : Except ReadError (List UInt8)
  /-- The file when its time and its size are taken, if it is there. -/
  atStat : Option FileState
  /-- The file when its digest is taken, if it is there. -/
  atDigest : Option FileState

/-- The state of a file that is kept with its record. -/
structure Stamp where
  mtime : Double
  size : Nat
  digest : String

/-- The outcome of a script, and the state of its file if that is known. -/
structure Visit where
  outcome : FileOutcome
  stamp : Option Stamp

def Sight.stamp (sight : Sight) : Option Stamp :=
  sight.atStat.map fun file =>
    ⟨file.mtime, file.size, (sight.atDigest.map FileState.digest).getD ""⟩

def Sight.visit (sight : Sight) (name : String) : Except ScriptError Visit × Log :=
  match outcomeOf name sight.read with
  | (.error error, log) => (.error error, log)
  | (.ok outcome, log) =>
      match outcome.result with
      | .failed _ => (.ok ⟨outcome, none⟩, log)
      | _ => (.ok ⟨outcome, sight.stamp⟩, log)

/-- What is seen of a file in a tree, and the tree afterwards. -/
def look (t : Tree) (mishaps : Mishaps) (file : ScriptFile) : Sight × Tree :=
  let (read, after) := readScript t mishaps file
  let seen := (after.openFile file.way).toOption.map (·.2)
  (⟨read, seen, seen⟩, after)

end ScriptGraph
