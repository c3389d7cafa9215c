import ScriptGraph.Entries
import ScriptGraph.Number.Double
import ScriptGraph.Text.Quoted
import ScriptGraph.Tree.Path

/-!
# Trees of files

A tree has directories and files below its top.  A file has bytes and the time of its last change.
-/

namespace ScriptGraph

/-- A file: its bytes and the time of its last change, in seconds. -/
structure FileState where
  bytes : List UInt8
  mtime : Double
deriving DecidableEq

namespace FileState

def size (file : FileState) : Nat := file.bytes.length

end FileState

inductive Node where
  | directory
  | file (state : FileState)
deriving DecidableEq

inductive FileFault where
  | notFound
  | taken
  | notDirectory
  | isDirectory
deriving DecidableEq

namespace FileFault

def number : FileFault → Nat
  | notFound => 2
  | taken => 17
  | notDirectory => 20
  | isDirectory => 21

def text : FileFault → String
  | notFound => "No such file or directory"
  | taken => "File exists"
  | notDirectory => "Not a directory"
  | isDirectory => "Is a directory"

def message (fault : FileFault) (path : String) : String :=
  "[Errno " ++ toString fault.number ++ "] " ++ fault.text ++ ": " ++ Text.quoted path

end FileFault

structure Tree where
  /-- The path of the top as messages show it. -/
  location : String
  /-- What is at the places below the top. -/
  nodes : List (Place × Node) := []

namespace Tree

/-- The path of a place as messages show it. -/
def shown (t : Tree) (way : List String) : String :=
  if way.isEmpty then t.location else t.location ++ "/" ++ Place.text way

/-! ### Looking -/

def node? (t : Tree) (place : Place) : Option Node :=
  if place.isEmpty then some .directory else t.nodes.lookup place

def file? (t : Tree) (place : Place) : Option FileState :=
  match t.node? place with
  | some (.file state) => some state
  | _ => none

def isDirectory (t : Tree) (place : Place) : Bool := t.node? place == some .directory

/-- Goes a way from a place, through directories only; a single dot stays where it is. -/
def walk (t : Tree) (here : Place) : List String → Except FileFault Place
  | [] => .ok here
  | part :: later =>
      match t.node? here with
      | none => .error .notFound
      | some (.file _) => .error .notDirectory
      | some .directory =>
          if part = ".." then t.walk here.dropLast later
          else if part = "." then t.walk here later
          else t.walk (here ++ [part]) later

/-- What is at the end of a way from the top. -/
def find (t : Tree) (way : List String) : Except FileFault (Place × Node) := do
  let place ← t.walk [] way
  match t.node? place with
  | some node => .ok (place, node)
  | none => .error .notFound

def openFile (t : Tree) (way : List String) : Except FileFault (Place × FileState) := do
  match ← t.find way with
  | (place, .file state) => .ok (place, state)
  | (_, .directory) => .error .isDirectory

/-- The places of the files below a place, as seen from there. -/
def filesBelow (t : Tree) (top : Place) : List Place :=
  t.nodes.filterMap fun (place, node) =>
    match node with
    | .file _ => if top.isPrefixOf place then some (place.drop top.length) else none
    | .directory => none

/-- What is new or different in a tree, compared with an earlier one. -/
def changesSince (t earlier : Tree) : List (Place × Node) :=
  t.nodes.filter fun (place, node) => earlier.node? place != some node

/-! ### Changing -/

def put (t : Tree) (place : Place) (node : Node) : Tree :=
  { t with nodes := Entries.put place node t.nodes }

@[simp] theorem node?_nil (t : Tree) : t.node? [] = some .directory := rfl

/-- Putting a node changes one place and nothing else; the top is always a directory. -/
theorem node?_put (t : Tree) (place other : Place) (node : Node) (h : other ≠ []) :
    (t.put place node).node? other = if other = place then some node else t.node? other := by
  have hempty : other.isEmpty = false := by simpa using h
  simp [node?, put, hempty, Entries.lookup_put]

/-- Removes a place with everything below it. -/
def remove (t : Tree) (place : Place) : Tree :=
  { t with nodes := t.nodes.filter fun entry => !place.isPrefixOf entry.1 }

/-- The places on the way to a place, the top left out and the place itself included. -/
def wayTo (place : Place) : List Place :=
  (List.range place.length).map fun n => place.take (n + 1)

/-- Makes a directory, and the directories above it that are missing. -/
def makeDirectory (t : Tree) (place : Place) : Except FileFault Tree :=
  if (t.file? place).isSome then .error .taken
  else if (wayTo place).any fun above => (t.file? above).isSome then .error .notDirectory
  else
    .ok ((wayTo place).foldl
      (fun t above => if (t.node? above).isSome then t else t.put above .directory) t)

/-- Writes a file at the end of a way from the top; its directory must be there. -/
def write (t : Tree) (way : List String) (state : FileState) : Except FileFault Tree := do
  let place ← t.walk [] way
  match t.node? place with
  | some .directory => .error .isDirectory
  | _ => .ok (t.put place (.file state))

end Tree

end ScriptGraph
