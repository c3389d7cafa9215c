/-!
# Paths

A path names a place in a tree of files by the names on the way to it.  A path that is given as a
text starts at the top of the tree or at the working directory.
-/

namespace ScriptGraph

/-- The names on the way from the top of a tree to a place in it. -/
abbrev Place := List String

structure Path where
  absolute : Bool
  /-- The names on the way; `..` leads one level up. -/
  parts : List String
deriving DecidableEq

namespace Path

/-- The path that a text gives; single dots and repeated slashes have no meaning. -/
def ofText (text : String) : Path where
  absolute := text.startsWith "/"
  parts := (text.splitOn "/").filter fun part => part != "" && part != "."

/-- The path that a text gives, step by step: a single dot stays where it is, which must be a
directory. -/
def stepsOfText (text : String) : Path where
  absolute := text.startsWith "/"
  parts := (text.splitOn "/").map fun part => if part = "" then "." else part

def text (path : Path) : String :=
  let names := String.ofList (['/'].intercalate (path.parts.map String.toList))
  if path.absolute then "/" ++ names else if path.parts.isEmpty then "." else names

/-- The names on the way from the top, for someone who is at the given place. -/
def fromTop (path : Path) (here : Place) : List String :=
  if path.absolute then path.parts else here ++ path.parts

end Path

namespace Place

/-- The place that a way leads to by its names alone: `..` takes back the name before it. -/
def ofWay (way : List String) : Place :=
  way.foldl (fun place part => if part = ".." then place.dropLast else place ++ [part]) []

/-- The text of a place as seen from a place above it. -/
def text (place : Place) : String :=
  String.ofList (['/'].intercalate (place.map String.toList))

/-- The order of places: name by name. -/
def le : Place → Place → Bool
  | [], _ => true
  | _ :: _, [] => false
  | a :: as, b :: bs => a < b || (a == b && le as bs)

end Place

end ScriptGraph
