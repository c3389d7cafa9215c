import ScriptGraph.Object
import ScriptGraph.Script.Cleaning

/-!
# The object a script creates

A script creates the object of its first `CREATE` statement.  The word after `CREATE` is recognised
letter by letter in any case, so it may be spelled with a dotted capital `i`; that spelling is not
one of the words that create an object, and it is an error.
-/

namespace ScriptGraph.Script

open Text Name

/-- Why no object can be made from a `CREATE` statement. -/
inductive DefinitionError where
  /-- The word after `CREATE` names no kind of object. -/
  | unknownKind (token : String)
  | blankName
deriving DecidableEq

namespace DefinitionError

def message : DefinitionError → String
  | unknownKind token => "Unknown SQL object type '" ++ token ++ "'"
  | blankName => "Name cannot be empty or whitespace"

end DefinitionError

def kindOfWord (token : List Char) : Except DefinitionError Kind :=
  match Kind.ofCreationWord? token with
  | some kind => .ok kind
  | none => .error (.unknownKind (String.ofList token))

def creationWord : Pattern := .any (Kind.creationWords.map fun entry => .word entry.1)

/-- `CREATE`, the word after it and the name. -/
def creation : Rule where
  lead := .seq (.startingWord "CREATE") gap
  body := creationWord
  trail := .seq gap path

/-- The name at the end of a match of `creation`: the part of the match after the word and the
blanks. -/
def createdName (hit : Hit) : List Char := trimStart (hit.right.upTo hit.stop)

/-- The object that the first `CREATE` statement of a cleaned script creates. -/
def definition? (clean : List Char) : Except DefinitionError (Option DbObject) :=
  match creation.find? (.start clean) with
  | none => .ok none
  | some hit => do
      let kind ← kindOfWord hit.body
      match DbObject.make? (String.ofList (createdName hit)) kind with
      | some object => .ok (some object)
      | none => .error .blankName

end ScriptGraph.Script
