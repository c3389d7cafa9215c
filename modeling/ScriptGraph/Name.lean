import ScriptGraph.Text.Blank
import ScriptGraph.Text.CaseFold
import ScriptGraph.Text.Letter

/-!
# Names of database objects

A name is a dotted path of identifiers; an identifier is written in brackets, in double quotes or
bare.  Two spellings denote one object if they have the same key: delimiters and blanks are dropped,
empty parts are left out, and case is folded.  No schema is supplied where none is written.
-/

namespace ScriptGraph.Name

open Text

/-! ### Shapes -/

/-- A character that can continue a bare identifier. -/
def isNameChar (c : Char) : Bool := isWord c || c == '$' || c == '#' || c == '@'

/-- A character that can start a bare identifier where case is ignored. -/
def isFirstChar (c : Char) : Bool := isAsciiLetter (plainLetter c) || c == '_'

/-- A character that can start a bare identifier where case is not ignored. -/
def isPlainFirstChar (c : Char) : Bool := isAsciiLetter c || c == '_'

def blanks : Pattern := .run isBlank

/-- One blank at least. -/
def gap : Pattern := .run1 isBlank

/-- An identifier in brackets, in double quotes or bare, given how a bare one starts. -/
def identifierFrom (first : Char → Bool) : Pattern :=
  .any [
    .all [.char '[', .run1 (· != ']'), .char ']'],
    .all [.char '"', .run1 (· != '"'), .char '"'],
    .seq (.one first) (.run isNameChar)]

def furtherPart (first : Char → Bool) : Pattern :=
  .all [blanks, .char '.', blanks, identifierFrom first]

/-- A path of one identifier or more. -/
def pathFrom (first : Char → Bool) : Pattern :=
  .seq (identifierFrom first) (.many (furtherPart first))

def identifier : Pattern := identifierFrom isFirstChar

def path : Pattern := pathFrom isFirstChar

/-- A path of two identifiers or more. -/
def qualifiedPath : Pattern :=
  .seq identifier (.seq (furtherPart isFirstChar) (.many (furtherPart isFirstChar)))

/-- A path of one identifier or more, where case is not ignored. -/
def plainPath : Pattern := pathFrom isPlainFirstChar

/-- The end of a name that is complete and not called. -/
def notCalled : Pattern :=
  .seq (.notBefore (.one isNameChar))
    (.notBefore (.seq blanks (.one fun c => c == '.' || c == '(')))

/-! ### Keys -/

/-- The parts of a text between its dots. -/
def parts : List Char → List (List Char)
  | [] => [[]]
  | c :: rest =>
      match parts rest with
      | [] => [[c]]
      | part :: later => if c == '.' then [] :: part :: later else (c :: part) :: later

/-- A part without the blanks around it and without one layer of delimiters. -/
def bare (part : List Char) : List Char :=
  match trim part with
  | '[' :: inner => if inner.getLast? == some ']' then trim inner.dropLast else '[' :: inner
  | '"' :: inner => if inner.getLast? == some '"' then trim inner.dropLast else '"' :: inner
  | other => other

/-- The parts of a name that count: bare and not empty. -/
def significantParts (raw : List Char) : List (List Char) :=
  ((parts raw).map bare).filter (!·.isEmpty)

def keyChars (raw : List Char) : List Char :=
  fold (['.'].intercalate (significantParts raw))

/-- The key of a name as it is written; the key of a blank name is empty. -/
def key (raw : String) : String := String.ofList (keyChars raw.toList)

def keyOf (raw : Option String) : String := (raw.map key).getD ""

/-- Whether two spellings denote one object. -/
def same (a b : Option String) : Bool := keyOf a == keyOf b

end ScriptGraph.Name
