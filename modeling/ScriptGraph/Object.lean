import ScriptGraph.Name
import ScriptGraph.Text.UpperCase

/-!
# Database objects

An object has a name, kept as it is spelled, and a kind.  A reference leads from the object that a
script creates to an object that the script uses.
-/

namespace ScriptGraph

open Text

inductive Kind where
  | table
  | view
  | storedProcedure
  | trigger
  | userFunction
deriving DecidableEq, Repr

namespace Kind

def all : List Kind := [table, view, storedProcedure, trigger, userFunction]

def label : Kind → String
  | table => "Table"
  | view => "View"
  | storedProcedure => "StoredProcedure"
  | trigger => "Trigger"
  | userFunction => "UserFunction"

def ofLabel? (text : String) : Option Kind := all.find? (·.label == text)

theorem ofLabel?_label (k : Kind) : ofLabel? k.label = some k := by
  cases k <;> decide

/-- The words that can follow `CREATE`, in upper case, with the kind each of them creates. -/
def creationWords : List (String × Kind) := [
  ("PROCEDURE", storedProcedure), ("TABLE", table), ("VIEW", view), ("FUNCTION", userFunction),
  ("TRIGGER", trigger)]

/-- The kind that a word after `CREATE` stands for, in any case and with blanks around it. -/
def ofCreationWord? (token : List Char) : Option Kind :=
  creationWords.lookup (String.ofList (upper (trim token)))

end Kind

/-- A database object as a script spells it. -/
structure DbObject where
  /-- The name, with its delimiters and its case. -/
  name : String
  kind : Kind
  /-- A name is more than blanks. -/
  named : allBlank name.toList = false
deriving DecidableEq

namespace DbObject

/-- The object with a given name and kind, unless the name is blank. -/
def make? (name : String) (kind : Kind) : Option DbObject :=
  if h : allBlank name.toList = false then some ⟨name, kind, h⟩ else none

def key (o : DbObject) : String := Name.key o.name

/-- Whether a name denotes the object. -/
def isNamed (o : DbObject) (name : String) : Bool := o.key == Name.key name

theorem make?_eq_some_iff {name : String} {kind : Kind} {o : DbObject} :
    make? name kind = some o ↔ o.name = name ∧ o.kind = kind := by
  obtain ⟨n, k, h⟩ := o
  unfold make?
  split
  · simp [eq_comm]
  · rename_i hblank
    constructor
    · intro contra
      cases contra
    · rintro ⟨rfl, rfl⟩
      exact absurd h hblank

end DbObject

/-- A reference from the object that a script creates to another object. -/
structure Reference where
  caller : DbObject
  callee : DbObject
deriving DecidableEq

namespace Reference

/-- What makes two references the same: the caller, the callee and the callee's kind. -/
def identity (r : Reference) : String × Kind × String := (r.caller.key, r.callee.kind, r.callee.key)

/-- The references of which no earlier one is the same; `seen` holds the identities so far. -/
def distinctFrom (seen : List (String × Kind × String)) : List Reference → List Reference
  | [] => []
  | r :: later =>
      if seen.contains r.identity then distinctFrom seen later
      else r :: distinctFrom (r.identity :: seen) later

/-- The references of which no earlier one is the same. -/
def distinct (references : List Reference) : List Reference := distinctFrom [] references

end Reference

end ScriptGraph
