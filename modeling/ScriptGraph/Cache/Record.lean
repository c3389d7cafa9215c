import ScriptGraph.Script.Parse
import ScriptGraph.Value.Access

/-!
# Records

A record is the value that stands for the result of parsing a script: the definition and the
callees, each with its name and its kind.  Reading a record checks every part of it.
-/

namespace ScriptGraph

/-- Why a value is not an object or not a record. -/
inductive RecordError where
  | access (error : AccessError)
  | badKind (kind : Value)
  /-- A name that is blank or no text. -/
  | blankName
  /-- A kind that cannot be shown in the room on the stack. -/
  | tooDeep

namespace RecordError

def message : RecordError → String
  | access error => error.message
  | badKind kind => kind.display ++ " is not a valid SqlObjectKind"
  | blankName => "Name cannot be empty or whitespace"
  | tooDeep => "maximum recursion depth exceeded while getting the repr of an object"

/-- Whether a record with this error is passed over. -/
def isPassedOver : RecordError → Bool
  | tooDeep => false
  | _ => true

end RecordError

namespace DbObject

def kind? : Value → Option Kind
  | .text s => Kind.ofLabel? s
  | _ => none

/-- The kind that a value stands for, where so many levels of the stack are left for the message. -/
def kindOfValue (room : Nat) (v : Value) : Except RecordError Kind :=
  match kind? v with
  | some kind => .ok kind
  | none => .error (if v.displayDepth ≤ room then .badKind v else .tooDeep)

/-- The object with the given values for its name and its kind; the kind is checked first. -/
def ofValues (room : Nat) (name kind : Value) : Except RecordError DbObject := do
  let kind ← kindOfValue room kind
  match name with
  | .text s =>
      match make? s kind with
      | some object => .ok object
      | none => .error .blankName
  | _ => .error .blankName

def toRecord (o : DbObject) : Value :=
  .map [(.text "name", .text o.name), (.text "kind", .text o.kind.label)]

def ofRecord (room : Nat) (v : Value) : Except RecordError DbObject := do
  let name ← (v.get "name").mapError .access
  let kind ← (v.get "kind").mapError .access
  ofValues room name kind

end DbObject

namespace ParsedScript

/-- The record of a result; a script without a definition has the empty record. -/
def toRecord : Option ParsedScript → Value
  | none => .null
  | some parsed =>
      .map [
        (.text "definition", parsed.definition.toRecord),
        (.text "edges", .list (parsed.references.map fun r => r.callee.toRecord))]

def referencesOfRecords (room : Nat) (definition : DbObject) :
    List Value → Except RecordError (List Reference)
  | [] => .ok []
  | v :: later => do
      let callee ← DbObject.ofRecord room v
      let rest ← referencesOfRecords room definition later
      .ok (⟨definition, callee⟩ :: rest)

/-- The result that a value stands for; the callees are read one level further down the stack. -/
def ofRecord (room : Nat) : Value → Except RecordError (Option ParsedScript)
  | .null => .ok none
  | record => do
      let definition ← (record.get "definition").mapError .access
      let definition ← DbObject.ofRecord room definition
      let edges ← (record.get "edges").mapError .access
      let callees ← edges.items.mapError .access
      let references ← referencesOfRecords (room - 1) definition callees
      .ok (some ⟨definition, references⟩)

end ParsedScript

end ScriptGraph
