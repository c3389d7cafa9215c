import ScriptGraph.Document.Scalar
import ScriptGraph.Entries
import ScriptGraph.Object
import ScriptGraph.Value.Basic

/-!
# Shapes of documents

A shape says which values are documents of a kind.  Checking a value fills in what is absent and may
be, drops what is unknown, gives counts and flags their proper form, and puts the fields in order;
or it lists every fault, in order.
-/

namespace ScriptGraph

/-- What is wrong with a part of a document. -/
inductive Fault where
  | missing
  | notText
  | notKind
  | flag (fault : FlagFault)
  | count (fault : CountFault)
  | notTime
  | notList
  | notMap
  | notRecord
deriving DecidableEq

namespace Fault

def label : Fault → String
  | missing => "missing"
  | notText => "string_type"
  | notKind => "literal_error"
  | flag .noFlag => "bool_type"
  | flag .unreadable => "bool_parsing"
  | count .noNumber => "int_type"
  | count .unreadable => "int_parsing"
  | count .tooLarge => "int_parsing_size"
  | count .fractional => "int_from_float"
  | count .endless => "finite_number"
  | notTime => "datetime_type"
  | notList => "list_type"
  | notMap => "dict_type"
  | notRecord => "model_type"

end Fault

inductive Step where
  | field (name : String)
  | item (index : Nat)
deriving DecidableEq

structure Problem where
  path : List Step
  fault : Fault
deriving DecidableEq

/-- A check of a value: the value in its proper form, or the problems with it. -/
abbrev Shape := Value → Except (List Problem) Value

namespace Shape

/-- A fault of the value itself. -/
def fail (fault : Fault) : Except (List Problem) Value := .error [⟨[], fault⟩]

/-- Problems found one step further in. -/
def inside (step : Step) (checked : Except (List Problem) Value) : Except (List Problem) Value :=
  checked.mapError fun problems => problems.map fun p => { p with path := step :: p.path }

/-- The values of all checks, or the problems of all. -/
def collect {α : Type} : List (Except (List Problem) α) → Except (List Problem) (List α)
  | [] => .ok []
  | first :: later =>
      match first, collect later with
      | .ok a, .ok rest => .ok (a :: rest)
      | .ok _, .error problems => .error problems
      | .error problems, .ok _ => .error problems
      | .error problems, .error more => .error (problems ++ more)

def text : Shape
  | .text s => .ok (.text s)
  | _ => fail .notText

def kind : Shape
  | .text s => if (Kind.ofLabel? s).isSome then .ok (.text s) else fail .notKind
  | _ => fail .notKind

/-- A flag, or what can be read as one. -/
def flag : Shape
  | .bool b => .ok (.bool b)
  | .text s => read (Flag.ofText s)
  | .int n => read (Flag.ofInt n)
  | .float x => read (Flag.ofDouble x)
  | _ => fail (.flag .noFlag)
where
  read : Except FlagFault Bool → Except (List Problem) Value
  | .ok b => .ok (.bool b)
  | .error fault => fail (.flag fault)

/-- A count, or what can be read as one. -/
def count : Shape
  | .int n => .ok (.int n)
  | .bool b => .ok (.int (if b then 1 else 0))
  | .text s => read (Count.ofText s.toList)
  | .float x => read (Count.ofDouble x)
  | _ => fail (.count .noNumber)
where
  read : Except CountFault Int → Except (List Problem) Value
  | .ok n => .ok (.int n)
  | .error fault => fail (.count fault)

/-- A date with a time, as it is written. -/
def time : Shape
  | .text s => .ok (.text s)
  | _ => fail .notTime

def optional (shape : Shape) : Shape
  | .null => .ok .null
  | other => shape other

def listOf (shape : Shape) : Shape
  | .list items =>
      (collect (items.mapIdx fun i item => inside (.item i) (shape item))).map .list
  | _ => fail .notList

def anyMap : Shape
  | .map entries => .ok (.map entries)
  | _ => fail .notMap

def keyText : Key → String
  | .text s => s
  | .bytes _ => ""

def mapOf (shape : Shape) : Shape
  | .map entries =>
      (collect (entries.map fun (key, value) =>
        (inside (.field (keyText key)) (shape value)).map fun v => (key, v))).map .map
  | _ => fail .notMap

structure Field where
  name : String
  /-- The name under which the field is written, and looked for first. -/
  written : String := name
  shape : Shape
  /-- The value of a field that is absent; a field without it must be there. -/
  default : Option Value := none

namespace Field

def required (name : String) (shape : Shape) : Field := { name, shape }

/-- A field that is written under another name and must be there. -/
def renamed (name written : String) (shape : Shape) : Field := { name, written, shape }

def withDefault (name : String) (shape : Shape) (default : Value) : Field :=
  { name, shape, default := some default }

def check (field : Field) (entries : List (Key × Value)) : Except (List Problem) Value :=
  match entries.lookup (.text field.written), entries.lookup (.text field.name) with
  | some v, _ => inside (.field field.written) (field.shape v)
  | none, some v => inside (.field field.name) (field.shape v)
  | none, none =>
      match field.default with
      | some v => .ok v
      | none => inside (.field field.written) (fail .missing)

end Field

/-- A map with given fields; other entries are dropped. -/
def record (fields : List Field) : Shape
  | .map entries =>
      (collect (fields.map fun field =>
        (field.check entries).map fun v => (Key.text field.written, v))).map .map
  | _ => fail .notRecord

end Shape

end ScriptGraph
