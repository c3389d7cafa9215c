import ScriptGraph.Value.Display

/-!
# Looking into values

Data of unknown shape is read by keys and items.  What is missing or has the wrong shape is an
error, and the error says which.
-/

namespace ScriptGraph

inductive AccessError where
  | missingKey (key : String)
  /-- A value that is no map was asked for a key. -/
  | notKeyed (value : Value)
  /-- A value without items was asked for them. -/
  | noItems (value : Value)

namespace AccessError

def message : AccessError → String
  | missingKey key => Text.quoted key
  | notKeyed (.list _) => "list indices must be integers or slices, not str"
  | notKeyed (.ext _ _) => "tuple indices must be integers or slices, not str"
  | notKeyed (.text _) => "string indices must be integers, not 'str'"
  | notKeyed (.bytes _) => "byte indices must be integers or slices, not str"
  | notKeyed value => "'" ++ value.typeName ++ "' object is not subscriptable"
  | noItems value => "'" ++ value.typeName ++ "' object is not iterable"

end AccessError

namespace Value

def get (key : String) : Value → Except AccessError Value
  | map entries =>
      match lookup (.text key) entries with
      | some value => .ok value
      | none => .error (.missingKey key)
  | other => .error (.notKeyed other)

def ofKey : Key → Value
  | .text s => text s
  | .bytes data => bytes data

/-- The items of a value: of a list, the keys of a map, the characters of a text, the bytes. -/
def items : Value → Except AccessError (List Value)
  | list items => .ok items
  | map entries => .ok (entries.map fun entry => ofKey entry.1)
  | text s => .ok (s.toList.map fun c => text (String.ofList [c]))
  | bytes data => .ok (data.map fun b => int b.toNat)
  | ext code data => .ok [int code, bytes data]
  | other => .error (.noItems other)

end Value

end ScriptGraph
