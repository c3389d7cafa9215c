import ScriptGraph.Value.Display

/-!
# Script texts

Only a text can be parsed as a script.
-/

namespace ScriptGraph.Script

/-- Why a value is not the text of a script. -/
inductive InputError where
  | absent
  | notText (value : Value)

namespace InputError

def message : InputError → String
  | absent => "text must not be None"
  | notText value => "text must be str, not " ++ value.typeName

end InputError

def textOf : Value → Except InputError String
  | .null => .error .absent
  | .text s => .ok s
  | other => .error (.notText other)

end ScriptGraph.Script
