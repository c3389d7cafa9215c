import ScriptGraph.Log.Basic
import ScriptGraph.Text.Quoted
import ScriptGraph.Text.UpperCase

/-!
# The choice of a log level

The level is chosen by name, on the command line or in the environment.
-/

namespace ScriptGraph.LogLevel

def firstGiven : List (Option String) → Option String
  | [] => none
  | some s :: later => if s.isEmpty then firstGiven later else some s
  | none :: later => firstGiven later

/-- The name of the level that is asked for, in upper case. -/
def requestedName (argument setting : Option String) : String :=
  let given := (firstGiven [argument, setting]).getD "INFO"
  String.ofList (Text.upper given.toList)

/-- The level that is asked for, and a warning if there is no such level. -/
def choose (argument setting : Option String) : LogLevel × Log :=
  let name := requestedName argument setting
  match names.lookup name with
  | some level => (level, [])
  | none => (info, [.warning ("Unknown log level " ++ Text.quoted name ++ ", using INFO")])

end ScriptGraph.LogLevel
