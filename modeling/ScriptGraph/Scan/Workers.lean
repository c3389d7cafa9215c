import ScriptGraph.Environment
import ScriptGraph.Log.Basic
import ScriptGraph.Number.Integer
import ScriptGraph.Text.Quoted

/-!
# Workers

How many workers share the work of a scan.
-/

namespace ScriptGraph.Scan

def workersSetting : String := "INVOGRAPH_WORKERS"

/-- The number of workers: what is asked for, else what the environment says, else the number of
processors; and a warning about a setting that is no integer. -/
def workers (env : Environment) (asked : Option Int) : Int × Log :=
  match asked with
  | some n => (max 1 n, [])
  | none =>
      let setting := Text.trim (env.workers.getD "").toList
      if setting.isEmpty then (env.processors, [])
      else
        match Integer.ofText? setting with
        | some n => (max 1 n, [])
        | none =>
            (env.processors, [.warning ("  Ignoring invalid " ++ workersSetting ++ "=" ++
              Text.quoted (String.ofList setting))])

end ScriptGraph.Scan
