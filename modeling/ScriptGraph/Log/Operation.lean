import ScriptGraph.Log.Basic

/-!
# Operations in the log

The log tells when an operation starts, when it ends and how long it took.
-/

namespace ScriptGraph

structure Operation where
  name : String
  details : List (String × String) := []

namespace Operation

def startLine (op : Operation) : LogLine :=
  .info ("Starting " ++ op.name ++
    String.join (op.details.map fun (key, value) => " " ++ key ++ "=" ++ value))

/-- The line at the end of an operation that took the given number of seconds; one that failed has
a reason. -/
def endLine (op : Operation) (failure : Option String) (seconds : String) : LogLine :=
  match failure with
  | none => .info ("Completed " ++ op.name ++ " in " ++ seconds ++ "s")
  | some reason => .error (op.name ++ " failed after " ++ seconds ++ "s: " ++ reason)

def log (op : Operation) (during : Log) (failure : Option String) (seconds : String) : Log :=
  op.startLine :: during ++ [op.endLine failure seconds]

end Operation

end ScriptGraph
