/-!
# Log lines

Work that is worth telling about leaves lines in a log, each with a severity.  What is shown of a
log depends on the level in force.
-/

namespace ScriptGraph

inductive Severity where
  | debug
  | info
  | warning
  | error
deriving DecidableEq, Repr

namespace Severity

def rank : Severity → Nat
  | debug => 10
  | info => 20
  | warning => 30
  | error => 40

def label : Severity → String
  | debug => "DEBUG"
  | info => "INFO"
  | warning => "WARNING"
  | error => "ERROR"

end Severity

structure LogLine where
  severity : Severity
  text : String
deriving DecidableEq, Repr

abbrev Log := List LogLine

namespace LogLine

def debug (text : String) : LogLine := ⟨.debug, text⟩

def info (text : String) : LogLine := ⟨.info, text⟩

def warning (text : String) : LogLine := ⟨.warning, text⟩

def error (text : String) : LogLine := ⟨.error, text⟩

end LogLine

/-- The least rank of the lines that are shown. -/
structure LogLevel where
  rank : Nat
deriving DecidableEq, Repr

namespace LogLevel

def notSet : LogLevel := ⟨0⟩

def debug : LogLevel := ⟨10⟩

def info : LogLevel := ⟨20⟩

def warning : LogLevel := ⟨30⟩

def error : LogLevel := ⟨40⟩

def critical : LogLevel := ⟨50⟩

def names : List (String × LogLevel) := [
  ("CRITICAL", critical), ("FATAL", critical), ("ERROR", error), ("WARN", warning),
  ("WARNING", warning), ("INFO", info), ("DEBUG", debug), ("NOTSET", notSet)]

/-- The level that is in force: a level that is not set leaves it to the default, warnings. -/
def inForce (level : LogLevel) : LogLevel := if level = notSet then warning else level

def shows (level : LogLevel) (line : LogLine) : Bool := level.inForce.rank ≤ line.severity.rank

end LogLevel

namespace Log

def shown (level : LogLevel) (log : Log) : Log := log.filter level.shows

end Log

end ScriptGraph
