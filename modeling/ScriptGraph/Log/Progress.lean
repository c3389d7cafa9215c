import ScriptGraph.Log.Basic
import ScriptGraph.Text.LowerCase

/-!
# Progress

The progress of a long work is drawn on a terminal, unless that is switched off, and the log tells
how far the work came.
-/

namespace ScriptGraph

structure Progress where
  total : Int
  title : Option String := none
  unit : String := "it"

namespace Progress

def offWords : List String := ["1", "true", "yes"]

/-- Whether nothing is drawn: the environment says so, or there is no terminal. -/
def isOff (setting : Option String) (terminal : Bool) : Bool :=
  offWords.contains (String.ofList (Text.lower (setting.getD "").toList)) || !terminal

def isDrawn (setting : Option String) (terminal disabled : Bool) : Bool :=
  !disabled && !isOff setting terminal

def endLine (progress : Progress) (done : Int) : LogLine :=
  let title := match progress.title with
    | some title => if title.isEmpty then "Progress" else title
    | none => "Progress"
  .debug (title ++ ": completed " ++ toString done ++ "/" ++ toString progress.total ++ " " ++
    progress.unit)

end Progress

end ScriptGraph
