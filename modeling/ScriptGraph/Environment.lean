import ScriptGraph.MessagePack.Encode
import ScriptGraph.Number.Double

/-!
# Surroundings

What the program takes from its surroundings besides its arguments and the files: settings of the
environment, the number of processors, the room on the stack, the packer, and the present time.
-/

namespace ScriptGraph

/-- The settings of the environment. -/
structure Environment where
  workers : Option String := none
  logLevel : Option String := none
  disableProgress : Option String := none
  processors : Nat := 1
  /-- How many values inside one another can be shown where the kind of a definition is read. -/
  stackRoom : Nat := 984
  packer : MessagePack.Packer := .standard

/-- The present time: as a text, and in seconds. -/
structure Clock where
  text : String
  seconds : Double

end ScriptGraph
