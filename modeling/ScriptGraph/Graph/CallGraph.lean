import ScriptGraph.Graph.Digraph
import ScriptGraph.FileOutcome

/-!
# Call graphs

The graph of all objects that the scripts of a tree define or use.  Nodes are named by keys.  Where
several scripts define one object, the first of them counts; an object that no script defines is
shown as the first reference to it spells it.
-/

namespace ScriptGraph

/-- What is known of an object in the graph. -/
structure ObjectNode where
  /-- The spelling that is shown. -/
  name : String
  kind : Kind
  file : Option String
  defined : Bool
deriving DecidableEq

/-- A graph of objects; an edge carries the kind with which the target is used. -/
abbrev CallGraph := Digraph String ObjectNode Kind

namespace CallGraph

/-- The scripts with a definition, with their files. -/
def parsedScripts (files : List FileOutcome) : List (String × ParsedScript) :=
  files.filterMap fun f => f.result.script?.map fun script => (f.file, script)

def definedNode (file : String) (o : DbObject) : ObjectNode := ⟨o.name, o.kind, some file, true⟩

def externalNode (o : DbObject) : ObjectNode := ⟨o.name, o.kind, none, false⟩

def definedAt? (g : CallGraph) (key : String) : Option ObjectNode :=
  (g.nodes.lookup key).filter (·.defined)

/-- Enters the definition of a script, unless the object is defined already. -/
def addDefinition (g : CallGraph) (entry : String × ParsedScript) : CallGraph :=
  let definition := entry.2.definition
  match definedAt? g definition.key with
  | some _ => g
  | none => g.addNode definition.key (definedNode entry.1 definition)

/-- Enters a reference, unless there is an edge already. -/
def addReference (caller : String) (g : CallGraph) (r : Reference) : CallGraph :=
  let g := g.ensureNode r.callee.key (externalNode r.callee)
  if g.hasEdge caller r.callee.key then g
  else g.addEdge caller r.callee.key (externalNode r.callee) r.callee.kind

def addReferences (g : CallGraph) (entry : String × ParsedScript) : CallGraph :=
  entry.2.references.foldl (addReference entry.2.definition.key) g

def definitions (scripts : List (String × ParsedScript)) : CallGraph :=
  scripts.foldl addDefinition .empty

/-- The graph of a list of files: all definitions first, then the references. -/
def build (files : List FileOutcome) : CallGraph :=
  let scripts := parsedScripts files
  scripts.foldl addReferences (definitions scripts)

/-- The warnings about objects that are defined again. -/
def duplicateLines (g : CallGraph) : List (String × ParsedScript) → Log
  | [] => []
  | entry :: later =>
      let definition := entry.2.definition
      let rest := duplicateLines (addDefinition g entry) later
      match definedAt? g definition.key with
      | some first =>
          .warning ("  " ++ definition.name ++ " is defined in both " ++ first.file.getD "" ++
            " and " ++ entry.1 ++ "; keeping the first") :: rest
      | none => rest

def buildLog (files : List FileOutcome) : Log := duplicateLines .empty (parsedScripts files)

def summary (g : CallGraph) : Summary Kind where
  nodeCount := g.nodes.length
  edgeCount := g.edges.length
  definedCount := g.nodes.countP (·.2.defined)
  nodeTypes := Entries.tally (g.nodes.map (·.2.kind))
  edgeTypes := Entries.tally (g.edgesBySource.map (·.2.2))

end CallGraph

end ScriptGraph
