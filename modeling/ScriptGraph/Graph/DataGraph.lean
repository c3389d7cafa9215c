import ScriptGraph.Graph.CallGraph
import ScriptGraph.Value.Access

/-!
# Graphs as data

A graph is written as a value: its nodes and its edges, each with defaults for what is absent, and
their numbers.  A graph that is read from a value may have any simple value as the name of a node
and any value as data.
-/

namespace ScriptGraph

/-- A simple value as the name of a node; numbers are compared by value. -/
structure NodeId where
  value : Value

instance : BEq NodeId := ⟨fun a b => a.value.sameKey b.value⟩

structure NodeData where
  name : Value
  type : Value
  file : Value
  defined : Value

/-- A graph with data of any shape; a node that only an edge has entered has no data. -/
abbrev DataGraph := Digraph NodeId (Option NodeData) Value

/-- Why a value is not a graph, or a graph cannot be counted. -/
inductive DataGraphError where
  | access (error : AccessError)
  | notMap (value : Value)
  /-- A list or a map stands where a simple value must stand. -/
  | notSimple (value : Value)
  /-- A node has no name. -/
  | nullNode

namespace DataGraphError

def message : DataGraphError → String
  | access error => error.message
  | notMap value => "'" ++ value.typeName ++ "' object has no attribute 'get'"
  | notSimple value => "unhashable type: '" ++ value.typeName ++ "'"
  | nullNode => "None cannot be a node"

end DataGraphError

namespace DataGraph

/-! ### From call graphs -/

def nodeData (node : ObjectNode) : NodeData where
  name := .text node.name
  type := .text node.kind.label
  file := (node.file.map .text).getD .null
  defined := .bool node.defined

def ofCallGraph (g : CallGraph) : DataGraph :=
  g.map (fun key => ⟨.text key⟩) (fun node => some (nodeData node)) fun kind => .text kind.label

/-! ### Writing -/

/-- The kind of an object whose kind is not given. -/
def defaultType : Value := .text Kind.table.label

def nodeValue (node : NodeId × Option NodeData) : Value :=
  let id := node.1.value
  let data := node.2
  .map [
    (.text "id", id),
    (.text "name", (data.map (·.name)).getD id),
    (.text "type", (data.map (·.type)).getD defaultType),
    (.text "file", (data.map (·.file)).getD .null),
    (.text "defined", (data.map (·.defined)).getD (.bool false))]

def edgeValue (edge : NodeId × NodeId × Value) : Value :=
  .map [
    (.text "from", edge.1.value), (.text "to", edge.2.1.value), (.text "type", edge.2.2)]

def toValue (g : DataGraph) : Value :=
  .map [
    (.text "nodes", .list (g.nodes.map nodeValue)),
    (.text "edges", .list (g.edgesBySource.map edgeValue)),
    (.text "metadata", .map [
      (.text "node_count", .int g.nodes.length),
      (.text "edge_count", .int g.edges.length)])]

/-! ### Reading -/

def entryOr (key : String) (default : Value) : Value → Except DataGraphError Value
  | .map entries => .ok ((Value.lookup (.text key) entries).getD default)
  | other => .error (.notMap other)

def nodeId : Value → Except DataGraphError NodeId
  | .null => .error .nullNode
  | .list items => .error (.notSimple (.list items))
  | .map entries => .error (.notSimple (.map entries))
  | simple => .ok ⟨simple⟩

def readNode (g : DataGraph) (v : Value) : Except DataGraphError DataGraph := do
  let id ← (v.get "id").mapError .access
  let name ← entryOr "name" id v
  let type ← entryOr "type" defaultType v
  let file ← entryOr "file" .null v
  let defined ← entryOr "defined" (.bool false) v
  let id ← nodeId id
  .ok (g.addNode id (some ⟨name, type, file, defined⟩))

/-- Enters the edge that a value describes, if it has a source and a target. -/
def readEdge (g : DataGraph) (v : Value) : Except DataGraphError DataGraph := do
  -- the names `from` and `to` win over `source` and `target`
  let otherSource ← entryOr "source" (.text "") v
  let source ← entryOr "from" otherSource v
  let otherTarget ← entryOr "target" (.text "") v
  let target ← entryOr "to" otherTarget v
  let type ← entryOr "type" defaultType v
  if source.isTruthy && target.isTruthy then
    let source ← nodeId source
    let target ← nodeId target
    .ok (g.addEdge source target none type)
  else .ok g

def ofValue (v : Value) : Except DataGraphError DataGraph := do
  let nodes ← entryOr "nodes" (.list []) v
  let nodes ← nodes.items.mapError .access
  let g ← nodes.foldlM readNode .empty
  let edges ← entryOr "edges" (.list []) v
  let edges ← edges.items.mapError .access
  edges.foldlM readEdge g

/-! ### Counting -/

def typeKey : Value → Except DataGraphError NodeId
  | .list items => .error (.notSimple (.list items))
  | .map entries => .error (.notSimple (.map entries))
  | simple => .ok ⟨simple⟩

/-- Counts over the graph; a node without data counts as of unknown type. -/
def summary (g : DataGraph) : Except DataGraphError (Summary NodeId) := do
  let nodeTypes ← g.nodes.mapM fun node =>
    typeKey ((node.2.map (·.type)).getD (.text "unknown"))
  let edgeTypes ← g.edgesBySource.mapM fun edge => typeKey edge.2.2
  .ok {
    nodeCount := g.nodes.length
    edgeCount := g.edges.length
    definedCount := g.nodes.countP fun node => node.2.any (·.defined.isTruthy)
    nodeTypes := Entries.tally nodeTypes
    edgeTypes := Entries.tally edgeTypes }

end DataGraph

end ScriptGraph
