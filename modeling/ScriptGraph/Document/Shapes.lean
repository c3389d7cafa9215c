import ScriptGraph.Document.JsonText
import ScriptGraph.Document.Shape
import ScriptGraph.Graph.DataGraph

/-!
# The documents

The documents that are written: the result of one script, and the graph of a tree of scripts.
-/

namespace ScriptGraph.Document

open Shape Field

def version : String := "0.1.0"

/-! ### Shapes -/

def object : Shape := record [required "name" text, required "kind" kind,
  required "canonical_name" text]

def reference : Shape := record [renamed "source" "from" text, renamed "target" "to" text,
  required "type" kind]

def parsedFile : Shape := record [required "file" text,
  withDefault "definition" (optional object) .null,
  withDefault "edges" (listOf reference) (.list [])]

def node : Shape := record [required "id" text, required "name" text, required "type" kind,
  withDefault "file" (optional text) .null, withDefault "defined" flag (.bool false)]

/-- What is said about a graph, given the present time. -/
def metadata (now : String) : Shape := record [
  withDefault "analyzer" text (.text "tsql_regex"),
  required "version" text,
  withDefault "generated_at" time (.text now),
  withDefault "file_count" count (.int 0),
  withDefault "source_directory" (optional text) .null,
  withDefault "node_count" count (.int 0),
  withDefault "edge_count" count (.int 0),
  withDefault "defined_count" count (.int 0),
  withDefault "external_count" count (.int 0),
  withDefault "node_types" (mapOf count) (.map []),
  withDefault "edge_types" (mapOf count) (.map [])]

def graph (now : String) : Shape := record [
  withDefault "nodes" (listOf node) (.list []),
  withDefault "edges" (listOf reference) (.list []),
  required "metadata" (metadata now),
  withDefault "errors" (listOf anyMap) (.list []),
  withDefault "skipped" (listOf text) (.list [])]

/-! ### Documents -/

def ofObject (o : DbObject) : Value :=
  .map [
    (.text "name", .text o.name), (.text "kind", .text o.kind.label),
    (.text "canonical_name", .text o.key)]

def ofReference (r : Reference) : Value :=
  .map [
    (.text "from", .text r.caller.name), (.text "to", .text r.callee.name),
    (.text "type", .text r.callee.kind.label)]

def ofParsedFile (file : String) : Option ParsedScript → Value
  | none =>
      .map [(.text "file", .text file), (.text "definition", .null), (.text "edges", .list [])]
  | some parsed =>
      .map [
        (.text "file", .text file),
        (.text "definition", ofObject parsed.definition),
        (.text "edges", .list (parsed.references.map ofReference))]

def ofCounts (counts : List (Kind × Nat)) : Value :=
  .map (counts.map fun (kind, n) => (.text kind.label, .int n))

/-- What a graph document is made of besides the graph. -/
structure GraphInfo where
  generatedAt : String
  directory : String
  files : List FileOutcome

def ofGraph (info : GraphInfo) (g : CallGraph) : Value :=
  let data := DataGraph.ofCallGraph g
  let counts := g.summary
  .map [
    (.text "nodes", .list (data.nodes.map DataGraph.nodeValue)),
    (.text "edges", .list (data.edgesBySource.map DataGraph.edgeValue)),
    (.text "metadata", .map [
      (.text "analyzer", .text "tsql_regex"),
      (.text "version", .text version),
      (.text "generated_at", .text info.generatedAt),
      (.text "file_count", .int info.files.length),
      (.text "source_directory", .text info.directory),
      (.text "node_count", .int counts.nodeCount),
      (.text "edge_count", .int counts.edgeCount),
      (.text "defined_count", .int counts.definedCount),
      (.text "external_count", .int counts.externalCount),
      (.text "node_types", ofCounts counts.nodeTypes),
      (.text "edge_types", ofCounts counts.edgeTypes)]),
    (.text "errors", .list ((FileOutcome.failures info.files).map fun (file, reason) =>
      .map [(.text "file", .text file), (.text "error", .text reason)])),
    (.text "skipped", .list ((FileOutcome.skipped info.files).map .text))]

/-! ### Writing -/

inductive WriteError where
  /-- A value of free form lies too deep. -/
  | tooDeep
deriving DecidableEq

/-- The number of values of free form that may lie inside one another. -/
def depthLimit : Nat := 255

/-- The values of free form in a document: what is said about the errors. -/
def freeValues : Value → List Value
  | .map entries =>
      match entries.lookup (.text "errors") with
      | some (.list errors) => errors.flatMap fun
          | .map details => details.map (·.2)
          | _ => []
      | _ => []
  | _ => []

def write (layout : Value.Layout) (document : Value) : Except WriteError String :=
  if (freeValues document).all (·.depth ≤ depthLimit) then .ok (document.toJson layout)
  else .error .tooDeep

end ScriptGraph.Document
