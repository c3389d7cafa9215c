import ScriptGraph.Entries

/-!
# Directed graphs

Nodes and edges carry data and keep the order in which they were entered.  There is one edge at most
from a node to another.
-/

namespace ScriptGraph

/-- A directed graph with nodes named by `ι`, data `ν` at the nodes and `ε` at the edges. -/
structure Digraph (ι ν ε : Type) where
  nodes : List (ι × ν) := []
  edges : List ((ι × ι) × ε) := []
deriving DecidableEq

namespace Digraph

variable {ι ν ε : Type} [BEq ι]

def empty : Digraph ι ν ε := {}

def hasNode (g : Digraph ι ν ε) (id : ι) : Bool := g.nodes.any (·.1 == id)

def hasEdge (g : Digraph ι ν ε) (source target : ι) : Bool :=
  g.edges.any (·.1 == (source, target))

/-- Enters a node, or replaces the data of a node that is there. -/
def addNode (g : Digraph ι ν ε) (id : ι) (data : ν) : Digraph ι ν ε :=
  { g with nodes := Entries.put id data g.nodes }

/-- Enters a node with the given data, unless it is there. -/
def ensureNode (g : Digraph ι ν ε) (id : ι) (data : ν) : Digraph ι ν ε :=
  if g.hasNode id then g else g.addNode id data

/-- Enters an edge, or replaces its data, after entering the nodes that are missing. -/
def addEdge (g : Digraph ι ν ε) (source target : ι) (missing : ν) (data : ε) : Digraph ι ν ε :=
  let g := (g.ensureNode source missing).ensureNode target missing
  { g with edges := Entries.put (source, target) data g.edges }

/-- The edges grouped by their sources, in the order of the nodes. -/
def edgesBySource (g : Digraph ι ν ε) : List (ι × ι × ε) :=
  g.nodes.flatMap fun node =>
    (g.edges.filter (·.1.1 == node.1)).map fun edge => (node.1, edge.1.2, edge.2)

def map {ι' ν' ε' : Type} (rename : ι → ι') (onNode : ν → ν') (onEdge : ε → ε')
    (g : Digraph ι ν ε) : Digraph ι' ν' ε' where
  nodes := g.nodes.map fun node => (rename node.1, onNode node.2)
  edges := g.edges.map fun edge => ((rename edge.1.1, rename edge.1.2), onEdge edge.2)

end Digraph

structure Summary (τ : Type) where
  nodeCount : Nat
  edgeCount : Nat
  definedCount : Nat
  /-- The number of nodes of each type, in the order in which the types are met. -/
  nodeTypes : List (τ × Nat)
  edgeTypes : List (τ × Nat)

namespace Summary

/-- The number of nodes that no script defines. -/
def externalCount {τ : Type} (s : Summary τ) : Nat := s.nodeCount - s.definedCount

end Summary

end ScriptGraph
