import ScriptGraph.Proofs.Graph.Regrouping
import ScriptGraph.Proofs.Value
import ScriptGraph.Proofs.Value.Keys

/-!
# Reading what was written

A graph is written node by node and then source by source.  What is read from this has the same
nodes with all their data filled in, and the edges are grouped by their sources; an edge with an end
that does not count as present is passed over.
-/

namespace ScriptGraph.DataGraph

open Entries

theorem eq_of_nodeId_eq_ok {v : Value} {id : NodeId} (h : nodeId v = .ok id) : id = ⟨v⟩ := by
  unfold nodeId at h
  split at h <;> simp_all

theorem isSimple_of_nodeId {id : NodeId} (h : nodeId id.value = .ok id) :
    id.value.isSimple = true := by
  unfold nodeId at h
  split at h <;> simp_all [Value.isSimple]

theorem beq_self_of_nodeId {id : NodeId} (h : nodeId id.value = .ok id) : (id == id) = true :=
  Value.sameKey_self (isSimple_of_nodeId h)

def isNamed (source target : NodeId) : Bool := source.value.isTruthy && target.value.isTruthy

theorem isNamed_congr {a b : NodeId} (target : NodeId) (h : (a == b) = true) :
    isNamed a target = isNamed b target := by
  rw [isNamed, isNamed, Value.isTruthy_congr h]

def filled (node : NodeId × Option NodeData) : NodeId × Option NodeData :=
  (node.1, some {
    name := (node.2.map (·.name)).getD node.1.value
    type := (node.2.map (·.type)).getD defaultType
    file := (node.2.map (·.file)).getD .null
    defined := (node.2.map (·.defined)).getD (.bool false) })

theorem nodeValue_filled (node : NodeId × Option NodeData) :
    nodeValue (filled node) = nodeValue node := rfl

/-- Nodes and edges can be read as they are written. -/
structure Readable (g : DataGraph) : Prop extends Digraph.WellFormed g where
  names : ∀ id ∈ g.nodes.map Prod.fst, nodeId id.value = .ok id
  targets : ∀ pair ∈ g.edges.map Prod.fst, nodeId pair.2.value = .ok pair.2

/-- What is read where a graph was written. -/
def readBack (g : DataGraph) : DataGraph where
  nodes := g.nodes.map filled
  edges := (g.regroup isNamed).edges

theorem readNode_nodeValue {node : NodeId × Option NodeData}
    (h : nodeId node.1.value = .ok node.1) (g : DataGraph) :
    readNode g (nodeValue node) = .ok (g.addNode node.1 (filled node).2) := by
  simp [readNode, nodeValue, Value.get, entryOr, Except.mapError, bind, Except.bind, h, filled]

theorem foldlM_readNode {g : DataGraph} {nodes : List (NodeId × Option NodeData)}
    (hnames : ∀ id ∈ nodes.map Prod.fst, nodeId id.value = .ok id)
    (h : Apart (g.nodes.map Prod.fst ++ nodes.map Prod.fst)) :
    (nodes.map nodeValue).foldlM readNode g =
      .ok { g with nodes := g.nodes ++ nodes.map filled } := by
  induction nodes generalizing g with
  | nil => simp [pure, Except.pure]
  | cons node later ih =>
      obtain ⟨hname, hlater⟩ := List.forall_mem_cons.mp hnames
      have hnew : ∀ k ∈ g.nodes.map Prod.fst, (k == node.1) = false := fun k hk =>
        (List.pairwise_append.mp h).2.2 k hk _ List.mem_cons_self
      have hput : g.addNode node.1 (filled node).2 =
          { g with nodes := g.nodes ++ [filled node] } := by
        rw [Digraph.addNode, put_eq_append_of_new hnew]
        rfl
      rw [List.map_cons, List.foldlM_cons, readNode_nodeValue hname, hput]
      have hrest := @ih { g with nodes := g.nodes ++ [filled node] } hlater
        (by simpa [filled] using h)
      simpa [bind, Except.bind] using hrest

theorem readEdge_edgeValue {e : NodeId × NodeId × Value} (hsource : nodeId e.1.value = .ok e.1)
    (htarget : nodeId e.2.1.value = .ok e.2.1) (g : DataGraph) :
    readEdge g (edgeValue e) =
      if isNamed e.1 e.2.1 then .ok (g.addEdge e.1 e.2.1 none e.2.2) else .ok g := by
  simp [readEdge, edgeValue, entryOr, bind, Except.bind, hsource, htarget, isNamed]

/-- New edges between nodes that are there are entered one after the other, unless an end does not
count as present. -/
theorem foldlM_readEdge {g : DataGraph} {edges : List (NodeId × NodeId × Value)}
    (hsources : ∀ e ∈ edges, nodeId e.1.value = .ok e.1 ∧ g.hasNode e.1 = true)
    (htargets : ∀ e ∈ edges, nodeId e.2.1.value = .ok e.2.1 ∧ g.hasNode e.2.1 = true)
    (h : Apart (g.edges.map Prod.fst ++ edges.map fun e => (e.1, e.2.1))) :
    (edges.map edgeValue).foldlM readEdge g =
      .ok { g with
        edges := g.edges ++
          (edges.filter fun e => isNamed e.1 e.2.1).map fun e => ((e.1, e.2.1), e.2.2) } := by
  induction edges generalizing g with
  | nil => simp [pure, Except.pure]
  | cons e later ih =>
      obtain ⟨⟨hsource, hnode⟩, hsources⟩ := List.forall_mem_cons.mp hsources
      obtain ⟨⟨htarget, hnode'⟩, htargets⟩ := List.forall_mem_cons.mp htargets
      rw [List.map_cons, List.foldlM_cons, readEdge_edgeValue hsource htarget]
      cases hnamed : isNamed e.1 e.2.1 with
      | false =>
          have hrest := ih hsources htargets (h.sublist (by simp))
          simpa [bind, Except.bind, hnamed] using hrest
      | true =>
          have hnew : ∀ pair ∈ g.edges.map Prod.fst, (pair == (e.1, e.2.1)) = false :=
            fun pair hpair => (List.pairwise_append.mp h).2.2 pair hpair _ List.mem_cons_self
          have hput : g.addEdge e.1 e.2.1 none e.2.2 =
              { g with edges := g.edges ++ [((e.1, e.2.1), e.2.2)] } := by
            rw [Digraph.addEdge_eq hnode hnode', put_eq_append_of_new hnew]
          have hrest := @ih { g with edges := g.edges ++ [((e.1, e.2.1), e.2.2)] } hsources htargets
            (by simpa using h)
          rw [if_pos rfl, hput]
          simpa [bind, Except.bind, hnamed] using hrest

theorem Readable.ends {g : DataGraph} (h : g.Readable) :
    ∀ e ∈ g.edgesBySource,
      (nodeId e.1.value = .ok e.1 ∧ g.hasNode e.1 = true) ∧
        nodeId e.2.1.value = .ok e.2.1 ∧ g.hasNode e.2.1 = true := by
  intro e he
  obtain ⟨node, hnode, edge, hedge, hsource, rfl⟩ := Digraph.mem_edgesBySource he
  have hpair := List.mem_map_of_mem (f := Prod.fst) hedge
  refine ⟨⟨h.names _ (List.mem_map_of_mem hnode), ?_⟩, h.targets _ hpair, h.hasNode_target _ hpair⟩
  rw [← Digraph.hasNode_congr hsource]
  exact h.hasNode_source _ hpair

theorem hasNode_readBack (g : DataGraph) (id : NodeId) : g.readBack.hasNode id = g.hasNode id := by
  simp only [Digraph.hasNode, readBack, List.any_map]
  rfl

theorem ofValue_toValue_of_readable {g : DataGraph} (h : g.Readable) :
    ofValue g.toValue = .ok g.readBack := by
  have hreadNodes := @foldlM_readNode Digraph.empty g.nodes h.names
    (by simpa [Digraph.empty] using h.nodes_apart)
  have hnodes : ∀ id, Digraph.hasNode (⟨g.nodes.map filled, []⟩ : DataGraph) id = g.hasNode id :=
    g.hasNode_readBack
  have hreadEdges := @foldlM_readEdge ⟨g.nodes.map filled, []⟩ g.edgesBySource
    (fun e he => by simpa only [hnodes] using (h.ends e he).1)
    (fun e he => by simpa only [hnodes] using (h.ends e he).2)
    (by simpa using h.apart_edgesBySource)
  simp only [Digraph.empty, List.nil_append] at hreadNodes hreadEdges
  simp [ofValue, toValue, entryOr, Value.items, Except.mapError, bind, Except.bind, Digraph.empty,
    hreadNodes, hreadEdges, readBack, Digraph.regroup]

end ScriptGraph.DataGraph
