import ScriptGraph.Graph.Digraph
import ScriptGraph.Proofs.Entries

/-!
# Entering nodes and edges

A node that is entered leaves the edges as they are, and an edge brings its nodes with it.  So in a
graph that is made in this way edges lead from nodes to nodes, whatever the nodes are compared by.
-/

namespace ScriptGraph.Digraph

open Entries

variable {ι ν ε : Type} [BEq ι] {g : Digraph ι ν ε}

/-- No two nodes and no two edges are the same, and edges lead from nodes to nodes. -/
structure WellFormed (g : Digraph ι ν ε) : Prop where
  nodes_apart : Apart (g.nodes.map Prod.fst)
  edges_apart : Apart (g.edges.map Prod.fst)
  hasNode_source : ∀ pair ∈ g.edges.map Prod.fst, g.hasNode pair.1 = true
  hasNode_target : ∀ pair ∈ g.edges.map Prod.fst, g.hasNode pair.2 = true

theorem hasNode_eq_any (g : Digraph ι ν ε) (id : ι) :
    g.hasNode id = (g.nodes.map Prod.fst).any (· == id) := by
  rw [hasNode, List.any_map]
  rfl

theorem wellFormed_empty : WellFormed (empty : Digraph ι ν ε) where
  nodes_apart := List.Pairwise.nil
  edges_apart := List.Pairwise.nil
  hasNode_source := by simp [empty]
  hasNode_target := by simp [empty]

theorem hasNode_addNode {id other : ι} (h : g.hasNode other = true) (data : ν) :
    (g.addNode id data).hasNode other = true := by
  rw [hasNode_eq_any] at h ⊢
  rw [addNode, keys_put]
  split
  · exact h
  · rw [List.any_append, h, Bool.true_or]

theorem hasNode_addNode_self {id : ι} (hself : (id == id) = true) (data : ν) :
    (g.addNode id data).hasNode id = true := by
  rw [hasNode_eq_any, addNode, keys_put]
  split
  · assumption
  · rw [List.any_append, List.any_cons, hself, Bool.true_or, Bool.or_true]

theorem hasNode_ensureNode {id other : ι} (h : g.hasNode other = true) (data : ν) :
    (g.ensureNode id data).hasNode other = true := by
  unfold ensureNode
  split
  · exact h
  · exact hasNode_addNode h data

theorem hasNode_ensureNode_self {id : ι} (hself : (id == id) = true) (data : ν) :
    (g.ensureNode id data).hasNode id = true := by
  unfold ensureNode
  split
  · assumption
  · exact hasNode_addNode_self hself data

theorem mem_keys_of_mem_ensureNode {id k : ι} {data : ν}
    (h : k ∈ (g.ensureNode id data).nodes.map Prod.fst) : k ∈ g.nodes.map Prod.fst ∨ k = id := by
  unfold ensureNode at h
  split at h
  · exact .inl h
  · exact mem_keys_of_mem_put h

theorem edges_ensureNode (g : Digraph ι ν ε) (id : ι) (data : ν) :
    (g.ensureNode id data).edges = g.edges := by
  unfold ensureNode
  split
  · rfl
  · rfl

theorem mem_keys_of_mem_addEdge {source target : ι} {missing : ν} {data : ε} {pair : ι × ι}
    (h : pair ∈ (g.addEdge source target missing data).edges.map Prod.fst) :
    pair ∈ g.edges.map Prod.fst ∨ pair = (source, target) := by
  have hput := mem_keys_of_mem_put h
  rwa [edges_ensureNode, edges_ensureNode] at hput

theorem addEdge_eq {source target : ι} (hsource : g.hasNode source = true)
    (htarget : g.hasNode target = true) (missing : ν) (data : ε) :
    g.addEdge source target missing data =
      { g with edges := put (source, target) data g.edges } := by
  simp only [addEdge, ensureNode, hsource, htarget, if_true]

namespace WellFormed

theorem addNode (h : g.WellFormed) (id : ι) (data : ν) : (g.addNode id data).WellFormed where
  nodes_apart := h.nodes_apart.keys_put id data
  edges_apart := h.edges_apart
  hasNode_source := fun pair hpair => hasNode_addNode (h.hasNode_source pair hpair) data
  hasNode_target := fun pair hpair => hasNode_addNode (h.hasNode_target pair hpair) data

theorem ensureNode (h : g.WellFormed) (id : ι) (data : ν) :
    (g.ensureNode id data).WellFormed := by
  unfold Digraph.ensureNode
  split
  · exact h
  · exact h.addNode id data

theorem putEdge (h : g.WellFormed) {source target : ι} (hsource : g.hasNode source = true)
    (htarget : g.hasNode target = true) (data : ε) :
    WellFormed { g with edges := put (source, target) data g.edges } where
  nodes_apart := h.nodes_apart
  edges_apart := h.edges_apart.keys_put (source, target) data
  hasNode_source := by
    intro pair hpair
    rcases mem_keys_of_mem_put hpair with hold | rfl
    · exact h.hasNode_source pair hold
    · exact hsource
  hasNode_target := by
    intro pair hpair
    rcases mem_keys_of_mem_put hpair with hold | rfl
    · exact h.hasNode_target pair hold
    · exact htarget

theorem addEdge (h : g.WellFormed) {source target : ι} (hsource : (source == source) = true)
    (htarget : (target == target) = true) (missing : ν) (data : ε) :
    (g.addEdge source target missing data).WellFormed :=
  ((h.ensureNode source missing).ensureNode target missing).putEdge
    (hasNode_ensureNode (hasNode_ensureNode_self hsource missing) missing)
    (hasNode_ensureNode_self htarget missing) data

end WellFormed

end ScriptGraph.Digraph
