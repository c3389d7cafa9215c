import Mathlib.Data.List.Nodup
import ScriptGraph.Proofs.Graph.Entering

/-!
# Edges grouped by their sources

Nodes may be compared by any symmetric and transitive relation.  In a graph that nodes and edges
were entered into one after the other every edge has one source among the nodes, so grouping the
edges by their sources keeps their number and the edges from every node in their order.
-/

namespace ScriptGraph.Digraph

open Entries

variable {ι ν ε : Type} [BEq ι] {g : Digraph ι ν ε}

/-! ### Grouping -/

def outgoing (g : Digraph ι ν ε) (source : ι) : List (ι × ε) :=
  (g.edges.filter (·.1.1 == source)).map fun edge => (edge.1.2, edge.2)

theorem edgesBySource_eq (g : Digraph ι ν ε) :
    g.edgesBySource =
      g.nodes.flatMap fun node => (g.outgoing node.1).map fun e => (node.1, e.1, e.2) := by
  simp only [edgesBySource, outgoing, List.map_map]
  rfl

theorem mem_edgesBySource {e : ι × ι × ε} (h : e ∈ g.edgesBySource) :
    ∃ node ∈ g.nodes, ∃ edge ∈ g.edges, (edge.1.1 == node.1) = true ∧
      e = (node.1, edge.1.2, edge.2) := by
  obtain ⟨node, hnode, he⟩ := List.mem_flatMap.mp h
  obtain ⟨edge, hedge, rfl⟩ := List.mem_map.mp he
  obtain ⟨hmem, hsource⟩ := List.mem_filter.mp hedge
  exact ⟨node, hnode, edge, hmem, hsource, rfl⟩

/-- The graph with its edges grouped by their sources, without those that are not kept. -/
def regroup (keeps : ι → ι → Bool) (g : Digraph ι ν ε) : Digraph ι ν ε where
  nodes := g.nodes
  edges := (g.edgesBySource.filter fun e => keeps e.1 e.2.1).map fun e => ((e.1, e.2.1), e.2.2)

variable [PartialEquivBEq ι]

theorem hasNode_congr {a b : ι} (h : (a == b) = true) : g.hasNode a = g.hasNode b := by
  simp only [hasNode, BEq.congr_right h]

theorem outgoing_congr {a b : ι} (h : (a == b) = true) : g.outgoing a = g.outgoing b := by
  simp only [outgoing, BEq.congr_right h]

theorem flatMap_ite_key {α : Type} {nodes : List (ι × ν)} (h : Apart (nodes.map Prod.fst))
    (key : ι) (items : List α) :
    (nodes.flatMap fun node => if node.1 == key then items else []) =
      if (nodes.map Prod.fst).any (· == key) then items else [] := by
  induction nodes with
  | nil => rfl
  | cons node later ih =>
      obtain ⟨hnew, hlater⟩ := List.pairwise_cons.mp h
      rw [List.flatMap_cons, ih hlater, List.map_cons, List.any_cons]
      cases hkey : node.1 == key with
      | false => simp only [Bool.false_eq_true, if_false, List.nil_append, Bool.false_or]
      | true =>
          have hnone : (later.map Prod.fst).any (· == key) = false := by
            refine List.any_eq_false.mpr fun other hother hsame => ?_
            have hsame' : (node.1 == other) = true := BEq.trans hkey (BEq.symm hsame)
            exact Bool.false_ne_true ((hnew other hother).symm.trans hsame')
          simp [hnone]

/-- Grouping keeps the edges from every node in their order. -/
theorem outgoing_regroup (h : g.WellFormed) {keeps : ι → ι → Bool}
    (hkeeps : ∀ {a b} target, (a == b) = true → keeps a target = keeps b target) (source : ι) :
    (g.regroup keeps).outgoing source = (g.outgoing source).filter fun e => keeps source e.1 := by
  have hpiece : ∀ node : ι × ν,
      ((((g.outgoing node.1).map fun e => (node.1, e.1, e.2)).filter
        fun e => keeps e.1 e.2.1).filter (·.1 == source)).map Prod.snd =
        if node.1 == source then (g.outgoing source).filter fun e => keeps source e.1 else [] := by
    intro node
    rw [List.filter_filter, List.filter_map, List.map_map]
    cases hsource : node.1 == source with
    | false => simp [Function.comp_def, hsource]
    | true =>
        have hcongr : ∀ target, keeps node.1 target = keeps source target := fun _ =>
          hkeeps _ hsource
        simp [Function.comp_def, hsource, hcongr, outgoing_congr hsource]
  have hflat : (g.regroup keeps).outgoing source = g.nodes.flatMap fun node =>
      if node.1 == source then (g.outgoing source).filter fun e => keeps source e.1 else [] := by
    rw [outgoing, regroup, List.filter_map, List.map_map, edgesBySource_eq, List.filter_flatMap,
      List.filter_flatMap, List.map_flatMap]
    congr 1
    funext node
    exact hpiece node
  rw [hflat, flatMap_ite_key h.nodes_apart, ← hasNode_eq_any]
  split
  · rfl
  · rename_i hnone
    -- an edge from the source would have one of the nodes as its source
    have hnil : g.outgoing source = [] := by
      rw [outgoing, List.filter_eq_nil_iff.mpr, List.map_nil]
      intro edge hedge hsource
      rw [← hasNode_congr hsource] at hnone
      exact hnone (h.hasNode_source _ (List.mem_map_of_mem hedge))
    rw [hnil, List.filter_nil]

/-- No two edges that are grouped lead from the same node to the same node. -/
theorem WellFormed.apart_edgesBySource (h : g.WellFormed) :
    Apart (g.edgesBySource.map fun e => (e.1, e.2.1)) := by
  rw [Apart, edgesBySource, List.map_flatMap, List.pairwise_flatMap]
  constructor
  · intro node _
    rw [List.map_map, List.pairwise_map]
    refine ((List.pairwise_map.mp h.edges_apart).filter _).imp_of_mem ?_
    intro edge edge' hedge hedge' hpair
    have hsame : (edge.1.1 == edge'.1.1) = true :=
      BEq.trans (List.mem_filter.mp hedge).2 (BEq.symm (List.mem_filter.mp hedge').2)
    have htarget : (edge.1.2 == edge'.1.2) = false := by
      change (edge.1.1 == edge'.1.1 && edge.1.2 == edge'.1.2) = false at hpair
      rwa [hsame, Bool.true_and] at hpair
    change (node.1 == node.1 && edge.1.2 == edge'.1.2) = false
    rw [htarget, Bool.and_false]
  · refine (List.pairwise_map.mp h.nodes_apart).imp fun {node node'} hne => ?_
    intro pair hpair pair' hpair'
    simp only [List.map_map, List.mem_map] at hpair hpair'
    obtain ⟨edge, -, rfl⟩ := hpair
    obtain ⟨edge', -, rfl⟩ := hpair'
    change (node.1 == node'.1 && edge.1.2 == edge'.1.2) = false
    rw [hne, Bool.false_and]

theorem length_flatMap_filter {nodes : List (ι × ν)} {edges : List ((ι × ι) × ε)}
    (h : Apart (nodes.map Prod.fst))
    (hsource : ∀ edge ∈ edges, (nodes.map Prod.fst).any (· == edge.1.1) = true) :
    (nodes.flatMap fun node => edges.filter (·.1.1 == node.1)).length = edges.length := by
  induction nodes generalizing edges with
  | nil =>
      have hnone : edges = [] := List.eq_nil_iff_forall_not_mem.mpr fun edge hedge =>
        Bool.false_ne_true (hsource edge hedge)
      rw [hnone, List.flatMap_nil]
  | cons node later ih =>
      obtain ⟨hnew, hlater⟩ := List.pairwise_cons.mp h
      -- the edges from the other nodes are among those that are not from this one
      have hothers : (later.flatMap fun other => edges.filter (·.1.1 == other.1)) =
          later.flatMap fun other =>
            (edges.filter fun edge => !(edge.1.1 == node.1)).filter (·.1.1 == other.1) := by
        refine List.flatMap_congr fun other hother => ?_
        rw [List.filter_filter]
        refine List.filter_congr fun edge _ => ?_
        have hne : (node.1 == other.1) = false := hnew _ (List.mem_map_of_mem hother)
        cases hsame : edge.1.1 == other.1 with
        | false => rfl
        | true => rw [BEq.congr_left hsame, BEq.comm, hne, Bool.not_false, Bool.and_self]
      have hrest : ∀ edge ∈ edges.filter fun edge => !(edge.1.1 == node.1),
          (later.map Prod.fst).any (· == edge.1.1) = true := by
        intro edge hedge
        obtain ⟨hmem, hother⟩ := List.mem_filter.mp hedge
        have hne : (edge.1.1 == node.1) = false := by simpa using hother
        have hany := hsource edge hmem
        rw [List.map_cons, List.any_cons, BEq.comm, hne] at hany
        exact hany
      rw [List.flatMap_cons, List.length_append, hothers, ih hlater hrest,
        ← List.length_eq_length_filter_add]

theorem WellFormed.length_edgesBySource (h : g.WellFormed) :
    g.edgesBySource.length = g.edges.length := by
  have hsource : ∀ edge ∈ g.edges, (g.nodes.map Prod.fst).any (· == edge.1.1) = true := by
    intro edge hedge
    rw [← hasNode_eq_any]
    exact h.hasNode_source _ (List.mem_map_of_mem hedge)
  rw [← length_flatMap_filter h.nodes_apart hsource, edgesBySource]
  simp only [List.length_flatMap, List.length_map]

end ScriptGraph.Digraph
