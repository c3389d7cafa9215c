import ScriptGraph.Proofs.Graph.Assembly
import ScriptGraph.Proofs.Graph.ReadBack

/-!
# Reading back a call graph

The nodes of a call graph are written in their order, and read as they were.  The edges are written
source by source, and an edge whose source or target has no name is passed over in reading.  No
script refers to an object with an empty key, but a script may define one: `[ ]` is a name.
-/

namespace ScriptGraph

/-! ### Renamed nodes -/

namespace Digraph

variable {ι ν ε ι' ν' ε' : Type} [BEq ι] [BEq ι'] {rename : ι → ι'}
  (hrename : ∀ a b, (rename a == rename b) = (a == b)) (onNode : ν → ν') (onEdge : ε → ε')

include hrename

theorem hasNode_map (g : Digraph ι ν ε) (id : ι) :
    (g.map rename onNode onEdge).hasNode (rename id) = g.hasNode id := by
  simp only [hasNode, map, List.any_map, Function.comp_def, hrename]

theorem WellFormed.map {g : Digraph ι ν ε} (h : g.WellFormed) :
    (g.map rename onNode onEdge).WellFormed where
  nodes_apart := by
    have hapart := List.pairwise_map.mp h.nodes_apart
    simpa only [Entries.Apart, Digraph.map, List.map_map, List.pairwise_map, Function.comp_apply,
      hrename] using hapart
  edges_apart := by
    refine List.pairwise_map.mpr (List.pairwise_map.mpr ?_)
    refine (List.pairwise_map.mp h.edges_apart).imp fun {edge edge'} hne => ?_
    change (rename edge.1.1 == rename edge'.1.1 && rename edge.1.2 == rename edge'.1.2) = false
    rw [hrename, hrename]
    exact hne
  hasNode_source := by
    intro pair hpair
    obtain ⟨_, hmapped, rfl⟩ := List.mem_map.mp hpair
    obtain ⟨edge, hedge, rfl⟩ := List.mem_map.mp hmapped
    rw [hasNode_map hrename]
    exact h.hasNode_source _ (List.mem_map_of_mem hedge)
  hasNode_target := by
    intro pair hpair
    obtain ⟨_, hmapped, rfl⟩ := List.mem_map.mp hpair
    obtain ⟨edge, hedge, rfl⟩ := List.mem_map.mp hmapped
    rw [hasNode_map hrename]
    exact h.hasNode_target _ (List.mem_map_of_mem hedge)

theorem outgoing_map (g : Digraph ι ν ε) (source : ι) :
    (g.map rename onNode onEdge).outgoing (rename source) =
      (g.outgoing source).map fun e => (rename e.1, onEdge e.2) := by
  simp only [outgoing, map, List.filter_map, List.map_map, Function.comp_def, hrename]

theorem edgesBySource_map (g : Digraph ι ν ε) :
    (g.map rename onNode onEdge).edgesBySource =
      g.edgesBySource.map fun e => (rename e.1, rename e.2.1, onEdge e.2.2) := by
  rw [edgesBySource_eq, edgesBySource_eq, List.map_flatMap]
  simp only [map, List.flatMap_map, List.map_map, Function.comp_def]
  congr 1
  funext node
  have hnode := outgoing_map hrename onNode onEdge g node.1
  simp only [map] at hnode
  rw [hnode, List.map_map]
  rfl

end Digraph

/-! ### Call graphs -/

namespace CallGraph

variable {g : CallGraph}

/-- Edges lead from nodes to nodes, and there are no two nodes or edges for one. -/
structure IsClosed (g : CallGraph) : Prop extends IsSimple g where
  source_mem : ∀ edge ∈ g.edges, edge.1.1 ∈ g.nodes.map Prod.fst
  target_mem : ∀ edge ∈ g.edges, edge.1.2 ∈ g.nodes.map Prod.fst

theorem hasNode_iff_mem {key : String} : g.hasNode key = true ↔ key ∈ g.nodes.map Prod.fst := by
  rw [hasNode_eq, Entries.mem_keys_iff_isSome_lookup]

theorem IsClosed.wellFormed (h : g.IsClosed) : Digraph.WellFormed g where
  nodes_apart := Entries.apart_iff_nodup.mpr h.keys_nodup
  edges_apart := Entries.apart_iff_nodup.mpr h.pairs_nodup
  hasNode_source := by
    intro pair hpair
    obtain ⟨edge, hedge, rfl⟩ := List.mem_map.mp hpair
    exact hasNode_iff_mem.mpr (h.source_mem edge hedge)
  hasNode_target := by
    intro pair hpair
    obtain ⟨edge, hedge, rfl⟩ := List.mem_map.mp hpair
    exact hasNode_iff_mem.mpr (h.target_mem edge hedge)

theorem mem_outgoing_iff {source target : String} {kind : Kind} :
    (target, kind) ∈ g.outgoing source ↔ ((source, target), kind) ∈ g.edges := by
  simp only [Digraph.outgoing, List.mem_map, List.mem_filter, beq_iff_eq]
  constructor
  · rintro ⟨⟨⟨_, _⟩, _⟩, ⟨hedge, rfl⟩, heq⟩
    obtain ⟨rfl, rfl⟩ := Prod.mk.inj heq
    exact hedge
  · intro hedge
    exact ⟨_, ⟨hedge, rfl⟩, rfl⟩

def isNamedEdge (e : String × String × Kind) : Bool := e.1 != "" && e.2.1 != ""

/-- The graph that is read where `g` was written: the edges are grouped by their sources, and those
without a name at one of their nodes are left out. -/
def regrouped (g : CallGraph) : CallGraph where
  nodes := g.nodes
  edges := (g.edgesBySource.filter isNamedEdge).map fun e => ((e.1, e.2.1), e.2.2)

theorem outgoing_regrouped (h : g.IsClosed) (source : String) :
    g.regrouped.outgoing source =
      (g.outgoing source).filter fun e => isNamedEdge (source, e.1, e.2) := by
  have hkeeps : ∀ {a b : String} (target : String), (a == b) = true →
      (a != "" && target != "") = (b != "" && target != "") := by
    intro a b target heq
    rw [eq_of_beq heq]
  exact Digraph.outgoing_regroup h.wellFormed hkeeps source

end CallGraph

/-! ### Reading what was written -/

namespace DataGraph

open CallGraph

theorem beq_text (a b : String) : ((⟨.text a⟩ : NodeId) == ⟨.text b⟩) = (a == b) := rfl

theorem isTruthy_text (s : String) : (Value.text s).isTruthy = (s != "") := by
  rw [Value.isTruthy, Bool.eq_iff_iff]
  simp

theorem readable_ofCallGraph {g : CallGraph} (h : g.IsClosed) : Readable (ofCallGraph g) where
  toWellFormed := h.wellFormed.map beq_text _ _
  names := by
    intro id hid
    obtain ⟨_, hnode, rfl⟩ := List.mem_map.mp hid
    obtain ⟨node, -, rfl⟩ := List.mem_map.mp hnode
    rfl
  targets := by
    intro pair hpair
    obtain ⟨_, hedge, rfl⟩ := List.mem_map.mp hpair
    obtain ⟨edge, -, rfl⟩ := List.mem_map.mp hedge
    rfl

theorem readBack_ofCallGraph (g : CallGraph) :
    (ofCallGraph g).readBack = ofCallGraph g.regrouped := by
  have hnamed : ∀ e : String × String × Kind,
      isNamed ⟨.text e.1⟩ ⟨.text e.2.1⟩ = isNamedEdge e := by
    intro e
    rw [isNamed, isTruthy_text, isTruthy_text, isNamedEdge]
  have hnodes : (ofCallGraph g).nodes.map filled = (ofCallGraph g.regrouped).nodes := by
    simp only [ofCallGraph, Digraph.map, List.map_map, regrouped]
    rfl
  have hedges : ((ofCallGraph g).regroup isNamed).edges = (ofCallGraph g.regrouped).edges := by
    simp only [Digraph.regroup, ofCallGraph, Digraph.edgesBySource_map beq_text, List.filter_map,
      List.map_map, Function.comp_def, hnamed]
    simp only [Digraph.map, regrouped, List.map_map, Function.comp_def]
  rw [readBack, hnodes, hedges]

/-- What is read where a call graph was written. -/
theorem ofValue_toValue {g : CallGraph} (h : g.IsClosed) :
    ofValue (ofCallGraph g).toValue = .ok (ofCallGraph g.regrouped) := by
  rw [ofValue_toValue_of_readable (readable_ofCallGraph h), readBack_ofCallGraph]

/-! ### The graph of some files -/

theorem outgoing_ofCallGraph (g : CallGraph) (source : String) :
    (ofCallGraph g).outgoing ⟨.text source⟩ =
      (g.outgoing source).map fun e => (⟨.text e.1⟩, .text e.2.label) :=
  Digraph.outgoing_map beq_text _ _ g source

theorem outgoing_eq_nil {source : NodeId} (h : ∀ key, ((⟨.text key⟩ : NodeId) == source) = false)
    (g : CallGraph) : (ofCallGraph g).outgoing source = [] := by
  rw [Digraph.outgoing, List.filter_eq_nil_iff.mpr, List.map_nil]
  intro edge hedge
  obtain ⟨⟨⟨key, _⟩, _⟩, -, rfl⟩ := List.mem_map.mp hedge
  simpa using h key

theorem outgoing_congr {g g' : CallGraph} (h : ∀ source, g.outgoing source = g'.outgoing source)
    (source : NodeId) : (ofCallGraph g).outgoing source = (ofCallGraph g').outgoing source := by
  obtain ⟨value⟩ := source
  cases value with
  | text key => rw [outgoing_ofCallGraph, outgoing_ofCallGraph, h]
  | _ => rw [outgoing_eq_nil (fun _ => rfl), outgoing_eq_nil (fun _ => rfl)]

end DataGraph

namespace CallGraph

theorem isClosed_build (files : List FileOutcome) : IsClosed (build files) where
  toIsSimple := isSimple_build files
  source_mem := by
    rintro ⟨⟨source, target⟩, kind⟩ hedge
    obtain ⟨f, hf, hdefines, -⟩ := (mem_pairs_build_iff files source target).mp
      (List.mem_map_of_mem hedge)
    exact (mem_keys_build_iff files source).mpr (.inl ⟨f, hf, hdefines⟩)
  target_mem := by
    rintro ⟨⟨source, target⟩, kind⟩ hedge
    obtain ⟨f, hf, -, e, he, hkey⟩ := (mem_pairs_build_iff files source target).mp
      (List.mem_map_of_mem hedge)
    exact (mem_keys_build_iff files target).mpr (.inr ⟨f, hf, e, he, hkey⟩)

theorem key_ne_empty_of_parsed {files : List FileOutcome}
    (h : ∀ f ∈ files, ∀ script, f.result = .parsed script →
      ∃ text, Script.parse text = .ok (some script)) :
    ∀ f ∈ files, ∀ e ∈ f.references, e.callee.key ≠ "" := by
  intro f hf e he
  cases hresult : f.result with
  | nothing => simp [FileOutcome.references, hresult, FileResult.script?] at he
  | failed reason => simp [FileOutcome.references, hresult, FileResult.script?] at he
  | parsed script =>
      obtain ⟨text, htext⟩ := h f hf script hresult
      obtain ⟨definition, hdefinition, rfl⟩ := Script.exists_definition?_of_parse htext
      apply (Script.sound_of_definition? hdefinition).key_ne_empty
      simpa [FileOutcome.references, hresult, FileResult.script?] using he

theorem isNamedEdge_of_mem_outgoing {files : List FileOutcome} {source : String}
    (h : ∀ f ∈ files, ∀ e ∈ f.references, e.callee.key ≠ "") (hsource : source ≠ "")
    {e : String × Kind} (he : e ∈ (build files).outgoing source) :
    isNamedEdge (source, e.1, e.2) = true := by
  have hpair : (source, e.1) ∈ (build files).edges.map Prod.fst :=
    List.mem_map_of_mem (f := Prod.fst) (mem_outgoing_iff.mp he)
  obtain ⟨f, hf, -, r, hr, hkey⟩ := (mem_pairs_build_iff files source e.1).mp hpair
  simpa [isNamedEdge, hsource, ← hkey] using h f hf r hr

theorem outgoing_build_eq_nil_iff (files : List FileOutcome) (source : String) :
    (build files).outgoing source = [] ↔
      ∀ f ∈ files, f.defines source = true → f.references = [] := by
  constructor
  · intro hnone f hf hdefines
    refine List.eq_nil_iff_forall_not_mem.mpr fun e he => ?_
    have hpair := (mem_pairs_build_iff files source e.callee.key).mpr ⟨f, hf, hdefines, e, he, rfl⟩
    obtain ⟨⟨_, kind⟩, hedge, rfl⟩ := List.mem_map.mp hpair
    have hmem := mem_outgoing_iff.mpr hedge
    simp [hnone] at hmem
  · intro hnone
    refine List.eq_nil_iff_forall_not_mem.mpr fun e he => ?_
    have hpair : (source, e.1) ∈ (build files).edges.map Prod.fst :=
      List.mem_map_of_mem (f := Prod.fst) (mem_outgoing_iff.mp he)
    obtain ⟨f, hf, hdefines, r, hr, -⟩ := (mem_pairs_build_iff files source e.1).mp hpair
    simp [hnone f hf hdefines] at hr

/-- Without the edges from the empty key the graph comes back as it was; these are lost. -/
theorem outgoing_regrouped_build {files : List FileOutcome}
    (h : ∀ f ∈ files, ∀ e ∈ f.references, e.callee.key ≠ "") (source : String) :
    (build files).regrouped.outgoing source =
      if source = "" then [] else (build files).outgoing source := by
  rw [outgoing_regrouped (isClosed_build files)]
  split
  · rename_i hempty
    exact List.filter_eq_nil_iff.mpr fun e _ => by simp [isNamedEdge, hempty]
  · rename_i hsource
    exact List.filter_eq_self.mpr fun e he => isNamedEdge_of_mem_outgoing h hsource he

end CallGraph

namespace DataGraph

open CallGraph

/-- The graph of some parsed files, written and read back: the nodes are the same in the same order,
and the edges from every node are the same in the same order unless a script refers to something
although the object that it creates has an empty key. -/
theorem ofValue_toValue_build {files : List FileOutcome}
    (h : ∀ f ∈ files, ∀ script, f.result = .parsed script →
      ∃ text, Script.parse text = .ok (some script)) :
    ∃ g, ofValue (ofCallGraph (build files)).toValue = .ok g ∧
      g.nodes = (ofCallGraph (build files)).nodes ∧
      ((∀ source, g.outgoing source = (ofCallGraph (build files)).outgoing source) ↔
        ∀ f ∈ files, f.defines "" = true → f.references = []) := by
  have hkeys := key_ne_empty_of_parsed h
  refine ⟨_, ofValue_toValue (isClosed_build files), rfl, ?_⟩
  rw [← outgoing_build_eq_nil_iff]
  constructor
  · intro hsame
    have hlost := hsame ⟨.text ""⟩
    rw [outgoing_ofCallGraph, outgoing_ofCallGraph, outgoing_regrouped_build hkeys, if_pos rfl,
      List.map_nil, eq_comm, List.map_eq_nil_iff] at hlost
    exact hlost
  · intro hnone
    refine outgoing_congr fun source => ?_
    rw [outgoing_regrouped_build hkeys]
    split
    · rename_i hempty
      rw [hempty, hnone]
    · rfl

/-- A view with a blank name loses what it refers to; another view with the same reference keeps
it. -/
theorem ofValue_toValue_build_blank :
    let blank : DbObject := ⟨"[ ]", .view, by decide⟩
    let v : DbObject := ⟨"v", .view, by decide⟩
    let files : List FileOutcome := [
      ⟨"a.sql", .parsed ⟨blank, [⟨blank, "t", .table, by decide⟩]⟩⟩,
      ⟨"b.sql", .parsed ⟨v, [⟨v, "t", .table, by decide⟩]⟩⟩]
    (∀ f ∈ files, ∀ script, f.result = .parsed script →
      ∃ text, Script.parse text = .ok (some script)) ∧
    ∃ g, ofValue (ofCallGraph (build files)).toValue = .ok g ∧
      g.nodes = (ofCallGraph (build files)).nodes ∧
      ¬ ∀ source, g.outgoing source = (ofCallGraph (build files)).outgoing source := by
  intro blank v files
  have hparsed : ∀ f ∈ files, ∀ script, f.result = .parsed script →
      ∃ text, Script.parse text = .ok (some script) := by
    intro f hf script hscript
    simp only [files, List.mem_cons, List.not_mem_nil, or_false] at hf
    rcases hf with rfl | rfl
    · obtain rfl := FileResult.parsed.inj hscript
      exact ⟨"CREATE VIEW [ ] AS SELECT 1 FROM t", by decide +kernel⟩
    · obtain rfl := FileResult.parsed.inj hscript
      exact ⟨"CREATE VIEW v AS SELECT 1 FROM t", by decide +kernel⟩
  obtain ⟨g, hread, hnodes, hedges⟩ := ofValue_toValue_build hparsed
  refine ⟨hparsed, g, hread, hnodes, fun hsame => ?_⟩
  have hnone := hedges.mp hsame _ List.mem_cons_self (by decide +kernel)
  simp [FileOutcome.references, FileResult.script?] at hnone

end DataGraph

end ScriptGraph
