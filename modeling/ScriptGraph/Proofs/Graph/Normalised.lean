import ScriptGraph.Proofs.Except
import ScriptGraph.Proofs.Graph.ReadBack

/-!
# Written graphs are normal

A value that describes a graph may name a node several times and in several ways, leave out data and
nodes, and give the edges in any order.  Each step of reading keeps the nodes apart, the edges apart
and the ends of the edges among the nodes.  So the graph that is read loses nothing when it is
written and read again, and is written as before.
-/

namespace ScriptGraph

theorem foldlM_induction {ε α β : Type} {step : β → α → Except ε β} {holds : β → Prop}
    (hstep : ∀ {b a b'}, holds b → step b a = .ok b' → holds b') {items : List α} {b b' : β}
    (hb : holds b) (h : items.foldlM step b = .ok b') : holds b' := by
  induction items generalizing b with
  | nil =>
      obtain rfl : b = b' := Except.ok.inj h
      exact hb
  | cons item later ih =>
      rw [List.foldlM_cons] at h
      obtain ⟨middle, hfirst, hlater⟩ := exists_of_bind_eq_ok h
      exact ih (hstep hb hfirst) hlater

namespace DataGraph

variable {g g' : DataGraph}

/-- A graph that can be read as it is written, and of which no edge is passed over then. -/
structure Lossless (g : DataGraph) : Prop extends Readable g where
  named : ∀ pair ∈ g.edges.map Prod.fst, isNamed pair.1 pair.2 = true

/-! ### Reading -/

theorem lossless_empty : Lossless Digraph.empty where
  toWellFormed := Digraph.wellFormed_empty
  names := by simp [Digraph.empty]
  targets := by simp [Digraph.empty]
  named := by simp [Digraph.empty]

theorem Lossless.addNode (h : g.Lossless) {id : NodeId} (hid : nodeId id.value = .ok id)
    (data : Option NodeData) : Lossless (g.addNode id data) where
  toWellFormed := h.toWellFormed.addNode id data
  names := by
    intro k hk
    rcases Entries.mem_keys_of_mem_put hk with hold | rfl
    · exact h.names k hold
    · exact hid
  targets := h.targets
  named := h.named

theorem Lossless.addEdge (h : g.Lossless) {source target : NodeId}
    (hsource : nodeId source.value = .ok source) (htarget : nodeId target.value = .ok target)
    (hnamed : isNamed source target = true) (missing : Option NodeData) (type : Value) :
    Lossless (g.addEdge source target missing type) where
  toWellFormed :=
    h.toWellFormed.addEdge (beq_self_of_nodeId hsource) (beq_self_of_nodeId htarget) missing type
  names := by
    intro k hk
    rcases Digraph.mem_keys_of_mem_ensureNode hk with hk | rfl
    · rcases Digraph.mem_keys_of_mem_ensureNode hk with hold | rfl
      · exact h.names k hold
      · exact hsource
    · exact htarget
  targets := by
    intro pair hpair
    rcases Digraph.mem_keys_of_mem_addEdge hpair with hold | rfl
    · exact h.targets pair hold
    · exact htarget
  named := by
    intro pair hpair
    rcases Digraph.mem_keys_of_mem_addEdge hpair with hold | rfl
    · exact h.named pair hold
    · exact hnamed

theorem exists_of_readNode {v : Value} (h : readNode g v = .ok g') :
    ∃ id data, nodeId id.value = .ok id ∧ g' = g.addNode id data := by
  obtain ⟨_, -, h⟩ := exists_of_bind_eq_ok h
  obtain ⟨name, -, h⟩ := exists_of_bind_eq_ok h
  obtain ⟨type, -, h⟩ := exists_of_bind_eq_ok h
  obtain ⟨file, -, h⟩ := exists_of_bind_eq_ok h
  obtain ⟨defined, -, h⟩ := exists_of_bind_eq_ok h
  obtain ⟨id, hid, h⟩ := exists_of_bind_eq_ok h
  obtain rfl := eq_of_nodeId_eq_ok hid
  exact ⟨_, _, hid, (Except.ok.inj h).symm⟩

theorem cases_of_readEdge {v : Value} (h : readEdge g v = .ok g') :
    g' = g ∨ ∃ source target type, nodeId source.value = .ok source ∧
      nodeId target.value = .ok target ∧ isNamed source target = true ∧
      g' = g.addEdge source target none type := by
  obtain ⟨_, -, h⟩ := exists_of_bind_eq_ok h
  obtain ⟨source, -, h⟩ := exists_of_bind_eq_ok h
  obtain ⟨_, -, h⟩ := exists_of_bind_eq_ok h
  obtain ⟨target, -, h⟩ := exists_of_bind_eq_ok h
  obtain ⟨type, -, h⟩ := exists_of_bind_eq_ok h
  split at h
  · rename_i hnamed
    obtain ⟨source, hsource, h⟩ := exists_of_bind_eq_ok h
    obtain ⟨target, htarget, h⟩ := exists_of_bind_eq_ok h
    obtain rfl := eq_of_nodeId_eq_ok hsource
    obtain rfl := eq_of_nodeId_eq_ok htarget
    exact .inr ⟨_, _, _, hsource, htarget, hnamed, (Except.ok.inj h).symm⟩
  · exact .inl (Except.ok.inj h).symm

theorem Lossless.readNode {v : Value} (h : g.Lossless) (hread : readNode g v = .ok g') :
    g'.Lossless := by
  obtain ⟨id, data, hid, rfl⟩ := exists_of_readNode hread
  exact h.addNode hid data

theorem Lossless.readEdge {v : Value} (h : g.Lossless) (hread : readEdge g v = .ok g') :
    g'.Lossless := by
  rcases cases_of_readEdge hread with rfl | ⟨source, target, type, hsource, htarget, hnamed, rfl⟩
  · exact h
  · exact h.addEdge hsource htarget hnamed none type

theorem lossless_of_ofValue {v : Value} (h : ofValue v = .ok g) : g.Lossless := by
  obtain ⟨_, -, h⟩ := exists_of_bind_eq_ok h
  obtain ⟨nodes, -, h⟩ := exists_of_bind_eq_ok h
  obtain ⟨middle, hnodes, h⟩ := exists_of_bind_eq_ok h
  obtain ⟨_, -, h⟩ := exists_of_bind_eq_ok h
  obtain ⟨edges, -, hedges⟩ := exists_of_bind_eq_ok h
  have hmiddle := foldlM_induction Lossless.readNode lossless_empty hnodes
  exact foldlM_induction Lossless.readEdge hmiddle hedges

/-! ### Writing again -/

theorem Lossless.outgoing_readBack (h : g.Lossless) (source : NodeId) :
    g.readBack.outgoing source = g.outgoing source := by
  have hkept : (g.outgoing source).filter (fun e => isNamed source e.1) = g.outgoing source := by
    refine List.filter_eq_self.mpr fun e he => ?_
    obtain ⟨edge, hedge, rfl⟩ := List.mem_map.mp he
    obtain ⟨hmem, hsource⟩ := List.mem_filter.mp hedge
    rw [← isNamed_congr _ hsource]
    exact h.named _ (List.mem_map_of_mem hmem)
  rw [← hkept]
  exact Digraph.outgoing_regroup h.toWellFormed isNamed_congr source

theorem keys_readBack (g : DataGraph) :
    g.readBack.nodes.map Prod.fst = g.nodes.map Prod.fst := by
  rw [readBack, List.map_map]
  rfl

theorem Lossless.edgesBySource_readBack (h : g.Lossless) :
    g.readBack.edgesBySource = g.edgesBySource := by
  simp only [Digraph.edgesBySource_eq, h.outgoing_readBack]
  simp only [readBack, List.flatMap_map]
  rfl

theorem Lossless.length_edges_readBack (h : g.Lossless) :
    g.readBack.edges.length = g.edges.length := by
  have hagain := lossless_of_ofValue (ofValue_toValue_of_readable h.toReadable)
  rw [← hagain.length_edgesBySource, h.edgesBySource_readBack, h.length_edgesBySource]

theorem Lossless.toValue_readBack (h : g.Lossless) : g.readBack.toValue = g.toValue := by
  have hnodes : g.readBack.nodes.map nodeValue = g.nodes.map nodeValue := by
    rw [readBack, List.map_map]
    exact List.map_congr_left fun node _ => nodeValue_filled node
  have hlength : g.readBack.nodes.length = g.nodes.length := by rw [readBack, List.length_map]
  rw [toValue, toValue, hnodes, hlength, h.edgesBySource_readBack, h.length_edges_readBack]

/-- A graph that was read from a value can be read again as it is written.  It has the same nodes
and the same edges from each of them, and is written as it was. -/
theorem toValue_settled {v : Value} (h : ofValue v = .ok g) :
    ∃ g', ofValue g.toValue = .ok g' ∧ g'.toValue = g.toValue ∧
      g'.nodes.map Prod.fst = g.nodes.map Prod.fst ∧
      ∀ source, g'.outgoing source = g.outgoing source := by
  have hlossless := lossless_of_ofValue h
  exact ⟨g.readBack, ofValue_toValue_of_readable hlossless.toReadable, hlossless.toValue_readBack,
    g.keys_readBack, hlossless.outgoing_readBack⟩

/-- Nodes that are named twice as numbers, an end that no node is given for, both ways to give the
ends, an end that is not present and an edge that is given twice. -/
theorem toValue_settled_numbers :
    let entry (fields : List (String × Value)) : Value :=
      .map (fields.map fun field => (.text field.1, field.2))
    let one : Double := ⟨0x3ff0000000000000⟩
    let v : Value := entry [
      ("edges", .list [
        entry [("from", .text "b"), ("to", .bool true)],
        entry [("source", .float one), ("target", .text "a"), ("type", .text "View")],
        entry [("from", .text ""), ("to", .text "a")],
        entry [("source", .text "b"), ("target", .int 1), ("type", .null)]]),
      ("nodes", .list [
        entry [("id", .int 1), ("file", .text "one.sql")],
        entry [("id", .text "a")],
        entry [("id", .float one), ("type", .list [])]])]
    let w : Value := entry [
      ("nodes", .list [
        entry [("id", .int 1), ("name", .float one), ("type", .list []), ("file", .null),
          ("defined", .bool false)],
        entry [("id", .text "a"), ("name", .text "a"), ("type", .text "Table"), ("file", .null),
          ("defined", .bool false)],
        entry [("id", .text "b"), ("name", .text "b"), ("type", .text "Table"), ("file", .null),
          ("defined", .bool false)]]),
      ("edges", .list [
        entry [("from", .int 1), ("to", .text "a"), ("type", .text "View")],
        entry [("from", .text "b"), ("to", .bool true), ("type", .null)]]),
      ("metadata", entry [("node_count", .int 3), ("edge_count", .int 2)])]
    (∃ g, ofValue v = .ok g ∧ g.toValue = w) ∧ ∃ g', ofValue w = .ok g' ∧ g'.toValue = w := by
  intro entry one v w
  have hwritten : ((ofValue v).toOption.map toValue) = some w := by decide +kernel
  obtain ⟨g, hg, hw⟩ := Option.map_eq_some_iff.mp hwritten
  have hread : ofValue v = .ok g := by
    cases hv : ofValue v <;> simp_all [Except.toOption]
  obtain ⟨g', hread', hsettled, -⟩ := toValue_settled hread
  rw [hw] at hread' hsettled
  exact ⟨⟨g, hread, hw⟩, g', hread', hsettled⟩

end DataGraph

end ScriptGraph
