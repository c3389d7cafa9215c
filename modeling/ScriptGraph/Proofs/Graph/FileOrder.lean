import Mathlib.Data.List.Nodup
import ScriptGraph.Proofs.Graph.Assembly

/-!
# The order of the files of a graph

What is entered first stays, so the order of the files decides how an object is shown that no file
creates, and which definition counts where several files create one object.  It decides on nothing
else: not on the objects and the pairs of objects of the graph, nor on which objects are defined.  If
no two files create one object, the defined objects and all edges are shown alike in any order.
-/

namespace ScriptGraph

namespace CallGraph

variable {files files' : List FileOutcome} {key : String} {node : ObjectNode} {f f' : FileOutcome}

/-- No two files create one object. -/
def DefinedOnce (files : List FileOutcome) : Prop :=
  (files.filterMap fun f => f.definition?.map DbObject.key).Nodup

instance (files : List FileOutcome) : Decidable (DefinedOnce files) :=
  inferInstanceAs (Decidable (List.Nodup _))

def flags (g : CallGraph) : List (String × Bool) := g.nodes.map fun n => (n.1, n.2.defined)

def definedNodes (g : CallGraph) : List (String × ObjectNode) := g.nodes.filter (·.2.defined)

/-! ### What a node tells -/

theorem mem_nodes_build_iff :
    (key, node) ∈ (build files).nodes ↔ (build files).nodes.lookup key = some node :=
  ⟨Entries.lookup_eq_some_of_mem (isSimple_build files).keys_nodup, Entries.mem_of_lookup_eq_some⟩

theorem exists_first_of_defines (h : ∃ f ∈ files, f.defines key) :
    ∃ f ∈ files, ∃ o, files.find? (·.defines key) = some f ∧ f.definition? = some o ∧
      o.key = key := by
  obtain ⟨f, hf⟩ := Option.isSome_iff_exists.mp (List.find?_isSome.mpr h)
  have hdefines : f.defines key = true := by simpa using List.find?_some hf
  obtain ⟨o, ho, hkey⟩ := FileOutcome.defines_eq_true_iff.mp hdefines
  exact ⟨f, List.mem_of_find?_eq_some hf, o, hf, ho, hkey⟩

/-- An object counts as defined exactly if some file creates it, wherever the file stands. -/
theorem defined_iff_of_mem_build (h : (key, node) ∈ (build files).nodes) :
    node.defined = true ↔ ∃ f ∈ files, f.defines key := by
  rw [mem_nodes_build_iff] at h
  by_cases hdefined : ∃ f ∈ files, f.defines key
  · obtain ⟨f, -, o, hfirst, ho, -⟩ := exists_first_of_defines hdefined
    rw [lookup_nodes_build_of_first hfirst ho] at h
    obtain rfl := Option.some.inj h
    exact iff_of_true rfl hdefined
  · have hundefined : ∀ f ∈ files, f.defines key = false := by simpa using hdefined
    rw [lookup_nodes_build_of_undefined hundefined] at h
    obtain ⟨e, -, rfl⟩ := Option.map_eq_some_iff.mp h
    exact iff_of_false Bool.false_ne_true hdefined

theorem mem_flags_build_iff {flag : Bool} :
    (key, flag) ∈ (build files).flags ↔
      key ∈ (build files).nodes.map Prod.fst ∧ (flag = true ↔ ∃ f ∈ files, f.defines key) := by
  constructor
  · intro h
    obtain ⟨⟨key, node⟩, hmem, heq⟩ := List.mem_map.mp h
    obtain ⟨rfl, rfl⟩ := Prod.mk.inj heq
    exact ⟨List.mem_map_of_mem hmem, defined_iff_of_mem_build hmem⟩
  · rintro ⟨hkey, hflag⟩
    obtain ⟨⟨key, node⟩, hmem, rfl⟩ := List.mem_map.mp hkey
    have hsame : flag = node.defined :=
      Bool.eq_iff_iff.mpr (hflag.trans (defined_iff_of_mem_build hmem).symm)
    exact List.mem_map.mpr ⟨(key, node), hmem, by rw [hsame]⟩

theorem nodup_flags_build (files : List FileOutcome) : (build files).flags.Nodup := by
  refine List.Nodup.of_map Prod.fst ?_
  rw [flags, List.map_map]
  exact (isSimple_build files).keys_nodup

/-! ### Files that create different objects -/

theorem DefinedOnce.length_filter_le (h : DefinedOnce files) (key : String) :
    (files.filter (·.defines key)).length ≤ 1 := by
  have hkeys : (files.filter (·.defines key)).filterMap (fun f => f.definition?.map DbObject.key) =
      (files.filter (·.defines key)).map fun _ => key := by
    rw [← List.filterMap_eq_map]
    refine List.filterMap_congr fun f hf => ?_
    obtain ⟨o, ho, hkey⟩ := FileOutcome.defines_eq_true_iff.mp (List.mem_filter.mp hf).2
    simp [ho, hkey]
  have hnodup : ((files.filter (·.defines key)).map fun _ => key).Nodup :=
    hkeys ▸ h.sublist (List.filter_sublist.filterMap _)
  rw [List.map_const', List.nodup_replicate] at hnodup
  exact hnodup

theorem DefinedOnce.eq_of_defines (h : DefinedOnce files) (hf : f ∈ files) (hf' : f' ∈ files)
    (hkey : f.defines key = true) (hkey' : f'.defines key = true) : f = f' := by
  have hmem : f ∈ files.filter (·.defines key) := List.mem_filter.mpr ⟨hf, hkey⟩
  have hmem' : f' ∈ files.filter (·.defines key) := List.mem_filter.mpr ⟨hf', hkey'⟩
  obtain ⟨only, honly⟩ := List.length_eq_one_iff.mp
    (Nat.le_antisymm (h.length_filter_le key) (List.length_pos_of_mem hmem))
  rw [honly, List.mem_singleton] at hmem hmem'
  exact hmem.trans hmem'.symm

theorem DefinedOnce.mem_definedNodes_iff (h : DefinedOnce files) :
    (key, node) ∈ (build files).definedNodes ↔
      ∃ f ∈ files, ∃ o, f.definition? = some o ∧ o.key = key ∧ definedNode f.file o = node := by
  rw [definedNodes, List.mem_filter]
  constructor
  · rintro ⟨hmem, hdefined⟩
    obtain ⟨f, hf, o, hfirst, ho, hkey⟩ :=
      exists_first_of_defines ((defined_iff_of_mem_build hmem).mp hdefined)
    rw [mem_nodes_build_iff, lookup_nodes_build_of_first hfirst ho] at hmem
    exact ⟨f, hf, o, ho, hkey, Option.some.inj hmem⟩
  · rintro ⟨f, hf, o, ho, hkey, rfl⟩
    have hdefines : f.defines key = true := FileOutcome.defines_eq_true_iff.mpr ⟨o, ho, hkey⟩
    -- the first file that creates the object is the only one
    obtain ⟨first, hmem, o', hfirst, ho', hkey'⟩ := exists_first_of_defines ⟨f, hf, hdefines⟩
    obtain rfl : f = first := h.eq_of_defines hf hmem hdefines
      (FileOutcome.defines_eq_true_iff.mpr ⟨o', ho', hkey'⟩)
    exact ⟨mem_nodes_build_iff.mpr (lookup_nodes_build_of_first hfirst ho), rfl⟩

theorem nodup_definedNodes_build (files : List FileOutcome) : (build files).definedNodes.Nodup :=
  ((isSimple_build files).keys_nodup.of_map Prod.fst).filter _

theorem DefinedOnce.filter_eq_of_perm (h : DefinedOnce files) (hperm : files.Perm files')
    (key : String) : files.filter (·.defines key) = files'.filter (·.defines key) := by
  have hfilter := hperm.filter (·.defines key)
  have hlength := h.length_filter_le key
  cases hfirst : files.filter (·.defines key) with
  | nil =>
      rw [hfirst] at hfilter
      exact hfilter.nil_eq
  | cons f later =>
      obtain rfl : later = [] := by simpa [hfirst] using hlength
      rw [hfirst] at hfilter
      exact (List.singleton_perm.mp hfilter)

/-! ### Any order -/

/-- Two graphs with the same keys, of which the same are defined, and with the same pairs of keys. -/
structure SameShape (g g' : CallGraph) : Prop where
  flags_perm : g.flags.Perm g'.flags
  pairs_perm : (g.edges.map Prod.fst).Perm (g'.edges.map Prod.fst)

theorem sameShape_build_of_perm (h : files.Perm files') :
    SameShape (build files) (build files') where
  flags_perm := by
    rw [List.perm_ext_iff_of_nodup (nodup_flags_build files) (nodup_flags_build files')]
    rintro ⟨key, flag⟩
    simp only [mem_flags_build_iff, mem_keys_build_iff, h.mem_iff]
  pairs_perm := by
    rw [List.perm_ext_iff_of_nodup (isSimple_build files).pairs_nodup
      (isSimple_build files').pairs_nodup]
    rintro ⟨source, target⟩
    simp only [mem_pairs_build_iff, h.mem_iff]

/-- The order of files does not matter for the shape of their graph.  If no two files create one
object, it does not matter for the defined objects and the edges either. -/
theorem build_independent_of_file_order (h : files.Perm files') :
    SameShape (build files) (build files') ∧
    (DefinedOnce files →
      (build files).definedNodes.Perm (build files').definedNodes ∧
      (build files).edges.Perm (build files').edges) := by
  refine ⟨sameShape_build_of_perm h, fun honce => ⟨?_, ?_⟩⟩
  · have honce' : DefinedOnce files' := (h.filterMap _).nodup_iff.mp honce
    rw [List.perm_ext_iff_of_nodup (nodup_definedNodes_build files) (nodup_definedNodes_build files')]
    rintro ⟨key, node⟩
    simp only [honce.mem_definedNodes_iff, honce'.mem_definedNodes_iff, h.mem_iff]
  · -- the kind of an edge comes from the files that create its source, of which there is at most one
    refine Entries.perm_of_lookup_eq (isSimple_build files).pairs_nodup
      (isSimple_build files').pairs_nodup fun pair => ?_
    obtain ⟨source, target⟩ := pair
    rw [lookup_edges_build, lookup_edges_build, honce.filter_eq_of_perm h]

/-- Two scripts that use one table under two spellings.  The order decides how the table is shown. -/
theorem build_independent_of_file_order_reverse :
    let v : DbObject := ⟨"V", .view, by decide⟩
    let p : DbObject := ⟨"p", .storedProcedure, by decide⟩
    let files : List FileOutcome := [
      ⟨"a.sql", .parsed ⟨v, [⟨v, "T", .table, by decide⟩]⟩⟩,
      ⟨"b.sql", .nothing⟩,
      ⟨"c.sql", .parsed ⟨p, [⟨p, "[t]", .table, by decide⟩, ⟨p, "[v]", .table, by decide⟩]⟩⟩]
    files.Perm files.reverse ∧ DefinedOnce files ∧
    (build files).nodes.lookup "t" = some ⟨"T", .table, none, false⟩ ∧
    (build files.reverse).nodes.lookup "t" = some ⟨"[t]", .table, none, false⟩ ∧
    SameShape (build files) (build files.reverse) ∧
    (build files).definedNodes.Perm (build files.reverse).definedNodes ∧
    (build files).edges.Perm (build files.reverse).edges := by
  intro v p files
  have hperm : files.Perm files.reverse := files.reverse_perm.symm
  have honce : DefinedOnce files := by decide +kernel
  obtain ⟨hshape, hnodes, hedges⟩ :=
    (build_independent_of_file_order hperm).imp_right fun h => h honce
  exact ⟨hperm, honce, by decide +kernel, by decide +kernel, hshape, hnodes, hedges⟩

end CallGraph

end ScriptGraph
