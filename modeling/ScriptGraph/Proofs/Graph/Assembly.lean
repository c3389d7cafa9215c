import ScriptGraph.Graph.CallGraph
import ScriptGraph.Proofs.Graph.Entering
import ScriptGraph.Proofs.Script.References

/-!
# What the graph of some files consists of

Definitions are entered before references, and what is entered first stays.  So what the graph
holds under a key, or between two keys, is what the first file says that speaks of it:
`lookup_foldl` turns each of the two passes into a search for that file.
-/

namespace ScriptGraph

/-! ### Files -/

namespace FileOutcome

def definition? (f : FileOutcome) : Option DbObject := f.result.script?.map (·.definition)

def defines (f : FileOutcome) (key : String) : Bool := f.definition?.any (·.key == key)

/-- The references of the script of a file; a file without a result has none. -/
def references (f : FileOutcome) : List Reference := (f.result.script?.map (·.references)).getD []

theorem defines_eq_true_iff {f : FileOutcome} {key : String} :
    f.defines key = true ↔ ∃ o, f.definition? = some o ∧ o.key = key := by
  simp [defines, Option.any_eq_true]

end FileOutcome

/-! ### Passes in which the first entry stays -/

/-- If every step of a pass answers only what was not answered before, the pass answers as its first
step that answers at all. -/
theorem lookup_foldl {γ β ν : Type} {step : γ → β → γ} (answer : γ → Option ν)
    {give : β → Option ν} (Good : γ → Prop) {items : List β}
    (hstep : ∀ g, Good g → ∀ b ∈ items, answer (step g b) = (answer g).or (give b))
    (hgood : ∀ g, Good g → ∀ b ∈ items, Good (step g b)) {g : γ} (hg : Good g) :
    answer (items.foldl step g) = (answer g).or (items.findSome? give) := by
  induction items generalizing g with
  | nil => simp
  | cons b later ih =>
      have hfirst := hstep g hg b List.mem_cons_self
      have hlater := ih (fun g hg b hb => hstep g hg b (List.mem_cons_of_mem _ hb))
        (fun g hg b hb => hgood g hg b (List.mem_cons_of_mem _ hb))
        (hgood g hg b List.mem_cons_self)
      rw [List.foldl_cons, hlater, hfirst, List.findSome?_cons, Option.or_assoc]
      cases give b with
      | none => rfl
      | some value => rfl

theorem findSome?_ite_eq_map_find? {α β : Type} (p : α → Bool) (f : α → β) (items : List α) :
    (items.findSome? fun a => if p a then some (f a) else none) = (items.find? p).map f := by
  rw [List.find?_eq_findSome?_guard, List.map_findSome?]
  congr 1
  funext a
  by_cases ha : p a <;> simp [Option.guard, ha]

theorem findSome?_filter {α β : Type} (p : α → Bool) (f : α → Option β) (items : List α) :
    (items.filter p).findSome? f = items.findSome? fun a => if p a then f a else none := by
  induction items with
  | nil => rfl
  | cons a later ih =>
      rw [List.filter_cons, List.findSome?_cons, ← ih]
      cases p a with
      | true => exact List.findSome?_cons
      | false => rfl

namespace CallGraph

variable {g : CallGraph} {caller : String} {r : Reference}

theorem hasNode_eq (g : CallGraph) (key : String) :
    g.hasNode key = (g.nodes.lookup key).isSome := Entries.any_key_eq_isSome_lookup key g.nodes

theorem lookup_ensureNode (g : CallGraph) (id key : String) (data : ObjectNode) :
    (g.ensureNode id data).nodes.lookup key =
      (g.nodes.lookup key).or (if key = id then some data else none) := by
  rw [← Entries.lookup_put_of_new, Digraph.ensureNode, hasNode_eq]
  split
  · rfl
  · rfl

theorem hasNode_ensureNode (g : CallGraph) (id key : String) (data : ObjectNode) :
    (g.ensureNode id data).hasNode key = (g.hasNode key || decide (key = id)) := by
  rw [hasNode_eq, lookup_ensureNode, hasNode_eq, Option.isSome_or]
  congr 1
  split <;> simp_all

/-! ### Definitions -/

/-- Only defined objects have been entered. -/
def AllDefined (g : CallGraph) : Prop := ∀ key node, g.nodes.lookup key = some node → node.defined

theorem AllDefined.definedAt?_eq (h : g.AllDefined) (key : String) :
    definedAt? g key = g.nodes.lookup key := by
  unfold definedAt?
  cases hlookup : g.nodes.lookup key with
  | none => rfl
  | some node => simp [h key node hlookup]

theorem AllDefined.addDefinition_eq (h : g.AllDefined) (entry : String × ParsedScript) :
    addDefinition g entry =
      g.ensureNode entry.2.definition.key (definedNode entry.1 entry.2.definition) := by
  rw [addDefinition, h.definedAt?_eq, Digraph.ensureNode, hasNode_eq]
  cases g.nodes.lookup entry.2.definition.key with
  | none => rfl
  | some node => rfl

theorem AllDefined.addDefinition (h : g.AllDefined) (entry : String × ParsedScript) :
    (CallGraph.addDefinition g entry).AllDefined := by
  intro key node hlookup
  rw [h.addDefinition_eq, lookup_ensureNode, Option.or_eq_some_iff] at hlookup
  rcases hlookup with hold | ⟨-, hnew⟩
  · exact h key node hold
  · obtain ⟨-, rfl⟩ : key = entry.2.definition.key ∧
        definedNode entry.1 entry.2.definition = node := by simpa using hnew
    rfl

def nodeOfDefinition? (key : String) (f : FileOutcome) : Option ObjectNode :=
  if f.defines key then f.definition?.map (definedNode f.file) else none

theorem nodeOfDefinition?_of_parsed {f : FileOutcome} {script : ParsedScript}
    (h : f.result.script? = some script) (key : String) :
    nodeOfDefinition? key f =
      if key = script.definition.key then some (definedNode f.file script.definition)
      else none := by
  have hcomm : key = script.definition.key ↔ script.definition.key = key := eq_comm
  simp [nodeOfDefinition?, FileOutcome.defines, FileOutcome.definition?, h, hcomm]

theorem nodeOfDefinition?_of_none {f : FileOutcome} (h : f.result.script? = none) (key : String) :
    nodeOfDefinition? key f = none := by
  simp [nodeOfDefinition?, FileOutcome.defines, FileOutcome.definition?, h]

/-- After the first pass a key has the node of the first file that defines it. -/
theorem lookup_definitions (files : List FileOutcome) (key : String) :
    (definitions (parsedScripts files)).nodes.lookup key =
      files.findSome? (nodeOfDefinition? key) := by
  rw [definitions, parsedScripts, List.foldl_filterMap]
  apply lookup_foldl (fun g : CallGraph => g.nodes.lookup key) AllDefined
  · intro g hg f _
    cases hscript : f.result.script? with
    | none => simp [nodeOfDefinition?_of_none hscript]
    | some script =>
        simp only [Option.map_some, hg.addDefinition_eq, lookup_ensureNode,
          nodeOfDefinition?_of_parsed hscript]
  · intro g hg f _
    cases hscript : f.result.script? with
    | none => exact hg
    | some script => exact hg.addDefinition (f.file, script)
  · intro key node hlookup
    simp [Digraph.empty] at hlookup

/-! ### References -/

/-- A reference enters its callee, unless the callee is there.  Its caller must be there already:
otherwise the edge would enter the caller, too. -/
theorem nodes_addReference (h : g.hasNode caller = true) (r : Reference) :
    (addReference caller g r).nodes =
      (g.ensureNode r.callee.key (externalNode r.callee)).nodes := by
  have hcaller : (g.ensureNode r.callee.key (externalNode r.callee)).hasNode caller = true := by
    rw [hasNode_ensureNode, h, Bool.true_or]
  have hcallee :
      (g.ensureNode r.callee.key (externalNode r.callee)).hasNode r.callee.key = true := by
    simp [hasNode_ensureNode]
  unfold addReference
  simp only
  split
  · rfl
  · rw [Digraph.addEdge_eq hcaller hcallee]

theorem edges_addReference (g : CallGraph) (caller : String) (r : Reference) :
    (addReference caller g r).edges =
      if (g.edges.lookup (caller, r.callee.key)).isSome then g.edges
      else Entries.put (caller, r.callee.key) r.callee.kind g.edges := by
  have hedge : (g.ensureNode r.callee.key (externalNode r.callee)).hasEdge caller r.callee.key =
      (g.edges.lookup (caller, r.callee.key)).isSome := by
    rw [Digraph.hasEdge, Digraph.edges_ensureNode, Entries.any_key_eq_isSome_lookup]
  unfold addReference
  simp only [hedge]
  split
  · rw [Digraph.edges_ensureNode]
  · simp only [Digraph.addEdge, Digraph.edges_ensureNode]

theorem lookup_nodes_addReference (h : g.hasNode caller = true) (r : Reference) (key : String) :
    (addReference caller g r).nodes.lookup key =
      (g.nodes.lookup key).or
        (if r.callee.key == key then some (externalNode r.callee) else none) := by
  rw [nodes_addReference h, lookup_ensureNode]
  simp only [beq_iff_eq, @eq_comm _ key]

theorem lookup_edges_addReference (g : CallGraph) (caller : String) (r : Reference)
    (source target : String) :
    (addReference caller g r).edges.lookup (source, target) =
      (g.edges.lookup (source, target)).or
        (if caller = source ∧ r.callee.key = target then some r.callee.kind else none) := by
  rw [edges_addReference, Entries.lookup_put_of_new]
  simp only [Prod.mk.injEq, @eq_comm _ source, @eq_comm _ target]

theorem hasNode_addReference (h : g.hasNode caller = true) (r : Reference) {key : String}
    (hkey : g.hasNode key = true) : (addReference caller g r).hasNode key = true := by
  rw [hasNode_eq] at hkey ⊢
  rw [lookup_nodes_addReference h, Option.isSome_or, hkey, Bool.true_or]

theorem lookup_nodes_addReferences (entry : String × ParsedScript)
    (h : g.hasNode entry.2.definition.key = true) (key : String) :
    (addReferences g entry).nodes.lookup key =
      (g.nodes.lookup key).or
        ((entry.2.references.find? (·.callee.key == key)).map (externalNode ·.callee)) := by
  rw [← findSome?_ite_eq_map_find?]
  apply lookup_foldl (fun g : CallGraph => g.nodes.lookup key)
    (fun g => g.hasNode entry.2.definition.key = true)
  · intro g hg r _
    exact lookup_nodes_addReference hg r key
  · intro g hg r _
    exact hasNode_addReference hg r hg
  · exact h

theorem lookup_edges_addReferences (g : CallGraph) (entry : String × ParsedScript)
    (source target : String) :
    (addReferences g entry).edges.lookup (source, target) =
      (g.edges.lookup (source, target)).or
        (if entry.2.definition.key == source then
          (entry.2.references.find? (·.callee.key == target)).map (·.callee.kind)
        else none) := by
  have hfold : (addReferences g entry).edges.lookup (source, target) =
      (g.edges.lookup (source, target)).or (entry.2.references.findSome? fun r =>
        if entry.2.definition.key = source ∧ r.callee.key = target then some r.callee.kind
        else none) := by
    apply lookup_foldl (fun g : CallGraph => g.edges.lookup (source, target)) (fun _ => True)
    · intro g _ r _
      exact lookup_edges_addReference g _ r source target
    · exact fun _ _ _ _ => trivial
    · trivial
  rw [hfold]
  apply congrArg (Option.or (g.edges.lookup (source, target)))
  by_cases hsource : entry.2.definition.key = source
  · have hfirst := findSome?_ite_eq_map_find? (fun r : Reference => r.callee.key == target)
      (·.callee.kind) entry.2.references
    simpa [hsource] using hfirst
  · simp [hsource]

/-! ### Both passes -/

def HasDefinitions (files : List FileOutcome) (g : CallGraph) : Prop :=
  ∀ f ∈ files, ∀ script, f.result.script? = some script → g.hasNode script.definition.key = true

theorem hasDefinitions_definitions (files : List FileOutcome) :
    HasDefinitions files (definitions (parsedScripts files)) := by
  intro f hf script hscript
  rw [hasNode_eq, lookup_definitions, List.findSome?_isSome_iff]
  refine ⟨f, hf, ?_⟩
  rw [nodeOfDefinition?_of_parsed hscript]
  simp

theorem HasDefinitions.addReferences {files : List FileOutcome} (h : HasDefinitions files g)
    (entry : String × ParsedScript) (hentry : g.hasNode entry.2.definition.key = true) :
    HasDefinitions files (CallGraph.addReferences g entry) := by
  intro f hf script hscript
  have hnode := h f hf script hscript
  rw [hasNode_eq] at hnode ⊢
  rw [lookup_nodes_addReferences entry hentry, Option.isSome_or, hnode, Bool.true_or]

def addFile (g : CallGraph) (f : FileOutcome) : CallGraph :=
  match f.result.script? with
  | some script => addReferences g (f.file, script)
  | none => g

theorem build_eq (files : List FileOutcome) :
    build files = files.foldl addFile (definitions (parsedScripts files)) := by
  simp only [build]
  generalize definitions (parsedScripts files) = start
  rw [parsedScripts, List.foldl_filterMap]
  congr 1
  funext g f
  unfold addFile
  cases f.result.script? with
  | none => rfl
  | some script => rfl

/-- A key has the node of the first file that defines it, else that of the first reference to it. -/
theorem lookup_nodes_build (files : List FileOutcome) (key : String) :
    (build files).nodes.lookup key =
      (files.findSome? (nodeOfDefinition? key)).or
        (((files.flatMap FileOutcome.references).find? (·.callee.key == key)).map
          (externalNode ·.callee)) := by
  rw [build_eq, ← lookup_definitions, List.find?_flatMap, List.map_findSome?]
  -- A caller has a node already in the second pass, so that only callees are entered there.
  apply lookup_foldl (fun g : CallGraph => g.nodes.lookup key) (HasDefinitions files)
  · intro g hg f hf
    unfold addFile
    cases hscript : f.result.script? with
    | none => simp [FileOutcome.references, hscript]
    | some script =>
        simp only [FileOutcome.references, hscript, Option.map_some, Option.getD_some,
          Function.comp]
        exact lookup_nodes_addReferences (f.file, script) (hg f hf script hscript) key
  · intro g hg f hf
    unfold addFile
    cases hscript : f.result.script? with
    | none => exact hg
    | some script => exact hg.addReferences (f.file, script) (hg f hf script hscript)
  · exact hasDefinitions_definitions files

/-- Between two keys there is what the first reference to the one says that is made by a file which
defines the other. -/
theorem lookup_edges_build (files : List FileOutcome) (source target : String) :
    (build files).edges.lookup (source, target) =
      (((files.filter (·.defines source)).flatMap FileOutcome.references).find?
        (·.callee.key == target)).map (·.callee.kind) := by
  have hnone : (definitions (parsedScripts files)).edges = [] := by
    apply List.foldlRecOn (motive := fun g : CallGraph => g.edges = [])
    · rfl
    · intro g hg entry _
      unfold addDefinition
      simp only
      split
      · exact hg
      · exact hg
  have hfold : (build files).edges.lookup (source, target) =
      ((definitions (parsedScripts files)).edges.lookup (source, target)).or
        (files.findSome? fun f => if f.defines source then
          (f.references.find? (·.callee.key == target)).map (·.callee.kind) else none) := by
    rw [build_eq]
    apply lookup_foldl (fun g : CallGraph => g.edges.lookup (source, target)) (fun _ => True)
    · intro g _ f _
      unfold addFile
      cases hscript : f.result.script? with
      | none => simp [FileOutcome.references, hscript]
      | some script =>
          simp only [lookup_edges_addReferences, FileOutcome.references, hscript, Option.map_some,
            FileOutcome.defines, FileOutcome.definition?, Option.getD_some, Option.any_some]
    · exact fun _ _ _ _ => trivial
    · trivial
  rw [hfold, hnone, List.find?_flatMap, List.map_findSome?, findSome?_filter]
  rfl

theorem lookup_nodes_build_of_first {files : List FileOutcome} {key : String} {f : FileOutcome}
    {o : DbObject} (hfirst : files.find? (·.defines key) = some f) (ho : f.definition? = some o) :
    (build files).nodes.lookup key = some (definedNode f.file o) := by
  obtain ⟨hdefines, before, after, rfl, hbefore⟩ := List.find?_eq_some_iff_append.mp hfirst
  have hnone : before.findSome? (nodeOfDefinition? key) = none := by
    rw [List.findSome?_eq_none_iff]
    intro earlier hearlier
    have hother : ¬ earlier.defines key = true := by simpa using hbefore earlier hearlier
    exact if_neg hother
  have hfound : nodeOfDefinition? key f = some (definedNode f.file o) := by
    rw [nodeOfDefinition?, if_pos hdefines, ho, Option.map_some]
  rw [lookup_nodes_build, List.findSome?_append, hnone, Option.none_or, List.findSome?_cons, hfound,
    Option.some_or]

theorem lookup_nodes_build_of_undefined {files : List FileOutcome} {key : String}
    (h : ∀ f ∈ files, f.defines key = false) :
    (build files).nodes.lookup key =
      ((files.flatMap FileOutcome.references).find? (·.callee.key == key)).map
        (externalNode ·.callee) := by
  have hnone : files.findSome? (nodeOfDefinition? key) = none := by
    rw [List.findSome?_eq_none_iff]
    intro f hf
    rw [nodeOfDefinition?, h f hf]
    rfl
  rw [lookup_nodes_build, hnone, Option.none_or]

/-! ### No node and no edge twice -/

/-- No key has two nodes, and no two keys have two edges. -/
structure IsSimple (g : CallGraph) : Prop where
  keys_nodup : (g.nodes.map Prod.fst).Nodup
  pairs_nodup : (g.edges.map Prod.fst).Nodup

theorem IsSimple.addNode (h : g.IsSimple) (id : String) (data : ObjectNode) :
    IsSimple (Digraph.addNode g id data) :=
  ⟨Entries.nodup_keys_put h.keys_nodup id data, h.pairs_nodup⟩

theorem IsSimple.ensureNode (h : g.IsSimple) (id : String) (data : ObjectNode) :
    IsSimple (Digraph.ensureNode g id data) := by
  unfold Digraph.ensureNode
  split
  · exact h
  · exact h.addNode id data

theorem IsSimple.addEdge (h : g.IsSimple) (source target : String) (missing : ObjectNode)
    (kind : Kind) : IsSimple (Digraph.addEdge g source target missing kind) := by
  have hnodes := (h.ensureNode source missing).ensureNode target missing
  exact ⟨hnodes.keys_nodup, Entries.nodup_keys_put hnodes.pairs_nodup _ kind⟩

theorem IsSimple.addDefinition (h : g.IsSimple) (entry : String × ParsedScript) :
    IsSimple (CallGraph.addDefinition g entry) := by
  unfold CallGraph.addDefinition
  simp only
  split
  · exact h
  · exact h.addNode _ _

theorem IsSimple.addReference (h : g.IsSimple) (caller : String) (r : Reference) :
    IsSimple (CallGraph.addReference caller g r) := by
  have hcallee := h.ensureNode r.callee.key (externalNode r.callee)
  unfold CallGraph.addReference
  simp only
  split
  · exact hcallee
  · exact hcallee.addEdge _ _ _ _

theorem isSimple_build (files : List FileOutcome) : IsSimple (build files) := by
  have hempty : IsSimple Digraph.empty := ⟨List.nodup_nil, List.nodup_nil⟩
  have hdefinitions : IsSimple (definitions (parsedScripts files)) :=
    List.foldlRecOn _ _ hempty fun _ hg entry _ => hg.addDefinition entry
  apply List.foldlRecOn _ _ hdefinitions
  intro g hg entry _
  apply List.foldlRecOn _ _ hg
  intro g hg r _
  exact hg.addReference _ r

/-! ### The whole graph -/

/-- What makes `g` the graph of the files. -/
structure Assembles (files : List FileOutcome) (g : CallGraph) : Prop where
  isSimple : g.IsSimple
  mem_keys_iff : ∀ key, key ∈ g.nodes.map Prod.fst ↔
    (∃ f ∈ files, f.defines key) ∨ ∃ f ∈ files, ∃ e ∈ f.references, e.callee.key = key
  /-- A key that some file defines shows the first of these files, whatever refers to it. -/
  defined : ∀ key f o, files.find? (·.defines key) = some f → f.definition? = some o →
    g.nodes.lookup key = some ⟨o.name, o.kind, some f.file, true⟩
  /-- A key that no file defines shows the first reference to it. -/
  external : ∀ key e, (∀ f ∈ files, f.defines key = false) →
    (files.flatMap FileOutcome.references).find? (·.callee.key == key) = some e →
    g.nodes.lookup key = some ⟨e.callee.name, e.callee.kind, none, false⟩
  /-- The references of every file count, also of one whose object another file defines first. -/
  mem_pairs_iff : ∀ source target, (source, target) ∈ g.edges.map Prod.fst ↔
    ∃ f ∈ files, f.defines source ∧ ∃ e ∈ f.references, e.callee.key = target
  edge_kind : ∀ source target e,
    ((files.filter (·.defines source)).flatMap FileOutcome.references).find?
      (·.callee.key == target) = some e →
    g.edges.lookup (source, target) = some e.callee.kind
  no_loop : ∀ key, (key, key) ∉ g.edges.map Prod.fst

theorem mem_keys_build_iff (files : List FileOutcome) (key : String) :
    key ∈ (build files).nodes.map Prod.fst ↔
      (∃ f ∈ files, f.defines key) ∨ ∃ f ∈ files, ∃ e ∈ f.references, e.callee.key = key := by
  have hdefined : (files.findSome? (nodeOfDefinition? key)).isSome = true ↔
      ∃ f ∈ files, f.defines key := by
    rw [List.findSome?_isSome_iff]
    apply exists_congr
    intro f
    apply and_congr_right
    intro _
    rw [nodeOfDefinition?]
    cases hdefines : f.defines key with
    | false => simp
    | true =>
        obtain ⟨o, ho, -⟩ := FileOutcome.defines_eq_true_iff.mp hdefines
        simp [ho]
  rw [Entries.mem_keys_iff_isSome_lookup, lookup_nodes_build, Option.isSome_or, Bool.or_eq_true,
    hdefined, Option.isSome_map, List.find?_isSome]
  simp only [List.mem_flatMap, beq_iff_eq]
  apply or_congr Iff.rfl
  constructor
  · rintro ⟨e, ⟨f, hf, he⟩, hkey⟩
    exact ⟨f, hf, e, he, hkey⟩
  · rintro ⟨f, hf, e, he, hkey⟩
    exact ⟨e, ⟨f, hf, he⟩, hkey⟩

theorem mem_pairs_build_iff (files : List FileOutcome) (source target : String) :
    (source, target) ∈ (build files).edges.map Prod.fst ↔
      ∃ f ∈ files, f.defines source ∧ ∃ e ∈ f.references, e.callee.key = target := by
  rw [Entries.mem_keys_iff_isSome_lookup, lookup_edges_build, Option.isSome_map, List.find?_isSome]
  simp only [List.mem_flatMap, List.mem_filter, beq_iff_eq]
  constructor
  · rintro ⟨e, ⟨f, ⟨hf, hdefines⟩, he⟩, hkey⟩
    exact ⟨f, hf, hdefines, e, he, hkey⟩
  · rintro ⟨f, hf, hdefines, e, he, hkey⟩
    exact ⟨e, ⟨f, ⟨hf, hdefines⟩, he⟩, hkey⟩

/-- If no script refers to the object that it creates, the graph has no loop. -/
theorem no_loop_build {files : List FileOutcome}
    (h : ∀ f ∈ files, ∀ o, f.definition? = some o → ∀ e ∈ f.references, e.callee.key ≠ o.key)
    (key : String) : (key, key) ∉ (build files).edges.map Prod.fst := by
  intro hmem
  obtain ⟨f, hf, hdefines, e, he, hkey⟩ := (mem_pairs_build_iff files key key).mp hmem
  obtain ⟨o, ho, rfl⟩ := FileOutcome.defines_eq_true_iff.mp hdefines
  exact h f hf o ho e he hkey

/-- The graph of files whose results are those of parsing some texts. -/
theorem build_assembles {files : List FileOutcome}
    (h : ∀ f ∈ files, ∀ script, f.result = .parsed script →
      ∃ text, Script.parse text = .ok (some script)) : Assembles files (build files) where
  isSimple := isSimple_build files
  mem_keys_iff := mem_keys_build_iff files
  defined := fun _ _ _ hfirst ho => lookup_nodes_build_of_first hfirst ho
  external := fun key e hundefined hfirst => by
    rw [lookup_nodes_build_of_undefined hundefined, hfirst]
    rfl
  mem_pairs_iff := mem_pairs_build_iff files
  edge_kind := fun source target e hfirst => by
    rw [lookup_edges_build, hfirst, Option.map_some]
  no_loop := by
    apply no_loop_build
    intro f hf o ho e he
    cases hresult : f.result with
    | nothing => simp [FileOutcome.definition?, hresult, FileResult.script?] at ho
    | failed reason => simp [FileOutcome.definition?, hresult, FileResult.script?] at ho
    | parsed script =>
        obtain ⟨text, htext⟩ := h f hf script hresult
        obtain ⟨definition, hdefinition, rfl⟩ := Script.exists_definition?_of_parse htext
        obtain rfl : definition = o := by
          simpa [FileOutcome.definition?, hresult, FileResult.script?, Script.Analysis.result]
            using ho
        apply (Script.sound_of_definition? hdefinition).key_ne_definition
        simpa [FileOutcome.references, hresult, FileResult.script?] using he

/-- A reference that comes before the definition, a second definition of one object, and an object
that one script uses in two ways. -/
theorem build_assembles_views :
    let v : DbObject := ⟨"V", .view, by decide⟩
    let p : DbObject := ⟨"p", .storedProcedure, by decide⟩
    let again : DbObject := ⟨"[v]", .view, by decide⟩
    let files : List FileOutcome := [
      ⟨"a.sql", .parsed ⟨v, [⟨v, "P", .table, by decide⟩]⟩⟩,
      ⟨"b.sql", .parsed ⟨p, []⟩⟩,
      ⟨"c.sql", .nothing⟩,
      ⟨"d.sql", .parsed ⟨again,
        [⟨again, "U", .storedProcedure, by decide⟩, ⟨again, "u", .table, by decide⟩]⟩⟩]
    build files = ⟨[("v", ⟨"V", .view, some "a.sql", true⟩),
        ("p", ⟨"p", .storedProcedure, some "b.sql", true⟩),
        ("u", ⟨"U", .storedProcedure, none, false⟩)],
      [(("v", "p"), .table), (("v", "u"), .storedProcedure)]⟩ ∧
      Assembles files (build files) := by
  intro v p again files
  refine ⟨by decide +kernel, build_assembles ?_⟩
  intro f hf script hscript
  simp only [files, List.mem_cons, List.not_mem_nil, or_false] at hf
  rcases hf with rfl | rfl | rfl | rfl
  · obtain rfl := FileResult.parsed.inj hscript
    exact ⟨"CREATE VIEW V AS SELECT 1 FROM P", by decide +kernel⟩
  · obtain rfl := FileResult.parsed.inj hscript
    exact ⟨"CREATE PROCEDURE p AS RETURN", by decide +kernel⟩
  · simp at hscript
  · obtain rfl := FileResult.parsed.inj hscript
    exact ⟨"CREATE VIEW [v] AS EXEC U SELECT 1 FROM u", by decide +kernel⟩

end CallGraph

end ScriptGraph
