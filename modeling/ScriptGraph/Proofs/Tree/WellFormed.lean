import Mathlib.Data.List.Induction
import ScriptGraph.Proofs.Entries
import ScriptGraph.Tree.Basic

/-!
# Well-formed trees of files

In a well-formed tree no place occurs twice, every name can stand in a path, and above every place
there are directories only.  There a way without dots leads to the place that it spells.  Making
directories, writing, removing and changing the time of a file keep a tree well-formed.
-/

namespace ScriptGraph

/-- A name that is one part of a path and leads one level down. -/
structure IsName (name : String) : Prop where
  ne_dot : name ≠ "."
  ne_dots : name ≠ ".."
  slash_notMem : '/' ∉ name.toList

instance (name : String) : Decidable (IsName name) :=
  decidable_of_iff (name ≠ "." ∧ name ≠ ".." ∧ '/' ∉ name.toList)
    ⟨fun h => ⟨h.1, h.2.1, h.2.2⟩, fun h => ⟨h.ne_dot, h.ne_dots, h.slash_notMem⟩⟩

namespace Tree

/-- The places that lie strictly above a place are directories. -/
def Reaches (t : Tree) (place : Place) : Prop :=
  ∀ above name below, place = above ++ name :: below → t.node? above = some .directory

/-- What holds of every tree of files. -/
structure WellFormed (t : Tree) : Prop where
  nodup : (t.nodes.map Prod.fst).Nodup
  ne_top : ∀ place node, (place, node) ∈ t.nodes → place ≠ []
  names : ∀ place node, (place, node) ∈ t.nodes → ∀ name ∈ place, IsName name
  reaches : ∀ place node, (place, node) ∈ t.nodes → t.Reaches place

variable {t : Tree} {place : Place} {node : Node}

theorem reaches_iff :
    t.Reaches place ↔ ∀ n < place.length, t.node? (place.take n) = some .directory := by
  constructor
  · intro h n hn
    refine h (place.take n) (place.get ⟨n, hn⟩) (place.drop (n + 1)) ?_
    rw [List.get_eq_getElem, List.getElem_cons_drop, List.take_append_drop]
  · rintro h above name below rfl
    have habove := h above.length (by simp)
    rwa [List.take_left] at habove

/-- One look at each place tells whether a tree is well-formed. -/
theorem wellFormed_iff :
    t.WellFormed ↔ (t.nodes.map Prod.fst).Nodup ∧ ∀ entry ∈ t.nodes,
      entry.1 ≠ [] ∧ (∀ name ∈ entry.1, IsName name) ∧
        ∀ n < entry.1.length, t.node? (entry.1.take n) = some .directory := by
  constructor
  · intro h
    exact ⟨h.nodup, fun entry hentry => ⟨h.ne_top _ _ hentry, h.names _ _ hentry,
      reaches_iff.mp (h.reaches _ _ hentry)⟩⟩
  · rintro ⟨hnodup, hentries⟩
    exact ⟨hnodup, fun place node hmem => (hentries _ hmem).1,
      fun place node hmem => (hentries _ hmem).2.1,
      fun place node hmem => reaches_iff.mpr (hentries _ hmem).2.2⟩

instance (t : Tree) : Decidable t.WellFormed := decidable_of_iff' _ wellFormed_iff

/-! ### Looking -/

theorem node?_eq_lookup (h : place ≠ []) : t.node? place = t.nodes.lookup place := by
  have hempty : place.isEmpty = false := by simpa using h
  rw [node?, if_neg (by simp [hempty])]

theorem mem_nodes_of_node? (h : t.node? place = some node) (hne : place ≠ []) :
    (place, node) ∈ t.nodes := by
  rw [node?_eq_lookup hne] at h
  exact Entries.mem_of_lookup_eq_some h

theorem file?_eq_some_iff {state : FileState} :
    t.file? place = some state ↔ t.node? place = some (.file state) := by
  unfold file?
  split
  · rename_i other hnode
    simp [hnode]
  · rename_i hother
    constructor
    · intro h
      simp at h
    · intro h
      exact (hother state h).elim

theorem ne_nil_of_file? {state : FileState} (h : t.file? place = some state) : place ≠ [] := by
  rintro rfl
  simp [file?] at h

/-- A way of names leads to the place that it spells, if it leads anywhere. -/
theorem walk_eq_of_ok {here place : Place} {way : List String} (hnames : ∀ name ∈ way, IsName name)
    (h : t.walk here way = .ok place) : place = here ++ way := by
  induction way generalizing here with
  | nil =>
      obtain rfl : here = place := by simpa [walk] using h
      simp
  | cons name way ih =>
      obtain ⟨hname, hway⟩ := List.forall_mem_cons.mp hnames
      unfold walk at h
      split at h
      · simp at h
      · simp at h
      · rw [if_neg hname.ne_dots, if_neg hname.ne_dot] at h
        simpa using ih hway h

theorem walk_eq {here : Place} {way : List String} (hnames : ∀ name ∈ way, IsName name)
    (hdirs : ∀ above name below, way = above ++ name :: below →
      t.node? (here ++ above) = some .directory) :
    t.walk here way = .ok (here ++ way) := by
  induction way generalizing here with
  | nil => simp [walk]
  | cons name way ih =>
      obtain ⟨hname, hway⟩ := List.forall_mem_cons.mp hnames
      have hhere : t.node? here = some .directory := by simpa using hdirs [] name way rfl
      rw [walk, hhere]
      simp only [if_neg hname.ne_dots, if_neg hname.ne_dot]
      rw [ih hway, List.append_assoc, List.singleton_append]
      intro above other below heq
      simpa using hdirs (name :: above) other below (by rw [heq, List.cons_append])

theorem node?_of_find {way : List String} (hnames : ∀ name ∈ way, IsName name)
    (h : t.find way = .ok (place, node)) : place = way ∧ t.node? way = some node := by
  unfold find at h
  cases hwalk : t.walk [] way with
  | error fault => simp [hwalk, bind, Except.bind] at h
  | ok found =>
      obtain rfl : found = way := walk_eq_of_ok hnames hwalk
      simp only [hwalk, bind, Except.bind] at h
      split at h
      · rename_i other hnode
        obtain ⟨rfl, rfl⟩ := Prod.mk.inj (Except.ok.inj h)
        exact ⟨rfl, hnode⟩
      · simp at h

namespace WellFormed

theorem node?_of_mem (h : t.WellFormed) (hmem : (place, node) ∈ t.nodes) :
    t.node? place = some node := by
  rw [node?_eq_lookup (h.ne_top place node hmem)]
  exact Entries.lookup_eq_some_of_mem h.nodup hmem

theorem names_of_node? (h : t.WellFormed) (hnode : t.node? place = some node) :
    ∀ name ∈ place, IsName name := by
  by_cases hne : place = []
  · simp [hne]
  · exact h.names place node (mem_nodes_of_node? hnode hne)

theorem reaches_of_node? (h : t.WellFormed) (hnode : t.node? place = some node) :
    t.Reaches place := by
  by_cases hne : place = []
  · intro above name below heq
    simp [hne] at heq
  · exact h.reaches place node (mem_nodes_of_node? hnode hne)

theorem find_eq (h : t.WellFormed) (hnode : t.node? place = some node) :
    t.find place = .ok (place, node) := by
  have hwalk : t.walk [] place = .ok place :=
    walk_eq (h.names_of_node? hnode) (h.reaches_of_node? hnode)
  simp [find, hwalk, hnode, bind, Except.bind]

theorem openFile_eq (h : t.WellFormed) {state : FileState} (hfile : t.file? place = some state) :
    t.openFile place = .ok (place, state) := by
  simp [openFile, h.find_eq (file?_eq_some_iff.mp hfile), bind, Except.bind]

end WellFormed

/-! ### Putting a node -/

theorem node?_put_self (hne : place ≠ []) : (t.put place node).node? place = some node := by
  rw [node?_put t place place node hne, if_pos rfl]

theorem node?_put_of_ne {other : Place} (h : other ≠ place) :
    (t.put place node).node? other = t.node? other := by
  by_cases hne : other = []
  · simp [hne]
  · rw [node?_put t place other node hne, if_neg h]

/-- A node may be put at a place of names below directories, unless it is a file that would take the
place of a directory. -/
theorem WellFormed.put (h : t.WellFormed) (hne : place ≠ []) (hnames : ∀ name ∈ place, IsName name)
    (hreaches : t.Reaches place) (hkept : t.node? place = some .directory → node = .directory) :
    (t.put place node).WellFormed := by
  have hdirectory : ∀ above, t.node? above = some .directory →
      (t.put place node).node? above = some .directory := by
    intro above habove
    by_cases heq : above = place
    · rw [heq] at habove ⊢
      rw [node?_put_self hne, hkept habove]
    · rw [node?_put_of_ne heq, habove]
  have hmem : ∀ other node', (other, node') ∈ (t.put place node).nodes →
      other = place ∨ (other, node') ∈ t.nodes := by
    intro other node' hother
    rcases Entries.mem_of_mem_put hother with heq | hold
    · exact .inl (congrArg Prod.fst heq)
    · exact .inr hold
  refine ⟨Entries.nodup_keys_put h.nodup _ _, ?_, ?_, ?_⟩
  · intro other node' hother
    rcases hmem other node' hother with rfl | hold
    · exact hne
    · exact h.ne_top other node' hold
  · intro other node' hother
    rcases hmem other node' hother with rfl | hold
    · exact hnames
    · exact h.names other node' hold
  · intro other node' hother above name below heq
    rcases hmem other node' hother with rfl | hold
    · exact hdirectory above (hreaches above name below heq)
    · exact hdirectory above (h.reaches other node' hold above name below heq)

/-! ### Removing a place -/

theorem isPrefixOf_eq_false_iff {other : Place} :
    place.isPrefixOf other = false ↔ ¬ place <+: other := by
  rw [← List.isPrefixOf_iff_prefix, Bool.not_eq_true]

theorem node?_remove {other : Place} (h : ¬ place <+: other) :
    (t.remove place).node? other = t.node? other := by
  by_cases hne : other = []
  · simp [hne]
  · rw [node?_eq_lookup hne, node?_eq_lookup hne]
    have hkeeps := Entries.lookup_filter (fun q : Place => !place.isPrefixOf q) other t.nodes
    rwa [if_pos (by simpa using isPrefixOf_eq_false_iff.mpr h)] at hkeeps

theorem file?_of_file?_remove {other : Place} {state : FileState}
    (h : (t.remove place).file? other = some state) : t.file? other = some state := by
  have hmem := mem_nodes_of_node? (file?_eq_some_iff.mp h) (ne_nil_of_file? h)
  have hnot : ¬ place <+: other := by
    rw [← isPrefixOf_eq_false_iff]
    simpa [remove] using (List.mem_filter.mp hmem).2
  rw [file?_eq_some_iff] at h ⊢
  rwa [node?_remove hnot] at h

theorem mem_nodes_remove {other : Place} (h : (other, node) ∈ (t.remove place).nodes) :
    (other, node) ∈ t.nodes ∧ ¬ place <+: other := by
  rw [← isPrefixOf_eq_false_iff]
  simpa [remove] using h

theorem WellFormed.remove (h : t.WellFormed) (place : Place) : (t.remove place).WellFormed := by
  refine ⟨?_, ?_, ?_, ?_⟩
  · exact h.nodup.sublist (List.filter_sublist.map _)
  · exact fun other node' hother => h.ne_top other node' (mem_nodes_remove hother).1
  · exact fun other node' hother => h.names other node' (mem_nodes_remove hother).1
  · intro other node' hother above name below heq
    obtain ⟨hold, hnot⟩ := mem_nodes_remove hother
    have habove : ¬ place <+: above := fun hle => hnot (hle.trans ⟨name :: below, heq.symm⟩)
    rw [node?_remove habove]
    exact h.reaches other node' hold above name below heq

/-- No file lies above another one. -/
theorem WellFormed.not_prefix_of_file? (h : t.WellFormed) {other : Place} {file file' : FileState}
    (hplace : t.file? place = some file) (hother : t.file? other = some file')
    (hne : place ≠ other) : ¬ place <+: other := by
  rintro ⟨below, rfl⟩
  cases below with
  | nil => simp at hne
  | cons name below =>
      have hdirectory := h.reaches_of_node? (file?_eq_some_iff.mp hother) place name below rfl
      rw [file?_eq_some_iff.mp hplace] at hdirectory
      simp at hdirectory

theorem WellFormed.file?_remove (h : t.WellFormed) {other : Place} {file file' : FileState}
    (hplace : t.file? place = some file) (hother : t.file? other = some file')
    (hne : place ≠ other) : (t.remove place).file? other = some file' := by
  rw [file?_eq_some_iff, node?_remove (h.not_prefix_of_file? hplace hother hne),
    ← file?_eq_some_iff, hother]

theorem toOption_openFile_remove (hnames : ∀ name ∈ place, IsName name) (hne : place ≠ []) :
    ((t.remove place).openFile place).toOption = none := by
  cases hfind : (t.remove place).find place with
  | error fault => simp [openFile, hfind, bind, Except.bind, Except.toOption]
  | ok found =>
      have hnode := (node?_of_find hnames hfind).2
      exact ((mem_nodes_remove (mem_nodes_of_node? hnode hne)).2 (List.prefix_refl _)).elim

/-! ### Making directories -/

theorem wayTo_concat (place : Place) (name : String) :
    wayTo (place ++ [name]) = wayTo place ++ [place ++ [name]] := by
  have htake : ∀ n ∈ List.range place.length,
      (place ++ [name]).take (n + 1) = place.take (n + 1) := by
    intro n hn
    exact List.take_append_of_le_length (List.mem_range.mp hn)
  simp only [wayTo, List.length_append, List.length_singleton, List.range_succ, List.map_append,
    List.map_singleton]
  rw [List.map_congr_left htake, List.take_of_length_le (by simp)]

/-- A tree with more directories than another one, and otherwise the same. -/
def Extends (made t : Tree) : Prop :=
  ∀ place, made.node? place = t.node? place ∨
    (t.node? place = none ∧ made.node? place = some .directory)

theorem Extends.file?_eq {made : Tree} (h : made.Extends t) (place : Place) :
    made.file? place = t.file? place := by
  unfold file?
  rcases h place with heq | ⟨hnone, hdirectory⟩
  · rw [heq]
  · rw [hnone, hdirectory]

theorem Extends.directory {made : Tree} (h : made.Extends t)
    (hdirectory : t.node? place = some .directory) : made.node? place = some .directory := by
  rcases h place with heq | ⟨hnone, -⟩
  · rw [heq, hdirectory]
  · simp [hnone] at hdirectory

def addDirectory (t : Tree) (above : Place) : Tree :=
  if (t.node? above).isSome then t else t.put above .directory

/-- The directories on the way to a place can be added if there is no file on the way. -/
theorem WellFormed.addDirectories (h : t.WellFormed) (hnames : ∀ name ∈ place, IsName name)
    (hfree : ∀ above ∈ wayTo place, t.file? above = none) :
    ((wayTo place).foldl addDirectory t).WellFormed ∧
      ((wayTo place).foldl addDirectory t).node? place = some .directory ∧
      ((wayTo place).foldl addDirectory t).Extends t := by
  induction place using List.reverseRecOn with
  | nil => exact ⟨h, rfl, fun _ => .inl rfl⟩
  | append_singleton place name ih =>
      rw [wayTo_concat] at hfree ⊢
      obtain ⟨hwell, hdirectory, hextends⟩ := ih
        (fun other hother => hnames other (List.mem_append_left _ hother))
        (fun above habove => hfree above (List.mem_append_left _ habove))
      rw [List.foldl_append, List.foldl_cons, List.foldl_nil]
      generalize (wayTo place).foldl addDirectory t = made at *
      unfold addDirectory
      have hfile : made.file? (place ++ [name]) = none := by
        rw [hextends.file?_eq]
        exact hfree _ (by simp)
      cases hnode : made.node? (place ++ [name]) with
      | some node =>
          rw [if_pos (by simp)]
          refine ⟨hwell, ?_, hextends⟩
          cases node with
          | directory => exact hnode
          | file state => simp [file?, hnode] at hfile
      | none =>
          rw [if_neg (by simp)]
          have hreaches : made.Reaches (place ++ [name]) := by
            intro above other below heq
            rcases List.append_eq_append_iff.mp heq with ⟨more, rfl, hmore⟩ | ⟨more, rfl, hmore⟩
            · cases more with
              | nil => simpa using hdirectory
              | cons y more => simp at hmore
            · cases more with
              | nil => simpa using hdirectory
              | cons y more => exact hwell.reaches_of_node? hdirectory above y more rfl
          refine ⟨hwell.put (by simp) hnames hreaches (fun _ => rfl), node?_put_self (by simp), ?_⟩
          intro other
          by_cases hother : other = place ++ [name]
          · subst hother
            refine .inr ⟨?_, node?_put_self (by simp)⟩
            rcases hextends (place ++ [name]) with heq | ⟨hnone, -⟩
            · rw [← heq, hnode]
            · exact hnone
          · rw [node?_put_of_ne hother]
            exact hextends other

theorem WellFormed.makeDirectory (h : t.WellFormed) (hnames : ∀ name ∈ place, IsName name)
    {made : Tree} (hmade : t.makeDirectory place = .ok made) :
    made.WellFormed ∧ made.node? place = some .directory ∧ made.Extends t := by
  unfold Tree.makeDirectory at hmade
  split at hmade
  · simp at hmade
  · split at hmade
    · simp at hmade
    · rename_i hfree
      obtain rfl : (wayTo place).foldl addDirectory t = made := Except.ok.inj hmade
      refine h.addDirectories hnames fun above habove => Option.eq_none_iff_forall_ne_some.mpr ?_
      intro state hstate
      exact hfree (List.any_eq_true.mpr ⟨above, habove, by simp [hstate]⟩)

/-- A directory that is there need not be made. -/
theorem WellFormed.makeDirectory_eq (h : t.WellFormed) (hplace : t.node? place = some .directory) :
    t.makeDirectory place = .ok t := by
  have hway : ∀ above ∈ wayTo place, t.node? above = some .directory := by
    intro above habove
    obtain ⟨n, hn, rfl⟩ := List.mem_map.mp habove
    rw [List.mem_range] at hn
    by_cases hlast : n + 1 < place.length
    · exact reaches_iff.mp (h.reaches_of_node? hplace) (n + 1) hlast
    · rwa [List.take_of_length_le (Nat.le_of_not_lt hlast)]
  have hfile : ∀ {above : Place}, t.node? above = some .directory → t.file? above = none := by
    intro above habove
    simp [file?, habove]
  have hfree : ((wayTo place).any fun above => (t.file? above).isSome) = false := by
    refine List.any_eq_false.mpr fun above habove => ?_
    simp [hfile (hway above habove)]
  have hfold : ∀ places : List Place, (∀ above ∈ places, t.node? above = some .directory) →
      places.foldl addDirectory t = t := by
    intro places
    induction places with
    | nil => exact fun _ => rfl
    | cons above later ih =>
        intro hplaces
        obtain ⟨habove, hlater⟩ := List.forall_mem_cons.mp hplaces
        rw [List.foldl_cons, addDirectory, if_pos (by simp [habove]), ih hlater]
  rw [Tree.makeDirectory, if_neg (by simp [hfile hplace]), if_neg (by simp [hfree])]
  exact congrArg Except.ok (hfold _ hway)

/-! ### Writing a file -/

theorem reaches_of_walk {here place : Place} {way : List String}
    (hnames : ∀ name ∈ way, IsName name) (h : t.walk here way = .ok place) :
    ∀ above name below, way = above ++ name :: below →
      t.node? (here ++ above) = some .directory := by
  induction way generalizing here with
  | nil => intro above name below heq; simp at heq
  | cons first way ih =>
      obtain ⟨hname, hway⟩ := List.forall_mem_cons.mp hnames
      unfold walk at h
      split at h
      · simp at h
      · simp at h
      · rename_i hhere
        rw [if_neg hname.ne_dots, if_neg hname.ne_dot] at h
        intro above name below heq
        cases above with
        | nil => simpa using hhere
        | cons other above =>
            obtain ⟨rfl, hbelow⟩ : first = other ∧ way = above ++ name :: below := by
              simpa using heq
            simpa using ih hway h above name below hbelow

theorem WellFormed.write (h : t.WellFormed) (hnames : ∀ name ∈ place, IsName name)
    {state : FileState} {written : Tree} (hwritten : t.write place state = .ok written) :
    written = t.put place (.file state) ∧ place ≠ [] ∧ written.WellFormed := by
  unfold Tree.write at hwritten
  cases hwalk : t.walk [] place with
  | error fault => simp [hwalk, bind, Except.bind] at hwritten
  | ok found =>
      obtain rfl : found = place := by simpa using walk_eq_of_ok hnames hwalk
      simp only [hwalk, bind, Except.bind] at hwritten
      split at hwritten
      · simp at hwritten
      · rename_i hnode
        obtain rfl : t.put found (.file state) = written := by simpa using hwritten
        have hne : found ≠ [] := fun heq => hnode (by simp [heq])
        refine ⟨rfl, hne, h.put hne hnames ?_ fun hdirectory => (hnode hdirectory).elim⟩
        exact reaches_of_walk hnames hwalk

theorem WellFormed.write_eq (h : t.WellFormed) {old : FileState} (hold : t.file? place = some old)
    (new : FileState) : t.write place new = .ok (t.put place (.file new)) := by
  have hnode := file?_eq_some_iff.mp hold
  have hwalk : t.walk [] place = .ok place :=
    walk_eq (h.names_of_node? hnode) (h.reaches_of_node? hnode)
  simp [Tree.write, hwalk, hnode, bind, Except.bind]

theorem WellFormed.put_file (h : t.WellFormed) {old : FileState} (hold : t.file? place = some old)
    (new : FileState) : (t.put place (.file new)).WellFormed := by
  have hnode := file?_eq_some_iff.mp hold
  exact h.put (ne_nil_of_file? hold) (h.names_of_node? hnode) (h.reaches_of_node? hnode)
    (fun hdirectory => by simp [hnode] at hdirectory)

end Tree

end ScriptGraph
