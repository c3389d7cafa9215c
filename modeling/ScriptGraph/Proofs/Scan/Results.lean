import Mathlib.Data.List.Nodup
import ScriptGraph.Proofs.Scan.Visits
import ScriptGraph.Proofs.Tree.WellFormed

/-!
# The results of a scan

In a well-formed tree a scan finds every script below its root once, under a path of its own.  The
outcomes do not depend on the order in which the results were entered.  What the visitors bring of
files that are there and can be parsed is what the files hold.
-/

namespace ScriptGraph

/-! ### Paths -/

namespace Place

theorem intercalate_cons_cons (x y : List Char) (rest : List (List Char)) :
    ['/'].intercalate (x :: y :: rest) = x ++ '/' :: ['/'].intercalate (y :: rest) := by
  simp [List.intercalate]

/-- The first slash parts a path in one way. -/
theorem eq_of_append_slash_eq {x y rest rest' : List Char} (hx : '/' ∉ x) (hy : '/' ∉ y)
    (h : x ++ '/' :: rest = y ++ '/' :: rest') : x = y ∧ rest = rest' := by
  rcases List.append_eq_append_iff.mp h with ⟨more, rfl, hmore⟩ | ⟨more, rfl, hmore⟩
  all_goals
    cases more with
    | nil => simpa [eq_comm] using hmore
    | cons z more =>
        obtain ⟨rfl, -⟩ := List.cons_eq_cons.mp hmore
        simp at hx hy

/-- The text of a place tells the names on the way to it. -/
theorem eq_of_text_eq {a b : Place} (hne : a ≠ []) (hne' : b ≠ [])
    (ha : ∀ name ∈ a, '/' ∉ name.toList) (hb : ∀ name ∈ b, '/' ∉ name.toList)
    (h : text a = text b) : a = b := by
  have hjoin : ['/'].intercalate (a.map String.toList) = ['/'].intercalate (b.map String.toList) :=
    String.ofList_inj.mp h
  clear h
  induction a generalizing b with
  | nil => exact (hne rfl).elim
  | cons x a ih =>
      obtain ⟨y, b, rfl⟩ := List.exists_cons_of_ne_nil hne'
      obtain ⟨hx, ha⟩ := List.forall_mem_cons.mp ha
      obtain ⟨hy, hb⟩ := List.forall_mem_cons.mp hb
      cases a with
      | nil =>
          cases b with
          | nil =>
              have hxy : x.toList = y.toList := by simpa [List.intercalate] using hjoin
              rw [String.toList_inj.mp hxy]
          | cons z b =>
              simp only [List.map_cons, List.map_nil, intercalate_cons_cons] at hjoin
              rw [List.intercalate_singleton] at hjoin
              exact (hx (hjoin ▸ by simp)).elim
      | cons w a =>
          cases b with
          | nil =>
              simp only [List.map_cons, List.map_nil, intercalate_cons_cons] at hjoin
              rw [List.intercalate_singleton] at hjoin
              exact (hy (hjoin ▸ by simp)).elim
          | cons z b =>
              simp only [List.map_cons, intercalate_cons_cons] at hjoin
              obtain ⟨hxy, hrest⟩ := eq_of_append_slash_eq hx hy hjoin
              rw [String.toList_inj.mp hxy, ih (by simp) (by simp) ha hb (by simpa using hrest)]

end Place

namespace Scan

/-! ### Finding -/

variable {t : Tree} {top place : Place} {exclude : List String}

theorem ne_nil_of_isWanted (h : isWanted exclude place = true) : place ≠ [] := by
  rintro rfl
  simp [isWanted] at h

theorem isWanted_nil (h : isWanted exclude place = true) : isWanted [] place = true := by
  unfold isWanted at h ⊢
  split at h
  · simp at h
  · simp only [Bool.and_eq_true, Bool.not_eq_true', List.any_eq_false] at h ⊢
    refine ⟨h.1, fun part hpart => ?_⟩
    have hkept := h.2 part hpart
    simp only [Bool.or_eq_true, not_or] at hkept
    simpa using hkept.1

theorem filesBelow_eq (t : Tree) (top : Place) :
    t.filesBelow top = t.nodes.filterMap fun entry =>
      if top.isPrefixOf entry.1 ∧ entry.2 ≠ .directory then some (entry.1.drop top.length)
      else none := by
  refine List.filterMap_congr fun entry _ => ?_
  obtain ⟨whole, node⟩ := entry
  cases node <;> simp

theorem eq_append_of_below {entry : Place × Node}
    (h : (if top.isPrefixOf entry.1 ∧ entry.2 ≠ .directory then some (entry.1.drop top.length)
      else none) = some place) : entry.1 = top ++ place ∧ entry.2 ≠ .directory := by
  obtain ⟨⟨hle, hfile⟩, rfl⟩ :
      (top.isPrefixOf entry.1 = true ∧ entry.2 ≠ .directory) ∧
        entry.1.drop top.length = place := by
    simpa only [Option.ite_none_right_eq_some, Option.some.injEq] using h
  obtain ⟨rest, heq⟩ := List.isPrefixOf_iff_prefix.mp hle
  exact ⟨by rw [← heq, List.drop_left], hfile⟩

theorem mem_filesBelow_of_file? {file : FileState} (h : t.file? (top ++ place) = some file) :
    place ∈ t.filesBelow top := by
  rw [filesBelow_eq, List.mem_filterMap]
  exact ⟨_, Tree.mem_nodes_of_node? (Tree.file?_eq_some_iff.mp h) (Tree.ne_nil_of_file? h), by simp⟩

theorem mem_filesBelow_iff (h : t.WellFormed) :
    place ∈ t.filesBelow top ↔ ∃ file, t.file? (top ++ place) = some file := by
  constructor
  · rw [filesBelow_eq, List.mem_filterMap]
    rintro ⟨⟨whole, node⟩, hmem, hbelow⟩
    obtain ⟨heq, hfile⟩ := eq_append_of_below hbelow
    obtain rfl : whole = top ++ place := heq
    cases node with
    | directory => exact (hfile rfl).elim
    | file file => exact ⟨file, Tree.file?_eq_some_iff.mpr (h.node?_of_mem hmem)⟩
  · rintro ⟨file, hfile⟩
    exact mem_filesBelow_of_file? hfile

theorem nodup_filesBelow (h : t.WellFormed) (top : Place) : (t.filesBelow top).Nodup := by
  rw [filesBelow_eq]
  refine List.Pairwise.filterMap _ ?_ (List.pairwise_map.mp h.nodup)
  intro entry entry' hne place hplace place' hplace' heq
  rw [(eq_append_of_below hplace).1, (eq_append_of_below hplace').1, heq] at hne
  exact hne rfl

theorem mem_find_iff (h : t.WellFormed) :
    place ∈ find t top exclude ↔
      isWanted exclude place = true ∧ ∃ file, t.file? (top ++ place) = some file := by
  rw [find, List.mem_mergeSort, List.mem_filter, mem_filesBelow_iff h, and_comm]

theorem nodup_find (h : t.WellFormed) (top : Place) (exclude : List String) :
    (find t top exclude).Nodup := by
  rw [find]
  exact ((List.mergeSort_perm _ _).nodup_iff).mpr ((nodup_filesBelow h top).filter _)

theorem slash_notMem_of_file? (h : t.WellFormed) {file : FileState}
    (hfile : t.file? (top ++ place) = some file) : ∀ name ∈ place, '/' ∉ name.toList := by
  intro name hname
  have hnames := h.names_of_node? (Tree.file?_eq_some_iff.mp hfile)
  exact (hnames name (List.mem_append_right _ hname)).slash_notMem

/-- No two scripts that are found have the same path. -/
theorem nodup_text_find (h : t.WellFormed) (top : Place) (exclude : List String) :
    ((find t top exclude).map Place.text).Nodup := by
  refine List.Nodup.map_on ?_ (nodup_find h top exclude)
  intro a ha b hb heq
  obtain ⟨hwanted, file, hfile⟩ := (mem_find_iff h).mp ha
  obtain ⟨hwanted', file', hfile'⟩ := (mem_find_iff h).mp hb
  exact Place.eq_of_text_eq (ne_nil_of_isWanted hwanted) (ne_nil_of_isWanted hwanted')
    (slash_notMem_of_file? h hfile) (slash_notMem_of_file? h hfile') heq

/-! ### Entering results -/

def Completion.entry (c : Completion) : String × FileResult :=
  match c.outcome with
  | .ok visit => (visit.outcome.file, visit.outcome.result)
  | .error error => (c.name, .failed error.message)

theorem absorbCompletion_results (useCache : Bool) (s : State) (c : Completion) :
    (absorbCompletion useCache s c).results = Entries.put c.entry.1 c.entry.2 s.results := by
  unfold absorbCompletion Completion.entry
  split <;> simp_all [absorb]

/-- Results under paths of their own are entered one after the other. -/
theorem absorbAll_results {useCache : Bool} {s : State} {completions : List Completion}
    (h : (s.results.map Prod.fst ++ completions.map fun c => c.entry.1).Nodup) :
    (absorbAll useCache s completions).results = s.results ++ completions.map Completion.entry := by
  induction completions generalizing s with
  | nil => simp [absorbAll]
  | cons c completions ih =>
      have hfresh : c.entry.1 ∉ s.results.map Prod.fst := by
        intro hmem
        exact (List.nodup_append.mp h).2.2 _ hmem _ List.mem_cons_self rfl
      have hput : (absorbCompletion useCache s c).results = s.results ++ [c.entry] := by
        rw [absorbCompletion_results, Entries.put_eq_append hfresh]
      have hlater := @ih (absorbCompletion useCache s c) (by simpa [hput] using h)
      rw [hput] at hlater
      simpa [absorbAll] using hlater

theorem pairwise_mergeSort_results (results : List (String × FileResult)) :
    (results.mergeSort fun a b => a.1 ≤ b.1).Pairwise fun a b => a.1 ≤ b.1 := by
  have htrans : ∀ a b c : String × FileResult, decide (a.1 ≤ b.1) = true →
      decide (b.1 ≤ c.1) = true → decide (a.1 ≤ c.1) = true := by
    intro a b c hab hbc
    exact decide_eq_true (String.le_trans (of_decide_eq_true hab) (of_decide_eq_true hbc))
  have htotal : ∀ a b : String × FileResult,
      (decide (a.1 ≤ b.1) || decide (b.1 ≤ a.1)) = true := by
    intro a b
    simpa only [Bool.or_eq_true, decide_eq_true_eq] using String.le_total a.1 b.1
  exact (List.pairwise_mergeSort htrans htotal results).imp of_decide_eq_true

theorem outcomes_eq_of_perm {s s' : State} (h : s.results.Perm s'.results)
    (hnodup : (s.results.map Prod.fst).Nodup) : outcomes s = outcomes s' := by
  have hperm : (s.results.mergeSort fun a b => a.1 ≤ b.1).Perm
      (s'.results.mergeSort fun a b => a.1 ≤ b.1) :=
    ((List.mergeSort_perm _ _).trans h).trans (List.mergeSort_perm _ _).symm
  have heq := List.Perm.eq_of_pairwise ?_ (pairwise_mergeSort_results _)
    (pairwise_mergeSort_results _) hperm
  · rw [outcomes, outcomes, heq]
  · intro a b ha hb hab hba
    have ha' : a ∈ s.results := List.mem_mergeSort.mp ha
    have hb' : b ∈ s.results := h.mem_iff.mpr (List.mem_mergeSort.mp hb)
    exact List.inj_on_of_nodup_map hnodup ha' hb' (String.le_antisymm hab hba)

/-! ### Visits of files that are there -/

/-- What a visitor brings of a file that stays as it is. -/
def visitOf (name : String) (file : FileState) (parsed : Option ParsedScript) : Visit :=
  ⟨⟨name, .ofParse parsed⟩, some ⟨file.mtime, file.size, file.digest⟩⟩

/-- The path of a file below the root of a scan, and what parsing the file gives. -/
structure Holds (t : Tree) (top place : Place) (file : FileState) (parsed : Option ParsedScript) :
    Prop where
  file_eq : t.file? (top ++ place) = some file
  parse_eq : file.parse = .ok parsed

def resultAt (t : Tree) (top place : Place) : FileResult :=
  match t.file? (top ++ place) with
  | none => .nothing
  | some file =>
      match file.parse with
      | .ok parsed => .ofParse parsed
      | .error error => .failed error.message

def entryAt (t : Tree) (top place : Place) : String × FileResult :=
  (Place.text place, resultAt t top place)

theorem Holds.resultAt_eq {file : FileState} {parsed : Option ParsedScript}
    (h : Holds t top place file parsed) : resultAt t top place = .ofParse parsed := by
  rw [resultAt, h.file_eq]
  simp only [h.parse_eq]

theorem look_eq (hwell : t.WellFormed) {file : FileState}
    (h : t.file? (top ++ place) = some file) :
    look t [] (scriptFile t top place) = (⟨.ok file.bytes, some file, some file⟩, t) := by
  have hopen : t.openFile (top ++ place) = .ok (top ++ place, file) := hwell.openFile_eq h
  simp [look, readScript, scriptFile, hopen, Except.mapError, Except.map, Except.toOption]

theorem visit_eq {file : FileState} {parsed : Option ParsedScript} (h : file.parse = .ok parsed)
    (name : String) :
    (Sight.visit ⟨.ok file.bytes, some file, some file⟩ name).1 =
      .ok (visitOf name file parsed) := by
  rw [Sight.visit_of_outcome (Sight.outcomeOf_ok h)]
  cases parsed <;> rfl

/-- Nothing happens to a tree while its files are visited, and every visitor brings what its file
holds. -/
theorem visitAtOnce_eq (hwell : t.WellFormed) {places : List Place}
    (h : ∀ place ∈ places, ∃ file parsed, Holds t top place file parsed) :
    (visitAtOnce top [] places t).2 = t ∧
      (∀ seen ∈ sights top [] places t, ¬ seen.2.Raises) ∧
      (visitAtOnce top [] places t).1.map Completion.entry = places.map (entryAt t top) ∧
      ∀ c ∈ (visitAtOnce top [] places t).1, ∃ place ∈ places, ∃ file parsed,
        Holds t top place file parsed ∧ c.outcome = .ok (visitOf (Place.text place) file parsed) := by
  induction places with
  | nil => simp [visitAtOnce, sights]
  | cons place later ih =>
      obtain ⟨⟨file, parsed, hholds⟩, hlater⟩ := List.forall_mem_cons.mp h
      obtain ⟨htree, hcalm, hentries, hvisits⟩ := ih hlater
      have hvisit := visit_eq hholds.parse_eq (Place.text place)
      rw [sights_cons, visitAtOnce_cons, look_eq hwell hholds.file_eq]
      refine ⟨htree, ?_, ?_, ?_⟩
      · rw [List.forall_mem_cons]
        refine ⟨fun hraises => ?_, hcalm⟩
        obtain ⟨error, herror⟩ := (Sight.exists_visit_error_iff (Place.text place)).mpr hraises
        simp [hvisit] at herror
      · simp only [List.map_cons, hentries, entryAt, hholds.resultAt_eq, Completion.entry, hvisit]
        rfl
      · rw [List.forall_mem_cons]
        refine ⟨⟨place, List.mem_cons_self, file, parsed, hholds, hvisit⟩, ?_⟩
        intro c hc
        obtain ⟨other, hother, hrest⟩ := hvisits c hc
        exact ⟨other, List.mem_cons_of_mem _ hother, hrest⟩

end Scan

end ScriptGraph
