import ScriptGraph.Graph.CallGraph
import ScriptGraph.Proofs.Scan.CompletionOrder

/-!
# Every file is accounted for

A file comes into a report by one of several routes: the cache has its result, a visitor brings it, or
a worker fails and the error stands for it.  A look at the cache parts the files that are found, and
every visitor enters the result of one stale file.  So a scan that returns reports each file that it
finds once, and its counts add up to the files for which no worker failed.
-/

namespace ScriptGraph

/-! ### The parts of a report -/

namespace FileOutcome

/-- The parts of a list of outcomes, each in the order of the list: the files without a result, those
that create nothing, and those with a definition. -/
structure Parts (files : List FileOutcome) (failures : List (String × String))
    (skipped : List String) (scripts : List (String × ParsedScript)) : Prop where
  mem_failures_iff : ∀ file reason, (file, reason) ∈ failures ↔ ⟨file, .failed reason⟩ ∈ files
  mem_skipped_iff : ∀ file, file ∈ skipped ↔ ⟨file, .nothing⟩ ∈ files
  mem_scripts_iff : ∀ file script, (file, script) ∈ scripts ↔ ⟨file, .parsed script⟩ ∈ files
  failures_sublist : (failures.map Prod.fst).Sublist (files.map (·.file))
  skipped_sublist : skipped.Sublist (files.map (·.file))
  scripts_sublist : (scripts.map Prod.fst).Sublist (files.map (·.file))
  perm : (failures.map Prod.fst ++ (skipped ++ scripts.map Prod.fst)).Perm (files.map (·.file))

section

variable {α : Type} {part? : FileResult → Option α} {make : α → FileResult}

theorem mem_filterMap_part (hpart : ∀ result a, part? result = some a ↔ result = make a)
    {files : List FileOutcome} {file : String} {a : α} :
    (file, a) ∈ files.filterMap (fun f => (part? f.result).map fun a => (f.file, a)) ↔
      ⟨file, make a⟩ ∈ files := by
  rw [List.mem_filterMap]
  constructor
  · rintro ⟨f, hf, hsome⟩
    obtain ⟨b, hb, heq⟩ := Option.map_eq_some_iff.mp hsome
    obtain ⟨rfl, rfl⟩ := Prod.mk.inj heq
    rwa [← (hpart f.result b).mp hb]
  · intro hf
    exact ⟨_, hf, by simp [(hpart (make a) a).mpr rfl]⟩

theorem sublist_filterMap_part (part? : FileResult → Option α) (files : List FileOutcome) :
    ((files.filterMap fun f => (part? f.result).map fun a => (f.file, a)).map Prod.fst).Sublist
      (files.map (·.file)) := by
  induction files with
  | nil => exact .slnil
  | cons f files ih =>
      cases hpart : part? f.result with
      | none => simpa [hpart] using ih.cons f.file
      | some a => simpa [hpart] using ih

end

theorem parts_perm (files : List FileOutcome) :
    ((failures files).map Prod.fst ++
      (skipped files ++ (CallGraph.parsedScripts files).map Prod.fst)).Perm
        (files.map (·.file)) := by
  induction files with
  | nil => exact .refl _
  | cons f files ih =>
      obtain ⟨file, result⟩ := f
      cases result with
      | failed reason => exact ih.cons file
      | nothing => exact List.perm_middle.trans (ih.cons file)
      | parsed script =>
          have hlast := @List.perm_middle _ file ((failures files).map Prod.fst ++ skipped files)
            ((CallGraph.parsedScripts files).map Prod.fst)
          rw [List.append_assoc, List.append_assoc] at hlast
          exact hlast.trans (ih.cons file)

/-- Every outcome belongs to exactly one part. -/
theorem parts (files : List FileOutcome) :
    Parts files (failures files) (skipped files) (CallGraph.parsedScripts files) where
  mem_failures_iff _ _ := mem_filterMap_part fun result reason => by
    cases result <;> simp [FileResult.reason?]
  mem_skipped_iff file := by
    simp only [skipped, List.mem_map, List.mem_filter, beq_iff_eq]
    constructor
    · rintro ⟨⟨_, _⟩, ⟨hf, rfl⟩, rfl⟩
      exact hf
    · exact fun hf => ⟨_, ⟨hf, rfl⟩, rfl⟩
  mem_scripts_iff _ _ := mem_filterMap_part fun result script => by
    cases result <;> simp [FileResult.script?]
  failures_sublist := sublist_filterMap_part FileResult.reason? files
  skipped_sublist := List.filter_sublist.map _
  scripts_sublist := sublist_filterMap_part FileResult.script? files
  perm := parts_perm files

end FileOutcome

namespace Scan

section Accounts

variable {env : Environment} {clock : Clock} {mishaps : Mishaps} {options : Options} {t : Tree}
  {top : Place} {cache : Cache} {report : Report}

/-! ### Scans that return -/

/-- Whether several workers share the work of a scan. -/
def IsShared (env : Environment) (clock : Clock) (options : Options) (t : Tree) (top : Place) :
    Prop :=
  1 < (workers env options.workers).1 ∧
    parallelThreshold ≤ (staleFiles env clock options t top).length

theorem report_of_finish {packer : MessagePack.Packer} {found : List Place} {s : State}
    (h : (finish packer clock options t top found s).result = .ok report) :
    report = ⟨t.shown top, outcomes s, s.cachedCount, s.parsedCount⟩ := by
  unfold finish at h
  dsimp only at h
  split at h
  · split at h
    · simp at h
    · exact (Except.ok.inj h).symm
  · exact (Except.ok.inj h).symm

/-- What a scan gathers is what workers bring together.  If they do not share the work, none of them
fails. -/
theorem exists_of_gathered_eq_ok {found : State × Tree}
    (h : gathered env clock mishaps options t top = .ok found) :
    ∃ cache, Starts env clock options t top cache ∧
      found = broughtTogether env mishaps options t top cache ∧
      (¬ IsShared env clock options t top →
        ∀ seen ∈ sights top mishaps (staleFiles env clock options t top) t, ¬ seen.2.Raises) := by
  obtain ⟨cache, hstart⟩ := exists_starts_of_gathered h
  by_cases hshared : IsShared env clock options t top
  · rw [gathered_at_once hstart hshared.1 hshared.2] at h
    exact ⟨cache, hstart, (Except.ok.inj h).symm, fun hnot => (hnot hshared).elim⟩
  · -- a visitor that fails ends the work of one worker, and then nothing is gathered
    have hcalm : ∀ seen ∈ sights top mishaps (staleFiles env clock options t top) t,
        ¬ seen.2.Raises := by
      intro seen hseen hraises
      obtain ⟨error, herror⟩ := gathered_of_raises hstart hshared ⟨seen, hseen, hraises⟩
      simp [herror] at h
    rw [gathered_of_calm hstart hcalm] at h
    exact ⟨cache, hstart, (Except.ok.inj h).symm, fun _ => hcalm⟩

/-- What a scan that returns has done. -/
structure Returned (env : Environment) (clock : Clock) (mishaps : Mishaps) (options : Options)
    (t : Tree) (way : List String) (report : Report) (cache : Cache) : Prop where
  starts : Starts env clock options t (Place.ofWay way) cache
  gathered_eq : gathered env clock mishaps options t (Place.ofWay way) =
    .ok (broughtTogether env mishaps options t (Place.ofWay way) cache)
  report_eq : report = reportTogether env mishaps options t (Place.ofWay way) cache
  tree_eq : (scan env clock mishaps options t way).tree =
    (runTogether env clock mishaps options t (Place.ofWay way) cache).tree
  calm : ¬ IsShared env clock options t (Place.ofWay way) →
    ∀ seen ∈ sights (Place.ofWay way) mishaps (staleFiles env clock options t (Place.ofWay way)) t,
      ¬ seen.2.Raises

theorem exists_returned {way : List String}
    (h : (scan env clock mishaps options t way).result = .ok report) :
    ∃ cache, Returned env clock mishaps options t way report cache := by
  have hroot : t.isDirectory (Place.ofWay way) = true := by
    by_contra hnot
    simp [scan, hnot] at h
  rw [scan_eq_scanAt hroot] at h
  cases hgathered : gathered env clock mishaps options t (Place.ofWay way) with
  | error error => simp [scanAt_of_gathered_error hgathered] at h
  | ok found =>
      obtain ⟨cache, hstart, rfl, hcalm⟩ := exists_of_gathered_eq_ok hgathered
      obtain ⟨hresult, htree⟩ := scanAt_of_gathered_ok hgathered
      refine ⟨cache, hstart, hgathered, report_of_finish (hresult.symm.trans h), ?_, hcalm⟩
      exact (congrArg Run.tree (scan_eq_scanAt hroot)).trans htree

/-! ### Visitors that fail -/

def raisedFiles (env : Environment) (clock : Clock) (mishaps : Mishaps) (options : Options)
    (t : Tree) (top : Place) : List String :=
  ((sights top mishaps (staleFiles env clock options t top) t).filter fun seen =>
    !(seen.2.visit seen.1).1.isOk).map Prod.fst

theorem isOk_visit_eq_false_iff {sight : Sight} {name : String} :
    (sight.visit name).1.isOk = false ↔ sight.Raises := by
  rw [← Sight.exists_visit_error_iff name]
  cases (sight.visit name).1 <;> simp [Except.isOk, Except.toBool]

theorem mem_raisedFiles_iff {name : String} :
    name ∈ raisedFiles env clock mishaps options t top ↔
      ∃ sight, (name, sight) ∈ sights top mishaps (staleFiles env clock options t top) t ∧
        sight.Raises := by
  simp [raisedFiles, isOk_visit_eq_false_iff]

theorem visitAtOnce_eq_map_sights (top : Place) (mishaps : Mishaps) (places : List Place)
    (t : Tree) :
    (visitAtOnce top mishaps places t).1 =
      (sights top mishaps places t).map fun seen => ⟨seen.1, (seen.2.visit seen.1).1⟩ := by
  induction places generalizing t with
  | nil => rfl
  | cons place later ih => rw [visitAtOnce_cons, sights_cons, ih]; rfl

theorem entry_visit (sight : Sight) (name : String) :
    (Completion.entry ⟨name, (sight.visit name).1⟩).1 = name := by
  unfold Completion.entry
  cases hvisit : (sight.visit name).1 with
  | error error => rfl
  | ok visit => exact file_of_visit hvisit

theorem entry_names_visitAtOnce (top : Place) (mishaps : Mishaps) (places : List Place) (t : Tree) :
    ((visitAtOnce top mishaps places t).1.map fun c => c.entry.1) = places.map Place.text := by
  induction places generalizing t with
  | nil => rfl
  | cons place later ih => rw [visitAtOnce_cons, List.map_cons, ih, entry_visit, List.map_cons]

theorem length_visitAtOnce (top : Place) (mishaps : Mishaps) (places : List Place) (t : Tree) :
    (visitAtOnce top mishaps places t).1.length = places.length := by
  simpa using congrArg List.length (entry_names_visitAtOnce top mishaps places t)

theorem length_raisedFiles (h : Starts env clock options t top cache) :
    (raisedFiles env clock mishaps options t top).length =
      ((visitAtOnce top mishaps (siftFound env options t top cache).stale t).1.filter fun c =>
        !c.outcome.isOk).length := by
  rw [raisedFiles, visitAtOnce_eq_map_sights, List.filter_map, List.length_map, List.length_map,
    h.staleFiles_eq]
  rfl

/-! ### Counts -/

theorem counts_absorbAll (useCache : Bool) (s : State) (completions : List Completion) :
    (absorbAll useCache s completions).cachedCount = s.cachedCount ∧
      (absorbAll useCache s completions).parsedCount +
          (completions.filter fun c => !c.outcome.isOk).length =
        s.parsedCount + completions.length := by
  induction completions generalizing s with
  | nil => exact ⟨rfl, rfl⟩
  | cons c completions ih =>
      obtain ⟨hcached, hparsed⟩ := ih (absorbCompletion useCache s c)
      have hall : absorbAll useCache s (c :: completions) =
          absorbAll useCache (absorbCompletion useCache s c) completions := rfl
      have hstep : (absorbCompletion useCache s c).cachedCount = s.cachedCount ∧
          (absorbCompletion useCache s c).parsedCount = s.parsedCount + c.parsedFiles := by
        rw [absorbCompletion_eq]
        exact ⟨rfl, rfl⟩
      rw [hall, List.length_cons]
      refine ⟨hcached.trans hstep.1, ?_⟩
      cases hok : c.outcome.isOk with
      | true =>
          have hone : c.parsedFiles = 1 := by simp [Completion.parsedFiles, hok]
          rw [List.filter_cons_of_neg (by simp [hok])]
          omega
      | false =>
          have hnone : c.parsedFiles = 0 := by simp [Completion.parsedFiles, hok]
          rw [List.filter_cons_of_pos (by simp [hok]), List.length_cons]
          omega

/-! ### Names -/

/-- The files that the cache has, and those that must be visited, are the files that are found. -/
theorem Starts.perm (h : Starts env clock options t top cache) (hwell : t.WellFormed) :
    ((siftFound env options t top cache).state.results.map Prod.fst ++
        (siftFound env options t top cache).stale.map Place.text).Perm
      ((find t top options.exclude).map Place.text) := by
  cases hcached : options.useCache with
  | false =>
      simp only [siftFound, siftAll, hcached]
      exact .refl _
  | true =>
      have hroom := (failure_siftFound_eq_none_iff hwell hcached).mp h.failure_eq
      obtain ⟨-, hstale, hresults⟩ := siftFound_eq hwell hcached hroom
      have hperm := (perm_reportEntry env.stackRoom t top cache
        (find t top options.exclude)).map Prod.fst
      rw [hstale, hresults]
      rwa [List.map_append, List.map_map, List.map_map] at hperm

/-- The results that workers bring together are those of the files that are found: first those that
the cache has, then those of the visitors. -/
theorem Starts.results (h : Starts env clock options t top cache) (hwell : t.WellFormed)
    (mishaps : Mishaps) :
    (broughtTogether env mishaps options t top cache).1.results =
        (siftFound env options t top cache).state.results ++
          (visitAtOnce top mishaps (siftFound env options t top cache).stale t).1.map
            Completion.entry ∧
      ((broughtTogether env mishaps options t top cache).1.results.map Prod.fst).Perm
        ((find t top options.exclude).map Place.text) := by
  have hperm := h.perm hwell
  rw [← entry_names_visitAtOnce top mishaps (siftFound env options t top cache).stale t] at hperm
  -- no path occurs twice, so no result takes the place of another one
  have hresults : (broughtTogether env mishaps options t top cache).1.results = _ :=
    absorbAll_results (hperm.nodup_iff.mpr (nodup_text_find hwell top options.exclude))
  refine ⟨hresults, ?_⟩
  rw [hresults, List.map_append, List.map_map]
  exact hperm

theorem pairwise_outcomes {s : State} (h : (s.results.map Prod.fst).Nodup) :
    ((outcomes s).map (·.file)).Pairwise (· < ·) := by
  have hsorted := pairwise_mergeSort_results s.results
  have hnodup : ((s.results.mergeSort fun a b => a.1 ≤ b.1).map Prod.fst).Nodup :=
    (((List.mergeSort_perm _ _).map _).nodup_iff).mpr h
  rw [outcomes, List.map_map, List.pairwise_map]
  -- sorting gives `≤`, and different paths make it strict
  refine (hsorted.and (List.pairwise_map.mp hnodup)).imp fun hle => ?_
  exact String.not_le.mp fun hge => hle.2 (String.le_antisymm hle.1 hge)

theorem keys_keptCache {s : State} {key : Key} {entry : CacheEntry}
    (h : (key, entry) ∈ (keptCache clock options t top s).files) :
    ∃ place ∈ find t top options.exclude, key = .text (Place.text place) := by
  have hkept := (List.mem_filter.mp h).2
  cases key with
  | bytes data => simp at hkept
  | text path =>
      obtain ⟨place, hplace, rfl⟩ := List.mem_map.mp (List.contains_iff_mem.mp hkept)
      exact ⟨place, hplace, rfl⟩

/-! ### The whole scan -/

namespace Returned

variable {way : List String}

theorem names (hwell : t.WellFormed) (h : Returned env clock mishaps options t way report cache) :
    (report.files.map (·.file)).Perm
        ((find t (Place.ofWay way) options.exclude).map Place.text) ∧
      (report.files.map (·.file)).Pairwise (· < ·) := by
  have hperm := (h.starts.results hwell mishaps).2
  have hnodup := hperm.nodup_iff.mpr (nodup_text_find hwell _ _)
  have hfiles := (perm_outcomes
    (broughtTogether env mishaps options t (Place.ofWay way) cache).1).map (·.file)
  rw [List.map_map] at hfiles
  rw [h.report_eq]
  exact ⟨hfiles.trans hperm, pairwise_outcomes hnodup⟩

theorem counts (h : Returned env clock mishaps options t way report cache) :
    report.cachedCount + report.parsedCount +
        (raisedFiles env clock mishaps options t (Place.ofWay way)).length =
      (find t (Place.ofWay way) options.exclude).length := by
  obtain ⟨hsum, hnone⟩ := counts_siftAll h.starts.failure_eq
  rw [← siftFound] at hsum hnone
  rw [h.report_eq, length_raisedFiles h.starts]
  simp only [reportTogether, broughtTogether]
  generalize siftFound env options t (Place.ofWay way) cache = sifted at hsum hnone ⊢
  -- every stale file has one visitor, who brings a result that counts or an error
  have hvisits := length_visitAtOnce (Place.ofWay way) mishaps sifted.stale t
  have habsorbed := counts_absorbAll options.useCache sifted.state
    (visitAtOnce (Place.ofWay way) mishaps sifted.stale t).1
  omega

/-- A file whose visitor fails is reported with the error. -/
theorem exists_failure (hwell : t.WellFormed)
    (h : Returned env clock mishaps options t way report cache) {name : String}
    (hname : name ∈ raisedFiles env clock mishaps options t (Place.ofWay way)) :
    ∃ reason, (⟨name, .failed reason⟩ : FileOutcome) ∈ report.files := by
  obtain ⟨sight, hseen, hraises⟩ := mem_raisedFiles_iff.mp hname
  obtain ⟨error, herror⟩ := (Sight.exists_visit_error_iff name).mpr hraises
  have hentry : Completion.entry ⟨name, (sight.visit name).1⟩ = (name, .failed error.message) := by
    rw [herror]
    rfl
  have hmem : (name, .failed error.message) ∈
      (broughtTogether env mishaps options t (Place.ofWay way) cache).1.results := by
    rw [h.starts.staleFiles_eq] at hseen
    rw [(h.starts.results hwell mishaps).1, visitAtOnce_eq_map_sights, List.map_map]
    exact List.mem_append_right _ (List.mem_map.mpr ⟨_, hseen, hentry⟩)
  rw [h.report_eq]
  exact ⟨error.message, (perm_outcomes _).mem_iff.mpr (List.mem_map_of_mem hmem)⟩

theorem raisedFiles_eq_nil (h : Returned env clock mishaps options t way report cache)
    (hshared : ¬ IsShared env clock options t (Place.ofWay way)) :
    raisedFiles env clock mishaps options t (Place.ofWay way) = [] := by
  refine List.eq_nil_iff_forall_not_mem.mpr fun name hname => ?_
  obtain ⟨sight, hseen, hraises⟩ := mem_raisedFiles_iff.mp hname
  exact h.calm hshared _ hseen hraises

theorem exists_saved (h : Returned env clock mishaps options t way report cache)
    (hcached : options.useCache = true) :
    ∃ kept, savedCache? env clock mishaps options t (Place.ofWay way) = some kept ∧
      (scan env clock mishaps options t way).tree =
        (Cache.save env.packer (visitAtOnce (Place.ofWay way) mishaps
          (staleFiles env clock options t (Place.ofWay way)) t).2 (Place.ofWay way) clock.seconds
          kept).tree ∧
      ∀ key entry, (key, entry) ∈ kept.files →
        ∃ place ∈ find t (Place.ofWay way) options.exclude, key = .text (Place.text place) := by
  refine ⟨_, savedCache?_of_ok h.gathered_eq, ?_, fun key entry => keys_keptCache⟩
  rw [h.tree_eq, runTogether, tree_finish hcached, (saveCache_eq ..).1, h.starts.staleFiles_eq]
  rfl

end Returned

/-- A scan that returns accounts for every file once.  It reports the files that it finds, in
strictly ascending order, and parts them by their results.  The counts leave out the files whose
visitors fail, which only happens if several workers share the work.  The cache that is saved has no
other paths. -/
theorem scan_accounts_for_every_file {way : List String} (hwell : t.WellFormed)
    (h : (scan env clock mishaps options t way).result = .ok report) :
    let found := find t (Place.ofWay way) options.exclude
    let raised := raisedFiles env clock mishaps options t (Place.ofWay way)
    let visited := visitAtOnce (Place.ofWay way) mishaps
      (staleFiles env clock options t (Place.ofWay way)) t
    ((report.files.map (·.file)).Perm (found.map Place.text) ∧
      (report.files.map (·.file)).Pairwise (· < ·)) ∧
    FileOutcome.Parts report.files (FileOutcome.failures report.files)
      (FileOutcome.skipped report.files) (CallGraph.parsedScripts report.files) ∧
    report.cachedCount + report.parsedCount + raised.length = report.files.length ∧
    (∀ file ∈ raised, ∃ reason, (file, reason) ∈ FileOutcome.failures report.files) ∧
    (¬ IsShared env clock options t (Place.ofWay way) → raised = []) ∧
    (options.useCache = true → ∃ kept,
      savedCache? env clock mishaps options t (Place.ofWay way) = some kept ∧
      (scan env clock mishaps options t way).tree =
        (Cache.save env.packer visited.2 (Place.ofWay way) clock.seconds kept).tree ∧
      ∀ key entry, (key, entry) ∈ kept.files → ∃ place ∈ found, key = .text (Place.text place)) := by
  intro found raised visited
  obtain ⟨cache, hreturned⟩ := exists_returned h
  have hparts := FileOutcome.parts report.files
  have hnames := hreturned.names hwell
  refine ⟨hnames, hparts, ?_, ?_, hreturned.raisedFiles_eq_nil, hreturned.exists_saved⟩
  · have hlength : report.files.length = found.length := by simpa using hnames.1.length_eq
    rw [hlength]
    exact hreturned.counts
  · intro file hfile
    obtain ⟨reason, hfailed⟩ := hreturned.exists_failure hwell hfile
    exact ⟨reason, (hparts.mem_failures_iff file reason).mpr hfailed⟩

end Accounts

section

open FiftyScripts

/-- The worker of the first script fails, the second script cannot be read, and the others create
nothing. -/
theorem scan_accounts_for_every_file_fifty :
    let t := tree "CREATE VİEW v AS SELECT 1"
    let mishaps : Mishaps := [(["10.sql"], .denied "denied")]
    t.WellFormed ∧ raisedFiles {} clock mishaps cachedOptions t (Place.ofWay []) = ["0.sql"] ∧
    ∃ report, (scan {} clock mishaps cachedOptions t []).result = .ok report ∧
      (report.files.map (·.file)).Perm
        ((find t (Place.ofWay []) cachedOptions.exclude).map Place.text) ∧
      report.cachedCount + report.parsedCount + 1 = report.files.length ∧
      ∃ reason, ("0.sql", reason) ∈ FileOutcome.failures report.files := by
  intro t mishaps
  have hwell : t.WellFormed := by decide +kernel
  have hstale : staleFiles {} clock cachedOptions t (Place.ofWay []) = ["0.sql"] :: others :=
    staleFiles_cachedOptions hwell
  have hraised : raisedFiles {} clock mishaps cachedOptions t (Place.ofWay []) = ["0.sql"] := by
    rw [raisedFiles, hstale]
    decide +kernel
  have hmany : parallelThreshold ≤
      (staleFiles {} clock cachedOptions t (Place.ofWay [])).length := by
    rw [hstale]
    decide +kernel
  have hmore : 1 < (workers {} cachedOptions.workers).1 := by decide
  have hresult : (scan {} clock mishaps cachedOptions t []).result = .ok _ :=
    (scan_of_together rfl (gathered_at_once (starts_cachedOptions hwell) hmore hmany)).1.trans
      (runTogether_of_regular (sizesFit (by decide +kernel)) (startCache_tree _)
        (Cache.all_empty _ _))
  obtain ⟨hnames, -, hcounts, hfailures, -⟩ := scan_accounts_for_every_file hwell hresult
  rw [hraised] at hcounts hfailures
  exact ⟨hwell, hraised, _, hresult, hnames.1, hcounts, hfailures _ List.mem_cons_self⟩

end

end Scan

end ScriptGraph
