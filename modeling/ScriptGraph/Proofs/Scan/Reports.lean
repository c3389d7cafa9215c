import ScriptGraph.Proofs.Cache.Records
import ScriptGraph.Proofs.Scan.Results
import ScriptGraph.Proofs.Scan.Workers

/-!
# What a scan reports, whatever its cache holds

A scan reports what the cache has for a file if the entry is fresh and its record can be read, and
what the file holds otherwise.  Nothing is asked of the entries: they need not describe any file.  A
scan has no report if a fresh record has a kind that cannot be shown in the room on the stack.
-/

namespace ScriptGraph

theorem FileResult.ofParse_inj {old parsed : Option ParsedScript} :
    ofParse old = ofParse parsed ↔ old = parsed := by
  cases old <;> cases parsed <;> simp [ofParse]

namespace Scan

variable {room : Nat} {t : Tree} {top place : Place} {cache : Cache}

/-! ### Reuse -/

/-- The record that the cache has for the file at a place, if its entry is fresh for the file. -/
def freshRecord? (t : Tree) (top : Place) (cache : Cache) (place : Place) : Option Value := do
  let entry ← cache.get? (Place.text place)
  let file ← t.file? (top ++ place)
  (entry.refresh? file).map CacheEntry.record

/-- The result that the cache has for the file at a place, if its entry is fresh for the file and its
record can be read. -/
def reused? (room : Nat) (t : Tree) (top : Place) (cache : Cache) (place : Place) :
    Option FileResult := do
  let record ← freshRecord? t top cache place
  let parsed ← (ParsedScript.ofRecord room record).toOption
  some (.ofParse parsed)

/-- The cache has a fresh record for the file at a place, and the stack has no room for what is wrong
with it. -/
def Exhausts (room : Nat) (t : Tree) (top : Place) (cache : Cache) (place : Place) : Prop :=
  ∃ record, freshRecord? t top cache place = some record ∧
    ParsedScript.ofRecord room record = .error .tooDeep

def reportedAt (room : Nat) (t : Tree) (top : Place) (cache : Cache) (place : Place) : FileResult :=
  (reused? room t top cache place).getD (resultAt t top place)

def reportEntry (room : Nat) (t : Tree) (top : Place) (cache : Cache) (place : Place) :
    String × FileResult :=
  (Place.text place, reportedAt room t top cache place)

section Refresh

variable {now fresh : Cache}
  (hsame : now.get? (Place.text place) = cache.get? (Place.text place))

include hsame

theorem freshRecord?_of_refresh?_eq_none
    (h : now.refresh? (Place.text place) (t.file? (top ++ place)) = none) :
    freshRecord? t top cache place = none := by
  rw [Cache.refresh?, hsame] at h
  cases hentry : cache.get? (Place.text place) with
  | none => simp [freshRecord?, hentry]
  | some entry =>
      cases hfile : t.file? (top ++ place) with
      | none => simp [freshRecord?, hentry, hfile]
      | some file =>
          cases hfresh : entry.refresh? file with
          | none => simp [freshRecord?, hentry, hfile, hfresh]
          | some fresh => simp [hentry, hfile, hfresh] at h

/-- Refreshing changes at most the entry of the file. -/
theorem freshRecord?_of_refresh?
    (h : now.refresh? (Place.text place) (t.file? (top ++ place)) = some fresh) :
    freshRecord? t top cache place =
        some (((fresh.get? (Place.text place)).map (·.record)).getD .null) ∧
      ∀ name, name ≠ Place.text place → fresh.get? name = now.get? name := by
  obtain ⟨entry, hentry, h⟩ := Option.bind_eq_some_iff.mp h
  obtain ⟨file, hfile, h⟩ := Option.bind_eq_some_iff.mp h
  obtain ⟨renewed, hrenewed, h⟩ := Option.bind_eq_some_iff.mp h
  obtain rfl := Option.some.inj h
  refine ⟨?_, fun name hname => by rw [Cache.get?_put, if_neg hname]⟩
  simp [freshRecord?, ← hsame, hentry, hfile, hrenewed, Cache.get?_put]

end Refresh

/-- A look at the cache fails if the stack has no room for what is wrong with the record.  Otherwise
it leaves the file to be visited, or enters what the cache has for it. -/
theorem SiftStep.cases {s s' : Sifted} (h : SiftStep room t top s place s') (hgoes : s.failure = none)
    (hsame : s.state.cache.get? (Place.text place) = cache.get? (Place.text place)) :
    Exhausts room t top cache place ∧ s'.failure = some .tooDeep ∨
      ¬ Exhausts room t top cache place ∧ s'.failure = none ∧
        (reused? room t top cache place = none ∧ s'.stale = s.stale ++ [place] ∧
            s'.state.results = s.state.results ∨
          ∃ result, reused? room t top cache place = some result ∧ s'.stale = s.stale ∧
            s'.state.results = Entries.put (Place.text place) result s.state.results) ∧
        ∀ name, name ≠ Place.text place → s'.state.cache.get? name = s.state.cache.get? name := by
  unfold Exhausts reused?
  cases h with
  | ended h => simp [h] at hgoes
  | missed _ h =>
      have hnone := freshRecord?_of_refresh?_eq_none hsame h
      exact .inr ⟨by simp [hnone], hgoes, .inl ⟨by simp [hnone], rfl, rfl⟩, fun _ _ => rfl⟩
  | reused _ hfresh hread =>
      obtain ⟨hsome, hothers⟩ := freshRecord?_of_refresh? hsame hfresh
      refine .inr ⟨by simp [hsome, hread], hgoes, .inr ⟨_, ?_, rfl, rfl⟩, hothers⟩
      simp [hsome, hread, Except.toOption]
  | discarded _ hfresh hread hpassed =>
      obtain ⟨hsome, hothers⟩ := freshRecord?_of_refresh? hsame hfresh
      refine .inr ⟨?_, hgoes, .inl ⟨?_, rfl, rfl⟩, hothers⟩
      · simp [hsome, hread, RecordError.isPassedOver_iff.mp hpassed]
      · simp [hsome, hread, Except.toOption]
  | failed _ hfresh hread hpassed =>
      obtain ⟨hsome, -⟩ := freshRecord?_of_refresh? hsame hfresh
      rw [RecordError.isPassedOver_iff, not_not] at hpassed
      subst hpassed
      exact .inl ⟨⟨_, hsome, hread⟩, rfl⟩

/-- What the cache has for a file, under its path. -/
def reusedPair? (room : Nat) (t : Tree) (top : Place) (cache : Cache) (place : Place) :
    Option (String × FileResult) :=
  (reused? room t top cache place).map (Place.text place, ·)

/-- The entries of the files to come are as they were, since every file has a path of its own. -/
theorem get?_sift_later {s : Sifted} {later : List Place}
    (hnodup : ((place :: later).map Place.text).Nodup)
    (hothers : ∀ name, name ≠ Place.text place →
      (sift room t top s place).state.cache.get? name = s.state.cache.get? name)
    (hlater : ∀ other ∈ later,
      s.state.cache.get? (Place.text other) = cache.get? (Place.text other)) :
    ∀ other ∈ later, (sift room t top s place).state.cache.get? (Place.text other) =
      cache.get? (Place.text other) := by
  intro other hother
  have hne : Place.text other ≠ Place.text place := by
    intro heq
    exact (List.nodup_cons.mp hnodup).1 (heq ▸ List.mem_map_of_mem hother)
  rw [hothers _ hne, hlater other hother]

/-- A look at the cache for every file parts the files: those for which the cache has a result, and
those that are left to be visited. -/
theorem foldl_sift_eq {places : List Place} {s : Sifted} (hgoes : s.failure = none)
    (hroom : ∀ place ∈ places, ¬ Exhausts room t top cache place)
    (hsame : ∀ place ∈ places,
      s.state.cache.get? (Place.text place) = cache.get? (Place.text place))
    (hnodup : (s.state.results.map Prod.fst ++ places.map Place.text).Nodup) :
    (places.foldl (sift room t top) s).failure = none ∧
      (places.foldl (sift room t top) s).stale =
        s.stale ++ places.filter (fun place => (reused? room t top cache place).isNone) ∧
      (places.foldl (sift room t top) s).state.results =
        s.state.results ++ places.filterMap (reusedPair? room t top cache) := by
  induction places generalizing s with
  | nil => simp [hgoes]
  | cons place later ih =>
      obtain ⟨hfirst, hlater⟩ := List.forall_mem_cons.mp hsame
      obtain ⟨hfits, hroom⟩ := List.forall_mem_cons.mp hroom
      rcases (siftStep room t top s place).cases hgoes hfirst with
        ⟨hdeep, -⟩ | ⟨-, hgoes', hcase, hothers⟩
      · exact (hfits hdeep).elim
      have hrest := get?_sift_later (List.nodup_append.mp hnodup).2.1 hothers hlater
      rw [List.foldl_cons]
      rcases hcase with ⟨hnone, hstale, hresults⟩ | ⟨result, hsome, hstale, hresults⟩
      · obtain ⟨hfailure', hstale', hresults'⟩ := ih hgoes' hroom hrest (by
          rw [hresults]
          exact hnodup.sublist (by simp))
        simp [hfailure', hstale', hresults', hstale, hresults, hnone, reusedPair?]
      · have hfresh : Place.text place ∉ s.state.results.map Prod.fst := by
          intro hmem
          exact (List.nodup_append.mp hnodup).2.2 _ hmem _ List.mem_cons_self rfl
        rw [Entries.put_eq_append hfresh] at hresults
        obtain ⟨hfailure', hstale', hresults'⟩ := ih hgoes' hroom hrest (by
          rw [hresults]
          simpa using hnodup)
        simp [hfailure', hstale', hresults', hstale, hresults, hsome, reusedPair?]

/-- One file is enough to end the look at the cache. -/
theorem failure_foldl_sift {places : List Place} {s : Sifted} (hgoes : s.failure = none)
    (hdeep : ∃ place ∈ places, Exhausts room t top cache place)
    (hsame : ∀ place ∈ places,
      s.state.cache.get? (Place.text place) = cache.get? (Place.text place))
    (hnodup : (places.map Place.text).Nodup) :
    (places.foldl (sift room t top) s).failure = some .tooDeep := by
  induction places generalizing s with
  | nil => simp at hdeep
  | cons place later ih =>
      obtain ⟨hfirst, hlater⟩ := List.forall_mem_cons.mp hsame
      rw [List.foldl_cons]
      rcases (siftStep room t top s place).cases hgoes hfirst with
        ⟨-, hfailure⟩ | ⟨hfits, hgoes', -, hothers⟩
      · rw [foldl_sift_of_failure hfailure, hfailure]
      · obtain ⟨other, hother, hdeep⟩ := hdeep
        rcases List.mem_cons.mp hother with rfl | hother
        · exact (hfits hdeep).elim
        · exact ih hgoes' ⟨other, hother, hdeep⟩ (get?_sift_later hnodup hothers hlater)
            (List.nodup_cons.mp hnodup).2

section Found

variable {env : Environment} {options : Options}

theorem siftFound_eq (hwell : t.WellFormed) (hcached : options.useCache = true)
    (hroom : ∀ place ∈ find t top options.exclude, ¬ Exhausts env.stackRoom t top cache place) :
    (siftFound env options t top cache).failure = none ∧
      (siftFound env options t top cache).stale = (find t top options.exclude).filter
        (fun place => (reused? env.stackRoom t top cache place).isNone) ∧
      (siftFound env options t top cache).state.results =
        (find t top options.exclude).filterMap (reusedPair? env.stackRoom t top cache) := by
  have hspec := @foldl_sift_eq env.stackRoom t top cache (find t top options.exclude)
    { state := ⟨[], cache, 0, 0⟩ } rfl hroom (fun _ _ => rfl)
    (by simpa using nodup_text_find hwell top options.exclude)
  simpa [siftFound, siftAll, hcached] using hspec

theorem failure_siftFound (hwell : t.WellFormed) (hcached : options.useCache = true)
    (hdeep : ∃ place ∈ find t top options.exclude, Exhausts env.stackRoom t top cache place) :
    (siftFound env options t top cache).failure = some .tooDeep := by
  have hspec := @failure_foldl_sift env.stackRoom t top cache (find t top options.exclude)
    { state := ⟨[], cache, 0, 0⟩ } rfl hdeep (fun _ _ => rfl)
    (nodup_text_find hwell top options.exclude)
  simpa [siftFound, siftAll, hcached] using hspec

/-- The look at the cache comes to an end exactly if there is room for all records. -/
theorem failure_siftFound_eq_none_iff (hwell : t.WellFormed) (hcached : options.useCache = true) :
    (siftFound env options t top cache).failure = none ↔
      ∀ place ∈ find t top options.exclude, ¬ Exhausts env.stackRoom t top cache place := by
  refine ⟨fun hnone place hplace hdeep => ?_, fun hroom => (siftFound_eq hwell hcached hroom).1⟩
  simp [failure_siftFound hwell hcached ⟨place, hplace, hdeep⟩] at hnone

end Found

/-- What the cache has for some files, together with what the others hold, is what is reported. -/
theorem perm_reportEntry (room : Nat) (t : Tree) (top : Place) (cache : Cache)
    (places : List Place) :
    (places.filterMap (reusedPair? room t top cache) ++
        (places.filter fun place => (reused? room t top cache place).isNone).map
          (entryAt t top)).Perm
      (places.map (reportEntry room t top cache)) := by
  induction places with
  | nil => exact .refl _
  | cons place later ih =>
      cases hreused : reused? room t top cache place with
      | none =>
          have hentry : reportEntry room t top cache place = entryAt t top place := by
            simp [reportEntry, reportedAt, hreused, entryAt]
          simp only [List.filterMap_cons, reusedPair?, hreused, Option.map_none,
            List.filter_cons, Option.isNone_none, if_true, List.map_cons, hentry]
          exact List.perm_middle.trans (ih.cons _)
      | some result =>
          have hentry : reportEntry room t top cache place = (Place.text place, result) := by
            simp [reportEntry, reportedAt, hreused]
          simp only [List.filterMap_cons, reusedPair?, hreused, Option.map_some,
            List.filter_cons, Option.isNone_some, Bool.false_eq_true, if_false, List.map_cons, hentry]
          exact ih.cons _

/-! ### The whole scan -/

/-- The scripts that a scan finds can be parsed, and their sizes can be packed. -/
def Readable (t : Tree) (top : Place) (exclude : List String) : Prop :=
  ∀ place ∈ find t top exclude, ∃ file parsed, Holds t top place file parsed ∧ file.size < 2 ^ 64

def isReadable (t : Tree) (whole : Place) : Bool :=
  (t.file? whole).any fun file => file.parse.toOption.isSome && decide (file.size < 2 ^ 64)

theorem readable_iff {exclude : List String} :
    Readable t top exclude ↔
      ∀ place ∈ (t.filesBelow top).filter (isWanted exclude), isReadable t (top ++ place) = true := by
  unfold Readable find isReadable
  simp only [List.mem_mergeSort, Option.any_eq_true, Bool.and_eq_true, decide_eq_true_eq]
  refine forall₂_congr fun place _ => exists_congr fun file => ?_
  constructor
  · rintro ⟨parsed, ⟨hfile, hparse⟩, hsize⟩
    exact ⟨hfile, by simp [hparse, Except.toOption], hsize⟩
  · rintro ⟨hfile, hsome, hsize⟩
    cases hparse : file.parse with
    | error error => simp [hparse, Except.toOption] at hsome
    | ok parsed => exact ⟨parsed, ⟨hfile, hparse⟩, hsize⟩

instance (t : Tree) (top : Place) (exclude : List String) : Decidable (Readable t top exclude) :=
  decidable_of_iff' _ readable_iff

theorem Holds.fits {file : FileState} {parsed : Option ParsedScript} {c : Completion}
    (hsize : file.size < 2 ^ 64) (h : c.outcome = .ok (visitOf (Place.text place) file parsed)) :
    c.Fits := by
  intro visit stamp houtcome hstamp
  obtain rfl : visitOf (Place.text place) file parsed = visit := Except.ok.inj (h.symm.trans houtcome)
  obtain rfl : _ = stamp := Option.some.inj hstamp
  exact hsize

theorem perm_outcomes (s : State) :
    (outcomes s).Perm (s.results.map fun entry => ⟨entry.1, entry.2⟩) :=
  (List.mergeSort_perm _ _).map _

variable {env : Environment} {clock : Clock} {options : Options} {way : List String}

/-- What a scan gathers that starts with a cache, whatever the entries are. -/
theorem broughtTogether_reports (hwell : t.WellFormed) (hcached : options.useCache = true)
    (hroom : ∀ place ∈ find t top options.exclude, ¬ Exhausts env.stackRoom t top cache place)
    (hreadable : Readable t top options.exclude) :
    (∀ seen ∈ sights top [] (siftFound env options t top cache).stale t, ¬ seen.2.Raises) ∧
    (broughtTogether env [] options t top cache).2 = t ∧
    (broughtTogether env [] options t top cache).1.results.Perm
      ((find t top options.exclude).map (reportEntry env.stackRoom t top cache)) ∧
    (cache.Packable → (broughtTogether env [] options t top cache).1.cache.Packable) := by
  have hnodup := nodup_text_find hwell top options.exclude
  obtain ⟨-, hstale, hresults⟩ := siftFound_eq hwell hcached hroom
  have hfound : ∀ place ∈ (siftFound env options t top cache).stale,
      ∃ file parsed, Holds t top place file parsed ∧ file.size < 2 ^ 64 := by
    rw [hstale]
    exact fun place hplace => hreadable place (List.mem_of_mem_filter hplace)
  obtain ⟨htree, hcalm, hentries, hvisits⟩ := visitAtOnce_eq hwell fun place hplace => by
    obtain ⟨file, parsed, hholds, -⟩ := hfound place hplace
    exact ⟨file, parsed, hholds⟩
  have hperm := perm_reportEntry env.stackRoom t top cache (find t top options.exclude)
  rw [← hstale, ← hresults, ← hentries] at hperm
  refine ⟨hcalm, htree, ?_, fun hpackable => ?_⟩
  · have hkeys : ((siftFound env options t top cache).state.results.map Prod.fst ++
        (visitAtOnce top [] (siftFound env options t top cache).stale t).1.map
          fun c => c.entry.1).Nodup := by
      have hnames := (hperm.map Prod.fst).nodup_iff.mpr (by rwa [List.map_map])
      rwa [List.map_append, List.map_map] at hnames
    rw [broughtTogether, absorbAll_results hkeys]
    exact hperm
  · refine absorbAll_all (siftAll_all CacheEntry.Packable.refresh hpackable _) fun c hc => ?_
    obtain ⟨place, hplace, file, parsed, hholds, houtcome⟩ := hvisits c hc
    obtain ⟨file', parsed', hholds', hsize⟩ := hfound place hplace
    obtain rfl : file' = file := Option.some.inj (hholds'.file_eq.symm.trans hholds.file_eq)
    exact (Holds.fits hsize houtcome).packable

theorem gathered_of_room (hwell : t.WellFormed) (hcached : options.useCache = true)
    (hstart : (startCache clock options t top).1 = .ok cache)
    (hroom : ∀ place ∈ find t top options.exclude, ¬ Exhausts env.stackRoom t top cache place)
    (hreadable : Readable t top options.exclude) :
    gathered env clock [] options t top = .ok (broughtTogether env [] options t top cache) := by
  have hstarts : Starts env clock options t top cache :=
    ⟨hstart, (siftFound_eq hwell hcached hroom).1⟩
  refine gathered_of_calm hstarts ?_
  rw [hstarts.staleFiles_eq]
  exact (broughtTogether_reports hwell hcached hroom hreadable).1

theorem perm_reportTogether (hwell : t.WellFormed) (hcached : options.useCache = true)
    (hroom : ∀ place ∈ find t top options.exclude, ¬ Exhausts env.stackRoom t top cache place)
    (hreadable : Readable t top options.exclude) :
    (reportTogether env [] options t top cache).files.Perm
      ((find t top options.exclude).map fun place =>
        ⟨Place.text place, reportedAt env.stackRoom t top cache place⟩) := by
  obtain ⟨-, -, hperm, -⟩ := broughtTogether_reports hwell hcached hroom hreadable
  have hfiles := (perm_outcomes _).trans (hperm.map fun entry => (⟨entry.1, entry.2⟩ : FileOutcome))
  rwa [List.map_map] at hfiles

theorem not_exhausts_of_all
    (h : cache.All fun entry => ParsedScript.ofRecord room entry.record ≠ .error .tooDeep)
    (place : Place) : ¬ Exhausts room t top cache place := by
  rintro ⟨record, hfresh, herror⟩
  obtain ⟨entry, hentry, hfresh⟩ := Option.bind_eq_some_iff.mp hfresh
  obtain ⟨file, -, hfresh⟩ := Option.bind_eq_some_iff.mp hfresh
  obtain ⟨fresh, hrefresh, rfl⟩ := Option.map_eq_some_iff.mp hfresh
  rw [CacheEntry.record_of_refresh? hrefresh] at herror
  exact h _ _ (Entries.mem_of_lookup_eq_some hentry) herror

/-- What a regular cache has for a file can always be read. -/
theorem not_exhausts_of_regular (h : cache.Regular) (place : Place) :
    ¬ Exhausts room t top cache place := by
  refine not_exhausts_of_all (fun key entry hmem => ?_) place
  obtain ⟨mtime, size, parsed, digest, rfl⟩ := h key entry hmem
  cases parsed with
  | none => simp [ParsedScript.toRecord, ParsedScript.ofRecord]
  | some parsed => simp [ParsedScript.ofRecord_toRecord_eq_recalled]

theorem scan_of_regular (env : Environment) (hwell : t.WellFormed)
    (hroot : t.isDirectory (Place.ofWay way) = true) (hcached : options.useCache = true)
    (hstart : (startCache clock options t (Place.ofWay way)).1 = .ok cache)
    (hregular : cache.Regular) (hreadable : Readable t (Place.ofWay way) options.exclude) :
    ∃ report, (scan env clock [] options t way).result = .ok report ∧
      report.files.Perm ((find t (Place.ofWay way) options.exclude).map fun place =>
        ⟨Place.text place, reportedAt env.stackRoom t (Place.ofWay way) cache place⟩) := by
  have hroom : ∀ place ∈ find t (Place.ofWay way) options.exclude,
      ¬ Exhausts env.stackRoom t (Place.ofWay way) cache place :=
    fun place _ => not_exhausts_of_regular hregular place
  obtain ⟨-, -, -, hpackable⟩ := broughtTogether_reports hwell hcached hroom hreadable
  have hpacks : (keptCache clock options t (Place.ofWay way)
      (broughtTogether env [] options t (Place.ofWay way) cache).1).Packs env.packer :=
    Cache.Regular.packs ((broughtTogether_regular hregular).keepOnly _ _)
      ((hpackable (startCache_packable hstart)).keepOnly _ _) rfl env.packer
  have hscan := scan_of_together hroot (gathered_of_room hwell hcached hstart hroom hreadable)
  exact ⟨_, hscan.1.trans (runTogether_result fun _ => hpacks),
    perm_reportTogether hwell hcached hroom hreadable⟩

/-- A report has one result for each script that is found. -/
theorem mem_files_iff {exclude : List String} {files : List FileOutcome} (hwell : t.WellFormed)
    (hfiles : files.Perm ((find t top exclude).map fun place =>
      ⟨Place.text place, reportedAt room t top cache place⟩))
    (hplace : place ∈ find t top exclude) (result : FileResult) :
    ⟨Place.text place, result⟩ ∈ files ↔ reportedAt room t top cache place = result := by
  rw [hfiles.mem_iff, List.mem_map]
  constructor
  · rintro ⟨other, hother, heq⟩
    obtain ⟨htext, hresult⟩ := FileOutcome.mk.inj heq
    obtain rfl : other = place :=
      List.inj_on_of_nodup_map (nodup_text_find hwell top exclude) hother hplace htext
    exact hresult
  · rintro rfl
    exact ⟨place, hplace, rfl⟩

end Scan

end ScriptGraph
