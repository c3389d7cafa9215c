import ScriptGraph.Proofs.Cache.Packing
import ScriptGraph.Proofs.Scan.Visits
import ScriptGraph.Proofs.Tree.WellFormed

/-!
# One worker and several workers

Several workers go on when the visitor of a file fails, and report the file; one worker gives up the
scan.  Where no visitor fails, both have the same result and leave the same cache file.  Several
workers come to a report unless the packer has no room for the cache that is to be saved.
-/

namespace ScriptGraph

/-- No file is too long for its size to be packed. -/
def Tree.SizesFit (t : Tree) : Prop := ∀ place file, t.file? place = some file → file.size < 2 ^ 64

theorem Tree.SizesFit.remove {t : Tree} (h : t.SizesFit) (place : Place) :
    (t.remove place).SizesFit :=
  fun other file hfile => h other file (Tree.file?_of_file?_remove hfile)

theorem Tree.file?_of_openFile {t : Tree} {way : List String} {place : Place} {file : FileState}
    (h : t.openFile way = .ok (place, file)) : t.file? place = some file := by
  obtain ⟨⟨found, node⟩, hfind, hopen⟩ := exists_of_bind_eq_ok h
  obtain ⟨walked, -, hnode⟩ := exists_of_bind_eq_ok hfind
  cases node with
  | directory => simp at hopen
  | file state =>
      obtain ⟨rfl, rfl⟩ := Prod.mk.inj (Except.ok.inj hopen)
      split at hnode
      · rename_i node hsome
        obtain ⟨rfl, rfl⟩ := Prod.mk.inj (Except.ok.inj hnode)
        exact Tree.file?_eq_some_iff.mpr hsome
      · simp at hnode

namespace Scan

variable {top : Place} {mishaps : Mishaps} {useCache : Bool} {t : Tree}

/-! ### The entries of the cache -/

section Entries

variable {P : CacheEntry → Prop}

theorem absorbCompletion_all {s : State} (h : s.cache.All P) {c : Completion}
    (hc : ∀ visit entry, c.outcome = .ok visit → entryOf visit = some entry → P entry) :
    (absorbCompletion useCache s c).cache.All P := by
  unfold absorbCompletion
  split
  · rename_i visit houtcome
    unfold absorb
    dsimp only
    split
    · split
      · rename_i entry hentry
        exact h.put (hc visit entry houtcome hentry)
      · exact h
    · exact h
  · exact h

theorem absorbAll_all {s : State} (h : s.cache.All P) {completions : List Completion}
    (hall : ∀ c ∈ completions, ∀ visit entry, c.outcome = .ok visit → entryOf visit = some entry →
      P entry) : (absorbAll useCache s completions).cache.All P := by
  induction completions generalizing s with
  | nil => exact h
  | cons c completions ih =>
      obtain ⟨hfirst, hlater⟩ := List.forall_mem_cons.mp hall
      exact ih (absorbCompletion_all h hfirst) hlater

/-- The entry of a visit has the state of the file and the record of the result. -/
theorem exists_of_entryOf {visit : Visit} {entry : CacheEntry} (h : entryOf visit = some entry) :
    ∃ stamp, visit.stamp = some stamp ∧
      entry = ⟨.float stamp.mtime, .int stamp.size,
        ParsedScript.toRecord visit.outcome.result.script?, .text stamp.digest⟩ := by
  unfold entryOf at h
  split at h
  · simp at h
  · simp at h
  · rename_i stamp hstamp _
    split at h
    · exact ⟨stamp, hstamp, (Option.some.inj h).symm⟩
    · simp at h

theorem regular_of_entryOf {visit : Visit} {entry : CacheEntry} (h : entryOf visit = some entry) :
    entry.Regular := by
  obtain ⟨stamp, -, rfl⟩ := exists_of_entryOf h
  exact ⟨_, _, _, _, rfl⟩

end Entries

/-! ### Sizes -/

def Completion.Fits (c : Completion) : Prop :=
  ∀ visit stamp, c.outcome = .ok visit → visit.stamp = some stamp → stamp.size < 2 ^ 64

theorem Completion.Fits.packable {c : Completion} (h : c.Fits) (visit : Visit) (entry : CacheEntry)
    (houtcome : c.outcome = .ok visit) (hentry : entryOf visit = some entry) : entry.Packable := by
  obtain ⟨stamp, hstamp, rfl⟩ := exists_of_entryOf hentry
  have hsize := h visit stamp houtcome hstamp
  exact ⟨Value.packable_float _, Value.packable_int (by omega) (by omega),
    ParsedScript.packable_toRecord _, Value.packable_text _⟩

theorem startCache_packable {clock : Clock} {options : Options} {cache : Cache}
    (h : (startCache clock options t top).1 = .ok cache) : cache.Packable := by
  unfold startCache at h
  split at h
  · dsimp only at h
    split at h
    · simp at h
    · exact Except.ok.inj h ▸ Cache.all_empty _ clock.text
    · rename_i other hload
      exact Except.ok.inj h ▸ Cache.packable_of_load hload
  · exact Except.ok.inj h ▸ Cache.all_empty _ clock.text

theorem readScript_sizesFit (h : t.SizesFit) (file : ScriptFile) :
    (readScript t mishaps file).2.SizesFit := by
  unfold readScript
  dsimp only
  split
  · exact h
  · exact h
  · exact h
  · split
    · exact h.remove _
    · exact h
  · exact h

theorem stamp_of_visit {sight : Sight} {name : String} {visit : Visit} {stamp : Stamp}
    (h : (sight.visit name).1 = .ok visit) (hstamp : visit.stamp = some stamp) :
    sight.stamp = some stamp := by
  cases houtcome : (outcomeOf name sight.read).1 with
  | error error =>
      rw [Sight.visit_of_error houtcome] at h
      simp at h
  | ok outcome =>
      rw [Sight.visit_of_outcome houtcome] at h
      obtain rfl := Except.ok.inj h
      exact (Option.ite_none_left_eq_some.mp hstamp).2

theorem atStat_look (t : Tree) (mishaps : Mishaps) (file : ScriptFile) :
    (look t mishaps file).1.atStat =
      ((readScript t mishaps file).2.openFile file.way).toOption.map (·.2) := rfl

theorem look_fits (h : t.SizesFit) (file : ScriptFile) (name : String) :
    (⟨name, ((look t mishaps file).1.visit name).1⟩ : Completion).Fits := by
  intro visit stamp houtcome hstamp
  obtain ⟨seen, hseen, rfl⟩ := Option.map_eq_some_iff.mp (stamp_of_visit houtcome hstamp)
  rw [atStat_look] at hseen
  obtain ⟨⟨place, found⟩, hopen, rfl⟩ := Option.map_eq_some_iff.mp hseen
  cases hfile : (readScript t mishaps file).2.openFile file.way with
  | error fault => simp [hfile, Except.toOption] at hopen
  | ok opened =>
      obtain rfl : opened = (place, found) := by simpa [hfile, Except.toOption] using hopen
      exact readScript_sizesFit h file _ _ (Tree.file?_of_openFile hfile)

theorem visitAtOnce_fits (h : t.SizesFit) (places : List Place) :
    ∀ c ∈ (visitAtOnce top mishaps places t).1, c.Fits := by
  induction places generalizing t with
  | nil => simp [visitAtOnce]
  | cons place later ih =>
      rw [visitAtOnce_cons]
      refine List.forall_mem_cons.mpr ⟨look_fits h _ _, ih ?_⟩
      exact readScript_sizesFit h _

/-! ### The end of a scan -/

section Finish

variable {env : Environment} {packer : MessagePack.Packer} {clock : Clock} {options : Options}
  {found : List Place} {s : State}

theorem finish_result
    (h : options.useCache = true → ({ s.cache.keepOnly (found.map Place.text) with
      createdAt := .text clock.text } : Cache).Packs packer) :
    (finish packer clock options t top found s).result =
      .ok ⟨t.shown top, outcomes s, s.cachedCount, s.parsedCount⟩ := by
  unfold finish
  dsimp only
  split
  · rename_i hcached
    rw [(saveCache_eq ..).2, (h hcached).error_save]
  · rfl

/-- A scan comes to a report, or the packer has no room for the cache. -/
theorem finish_cases (h : s.cache.Packable) :
    (finish packer clock options t top found s).result =
        .ok ⟨t.shown top, outcomes s, s.cachedCount, s.parsedCount⟩ ∨
      (finish packer clock options t top found s).result = .error (.pack .tooDeep) ∧
        packer.room < ({ s.cache.keepOnly (found.map Place.text) with
          createdAt := .text clock.text } : Cache).toValue.depth := by
  unfold finish
  dsimp only
  split
  · rw [(saveCache_eq ..).2]
    split
    · rename_i error herror
      obtain ⟨rfl, hdeep⟩ := Cache.Packable.toBytes_eq_error (h.keepOnly _ _)
        (Value.packable_text _) (Cache.toBytes_of_error_save herror)
      exact .inr ⟨rfl, hdeep⟩
    · exact .inl rfl
  · exact .inl rfl

end Finish

/-! ### One worker and several workers -/

/-- The files that a scan has to visit. -/
def staleFiles (env : Environment) (clock : Clock) (options : Options) (t : Tree) (top : Place) :
    List Place :=
  match (startCache clock options t top).1 with
  | .error _ => []
  | .ok cache =>
      let sifted := siftFound env options t top cache
      if sifted.failure.isSome then [] else sifted.stale

theorem visitStale_in_turn {count : Int} {stale : List Place}
    (hfew : ¬ (1 < count ∧ parallelThreshold ≤ stale.length)) (hne : stale ≠ []) (s : State) :
    (visitStale top mishaps useCache count stale t s).1 =
        (visitInTurn top mishaps useCache stale t s).1 ∧
      (visitStale top mishaps useCache count stale t s).2.1 =
        (visitInTurn top mishaps useCache stale t s).2.1 := by
  have hturn : (1 < count && parallelThreshold ≤ stale.length) = false := by simpa using hfew
  simp [visitStale, hne, hturn]

theorem visitStale_at_once {count : Int} (hcount : 1 < count) {stale : List Place}
    (hmany : parallelThreshold ≤ stale.length) (s : State) :
    (visitStale top mishaps useCache count stale t s).1 =
        .ok (absorbAll useCache s (visitAtOnce top mishaps stale t).1) ∧
      (visitStale top mishaps useCache count stale t s).2.1 =
        (visitAtOnce top mishaps stale t).2 := by
  have hne : stale ≠ [] := by
    rintro rfl
    simp [parallelThreshold] at hmany
  simp [visitStale, hne, hcount, hmany]

section Gathered

variable {env : Environment} {clock : Clock} {options : Options} {cache : Cache}

theorem Starts.staleFiles_eq (h : Starts env clock options t top cache) :
    staleFiles env clock options t top = (siftFound env options t top cache).stale := by
  simp [staleFiles, h.startCache_eq, h.failure_eq]

theorem exists_starts_of_stale (h : staleFiles env clock options t top ≠ []) :
    ∃ cache, Starts env clock options t top cache := by
  unfold staleFiles at h
  split at h
  · simp at h
  · rename_i cache hstart
    refine ⟨cache, hstart, ?_⟩
    by_contra hfailure
    simp [Option.isSome_iff_ne_none.mpr hfailure] at h

theorem ne_nil_of_threshold_le {places : List Place} (h : parallelThreshold ≤ places.length) :
    places ≠ [] := by
  rintro rfl
  simp [parallelThreshold] at h

/-- What several workers bring together, and the tree then. -/
def broughtTogether (env : Environment) (mishaps : Mishaps) (options : Options) (t : Tree)
    (top : Place) (cache : Cache) : State × Tree :=
  let sifted := siftFound env options t top cache
  let visited := visitAtOnce top mishaps sifted.stale t
  (absorbAll options.useCache sifted.state visited.1, visited.2)

theorem broughtTogether_packable (hcache : cache.Packable) (hsizes : t.SizesFit) :
    (broughtTogether env mishaps options t top cache).1.cache.Packable :=
  absorbAll_all (siftAll_all CacheEntry.Packable.refresh hcache _) fun c hc =>
    (visitAtOnce_fits hsizes _ c hc).packable

theorem broughtTogether_regular (hcache : cache.Regular) :
    (broughtTogether env mishaps options t top cache).1.cache.Regular :=
  absorbAll_all (siftAll_all CacheEntry.Regular.refresh hcache _) fun _ _ _ _ _ =>
    regular_of_entryOf

theorem gathered_at_once (hstart : Starts env clock options t top cache)
    (hcount : 1 < (workers env options.workers).1)
    (hmany : parallelThreshold ≤ (staleFiles env clock options t top).length) :
    gathered env clock mishaps options t top =
      .ok (broughtTogether env mishaps options t top cache) := by
  rw [hstart.staleFiles_eq] at hmany
  obtain ⟨hresult, htree⟩ := @visitStale_at_once top mishaps options.useCache t _ hcount _ hmany
    (siftFound env options t top cache).state
  rw [hstart.gathered_eq]
  dsimp only
  rw [hresult, htree]
  rfl

theorem gathered_of_calm (hstart : Starts env clock options t top cache)
    (hcalm : ∀ seen ∈ sights top mishaps (staleFiles env clock options t top) t, ¬ seen.2.Raises) :
    gathered env clock mishaps options t top =
      .ok (broughtTogether env mishaps options t top cache) := by
  rw [hstart.staleFiles_eq] at hcalm
  obtain ⟨hresult, htree⟩ := @visitStale_eq top mishaps options.useCache _ _ hcalm
    (workers env options.workers).1 (siftFound env options t top cache).state
  rw [hstart.gathered_eq]
  dsimp only
  rw [hresult, htree]
  rfl

theorem gathered_of_raises (hstart : Starts env clock options t top cache)
    (hfew : ¬ (1 < (workers env options.workers).1 ∧
      parallelThreshold ≤ (staleFiles env clock options t top).length))
    (hraises : ∃ seen ∈ sights top mishaps (staleFiles env clock options t top) t, seen.2.Raises) :
    ∃ error, gathered env clock mishaps options t top = .error (.script error) := by
  rw [hstart.staleFiles_eq] at hraises hfew
  have hne : (siftFound env options t top cache).stale ≠ [] := by
    intro hnil
    rw [hnil] at hraises
    simp [sights] at hraises
  obtain ⟨error, herror⟩ := @exists_visitInTurn_error top mishaps options.useCache _ _ hraises
    (siftFound env options t top cache).state
  refine ⟨error, ?_⟩
  rw [hstart.gathered_eq]
  dsimp only
  rw [(visitStale_in_turn hfew hne _).1, herror]

end Gathered

section Scans

variable {env : Environment} {clock : Clock} {options : Options} {way : List String} {cache : Cache}

theorem scan_eq_scanAt (hroot : t.isDirectory (Place.ofWay way) = true) :
    scan env clock mishaps options t way =
      scanAt env clock mishaps options t (Place.ofWay way) := by
  rw [scan, if_pos hroot]

/-- A visitor that fails ends the scan of one worker. -/
theorem scan_in_turn_error (hroot : t.isDirectory (Place.ofWay way) = true)
    (hstart : Starts env clock options t (Place.ofWay way) cache)
    (hone : (workers env options.workers).1 ≤ 1)
    (hraises : ∃ seen ∈ sights (Place.ofWay way) mishaps
      (staleFiles env clock options t (Place.ofWay way)) t, seen.2.Raises) :
    ∃ error, (scan env clock mishaps options t way).result = .error (.script error) := by
  obtain ⟨error, hgathered⟩ := gathered_of_raises hstart (fun hmany => Int.not_lt.mpr hone hmany.1)
    hraises
  exact ⟨error, scan_eq_scanAt hroot ▸ scanAt_of_gathered_error hgathered⟩

/-- The report of a scan that gathers what several workers bring together. -/
def reportTogether (env : Environment) (mishaps : Mishaps) (options : Options) (t : Tree)
    (top : Place) (cache : Cache) : Report :=
  let together := broughtTogether env mishaps options t top cache
  ⟨together.2.shown top, outcomes together.1, together.1.cachedCount, together.1.parsedCount⟩

/-- The end of a scan that gathers what several workers bring together. -/
def runTogether (env : Environment) (clock : Clock) (mishaps : Mishaps) (options : Options)
    (t : Tree) (top : Place) (cache : Cache) : Run :=
  let together := broughtTogether env mishaps options t top cache
  finish env.packer clock options together.2 top (find t top options.exclude) together.1

theorem scan_of_together (hroot : t.isDirectory (Place.ofWay way) = true)
    (hgathered : gathered env clock mishaps options t (Place.ofWay way) =
      .ok (broughtTogether env mishaps options t (Place.ofWay way) cache)) :
    (scan env clock mishaps options t way).result =
        (runTogether env clock mishaps options t (Place.ofWay way) cache).result ∧
      (scan env clock mishaps options t way).tree =
        (runTogether env clock mishaps options t (Place.ofWay way) cache).tree := by
  rw [scan_eq_scanAt hroot]
  exact scanAt_of_gathered_ok hgathered

theorem runTogether_result {top : Place}
    (h : options.useCache = true → (keptCache clock options t top
      (broughtTogether env mishaps options t top cache).1).Packs env.packer) :
    (runTogether env clock mishaps options t top cache).result =
      .ok (reportTogether env mishaps options t top cache) :=
  finish_result h

/-- Every packer has room for what scripts leave in the cache. -/
theorem runTogether_of_regular {top : Place} (hsizes : t.SizesFit)
    (hstart : (startCache clock options t top).1 = .ok cache) (hregular : cache.Regular) :
    (runTogether env clock mishaps options t top cache).result =
      .ok (reportTogether env mishaps options t top cache) := by
  have hpackable : (broughtTogether env mishaps options t top cache).1.cache.Packable :=
    broughtTogether_packable (startCache_packable hstart) hsizes
  exact runTogether_result fun _ => Cache.Regular.packs
    ((broughtTogether_regular hregular).keepOnly _ _) (hpackable.keepOnly _ _) rfl env.packer

/-- Whatever several workers bring together, a report comes of it, or the packer has no room for the
cache that is to be saved. -/
theorem runTogether_cases {top : Place} (hsizes : t.SizesFit)
    (hstart : (startCache clock options t top).1 = .ok cache) :
    (runTogether env clock mishaps options t top cache).result =
        .ok (reportTogether env mishaps options t top cache) ∨
      (runTogether env clock mishaps options t top cache).result = .error (.pack .tooDeep) ∧
        env.packer.room < (keptCache clock options t top
          (broughtTogether env mishaps options t top cache).1).toValue.depth :=
  finish_cases (broughtTogether_packable (startCache_packable hstart) hsizes)

/-! The number of workers that is asked for has no part in what they bring together. -/

section Asked

variable {env' : Environment} {asked : Option Int} {top : Place}
  (hroom : env'.stackRoom = env.stackRoom)

include hroom

theorem siftFound_of_room (t : Tree) (top : Place) (cache : Cache) :
    siftFound env' { options with workers := asked } t top cache =
      siftFound env options t top cache := by
  simp only [siftFound, hroom]

theorem Starts.of_room (h : Starts env clock options t top cache) :
    Starts env' clock { options with workers := asked } t top cache :=
  ⟨h.startCache_eq, siftFound_of_room hroom t top cache ▸ h.failure_eq⟩

theorem Starts.staleFiles_of_room (h : Starts env clock options t top cache) :
    staleFiles env' clock { options with workers := asked } t top =
      staleFiles env clock options t top := by
  rw [(h.of_room hroom).staleFiles_eq, siftFound_of_room hroom, h.staleFiles_eq]

theorem broughtTogether_of_room (mishaps : Mishaps) (t : Tree) (top : Place) (cache : Cache) :
    broughtTogether env' mishaps { options with workers := asked } t top cache =
      broughtTogether env mishaps options t top cache := by
  simp only [broughtTogether, siftFound_of_room hroom]

theorem runTogether_of_room (hpacker : env'.packer = env.packer) (clock : Clock)
    (mishaps : Mishaps) (t : Tree) (top : Place) (cache : Cache) :
    runTogether env' clock mishaps { options with workers := asked } t top cache =
      runTogether env clock mishaps options t top cache := by
  simp only [runTogether, broughtTogether_of_room hroom, hpacker]
  rfl

end Asked

end Scans

/-- One worker and several workers that have the same stack and the same packer.  They have the same
result and leave the same tree exactly if no visitor fails, and otherwise one worker has no result.
Several workers come to a report, unless the packer has no room for the cache that is to be saved. -/
theorem scan_in_turn_eq_at_once_iff {env env' : Environment} {clock : Clock} {options : Options}
    {asked : Option Int} {way : List String} (hroot : t.isDirectory (Place.ofWay way) = true)
    (hsizes : t.SizesFit) (hroom : env'.stackRoom = env.stackRoom)
    (hpacker : env'.packer = env.packer) (hone : (workers env options.workers).1 ≤ 1)
    (hmore : 1 < (workers env' asked).1)
    (hmany : parallelThreshold ≤ (staleFiles env clock options t (Place.ofWay way)).length) :
    let one := scan env clock mishaps options t way
    let several := scan env' clock mishaps { options with workers := asked } t way
    let seen := sights (Place.ofWay way) mishaps (staleFiles env clock options t (Place.ofWay way)) t
    (one.result = several.result ∧ one.tree = several.tree ↔ ∀ file ∈ seen, ¬ file.2.Raises) ∧
    ((∃ file ∈ seen, file.2.Raises) → ∃ error, one.result = .error (.script error)) ∧
    ((∃ report, several.result = .ok report) ∨
      several.result = .error (.pack .tooDeep) ∧
        ∃ kept ∈ savedCache? env' clock mishaps { options with workers := asked } t
          (Place.ofWay way), env.packer.room < kept.toValue.depth) := by
  intro one several seen
  obtain ⟨cache, hstart⟩ := exists_starts_of_stale (ne_nil_of_threshold_le hmany)
  have hmany' : parallelThreshold ≤
      (staleFiles env' clock { options with workers := asked } t (Place.ofWay way)).length := by
    rwa [hstart.staleFiles_of_room hroom]
  have hgathered := @gathered_at_once _ mishaps t env' clock { options with workers := asked } cache
    (hstart.of_room hroom) hmore hmany'
  obtain ⟨hresult', htree'⟩ := scan_of_together hroot hgathered
  rw [runTogether_of_room hroom hpacker] at hresult' htree'
  have hcases := @runTogether_cases mishaps t env clock options cache (Place.ofWay way) hsizes
    hstart.startCache_eq
  have hfails := @scan_in_turn_error mishaps t env clock options way cache hroot hstart hone
  refine ⟨⟨?_, ?_⟩, hfails, ?_⟩
  · rintro ⟨hresult, -⟩ file hfile hraises
    obtain ⟨error, herror⟩ := hfails ⟨file, hfile, hraises⟩
    rw [show one.result = _ from herror, show several.result = _ from hresult'] at hresult
    rcases hcases with hok | ⟨hpack, -⟩
    · simp [hok] at hresult
    · simp [hpack] at hresult
  · intro hcalm
    obtain ⟨hresult, htree⟩ := scan_of_together hroot (gathered_of_calm hstart hcalm)
    exact ⟨hresult.trans hresult'.symm, htree.trans htree'.symm⟩
  · rcases hcases with hok | ⟨hpack, hdeep⟩
    · exact .inl ⟨_, hresult'.trans hok⟩
    · refine .inr ⟨hresult'.trans hpack, _, savedCache?_of_ok hgathered, ?_⟩
      rwa [broughtTogether_of_room hroom]

/-! ### Fifty scripts -/

namespace FiftyScripts

def others : List Place := (List.range 49).map fun n => [toString (n + 10) ++ ".sql"]

/-- A directory of fifty scripts.  All but the first one are empty. -/
def tree (source : String) : Tree where
  location := "/scripts"
  nodes := (["0.sql"], .file ⟨Utf8.encode source.toList, .ofRatio 1 1⟩) ::
    others.map fun place => (place, .file ⟨[], .ofRatio 1 1⟩)

/-- Without a cache, so that all scripts are stale. -/
def options (count : Int) : Options := { useCache := false, workers := some count }

def clock : Clock := ⟨"2024-01-01T00:00:00", .ofRatio 1 1⟩

theorem find_tree (source : String) : find (tree source) [] [] = ["0.sql"] :: others := by
  have hbelow : (tree source).filesBelow [] = ["0.sql"] :: others := rfl
  have hwanted : (["0.sql"] :: others).filter (isWanted []) = ["0.sql"] :: others := by
    decide +kernel
  rw [find, hbelow, hwanted]
  exact List.mergeSort_of_pairwise (by decide +kernel)

theorem starts (source : String) (count : Int) :
    Starts {} clock (options count) (tree source) [] (.empty clock.text) := ⟨rfl, rfl⟩

theorem staleFiles_tree (source : String) (count : Int) :
    staleFiles {} clock (options count) (tree source) [] = ["0.sql"] :: others :=
  find_tree source

theorem threshold_le (source : String) (count : Int) :
    parallelThreshold ≤ (staleFiles {} clock (options count) (tree source) []).length := by
  rw [staleFiles_tree]
  decide +kernel

theorem sizesFit {source : String} (h : (Utf8.encode source.toList).length < 2 ^ 64) :
    (tree source).SizesFit := by
  intro place file hfile
  have hmem := Tree.mem_nodes_of_node? (Tree.file?_eq_some_iff.mp hfile) (Tree.ne_nil_of_file? hfile)
  rcases List.mem_cons.mp hmem with heq | hmem
  · obtain ⟨-, rfl⟩ : place = ["0.sql"] ∧ file = _ := by simpa using heq
    exact h
  · obtain ⟨other, -, heq⟩ := List.mem_map.mp hmem
    obtain ⟨-, rfl⟩ : other = place ∧ _ = file := by simpa using heq
    decide

/-- The visitor of the first script fails if the script cannot be parsed. -/
theorem exists_raises {source : String} {count : Int} {error : Script.DefinitionError}
    (h : Script.parse (String.ofList (Script.textOfBytes (Utf8.encode source.toList))) =
      .error error) :
    ∃ seen ∈ sights [] [] (staleFiles {} clock (options count) (tree source) []) (tree source),
      seen.2.Raises := by
  rw [staleFiles_tree, sights_cons]
  exact ⟨_, List.mem_cons_self, .inr ⟨_, error, rfl, h⟩⟩

end FiftyScripts

section

open FiftyScripts

theorem scan_in_turn_eq_at_once_iff_view :
    let t := tree "CREATE VIEW v AS SELECT 1"
    let one := scan {} clock [] (options 1) t []
    let several := scan {} clock [] (options 2) t []
    let seen := sights (Place.ofWay []) [] (staleFiles {} clock (options 1) t (Place.ofWay [])) t
    t.isDirectory (Place.ofWay []) = true ∧ t.SizesFit ∧
    (workers {} (options 1).workers).1 ≤ 1 ∧ 1 < (workers {} (some 2)).1 ∧
    parallelThreshold ≤ (staleFiles {} clock (options 1) t (Place.ofWay [])).length ∧
    (one.result = several.result ∧ one.tree = several.tree ↔ ∀ file ∈ seen, ¬ file.2.Raises) ∧
    ((∃ file ∈ seen, file.2.Raises) → ∃ error, one.result = .error (.script error)) ∧
    ((∃ report, several.result = .ok report) ∨
      several.result = .error (.pack .tooDeep) ∧
        ∃ kept ∈ savedCache? {} clock [] (options 2) t (Place.ofWay []),
          512 < kept.toValue.depth) := by
  have hsizes : (tree "CREATE VIEW v AS SELECT 1").SizesFit := sizesFit (by decide +kernel)
  have hone : (workers {} (options 1).workers).1 ≤ 1 := by decide
  have hmore : 1 < (workers {} (some 2)).1 := by decide
  exact ⟨rfl, hsizes, hone, hmore, threshold_le _ 1,
    scan_in_turn_eq_at_once_iff rfl hsizes rfl rfl hone hmore (threshold_le _ 1)⟩

/-- A definition may have a keyword that stands for no kind of object.  Then one worker has no
result, and several workers have one. -/
theorem scan_in_turn_fails_at_once_returns :
    parallelThreshold ≤
      (staleFiles {} clock (options 1) (tree "CREATE VİEW v AS SELECT 1") (Place.ofWay [])).length ∧
    (∃ error, (scan {} clock [] (options 1) (tree "CREATE VİEW v AS SELECT 1") []).result =
      .error (.script error)) ∧
    ∃ report, (scan {} clock [] (options 2) (tree "CREATE VİEW v AS SELECT 1") []).result =
      .ok report := by
  have hparse : Script.parse (String.ofList (Script.textOfBytes
      (Utf8.encode "CREATE VİEW v AS SELECT 1".toList))) = .error (.unknownKind "VİEW") := by
    decide +kernel
  have hone : (workers {} (options 1).workers).1 ≤ 1 := by decide
  have hmore : 1 < (workers {} (options 2).workers).1 := by decide
  have hgathered := @gathered_at_once (Place.ofWay []) [] _ {} _ _ _
    (starts "CREATE VİEW v AS SELECT 1" 2) hmore (threshold_le _ 2)
  have hresult := (scan_of_together rfl hgathered).1.trans
    (runTogether_result fun hcached => by simp [options] at hcached)
  exact ⟨threshold_le _ 1, scan_in_turn_error rfl (starts _ 1) hone (exists_raises hparse),
    _, hresult⟩

end

end Scan

end ScriptGraph
