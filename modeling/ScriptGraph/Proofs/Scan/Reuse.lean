import ScriptGraph.Proofs.Cache.Packing
import ScriptGraph.Proofs.Cache.Records
import ScriptGraph.Proofs.Scan.Results

/-!
# Reusing what is true

Every entry of a cache describes a file that its path has shown: the time, the size, the record and
the digest all belong to one content.  A scan keeps the cache so, and what it reuses is what parsing
the file would give.  This rests on three things about the files that were ever shown: none of them
fails to be parsed, no two contents have the same digest, and no path shows two contents with the
same time and the same size.
-/

namespace ScriptGraph

def CacheEntry.ofFile (file : FileState) (parsed : Option ParsedScript) : CacheEntry :=
  ⟨.float file.mtime, .int file.size, ParsedScript.toRecord parsed, .text file.digest⟩

/-- The files that were shown, by their places below the root of the scripts. -/
abbrev Past := Place → FileState → Prop

namespace Past

/-- What is asked of the files that were shown. -/
structure Fair (past : Past) : Prop where
  ne_top : ∀ place file, past place file → place ≠ []
  names : ∀ place file, past place file → ∀ name ∈ place, '/' ∉ name.toList
  parses : ∀ place file, past place file → ∃ parsed, file.parse = .ok parsed
  /-- Different contents have different digests. -/
  digests : ∀ place place' file file', past place file → past place' file' →
    file.digest = file'.digest → file.bytes = file'.bytes
  /-- A path with the same time and the same size has the same content. -/
  stamps : ∀ place file file', past place file → past place file' →
    file.mtime.eqValue file'.mtime = true → file.size = file'.size → file.bytes = file'.bytes

/-- An entry describes a file that its path has shown. -/
def Describes (past : Past) (key : Key) (entry : CacheEntry) : Prop :=
  ∃ place file parsed, key = .text (Place.text place) ∧ past place file ∧
    file.parse = .ok parsed ∧ entry = .ofFile file parsed

end Past

/-- All entries of a cache of the current version describe files that were shown. -/
structure Cache.Sound (past : Past) (cache : Cache) : Prop where
  version : cache.version = currentVersion
  describes : ∀ key entry, (key, entry) ∈ cache.files → past.Describes key entry

variable {past : Past} {place : Place} {file : FileState}

/-! ### Entries -/

theorem FileState.parse_eq {file file' : FileState} (h : file.bytes = file'.bytes) :
    file.parse = file'.parse := by rw [parse, parse, h]

theorem Past.Describes.refresh (hfair : past.Fair) (hpast : past place file) {entry fresh : CacheEntry}
    (h : past.Describes (.text (Place.text place)) entry) (hfresh : entry.refresh? file = some fresh) :
    past.Describes (.text (Place.text place)) fresh ∧
      ∃ parsed, file.parse = .ok parsed ∧ fresh.record = ParsedScript.toRecord parsed := by
  obtain ⟨place', old, parsed, hkey, hold, hparse, rfl⟩ := h
  obtain rfl : place = place' :=
    Place.eq_of_text_eq (hfair.ne_top _ _ hpast) (hfair.ne_top _ _ hold) (hfair.names _ _ hpast)
      (hfair.names _ _ hold) (Key.text.inj hkey)
  unfold CacheEntry.refresh? at hfresh
  split at hfresh
  · simp at hfresh
  · rename_i hsizes
    have hsize : file.size = old.size :=
      Int.ofNat_inj.mp (by simpa [CacheEntry.ofFile, Value.eqInt] using hsizes)
    split at hfresh
    · -- the time and the size are those of the entry
      rename_i htime
      have hbytes : file.bytes = old.bytes := hfair.stamps place file old hpast hold htime hsize
      obtain rfl : CacheEntry.ofFile old parsed = fresh := by simpa using hfresh
      exact ⟨⟨place, old, parsed, rfl, hold, hparse, rfl⟩, parsed,
        (FileState.parse_eq hbytes).trans hparse, rfl⟩
    · split at hfresh
      · -- the digest is that of the entry, which takes the new time over
        rename_i hdigest
        have hsame : file.digest = old.digest := by
          have hboth : old.digest ≠ "" ∧ file.digest = old.digest := by
            simpa [CacheEntry.hasDigestOf, CacheEntry.ofFile] using hdigest
          exact hboth.2
        have hbytes : file.bytes = old.bytes := hfair.digests _ _ file old hpast hold hsame
        have hparsed : file.parse = .ok parsed := (FileState.parse_eq hbytes).trans hparse
        obtain rfl : CacheEntry.ofFile file parsed = fresh := by
          rw [← Option.some.inj hfresh]
          simp [CacheEntry.ofFile, hsize, hsame]
        exact ⟨⟨place, file, parsed, rfl, hpast, hparsed, rfl⟩, parsed, hparsed, rfl⟩
      · simp at hfresh

theorem Cache.Sound.put {cache : Cache} (h : cache.Sound past) {name : String} {entry : CacheEntry}
    (hentry : past.Describes (.text name) entry) : (cache.put name entry).Sound past := by
  refine ⟨h.version, fun key other hmem => ?_⟩
  rcases Entries.mem_of_mem_put hmem with heq | hold
  · obtain ⟨rfl, rfl⟩ := Prod.mk.inj heq
    exact hentry
  · exact h.describes key other hold

/-- What is reused of a sound cache is what parsing the file gives. -/
theorem Cache.Sound.refresh (hfair : past.Fair) (hpast : past place file) {cache fresh : Cache}
    (h : cache.Sound past) (hfresh : cache.refresh? (Place.text place) (some file) = some fresh) :
    fresh.Sound past ∧ ∃ parsed, file.parse = .ok parsed ∧
      ((fresh.get? (Place.text place)).map (·.record)).getD .null =
        ParsedScript.toRecord parsed := by
  unfold Cache.refresh? at hfresh
  cases hget : cache.get? (Place.text place) with
  | none => simp [hget] at hfresh
  | some entry =>
      cases hentry : entry.refresh? file with
      | none => simp [hget, hentry] at hfresh
      | some renewed =>
          obtain rfl : cache.put (Place.text place) renewed = fresh := by
            simpa [hget, hentry] using hfresh
          have hold : past.Describes (.text (Place.text place)) entry :=
            h.describes _ _ (Entries.mem_of_lookup_eq_some hget)
          obtain ⟨hrenewed, parsed, hparse, hrecord⟩ := hold.refresh hfair hpast hentry
          refine ⟨h.put hrenewed, parsed, hparse, ?_⟩
          rw [Cache.get?_put, if_pos rfl]
          exact hrecord

theorem Cache.Sound.regular {cache : Cache} (h : cache.Sound past) : cache.Regular := by
  intro key entry hmem
  obtain ⟨_, file, parsed, -, -, -, rfl⟩ := h.describes key entry hmem
  exact ⟨file.mtime, file.size, parsed, file.digest, rfl⟩

theorem Cache.Sound.keepOnly {cache : Cache} (h : cache.Sound past) (paths : List String)
    (createdAt : Value) :
    ({ cache.keepOnly paths with createdAt := createdAt } : Cache).Sound past :=
  ⟨h.version, fun key entry hmem => h.describes key entry (List.mem_of_mem_filter hmem)⟩

/-- The record of a script that was parsed stands for the result. -/
theorem FileState.ofRecord_parse (room : Nat) {parsed : Option ParsedScript}
    (h : file.parse = .ok parsed) :
    ParsedScript.ofRecord room (ParsedScript.toRecord parsed) = .ok parsed :=
  ParsedScript.ofRecord_toRecord_of_parse room h

/-! ### Sifting -/

namespace Scan

variable {room : Nat} {t : Tree} {top : Place}

/-- A look at a sound cache either leaves a file to be visited or enters what the file holds. -/
theorem SiftStep.spec {s s' : Sifted} (h : SiftStep room t top s place s') (hfair : past.Fair)
    (hfile : t.file? (top ++ place) = some file) (hpast : past place file) (hgoes : s.failure = none)
    (hsound : s.state.cache.Sound past) :
    s'.failure = none ∧ s'.state.cache.Sound past ∧
      (s'.stale = s.stale ++ [place] ∧ s'.state.results = s.state.results ∨
        s'.stale = s.stale ∧ s'.state.results =
          Entries.put (Place.text place) (resultAt t top place) s.state.results) := by
  -- what is read of a fresh entry is what the file holds
  have hreads : ∀ {fresh : Cache},
      s.state.cache.refresh? (Place.text place) (t.file? (top ++ place)) = some fresh →
      fresh.Sound past ∧ ∃ parsed, Holds t top place file parsed ∧ ParsedScript.ofRecord room
        (((fresh.get? (Place.text place)).map (·.record)).getD .null) = .ok parsed := by
    intro fresh hfresh
    obtain ⟨hsound, parsed, hparse, hrecord⟩ := hsound.refresh hfair hpast (hfile ▸ hfresh)
    exact ⟨hsound, parsed, ⟨hfile, hparse⟩, hrecord ▸ FileState.ofRecord_parse room hparse⟩
  cases h with
  | ended h => simp [h] at hgoes
  | missed _ _ => exact ⟨hgoes, hsound, .inl ⟨rfl, rfl⟩⟩
  | reused _ hfresh hread =>
      obtain ⟨hsound, parsed, hholds, hparsed⟩ := hreads hfresh
      obtain rfl := Except.ok.inj (hread.symm.trans hparsed)
      exact ⟨hgoes, hsound, .inr ⟨rfl, by rw [hholds.resultAt_eq]⟩⟩
  | discarded _ hfresh hread _ =>
      obtain ⟨-, parsed, -, hparsed⟩ := hreads hfresh
      simp [hparsed] at hread
  | failed _ hfresh hread _ =>
      obtain ⟨-, parsed, -, hparsed⟩ := hreads hfresh
      simp [hparsed] at hread

/-- After a look at a sound cache for every file, the results together with those of the files that
are left to be visited are the results of all files. -/
theorem foldl_sift_spec (hfair : past.Fair) {places : List Place}
    (hpast : ∀ place ∈ places, ∃ file, t.file? (top ++ place) = some file ∧ past place file)
    {s : Sifted} (hgoes : s.failure = none) (hsound : s.state.cache.Sound past)
    (hnodup : (s.state.results.map Prod.fst ++ places.map Place.text).Nodup) :
    (places.foldl (sift room t top) s).failure = none ∧
      (places.foldl (sift room t top) s).state.cache.Sound past ∧
      ((places.foldl (sift room t top) s).state.results ++
          (places.foldl (sift room t top) s).stale.map (entryAt t top)).Perm
        (s.state.results ++ s.stale.map (entryAt t top) ++ places.map (entryAt t top)) ∧
      (places.foldl (sift room t top) s).stale ⊆ s.stale ++ places := by
  induction places generalizing s with
  | nil => simp [hgoes, hsound]
  | cons place later ih =>
      obtain ⟨⟨file, hfile, hfirst⟩, hlater⟩ := List.forall_mem_cons.mp hpast
      rw [List.foldl_cons]
      obtain ⟨hgoes', hstep, hcase⟩ :=
        (siftStep room t top s place).spec hfair hfile hfirst hgoes hsound
      rcases hcase with ⟨hstale, hresults⟩ | ⟨hstale, hresults⟩
      · have hrest : ((sift room t top s place).state.results.map Prod.fst ++
            later.map Place.text).Nodup := by
          rw [hresults]
          exact hnodup.sublist (by simp)
        obtain ⟨hfailure, hcache, hperm, hsubset⟩ := ih hlater hgoes' hstep hrest
        refine ⟨hfailure, hcache, ?_, ?_⟩
        · rw [hresults, hstale] at hperm
          simpa using hperm
        · rw [hstale] at hsubset
          simpa using hsubset
      · have hfresh : Place.text place ∉ s.state.results.map Prod.fst := by
          intro hmem
          exact (List.nodup_append.mp hnodup).2.2 _ hmem _ List.mem_cons_self rfl
        rw [Entries.put_eq_append hfresh] at hresults
        have hrest : ((sift room t top s place).state.results.map Prod.fst ++
            later.map Place.text).Nodup := by
          rw [hresults]
          simpa using hnodup
        obtain ⟨hfailure, hcache, hperm, hsubset⟩ := ih hlater hgoes' hstep hrest
        refine ⟨hfailure, hcache, hperm.trans ?_, ?_⟩
        · rw [hresults, hstale]
          simp only [List.append_assoc, List.singleton_append, List.map_cons]
          exact List.perm_middle.symm.append_left _
        · rw [hstale] at hsubset
          intro other hother
          rcases List.mem_append.mp (hsubset hother) with hmem | hmem
          · exact List.mem_append_left _ hmem
          · exact List.mem_append_right _ (List.mem_cons_of_mem _ hmem)

theorem siftAll_spec (hfair : past.Fair) {found : List Place}
    (hpast : ∀ place ∈ found, ∃ file, t.file? (top ++ place) = some file ∧ past place file)
    (hnodup : (found.map Place.text).Nodup) {cache : Cache} (hsound : cache.Sound past)
    (useCache : Bool) :
    (siftAll room t top useCache cache found).failure = none ∧
      (siftAll room t top useCache cache found).state.cache.Sound past ∧
      ((siftAll room t top useCache cache found).state.results ++
          (siftAll room t top useCache cache found).stale.map (entryAt t top)).Perm
        (found.map (entryAt t top)) ∧
      (siftAll room t top useCache cache found).stale ⊆ found := by
  cases useCache with
  | false => exact ⟨rfl, hsound, .refl _, List.Subset.refl _⟩
  | true =>
      have hspec := @foldl_sift_spec _ room t top hfair found hpast { state := ⟨[], cache, 0, 0⟩ } rfl
        hsound (by simpa using hnodup)
      simpa [siftAll] using hspec

/-! ### Visits and the whole scan -/

theorem entryOf_visitOf (name : String) (file : FileState) (parsed : Option ParsedScript) :
    entryOf (visitOf name file parsed) =
      if file.mtime.isPositive then some (.ofFile file parsed) else none := by
  cases parsed <;> rfl

theorem absorb_sound {s : State} (hsound : s.cache.Sound past) (hpast : past place file)
    {parsed : Option ParsedScript} (hparse : file.parse = .ok parsed) (useCache : Bool) :
    (absorb useCache s (visitOf (Place.text place) file parsed)).cache.Sound past := by
  have hentry : past.Describes (.text (Place.text place)) (.ofFile file parsed) :=
    ⟨place, file, parsed, rfl, hpast, hparse, rfl⟩
  simp only [absorb, entryOf_visitOf]
  split
  · split
    · rename_i entry hkept
      obtain ⟨-, hsome⟩ := Option.ite_none_right_eq_some.mp hkept
      obtain rfl := Option.some.inj hsome
      exact hsound.put hentry
    · exact hsound
  · exact hsound

theorem absorbAll_sound {s : State} (hsound : s.cache.Sound past) {completions : List Completion}
    (h : ∀ c ∈ completions, ∃ place file parsed, past place file ∧ file.parse = .ok parsed ∧
      c.outcome = .ok (visitOf (Place.text place) file parsed)) (useCache : Bool) :
    (absorbAll useCache s completions).cache.Sound past := by
  induction completions generalizing s with
  | nil => exact hsound
  | cons c completions ih =>
      obtain ⟨⟨place, file, parsed, hpast, hparse, houtcome⟩, hlater⟩ := List.forall_mem_cons.mp h
      refine ih ?_ hlater
      rw [absorbCompletion, houtcome]
      exact absorb_sound hsound hpast hparse useCache

/-- A scan that starts with a sound cache gathers what the files hold, whatever it reuses and however
many workers it has, and it keeps the cache sound. -/
theorem gathered_spec (hwell : t.WellFormed) (hfair : past.Fair)
    (hpast : ∀ place file, isWanted [] place = true → t.file? (top ++ place) = some file →
      past place file)
    {env : Environment} {clock : Clock} {options : Options} {cache : Cache}
    (hstart : (startCache clock options t top).1 = .ok cache) (hsound : cache.Sound past) :
    ∃ s, gathered env clock [] options t top = .ok (s, t) ∧
      s.results.Perm ((find t top options.exclude).map (entryAt t top)) ∧ s.cache.Sound past := by
  have hshown : ∀ place ∈ find t top options.exclude, ∃ file,
      t.file? (top ++ place) = some file ∧ past place file := by
    intro place hplace
    obtain ⟨hwanted, file, hfile⟩ := (mem_find_iff hwell).mp hplace
    exact ⟨file, hfile, hpast place file (isWanted_nil hwanted) hfile⟩
  have hnodup := nodup_text_find hwell top options.exclude
  obtain ⟨hfailure, hcache, hperm, hstale⟩ := @siftAll_spec _ env.stackRoom _ _ hfair _ hshown hnodup
    _ hsound options.useCache
  rw [← siftFound] at hfailure hcache hperm hstale
  have hstarts : Starts env clock options t top cache := ⟨hstart, hfailure⟩
  generalize hsifted : siftFound env options t top cache = sifted at hcache hperm hstale
  have hholds : ∀ place ∈ sifted.stale, ∃ file parsed, Holds t top place file parsed := by
    intro place hplace
    obtain ⟨file, hfile, hfirst⟩ := hshown place (hstale hplace)
    obtain ⟨parsed, hparse⟩ := hfair.parses place file hfirst
    exact ⟨file, parsed, hfile, hparse⟩
  obtain ⟨htree, hcalm, hentries, hvisits⟩ := visitAtOnce_eq hwell hholds
  refine ⟨absorbAll options.useCache sifted.state (visitAtOnce top [] sifted.stale t).1, ?_, ?_, ?_⟩
  · rw [hstarts.gathered_eq, hsifted]
    dsimp only
    rw [(visitStale_eq hcalm _ _).1, (visitStale_eq hcalm _ _).2, htree]
  · have hkeys : (sifted.state.results.map Prod.fst ++
        (visitAtOnce top [] sifted.stale t).1.map fun c => c.entry.1).Nodup := by
      have hnames := (hperm.map Prod.fst).nodup_iff.mpr (by rwa [List.map_map])
      rwa [← hentries, List.map_append, List.map_map] at hnames
    rw [absorbAll_results hkeys, hentries]
    exact hperm
  · refine absorbAll_sound hcache (fun c hc => ?_) options.useCache
    obtain ⟨place, hplace, file, parsed, hhold, houtcome⟩ := hvisits c hc
    obtain ⟨file', hfile', hfirst⟩ := hshown place (hstale hplace)
    obtain rfl : file' = file := Option.some.inj (hfile'.symm.trans hhold.file_eq)
    exact ⟨place, file', parsed, hfirst, hhold.parse_eq, houtcome⟩

end Scan

end ScriptGraph
