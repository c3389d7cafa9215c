import ScriptGraph.Proofs.Cache.Storage
import ScriptGraph.Proofs.Scan.Reports

/-!
# Scans with a damaged cache file

Whatever the bytes of a cache file are, loading it gives no cache or a cache of the current version,
with one exception: a value that is no map where a map is looked into.  It is met in two places, and in
both it ends the scan.  A scan of readable scripts comes to its report otherwise, unless values inside
the entries lie too deep: for the stack when what is wrong with a record is to be told, or for the
packer when the cache is saved.
-/

namespace ScriptGraph

def Value.IsMap (v : Value) : Prop := ∃ entries, v = .map entries

namespace Cache

/-- A value of a shape in which no cache is looked for. -/
inductive Misshapen : Value → Prop
  | notMap {v : Value} (h : ¬ v.IsMap) : Misshapen v
  /-- The version is looked at first, so the files of another version may have any shape. -/
  | filesNotMap {fields : List (Key × Value)} {files : Value}
      (hversion : Value.lookup (.text "version") fields = some (.text currentVersion))
      (hfiles : Value.lookup (.text "files") fields = some files) (h : ¬ files.IsMap) :
      Misshapen (.map fields)

/-- Bytes that stand for a value of a shape in which no cache is looked for. -/
def Breaks (bytes : List UInt8) : Prop :=
  ∃ v, MessagePack.unpack? bytes = some v ∧ Misshapen v

/-! ### Loading -/

theorem isCurrentVersion_iff {version : Option Value} :
    isCurrentVersion version = true ↔ version = some (.text currentVersion) := by
  unfold isCurrentVersion
  split
  · simp
  · rename_i hother
    simp only [Bool.false_eq_true, false_iff]
    rintro rfl
    exact hother _ rfl

/-- A map of the current version with a map of files is a cache, or lacks something. -/
theorem ofValue_map {fields entries : List (Key × Value)}
    (hversion : Value.lookup (.text "version") fields = some (.text currentVersion))
    (hfiles : (Value.lookup (.text "files") fields).getD (.map []) = .map entries) :
    (∃ cache, ofValue (.map fields) = .ok (some cache) ∧ cache.version = currentVersion) ∨
      ∃ error, ofValue (.map fields) = .error (.access error) := by
  simp only [ofValue, isCurrentVersion_iff.mpr hversion, if_true, hfiles]
  cases hentries : entriesOfValues entries with
  | error error => exact .inr ⟨error, rfl⟩
  | ok files =>
      cases hcreated : (Value.map fields).get "created_at" with
      | error error => exact .inr ⟨error, rfl⟩
      | ok createdAt => exact .inl ⟨_, rfl, rfl⟩

/-- Loading a value of another shape gives no cache or a cache of the current version. -/
theorem cache?_loadValue_of_shape {v : Value} (h : ¬ Misshapen v) :
    (loadValue v).cache? = .ok none ∨
      ∃ cache, (loadValue v).cache? = .ok (some cache) ∧ cache.version = currentVersion := by
  have hmap : v.IsMap := not_not.mp fun hnot => h (.notMap hnot)
  obtain ⟨fields, rfl⟩ := hmap
  unfold loadValue
  by_cases hversion : Value.lookup (.text "version") fields = some (.text currentVersion)
  · have hfiles : ∃ entries,
        (Value.lookup (.text "files") fields).getD (.map []) = .map entries := by
      cases hlookup : Value.lookup (.text "files") fields with
      | none => exact ⟨[], rfl⟩
      | some files =>
          exact not_not.mp fun hnot => h (.filesNotMap hversion hlookup hnot)
    obtain ⟨entries, hentries⟩ := hfiles
    rcases ofValue_map hversion hentries with ⟨cache, hcache, hcurrent⟩ | ⟨error, herror⟩
    · rw [hcache]
      exact .inr ⟨cache, rfl, hcurrent⟩
    · rw [herror]
      exact .inl rfl
  · have hother : ofValue (.map fields) = .ok none := by
      rw [ofValue, if_neg (mt isCurrentVersion_iff.mp hversion)]
    rw [hother]
    exact .inl rfl

theorem Misshapen.error {v : Value} (h : Misshapen v) :
    ∃ error, (loadValue v).cache? = .error error := by
  cases h with
  | notMap h =>
      have herror : ofValue v = .error (.notMap v) := by
        unfold ofValue
        split
        · exact (h ⟨_, rfl⟩).elim
        · rfl
      exact ⟨.notMap v, by rw [loadValue, herror]; rfl⟩
  | @filesNotMap fields files hversion hfiles h =>
      have herror : ofValue (.map fields) = .error (.filesNotMap files) := by
        rw [ofValue, if_pos (isCurrentVersion_iff.mpr hversion), hfiles, Option.getD_some]
        split
        · exact (h ⟨_, rfl⟩).elim
        · rfl
      exact ⟨.filesNotMap files, by rw [loadValue, herror]; rfl⟩

/-- Whatever the bytes are: they break loading, or there is no cache or one of the current version. -/
theorem cache?_loadBytes (bytes : List UInt8) :
    (Breaks bytes ∧ ∃ error, (loadBytes bytes).cache? = .error error) ∨
      ¬ Breaks bytes ∧ ((loadBytes bytes).cache? = .ok none ∨
        ∃ cache, (loadBytes bytes).cache? = .ok (some cache) ∧ cache.version = currentVersion) := by
  unfold loadBytes
  cases hunpack : MessagePack.unpack? bytes with
  | none => exact .inr ⟨by simp [Breaks, hunpack], .inl rfl⟩
  | some v =>
      have hbreaks : Breaks bytes ↔ Misshapen v := by simp [Breaks, hunpack]
      rw [hbreaks]
      by_cases h : Misshapen v
      · exact .inl ⟨h, h.error⟩
      · exact .inr ⟨h, cache?_loadValue_of_shape h⟩

theorem cache?_load {t : Tree} {root : Place} {file : FileState} (hwell : t.WellFormed)
    (hfile : t.file? (wayFrom root) = some file) :
    ((∃ error, (load t root).cache? = .error error) ↔ Breaks file.bytes) ∧
      ∀ cache, (load t root).cache? = .ok (some cache) → cache.version = currentVersion := by
  rw [load_of_file hwell hfile]
  rcases cache?_loadBytes file.bytes with ⟨hbreaks, error, herror⟩ | ⟨hsafe, hcache⟩
  · exact ⟨iff_of_true ⟨error, herror⟩ hbreaks, fun cache h => by simp [herror] at h⟩
  · refine ⟨iff_of_false ?_ hsafe, fun cache h => ?_⟩
    · rintro ⟨error, herror⟩
      rcases hcache with hnone | ⟨cache, hsome, -⟩
      · simp [hnone] at herror
      · simp [hsome] at herror
    · rcases hcache with hnone | ⟨other, hsome, hversion⟩
      · simp [hnone] at h
      · obtain rfl : other = cache := by simpa [hsome] using h
        exact hversion

end Cache

/-! ### Scanning -/

namespace Scan

variable {t : Tree} {top : Place} {options : Options}

theorem startCache_of_error (clock : Clock) {error : CacheError} (hcached : options.useCache = true)
    (h : (Cache.load t top).cache? = .error error) :
    (startCache clock options t top).1 = .error error := by
  simp only [startCache, hcached, if_true, h]

theorem exists_startCache (clock : Clock) (hcached : options.useCache = true)
    (h : ¬ ∃ error, (Cache.load t top).cache? = .error error) :
    ∃ cache, (startCache clock options t top).1 = .ok cache := by
  cases hload : (Cache.load t top).cache? with
  | error error => exact (h ⟨error, hload⟩).elim
  | ok found =>
      cases found with
      | none => exact ⟨.empty clock.text, by simp only [startCache, hcached, if_true, hload]⟩
      | some cache => exact ⟨cache, by simp only [startCache, hcached, if_true, hload]⟩

/-- The cache that a scan loads has a fresh record, and the stack has no room for what is wrong with
it. -/
def Overflows (env : Environment) (options : Options) (t : Tree) (top : Place) : Prop :=
  ∃ cache, (Cache.load t top).cache? = .ok (some cache) ∧
    ∃ place ∈ find t top options.exclude, Exhausts env.stackRoom t top cache place

section Overflow

variable {env : Environment} {clock : Clock} {cache : Cache}

theorem overflows_iff (hcached : options.useCache = true)
    (hstart : (startCache clock options t top).1 = .ok cache) :
    Overflows env options t top ↔
      ∃ place ∈ find t top options.exclude, Exhausts env.stackRoom t top cache place := by
  unfold Overflows
  cases hload : (Cache.load t top).cache? with
  | error error => simp [startCache_of_error clock hcached hload] at hstart
  | ok found =>
      cases found with
      | some other =>
          obtain rfl : other = cache := by simpa [startCache, hcached, hload] using hstart
          simp
      | none =>
          -- a cache without entries has no records at all
          obtain rfl : Cache.empty clock.text = cache := by
            simpa [startCache, hcached, hload] using hstart
          have hnone := fun place => @not_exhausts_of_regular env.stackRoom t top _
            (Cache.all_empty _ clock.text) place
          simp [hnone]

/-- Where there is a cache file, the scan comes to its report exactly if the packer has room for the
cache that is to be saved. -/
theorem runTogether_of_file {file : FileState} (hwell : t.WellFormed)
    (hfile : t.file? (Cache.wayFrom top) = some file) (hcached : options.useCache = true)
    (htree : (broughtTogether env [] options t top cache).2 = t)
    (hpackable : (broughtTogether env [] options t top cache).1.cache.Packable) :
    (runTogether env clock [] options t top cache).result =
      if (keptCache clock options t top
          (broughtTogether env [] options t top cache).1).toValue.depth ≤ env.packer.room then
        .ok (reportTogether env [] options t top cache)
      else .error (.pack .tooDeep) := by
  have hpacks : (keptCache clock options t top
      (broughtTogether env [] options t top cache).1).Packs env.packer ↔ _ :=
    Cache.Packable.packs_iff (hpackable.keepOnly _ _) (Value.packable_text _)
  split
  · rename_i hdepth
    exact runTogether_result fun _ => hpacks.mpr hdepth
  · rename_i hdepth
    refine (finish_cases hpackable).elim (fun hok => ?_) And.left
    unfold finish at hok
    dsimp only at hok
    rw [if_pos hcached, (saveCache_eq ..).2, htree, Cache.error_save_of_file hwell hfile] at hok
    split at hok
    · simp at hok
    · rename_i hnone
      exact (hdepth (hpacks.mp (errorOf?_eq_none_iff.mp hnone))).elim

/-- What can become of a scan of scripts that can be parsed, beside a cache file. -/
inductive CacheOutcome (env : Environment) (clock : Clock) (options : Options) (t : Tree)
    (top : Place) (bytes : List UInt8) : Except ScanError Report → Prop where
  | broken {error : CacheError} (hbreaks : Cache.Breaks bytes)
      (hroom : ¬ Overflows env options t top)
      (hsaved : savedCache? env clock [] options t top = none) :
      CacheOutcome env clock options t top bytes (.error (.cache error))
  | overflowed (hsafe : ¬ Cache.Breaks bytes) (hdeep : Overflows env options t top)
      (hsaved : savedCache? env clock [] options t top = none) :
      CacheOutcome env clock options t top bytes (.error (.record .tooDeep))
  | unsaved {kept : Cache} (hsafe : ¬ Cache.Breaks bytes) (hroom : ¬ Overflows env options t top)
      (hsaved : savedCache? env clock [] options t top = some kept)
      (hdepth : env.packer.room < kept.toValue.depth) :
      CacheOutcome env clock options t top bytes (.error (.pack .tooDeep))
  | returned {kept : Cache} {report : Report} (hsafe : ¬ Cache.Breaks bytes)
      (hroom : ¬ Overflows env options t top)
      (hsaved : savedCache? env clock [] options t top = some kept)
      (hdepth : kept.toValue.depth ≤ env.packer.room)
      (hfiles : (report.files.map FileOutcome.file).Perm
        ((find t top options.exclude).map Place.text)) :
      CacheOutcome env clock options t top bytes (.ok report)

theorem cacheOutcome {file : FileState} {way : List String} (hwell : t.WellFormed)
    (hroot : t.isDirectory (Place.ofWay way) = true)
    (hfile : t.file? (Cache.wayFrom (Place.ofWay way)) = some file)
    (hcached : options.useCache = true) (hreadable : Readable t (Place.ofWay way) options.exclude) :
    CacheOutcome env clock options t (Place.ofWay way) file.bytes
      (scan env clock [] options t way).result := by
  have hbreaks := (Cache.cache?_load hwell hfile).1
  by_cases hload : ∃ error, (Cache.load t (Place.ofWay way)).cache? = .error error
  · obtain ⟨error, herror⟩ := id hload
    have hgathered : gathered env clock [] options t (Place.ofWay way) = .error (.cache error) := by
      rw [gathered, startCache_of_error clock hcached herror]
    rw [scan_eq_scanAt hroot, scanAt_of_gathered_error hgathered]
    refine .broken (hbreaks.mp hload) ?_ (savedCache?_of_error hgathered)
    rintro ⟨cache, hsome, -⟩
    simp [herror] at hsome
  obtain ⟨cache, hstart⟩ := exists_startCache clock hcached hload
  have hoverflows := @overflows_iff t (Place.ofWay way) options env clock cache hcached hstart
  rw [hbreaks] at hload
  by_cases hdeep : Overflows env options t (Place.ofWay way)
  · have hgathered : gathered env clock [] options t (Place.ofWay way) =
        .error (.record .tooDeep) :=
      gathered_of_failure hstart (failure_siftFound hwell hcached (hoverflows.mp hdeep)) []
    rw [scan_eq_scanAt hroot, scanAt_of_gathered_error hgathered]
    exact .overflowed hload hdeep (savedCache?_of_error hgathered)
  -- now the scripts are visited, and the cache is to be saved
  have hroom : ∀ place ∈ find t (Place.ofWay way) options.exclude,
      ¬ Exhausts env.stackRoom t (Place.ofWay way) cache place :=
    fun place hplace h => hdeep (hoverflows.mpr ⟨place, hplace, h⟩)
  obtain ⟨-, htree, -, hpackable⟩ := broughtTogether_reports hwell hcached hroom hreadable
  have hgathered := gathered_of_room hwell hcached hstart hroom hreadable
  have hsaved := savedCache?_of_ok hgathered
  rw [(scan_of_together hroot hgathered).1,
    runTogether_of_file hwell hfile hcached htree (hpackable (startCache_packable hstart))]
  split
  · rename_i hdepth
    refine .returned hload hdeep hsaved hdepth ?_
    have hnames := (perm_reportTogether hwell hcached hroom hreadable).map FileOutcome.file
    rwa [List.map_map] at hnames
  · rename_i hdepth
    exact .unsaved hload hdeep hsaved (Nat.lt_of_not_le hdepth)

end Overflow

/-- Whatever the bytes of the cache file are, loading fails with an error exactly if they break it,
and a cache that is loaded has the current version.  A scan of scripts that can be parsed reports on
all of them exactly if the bytes do not break loading, the stack has room for what is wrong with the
records, and the packer has room for the cache that is to be saved.  Otherwise it fails with the error
of that step. -/
theorem scan_returns_iff_of_cacheBytes {file : FileState} {way : List String}
    (hwell : t.WellFormed) (hroot : t.isDirectory (Place.ofWay way) = true)
    (hfile : t.file? (Cache.wayFrom (Place.ofWay way)) = some file)
    (hcached : options.useCache = true) (hreadable : Readable t (Place.ofWay way) options.exclude)
    (env : Environment) (clock : Clock) :
    let result := (scan env clock [] options t way).result
    let saved? := savedCache? env clock [] options t (Place.ofWay way)
    ((∃ error, (Cache.load t (Place.ofWay way)).cache? = .error error) ↔ Cache.Breaks file.bytes) ∧
    (∀ cache, (Cache.load t (Place.ofWay way)).cache? = .ok (some cache) →
      cache.version = Cache.currentVersion) ∧
    ((∃ report, result = .ok report ∧ (report.files.map FileOutcome.file).Perm
        ((find t (Place.ofWay way) options.exclude).map Place.text)) ↔
      ¬ Cache.Breaks file.bytes ∧ ¬ Overflows env options t (Place.ofWay way) ∧
        ∀ kept ∈ saved?, kept.toValue.depth ≤ env.packer.room) ∧
    (Cache.Breaks file.bytes → ∃ error, result = .error (.cache error)) ∧
    (Overflows env options t (Place.ofWay way) → result = .error (.record .tooDeep)) ∧
    (∀ kept ∈ saved?, env.packer.room < kept.toValue.depth → result = .error (.pack .tooDeep)) := by
  intro result saved?
  obtain ⟨hbreaks, hversion⟩ := Cache.cache?_load hwell hfile
  refine ⟨hbreaks, hversion, ?_⟩
  have houtcome := @cacheOutcome t options env clock file way hwell hroot hfile hcached hreadable
  generalize hresult : (scan env clock [] options t way).result = outcome at houtcome
  simp only [result, saved?, hresult]
  cases houtcome with
  | broken hbreaks hroom hsaved => simp [hbreaks, hroom, hsaved]
  | overflowed hsafe hdeep hsaved => simp [hsafe, hdeep, hsaved]
  | unsaved hsafe hroom hsaved hdepth => simp [hsafe, hroom, hsaved, hdepth]
  | returned hsafe hroom hsaved hdepth hfiles => simp [hsafe, hroom, hsaved, hdepth, hfiles]

/-! ### One script beside a cache file -/

namespace DamagedView

def script : FileState :=
  ⟨Utf8.encode "CREATE VIEW v AS SELECT a FROM t".toList, .ofRatio 1 1⟩

def tree (bytes : List UInt8) : Tree where
  location := "/scripts"
  nodes := [
    (["v.sql"], .file script), ([Cache.directoryName], .directory),
    (Cache.wayFrom [], .file ⟨bytes, .ofRatio 2 1⟩)]

def clock : Clock := ⟨"2024-01-01T00:00:00", .ofRatio 3 1⟩

theorem wellFormed_tree (bytes : List UInt8) : (tree bytes).WellFormed := of_decide_eq_true rfl

theorem file?_tree (bytes : List UInt8) :
    (tree bytes).file? (Place.ofWay [] ++ ["v.sql"]) = some script := rfl

theorem scripts_tree (bytes : List UInt8) :
    ((tree bytes).filesBelow (Place.ofWay [])).filter (isWanted []) = [["v.sql"]] := by
  have hempty : ((tree []).filesBelow (Place.ofWay [])).filter (isWanted []) = [["v.sql"]] := by
    decide +kernel
  exact hempty

theorem readable_tree (bytes : List UInt8) : Readable (tree bytes) (Place.ofWay []) [] := by
  have hparse : script.parse.toOption.isSome = true := by decide +kernel
  have hsize : script.size < 2 ^ 64 := by decide +kernel
  rw [readable_iff, scripts_tree]
  simpa [isReadable, file?_tree, hparse] using hsize

end DamagedView

section

open DamagedView

theorem scan_returns_iff_of_cacheBytes_unused :
    (tree [0xc1]).WellFormed ∧ (tree [0xc1]).isDirectory (Place.ofWay []) = true ∧
    (tree [0xc1]).file? (Cache.wayFrom (Place.ofWay [])) = some ⟨[0xc1], .ofRatio 2 1⟩ ∧
    Readable (tree [0xc1]) (Place.ofWay []) [] ∧ ¬ Cache.Breaks [0xc1] ∧
    ¬ Overflows {} {} (tree [0xc1]) (Place.ofWay []) ∧
    (∀ kept ∈ savedCache? {} clock [] {} (tree [0xc1]) (Place.ofWay []),
      kept.toValue.depth ≤ 512) ∧
    ∃ report, (scan {} clock [] {} (tree [0xc1]) []).result = .ok report ∧
      (report.files.map FileOutcome.file).Perm
        ((find (tree [0xc1]) (Place.ofWay []) []).map Place.text) := by
  have hwell := wellFormed_tree [0xc1]
  have hreadable := readable_tree [0xc1]
  have hfile : (tree [0xc1]).file? (Cache.wayFrom (Place.ofWay [])) =
      some ⟨[0xc1], .ofRatio 2 1⟩ := rfl
  have hsafe : ¬ Cache.Breaks [0xc1] := by
    rintro ⟨v, hunpack, -⟩
    have hnone : MessagePack.unpack? [0xc1] = none := rfl
    simp [hnone] at hunpack
  have hcached : ({} : Options).useCache = true := rfl
  have hload : Cache.load (tree [0xc1]) (Place.ofWay []) = Cache.loadBytes [0xc1] :=
    Cache.load_of_file hwell hfile
  have hroom : ¬ Overflows {} {} (tree [0xc1]) (Place.ofWay []) := by
    rintro ⟨cache, hsome, -⟩
    rw [hload] at hsome
    cases hsome
  have hkept : ∀ kept ∈ savedCache? {} clock [] {} (tree [0xc1]) (Place.ofWay []),
      kept.toValue.depth ≤ 512 := by decide +kernel
  have hscan := scan_returns_iff_of_cacheBytes hwell rfl hfile hcached hreadable {} clock
  exact ⟨hwell, rfl, hfile, hreadable, hsafe, hroom, hkept,
    hscan.2.2.1.mpr ⟨hsafe, hroom, hkept⟩⟩

/-- A file that holds an empty list is well-formed MessagePack, and no cache is looked for in it. -/
theorem scan_fails_with_list_in_cacheFile :
    Readable (tree [0x90]) (Place.ofWay []) [] ∧
    (Cache.load (tree [0x90]) []).cache? = .error (.notMap (.list [])) ∧
    (scan {} clock [] {} (tree [0x90]) []).result = .error (.cache (.notMap (.list []))) :=
  ⟨readable_tree [0x90], rfl, rfl⟩

end

end Scan

end ScriptGraph
