import ScriptGraph.Proofs.Cache.Records
import ScriptGraph.Proofs.Scan.Accounting
import ScriptGraph.Proofs.Scan.DamagedCache

/-!
# Records that cannot be read

A visitor sees its own file and nothing of what happens to the others.  So the result of a stale file
does not depend on which other files are stale, on the number of workers, or on the cache.  A record
that cannot be read makes its file stale, and then the file is reported as without a cache.  The one
exception is a kind that cannot be shown in the room on the stack: it ends the scan.
-/

namespace ScriptGraph

namespace Scan

section Discarded

variable {env : Environment} {clock : Clock} {mishaps : Mishaps} {options : Options}
  {t : Tree} {top place : Place} {cache : Cache}

/-! ### What a visitor sees -/

/-- What the visitor of a file sees, whatever happens to the file. -/
def sightOfFile (file : FileState) : Option Mishap → Sight
  | some (.denied reason) => ⟨.error (.denied reason), some file, some file⟩
  | some (.failed reason) => ⟨.error (.failed reason), some file, some file⟩
  | some (.broken reason) => ⟨.error (.broken reason), some file, some file⟩
  | some .vanishes => ⟨.ok file.bytes, none, none⟩
  | none => ⟨.ok file.bytes, some file, some file⟩

/-- What is seen of a file depends on the file and on what happens to it.  At most the file itself is
gone afterwards. -/
theorem look_of_file? (hwell : t.WellFormed) {file : FileState}
    (h : t.file? (top ++ place) = some file) (mishaps : Mishaps) :
    (look t mishaps (scriptFile t top place)).1 =
        sightOfFile file (mishaps.lookup (Place.ofWay (top ++ place))) ∧
      ((look t mishaps (scriptFile t top place)).2 = t ∨
        (look t mishaps (scriptFile t top place)).2 = t.remove (top ++ place)) := by
  have hopen : t.openFile (top ++ place) = .ok (top ++ place, file) := hwell.openFile_eq h
  have hgone : ((t.remove (top ++ place)).openFile (top ++ place)).toOption = none :=
    Tree.toOption_openFile_remove (hwell.names_of_node? (Tree.file?_eq_some_iff.mp h))
      (Tree.ne_nil_of_file? h)
  unfold look readScript scriptFile
  cases hmishap : mishaps.lookup (Place.ofWay (top ++ place)) with
  | none => simp [hopen, Except.mapError, Except.map, Except.toOption, sightOfFile]
  | some mishap =>
      cases mishap with
      | denied reason => simp [hopen, Except.toOption, sightOfFile]
      | failed reason => simp [hopen, Except.toOption, sightOfFile]
      | broken reason => simp [hopen, Except.toOption, sightOfFile]
      | vanishes => simp [hopen, Except.mapError, hgone, sightOfFile]

/-- What the visitor of the file at a place sees, if none has been before it. -/
def seenAt (t : Tree) (top : Place) (mishaps : Mishaps) (place : Place) : Sight :=
  (look t mishaps (scriptFile t top place)).1

/-- Every visitor sees what it would see as the first one. -/
theorem sights_eq_map (hwell : t.WellFormed) {places : List Place} (hnodup : places.Nodup)
    (hfiles : ∀ place ∈ places, ∃ file, t.file? (top ++ place) = some file) :
    sights top mishaps places t =
      places.map fun place => (Place.text place, seenAt t top mishaps place) := by
  induction places generalizing t with
  | nil => rfl
  | cons first later ih =>
      obtain ⟨hfirst, hlater⟩ := List.nodup_cons.mp hnodup
      obtain ⟨⟨file, hfile⟩, hrest⟩ := List.forall_mem_cons.mp hfiles
      obtain ⟨-, hafter⟩ := look_of_file? hwell hfile mishaps
      rw [sights_cons, List.map_cons]
      rcases hafter with hsame | hgone
      · rw [hsame, ih hwell hlater hrest]
        rfl
      · -- the first file is gone, and the others are as before
        have hkept : ∀ place ∈ later, ∀ file', t.file? (top ++ place) = some file' →
            (t.remove (top ++ first)).file? (top ++ place) = some file' := by
          intro place hplace file' hfile'
          refine hwell.file?_remove hfile hfile' fun heq => hfirst ?_
          exact List.append_cancel_left heq ▸ hplace
        have hwell' := hwell.remove (top ++ first)
        rw [hgone, ih hwell' hlater fun place hplace => by
          obtain ⟨file', hfile'⟩ := hrest place hplace
          exact ⟨file', hkept place hplace file' hfile'⟩]
        refine congrArg _ (List.map_congr_left fun place hplace => ?_)
        obtain ⟨file', hfile'⟩ := hrest place hplace
        rw [seenAt, seenAt, (look_of_file? hwell hfile' mishaps).1,
          (look_of_file? hwell' (hkept place hplace file' hfile') mishaps).1]

/-! ### Stale files -/

/-- The result that the visitor of a file brings. -/
def visitedResult (t : Tree) (top : Place) (mishaps : Mishaps) (place : Place) : FileResult :=
  (Completion.entry
    ⟨Place.text place, ((seenAt t top mishaps place).visit (Place.text place)).1⟩).2

theorem Starts.stale_sublist (h : Starts env clock options t top cache) :
    (staleFiles env clock options t top).Sublist (find t top options.exclude) :=
  h.staleFiles_eq ▸ stale_siftAll_sublist ..

theorem Starts.sights_stale (h : Starts env clock options t top cache) (hwell : t.WellFormed)
    (mishaps : Mishaps) :
    sights top mishaps (staleFiles env clock options t top) t =
      (staleFiles env clock options t top).map fun place =>
        (Place.text place, seenAt t top mishaps place) :=
  sights_eq_map hwell ((nodup_find hwell top options.exclude).sublist h.stale_sublist)
    fun _ hplace => ((mem_find_iff hwell).mp (h.stale_sublist.subset hplace)).2

theorem Returned.mem_files_iff_of_stale {way : List String} {report : Report} (hwell : t.WellFormed)
    (h : Returned env clock mishaps options t way report cache)
    (hplace : place ∈ staleFiles env clock options t (Place.ofWay way)) (result : FileResult) :
    ⟨Place.text place, result⟩ ∈ report.files ↔
      visitedResult t (Place.ofWay way) mishaps place = result := by
  obtain ⟨hresults, hperm⟩ := h.starts.results hwell mishaps
  have hnodup := hperm.nodup_iff.mpr (nodup_text_find hwell _ _)
  have hentry : (Completion.entry ⟨Place.text place,
      ((seenAt t (Place.ofWay way) mishaps place).visit (Place.text place)).1⟩) =
        (Place.text place, visitedResult t (Place.ofWay way) mishaps place) :=
    Prod.ext (entry_visit _ _) rfl
  have hmem : (Place.text place, visitedResult t (Place.ofWay way) mishaps place) ∈
      (broughtTogether env mishaps options t (Place.ofWay way) cache).1.results := by
    rw [hresults, ← h.starts.staleFiles_eq, visitAtOnce_eq_map_sights,
      h.starts.sights_stale hwell, List.map_map, List.map_map]
    exact List.mem_append_right _ (List.mem_map.mpr ⟨place, hplace, hentry⟩)
  rw [h.report_eq]
  refine (perm_outcomes _).mem_iff.trans ?_
  rw [List.mem_map]
  constructor
  · rintro ⟨entry, hmem', heq⟩
    obtain ⟨hname, hresult⟩ := FileOutcome.mk.inj heq
    -- no other result has the path of the file
    have hsame := List.inj_on_of_nodup_map hnodup hmem' hmem hname
    rw [← hresult, hsame]
  · rintro rfl
    exact ⟨_, hmem, rfl⟩

/-! ### Discarded records -/

/-- A file whose record cannot be read is stale, whether or not it has changed. -/
theorem Starts.mem_stale_of_bad_record {entry : CacheEntry} {error : RecordError}
    (h : Starts env clock options t top cache) (hwell : t.WellFormed)
    (hcached : options.useCache = true) (hplace : place ∈ find t top options.exclude)
    (hentry : cache.get? (Place.text place) = some entry)
    (hrecord : ParsedScript.ofRecord env.stackRoom entry.record = .error error) :
    place ∈ staleFiles env clock options t top := by
  have hroom := (failure_siftFound_eq_none_iff hwell hcached).mp h.failure_eq
  rw [h.staleFiles_eq, (siftFound_eq hwell hcached hroom).2.1, List.mem_filter]
  refine ⟨hplace, ?_⟩
  rw [reused?, freshRecord?, hentry]
  cases t.file? (top ++ place) with
  | none => rfl
  | some file =>
      cases hfresh : entry.refresh? file with
      | none => simp [hfresh]
      | some fresh => simp [hfresh, CacheEntry.record_of_refresh? hfresh, hrecord, Except.toOption]

theorem Starts.calm (h : Starts env clock options t top cache) (hwell : t.WellFormed)
    (hcalm : ∀ seen ∈ sights top mishaps (find t top options.exclude) t, ¬ seen.2.Raises) :
    ∀ seen ∈ sights top mishaps (staleFiles env clock options t top) t, ¬ seen.2.Raises := by
  rw [sights_eq_map hwell (nodup_find hwell top options.exclude)
    fun place hplace => ((mem_find_iff hwell).mp hplace).2] at hcalm
  rw [h.sights_stale hwell]
  intro seen hseen
  obtain ⟨place, hplace, rfl⟩ := List.mem_map.mp hseen
  exact hcalm _ (List.mem_map.mpr ⟨place, h.stale_sublist.subset hplace, rfl⟩)

/-- Where no visitor fails, a scan comes to its report, or the packer has no room for the cache. -/
theorem Starts.result_cases {way : List String} (h : Starts env clock options t (Place.ofWay way) cache)
    (hwell : t.WellFormed) (hroot : t.isDirectory (Place.ofWay way) = true) (hsizes : t.SizesFit)
    (hcalm : ∀ seen ∈ sights (Place.ofWay way) mishaps
      (find t (Place.ofWay way) options.exclude) t, ¬ seen.2.Raises) :
    (∃ report, (scan env clock mishaps options t way).result = .ok report) ∨
      (scan env clock mishaps options t way).result = .error (.pack .tooDeep) ∧
        ∃ kept ∈ savedCache? env clock mishaps options t (Place.ofWay way),
          env.packer.room < kept.toValue.depth := by
  have hgathered := gathered_of_calm h (h.calm hwell hcalm)
  rw [(scan_of_together hroot hgathered).1]
  exact (runTogether_cases hsizes h.startCache_eq).imp (fun hok => ⟨_, hok⟩)
    (And.imp_right fun hdeep => ⟨_, savedCache?_of_ok hgathered, hdeep⟩)

/-- A scan without a cache has nothing to pack, and returns where no visitor fails. -/
theorem exists_report_of_no_cache {way : List String} (hnone : options.useCache = false)
    (hwell : t.WellFormed) (hroot : t.isDirectory (Place.ofWay way) = true)
    (hcalm : ∀ seen ∈ sights (Place.ofWay way) mishaps
      (find t (Place.ofWay way) options.exclude) t, ¬ seen.2.Raises) :
    ∃ report, (scan env clock mishaps options t way).result = .ok report := by
  have hstarts : Starts env clock options t (Place.ofWay way) (.empty clock.text) :=
    ⟨by simp [startCache, hnone], by simp [siftFound, hnone, siftAll]⟩
  have hgathered := gathered_of_calm hstarts (hstarts.calm hwell hcalm)
  exact ⟨_, (scan_of_together hroot hgathered).1.trans (runTogether_result (by simp [hnone]))⟩

theorem Readable.calm {exclude : List String} (h : Readable t top exclude) (hwell : t.WellFormed) :
    ∀ seen ∈ sights top [] (find t top exclude) t, ¬ seen.2.Raises :=
  (visitAtOnce_eq hwell fun place hplace => by
    obtain ⟨file, parsed, hholds, -⟩ := h place hplace
    exact ⟨file, parsed, hholds⟩).2.1

theorem exhausts_of_fresh {room : Nat} {entry : CacheEntry} {file : FileState}
    (hentry : cache.get? (Place.text place) = some entry)
    (hfile : t.file? (top ++ place) = some file) (hfresh : (entry.refresh? file).isSome = true)
    (hrecord : ParsedScript.ofRecord room entry.record = .error .tooDeep) :
    Exhausts room t top cache place := by
  obtain ⟨fresh, hfresh⟩ := Option.isSome_iff_exists.mp hfresh
  refine ⟨fresh.record, by simp [freshRecord?, hentry, hfile, hfresh], ?_⟩
  rw [CacheEntry.record_of_refresh? hfresh, hrecord]

/-- A fresh record ends the scan if the stack has no room for what is wrong with it. -/
theorem scan_of_exhausts {way : List String} (hwell : t.WellFormed)
    (hroot : t.isDirectory (Place.ofWay way) = true) (hcached : options.useCache = true)
    (hstart : (startCache clock options t (Place.ofWay way)).1 = .ok cache)
    (h : ∃ place ∈ find t (Place.ofWay way) options.exclude,
      Exhausts env.stackRoom t (Place.ofWay way) cache place) :
    (scan env clock mishaps options t way).result = .error (.record .tooDeep) := by
  rw [scan_eq_scanAt hroot]
  exact scanAt_of_gathered_error (gathered_of_failure hstart (failure_siftFound hwell hcached h) _)

end Discarded

/-- What a record that cannot be read costs.  Reading a value as a record gives nothing for the empty
value only, a result exactly if the value records it, and otherwise an error that tells of a part of
the value.  In the last case the file is visited, whether or not it has changed, and every scan that
returns reports the same result of it, with the cache and without.  If no visitor fails, the scan
without the cache returns, and so does the one with the cache, unless the packer has no room for what
it is to save.  All this holds if the stack has room for what is wrong with the records that are
fresh.  Otherwise the scan with the cache fails. -/
theorem bad_record_costs_a_visit (room : Nat) (v : Value) :
    (ParsedScript.ofRecord room v = .ok none ↔ v = .null) ∧
    (∀ parsed, ParsedScript.ofRecord room v = .ok (some parsed) ↔ v.Records parsed) ∧
    (∀ error, ParsedScript.ofRecord room v = .error error → v.RecordsNothing room error) ∧
    ∀ (env env' : Environment) (clock clock' : Clock) (mishaps : Mishaps) (options : Options)
      (asked : Option Int) (t : Tree) (way : List String) (cache : Cache) (entry : CacheEntry)
      (place : Place) (error : RecordError),
      env.stackRoom = room → t.WellFormed → t.isDirectory (Place.ofWay way) = true →
      options.useCache = true → (startCache clock options t (Place.ofWay way)).1 = .ok cache →
      place ∈ find t (Place.ofWay way) options.exclude →
      cache.get? (Place.text place) = some entry → entry.record = v →
      ParsedScript.ofRecord room v = .error error →
      let cached := scan env clock mishaps options t way
      let plain := scan env' clock' mishaps { options with useCache := false, workers := asked } t way
      let exhausted := ∃ other ∈ find t (Place.ofWay way) options.exclude,
        Exhausts room t (Place.ofWay way) cache other
      (¬ exhausted →
        place ∈ staleFiles env clock options t (Place.ofWay way) ∧
        (∀ report report', cached.result = .ok report → plain.result = .ok report' →
          ∃ result, ∀ other,
            (⟨Place.text place, other⟩ ∈ report.files ↔ result = other) ∧
            (⟨Place.text place, other⟩ ∈ report'.files ↔ result = other)) ∧
        (t.SizesFit →
          (∀ seen ∈ sights (Place.ofWay way) mishaps (find t (Place.ofWay way) options.exclude) t,
            ¬ seen.2.Raises) →
          (∃ report', plain.result = .ok report') ∧
          ((∃ report, cached.result = .ok report) ∨
            cached.result = .error (.pack .tooDeep) ∧
              ∃ kept ∈ savedCache? env clock mishaps options t (Place.ofWay way),
                env.packer.room < kept.toValue.depth))) ∧
      (exhausted → cached.result = .error (.record .tooDeep)) ∧
      (∀ file, t.file? (Place.ofWay way ++ place) = some file →
        (entry.refresh? file).isSome = true → error = .tooDeep → exhausted) := by
  refine ⟨ParsedScript.ofRecord_eq_ok_none_iff, fun _ => ParsedScript.ofRecord_eq_ok_some_iff,
    fun _ => ParsedScript.recordsNothing_of_ofRecord, ?_⟩
  rintro env env' clock clock' mishaps options asked t way cache entry place error rfl hwell hroot
    hcached hstart hplace hentry rfl herror cached plain exhausted
  refine ⟨fun hroom => ?_, scan_of_exhausts hwell hroot hcached hstart, ?_⟩
  · have hstarts : Starts env clock options t (Place.ofWay way) cache :=
      ⟨hstart, (failure_siftFound_eq_none_iff hwell hcached).mpr fun other hother hdeep =>
        hroom ⟨other, hother, hdeep⟩⟩
    have hstale := hstarts.mem_stale_of_bad_record hwell hcached hplace hentry herror
    refine ⟨hstale, ?_, fun hsizes hcalm => ⟨exists_report_of_no_cache rfl hwell hroot hcalm,
      hstarts.result_cases hwell hroot hsizes hcalm⟩⟩
    intro report report' hresult hresult'
    obtain ⟨_, hreturned⟩ := exists_returned hresult
    obtain ⟨_, hreturned'⟩ := exists_returned hresult'
    exact ⟨visitedResult t (Place.ofWay way) mishaps place, fun other =>
      ⟨hreturned.mem_files_iff_of_stale hwell hstale other,
        hreturned'.mem_files_iff_of_stale hwell hplace other⟩⟩
  · intro file hfile hfresh hdeep
    exact ⟨place, hplace, exhausts_of_fresh hentry hfile hfresh (hdeep ▸ herror)⟩

/-! ### A view whose record is damaged -/

namespace DamagedView

/-- The entry of the view as it is, except for its record. -/
def damagedEntry (record : Value) : CacheEntry := ⟨.float (.ofRatio 1 1), .int 32, record, .text ""⟩

def damagedCache (record : Value) : Cache :=
  ⟨Cache.currentVersion, .text "", [(.text "v.sql", damagedEntry record)]⟩

def damagedTree (packer : MessagePack.Packer) (record : Value) : Tree :=
  tree (((damagedCache record).toBytes packer).toOption.getD [])

variable {packer : MessagePack.Packer} {record : Value}

theorem isSome_refresh?_damagedEntry (record : Value) :
    ((damagedEntry record).refresh? script).isSome = true := by
  have hnull : ((damagedEntry .null).refresh? script).isSome = true := by decide +kernel
  exact hnull

theorem startCache_damagedTree (hreads : (damagedCache record).ReadsBack packer) :
    (startCache clock {} (damagedTree packer record) (Place.ofWay [])).1 = .ok (damagedCache record) := by
  obtain ⟨bytes, hbytes, -⟩ := id hreads
  have hfile : (damagedTree packer record).file? (Cache.wayFrom (Place.ofWay [])) =
      some ⟨bytes, .ofRatio 2 1⟩ := by
    rw [damagedTree, hbytes]
    rfl
  have hload : (Cache.load (damagedTree packer record) (Place.ofWay [])).cache? =
      .ok (some (damagedCache record)) := by
    rw [Cache.load_of_file (t := damagedTree packer record) (wellFormed_tree _) hfile,
      hreads.loadBytes rfl hbytes]
    rfl
  simp only [startCache, if_true, hload]

theorem sizesFit_tree {bytes : List UInt8} (hbytes : bytes.length < 2 ^ 64) :
    (tree bytes).SizesFit := by
  have hscript : script.size < 2 ^ 64 := by decide +kernel
  intro place file hfile
  have hmem := Tree.mem_nodes_of_node? (Tree.file?_eq_some_iff.mp hfile) (Tree.ne_nil_of_file? hfile)
  have hcases : file = script ∨ file = ⟨bytes, .ofRatio 2 1⟩ := by
    simp only [tree, List.mem_cons, Prod.mk.injEq, Node.file.injEq, reduceCtorEq, and_false,
      List.not_mem_nil, or_false, false_or] at hmem
    exact hmem.imp And.right And.right
  rcases hcases with rfl | rfl
  · exact hscript
  · exact hbytes

theorem mem_find_tree (bytes : List UInt8) : ["v.sql"] ∈ find (tree bytes) (Place.ofWay []) [] := by
  rw [find, List.mem_mergeSort, scripts_tree]
  exact List.mem_singleton_self _

/-! ### Lists inside one another -/

/-- An empty list inside so many lists. -/
def nested : Nat → Value
  | 0 => .list []
  | n + 1 => .list [nested n]

theorem displayDepth_nested (n : Nat) : (nested n).displayDepth = n + 1 := by
  induction n with
  | zero => rfl
  | succ n ih =>
      rw [Value.displayDepth] at ih ⊢
      simp [nested, Value.height, Value.heightOfItems, ih]

theorem fits_nested (n extra : Nat) : (nested n).Fits (extra + n + 1) := by
  induction n with
  | zero => exact .list (by simp) (by simp)
  | succ n ih => exact .list (by simp) (List.forall_mem_singleton.mpr ih)

theorem kindOfValue_nested {room n : Nat} (h : room ≤ n) :
    DbObject.kindOfValue room (nested n) = .error .tooDeep := by
  have hkind : DbObject.kind? (nested n) = none := by cases n <;> rfl
  rw [DbObject.kindOfValue, hkind, displayDepth_nested]
  simp only [if_neg (Nat.not_le.mpr (Nat.lt_succ_of_le h))]

/-- The record of the view with another kind. -/
def recordOf (kind : Value) : Value :=
  .map [
    (.text "definition", .map [(.text "name", .text "v"), (.text "kind", kind)]),
    (.text "edges", .list [])]

theorem ofRecord_recordOf {room : Nat} {kind : Value} {error : RecordError}
    (h : DbObject.kindOfValue room kind = .error error) :
    ParsedScript.ofRecord room (recordOf kind) = .error error := by
  have hvalues : DbObject.ofValues room (.text "v") kind = .error error := by
    rw [DbObject.ofValues, h]
    rfl
  have hobject : DbObject.ofRecord room (.map [(.text "name", .text "v"), (.text "kind", kind)]) =
      .error error := hvalues
  change Except.bind (DbObject.ofRecord room (.map [(.text "name", .text "v"), (.text "kind", kind)]))
    _ = _
  rw [hobject]
  rfl

theorem fits_recordOf {kind : Value} {nesting : Nat} (h : kind.Fits nesting) :
    (recordOf kind).Fits (nesting + 2) := by
  have hkeys : ∀ key ∈ [Key.text "definition", .text "edges"], key.Fits := by decide
  have hkeys' : ∀ key ∈ [Key.text "name", .text "kind"], key.Fits := by decide
  have hname : TextFits "v" := by decide
  refine .map (by simp) (by simp) hkeys ?_
  simp only [List.forall_mem_cons]
  refine ⟨.map (by simp) (by simp) hkeys' ?_, .list (by simp) (by simp), by simp⟩
  simp only [List.forall_mem_cons]
  exact ⟨.text _ hname, h, by simp⟩

theorem fits_damagedCache {nesting : Nat} (h : record.Fits nesting) :
    (damagedCache record).toValue.Fits (nesting + 3) := by
  have hversion : TextFits Cache.currentVersion := by decide
  have hempty : TextFits "" := by decide
  have hpath : TextFits "v.sql" := by decide
  refine Cache.fits_toValue hversion (.text _ hempty) (by simp [damagedCache])
    (by simp [damagedCache]) (List.forall_mem_singleton.mpr hpath) ?_
  refine List.forall_mem_singleton.mpr (CacheEntry.fits_toValue (.float _ _) ?_ h (.text _ hempty))
  exact .int _ (by decide) (by decide)

/-- A packer with room for all that can be unpacked. -/
def widePacker : MessagePack.Packer := ⟨MessagePack.nestingLimit + 1, by decide⟩

theorem readsBack_of_fits {cache : Cache} (h : cache.toValue.Fits MessagePack.nestingLimit) :
    cache.ReadsBack widePacker := by
  obtain ⟨bytes, hpack, -⟩ := MessagePack.survives_of_fits h
  exact Cache.Packs.readsBack ⟨bytes, hpack⟩ h

def deepRecord : Value := recordOf (nested 1014)

theorem readsBack_deepRecord : (damagedCache deepRecord).ReadsBack widePacker :=
  readsBack_of_fits (fits_damagedCache (fits_recordOf (fits_nested 1014 4)))

theorem ofRecord_deepRecord : ParsedScript.ofRecord 984 deepRecord = .error .tooDeep :=
  ofRecord_recordOf (kindOfValue_nested (by decide))

end DamagedView

section

open DamagedView

/-- The view has not changed, and it is visited again. -/
theorem bad_record_costs_a_visit_list :
    let t := damagedTree .standard (.list [])
    t.WellFormed ∧
    (startCache clock {} t (Place.ofWay [])).1 = .ok (damagedCache (.list [])) ∧
    ((damagedEntry (.list [])).refresh? script).isSome = true ∧
    ParsedScript.ofRecord 984 (.list []) = .error (.access (.notKeyed (.list []))) ∧
    (¬ ∃ other ∈ find t (Place.ofWay []) [],
      Exhausts 984 t (Place.ofWay []) (damagedCache (.list [])) other) ∧
    ["v.sql"] ∈ staleFiles {} clock {} t (Place.ofWay []) ∧
    ∃ report report', (scan {} clock [] {} t []).result = .ok report ∧
      (scan {} clock [] { useCache := false } t []).result = .ok report' ∧
      ∃ result, ∀ other,
        (⟨Place.text ["v.sql"], other⟩ ∈ report.files ↔ result = other) ∧
        (⟨Place.text ["v.sql"], other⟩ ∈ report'.files ↔ result = other) := by
  intro t
  have hwell : t.WellFormed := wellFormed_tree _
  have hreads : (damagedCache (.list [])).ReadsBack .standard := by decide +kernel
  have hsizes : t.SizesFit := sizesFit_tree (by decide +kernel)
  have hroom : ¬ ∃ other ∈ find t (Place.ofWay []) [],
      Exhausts 984 t (Place.ofWay []) (damagedCache (.list [])) other := by
    rintro ⟨other, -, hother⟩
    refine not_exhausts_of_all ?_ other hother
    intro key entry hmem
    obtain ⟨rfl, rfl⟩ := Prod.mk.inj (List.mem_singleton.mp hmem)
    nofun
  have hkept : ∀ kept ∈ savedCache? {} clock [] {} t (Place.ofWay []), kept.toValue.depth ≤ 512 := by
    decide +kernel
  obtain ⟨hstale, hsame, hreturns⟩ := ((bad_record_costs_a_visit 984 (.list [])).2.2.2 {} {} clock
    clock [] {} none t [] (damagedCache (.list [])) (damagedEntry (.list [])) ["v.sql"] _ rfl hwell rfl rfl
    (startCache_damagedTree hreads) (mem_find_tree _) rfl rfl rfl).1 hroom
  obtain ⟨⟨report', hreport'⟩, hcached⟩ := hreturns hsizes ((readable_tree _).calm hwell)
  obtain ⟨report, hreport⟩ := hcached.resolve_right fun hdeep => by
    obtain ⟨-, kept, hmem, hlarge⟩ := hdeep
    exact absurd hlarge (Nat.not_lt.mpr (hkept kept hmem))
  exact ⟨hwell, startCache_damagedTree hreads, isSome_refresh?_damagedEntry _, rfl, hroom, hstale, report,
    report', hreport, hreport', hsame report report' hreport hreport'⟩

/-- A kind that is a thousand lists inside one another cannot be shown in the message that tells of
it: the scan fails, although the view can be read, and without the cache it returns. -/
theorem scan_fails_with_deep_kind :
    let t := damagedTree widePacker deepRecord
    Readable t (Place.ofWay []) [] ∧
    (startCache clock {} t (Place.ofWay [])).1 = .ok (damagedCache deepRecord) ∧
    ((damagedEntry deepRecord).refresh? script).isSome = true ∧
    ParsedScript.ofRecord 984 deepRecord = .error .tooDeep ∧
    (scan {} clock [] {} t []).result = .error (.record .tooDeep) ∧
    ∃ report, (scan {} clock [] { useCache := false } t []).result = .ok report := by
  intro t
  have hwell : t.WellFormed := wellFormed_tree _
  have hreadable : Readable t (Place.ofWay []) [] := readable_tree _
  have hstart := startCache_damagedTree readsBack_deepRecord
  have hdeep : Exhausts 984 t (Place.ofWay []) (damagedCache deepRecord) ["v.sql"] :=
    exhausts_of_fresh rfl (file?_tree _) (isSome_refresh?_damagedEntry _) ofRecord_deepRecord
  exact ⟨hreadable, hstart, isSome_refresh?_damagedEntry deepRecord, ofRecord_deepRecord,
    scan_of_exhausts hwell rfl rfl hstart ⟨_, mem_find_tree _, hdeep⟩,
    exists_report_of_no_cache rfl hwell rfl (hreadable.calm hwell)⟩

end

end Scan

end ScriptGraph
