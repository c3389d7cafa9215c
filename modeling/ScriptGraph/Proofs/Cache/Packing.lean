import ScriptGraph.Cache.Record
import ScriptGraph.Cache.Reuse
import ScriptGraph.Cache.Storage
import ScriptGraph.Proofs.Except
import ScriptGraph.Proofs.MessagePack.Packing

/-!
# Caches that can be packed

A cache that was loaded can be packed again where there is room enough, whatever the values in its
entries are, and entering the record of a script and refreshing an entry keep it so.  A packer then
packs it exactly if it has room for the depth of the cache.
-/

namespace ScriptGraph

open MessagePack

structure CacheEntry.Packable (entry : CacheEntry) : Prop where
  mtime : entry.mtime.Packable
  size : entry.size.Packable
  record : entry.record.Packable
  digest : entry.digest.Packable

/-- All entries of a cache have a property. -/
def Cache.All (P : CacheEntry → Prop) (cache : Cache) : Prop :=
  ∀ key entry, (key, entry) ∈ cache.files → P entry

def Cache.Packable (cache : Cache) : Prop := cache.All CacheEntry.Packable

/-! ### Loading -/

theorem Value.Packable.get {v w : Value} {key : String} (h : v.Packable) (hget : v.get key = .ok w) :
    w.Packable := by
  unfold Value.get at hget
  split at hget
  · split at hget
    · rename_i entries _ value hlookup
      obtain rfl := Except.ok.inj hget
      exact Value.packable_map_iff.mp h _ (Entries.mem_of_lookup_eq_some hlookup)
    · simp at hget
  · simp at hget

theorem CacheEntry.packable_of_ofValue {v : Value} {entry : CacheEntry} (h : v.Packable)
    (hentry : ofValue v = .ok entry) : entry.Packable := by
  obtain ⟨mtime, hmtime, hentry⟩ := exists_of_bind_eq_ok hentry
  obtain ⟨size, hsize, hentry⟩ := exists_of_bind_eq_ok hentry
  obtain ⟨record, hrecord, hentry⟩ := exists_of_bind_eq_ok hentry
  obtain rfl := Except.ok.inj hentry
  refine ⟨h.get hmtime, h.get hsize, h.get hrecord, ?_⟩
  cases hdigest : v.get "content_hash" with
  | error error => exact Value.packable_text ""
  | ok digest => exact h.get hdigest

namespace Cache

theorem packable_of_entriesOfValues {values : List (Key × Value)} {entries : List (Key × CacheEntry)}
    (h : ∀ entry ∈ values, entry.2.Packable) (hentries : entriesOfValues values = .ok entries) :
    ∀ key entry, (key, entry) ∈ entries → entry.Packable := by
  induction values generalizing entries with
  | nil =>
      obtain rfl := Except.ok.inj hentries
      simp
  | cons first later ih =>
      obtain ⟨path, v⟩ := first
      obtain ⟨hfirst, hlater⟩ := List.forall_mem_cons.mp h
      obtain ⟨entry, hentry, hentries⟩ := exists_of_bind_eq_ok hentries
      obtain ⟨rest, hrest, hentries⟩ := exists_of_bind_eq_ok hentries
      obtain rfl := Except.ok.inj hentries
      intro key other hmem
      rcases List.mem_cons.mp hmem with heq | hmem
      · obtain ⟨-, rfl⟩ := Prod.mk.inj heq
        exact CacheEntry.packable_of_ofValue hfirst hentry
      · exact ih hlater hrest key other hmem

theorem packable_of_ofValue {v : Value} {cache : Cache} (h : v.Packable)
    (hcache : ofValue v = .ok (some cache)) : cache.Packable := by
  unfold ofValue at hcache
  split at hcache
  · rename_i fields
    split at hcache
    · dsimp only at hcache
      split at hcache
      · rename_i values hvalues
        obtain ⟨entries, hentries, hcache⟩ := exists_of_bind_eq_ok hcache
        obtain ⟨createdAt, -, hcache⟩ := exists_of_bind_eq_ok hcache
        obtain rfl := Option.some.inj (Except.ok.inj hcache)
        have hfiles : (Value.map values).Packable := by
          cases hlookup : Value.lookup (.text "files") fields with
          | none =>
              obtain rfl : [] = values := by simpa [hlookup] using hvalues
              simp
          | some files =>
              obtain rfl : files = .map values := by simpa [hlookup] using hvalues
              exact Value.packable_map_iff.mp h _ (Entries.mem_of_lookup_eq_some hlookup)
        exact packable_of_entriesOfValues (Value.packable_map_iff.mp hfiles)
          (eq_ok_of_mapError_eq_ok hentries)
      · simp [bind, Except.bind] at hcache
    · simp at hcache
  · simp at hcache

theorem packable_of_load {t : Tree} {root : Place} {cache : Cache}
    (h : (load t root).cache? = .ok (some cache)) : cache.Packable := by
  unfold load at h
  split at h
  · simp [Loading.cache?] at h
  · simp [Loading.cache?] at h
  · rename_i state _
    unfold loadBytes at h
    split at h
    · rename_i v hunpack
      unfold loadValue at h
      split at h
      · rename_i other hvalue
        obtain rfl : other = cache := by simpa [Loading.cache?] using h
        exact packable_of_ofValue (packable_of_unpack? hunpack) hvalue
      · simp [Loading.cache?] at h
      · simp [Loading.cache?] at h
      · simp [Loading.cache?] at h
    · simp [Loading.cache?] at h

/-! ### Changing -/

variable {cache : Cache} {P : CacheEntry → Prop}

theorem all_empty (P : CacheEntry → Prop) (createdAt : String) : (empty createdAt).All P :=
  fun _ _ hmem => by simp [empty] at hmem

theorem All.put (h : cache.All P) {path : String} {entry : CacheEntry} (hentry : P entry) :
    (cache.put path entry).All P := by
  intro key other hmem
  rcases Entries.mem_of_mem_put hmem with heq | hold
  · obtain ⟨-, rfl⟩ := Prod.mk.inj heq
    exact hentry
  · exact h key other hold

theorem All.refresh (h : cache.All P)
    (hP : ∀ entry file fresh, P entry → entry.refresh? file = some fresh → P fresh) {path : String}
    {file : Option FileState} {fresh : Cache} (hfresh : cache.refresh? path file = some fresh) :
    fresh.All P := by
  obtain ⟨entry, hentry, hfresh⟩ := Option.bind_eq_some_iff.mp hfresh
  obtain ⟨state, -, hfresh⟩ := Option.bind_eq_some_iff.mp hfresh
  obtain ⟨renewed, hrenewed, hfresh⟩ := Option.bind_eq_some_iff.mp hfresh
  obtain rfl := Option.some.inj hfresh
  exact h.put (hP entry state renewed (h _ _ (Entries.mem_of_lookup_eq_some hentry)) hrenewed)

theorem All.keepOnly (h : cache.All P) (paths : List String) (createdAt : Value) :
    ({ cache.keepOnly paths with createdAt := createdAt } : Cache).All P :=
  fun key entry hmem => h key entry (List.mem_of_mem_filter hmem)

end Cache

/-- A fresh entry is the old one, at most with another time. -/
theorem CacheEntry.refresh?_cases {entry fresh : CacheEntry} {file : FileState}
    (h : entry.refresh? file = some fresh) :
    fresh = entry ∨ fresh = { entry with mtime := .float file.mtime } := by
  unfold refresh? at h
  split at h
  · simp at h
  · split at h
    · exact .inl (Option.some.inj h).symm
    · split at h
      · exact .inr (Option.some.inj h).symm
      · simp at h

theorem CacheEntry.record_of_refresh? {entry fresh : CacheEntry} {file : FileState}
    (h : entry.refresh? file = some fresh) : fresh.record = entry.record := by
  rcases refresh?_cases h with rfl | rfl
  · rfl
  · rfl

theorem CacheEntry.Packable.refresh (entry : CacheEntry) (file : FileState) (fresh : CacheEntry)
    (h : entry.Packable) (hfresh : entry.refresh? file = some fresh) : fresh.Packable := by
  rcases refresh?_cases hfresh with rfl | rfl
  · exact h
  · exact ⟨Value.packable_float _, h.size, h.record, h.digest⟩

namespace Cache

variable {cache : Cache}

theorem Packable.toValue (h : cache.Packable) (hcreated : cache.createdAt.Packable) :
    cache.toValue.Packable := by
  unfold Cache.toValue
  simp only [Value.packable_map_iff, List.forall_mem_cons, Value.packable_text, hcreated, true_and]
  refine ⟨fun packed hpacked => ?_, by simp⟩
  obtain ⟨⟨key, entry⟩, hmem, rfl⟩ := List.mem_map.mp hpacked
  obtain ⟨hmtime, hsize, hrecord, hdigest⟩ := h key entry hmem
  simp [CacheEntry.toValue, hmtime, hsize, hrecord, hdigest]

/-! ### Saving -/

variable {packer : Packer} {t : Tree} {root : Place} {mtime : Double}

/-- The cache can be packed. -/
def Packs (packer : Packer) (cache : Cache) : Prop := ∃ bytes, cache.toBytes packer = .ok bytes

theorem Packable.packs_iff (h : cache.Packable) (hcreated : cache.createdAt.Packable) :
    cache.Packs packer ↔ cache.toValue.depth ≤ packer.room :=
  Value.packsWithin_iff.trans (and_iff_right (h.toValue hcreated))

/-- A cache whose values can be packed fails to be packed for want of room only. -/
theorem Packable.toBytes_eq_error (h : cache.Packable) (hcreated : cache.createdAt.Packable)
    {error : PackError} (herror : cache.toBytes packer = .error error) :
    error = .tooDeep ∧ packer.room < cache.toValue.depth :=
  (Value.error_cases_of_packWithin herror).resolve_right fun hrange =>
    hrange.2 (h.toValue hcreated)

/-- Saving has an error only if the cache cannot be packed. -/
theorem toBytes_of_error_save {error : PackError}
    (h : (save packer t root mtime cache).error = some error) :
    cache.toBytes packer = .error error := by
  unfold save at h
  dsimp only at h
  split at h
  · simp at h
  · split at h
    · split at h
      · simp at h
      · simp at h
    · rename_i other hbytes
      split at h
      · simp at h
      · rw [hbytes, Option.some.inj h]

theorem Packs.error_save (h : cache.Packs packer) :
    (save packer t root mtime cache).error = none := by
  obtain ⟨bytes, hbytes⟩ := h
  refine Option.eq_none_iff_forall_ne_some.mpr fun error herror => ?_
  simp [toBytes_of_error_save herror] at hbytes

end Cache

/-! ### Entries of scripts -/

theorem DbObject.packable_toRecord (o : DbObject) : o.toRecord.Packable := by
  simp [DbObject.toRecord]

theorem DbObject.depth_toRecord_le (o : DbObject) : o.toRecord.depth ≤ 2 := by
  refine Value.height_map_le_iff.mpr ?_
  simp [Value.height]

theorem ParsedScript.packable_toRecord (parsed : Option ParsedScript) : (toRecord parsed).Packable := by
  cases parsed with
  | none => exact Value.packable_null
  | some parsed => simp [toRecord, DbObject.packable_toRecord]

theorem ParsedScript.depth_toRecord_le (parsed : Option ParsedScript) : (toRecord parsed).depth ≤ 4 := by
  cases parsed with
  | none => simp [toRecord, Value.depth, Value.height]
  | some parsed =>
      refine Value.height_map_le_iff.mpr ?_
      simp only [List.forall_mem_cons]
      refine ⟨parsed.definition.depth_toRecord_le.trans (by decide), ?_, by simp⟩
      refine Value.height_list_le_iff.mpr fun record hrecord => ?_
      obtain ⟨r, -, rfl⟩ := List.mem_map.mp hrecord
      exact r.callee.depth_toRecord_le

/-- The entry has the form in which the entries of scripts are made. -/
def CacheEntry.Regular (entry : CacheEntry) : Prop :=
  ∃ (mtime : Double) (size : Int) (parsed : Option ParsedScript) (digest : String),
    entry = ⟨.float mtime, .int size, ParsedScript.toRecord parsed, .text digest⟩

theorem CacheEntry.Regular.depth_toValue_le {entry : CacheEntry} (h : entry.Regular) :
    entry.toValue.depth ≤ 5 := by
  obtain ⟨mtime, size, parsed, digest, rfl⟩ := h
  refine Value.height_map_le_iff.mpr ?_
  simp only [List.forall_mem_cons]
  refine ⟨?_, ?_, ParsedScript.depth_toRecord_le parsed, ?_, by simp⟩
  all_goals simp [Value.height]

/-- Where there is room for an entry of this form, packing it fails for a size that is out of range
only. -/
theorem CacheEntry.Regular.error_eq {entry : CacheEntry} (h : entry.Regular) {room : Nat}
    (hroom : 5 ≤ room) {error : PackError} (herror : packWithin room entry.toValue = .error error) :
    error = .outOfRange :=
  (Value.error_cases_of_packWithin herror).elim
    (fun hdeep => absurd (h.depth_toValue_le.trans hroom) (Nat.not_le.mpr hdeep.2)) And.left

theorem CacheEntry.Regular.refresh (entry : CacheEntry) (file : FileState) (fresh : CacheEntry)
    (h : entry.Regular) (hfresh : entry.refresh? file = some fresh) : fresh.Regular := by
  obtain ⟨mtime, size, parsed, digest, rfl⟩ := h
  rcases refresh?_cases hfresh with rfl | rfl
  · exact ⟨mtime, size, parsed, digest, rfl⟩
  · exact ⟨file.mtime, size, parsed, digest, rfl⟩

namespace Cache

variable {cache : Cache}

def Regular (cache : Cache) : Prop := cache.All CacheEntry.Regular

theorem depth_toValue_le {n : Nat} (hcreated : cache.createdAt.depth ≤ n + 1)
    (h : ∀ key entry, (key, entry) ∈ cache.files → entry.toValue.depth ≤ n) :
    cache.toValue.depth ≤ n + 2 := by
  refine Value.height_map_le_iff.mpr ?_
  simp only [List.forall_mem_cons]
  refine ⟨by simp [Value.height], hcreated, ?_, by simp⟩
  refine Value.height_map_le_iff.mpr fun packed hpacked => ?_
  obtain ⟨⟨key, entry⟩, hmem, rfl⟩ := List.mem_map.mp hpacked
  exact h key entry hmem

/-- Every packer has room for the entries of scripts. -/
theorem Regular.packs (h : cache.Regular) (hpackable : cache.Packable) {createdAt : String}
    (hcreated : cache.createdAt = .text createdAt) (packer : Packer) : cache.Packs packer := by
  refine (hpackable.packs_iff (hcreated ▸ Value.packable_text createdAt)).mpr ?_
  have hdepth : cache.toValue.depth ≤ 5 + 2 := by
    refine depth_toValue_le ?_ fun key entry hmem => (h key entry hmem).depth_toValue_le
    simp [hcreated, Value.depth, Value.height]
  exact hdepth.trans (Nat.le_trans (by decide) packer.room_ge)

end Cache

end ScriptGraph
