import ScriptGraph.Proofs.Cache.Packing
import ScriptGraph.Proofs.Cache.Values
import ScriptGraph.Proofs.MessagePack.RoundTrip
import ScriptGraph.Proofs.Tree.WellFormed

/-!
# Loading what was saved

The cache of a scan holds one entry for each script.  Once its file is written, loading the file gives
back the cache, entry by entry and in the same order: the bytes are unpacked as the value they were
packed from, and the value stands for the cache it was made from.
-/

namespace ScriptGraph

open MessagePack

/-! ### Entries of scripts -/

/-- What is known of a script when its entry is made. -/
structure Snapshot where
  path : String
  mtime : Double
  size : Nat
  digest : String
  parsed : Option ParsedScript

namespace Snapshot

def entry (script : Snapshot) : Key × CacheEntry :=
  (.text script.path, ⟨.float script.mtime, .int script.size, ParsedScript.toRecord script.parsed,
    .text script.digest⟩)

def objects (script : Snapshot) : List DbObject :=
  match script.parsed with
  | none => []
  | some parsed => parsed.definition :: parsed.references.map Reference.callee

/-- The entry has a written form: its size is a number of 63 bits, and the lengths of its texts and of
its list of callees are numbers of 32 bits.  Longer ones have no form in MessagePack. -/
structure Fits (script : Snapshot) : Prop where
  path : TextFits script.path
  size : script.size < 2 ^ 63
  digest : TextFits script.digest
  names : ∀ object ∈ script.objects, TextFits object.name
  count : script.objects.length ≤ 2 ^ 32

end Snapshot

def Cache.ofSnapshots (createdAt : String) (scripts : List Snapshot) : Cache :=
  ⟨currentVersion, .text createdAt, scripts.map Snapshot.entry⟩

/-! ### Values of caches -/

theorem DbObject.fits_toRecord {o : DbObject} (h : TextFits o.name) (nesting : Nat) :
    o.toRecord.Fits (nesting + 1) := by
  have hlabel : TextFits o.kind.label := by cases o.kind <;> decide
  have hkeys : ∀ key ∈ [Key.text "name", .text "kind"], key.Fits := by decide
  refine .map (by simp) (by simp) hkeys ?_
  simp only [List.forall_mem_cons]
  exact ⟨.text _ h, .text _ hlabel, by simp⟩

theorem Snapshot.fits_toRecord {script : Snapshot} (h : script.Fits) (nesting : Nat) :
    (ParsedScript.toRecord script.parsed).Fits (nesting + 3) := by
  obtain ⟨path, mtime, size, digest, parsed⟩ := script
  cases parsed with
  | none => exact .null _
  | some parsed =>
      obtain ⟨hdefinition, hcallees⟩ := List.forall_mem_cons.mp h.names
      have hcount : parsed.references.length + 1 ≤ 2 ^ 32 := by simpa [objects] using h.count
      have hkeys : ∀ key ∈ [Key.text "definition", .text "edges"], key.Fits := by decide
      refine .map (by simp) (by simp) hkeys ?_
      simp only [List.forall_mem_cons]
      refine ⟨DbObject.fits_toRecord hdefinition _, .list (by simpa using hcount) ?_, by simp⟩
      intro record hrecord
      obtain ⟨r, hr, rfl⟩ := List.mem_map.mp hrecord
      exact DbObject.fits_toRecord (hcallees _ (List.mem_map_of_mem hr)) _

theorem CacheEntry.fits_toValue {entry : CacheEntry} {nesting : Nat} (hmtime : entry.mtime.Fits nesting)
    (hsize : entry.size.Fits nesting) (hrecord : entry.record.Fits nesting)
    (hdigest : entry.digest.Fits nesting) : entry.toValue.Fits (nesting + 1) := by
  have hkeys : ∀ key ∈ [Key.text "mtime", .text "size", .text "record", .text "content_hash"],
      key.Fits := by decide
  refine .map (by simp) (by simp) hkeys ?_
  simp only [List.forall_mem_cons]
  exact ⟨hmtime, hsize, hrecord, hdigest, by simp⟩

theorem Snapshot.fits_entry {script : Snapshot} (h : script.Fits) (nesting : Nat) :
    script.entry.2.toValue.Fits (nesting + 4) := by
  have hsize := h.size
  refine CacheEntry.fits_toValue (.float _ _) (.int _ ?_ ?_) (fits_toRecord h nesting)
    (.text _ h.digest)
  · omega
  · omega

namespace Cache

theorem fits_toValue {cache : Cache} {nesting : Nat} (hversion : TextFits cache.version)
    (hcreated : cache.createdAt.Fits (nesting + 1)) (hcount : cache.files.length < 2 ^ 32)
    (hnodup : (cache.files.map Prod.fst).Nodup) (hpaths : ∀ path ∈ cache.files.map Prod.fst, path.Fits)
    (hentries : ∀ packed ∈ cache.files, packed.2.toValue.Fits nesting) :
    cache.toValue.Fits (nesting + 2) := by
  have hkeys : ∀ key ∈ [Key.text "version", .text "created_at", .text "files"], key.Fits := by
    decide
  refine .map (by simp) (by simp) hkeys ?_
  simp only [List.forall_mem_cons]
  refine ⟨.text _ hversion, hcreated, .map ?_ ?_ ?_ ?_, by simp⟩
  · simpa using hcount
  · simpa [Function.comp_def] using hnodup
  · simpa [Function.comp_def] using hpaths
  · exact List.forall_mem_map.mpr hentries

variable {createdAt : String} {scripts : List Snapshot}

theorem fits_ofSnapshots (hcreated : TextFits createdAt) (hcount : scripts.length < 2 ^ 32)
    (hpaths : (scripts.map Snapshot.path).Nodup) (hscripts : ∀ script ∈ scripts, script.Fits)
    (nesting : Nat) : (ofSnapshots createdAt scripts).toValue.Fits (nesting + 6) := by
  have hversion : TextFits currentVersion := by decide
  refine fits_toValue hversion (.text _ hcreated) ?_ ?_ ?_ ?_
  all_goals simp only [ofSnapshots, List.map_map, List.length_map, Function.comp_def]
  · exact hcount
  · have htexts := hpaths.map (f := Key.text) fun a b heq => Key.text.inj heq
    rwa [List.map_map] at htexts
  · intro key hkey
    obtain ⟨script, hscript, rfl⟩ := List.mem_map.mp hkey
    exact (hscripts script hscript).path
  · intro packed hpacked
    obtain ⟨script, hscript, rfl⟩ := List.mem_map.mp hpacked
    exact Snapshot.fits_entry (hscripts script hscript) nesting

theorem packs_ofSnapshots (packer : Packer) (createdAt : String)
    (hsizes : ∀ script ∈ scripts, script.size < 2 ^ 63) :
    (ofSnapshots createdAt scripts).Packs packer := by
  have hentries : ∀ key entry, (key, entry) ∈ (ofSnapshots createdAt scripts).files →
      ∃ script ∈ scripts, script.entry.2 = entry := by
    intro key entry hmem
    obtain ⟨script, hscript, heq⟩ := List.mem_map.mp hmem
    exact ⟨script, hscript, (Prod.mk.inj heq).2⟩
  refine Regular.packs ?_ ?_ rfl packer
  · intro key entry hmem
    obtain ⟨script, -, rfl⟩ := hentries key entry hmem
    exact ⟨script.mtime, script.size, script.parsed, script.digest, rfl⟩
  · intro key entry hmem
    obtain ⟨script, hscript, rfl⟩ := hentries key entry hmem
    have hsize := hsizes script hscript
    exact ⟨Value.packable_float _, Value.packable_int (by omega) (by omega),
      ParsedScript.packable_toRecord _, Value.packable_text _⟩

end Cache

/-! ### Files that are written -/

/-- What is packed into a cache file is unpacked from it. -/
def Cache.ReadsBack (packer : Packer) (cache : Cache) : Prop :=
  ∃ bytes, cache.toBytes packer = .ok bytes ∧ MessagePack.unpack? bytes = some cache.toValue

instance (packer : Packer) (cache : Cache) : Decidable (cache.ReadsBack packer) :=
  match h : cache.toBytes packer with
  | .ok bytes =>
      decidable_of_iff (MessagePack.unpack? bytes = some cache.toValue) (by simp [Cache.ReadsBack, h])
  | .error _ => isFalse (by simp [Cache.ReadsBack, h])

namespace Tree

variable {t : Tree} {place : Place}

/-- Where there is no directory, a new node is on no way that could be gone before. -/
theorem walk_put {here last : Place} {way : List String} {node : Node}
    (hplace : t.node? place ≠ some .directory) (h : t.walk here way = .ok last) :
    (t.put place node).walk here way = .ok last := by
  induction way generalizing here with
  | nil => exact h
  | cons part later ih =>
      unfold walk at h ⊢
      split at h
      · simp at h
      · simp at h
      · rename_i hhere
        have hne : here ≠ place := fun heq => hplace (heq ▸ hhere)
        rw [node?_put_of_ne hne, hhere]
        split at h
        · rename_i hpart
          simp only [hpart, if_true]
          exact ih h
        · rename_i hpart
          simp only [hpart, if_false]
          split at h
          · rename_i hdot
            simp only [hdot, if_true]
            exact ih h
          · rename_i hdot
            simp only [hdot, if_false]
            exact ih h

/-- A file that was written is found where it was written. -/
theorem find_of_write {way : List String} {state : FileState} {written : Tree}
    (h : t.write way state = .ok written) : ∃ place, written.find way = .ok (place, .file state) := by
  obtain ⟨place, hwalk, hput⟩ := exists_of_bind_eq_ok h
  have hplace : t.node? place ≠ some .directory := by
    intro hdirectory
    simp [hdirectory] at hput
  have hne : place ≠ [] := by
    rintro rfl
    exact hplace t.node?_nil
  obtain rfl : t.put place (.file state) = written := by
    split at hput
    · simp at hput
    · exact Except.ok.inj hput
  refine ⟨place, ?_⟩
  simp [find, walk_put hplace hwalk, node?_put_self hne, bind, Except.bind]

end Tree

namespace Cache

def Saving.Wrote (saving : Saving) : Prop :=
  saving.error = none ∧ ∀ line ∈ saving.log, line.severity ≠ .warning

instance (saving : Saving) : Decidable saving.Wrote := inferInstanceAs (Decidable (_ ∧ _))

variable {packer : Packer} {cache : Cache} {t : Tree} {root : Place} {mtime : Double}

/-- Saving leaves the tree alone, or makes the directory, or writes the file too. -/
theorem tree_save_cases (packer : Packer) (t : Tree) (root : Place) (mtime : Double)
    (cache : Cache) :
    (save packer t root mtime cache).tree = t ∨
      ∃ made, t.makeDirectory (root ++ [directoryName]) = .ok made ∧
        ((save packer t root mtime cache).tree = made ∨
          ∃ state, made.write (wayFrom root) state =
            .ok (save packer t root mtime cache).tree) := by
  unfold save
  dsimp only
  split
  · exact .inl rfl
  · rename_i made hmade
    refine .inr ⟨made, hmade, ?_⟩
    split
    · split
      · exact .inl rfl
      · rename_i written hwritten
        exact .inr ⟨_, hwritten⟩
    · split
      · exact .inl rfl
      · rename_i written hwritten
        exact .inr ⟨_, hwritten⟩

/-- Saving keeps a tree well-formed, with its root and all files but the cache file. -/
theorem tree_save (hwell : t.WellFormed) (hnames : ∀ name ∈ wayFrom root, IsName name)
    (packer : Packer) (mtime : Double) (cache : Cache) :
    (save packer t root mtime cache).tree.WellFormed ∧
      (∀ place, place ≠ wayFrom root →
        (save packer t root mtime cache).tree.file? place = t.file? place) ∧
      (t.node? root = some .directory →
        (save packer t root mtime cache).tree.node? root = some .directory) := by
  rcases tree_save_cases packer t root mtime cache with heq | ⟨made, hmade, hcase⟩
  · rw [heq]
    exact ⟨hwell, fun _ _ => rfl, fun h => h⟩
  · have hsubset : root ++ [directoryName] ⊆ wayFrom root := by simp [wayFrom]
    obtain ⟨hmadeWell, -, hextends⟩ :=
      hwell.makeDirectory (fun name hname => hnames name (hsubset hname)) hmade
    rcases hcase with heq | ⟨state, hwrite⟩
    · rw [heq]
      exact ⟨hmadeWell, fun place _ => hextends.file?_eq place, hextends.directory⟩
    · obtain ⟨hput, -, hwritten⟩ := hmadeWell.write hnames hwrite
      refine ⟨hwritten, fun place hne => ?_, fun hroot => ?_⟩
      · rw [hput, Tree.file?, Tree.node?_put_of_ne hne]
        exact hextends.file?_eq place
      · have hne : root ≠ wayFrom root := by simp [wayFrom]
        rw [hput, Tree.node?_put_of_ne hne]
        exact hextends.directory hroot

theorem Saving.Wrote.file (h : (save packer t root mtime cache).Wrote) :
    ∃ bytes place, cache.toBytes packer = .ok bytes ∧
      (save packer t root mtime cache).tree.find (wayFrom root) =
        .ok (place, .file ⟨bytes, mtime⟩) := by
  obtain ⟨herror, hlog⟩ := h
  unfold save at herror hlog ⊢
  dsimp only at herror hlog ⊢
  split at hlog
  · simp [LogLine.warning] at hlog
  · rename_i made hmade
    split at hlog
    · rename_i bytes hbytes
      split at hlog
      · simp [LogLine.warning] at hlog
      · rename_i written hwritten
        obtain ⟨place, hfind⟩ := Tree.find_of_write hwritten
        exact ⟨bytes, place, hbytes, by simpa only [hmade, hbytes, hwritten] using hfind⟩
    · rename_i error hbytes
      split at hlog
      · simp [LogLine.warning] at hlog
      · rename_i written hwritten
        simp [hmade, hbytes, hwritten] at herror

/-- A cache that can be packed but not written leaves the files as they are. -/
theorem file?_save_of_not_wrote (hwell : t.WellFormed) (hnames : ∀ name ∈ wayFrom root, IsName name)
    (hpacks : cache.Packs packer) (h : ¬ (save packer t root mtime cache).Wrote) (place : Place) :
    (save packer t root mtime cache).tree.file? place = t.file? place := by
  obtain ⟨bytes, hbytes⟩ := hpacks
  unfold save at h ⊢
  dsimp only at h ⊢
  split
  · rfl
  · rename_i made hmade
    have hsubset : root ++ [directoryName] ⊆ wayFrom root := by simp [wayFrom]
    obtain ⟨-, -, hextends⟩ :=
      hwell.makeDirectory (fun name hname => hnames name (hsubset hname)) hmade
    simp only [hmade, hbytes] at h ⊢
    split
    · exact hextends.file?_eq place
    · rename_i written hwritten
      simp [hwritten, Saving.Wrote, LogLine.info] at h

/-- Where there is a cache file, every fault of packing is a fault of saving. -/
theorem error_save_of_file {file : FileState} (hwell : t.WellFormed)
    (hfile : t.file? (wayFrom root) = some file) :
    (save packer t root mtime cache).error = errorOf? (cache.toBytes packer) := by
  have hdirectory : t.node? (root ++ [directoryName]) = some .directory := by
    refine hwell.reaches_of_node? (Tree.file?_eq_some_iff.mp hfile) _ "parse_cache.msgpack" [] ?_
    simp [wayFrom]
  unfold save
  rw [hwell.makeDirectory_eq hdirectory]
  cases cache.toBytes packer with
  | ok bytes => simp only [hwell.write_eq hfile, errorOf?]
  | error error => simp only [hwell.write_eq hfile, errorOf?]

theorem load_of_file {file : FileState} (hwell : t.WellFormed)
    (hfile : t.file? (wayFrom root) = some file) : load t root = loadBytes file.bytes := by
  rw [load, hwell.find_eq (Tree.file?_eq_some_iff.mp hfile)]

theorem Packs.readsBack (h : cache.Packs packer) (hfits : cache.toValue.Fits nestingLimit) :
    cache.ReadsBack packer := by
  obtain ⟨bytes, hbytes⟩ := h
  exact ⟨bytes, hbytes, unpack?_of_packWithin hfits hbytes⟩

theorem ReadsBack.loadBytes (hreads : cache.ReadsBack packer)
    (hversion : cache.version = currentVersion) {bytes : List UInt8}
    (hbytes : cache.toBytes packer = .ok bytes) : loadBytes bytes = .loaded cache := by
  obtain ⟨packed, hpacked, hunpack⟩ := hreads
  obtain rfl : packed = bytes := Except.ok.inj (hpacked.symm.trans hbytes)
  simp only [Cache.loadBytes, hunpack, loadValue, ofValue_toValue hversion]

/-- A cache that is unpacked as it was packed is loaded from the file that was written. -/
theorem load_of_wrote (hversion : cache.version = currentVersion) (hreads : cache.ReadsBack packer)
    (h : (save packer t root mtime cache).Wrote) :
    load (save packer t root mtime cache).tree root = .loaded cache := by
  obtain ⟨bytes, place, hbytes, hfind⟩ := h.file
  rw [load, hfind]
  exact hreads.loadBytes hversion hbytes

/-- The entries of scripts are saved without a fault of packing, and once their file is written they
are loaded from it as they were, in the same order. -/
theorem load_save_ofSnapshots (packer : Packer) (createdAt : String) {scripts : List Snapshot}
    (hcreated : TextFits createdAt) (hcount : scripts.length < 2 ^ 32)
    (hpaths : (scripts.map Snapshot.path).Nodup) (hscripts : ∀ script ∈ scripts, script.Fits)
    (t : Tree) (root : Place) (mtime : Double) :
    (save packer t root mtime (ofSnapshots createdAt scripts)).error = none ∧
      ((save packer t root mtime (ofSnapshots createdAt scripts)).Wrote →
        load (save packer t root mtime (ofSnapshots createdAt scripts)).tree root =
          .loaded (ofSnapshots createdAt scripts)) := by
  have hfits := fits_ofSnapshots hcreated hcount hpaths hscripts 1018
  have hpacks := packs_ofSnapshots packer createdAt fun script hscript =>
    (hscripts script hscript).size
  exact ⟨hpacks.error_save, load_of_wrote rfl (hpacks.readsBack hfits)⟩

/-- A view with a name outside ASCII, and a script without a definition. -/
theorem load_save_ofSnapshots_two :
    let view : DbObject := ⟨"vü", .view, by decide⟩
    let table : DbObject := ⟨"表", .table, by decide⟩
    let scripts : List Snapshot := [
      ⟨"né.sql", ⟨0x41d954fc40000000⟩, 70000, "ab", some ⟨view, [⟨view, table⟩]⟩⟩,
      ⟨"b.sql", ⟨0⟩, 0, "", none⟩]
    let saving := save .standard ⟨"/top", []⟩ ["db"] ⟨0⟩ (ofSnapshots "2024-01-01T00:00:00" scripts)
    saving.Wrote ∧ load saving.tree ["db"] = .loaded (ofSnapshots "2024-01-01T00:00:00" scripts) := by
  intro view table scripts saving
  have hscripts : ∀ script ∈ scripts, script.Fits := by
    simp only [scripts, List.forall_mem_cons]
    refine ⟨⟨by decide, by decide, by decide, ?_, by decide⟩,
      ⟨by decide, by decide, by decide, by simp [Snapshot.objects], by decide⟩, by simp⟩
    simp only [Snapshot.objects, List.forall_mem_cons, List.map_cons, List.map_nil]
    exact ⟨by decide, by decide, by simp⟩
  have hsaved := load_save_ofSnapshots .standard "2024-01-01T00:00:00" (by decide) (by decide)
    (by decide) hscripts ⟨"/top", []⟩ ["db"] ⟨0⟩
  have hwrote : saving.Wrote := by decide +kernel
  exact ⟨hwrote, hsaved.2 hwrote⟩

end Cache

end ScriptGraph
