import ScriptGraph.Proofs.Scan.Interleaving

/-!
# The order in which workers are done

Several workers may be done in any order.  Every worker brings something of a file of its own, so
two steps that enter what workers bring can change places, up to the order of the entries.  The
report does not depend on that order, and the caches that are saved have the same entry under every
path.
-/

namespace ScriptGraph

/-! ### Caches up to the order of their entries -/

namespace Cache

/-- Two caches that are one map from paths to entries, made at the same time. -/
structure SameMap (cache cache' : Cache) : Prop where
  version_eq : cache.version = cache'.version
  createdAt_eq : cache.createdAt = cache'.createdAt
  lookup_eq : ∀ path, cache.files.lookup path = cache'.files.lookup path
  perm : cache.files.Perm cache'.files

theorem SameMap.of_agree {cache cache' : Cache} (hversion : cache.version = cache'.version)
    (hcreated : cache.createdAt = cache'.createdAt)
    (hfiles : Entries.Agree cache.files cache'.files) : cache.SameMap cache' :=
  ⟨hversion, hcreated, hfiles.lookup_eq, hfiles.perm⟩

theorem errorOf?_toBytes {packer : MessagePack.Packer} {room : Nat} (h : packer.room = room + 2)
    (cache : Cache) :
    errorOf? (cache.toBytes packer) =
      (errorOf? (MessagePack.packWithin (room + 1) cache.createdAt)).or
        (cache.files.findSome? fun e => errorOf? (MessagePack.packWithin room e.2.toValue)) := by
  have hfiles : errorOf? (MessagePack.packWithin (room + 1)
      (.map (cache.files.map fun e => (e.1, e.2.toValue)))) =
        cache.files.findSome? fun e => errorOf? (MessagePack.packWithin room e.2.toValue) := by
    rw [Value.errorOf?_packWithin_map, List.findSome?_map]
    rfl
  have hversion : errorOf? (MessagePack.packWithin (room + 1) (.text cache.version)) = none := rfl
  rw [toBytes, MessagePack.pack, h, toValue, Value.errorOf?_packWithin_map]
  simp only [List.findSome?_cons, List.findSome?_nil, hversion, hfiles]
  generalize errorOf? (MessagePack.packWithin (room + 1) cache.createdAt) = created
  generalize cache.files.findSome? _ = files
  cases created <;> cases files <;> rfl

/-- Where all faults are of one kind, the order does not matter for the first one. -/
theorem findSome?_eq_of_perm {α β : Type} {f : α → Option β} {b : β} {items items' : List α}
    (hperm : items.Perm items') (h : ∀ item ∈ items, ∀ other, f item = some other → other = b) :
    items.findSome? f = items'.findSome? f := by
  have hkind : ∀ item ∈ items', ∀ other, f item = some other → other = b :=
    fun item hitem => h item (hperm.mem_iff.mpr hitem)
  cases hfirst : items.findSome? f with
  | none =>
      have hnone := List.findSome?_eq_none_iff.mp hfirst
      exact (List.findSome?_eq_none_iff.mpr fun item hitem =>
        hnone item (hperm.mem_iff.mpr hitem)).symm
  | some found =>
      obtain ⟨item, hitem, hfound⟩ := List.exists_of_findSome?_eq_some hfirst
      cases hfirst' : items'.findSome? f with
      | none =>
          have hnone := List.findSome?_eq_none_iff.mp hfirst' item (hperm.mem_iff.mp hitem)
          simp [hnone] at hfound
      | some found' =>
          obtain ⟨item', hitem', hfound'⟩ := List.exists_of_findSome?_eq_some hfirst'
          rw [h item hitem found hfound, hkind item' hitem' found' hfound']

/-- Two caches have the same fault of packing if they begin alike and go on with entries of scripts,
the same ones in one order or another. -/
theorem errorOf?_toBytes_eq {cache cache' : Cache} (hcreated : cache.createdAt = cache'.createdAt)
    (haligned : Entries.Aligned CacheEntry.Regular cache.files cache'.files)
    (hperm : cache.files.Perm cache'.files) (packer : MessagePack.Packer) :
    errorOf? (cache.toBytes packer) = errorOf? (cache'.toBytes packer) := by
  have hroom := packer.room_ge
  obtain ⟨room, hleft⟩ : ∃ room, packer.room = room + 2 := Nat.exists_eq_add_of_le' (by omega)
  obtain ⟨base, new, new', hfiles, hfiles', hnew, -⟩ := haligned
  rw [hfiles, hfiles'] at hperm
  rw [errorOf?_toBytes hleft, errorOf?_toBytes hleft, hcreated, hfiles, hfiles',
    List.findSome?_append, List.findSome?_append]
  have hnewPerm : new.Perm new' := (List.perm_append_left_iff base).mp hperm
  refine congrArg _ (congrArg _ (findSome?_eq_of_perm (b := .outOfRange) hnewPerm ?_))
  intro e he error herror
  exact (hnew e he).error_eq (by omega) (errorOf?_eq_some_iff.mp herror)

theorem error_save_eq {cache cache' : Cache} {packer : MessagePack.Packer}
    (h : errorOf? (cache.toBytes packer) = errorOf? (cache'.toBytes packer)) (t : Tree)
    (root : Place) (mtime : Double) :
    (save packer t root mtime cache).error = (save packer t root mtime cache').error := by
  cases hbytes : cache.toBytes packer with
  | ok bytes =>
      rw [hbytes] at h
      obtain ⟨bytes', hbytes'⟩ := errorOf?_eq_none_iff.mp h.symm
      rw [Packs.error_save ⟨bytes, hbytes⟩, Packs.error_save ⟨bytes', hbytes'⟩]
  | error error =>
      rw [hbytes] at h
      unfold save
      rw [hbytes, errorOf?_eq_some_iff.mp h.symm]

end Cache

namespace Scan

/-! ### One step -/

namespace Completion

def deposit? (useCache : Bool) (c : Completion) : Option CacheEntry :=
  if useCache then c.outcome.toOption.bind entryOf else none

theorem regular_of_deposit? {useCache : Bool} {c : Completion} {entry : CacheEntry}
    (h : c.deposit? useCache = some entry) : entry.Regular := by
  obtain ⟨-, hentry⟩ := Option.ite_none_right_eq_some.mp h
  obtain ⟨visit, -, hentry⟩ := Option.bind_eq_some_iff.mp hentry
  exact regular_of_entryOf hentry

/-- The number of files that count as parsed: a worker that fails does not count. -/
def parsedFiles (c : Completion) : Nat := if c.outcome.isOk then 1 else 0

end Completion

/-- What a step does: it sets the result of one file and perhaps its entry in the cache. -/
theorem absorbCompletion_eq (useCache : Bool) (s : State) (c : Completion) :
    absorbCompletion useCache s c =
      ⟨Entries.put c.entry.1 c.entry.2 s.results,
        (c.deposit? useCache).elim s.cache (s.cache.put c.entry.1), s.cachedCount,
        s.parsedCount + c.parsedFiles⟩ := by
  obtain ⟨name, outcome⟩ := c
  cases outcome with
  | error error => cases useCache <;> rfl
  | ok visit =>
      unfold absorbCompletion Completion.deposit? absorb
      cases useCache with
      | false => rfl
      | true => cases hentry : entryOf visit <;> simp [hentry, Completion.entry,
          Completion.parsedFiles, Except.toOption, Except.isOk, Except.toBool]

/-- Two states of a scan that differ at most in the order of their entries. -/
structure State.Agree (s s' : State) : Prop where
  results : Entries.Agree s.results s'.results
  files : Entries.Agree s.cache.files s'.cache.files
  /-- The entries from before come first, in the same order. -/
  aligned : Entries.Aligned CacheEntry.Regular s.cache.files s'.cache.files
  version_eq : s.cache.version = s'.cache.version
  createdAt_eq : s.cache.createdAt = s'.cache.createdAt
  cachedCount_eq : s.cachedCount = s'.cachedCount
  parsedCount_eq : s.parsedCount = s'.parsedCount

namespace State.Agree

variable {s s' s'' : State}

theorem refl (s : State) : s.Agree s := ⟨.refl _, .refl _, .refl _ _, rfl, rfl, rfl, rfl⟩

theorem trans (h : s.Agree s') (h' : s'.Agree s'') : s.Agree s'' where
  results := h.results.trans h'.results
  files := h.files.trans h'.files
  aligned := h.aligned.trans h'.aligned
  version_eq := h.version_eq.trans h'.version_eq
  createdAt_eq := h.createdAt_eq.trans h'.createdAt_eq
  cachedCount_eq := h.cachedCount_eq.trans h'.cachedCount_eq
  parsedCount_eq := h.parsedCount_eq.trans h'.parsedCount_eq

theorem absorbCompletion (h : s.Agree s') (useCache : Bool) (c : Completion) :
    (absorbCompletion useCache s c).Agree (absorbCompletion useCache s' c) := by
  rw [absorbCompletion_eq, absorbCompletion_eq, h.cachedCount_eq, h.parsedCount_eq]
  cases hentry : c.deposit? useCache with
  | none =>
      exact ⟨h.results.put _ _, h.files, h.aligned, h.version_eq, h.createdAt_eq, rfl, rfl⟩
  | some entry =>
      exact ⟨h.results.put _ _, h.files.put _ _,
        h.aligned.put _ (Completion.regular_of_deposit? hentry), h.version_eq, h.createdAt_eq,
        rfl, rfl⟩

end State.Agree

/-- Two steps for different files can change places. -/
theorem absorbCompletion_comm (useCache : Bool) (s : State) {a b : Completion}
    (hne : a.entry.1 ≠ b.entry.1) :
    (absorbCompletion useCache (absorbCompletion useCache s a) b).Agree
      (absorbCompletion useCache (absorbCompletion useCache s b) a) := by
  have hkeys : Key.text a.entry.1 ≠ Key.text b.entry.1 := by simpa using hne
  simp only [absorbCompletion_eq]
  rw [Nat.add_right_comm]
  cases ha : a.deposit? useCache with
  | none => exact ⟨.put_comm hne _ _ _, .refl _, .refl _ _, rfl, rfl, rfl, rfl⟩
  | some entry =>
      cases hb : b.deposit? useCache with
      | none => exact ⟨.put_comm hne _ _ _, .refl _, .refl _ _, rfl, rfl, rfl, rfl⟩
      | some entry' =>
          exact ⟨.put_comm hne _ _ _, .put_comm hkeys _ _ _,
            .put_comm hkeys (Completion.regular_of_deposit? ha) (Completion.regular_of_deposit? hb) _,
            rfl, rfl, rfl, rfl⟩

/-! ### All steps -/

theorem State.Agree.absorbAll {s s' : State} (h : s.Agree s') (useCache : Bool)
    (completions : List Completion) :
    (absorbAll useCache s completions).Agree (absorbAll useCache s' completions) := by
  induction completions generalizing s s' with
  | nil => exact h
  | cons c completions ih => exact ih (h.absorbCompletion useCache c)

/-- What workers bring of different files can be entered in any order. -/
theorem absorbAll_agree_of_perm {useCache : Bool} {first second : List Completion}
    (hperm : first.Perm second) (hnodup : (first.map fun c => c.entry.1).Nodup) (s : State) :
    (absorbAll useCache s first).Agree (absorbAll useCache s second) := by
  induction hperm generalizing s with
  | nil => exact .refl _
  | cons c _ ih => exact ih (List.nodup_cons.mp hnodup).2 _
  | swap a b later =>
      have hne : b.entry.1 ≠ a.entry.1 := by
        intro heq
        exact (List.nodup_cons.mp hnodup).1 (by simp [heq])
      exact (absorbCompletion_comm useCache s hne).absorbAll useCache later
  | trans hfirst _ ih ih' =>
      have hnodup' := (hfirst.map fun c => c.entry.1).nodup_iff.mp hnodup
      exact (ih hnodup s).trans (ih' hnodup' s)

section Orders

variable {env : Environment} {clock : Clock} {options : Options} {t : Tree} {top : Place}

/-! ### The end of a scan -/

theorem State.Agree.sameMap_keptCache {s s' : State} (h : s.Agree s') :
    (keptCache clock options t top s).SameMap (keptCache clock options t top s') :=
  .of_agree h.version_eq rfl
    (h.files.filter (isPathAmong ((find t top options.exclude).map Place.text)))

theorem State.Agree.finish_result {s s' : State} (h : s.Agree s')
    (hnodup : (s.results.map Prod.fst).Nodup) (packer : MessagePack.Packer) (after : Tree) :
    (finish packer clock options after top (find t top options.exclude) s).result =
      (finish packer clock options after top (find t top options.exclude) s').result := by
  have houtcomes := outcomes_eq_of_perm h.results.perm hnodup
  have hmap : (keptCache clock options t top s).SameMap (keptCache clock options t top s') :=
    h.sameMap_keptCache
  have herror : (saveCache packer clock after top (find t top options.exclude) s.cache).error =
      (saveCache packer clock after top (find t top options.exclude) s'.cache).error := by
    rw [(saveCache_eq ..).2, (saveCache_eq ..).2]
    have haligned : Entries.Aligned CacheEntry.Regular (keptCache clock options t top s).files
        (keptCache clock options t top s').files := h.aligned.filter _
    exact Cache.error_save_eq (Cache.errorOf?_toBytes_eq hmap.createdAt_eq haligned hmap.perm packer)
      _ _ _
  unfold finish
  dsimp only
  rw [houtcomes, h.cachedCount_eq, h.parsedCount_eq]
  split
  · rw [herror]
    split <;> rfl
  · rfl

/-! ### Workers of files -/

/-- What a worker makes of a file: its result with the state of the file, or an error. -/
abbrev Work := Except ScriptError (FileResult × Option Stamp)

def completionAt (work : Place → Work) (place : Place) : Completion :=
  ⟨Place.text place, (work place).map fun made => ⟨⟨Place.text place, made.1⟩, made.2⟩⟩

theorem entry_completionAt (work : Place → Work) (place : Place) :
    (completionAt work place).entry.1 = Place.text place := by
  unfold completionAt Completion.entry
  cases work place <;> rfl

theorem exists_work_of_visit (sight : Sight) (name : String) :
    ∃ made : Work, (sight.visit name).1 = made.map fun made => ⟨⟨name, made.1⟩, made.2⟩ := by
  cases hvisit : (sight.visit name).1 with
  | error error => exact ⟨.error error, rfl⟩
  | ok visit =>
      refine ⟨.ok (visit.outcome.result, visit.stamp), ?_⟩
      rw [← file_of_visit hvisit]
      rfl

theorem exists_work_of_visitAtOnce (top : Place) (mishaps : Mishaps) {places : List Place}
    (hnodup : places.Nodup) (t : Tree) :
    ∃ work, (visitAtOnce top mishaps places t).1 = places.map (completionAt work) := by
  induction places generalizing t with
  | nil => exact ⟨fun _ => .error (.broken ""), rfl⟩
  | cons place later ih =>
      obtain ⟨hfirst, hlater⟩ := List.nodup_cons.mp hnodup
      obtain ⟨work, hwork⟩ := ih hlater (look t mishaps (scriptFile t top place)).2
      obtain ⟨made, hmade⟩ := exists_work_of_visit
        (look t mishaps (scriptFile t top place)).1 (Place.text place)
      refine ⟨Function.update work place made, ?_⟩
      have hrest : later.map (completionAt work) =
          later.map (completionAt (Function.update work place made)) := by
        refine List.map_congr_left fun other hother => ?_
        have hne : other ≠ place := fun heq => hfirst (heq ▸ hother)
        rw [completionAt, completionAt, Function.update_of_ne hne]
      rw [visitAtOnce_cons, List.map_cons, ← hrest, ← hwork, completionAt, Function.update_self,
        hmade]

/-! ### Every file has one worker -/

theorem nodup_text_stale (hwell : t.WellFormed) (env : Environment) (options : Options)
    (cache : Cache) : ((siftFound env options t top cache).stale.map Place.text).Nodup :=
  (nodup_text_find hwell top options.exclude).sublist ((stale_siftAll_sublist ..).map _)

theorem nodup_results_absorbAll {useCache : Bool} {s : State}
    (h : (s.results.map Prod.fst).Nodup) (completions : List Completion) :
    ((absorbAll useCache s completions).results.map Prod.fst).Nodup := by
  induction completions generalizing s with
  | nil => exact h
  | cons c completions ih =>
      refine ih ?_
      rw [absorbCompletion_results]
      exact Entries.nodup_keys_put h _ _

/-! ### Any order -/

/-- What a scan has found when the workers of the stale files are done in the given order. -/
def gatheredInOrder (env : Environment) (options : Options) (t : Tree) (top : Place) (cache : Cache)
    (work : Place → Work) (order : List Place) : State :=
  absorbAll options.useCache (siftFound env options t top cache).state
    (order.map (completionAt work))

/-- What becomes of a scan whose workers are done in the given order and leave the tree `after`. -/
def runInOrder (env : Environment) (clock : Clock) (options : Options) (t : Tree) (top : Place)
    (cache : Cache) (work : Place → Work) (after : Tree) (order : List Place) : Run :=
  finish env.packer clock options after top (find t top options.exclude)
    (gatheredInOrder env options t top cache work order)

def cacheInOrder (env : Environment) (clock : Clock) (options : Options) (t : Tree) (top : Place)
    (cache : Cache) (work : Place → Work) (order : List Place) : Cache :=
  keptCache clock options t top (gatheredInOrder env options t top cache work order)

theorem agree_gatheredInOrder {cache : Cache} (hwell : t.WellFormed) (work : Place → Work)
    {first second : List Place} (hfirst : first.Perm (siftFound env options t top cache).stale)
    (hsecond : second.Perm (siftFound env options t top cache).stale) :
    (gatheredInOrder env options t top cache work first).Agree
      (gatheredInOrder env options t top cache work second) := by
  refine absorbAll_agree_of_perm ((hfirst.trans hsecond.symm).map _) ?_ _
  have hnames : ((first.map (completionAt work)).map fun c => c.entry.1) =
      first.map Place.text := by
    rw [List.map_map]
    exact List.map_congr_left fun place _ => entry_completionAt work place
  rw [hnames, (hfirst.map _).nodup_iff]
  exact nodup_text_stale hwell env options cache

theorem tree_runInOrder {cache : Cache} (hcached : options.useCache = true) (work : Place → Work)
    (after : Tree) (order : List Place) :
    (runInOrder env clock options t top cache work after order).tree =
      (Cache.save env.packer after top clock.seconds
        (cacheInOrder env clock options t top cache work order)).tree := by
  rw [runInOrder, tree_finish hcached, (saveCache_eq ..).1]
  rfl

/-- The order in which workers are done does not matter.  Whatever the workers of the stale files
make of them, a scan has the same result for any two orders and saves caches that are one map.  The
scan that several workers share is one with such an order. -/
theorem scan_eq_of_completion_order {mishaps : Mishaps} {way : List String} {cache : Cache}
    (hwell : t.WellFormed) (hroot : t.isDirectory (Place.ofWay way) = true)
    (hstart : (startCache clock options t (Place.ofWay way)).1 = .ok cache)
    (hmore : 1 < (workers env options.workers).1)
    (hmany : parallelThreshold ≤ (staleFiles env clock options t (Place.ofWay way)).length) :
    (∀ (work : Place → Work) (after : Tree) (first second : List Place),
      first.Perm (staleFiles env clock options t (Place.ofWay way)) →
      second.Perm (staleFiles env clock options t (Place.ofWay way)) →
        (runInOrder env clock options t (Place.ofWay way) cache work after first).result =
          (runInOrder env clock options t (Place.ofWay way) cache work after second).result ∧
        (cacheInOrder env clock options t (Place.ofWay way) cache work first).SameMap
          (cacheInOrder env clock options t (Place.ofWay way) cache work second)) ∧
    (options.useCache = true → ∀ (work : Place → Work) (after : Tree) (order : List Place),
      (runInOrder env clock options t (Place.ofWay way) cache work after order).tree =
        (Cache.save env.packer after (Place.ofWay way) clock.seconds
          (cacheInOrder env clock options t (Place.ofWay way) cache work order)).tree) ∧
    ∃ work after,
      (scan env clock mishaps options t way).result =
          (runInOrder env clock options t (Place.ofWay way) cache work after
            (staleFiles env clock options t (Place.ofWay way))).result ∧
        (scan env clock mishaps options t way).tree =
          (runInOrder env clock options t (Place.ofWay way) cache work after
            (staleFiles env clock options t (Place.ofWay way))).tree := by
  have hstarts := (exists_starts_of_stale (ne_nil_of_threshold_le hmany)).elim fun other h =>
    Except.ok.inj (h.startCache_eq.symm.trans hstart) ▸ h
  refine ⟨?_, tree_runInOrder, ?_⟩
  · intro work after first second hfirst hsecond
    rw [hstarts.staleFiles_eq] at hfirst hsecond
    have hagree := agree_gatheredInOrder hwell work hfirst hsecond
    have hnodup : ((gatheredInOrder env options t (Place.ofWay way) cache work first).results.map
        Prod.fst).Nodup := nodup_results_absorbAll (nodup_results_siftAll ..) _
    exact ⟨hagree.finish_result hnodup env.packer after, hagree.sameMap_keptCache⟩
  · obtain ⟨hresult, htree⟩ := scan_of_together hroot
      (@gathered_at_once _ mishaps _ _ _ _ _ hstarts hmore hmany)
    have hnames := @nodup_text_stale t (Place.ofWay way) hwell env options cache
    obtain ⟨work, hwork⟩ := exists_work_of_visitAtOnce (Place.ofWay way) mishaps hnames.of_map t
    refine ⟨work, (broughtTogether env mishaps options t (Place.ofWay way) cache).2, ?_⟩
    rw [hstarts.staleFiles_eq, hresult, htree, runInOrder, gatheredInOrder, ← hwork]
    exact ⟨rfl, rfl⟩

end Orders

/-! ### Fifty scripts in reverse order -/

namespace FiftyScripts

def cachedOptions : Options := { workers := some 2 }

/-- The worker of the first script fails, that of the second cannot read it, and the others bring
scripts that create nothing. -/
def work (place : Place) : Work :=
  if place = ["0.sql"] then .error (.broken "out of memory")
  else if place = ["10.sql"] then .ok (.failed "denied", none)
  else .ok (.nothing, some ⟨.ofRatio 1 1, 0, ""⟩)

theorem startCache_tree (source : String) :
    (startCache clock cachedOptions (tree source) []).1 = .ok (.empty clock.text) := rfl

theorem siftFound_cachedOptions {source : String} (hwell : (tree source).WellFormed) :
    (siftFound {} cachedOptions (tree source) [] (.empty clock.text)).failure = none ∧
      (siftFound {} cachedOptions (tree source) [] (.empty clock.text)).stale =
        ["0.sql"] :: others := by
  obtain ⟨hfailure, hstale, -⟩ := @siftFound_eq (tree source) [] (.empty clock.text) {}
    cachedOptions hwell rfl fun place _ => not_exhausts_of_regular (Cache.all_empty _ _) place
  refine ⟨hfailure, hstale.trans ?_⟩
  exact (List.filter_eq_self.mpr fun place _ => rfl).trans (find_tree source)

theorem starts_cachedOptions {source : String} (hwell : (tree source).WellFormed) :
    Starts {} clock cachedOptions (tree source) [] (.empty clock.text) :=
  ⟨startCache_tree source, (siftFound_cachedOptions hwell).1⟩

theorem staleFiles_cachedOptions {source : String} (hwell : (tree source).WellFormed) :
    staleFiles {} clock cachedOptions (tree source) [] = ["0.sql"] :: others :=
  (starts_cachedOptions hwell).staleFiles_eq.trans (siftFound_cachedOptions hwell).2

end FiftyScripts

section

open FiftyScripts

theorem scan_eq_of_completion_order_reverse :
    let t := tree "CREATE VIEW v AS SELECT 1"
    let stale := staleFiles {} clock cachedOptions t []
    t.WellFormed ∧ t.isDirectory (Place.ofWay []) = true ∧
    (startCache clock cachedOptions t []).1 = .ok (.empty clock.text) ∧
    1 < (workers {} cachedOptions.workers).1 ∧ parallelThreshold ≤ stale.length ∧
    (runInOrder {} clock cachedOptions t [] (.empty clock.text) work t stale).result =
      (runInOrder {} clock cachedOptions t [] (.empty clock.text) work t stale.reverse).result ∧
    (cacheInOrder {} clock cachedOptions t [] (.empty clock.text) work stale).SameMap
      (cacheInOrder {} clock cachedOptions t [] (.empty clock.text) work stale.reverse) := by
  intro t stale
  have hwell : t.WellFormed := by decide +kernel
  have hmore : 1 < (workers {} cachedOptions.workers).1 := by decide
  have hmany : parallelThreshold ≤ stale.length := by
    rw [show stale = ["0.sql"] :: others from staleFiles_cachedOptions hwell]
    decide +kernel
  have horder := (@scan_eq_of_completion_order {} clock cachedOptions t [] [] _ hwell rfl
    (startCache_tree _) hmore hmany).1 work t stale stale.reverse (.refl _) stale.reverse_perm
  exact ⟨hwell, rfl, startCache_tree _, hmore, hmany, horder⟩

end

end Scan

end ScriptGraph
