import Mathlib.Data.List.Induction
import ScriptGraph.Proofs.Cache.Storage
import ScriptGraph.Proofs.Scan.Reuse

/-!
# Histories of a tree of scripts

A tree of scripts is written to, and scanned from time to time.  The cache file that the scans leave
behind is sound at every moment, so every scan that uses the cache gives what a scan without it would
give at that moment.
-/

namespace ScriptGraph

/-- A place below the root of the scripts. -/
structure Spot where
  place : Place
  ne_top : place ≠ []
  names : ∀ name ∈ place, IsName name

/-- What can happen to a tree of scripts.  The cache file is written by scans only. -/
inductive Event where
  /-- A file is created or written, with the directories above it where they are missing. -/
  | write (spot : Spot) (ordinary : spot.place ≠ Cache.wayFrom []) (file : FileState)
  /-- A file takes another time. -/
  | touch (spot : Spot) (mtime : Double)
  /-- A file or a directory is deleted with everything below it. -/
  | delete (spot : Spot)
  | scan (env : Environment) (clock : Clock) (options : Scan.Options)

/-- The tree after an event.  What cannot be done leaves the tree as it is. -/
def Event.apply (way : List String) (t : Tree) : Event → Tree
  | write spot _ file =>
      let place := Place.ofWay way ++ spot.place
      match t.makeDirectory place.dropLast with
      | .error _ => t
      | .ok made => (made.write place file).toOption.getD t
  | touch spot mtime =>
      let place := Place.ofWay way ++ spot.place
      match t.file? place with
      | none => t
      | some file => t.put place (.file { file with mtime := mtime })
  | delete spot => t.remove (Place.ofWay way ++ spot.place)
  | scan env clock options => (Scan.scan env clock [] options t way).tree

def play (way : List String) (start : Tree) (history : List Event) : Tree :=
  history.foldl (Event.apply way) start

/-- The scripts that a history shows at some moment. -/
def Shows (way : List String) (start : Tree) (history : List Event) : Past := fun place file =>
  Scan.isWanted [] place = true ∧
    ∃ before after, history = before ++ after ∧
      (play way start before).file? (Place.ofWay way ++ place) = some file

/-- A directory of scripts without a cache file. -/
structure Untouched (way : List String) (t : Tree) : Prop where
  well : t.WellFormed
  root : t.isDirectory (Place.ofWay way) = true
  no_cache : t.file? (Cache.wayFrom (Place.ofWay way)) = none

/-- What is asked of a history: all scripts can be parsed, different contents have different digests,
no path shows two contents with the same time and the same size, and what is packed into a cache file
is unpacked from it. -/
structure FairHistory (way : List String) (start : Tree) (history : List Event) : Prop where
  parses : ∀ place file, Shows way start history place file → ∃ parsed, file.parse = .ok parsed
  digests : ∀ place place' file file', Shows way start history place file →
    Shows way start history place' file' → file.digest = file'.digest → file.bytes = file'.bytes
  stamps : ∀ place file file', Shows way start history place file →
    Shows way start history place file' → file.mtime.eqValue file'.mtime = true →
      file.size = file'.size → file.bytes = file'.bytes
  reads_back : ∀ before env clock options after,
    history = before ++ Event.scan env clock options :: after → options.useCache = true →
      ∀ cache ∈ Scan.savedCache? env clock [] options (play way start before) (Place.ofWay way),
        cache.ReadsBack env.packer

/-! ### The cache file -/

/-- A well-formed tree with a root for the scripts whose cache file, if there is one, is sound. -/
structure Tended (past : Past) (way : List String) (t : Tree) : Prop where
  well : t.WellFormed
  root : t.node? (Place.ofWay way) = some .directory
  cache : ∀ file, t.file? (Cache.wayFrom (Place.ofWay way)) = some file →
    ∃ cache, Cache.loadBytes file.bytes = .loaded cache ∧ cache.Sound past

variable {past : Past} {way : List String} {t : Tree}

theorem isName_directoryName : IsName Cache.directoryName := ⟨by decide, by decide, by decide⟩

theorem isName_cacheFile : IsName "parse_cache.msgpack" := ⟨by decide, by decide, by decide⟩

theorem Cache.empty_sound (past : Past) (createdAt : String) : (Cache.empty createdAt).Sound past :=
  ⟨rfl, fun _ _ hmem => by simp [Cache.empty] at hmem⟩

namespace Tended

theorem names (h : Tended past way t) {place : Place} (hplace : ∀ name ∈ place, IsName name) :
    ∀ name ∈ Place.ofWay way ++ place, IsName name := by
  intro name hname
  rcases List.mem_append.mp hname with htop | hbelow
  · exact h.well.names_of_node? h.root name htop
  · exact hplace name hbelow

theorem names_cache (h : Tended past way t) :
    ∀ name ∈ Cache.wayFrom (Place.ofWay way), IsName name := by
  refine h.names fun name hname => ?_
  rcases List.mem_cons.mp hname with rfl | hname
  · exact isName_directoryName
  · exact List.mem_singleton.mp hname ▸ isName_cacheFile

theorem startCache (h : Tended past way t) (clock : Clock) (options : Scan.Options) :
    ∃ cache, (Scan.startCache clock options t (Place.ofWay way)).1 = .ok cache ∧
      cache.Sound past := by
  have hempty := Cache.empty_sound past clock.text
  have hload : (Cache.load t (Place.ofWay way)).cache? = .ok none ∨
      ∃ cache, (Cache.load t (Place.ofWay way)).cache? = .ok (some cache) ∧ cache.Sound past := by
    unfold Cache.load
    split
    · exact .inl rfl
    · exact .inl rfl
    · rename_i place state hfind
      have hfile := Tree.file?_eq_some_iff.mpr (Tree.node?_of_find h.names_cache hfind).2
      obtain ⟨cache, hloaded, hsound⟩ := h.cache state hfile
      exact .inr ⟨cache, by rw [hloaded]; rfl, hsound⟩
  unfold Scan.startCache
  split
  · rcases hload with hnone | ⟨cache, hsome, hsound⟩
    · exact ⟨_, by simp only [hnone], hempty⟩
    · exact ⟨cache, by simp only [hsome], hsound⟩
  · exact ⟨_, rfl, hempty⟩

theorem of_extends (h : Tended past way t) {made : Tree} (hwell : made.WellFormed)
    (hextends : made.Extends t) : Tended past way made :=
  ⟨hwell, hextends.directory h.root, fun file hfile => h.cache file (hextends.file?_eq _ ▸ hfile)⟩

/-- A sound cache can be saved, if what is packed is unpacked again. -/
theorem save (h : Tended past way t) {cache : Cache} (hsound : cache.Sound past)
    {packer : MessagePack.Packer} (hreads : cache.ReadsBack packer) (mtime : Double) :
    Tended past way (Cache.save packer t (Place.ofWay way) mtime cache).tree ∧
      (Cache.save packer t (Place.ofWay way) mtime cache).error = none := by
  obtain ⟨bytes, hbytes, hunpack⟩ := hreads
  unfold Cache.save
  dsimp only
  split
  · exact ⟨h, rfl⟩
  · rename_i made hmade
    have hnames : ∀ name ∈ Place.ofWay way ++ [Cache.directoryName], IsName name :=
      h.names fun name hname => List.mem_singleton.mp hname ▸ isName_directoryName
    obtain ⟨hwell, -, hextends⟩ := h.well.makeDirectory hnames hmade
    have hmadeTended := h.of_extends hwell hextends
    rw [hbytes]
    dsimp only
    split
    · exact ⟨hmadeTended, rfl⟩
    · rename_i written hwritten
      obtain ⟨rfl, hne, hwritten⟩ := hwell.write h.names_cache hwritten
      refine ⟨⟨hwritten, ?_, ?_⟩, rfl⟩
      · have hroot : Place.ofWay way ≠ Cache.wayFrom (Place.ofWay way) := by
          simp [Cache.wayFrom]
        rw [Tree.node?_put_of_ne hroot]
        exact hmadeTended.root
      · intro file hfile
        rw [Tree.file?_eq_some_iff, Tree.node?_put_self hne] at hfile
        obtain rfl : (⟨bytes, mtime⟩ : FileState) = file := by simpa using hfile
        refine ⟨cache, ?_, hsound⟩
        simp [Cache.loadBytes, hunpack, Cache.loadValue, Cache.ofValue_toValue hsound.version]

theorem gathered (h : Tended past way t) (hfair : past.Fair)
    (hpast : ∀ place file, Scan.isWanted [] place = true →
      t.file? (Place.ofWay way ++ place) = some file → past place file)
    (env : Environment) (clock : Clock) (options : Scan.Options) :
    ∃ s, Scan.gathered env clock [] options t (Place.ofWay way) = .ok (s, t) ∧
      s.results.Perm ((Scan.find t (Place.ofWay way) options.exclude).map
        (Scan.entryAt t (Place.ofWay way))) ∧ s.cache.Sound past := by
  obtain ⟨cache, hstart, hsound⟩ := h.startCache clock options
  exact Scan.gathered_spec h.well hfair hpast hstart hsound

theorem scan_eq (h : Tended past way t) (env : Environment) (clock : Clock)
    (mishaps : Mishaps) (options : Scan.Options) :
    Scan.scan env clock mishaps options t way =
      Scan.scanAt env clock mishaps options t (Place.ofWay way) := by
  simp [Scan.scan, Tree.isDirectory, h.root]

/-- A scan at a moment of a history returns the outcomes that it gathered, and leaves the tree with a
sound cache file. -/
theorem scan (h : Tended past way t) {env : Environment} {clock : Clock} {options : Scan.Options}
    {s : Scan.State} (hsound : s.cache.Sound past)
    (hgathered : Scan.gathered env clock [] options t (Place.ofWay way) = .ok (s, t))
    (hreads : options.useCache = true →
      (Scan.keptCache clock options t (Place.ofWay way) s).ReadsBack env.packer) :
    (∃ report, (Scan.scan env clock [] options t way).result = .ok report ∧
        report.files = Scan.outcomes s) ∧
      Tended past way (Scan.scan env clock [] options t way).tree := by
  obtain ⟨hresult, htree⟩ := Scan.scanAt_of_gathered_ok hgathered
  rw [h.scan_eq, hresult, htree]
  unfold Scan.finish
  cases hcached : options.useCache with
  | false => exact ⟨⟨_, rfl, rfl⟩, h⟩
  | true =>
      have hkept : (Scan.keptCache clock options t (Place.ofWay way) s).Sound past :=
        hsound.keepOnly _ _
      obtain ⟨hsaved, herror⟩ := h.save hkept (hreads hcached) clock.seconds
      have hsave := Scan.saveCache_eq env.packer clock t (Place.ofWay way)
        (Scan.find t (Place.ofWay way) options.exclude) s.cache
      simp only [hsave.2, if_true]
      rw [Scan.keptCache] at hsaved herror
      simp only [herror]
      exact ⟨⟨_, rfl, rfl⟩, hsave.1 ▸ hsaved⟩

/-! ### Events -/

theorem write (h : Tended past way t) {spot : Spot} (ordinary : spot.place ≠ Cache.wayFrom [])
    (file : FileState) : Tended past way (Event.apply way t (.write spot ordinary file)) := by
  have hnames := h.names spot.names
  unfold Event.apply
  dsimp only
  split
  · exact h
  · rename_i made hmade
    obtain ⟨hwell, -, hextends⟩ :=
      h.well.makeDirectory (fun name hname => hnames name ((List.dropLast_sublist _).subset hname)) hmade
    have hmadeTended := h.of_extends hwell hextends
    cases hwrite : made.write (Place.ofWay way ++ spot.place) file with
    | error fault => exact h
    | ok written =>
        obtain ⟨rfl, -, hwritten⟩ := hwell.write hnames hwrite
        refine ⟨hwritten, ?_, fun other hother => ?_⟩
        · have hne : Place.ofWay way ≠ Place.ofWay way ++ spot.place := by simp [spot.ne_top]
          rw [Except.toOption, Option.getD_some, Tree.node?_put_of_ne hne]
          exact hmadeTended.root
        · have hne : Cache.wayFrom (Place.ofWay way) ≠ Place.ofWay way ++ spot.place := by
            intro heq
            exact ordinary (List.append_cancel_left heq).symm
          rw [Tree.file?_eq_some_iff] at hother
          refine hmadeTended.cache other (Tree.file?_eq_some_iff.mpr ?_)
          exact (Tree.node?_put_of_ne hne).symm.trans hother

theorem touch (h : Tended past way t) (spot : Spot) (mtime : Double) :
    Tended past way (Event.apply way t (.touch spot mtime)) := by
  unfold Event.apply
  dsimp only
  split
  · exact h
  · rename_i file hfile
    refine ⟨h.well.put_file hfile _, ?_, fun other hother => ?_⟩
    · have hne : Place.ofWay way ≠ Place.ofWay way ++ spot.place := by simp [spot.ne_top]
      rw [Tree.node?_put_of_ne hne]
      exact h.root
    · rw [Tree.file?_eq_some_iff] at hother
      by_cases heq : Cache.wayFrom (Place.ofWay way) = Place.ofWay way ++ spot.place
      · -- the cache file itself takes another time
        rw [heq, Tree.node?_put_self (Tree.ne_nil_of_file? hfile)] at hother
        obtain rfl : { file with mtime := mtime } = other := by simpa using hother
        exact h.cache file (heq ▸ hfile)
      · rw [Tree.node?_put_of_ne heq] at hother
        exact h.cache other (Tree.file?_eq_some_iff.mpr hother)

theorem delete (h : Tended past way t) (spot : Spot) :
    Tended past way (Event.apply way t (.delete spot)) := by
  refine ⟨h.well.remove _, ?_, fun file hfile => h.cache file (Tree.file?_of_file?_remove hfile)⟩
  have houtside : ¬ Place.ofWay way ++ spot.place <+: Place.ofWay way := by
    intro hle
    have hlength := hle.length_le
    have hpos := List.length_pos_iff.mpr spot.ne_top
    rw [List.length_append] at hlength
    omega
  rw [Event.apply, Tree.node?_remove houtside]
  exact h.root

end Tended

/-! ### Whole histories -/

section Run

variable {start : Tree} {history before after : List Event}

theorem play_concat (way : List String) (start : Tree) (before : List Event) (event : Event) :
    play way start (before ++ [event]) = event.apply way (play way start before) := by
  simp [play]

/-- The scripts that a history shows at places with names. -/
def shownScripts (way : List String) (start : Tree) (history : List Event) : Past :=
  fun place file => Shows way start history place file ∧ ∀ name ∈ place, IsName name

theorem Untouched.tended (h : Untouched way start) (past : Past) : Tended past way start := by
  refine ⟨h.well, ?_, fun file hfile => ?_⟩
  · simpa [Tree.isDirectory] using h.root
  · simp [h.no_cache] at hfile

namespace FairHistory

theorem fair (h : FairHistory way start history) : (shownScripts way start history).Fair where
  ne_top := fun _ _ hshown => Scan.ne_nil_of_isWanted hshown.1.1
  names := fun _ _ hshown name hname => (hshown.2 name hname).slash_notMem
  parses := fun place file hshown => h.parses place file hshown.1
  digests := fun place place' file file' hshown hshown' =>
    h.digests place place' file file' hshown.1 hshown'.1
  stamps := fun place file file' hshown hshown' => h.stamps place file file' hshown.1 hshown'.1

end FairHistory

theorem Tended.shown (hsplit : history = before ++ after)
    (htended : Tended past way (play way start before)) (place : Place) (file : FileState)
    (hwanted : Scan.isWanted [] place = true)
    (hfile : (play way start before).file? (Place.ofWay way ++ place) = some file) :
    shownScripts way start history place file := by
  refine ⟨⟨hwanted, before, after, hsplit, hfile⟩, fun name hname => ?_⟩
  exact htended.well.names_of_node? (Tree.file?_eq_some_iff.mp hfile) name
    (List.mem_append_right _ hname)

namespace FairHistory

/-- A scan at a moment of a history at which the cache file is sound. -/
theorem scan_spec (h : FairHistory way start history) {env : Environment} {clock : Clock}
    {options : Scan.Options} (hsplit : history = before ++ .scan env clock options :: after)
    (htended : Tended (shownScripts way start history) way (play way start before)) :
    (∃ s report, (Scan.scan env clock [] options (play way start before) way).result = .ok report ∧
        report.files = Scan.outcomes s ∧
        s.results.Perm
          ((Scan.find (play way start before) (Place.ofWay way) options.exclude).map
            (Scan.entryAt (play way start before) (Place.ofWay way)))) ∧
      Tended (shownScripts way start history) way
        (Scan.scan env clock [] options (play way start before) way).tree := by
  obtain ⟨s, hgathered, hperm, hsound⟩ :=
    htended.gathered h.fair (htended.shown hsplit) env clock options
  have hreads : options.useCache = true →
      (Scan.keptCache clock options (play way start before) (Place.ofWay way) s).ReadsBack
        env.packer :=
    fun hcached => h.reads_back before env clock options after hsplit hcached _
      (Scan.savedCache?_of_ok hgathered)
  obtain ⟨⟨report, hresult, hfiles⟩, htree⟩ := htended.scan hsound hgathered hreads
  exact ⟨⟨s, report, hresult, hfiles, hperm⟩, htree⟩

/-- Every event keeps the cache file sound. -/
theorem tended_apply (h : FairHistory way start history) {event : Event}
    (hsplit : history = before ++ event :: after)
    (htended : Tended (shownScripts way start history) way (play way start before)) :
    Tended (shownScripts way start history) way (event.apply way (play way start before)) := by
  cases event with
  | write spot ordinary file => exact htended.write ordinary file
  | touch spot mtime => exact htended.touch spot mtime
  | delete spot => exact htended.delete spot
  | scan env clock options => exact (h.scan_spec hsplit htended).2

/-- The cache file is sound at every moment of a history. -/
theorem tended (h : FairHistory way start history) (hstart : Untouched way start)
    (hsplit : history = before ++ after) :
    Tended (shownScripts way start history) way (play way start before) := by
  induction before using List.reverseRecOn generalizing after with
  | nil => exact hstart.tended _
  | append_singleton before event ih =>
      have hsplit' : history = before ++ event :: after := by simpa using hsplit
      rw [play_concat]
      exact h.tended_apply hsplit' (ih hsplit')

end FairHistory

/-! ### Checking a history -/

/-- The trees of a history, from its start on. -/
def moments (way : List String) : Tree → List Event → List Tree
  | t, [] => [t]
  | t, event :: later => t :: moments way (event.apply way t) later

/-- The caches that the scans of a history save, each with the packer of its scan. -/
def savedCaches (way : List String) : Tree → List Event → List (MessagePack.Packer × Cache)
  | _, [] => []
  | t, event :: later =>
      let saved := match event with
        | .scan env clock options =>
            if options.useCache then
              (Scan.savedCache? env clock [] options t (Place.ofWay way)).toList.map (env.packer, ·)
            else []
        | _ => []
      saved ++ savedCaches way (event.apply way t) later

def scriptsOf (way : List String) (t : Tree) : List (Place × FileState) :=
  ((t.filesBelow (Place.ofWay way)).filter (Scan.isWanted [])).filterMap fun place =>
    (t.file? (Place.ofWay way ++ place)).map (place, ·)

theorem play_mem_moments : play way start before ∈ moments way start (before ++ after) := by
  induction before generalizing start with
  | nil => cases after <;> simp [play, moments]
  | cons event before ih => exact List.mem_cons_of_mem _ ih

theorem mem_savedCaches {env : Environment} {clock : Clock} {options : Scan.Options} {cache : Cache}
    (hcached : options.useCache = true)
    (hcache : cache ∈
      Scan.savedCache? env clock [] options (play way start before) (Place.ofWay way)) :
    (env.packer, cache) ∈ savedCaches way start (before ++ .scan env clock options :: after) := by
  induction before generalizing start with
  | nil => exact List.mem_append_left _ (by simpa [hcached, play] using hcache)
  | cons event before ih => exact List.mem_append_right _ (ih hcache)

theorem mem_scriptsOf {place : Place} {file : FileState} (hwanted : Scan.isWanted [] place = true)
    (hfile : t.file? (Place.ofWay way ++ place) = some file) : (place, file) ∈ scriptsOf way t := by
  have hbelow := Scan.mem_filesBelow_of_file? hfile
  exact List.mem_filterMap.mpr ⟨place, List.mem_filter.mpr ⟨hbelow, hwanted⟩, by simp [hfile]⟩

/-- A history is fair if the scripts that it shows, all of which are given, are. -/
theorem FairHistory.of_scripts (scripts : List (Place × FileState))
    (hscripts : ∀ t ∈ moments way start history, ∀ script ∈ scriptsOf way t, script ∈ scripts)
    (hparses : ∀ script ∈ scripts, script.2.parse.toOption.isSome = true)
    (hdigests : ∀ script ∈ scripts, ∀ script' ∈ scripts,
      script.2.digest = script'.2.digest → script.2.bytes = script'.2.bytes)
    (hstamps : ∀ script ∈ scripts, ∀ script' ∈ scripts, script.1 = script'.1 →
      script.2.mtime.eqValue script'.2.mtime = true → script.2.size = script'.2.size →
        script.2.bytes = script'.2.bytes)
    (hreads : ∀ saved ∈ savedCaches way start history, saved.2.ReadsBack saved.1) :
    FairHistory way start history := by
  have hmem : ∀ place file, Shows way start history place file → (place, file) ∈ scripts := by
    rintro place file ⟨hwanted, before, after, rfl, hfile⟩
    exact hscripts _ play_mem_moments _ (mem_scriptsOf hwanted hfile)
  refine ⟨fun place file h => ?_, fun place place' file file' h h' => ?_,
    fun place file file' h h' => ?_, fun before env clock options after hsplit hcached cache hcache => ?_⟩
  · have hsome := hparses _ (hmem place file h)
    cases hparse : file.parse with
    | error error => simp [hparse, Except.toOption] at hsome
    | ok parsed => exact ⟨parsed, rfl⟩
  · exact hdigests (place, file) (hmem place file h) (place', file') (hmem place' file' h')
  · exact hstamps (place, file) (hmem place file h) (place, file') (hmem place file' h') rfl
  · exact hreads (env.packer, cache) (hsplit ▸ mem_savedCaches hcached hcache)

/-! ### The cache does not show -/

/-- Every scan of a history returns what a scan without the cache would return at that moment. -/
theorem scan_history_eq_uncached (hstart : Untouched way start)
    (hfair : FairHistory way start history) {env : Environment} {clock : Clock}
    {options : Scan.Options} (hsplit : history = before ++ .scan env clock options :: after)
    (env' : Environment) (clock' : Clock) {plain : Scan.Options} (hplain : plain.useCache = false)
    (hexclude : plain.exclude = options.exclude) :
    ∃ report report',
      (Scan.scan env clock [] options (play way start before) way).result = .ok report ∧
      (Scan.scan env' clock' [] plain (play way start before) way).result = .ok report' ∧
      report.files = report'.files ∧
      FileOutcome.failures report.files = FileOutcome.failures report'.files ∧
      FileOutcome.skipped report.files = FileOutcome.skipped report'.files := by
  have htended := hfair.tended hstart hsplit
  obtain ⟨⟨s, report, hresult, hfiles, hperm⟩, -⟩ := hfair.scan_spec hsplit htended
  obtain ⟨s', hgathered', hperm', hsound'⟩ :=
    htended.gathered hfair.fair (htended.shown hsplit) env' clock' plain
  obtain ⟨⟨report', hresult', hfiles'⟩, -⟩ :=
    htended.scan hsound' hgathered' (by simp [hplain])
  have hkeys : (s.results.map Prod.fst).Nodup := by
    have hnodup := Scan.nodup_text_find htended.well (Place.ofWay way) options.exclude
    exact (hperm.map Prod.fst).nodup_iff.mpr (by rwa [List.map_map])
  have hsame : report.files = report'.files := by
    rw [hfiles, hfiles']
    exact Scan.outcomes_eq_of_perm (hperm.trans (hexclude ▸ hperm'.symm)) hkeys
  exact ⟨report, report', hresult, hresult', hsame, by rw [hsame], by rw [hsame]⟩

end Run

/-! ### A script that is touched, and edited later -/

namespace TouchedView

def spot : Spot :=
  ⟨["v.sql"], by decide, fun name hname => List.mem_singleton.mp hname ▸
    ⟨by decide, by decide, by decide⟩⟩

/-- A view of a table, written at an hour. -/
def script (table : String) (hour : Nat) : FileState :=
  ⟨Utf8.encode ("CREATE VIEW v AS SELECT a FROM " ++ table).toList, .ofRatio (hour * 3600) 1⟩

def start : Tree := ⟨"/scripts", []⟩

def clock : Clock := ⟨"2024-01-01T00:00:00", .ofRatio 86400 1⟩

def before : List Event :=
  [.write spot (by decide) (script "t" 1), .scan {} clock {}, .touch spot (script "t" 2).mtime]

def after : List Event := [.write spot (by decide) (script "u" 3)]

theorem untouched : Untouched [] start where
  well := ⟨by simp [start], by simp [start], by simp [start], by simp [start]⟩
  root := by decide
  no_cache := by decide

theorem fair : FairHistory [] start (before ++ .scan {} clock {} :: after) := by
  refine .of_scripts [(spot.place, script "t" 1), (spot.place, script "t" 2),
    (spot.place, script "u" 3)] ?_ ?_ ?_ ?_ ?_
  · decide +kernel
  · decide +kernel
  · decide +kernel
  · decide +kernel
  · decide +kernel

end TouchedView

/-- The scan after the script was touched takes its result from the cache. -/
theorem scan_history_eq_uncached_touched :
    Untouched [] TouchedView.start ∧
    FairHistory [] TouchedView.start
      (TouchedView.before ++ .scan {} TouchedView.clock {} :: TouchedView.after) ∧
    ∃ report report',
      (Scan.scan {} TouchedView.clock [] {} (play [] TouchedView.start TouchedView.before) []).result =
        .ok report ∧
      (Scan.scan {} TouchedView.clock [] { useCache := false, workers := some 4 }
        (play [] TouchedView.start TouchedView.before) []).result = .ok report' ∧
      report.files = report'.files ∧
      FileOutcome.failures report.files = FileOutcome.failures report'.files ∧
      FileOutcome.skipped report.files = FileOutcome.skipped report'.files :=
  ⟨TouchedView.untouched, TouchedView.fair,
    scan_history_eq_uncached TouchedView.untouched TouchedView.fair rfl _ _ rfl rfl⟩

end ScriptGraph
