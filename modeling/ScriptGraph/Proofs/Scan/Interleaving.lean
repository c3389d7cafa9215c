import ScriptGraph.Proofs.Scan.History
import ScriptGraph.Proofs.Scan.Reports

/-!
# Scripts that are written to while they are visited

A visitor looks at its file three times: it reads the content, takes the time and the size, and reads
once more for the digest.  Another process may write the file before, between and after these looks.
The entry that the visitor leaves in the cache may then have the record of one content and the stamp
of another.  The next scan takes the record for the current one exactly if the stamp is that of the
current content.  A cache that could not be written does no harm.
-/

namespace ScriptGraph

/-! ### Writing and looking -/

inductive Move where
  | write (file : FileState)
  | look

def Move.written : Move → List FileState
  | write file => [file]
  | look => []

/-- A file, and what the visitor has seen of it, the first look first. -/
structure Watched where
  file : FileState
  seen : List FileState := []

namespace Watched

def step (w : Watched) : Move → Watched
  | .write file => { w with file := file }
  | .look => { w with seen := w.seen ++ [w.file] }

def run (start : FileState) (moves : List Move) : Watched := moves.foldl step ⟨start, []⟩

/-- The states that a file takes, the first one included. -/
def states (start : FileState) (moves : List Move) : List FileState :=
  start :: moves.flatMap Move.written

/-- No state has the time of an earlier one. -/
def Fresh (states : List FileState) : Prop :=
  states.Pairwise fun earlier later => later.mtime.eqValue earlier.mtime = false

/-- What holds of a watched file that has taken the given states.  If a state that was seen has the
time of the file, nothing was written since. -/
structure Agrees (states : List FileState) (w : Watched) : Prop where
  file_mem : w.file ∈ states
  seen_subset : w.seen ⊆ states
  unchanged : ∀ before file after, w.seen = before ++ file :: after →
    w.file.mtime.eqValue file.mtime = true → ∀ later ∈ after, later = w.file

variable {start : FileState} {moves : List Move} {w : Watched}

theorem Agrees.write {states : List FileState} {file : FileState} (h : w.Agrees states)
    (hfresh : Fresh (states ++ [file])) : (w.step (.write file)).Agrees (states ++ [file]) := by
  refine ⟨by simp [step], fun other hother => List.mem_append_left _ (h.seen_subset hother), ?_⟩
  intro before other after hseen htime
  have hmem : other ∈ states := h.seen_subset (by rw [show w.seen = _ from hseen]; simp)
  have hne := (List.pairwise_append.mp hfresh).2.2 other hmem file List.mem_cons_self
  simp only [step] at htime
  simp [hne] at htime

theorem Agrees.look {states : List FileState} (h : w.Agrees states) :
    (w.step .look).Agrees states := by
  refine ⟨h.file_mem, ?_, ?_⟩
  · intro file hfile
    rcases List.mem_append.mp hfile with hold | hnew
    · exact h.seen_subset hold
    · exact List.mem_singleton.mp hnew ▸ h.file_mem
  · intro before file after hseen htime
    -- the new look is the last one: either it is the given state, or it comes after it
    rcases List.eq_nil_or_concat after with rfl | ⟨after, last, rfl⟩
    · simp
    · rw [List.concat_eq_append] at hseen ⊢
      have hsplit : w.seen ++ [w.file] = (before ++ file :: after) ++ [last] := by
        simpa [step] using hseen
      obtain ⟨hold, hlast⟩ := List.append_inj' hsplit rfl
      obtain rfl : w.file = last := by simpa using hlast
      intro later hlater
      rcases List.mem_append.mp hlater with hmem | hmem
      · exact h.unchanged before file after hold htime later hmem
      · exact List.mem_singleton.mp hmem

theorem Agrees.step {states : List FileState} {move : Move} (h : w.Agrees states)
    (hfresh : Fresh (states ++ move.written)) : (w.step move).Agrees (states ++ move.written) := by
  cases move with
  | write file => exact h.write hfresh
  | look => simpa [Move.written] using h.look

theorem states_concat (start : FileState) (moves : List Move) (move : Move) :
    states start (moves ++ [move]) = states start moves ++ move.written := by
  simp [states]

theorem agrees_run (hfresh : Fresh (states start moves)) :
    (run start moves).Agrees (states start moves) := by
  induction moves using List.reverseRecOn with
  | nil => exact ⟨by simp [run, states], by simp [run], by simp [run]⟩
  | append_singleton moves move ih =>
      rw [states_concat] at hfresh ⊢
      have hbefore := ih (List.pairwise_append.mp hfresh).1
      have hrun : run start (moves ++ [move]) = (run start moves).step move := by simp [run]
      rw [hrun]
      exact hbefore.step hfresh

/-- If the second of three looks saw the time that the file has at the end, the third one saw the file
as it is at the end. -/
theorem third_eq_of_time {read stat digest : FileState} (hfresh : Fresh (states start moves))
    (hseen : (run start moves).seen = [read, stat, digest])
    (htime : (run start moves).file.mtime.eqValue stat.mtime = true) :
    digest = (run start moves).file :=
  (agrees_run hfresh).unchanged [read] stat [digest] hseen htime digest List.mem_cons_self

end Watched

/-! ### Visits and entries -/

namespace Scan

variable {room : Nat} {env : Environment} {t : Tree} {top place : Place} {options : Options}
  {cache : Cache}

/-- What visitors bring back when each of them sees its file for itself. -/
def completionsOf (see : Place → Sight) (places : List Place) : List Completion :=
  places.map fun place => ⟨Place.text place, ((see place).visit (Place.text place)).1⟩

theorem look_tree (t : Tree) (file : ScriptFile) : (look t [] file).2 = t := rfl

/-- Where nothing is written, every visitor sees its file as it is in the tree. -/
theorem visitAtOnce_eq_completionsOf (t : Tree) (top : Place) (places : List Place) :
    visitAtOnce top [] places t =
      (completionsOf (fun place => (look t [] (scriptFile t top place)).1) places, t) := by
  induction places with
  | nil => rfl
  | cons place later ih => rw [visitAtOnce_cons, look_tree, ih]; rfl

def broughtBy (env : Environment) (see : Place → Sight) (options : Options) (t : Tree) (top : Place)
    (cache : Cache) : State :=
  let sifted := siftFound env options t top cache
  absorbAll options.useCache sifted.state (completionsOf see sifted.stale)

/-- Without a writer this is what the scan has found. -/
theorem broughtBy_look (env : Environment) (options : Options) (t : Tree) (top : Place)
    (cache : Cache) :
    broughtBy env (fun place => (look t [] (scriptFile t top place)).1) options t top cache =
      (broughtTogether env [] options t top cache).1 := by
  simp only [broughtBy, broughtTogether, visitAtOnce_eq_completionsOf]

theorem file_of_outcomeOf {name : String} {read : Except ReadError (List UInt8)}
    {outcome : FileOutcome} (h : (outcomeOf name read).1 = .ok outcome) : outcome.file = name := by
  unfold outcomeOf at h
  split at h
  · simp at h
  · exact (Except.ok.inj h) ▸ rfl
  · split at h
    · simp at h
    · exact (Except.ok.inj h) ▸ rfl

theorem file_of_visit {sight : Sight} {name : String} {visit : Visit}
    (h : (sight.visit name).1 = .ok visit) : visit.outcome.file = name := by
  cases houtcome : (outcomeOf name sight.read).1 with
  | error error =>
      rw [Sight.visit_of_error houtcome] at h
      simp at h
  | ok outcome =>
      rw [Sight.visit_of_outcome houtcome] at h
      obtain rfl := Except.ok.inj h
      exact file_of_outcomeOf houtcome

/-- The entry that a visitor leaves in the cache, if any. -/
def deposited? (sight : Sight) (name : String) : Option CacheEntry :=
  (sight.visit name).1.toOption.bind entryOf

theorem get?_absorbCompletion (s : State) (sight : Sight) (name other : String) :
    (absorbCompletion true s ⟨name, (sight.visit name).1⟩).cache.get? other =
      if other = name then (deposited? sight name).or (s.cache.get? other)
      else s.cache.get? other := by
  unfold absorbCompletion deposited?
  cases hvisit : (sight.visit name).1 with
  | error error => simp [Except.toOption]
  | ok visit =>
      simp only [absorb, if_true, Except.toOption, Option.bind_some]
      cases hentry : entryOf visit with
      | none => simp
      | some entry => simp only [file_of_visit hvisit, Cache.get?_put, Option.some_or]

theorem version_absorbAll (useCache : Bool) (s : State) (completions : List Completion) :
    (absorbAll useCache s completions).cache.version = s.cache.version := by
  induction completions generalizing s with
  | nil => rfl
  | cons c completions ih =>
      have hfirst : (absorbCompletion useCache s c).cache.version = s.cache.version := by
        unfold absorbCompletion
        split
        · unfold absorb
          dsimp only
          split
          · split <;> rfl
          · rfl
        · rfl
      exact (ih _).trans hfirst

theorem get?_absorbAll_of_notMem {see : Place → Sight} {places : List Place} {name : String}
    (h : name ∉ places.map Place.text) (s : State) :
    (absorbAll true s (completionsOf see places)).cache.get? name = s.cache.get? name := by
  induction places generalizing s with
  | nil => rfl
  | cons place later ih =>
      rw [List.map_cons, List.mem_cons, not_or] at h
      obtain ⟨hfirst, hlater⟩ := h
      exact (ih hlater _).trans ((get?_absorbCompletion _ _ _ _).trans (if_neg hfirst))

/-- The visitor of a file decides on its entry, and no other one does. -/
theorem get?_absorbAll_of_mem {see : Place → Sight} {places : List Place} (hplace : place ∈ places)
    (hnodup : (places.map Place.text).Nodup) (s : State) :
    (absorbAll true s (completionsOf see places)).cache.get? (Place.text place) =
      (deposited? (see place) (Place.text place)).or (s.cache.get? (Place.text place)) := by
  induction places generalizing s with
  | nil => simp at hplace
  | cons first later ih =>
      obtain ⟨hfirst, hlater⟩ := List.nodup_cons.mp hnodup
      rcases List.mem_cons.mp hplace with rfl | hmem
      · exact (get?_absorbAll_of_notMem hfirst _).trans
          ((get?_absorbCompletion _ _ _ _).trans (if_pos rfl))
      · have hne : Place.text place ≠ Place.text first := by
          intro heq
          exact hfirst (heq ▸ List.mem_map_of_mem hmem)
        have hstep := get?_absorbCompletion s (see first) (Place.text first) (Place.text place)
        rw [if_neg hne] at hstep
        have hrest := ih hmem hlater
          (absorbCompletion true s ⟨Place.text first, ((see first).visit (Place.text first)).1⟩)
        rw [hstep] at hrest
        exact hrest

/-! ### Entries of two contents -/

def sightOf (read stat digest : FileState) : Sight := ⟨.ok read.bytes, some stat, some digest⟩

def mixedEntry (parsed : Option ParsedScript) (stat digest : FileState) : CacheEntry :=
  ⟨.float stat.mtime, .int stat.size, ParsedScript.toRecord parsed, .text digest.digest⟩

variable {read stat digest last : FileState} {parsed : Option ParsedScript}

theorem deposited?_sightOf (h : read.parse = .ok parsed) (name : String) :
    deposited? (sightOf read stat digest) name =
      if stat.mtime.isPositive then some (mixedEntry parsed stat digest) else none := by
  have hvisit : ((sightOf read stat digest).visit name).1 =
      .ok ⟨⟨name, .ofParse parsed⟩, some ⟨stat.mtime, stat.size, digest.digest⟩⟩ := by
    rw [Sight.visit_of_outcome (Sight.outcomeOf_ok h)]
    cases parsed <;> rfl
  rw [deposited?, hvisit]
  cases parsed <;> rfl

theorem digest_ne_empty (file : FileState) : file.digest ≠ "" := by
  have hlength : ∀ n, (Sha256.bigEndian 4 n).length = 4 := MessagePack.length_bigEndian 4
  intro hempty
  have hcount : file.digest.toList.length = 0 := by rw [hempty]; rfl
  simp [FileState.digest, Sha256.hexDigest, hlength] at hcount

/-- The entry is fresh for a file exactly if it has the size of the file, and its time or the digest
of its content. -/
theorem refresh?_mixedEntry :
    ((mixedEntry parsed stat digest).refresh? last).map CacheEntry.record =
      if stat.size = last.size ∧
          (last.mtime.eqValue stat.mtime = true ∨ last.digest = digest.digest) then
        some (ParsedScript.toRecord parsed)
      else none := by
  have hsizes : (mixedEntry parsed stat digest).size.eqInt last.size = true ↔
      stat.size = last.size := by
    change ((last.size : Int) == (stat.size : Int)) = true ↔ _
    rw [beq_iff_eq, Int.natCast_inj, eq_comm]
  have htimes : (mixedEntry parsed stat digest).mtime.eqDouble last.mtime =
      last.mtime.eqValue stat.mtime := rfl
  have hdigests : (mixedEntry parsed stat digest).hasDigestOf last = true ↔
      last.digest = digest.digest := by
    simp [mixedEntry, CacheEntry.hasDigestOf, digest_ne_empty]
  have hrecord : (mixedEntry parsed stat digest).record = ParsedScript.toRecord parsed := rfl
  unfold CacheEntry.refresh?
  by_cases hsize : stat.size = last.size
  · rw [hsizes.mpr hsize, htimes]
    by_cases htime : last.mtime.eqValue stat.mtime = true
    · simp [htime, hsize, hrecord]
    · by_cases hdigest : last.digest = digest.digest
      · simp [htime, hsize, hdigests.mpr hdigest, hdigest, hrecord]
      · simp [htime, hdigest, mt hdigests.mp hdigest]
  · simp [mt hsizes.mp hsize, hsize]

/-! ### Keeping entries -/

def isPathAmong (paths : List String) : Key → Bool
  | .text s => paths.contains s
  | .bytes _ => false

theorem get?_keepOnly {cache : Cache} {name : String} {paths : List String} (h : name ∈ paths) :
    (cache.keepOnly paths).get? name = cache.get? name := by
  have hkeeps : isPathAmong paths (.text name) = true := by simpa [isPathAmong] using h
  have hfiles : (cache.keepOnly paths).files =
      cache.files.filter fun e => isPathAmong paths e.1 := rfl
  rw [Cache.get?, hfiles, Entries.lookup_filter, if_pos hkeeps]
  rfl

theorem tree_finish {packer : MessagePack.Packer} {clock : Clock} {found : List Place} {s : State}
    (hcached : options.useCache = true) :
    (finish packer clock options t top found s).tree =
      (saveCache packer clock t top found s.cache).tree := by
  unfold finish
  dsimp only
  rw [if_pos hcached]
  split <;> rfl

/-- What the visitors see while one script is written to: its visitor sees the given, and the others
see what is in the tree. -/
def seeing (t : Tree) (top place : Place) (sight : Sight) : Place → Sight := fun other =>
  if other = place then sight else (look t [] (scriptFile t top other)).1

theorem readable_of_shown {past : Past} {exclude : List String} (hfair : past.Fair)
    (hsizes : ∀ place file, past place file → file.size < 2 ^ 64)
    (hshown : ∀ place ∈ find t top exclude, ∃ file, t.file? (top ++ place) = some file ∧
      past place file) : Readable t top exclude := by
  intro place hplace
  obtain ⟨file, hfile, hpast⟩ := hshown place hplace
  obtain ⟨parsed, hparse⟩ := hfair.parses place file hpast
  exact ⟨file, parsed, ⟨hfile, hparse⟩, hsizes place file hpast⟩

/-- An entry that describes a file of the past is reused for the content of this file only. -/
theorem reportedAt_of_describes {past : Past} (hfair : past.Fair) {file : FileState}
    {parsed : Option ParsedScript} (hholds : Holds t top place file parsed) (hpast : past place file)
    (hentry : ∀ entry, cache.get? (Place.text place) = some entry →
      past.Describes (.text (Place.text place)) entry) :
    reportedAt room t top cache place = .ofParse parsed := by
  rw [reportedAt, hholds.resultAt_eq]
  cases hreused : reused? room t top cache place with
  | none => rfl
  | some result =>
      obtain ⟨record, hfresh, hreused⟩ := Option.bind_eq_some_iff.mp hreused
      obtain ⟨found, hfound, hresult⟩ := Option.bind_eq_some_iff.mp hreused
      simp only [freshRecord?, hholds.file_eq, Option.bind_eq_bind, Option.bind_some,
        Option.bind_eq_some_iff, Option.map_eq_some_iff] at hfresh
      obtain ⟨entry, hget, fresh, hfresh, rfl⟩ := hfresh
      obtain ⟨-, other, hother, hrecord⟩ := (hentry entry hget).refresh hfair hpast hfresh
      obtain rfl : parsed = other := Except.ok.inj (hholds.parse_eq.symm.trans hother)
      rw [hrecord, FileState.ofRecord_parse room hother] at hfound
      rw [Option.getD_some, ← Option.some.inj hresult, ← Option.some.inj hfound]

end Scan

/-- A scan that visits a script while the script is written to. -/
structure WatchedScan (past : Past) where
  env : Environment
  tree : Tree
  way : List String
  clock : Clock
  options : Scan.Options
  cached : options.useCache = true
  /-- The cache file, if there is one, describes files that were shown. -/
  tended : Tended past way tree
  shown : ∀ place file, Scan.isWanted [] place = true →
    tree.file? (Place.ofWay way ++ place) = some file → past place file
  cache : Cache
  cache_eq : (Scan.startCache clock options tree (Place.ofWay way)).1 = .ok cache
  place : Place
  stale : place ∈ Scan.staleFiles env clock options tree (Place.ofWay way)
  start : FileState
  file_eq : tree.file? (Place.ofWay way ++ place) = some start
  moves : List Move
  fresh : Watched.Fresh (Watched.states start moves)
  states_shown : ∀ file ∈ Watched.states start moves, past place file
  read : FileState
  stat : FileState
  digest : FileState
  seen : (Watched.run start moves).seen = [read, stat, digest]

namespace WatchedScan

variable {past : Past} (w : WatchedScan past)

def root : Place := Place.ofWay w.way

def last : FileState := (Watched.run w.start w.moves).file

def leftCache : Cache :=
  Scan.keptCache w.clock w.options w.tree w.root
    (Scan.broughtBy w.env (Scan.seeing w.tree w.root w.place (Scan.sightOf w.read w.stat w.digest))
      w.options w.tree w.root w.cache)

def saving : Cache.Saving := Cache.save w.env.packer w.tree w.root w.clock.seconds w.leftCache

/-- The tree when the scan has ended and the writing has stopped. -/
def after : Tree := w.saving.tree.put (w.root ++ w.place) (.file w.last)

/-! ### What was shown -/

theorem agrees : (Watched.run w.start w.moves).Agrees (Watched.states w.start w.moves) :=
  Watched.agrees_run w.fresh

theorem last_shown : past w.place w.last := w.states_shown _ w.agrees.file_mem

theorem read_shown : past w.place w.read :=
  w.states_shown _ (w.agrees.seen_subset (by simp [w.seen]))

theorem digest_shown : past w.place w.digest :=
  w.states_shown _ (w.agrees.seen_subset (by simp [w.seen]))

theorem found_shown {place : Place} (h : place ∈ Scan.find w.tree w.root w.options.exclude) :
    ∃ file, w.tree.file? (w.root ++ place) = some file ∧ past place file := by
  obtain ⟨hwanted, file, hfile⟩ := (Scan.mem_find_iff w.tended.well).mp h
  exact ⟨file, hfile, w.shown place file (Scan.isWanted_nil hwanted) hfile⟩

/-! ### The cache that is left -/

def sifted : Scan.Sifted := Scan.siftFound w.env w.options w.tree w.root w.cache

theorem starts : Scan.Starts w.env w.clock w.options w.tree w.root w.cache := by
  obtain ⟨cache, hstarts⟩ := Scan.exists_starts_of_stale (List.ne_nil_of_mem w.stale)
  obtain rfl : cache = w.cache := Except.ok.inj (hstarts.startCache_eq.symm.trans w.cache_eq)
  exact hstarts

theorem room_le (place : Place) (hplace : place ∈ Scan.find w.tree w.root w.options.exclude) :
    ¬ Scan.Exhausts w.env.stackRoom w.tree w.root w.cache place :=
  (Scan.failure_siftFound_eq_none_iff w.tended.well w.cached).mp w.starts.failure_eq place hplace

theorem stale_eq : w.sifted.stale =
    (Scan.find w.tree w.root w.options.exclude).filter
      fun place => (Scan.reused? w.env.stackRoom w.tree w.root w.cache place).isNone :=
  (Scan.siftFound_eq w.tended.well w.cached w.room_le).2.1

theorem place_mem_stale : w.place ∈ w.sifted.stale :=
  w.starts.staleFiles_eq ▸ w.stale

theorem place_mem_find : w.place ∈ Scan.find w.tree w.root w.options.exclude := by
  have h := w.place_mem_stale
  rw [w.stale_eq] at h
  exact List.mem_of_mem_filter h

theorem nodup_stale : (w.sifted.stale.map Place.text).Nodup := by
  rw [w.stale_eq]
  exact (Scan.nodup_text_find w.tended.well _ _).sublist (List.filter_sublist.map _)

theorem cache_sound : w.cache.Sound past := by
  obtain ⟨cache, hstart, hsound⟩ := w.tended.startCache w.clock w.options
  obtain rfl : cache = w.cache := Except.ok.inj (hstart.symm.trans w.cache_eq)
  exact hsound

theorem sifted_sound (hfair : past.Fair) : w.sifted.state.cache.Sound past :=
  (Scan.siftAll_spec hfair (fun _ => w.found_shown) (Scan.nodup_text_find w.tended.well _ _)
    w.cache_sound w.options.useCache).2.1

theorem regular_leftCache : w.leftCache.Regular :=
  Cache.All.keepOnly (Scan.absorbAll_all
    (Scan.siftAll_all CacheEntry.Regular.refresh w.cache_sound.regular _)
    fun _ _ _ _ _ => Scan.regular_of_entryOf) _ _

theorem get?_leftCache {parsed : Option ParsedScript} (hparse : w.read.parse = .ok parsed) :
    w.leftCache.get? (Place.text w.place) =
      (if w.stat.mtime.isPositive then some (Scan.mixedEntry parsed w.stat w.digest) else none).or
        (w.sifted.state.cache.get? (Place.text w.place)) := by
  have hkept : w.leftCache.get? (Place.text w.place) =
      (Scan.absorbAll true w.sifted.state (Scan.completionsOf
        (Scan.seeing w.tree w.root w.place (Scan.sightOf w.read w.stat w.digest))
        w.sifted.stale)).cache.get? (Place.text w.place) := by
    rw [← w.cached]
    exact Scan.get?_keepOnly (List.mem_map_of_mem w.place_mem_find)
  rw [hkept, Scan.get?_absorbAll_of_mem w.place_mem_stale w.nodup_stale, Scan.seeing, if_pos rfl,
    Scan.deposited?_sightOf hparse]

theorem version_leftCache (hfair : past.Fair) : w.leftCache.version = Cache.currentVersion :=
  (Scan.version_absorbAll _ _ _).trans (w.sifted_sound hfair).version

/-! ### The tree that is left -/

theorem wanted_ne_cacheFile {root place : Place} (h : Scan.isWanted [] place = true) :
    root ++ place ≠ Cache.wayFrom root := by
  intro heq
  obtain rfl : place = Cache.wayFrom [] := List.append_cancel_left heq
  exact absurd h (by decide)

theorem place_wanted : Scan.isWanted [] w.place = true :=
  Scan.isWanted_nil ((Scan.mem_find_iff w.tended.well).mp w.place_mem_find).1

theorem saving_spec :
    w.saving.tree.WellFormed ∧
      (∀ place, place ≠ Cache.wayFrom w.root → w.saving.tree.file? place = w.tree.file? place) ∧
      w.saving.tree.node? w.root = some .directory := by
  obtain ⟨hwell, hfiles, hroot⟩ :=
    Cache.tree_save w.tended.well w.tended.names_cache w.env.packer w.clock.seconds w.leftCache
  exact ⟨hwell, hfiles, hroot w.tended.root⟩

theorem saved_file : w.saving.tree.file? (w.root ++ w.place) = some w.start :=
  (w.saving_spec.2.1 _ (wanted_ne_cacheFile w.place_wanted)).trans w.file_eq

theorem wellFormed_after : w.after.WellFormed := w.saving_spec.1.put_file w.saved_file _

theorem isDirectory_after : w.after.isDirectory w.root = true := by
  have hne : w.root ≠ w.root ++ w.place := by
    intro heq
    have hempty : w.place = [] := by simpa using heq
    exact Scan.ne_nil_of_isWanted w.place_wanted hempty
  rw [Tree.isDirectory, after, Tree.node?_put_of_ne hne, w.saving_spec.2.2]
  rfl

theorem file?_after : w.after.file? (w.root ++ w.place) = some w.last :=
  Tree.file?_eq_some_iff.mpr (Tree.node?_put_self (Tree.ne_nil_of_file? w.saved_file))

theorem file?_after_of_ne {place : Place} (hwanted : Scan.isWanted [] place = true)
    (hne : place ≠ w.place) : w.after.file? (w.root ++ place) = w.tree.file? (w.root ++ place) := by
  have hplaces : w.root ++ place ≠ w.root ++ w.place := fun heq => hne (List.append_cancel_left heq)
  rw [← w.saving_spec.2.1 _ (wanted_ne_cacheFile hwanted), after, Tree.file?,
    Tree.node?_put_of_ne hplaces]
  rfl

/-- All scripts of the tree that is left were shown. -/
theorem after_shown {place : Place} {file : FileState} (hwanted : Scan.isWanted [] place = true)
    (hfile : w.after.file? (w.root ++ place) = some file) : past place file := by
  by_cases heq : place = w.place
  · subst heq
    obtain rfl : w.last = file := Option.some.inj (w.file?_after.symm.trans hfile)
    exact w.last_shown
  · rw [w.file?_after_of_ne hwanted heq] at hfile
    exact w.shown place file hwanted hfile

theorem readable_after (hfair : past.Fair)
    (hsizes : ∀ place file, past place file → file.size < 2 ^ 64) (exclude : List String) :
    Scan.Readable w.after w.root exclude := by
  refine Scan.readable_of_shown hfair hsizes fun place hplace => ?_
  obtain ⟨hwanted, file, hfile⟩ := (Scan.mem_find_iff w.wellFormed_after).mp hplace
  exact ⟨file, hfile, w.after_shown (Scan.isWanted_nil hwanted) hfile⟩

theorem cacheFile_after : w.after.file? (Cache.wayFrom w.root) =
    w.saving.tree.file? (Cache.wayFrom w.root) := by
  have hne : Cache.wayFrom w.root ≠ w.root ++ w.place := (wanted_ne_cacheFile w.place_wanted).symm
  rw [after, Tree.file?, Tree.node?_put_of_ne hne]
  rfl

/-- The next scan starts with the cache that was left. -/
theorem startCache_after (hfair : past.Fair) (hwrote : w.saving.Wrote)
    (hreads : w.leftCache.ReadsBack w.env.packer) (clock : Clock) {options : Scan.Options}
    (hcached : options.useCache = true) :
    (Scan.startCache clock options w.after w.root).1 = .ok w.leftCache := by
  obtain ⟨bytes, place, hbytes, hfind⟩ := hwrote.file
  obtain ⟨-, hnode⟩ := Tree.node?_of_find w.tended.names_cache hfind
  have hfile : w.after.file? (Cache.wayFrom w.root) = some ⟨bytes, w.clock.seconds⟩ :=
    w.cacheFile_after.trans (Tree.file?_eq_some_iff.mpr hnode)
  have hload : (Cache.load w.after w.root).cache? = .ok (some w.leftCache) := by
    rw [Cache.load_of_file w.wellFormed_after hfile,
      hreads.loadBytes (w.version_leftCache hfair) hbytes]
    rfl
  simp only [Scan.startCache, hcached, if_true, hload]

/-- If the cache could not be written, the cache file is the one that was there before. -/
theorem tended_after (hnot : ¬ w.saving.Wrote) (hreads : w.leftCache.ReadsBack w.env.packer) :
    Tended past w.way w.after := by
  obtain ⟨bytes, hbytes, -⟩ := hreads
  refine ⟨w.wellFormed_after, by simpa [Tree.isDirectory, root] using w.isDirectory_after,
    fun file hfile => ?_⟩
  have hsame := Cache.file?_save_of_not_wrote w.tended.well w.tended.names_cache ⟨bytes, hbytes⟩ hnot
    (Cache.wayFrom w.root)
  exact w.tended.cache file (hsame.symm.trans (w.cacheFile_after.symm.trans hfile))

/-! ### Scans without a writer -/

theorem eq_start (h : Watched.states w.start w.moves = [w.start]) {file : FileState}
    (hseen : file ∈ (Watched.run w.start w.moves).seen) : file = w.start := by
  have hmem := w.agrees.seen_subset hseen
  rw [h] at hmem
  exact List.mem_singleton.mp hmem

theorem seeing_eq_look (h : Watched.states w.start w.moves = [w.start]) :
    Scan.seeing w.tree w.root w.place (Scan.sightOf w.read w.stat w.digest) =
      fun place => (look w.tree [] (Scan.scriptFile w.tree w.root place)).1 := by
  have hread : w.read = w.start := w.eq_start h (by simp [w.seen])
  have hstat : w.stat = w.start := w.eq_start h (by simp [w.seen])
  have hdigest : w.digest = w.start := w.eq_start h (by simp [w.seen])
  have hlook := Scan.look_eq w.tended.well w.file_eq
  funext place
  unfold Scan.seeing
  split
  · rename_i heq
    subst heq
    rw [hread, hstat, hdigest]
    exact (congrArg Prod.fst hlook).symm
  · rfl

/-- If nothing is written, the tree that is left is that of the scan. -/
theorem tree_scan_eq (hfair : past.Fair)
    (hsizes : ∀ place file, past place file → file.size < 2 ^ 64)
    (h : Watched.states w.start w.moves = [w.start]) :
    (Scan.scan w.env w.clock [] w.options w.tree w.way).tree = w.saving.tree := by
  have hroot : w.tree.isDirectory (Place.ofWay w.way) = true := by
    simp [Tree.isDirectory, w.tended.root]
  have hreadable := Scan.readable_of_shown hfair hsizes fun _ => w.found_shown
  obtain ⟨-, htree, -, -⟩ :=
    Scan.broughtTogether_reports w.tended.well w.cached w.room_le hreadable
  have hscan := (Scan.scan_of_together hroot
    (Scan.gathered_of_room w.tended.well w.cached w.cache_eq w.room_le hreadable)).2
  have hleft : w.leftCache = Scan.keptCache w.clock w.options w.tree w.root
      (Scan.broughtTogether w.env [] w.options w.tree w.root w.cache).1 := by
    rw [leftCache, w.seeing_eq_look h, Scan.broughtBy_look]
  rw [hscan, Scan.runTogether, Scan.tree_finish w.cached, (Scan.saveCache_eq ..).1, saving, hleft]
  exact congrArg (fun t => (Cache.save _ t _ _ _).tree) htree

/-! ### What the next scan reports -/

/-- The record in the cache is that of a content which the script no longer has, and the stamp is that
of the content which it has. -/
structure Poisoned : Prop where
  parse_ne : w.read.parse ≠ w.last.parse
  /-- Only a file with a time is kept. -/
  time_positive : w.stat.mtime.isPositive = true
  size_eq : w.stat.size = w.last.size
  bytes_eq : w.digest.bytes = w.last.bytes

theorem digest_eq_iff (hfair : past.Fair) :
    w.last.digest = w.digest.digest ↔ w.digest.bytes = w.last.bytes := by
  constructor
  · intro h
    exact (hfair.digests _ _ _ _ w.last_shown w.digest_shown h).symm
  · intro h
    rw [FileState.digest, FileState.digest, h]

/-- The stamp that was left is that of the last content exactly if the third look saw this content. -/
theorem fresh_iff (hfair : past.Fair) :
    (w.last.mtime.eqValue w.stat.mtime = true ∨ w.last.digest = w.digest.digest) ↔
      w.digest.bytes = w.last.bytes := by
  rw [w.digest_eq_iff hfair]
  constructor
  · rintro (htime | hbytes)
    · rw [Watched.third_eq_of_time w.fresh w.seen htime]
      rfl
    · exact hbytes
  · exact .inr

theorem reused?_after (room : Nat) {old : Option ParsedScript} (hfair : past.Fair)
    (hread : w.read.parse = .ok old) (htime : w.stat.mtime.isPositive = true) :
    Scan.reused? room w.after w.root w.leftCache w.place =
      if w.stat.size = w.last.size ∧ w.digest.bytes = w.last.bytes then some (.ofParse old)
      else none := by
  have hget := w.get?_leftCache hread
  rw [if_pos htime, Option.some_or] at hget
  simp only [Scan.reused?, Scan.freshRecord?, hget, w.file?_after, Option.bind_eq_bind,
    Option.bind_some, Scan.refresh?_mixedEntry, w.fresh_iff hfair]
  split
  · simp [FileState.ofRecord_parse room hread, Except.toOption]
  · rfl

/-- The next scan reports the last content, unless the cache has the record of an earlier one under the
stamp of the last one. -/
theorem reportedAt_after (room : Nat) {old parsed : Option ParsedScript} (hfair : past.Fair)
    (hread : w.read.parse = .ok old) (hlast : w.last.parse = .ok parsed) :
    (w.Poisoned → Scan.reportedAt room w.after w.root w.leftCache w.place = .ofParse old) ∧
      (¬ w.Poisoned →
        Scan.reportedAt room w.after w.root w.leftCache w.place = .ofParse parsed) := by
  have hholds : Scan.Holds w.after w.root w.place w.last parsed := ⟨w.file?_after, hlast⟩
  cases htime : w.stat.mtime.isPositive with
  | true =>
      rw [Scan.reportedAt, hholds.resultAt_eq, w.reused?_after room hfair hread htime]
      split
      · rename_i hstamp
        refine ⟨fun _ => rfl, fun hnot => ?_⟩
        have hparse : w.read.parse = w.last.parse := by
          by_contra hne
          exact hnot ⟨hne, htime, hstamp.1, hstamp.2⟩
        obtain rfl : old = parsed := Except.ok.inj (hread.symm.trans (hparse.trans hlast))
        rfl
      · rename_i hstamp
        exact ⟨fun h => (hstamp ⟨h.size_eq, h.bytes_eq⟩).elim, fun _ => rfl⟩
  | false =>
      refine ⟨fun h => ?_, fun _ => ?_⟩
      · exact absurd h.time_positive (by simp [htime])
      · -- the visitor left no entry, and one that was there before describes a content
        refine Scan.reportedAt_of_describes hfair hholds w.last_shown fun entry hentry => ?_
        rw [w.get?_leftCache hread, if_neg (by simp [htime]), Option.none_or] at hentry
        exact (w.sifted_sound hfair).describes _ _ (Entries.mem_of_lookup_eq_some hentry)

end WatchedScan

/-- A script is written to while a scan visits it, and the scan saves its cache; if nothing is written,
this is a scan like any other.  Once the writing has stopped, the next scan reports the content that the
script has, exactly if the cache does not have the record of an earlier content under the stamp of this
one.  Otherwise it reports that earlier content.  If the cache could not be written, the next scan
reports the content that the script has. -/
theorem report_after_writes_iff {past : Past} (w : WatchedScan past) (hfair : past.Fair)
    (hsizes : ∀ place file, past place file → file.size < 2 ^ 64)
    (hreads : w.leftCache.ReadsBack w.env.packer) (env : Environment) (clock : Clock)
    {options : Scan.Options} (hcached : options.useCache = true)
    (hwanted : Scan.isWanted options.exclude w.place = true) :
    (Watched.states w.start w.moves = [w.start] →
      (Scan.scan w.env w.clock [] w.options w.tree w.way).tree = w.saving.tree) ∧
    ∃ report old parsed, (Scan.scan env clock [] options w.after w.way).result = .ok report ∧
      w.read.parse = .ok old ∧ w.last.parse = .ok parsed ∧
      (w.saving.Wrote →
        (⟨Place.text w.place, .ofParse parsed⟩ ∈ report.files ↔ ¬ w.Poisoned) ∧
        (w.Poisoned → ⟨Place.text w.place, .ofParse old⟩ ∈ report.files)) ∧
      (¬ w.saving.Wrote → ⟨Place.text w.place, .ofParse parsed⟩ ∈ report.files) := by
  obtain ⟨old, hread⟩ := hfair.parses _ _ w.read_shown
  obtain ⟨parsed, hlast⟩ := hfair.parses _ _ w.last_shown
  refine ⟨w.tree_scan_eq hfair hsizes, ?_⟩
  have hplace : w.place ∈ Scan.find w.after w.root options.exclude :=
    (Scan.mem_find_iff w.wellFormed_after).mpr ⟨hwanted, w.last, w.file?_after⟩
  have hreadable := w.readable_after hfair hsizes options.exclude
  by_cases hwrote : w.saving.Wrote
  · obtain ⟨report, hresult, hfiles⟩ := Scan.scan_of_regular env w.wellFormed_after
      w.isDirectory_after hcached (w.startCache_after hfair hwrote hreads clock hcached)
      w.regular_leftCache hreadable
    have hmem := Scan.mem_files_iff w.wellFormed_after hfiles hplace
    obtain ⟨hpoisoned, hclean⟩ := w.reportedAt_after env.stackRoom hfair hread hlast
    refine ⟨report, old, parsed, hresult, hread, hlast, fun _ => ⟨?_, ?_⟩,
      fun hnot => (hnot hwrote).elim⟩
    · refine (hmem _).trans ⟨fun hreported h => ?_, hclean⟩
      have hsame : old = parsed := FileResult.ofParse_inj.mp ((hpoisoned h).symm.trans hreported)
      exact h.parse_ne (by rw [hread, hlast, hsame])
    · exact fun h => (hmem _).mpr (hpoisoned h)
  · obtain ⟨cache, hstart, hsound⟩ := (w.tended_after hwrote hreads).startCache clock options
    obtain ⟨report, hresult, hfiles⟩ := Scan.scan_of_regular env w.wellFormed_after
      w.isDirectory_after hcached hstart hsound.regular hreadable
    refine ⟨report, old, parsed, hresult, hread, hlast, fun h => (hwrote h).elim, fun _ => ?_⟩
    refine (Scan.mem_files_iff w.wellFormed_after hfiles hplace _).mpr ?_
    exact Scan.reportedAt_of_describes hfair ⟨w.file?_after, hlast⟩ w.last_shown fun entry hentry =>
      hsound.describes _ _ (Entries.mem_of_lookup_eq_some hentry)

/-! ### A view that is written to during its visit -/

namespace RewrittenView

def script (name : String) (hour : Nat) : FileState :=
  ⟨Utf8.encode ("CREATE VIEW " ++ name).toList, .ofRatio (hour * 3600) 1⟩

/-- The view, and a file in the place of the directory for the cache if there is to be one. -/
def tree (blocked : Bool) : Tree where
  location := "/scripts"
  nodes := (["v.sql"], .file (script "t" 1)) ::
    if blocked then [([Cache.directoryName], .file ⟨[], .ofRatio 1 1⟩)] else []

def clock : Clock := ⟨"2024-01-01T00:00:00", .ofRatio 86400 1⟩

def contents : List FileState := [script "t" 1, script "u" 2, script "w" 3]

def past : Past := fun place file => place = ["v.sql"] ∧ file ∈ contents

theorem fair : past.Fair where
  ne_top := by
    rintro _ file ⟨rfl, -⟩
    simp
  names := by
    rintro _ file ⟨rfl, -⟩
    decide
  parses := by
    rintro _ file ⟨rfl, hfile⟩
    have hparses : ∀ file ∈ contents, file.parse.toOption.isSome = true := by decide +kernel
    cases hparse : file.parse with
    | error error => simpa [hparse, Except.toOption] using hparses file hfile
    | ok parsed => exact ⟨parsed, rfl⟩
  digests := by
    rintro _ _ file file' ⟨-, hfile⟩ ⟨-, hfile'⟩
    have hdigests : ∀ file ∈ contents, ∀ file' ∈ contents, file.digest = file'.digest →
        file.bytes = file'.bytes := by decide +kernel
    exact hdigests file hfile file' hfile'
  stamps := by
    rintro _ file file' ⟨-, hfile⟩ ⟨-, hfile'⟩
    have hstamps : ∀ file ∈ contents, ∀ file' ∈ contents,
        file.mtime.eqValue file'.mtime = true → file.size = file'.size →
          file.bytes = file'.bytes := by decide +kernel
    exact hstamps file hfile file' hfile'

theorem sizes : ∀ place file, past place file → file.size < 2 ^ 64 := by
  rintro _ file ⟨-, hfile⟩
  have hsizes : ∀ file ∈ contents, file.size < 2 ^ 64 := by decide +kernel
  exact hsizes file hfile

theorem tended (blocked : Bool) : Tended past [] (tree blocked) where
  well := by cases blocked <;> decide
  root := rfl
  cache := fun file hfile => by
    have hnone : (tree blocked).file? (Cache.wayFrom (Place.ofWay [])) = none := by
      cases blocked <;> rfl
    simp [hnone] at hfile

theorem shown {blocked : Bool} (place : Place) (file : FileState)
    (hwanted : Scan.isWanted [] place = true) (hfile : (tree blocked).file? place = some file) :
    past place file := by
  have hmem := Tree.mem_nodes_of_node? (Tree.file?_eq_some_iff.mp hfile) (Tree.ne_nil_of_file? hfile)
  rcases List.mem_cons.mp hmem with heq | hmem
  · obtain ⟨rfl, rfl⟩ : place = ["v.sql"] ∧ file = script "t" 1 := by simpa using heq
    exact ⟨rfl, by simp [contents]⟩
  · have hblock : place = [Cache.directoryName] := by
      cases blocked with
      | false => simp at hmem
      | true => exact (Prod.mk.inj (List.mem_singleton.mp hmem)).1
    exact absurd (hblock ▸ hwanted) (by decide)

/-- The first scan of the view, which is read before anything is written. -/
def watched (blocked : Bool) (moves : List Move) (stat digest : FileState)
    (fresh : Watched.Fresh (Watched.states (script "t" 1) moves))
    (states : ∀ file ∈ Watched.states (script "t" 1) moves, file ∈ contents)
    (seen : (Watched.run (script "t" 1) moves).seen = [script "t" 1, stat, digest]) :
    WatchedScan past where
  env := {}
  tree := tree blocked
  way := []
  clock := clock
  options := {}
  cached := rfl
  tended := tended blocked
  shown := fun place file hwanted => shown place file hwanted
  cache := .empty clock.text
  cache_eq := by cases blocked <;> rfl
  place := ["v.sql"]
  stale := by cases blocked <;> decide +kernel
  start := script "t" 1
  file_eq := rfl
  moves := moves
  fresh := fresh
  states_shown := fun file hfile => ⟨rfl, states file hfile⟩
  read := script "t" 1
  stat := stat
  digest := digest
  seen := seen

/-- The view is written once, between the first look and the second. -/
def once (blocked : Bool) : WatchedScan past :=
  watched blocked [.look, .write (script "u" 2), .look, .look] (script "u" 2) (script "u" 2)
    (by simp only [Watched.Fresh]; decide +kernel) (by decide +kernel) rfl

/-- The view is written again after the third look. -/
def twice : WatchedScan past :=
  watched false [.look, .write (script "u" 2), .look, .look, .write (script "w" 3)] (script "u" 2)
    (script "u" 2) (by simp only [Watched.Fresh]; decide +kernel) (by decide +kernel) rfl

end RewrittenView

section

open RewrittenView

/-- With the view that is written twice, the record is out of date, and so is the stamp.  With the other
one the cache cannot be written. -/
theorem report_after_writes_iff_view :
    past.Fair ∧
    (twice.saving.Wrote ∧ twice.leftCache.ReadsBack .standard ∧
      ∃ report old parsed, (Scan.scan {} clock [] {} twice.after []).result = .ok report ∧
        twice.read.parse = .ok old ∧ twice.last.parse = .ok parsed ∧
        (⟨"v.sql", .ofParse parsed⟩ ∈ report.files ↔ ¬ twice.Poisoned) ∧
        (twice.Poisoned → ⟨"v.sql", .ofParse old⟩ ∈ report.files)) ∧
    ¬ (once true).saving.Wrote ∧ (once true).leftCache.ReadsBack .standard ∧
      ∃ report parsed, (Scan.scan {} clock [] {} (once true).after []).result = .ok report ∧
        (once true).last.parse = .ok parsed ∧ ⟨"v.sql", .ofParse parsed⟩ ∈ report.files := by
  have hwrote : twice.saving.Wrote := by decide +kernel
  have hreads : twice.leftCache.ReadsBack .standard := by decide +kernel
  have hnot : ¬ (once true).saving.Wrote := by decide +kernel
  have hreads' : (once true).leftCache.ReadsBack .standard := by decide +kernel
  have hcached : ({} : Scan.Options).useCache = true := rfl
  have hwanted : Scan.isWanted ({} : Scan.Options).exclude ["v.sql"] = true := by decide +kernel
  obtain ⟨-, report, old, parsed, hresult, hread, hlast, hwritten, -⟩ :=
    report_after_writes_iff twice fair sizes hreads {} clock hcached hwanted
  obtain ⟨-, report', -, parsed', hresult', -, hlast', -, hblocked⟩ :=
    report_after_writes_iff (once true) fair sizes hreads' {} clock hcached hwanted
  exact ⟨fair, ⟨hwrote, hreads, report, old, parsed, hresult, hread, hlast, hwritten hwrote⟩, hnot,
    hreads', report', parsed', hresult', hlast', hblocked hnot⟩

/-- The view was read before it was written, and its stamp was taken afterwards.  The next scan reports
the view that was overwritten. -/
theorem next_scan_reports_overwritten_view :
    (once false).last = script "u" 2 ∧
    (script "t" 1).parse.toOption ≠ (script "u" 2).parse.toOption ∧
    (Scan.scan {} clock [] {} (once false).after []).result.toOption.map Scan.Report.files =
      (script "t" 1).parse.toOption.map fun old => [⟨"v.sql", .ofParse old⟩] := by
  refine ⟨rfl, ?_, ?_⟩
  · decide +kernel
  · decide +kernel

end

end ScriptGraph
