import ScriptGraph.Cache.Record
import ScriptGraph.Log.Progress
import ScriptGraph.Scan.Find
import ScriptGraph.Scan.Visit
import ScriptGraph.Scan.Workers

/-!
# Scanning a tree of scripts

A scan gives the outcome of every script below a directory.  Results of files that have not changed
come from the cache; the other files are visited, in turn or by several workers, and their results
are entered into the cache.
-/

namespace ScriptGraph.Scan

structure Options where
  /-- Whether to use the cache and to update it. -/
  useCache : Bool := true
  /-- More names of directories to leave out. -/
  exclude : List String := []
  workers : Option Int := none

/-- The number of stale files from which on several workers share the work. -/
def parallelThreshold : Nat := 50

inductive ScanError where
  | notDirectory (path : String)
  | cache (error : CacheError)
  /-- A record in the cache that is not passed over. -/
  | record (error : RecordError)
  | script (error : ScriptError)
  | pack (error : MessagePack.PackError)

namespace ScanError

def message : ScanError → String
  | notDirectory path => "Not a directory: " ++ path
  | cache error => error.message
  | record error => error.message
  | script error => error.message
  | pack error => error.message

end ScanError

structure State where
  results : List (String × FileResult) := []
  cache : Cache
  cachedCount : Nat := 0
  parsedCount : Nat := 0

structure Report where
  directory : String
  files : List FileOutcome
  cachedCount : Nat
  parsedCount : Nat

/-! ### Cached results -/

/-- What a look at the cache gives: what the scan has found, the files that must be visited, the log,
and the error that ended the look. -/
structure Sifted where
  state : State
  stale : List Place := []
  log : Log := []
  failure : Option RecordError := none

/-- Looks for a file in the cache; after an error nothing more is looked for. -/
def sift (room : Nat) (t : Tree) (top : Place) (s : Sifted) (place : Place) : Sifted :=
  if s.failure.isSome then s else
  let name := Place.text place
  match s.state.cache.refresh? name (t.file? (top ++ place)) with
  | none => { s with stale := s.stale ++ [place] }
  | some cache =>
      let record := ((cache.get? name).map (·.record)).getD .null
      match ParsedScript.ofRecord room record with
      | .ok parsed =>
          { s with state := { s.state with
              results := Entries.put name (.ofParse parsed) s.state.results
              cache := cache
              cachedCount := s.state.cachedCount + 1 } }
      | .error error =>
          if error.isPassedOver then
            -- the entry keeps its new time although its record is of no use
            { s with
              state := { s.state with cache := cache }
              stale := s.stale ++ [place]
              log := s.log ++ [.debug ("  Discarding bad cache entry for " ++ name ++ ": " ++
                error.message)] }
          else { s with failure := some error }

/-- Looks for all files in the cache; without a cache all are stale. -/
def siftAll (room : Nat) (t : Tree) (top : Place) (useCache : Bool) (cache : Cache)
    (found : List Place) : Sifted :=
  if useCache then found.foldl (sift room t top) { state := ⟨[], cache, 0, 0⟩ }
  else { state := ⟨[], cache, 0, 0⟩, stale := found }

/-! ### Visits -/

/-- The entry of a visit in the cache; a file without a time is not kept. -/
def entryOf (visit : Visit) : Option CacheEntry :=
  match visit.outcome.result, visit.stamp with
  | .failed _, _ => none
  | _, none => none
  | result, some stamp =>
      if stamp.mtime.isPositive then
        some ⟨.float stamp.mtime, .int stamp.size, ParsedScript.toRecord result.script?,
          .text stamp.digest⟩
      else none

def absorb (useCache : Bool) (s : State) (visit : Visit) : State where
  results := Entries.put visit.outcome.file visit.outcome.result s.results
  parsedCount := s.parsedCount + 1
  cachedCount := s.cachedCount
  cache :=
    if useCache then
      match entryOf visit with
      | some entry => s.cache.put visit.outcome.file entry
      | none => s.cache
    else s.cache

def scriptFile (t : Tree) (top place : Place) : ScriptFile :=
  ⟨top ++ place, t.shown (top ++ place), Place.text place⟩

/-- Visits files in turn; an error ends the work. -/
def visitInTurn (top : Place) (mishaps : Mishaps) (useCache : Bool) :
    List Place → Tree → State → Except ScriptError State × Tree × Log
  | [], t, s => (.ok s, t, [])
  | place :: later, t, s =>
      let file := scriptFile t top place
      let (sight, after) := look t mishaps file
      match sight.visit file.name with
      -- what was entered so far is lost, and no cache is saved
      | (.error error, log) => (.error error, after, log)
      | (.ok visit, log) =>
          let (result, last, rest) :=
            visitInTurn top mishaps useCache later after (absorb useCache s visit)
          (result, last, log ++ rest)

/-- What a worker brings back of a file: a visit, or an error. -/
structure Completion where
  name : String
  outcome : Except ScriptError Visit

/-- Enters what a worker brings back; an error becomes the reason why the file has no result. -/
def absorbCompletion (useCache : Bool) (s : State) (c : Completion) : State :=
  match c.outcome with
  | .ok visit => absorb useCache s visit
  | .error error => { s with results := Entries.put c.name (.failed error.message) s.results }

/-- Enters what workers bring back, in the order in which they are done. -/
def absorbAll (useCache : Bool) (s : State) (completions : List Completion) : State :=
  completions.foldl (absorbCompletion useCache) s

/-- Has files visited by workers. -/
def visitAtOnce (top : Place) (mishaps : Mishaps) : List Place → Tree → List Completion × Tree
  | [], t => ([], t)
  | place :: later, t =>
      let file := scriptFile t top place
      let (sight, after) := look t mishaps file
      let (rest, last) := visitAtOnce top mishaps later after
      (⟨file.name, (sight.visit file.name).1⟩ :: rest, last)

def parallelLog (stale : Nat) (workers : Int) : Log :=
  let progress : Progress := { total := stale, title := some "Parsing scripts", unit := "files" }
  [.info ("  Parsing " ++ toString stale ++ " stale files in parallel (" ++ toString workers ++
      " workers)"),
    progress.endLine stale]

def visitStale (top : Place) (mishaps : Mishaps) (useCache : Bool) (workers : Int)
    (stale : List Place) (t : Tree) (s : State) : Except ScriptError State × Tree × Log :=
  if stale.isEmpty then
    (.ok s, t, [.info ("  All " ++ toString s.cachedCount ++ " files cached, no parsing needed")])
  else if 1 < workers && parallelThreshold ≤ stale.length then
    let (completions, after) := visitAtOnce top mishaps stale t
    (.ok (absorbAll useCache s completions), after, parallelLog stale.length workers)
  else
    let (result, after, log) := visitInTurn top mishaps useCache stale t s
    (result, after,
      .info ("  Parsing " ++ toString stale.length ++ " stale files sequentially") :: log)

/-! ### The whole scan -/

/-- The outcomes of a scan, in the order of their paths. -/
def outcomes (s : State) : List FileOutcome :=
  (s.results.mergeSort fun a b => a.1 ≤ b.1).map fun (file, result) => ⟨file, result⟩

def reportLine (report : Report) : LogLine :=
  .info ("  scan_directory: " ++ toString report.cachedCount ++ " cached, " ++
    toString report.parsedCount ++ " parsed, " ++
    toString (FileOutcome.skipped report.files).length ++ " without definition, " ++
    toString (FileOutcome.failures report.files).length ++ " errors")

structure Run where
  result : Except ScanError Report
  tree : Tree
  log : Log

/-- Saves the cache of a scan, without the entries of files that are gone. -/
def saveCache (packer : MessagePack.Packer) (clock : Clock) (t : Tree) (top : Place)
    (found : List Place) (cache : Cache) : Cache.Saving :=
  let kept := cache.keepOnly (found.map Place.text)
  let removed := cache.files.length - kept.files.length
  let saving := Cache.save packer t top clock.seconds { kept with createdAt := .text clock.text }
  if removed = 0 then saving
  else { saving with
    log := .info ("  Removed " ++ toString removed ++ " deleted files from cache") :: saving.log }

/-- Ends a scan: saves the cache and reports. -/
def finish (packer : MessagePack.Packer) (clock : Clock) (options : Options) (t : Tree) (top : Place)
    (found : List Place) (s : State) : Run :=
  let report : Report := ⟨t.shown top, outcomes s, s.cachedCount, s.parsedCount⟩
  if options.useCache then
    let saving := saveCache packer clock t top found s.cache
    match saving.error with
    | some error => ⟨.error (.pack error), saving.tree, saving.log⟩
    | none => ⟨.ok report, saving.tree, saving.log ++ [reportLine report]⟩
  else ⟨.ok report, t, [reportLine report]⟩

/-- The cache with which a scan starts, and what the log says about it. -/
def startCache (clock : Clock) (options : Options) (t : Tree) (top : Place) :
    Except CacheError Cache × Log :=
  if options.useCache then
    let loading := Cache.load t top
    match loading.cache? with
    | .error error => (.error error, loading.log)
    | .ok none => (.ok (.empty clock.text), loading.log)
    | .ok (some cache) =>
        (.ok cache,
          if cache.files.isEmpty then loading.log
          else loading.log ++
            [.info ("  Loaded parse cache with " ++ toString cache.files.length ++ " entries")])
  else (.ok (.empty clock.text), [])

def scanAt (env : Environment) (clock : Clock) (mishaps : Mishaps) (options : Options) (t : Tree)
    (top : Place) : Run :=
  let found := find t top options.exclude
  let foundLine : LogLine :=
    .info ("  scan_directory: found " ++ toString found.length ++ " SQL files")
  match startCache clock options t top with
  | (.error error, log) => ⟨.error (.cache error), t, foundLine :: log⟩
  | (.ok cache, startLog) =>
      let sifted := siftAll env.stackRoom t top options.useCache cache found
      match sifted.failure with
      | some error => ⟨.error (.record error), t, foundLine :: startLog ++ sifted.log⟩
      | none =>
          let (count, workersLog) := workers env options.workers
          let (visited, after, visitLog) :=
            visitStale top mishaps options.useCache count sifted.stale t sifted.state
          let log := foundLine :: startLog ++ sifted.log ++ workersLog ++ visitLog
          match visited with
          | .error error => ⟨.error (.script error), after, log⟩
          | .ok s =>
              let run := finish env.packer clock options after top found s
              { run with log := log ++ run.log }

/-- Scans the directory at the end of a way from the top. -/
def scan (env : Environment) (clock : Clock) (mishaps : Mishaps) (options : Options) (t : Tree)
    (way : List String) : Run :=
  let top := Place.ofWay way
  if t.isDirectory top then scanAt env clock mishaps options t top
  else ⟨.error (.notDirectory (t.shown top)), t, []⟩

end ScriptGraph.Scan
