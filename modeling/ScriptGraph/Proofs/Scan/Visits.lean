import ScriptGraph.Proofs.Scan.Sifting

/-!
# Visits in turn and at once

Visiting files in turn does what visiting them at once does, up to the first file whose visitor fails
with an error: visits in turn end there, and visits at once go on.
-/

namespace ScriptGraph

def FileState.parse (file : FileState) : Except Script.DefinitionError (Option ParsedScript) :=
  Script.parse (String.ofList (Script.textOfBytes file.bytes))

namespace Sight

/-- The visitor fails with an error: its reader does, or what it reads cannot be parsed. -/
def Raises (sight : Sight) : Prop :=
  (∃ reason, sight.read = .error (.broken reason)) ∨
    ∃ bytes error, sight.read = .ok bytes ∧
      Script.parse (String.ofList (Script.textOfBytes bytes)) = .error error

theorem outcomeOf_ok {name : String} {bytes : List UInt8} {parsed : Option ParsedScript}
    (h : Script.parse (String.ofList (Script.textOfBytes bytes)) = .ok parsed) :
    (outcomeOf name (.ok bytes)).1 = .ok ⟨name, .ofParse parsed⟩ := by
  unfold Script.parse at h
  cases hanalyze : Script.analyze (String.ofList (Script.textOfBytes bytes)) with
  | error error => simp [hanalyze, Except.map] at h
  | ok analysis =>
      obtain rfl : analysis.map (·.result) = parsed := by
        simpa [hanalyze, Except.map] using h
      simp [outcomeOf, hanalyze]

theorem outcomeOf_error {name : String} {bytes : List UInt8} {error : Script.DefinitionError}
    (h : Script.parse (String.ofList (Script.textOfBytes bytes)) = .error error) :
    (outcomeOf name (.ok bytes)).1 = .error (.definition error) := by
  unfold Script.parse at h
  cases hanalyze : Script.analyze (String.ofList (Script.textOfBytes bytes)) with
  | error other =>
      obtain rfl : other = error := by simpa [hanalyze, Except.map] using h
      simp [outcomeOf, hanalyze]
  | ok analysis => simp [hanalyze, Except.map] at h

theorem visit_of_outcome {sight : Sight} {name : String} {outcome : FileOutcome}
    (h : (outcomeOf name sight.read).1 = .ok outcome) :
    (sight.visit name).1 =
      .ok ⟨outcome, if outcome.result.reason?.isSome then none else sight.stamp⟩ := by
  unfold visit
  split
  · rename_i heq
    simp [heq] at h
  · rename_i other log heq
    obtain rfl : other = outcome := by simpa [heq] using h
    split
    · rename_i hresult
      simp [hresult, FileResult.reason?]
    · rename_i hresult
      have hreason : other.result.reason? = none := by
        unfold FileResult.reason?
        split
        · exact (hresult _ ‹_›).elim
        · rfl
      simp [hreason]

theorem visit_of_error {sight : Sight} {name : String} {error : ScriptError}
    (h : (outcomeOf name sight.read).1 = .error error) :
    (sight.visit name).1 = .error error := by
  unfold visit
  split
  · rename_i heq
    simpa [heq] using h
  · rename_i heq
    simp [heq] at h

/-- Under whatever name the file is kept, the visit has no outcome exactly if the visitor fails. -/
theorem exists_visit_error_iff {sight : Sight} (name : String) :
    (∃ error, (sight.visit name).1 = .error error) ↔ sight.Raises := by
  obtain ⟨read, atStat, atDigest⟩ := sight
  cases read with
  | ok bytes =>
      cases hparse : Script.parse (String.ofList (Script.textOfBytes bytes)) with
      | error error =>
          refine iff_of_true ⟨_, visit_of_error (outcomeOf_error hparse)⟩ ?_
          exact .inr ⟨bytes, error, rfl, hparse⟩
      | ok parsed =>
          rw [visit_of_outcome (outcomeOf_ok hparse)]
          simp [Raises, hparse]
  | error fault =>
      cases fault with
      | broken reason =>
          refine iff_of_true ⟨_, visit_of_error rfl⟩ (.inl ⟨reason, rfl⟩)
      | fault kind path => rw [visit_of_outcome rfl]; simp [Raises]
      | denied reason => rw [visit_of_outcome rfl]; simp [Raises]
      | failed reason => rw [visit_of_outcome rfl]; simp [Raises]

end Sight

namespace Scan

def sights (top : Place) (mishaps : Mishaps) : List Place → Tree → List (String × Sight)
  | [], _ => []
  | place :: later, t =>
      let file := scriptFile t top place
      let (sight, after) := look t mishaps file
      (file.name, sight) :: sights top mishaps later after

variable {top : Place} {mishaps : Mishaps} {useCache : Bool}

theorem sights_cons (place : Place) (later : List Place) (t : Tree) :
    sights top mishaps (place :: later) t =
      (Place.text place, (look t mishaps (scriptFile t top place)).1) ::
        sights top mishaps later (look t mishaps (scriptFile t top place)).2 := rfl

theorem visitAtOnce_cons (place : Place) (later : List Place) (t : Tree) :
    visitAtOnce top mishaps (place :: later) t =
      (⟨Place.text place,
          ((look t mishaps (scriptFile t top place)).1.visit (Place.text place)).1⟩ ::
          (visitAtOnce top mishaps later (look t mishaps (scriptFile t top place)).2).1,
        (visitAtOnce top mishaps later (look t mishaps (scriptFile t top place)).2).2) := rfl

section Step

variable {place : Place} {t : Tree}

theorem visitInTurn_cons_error {error : ScriptError}
    (h : ((look t mishaps (scriptFile t top place)).1.visit (Place.text place)).1 = .error error)
    (later : List Place) (s : State) :
    (visitInTurn top mishaps useCache (place :: later) t s).1 = .error error := by
  unfold visitInTurn
  simp only [scriptFile] at h ⊢
  split
  · rename_i heq
    simpa [heq] using h
  · rename_i heq
    simp [heq] at h

theorem visitInTurn_cons_ok {visit : Visit}
    (h : ((look t mishaps (scriptFile t top place)).1.visit (Place.text place)).1 = .ok visit)
    (later : List Place) (s : State) :
    (visitInTurn top mishaps useCache (place :: later) t s).1 =
        (visitInTurn top mishaps useCache later (look t mishaps (scriptFile t top place)).2
          (absorb useCache s visit)).1 ∧
      (visitInTurn top mishaps useCache (place :: later) t s).2.1 =
        (visitInTurn top mishaps useCache later (look t mishaps (scriptFile t top place)).2
          (absorb useCache s visit)).2.1 := by
  rw [visitInTurn]
  simp only [scriptFile] at h ⊢
  split
  · rename_i heq
    simp [heq] at h
  · rename_i other log heq
    obtain rfl : other = visit := by simpa [heq] using h
    exact ⟨rfl, rfl⟩

end Step

/-- Visits in turn have the result of visits at once, if no visitor fails. -/
theorem visitInTurn_eq {places : List Place} {t : Tree}
    (h : ∀ seen ∈ sights top mishaps places t, ¬ seen.2.Raises) (s : State) :
    (visitInTurn top mishaps useCache places t s).1 =
        .ok (absorbAll useCache s (visitAtOnce top mishaps places t).1) ∧
      (visitInTurn top mishaps useCache places t s).2.1 = (visitAtOnce top mishaps places t).2 := by
  induction places generalizing t s with
  | nil => exact ⟨rfl, rfl⟩
  | cons place later ih =>
      rw [sights_cons] at h
      obtain ⟨hfirst, hlater⟩ := List.forall_mem_cons.mp h
      cases hvisit : ((look t mishaps (scriptFile t top place)).1.visit (Place.text place)).1 with
      | error error => exact (hfirst ((Sight.exists_visit_error_iff _).mp ⟨error, hvisit⟩)).elim
      | ok visit =>
          obtain ⟨hresult, htree⟩ := ih hlater (absorb useCache s visit)
          rw [(visitInTurn_cons_ok hvisit later s).1, (visitInTurn_cons_ok hvisit later s).2,
            hresult, htree, visitAtOnce_cons, hvisit]
          exact ⟨rfl, rfl⟩

/-- A visitor that fails ends the visits in turn. -/
theorem exists_visitInTurn_error {places : List Place} {t : Tree}
    (h : ∃ seen ∈ sights top mishaps places t, seen.2.Raises) (s : State) :
    ∃ error, (visitInTurn top mishaps useCache places t s).1 = .error error := by
  induction places generalizing t s with
  | nil => simp [sights] at h
  | cons place later ih =>
      cases hvisit : ((look t mishaps (scriptFile t top place)).1.visit (Place.text place)).1 with
      | error error => exact ⟨error, visitInTurn_cons_error hvisit later s⟩
      | ok visit =>
          rw [(visitInTurn_cons_ok hvisit later s).1]
          rw [sights_cons] at h
          obtain ⟨seen, hseen, hraises⟩ := h
          rcases List.mem_cons.mp hseen with rfl | hseen
          · obtain ⟨error, herror⟩ := (Sight.exists_visit_error_iff (Place.text place)).mpr hraises
            simp [hvisit] at herror
          · exact ih ⟨seen, hseen, hraises⟩ (absorb useCache s visit)

/-- However many workers there are, the stale files are visited with the same result if no visitor
fails. -/
theorem visitStale_eq {stale : List Place} {t : Tree}
    (h : ∀ seen ∈ sights top mishaps stale t, ¬ seen.2.Raises) (workers : Int) (s : State) :
    (visitStale top mishaps useCache workers stale t s).1 =
        .ok (absorbAll useCache s (visitAtOnce top mishaps stale t).1) ∧
      (visitStale top mishaps useCache workers stale t s).2.1 =
        (visitAtOnce top mishaps stale t).2 := by
  unfold visitStale
  split
  · rename_i hempty
    obtain rfl : stale = [] := List.isEmpty_iff.mp hempty
    exact ⟨rfl, rfl⟩
  · split
    · exact ⟨rfl, rfl⟩
    · exact visitInTurn_eq h s

/-! ### The whole scan -/

variable {env : Environment} {clock : Clock} {options : Options} {t : Tree} {cache : Cache}

/-- What a look at the cache gives for the scripts that a scan finds. -/
def siftFound (env : Environment) (options : Options) (t : Tree) (top : Place) (cache : Cache) :
    Sifted :=
  siftAll env.stackRoom t top options.useCache cache (find t top options.exclude)

/-- A scan starts with the cache, and its look at the cache comes to an end. -/
structure Starts (env : Environment) (clock : Clock) (options : Options) (t : Tree) (top : Place)
    (cache : Cache) : Prop where
  startCache_eq : (startCache clock options t top).1 = .ok cache
  failure_eq : (siftFound env options t top cache).failure = none

/-- What a scan has found before its end, and the tree then. -/
def gathered (env : Environment) (clock : Clock) (mishaps : Mishaps) (options : Options) (t : Tree)
    (top : Place) : Except ScanError (State × Tree) :=
  match (startCache clock options t top).1 with
  | .error error => .error (.cache error)
  | .ok cache =>
      let sifted := siftFound env options t top cache
      match sifted.failure with
      | some error => .error (.record error)
      | none =>
          let visited := visitStale top mishaps options.useCache (workers env options.workers).1
            sifted.stale t sifted.state
          match visited.1 with
          | .error error => .error (.script error)
          | .ok s => .ok (s, visited.2.1)

theorem Starts.gathered_eq (h : Starts env clock options t top cache) (mishaps : Mishaps) :
    gathered env clock mishaps options t top =
      let visited := visitStale top mishaps options.useCache (workers env options.workers).1
        (siftFound env options t top cache).stale t (siftFound env options t top cache).state
      match visited.1 with
      | .error error => .error (.script error)
      | .ok s => .ok (s, visited.2.1) := by
  simp only [gathered, h.startCache_eq, h.failure_eq]

theorem gathered_of_failure {error : RecordError}
    (hstart : (startCache clock options t top).1 = .ok cache)
    (hfailure : (siftFound env options t top cache).failure = some error) (mishaps : Mishaps) :
    gathered env clock mishaps options t top = .error (.record error) := by
  simp only [gathered, hstart, hfailure]

theorem exists_starts_of_gathered {found : State × Tree}
    (h : gathered env clock mishaps options t top = .ok found) :
    ∃ cache, Starts env clock options t top cache := by
  cases hstart : (startCache clock options t top).1 with
  | error error => simp [gathered, hstart] at h
  | ok cache =>
      cases hfailure : (siftFound env options t top cache).failure with
      | some error => simp [gathered_of_failure hstart hfailure] at h
      | none => exact ⟨cache, hstart, hfailure⟩

/-- The cache that is saved at the end of a scan: without the entries of files that are gone. -/
def keptCache (clock : Clock) (options : Options) (t : Tree) (top : Place) (s : State) : Cache :=
  { s.cache.keepOnly ((find t top options.exclude).map Place.text) with
    createdAt := .text clock.text }

/-- The cache that a scan saves, if it comes to its end. -/
def savedCache? (env : Environment) (clock : Clock) (mishaps : Mishaps) (options : Options)
    (t : Tree) (top : Place) : Option Cache :=
  (gathered env clock mishaps options t top).toOption.map fun found =>
    keptCache clock options t top found.1

theorem savedCache?_of_ok {found : State × Tree}
    (h : gathered env clock mishaps options t top = .ok found) :
    savedCache? env clock mishaps options t top = some (keptCache clock options t top found.1) := by
  rw [savedCache?, h]
  rfl

theorem savedCache?_of_error {error : ScanError}
    (h : gathered env clock mishaps options t top = .error error) :
    savedCache? env clock mishaps options t top = none := by
  rw [savedCache?, h]
  rfl

theorem saveCache_eq (packer : MessagePack.Packer) (clock : Clock) (t : Tree) (top : Place)
    (found : List Place) (cache : Cache) :
    (saveCache packer clock t top found cache).tree =
        (Cache.save packer t top clock.seconds
          { cache.keepOnly (found.map Place.text) with createdAt := .text clock.text }).tree ∧
      (saveCache packer clock t top found cache).error =
        (Cache.save packer t top clock.seconds
          { cache.keepOnly (found.map Place.text) with createdAt := .text clock.text }).error := by
  unfold saveCache
  dsimp only
  split <;> exact ⟨rfl, rfl⟩

theorem scanAt_of_gathered_error {error : ScanError}
    (h : gathered env clock mishaps options t top = .error error) :
    (scanAt env clock mishaps options t top).result = .error error := by
  unfold gathered siftFound at h
  unfold scanAt
  split at h
  · rename_i cacheError hstart
    obtain rfl : ScanError.cache cacheError = error := by simpa using h
    split
    · rename_i heq
      simpa [heq] using hstart
    · rename_i heq
      simp [heq] at hstart
  · rename_i cache hstart
    split
    · rename_i heq
      simp [heq] at hstart
    · rename_i other log heq
      obtain rfl : other = cache := by simpa [heq] using hstart
      dsimp only at h ⊢
      split at h
      · rename_i recordError hfailure
        obtain rfl : ScanError.record recordError = error := by simpa using h
        simp only [hfailure]
      · rename_i hfailure
        split at h
        · rename_i scriptError hvisited
          obtain rfl : ScanError.script scriptError = error := by simpa using h
          simp only [hfailure, hvisited]
        · simp at h

theorem scanAt_of_gathered_ok {s : State} {after : Tree}
    (h : gathered env clock mishaps options t top = .ok (s, after)) :
    (scanAt env clock mishaps options t top).result =
        (finish env.packer clock options after top (find t top options.exclude) s).result ∧
      (scanAt env clock mishaps options t top).tree =
        (finish env.packer clock options after top (find t top options.exclude) s).tree := by
  unfold gathered siftFound at h
  unfold scanAt
  split at h
  · simp at h
  · rename_i cache hstart
    split
    · rename_i heq
      simp [heq] at hstart
    · rename_i other log heq
      obtain rfl : other = cache := by simpa [heq] using hstart
      dsimp only at h ⊢
      split at h
      · simp at h
      · rename_i hfailure
        split at h
        · simp at h
        · rename_i s' hvisited
          obtain ⟨rfl, rfl⟩ := Prod.mk.inj (Except.ok.inj h)
          simp only [hfailure, hvisited, and_self]

end Scan

end ScriptGraph
