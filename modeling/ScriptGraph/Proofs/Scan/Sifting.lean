import ScriptGraph.Proofs.Cache.Packing
import ScriptGraph.Scan.Basic

/-!
# Looks at the cache

A look at the cache for a file leaves the file to be visited, enters what the cache has for it, or
fails.  After a failure nothing changes any more.  What every single look preserves holds of what all
of them give together.
-/

namespace ScriptGraph.Scan

variable {room : Nat} {t : Tree} {top place : Place} {s s' : Sifted}

/-- What a look at the cache for one file can do. -/
inductive SiftStep (room : Nat) (t : Tree) (top : Place) (s : Sifted) (place : Place) :
    Sifted → Prop where
  | ended {error : RecordError} (h : s.failure = some error) : SiftStep room t top s place s
  | missed (hgoes : s.failure = none)
      (h : s.state.cache.refresh? (Place.text place) (t.file? (top ++ place)) = none) :
      SiftStep room t top s place { s with stale := s.stale ++ [place] }
  | reused {fresh : Cache} {parsed : Option ParsedScript} (hgoes : s.failure = none)
      (hfresh : s.state.cache.refresh? (Place.text place) (t.file? (top ++ place)) = some fresh)
      (hread : ParsedScript.ofRecord room
        (((fresh.get? (Place.text place)).map (·.record)).getD .null) = .ok parsed) :
      SiftStep room t top s place { s with state := { s.state with
        results := Entries.put (Place.text place) (.ofParse parsed) s.state.results
        cache := fresh
        cachedCount := s.state.cachedCount + 1 } }
  /-- The record is passed over, and the file is visited. -/
  | discarded {fresh : Cache} {error : RecordError} {log : Log} (hgoes : s.failure = none)
      (hfresh : s.state.cache.refresh? (Place.text place) (t.file? (top ++ place)) = some fresh)
      (hread : ParsedScript.ofRecord room
        (((fresh.get? (Place.text place)).map (·.record)).getD .null) = .error error)
      (hpassed : error.isPassedOver = true) :
      SiftStep room t top s place { s with
        state := { s.state with cache := fresh }, stale := s.stale ++ [place], log := log }
  | failed {fresh : Cache} {error : RecordError} (hgoes : s.failure = none)
      (hfresh : s.state.cache.refresh? (Place.text place) (t.file? (top ++ place)) = some fresh)
      (hread : ParsedScript.ofRecord room
        (((fresh.get? (Place.text place)).map (·.record)).getD .null) = .error error)
      (hpassed : ¬ error.isPassedOver = true) :
      SiftStep room t top s place { s with failure := some error }

theorem siftStep (room : Nat) (t : Tree) (top : Place) (s : Sifted) (place : Place) :
    SiftStep room t top s place (sift room t top s place) := by
  unfold sift
  split
  · rename_i hfailed
    obtain ⟨error, herror⟩ := Option.isSome_iff_exists.mp hfailed
    exact .ended herror
  · rename_i hgoes
    have hgoes : s.failure = none := by simpa using hgoes
    dsimp only
    split
    · rename_i hfresh
      exact .missed hgoes hfresh
    · rename_i fresh hfresh
      split
      · rename_i hread
        exact .reused hgoes hfresh hread
      · rename_i hread
        split
        · rename_i hpassed
          exact .discarded hgoes hfresh hread hpassed
        · rename_i hpassed
          exact .failed hgoes hfresh hread hpassed

/-! ### One look -/

namespace SiftStep

theorem all {P : CacheEntry → Prop} (h : SiftStep room t top s place s')
    (hP : ∀ entry file fresh, P entry → entry.refresh? file = some fresh → P fresh)
    (hall : s.state.cache.All P) : s'.state.cache.All P := by
  cases h with
  | ended h => exact hall
  | missed _ _ => exact hall
  | reused _ hfresh _ => exact hall.refresh hP hfresh
  | discarded _ hfresh _ _ => exact hall.refresh hP hfresh
  | failed _ _ _ _ => exact hall

theorem nodup_results (h : SiftStep room t top s place s')
    (hnodup : (s.state.results.map Prod.fst).Nodup) : (s'.state.results.map Prod.fst).Nodup := by
  cases h with
  | reused _ _ _ => exact Entries.nodup_keys_put hnodup _ _
  | _ => exact hnodup

theorem stale_sublist (h : SiftStep room t top s place s') :
    s'.stale.Sublist (s.stale ++ [place]) := by
  cases h with
  | missed _ _ => exact List.Sublist.refl _
  | discarded _ _ _ _ => exact List.Sublist.refl _
  | _ => exact List.sublist_append_left _ _

/-- A file is taken from the cache or is left to be visited. -/
theorem counts (h : SiftStep room t top s place s') (hgoes : s'.failure = none) :
    s'.state.cachedCount + s'.stale.length = s.state.cachedCount + s.stale.length + 1 ∧
      s'.state.parsedCount = s.state.parsedCount := by
  cases h with
  | ended h => simp [h] at hgoes
  | missed _ _ => simp [Nat.add_assoc]
  | reused _ _ _ => exact ⟨Nat.add_right_comm _ _ _, rfl⟩
  | discarded _ _ _ _ => simp [Nat.add_assoc]
  | failed _ _ _ _ => simp at hgoes

end SiftStep

/-! ### All looks -/

theorem foldl_sift_of_failure {error : RecordError} (h : s.failure = some error)
    (places : List Place) : places.foldl (sift room t top) s = s := by
  induction places with
  | nil => rfl
  | cons place later ih =>
      have hstays : sift room t top s place = s := by simp [sift, h]
      rw [List.foldl_cons, hstays, ih]

/-- What holds at the start of the looks and is preserved by each of them holds at their end. -/
theorem siftAll_induction {P : State → Prop} {cache : Cache} (hstart : P ⟨[], cache, 0, 0⟩)
    (hstep : ∀ s s' place, SiftStep room t top s place s' → P s.state → P s'.state)
    (useCache : Bool) (found : List Place) : P (siftAll room t top useCache cache found).state := by
  have hfold : ∀ s : Sifted, P s.state → P (found.foldl (sift room t top) s).state := by
    induction found with
    | nil => exact fun s hs => hs
    | cons place later ih => exact fun s hs => ih _ (hstep s _ place (siftStep ..) hs)
  unfold siftAll
  split
  · exact hfold _ hstart
  · exact hstart

theorem siftAll_all {P : CacheEntry → Prop} {useCache : Bool} {cache : Cache}
    (hP : ∀ entry file fresh, P entry → entry.refresh? file = some fresh → P fresh)
    (hall : cache.All P) (found : List Place) :
    (siftAll room t top useCache cache found).state.cache.All P :=
  @siftAll_induction room t top (fun s => s.cache.All P) cache hall
    (fun _ _ _ hstep => hstep.all hP) useCache found

theorem nodup_results_siftAll (room : Nat) (t : Tree) (top : Place) (useCache : Bool) (cache : Cache)
    (found : List Place) :
    ((siftAll room t top useCache cache found).state.results.map Prod.fst).Nodup :=
  @siftAll_induction room t top (fun s => (s.results.map Prod.fst).Nodup) cache List.nodup_nil
    (fun _ _ _ hstep => hstep.nodup_results) useCache found

/-- The files that are left to be visited are some of those that were found, in the same order. -/
theorem stale_siftAll_sublist (room : Nat) (t : Tree) (top : Place) (useCache : Bool) (cache : Cache)
    (found : List Place) : (siftAll room t top useCache cache found).stale.Sublist found := by
  have hfold : ∀ s : Sifted,
      (found.foldl (sift room t top) s).stale.Sublist (s.stale ++ found) := by
    induction found with
    | nil => simp
    | cons place later ih =>
        intro s
        refine (ih _).trans ?_
        simpa using (siftStep room t top s place).stale_sublist.append_right later
  unfold siftAll
  split
  · simpa using hfold { state := ⟨[], cache, 0, 0⟩ }
  · exact List.Sublist.refl found

theorem counts_siftAll {useCache : Bool} {cache : Cache} {found : List Place}
    (h : (siftAll room t top useCache cache found).failure = none) :
    (siftAll room t top useCache cache found).state.cachedCount +
        (siftAll room t top useCache cache found).stale.length = found.length ∧
      (siftAll room t top useCache cache found).state.parsedCount = 0 := by
  have hfold : ∀ s : Sifted, (found.foldl (sift room t top) s).failure = none →
      (found.foldl (sift room t top) s).state.cachedCount +
          (found.foldl (sift room t top) s).stale.length =
        s.state.cachedCount + s.stale.length + found.length ∧
      (found.foldl (sift room t top) s).state.parsedCount = s.state.parsedCount := by
    clear h
    induction found with
    | nil => exact fun s _ => ⟨rfl, rfl⟩
    | cons place later ih =>
        intro s hgoes
        obtain ⟨hsum, hparsed⟩ := ih (sift room t top s place) hgoes
        -- a look that fails would have been the last one
        have hgoes' : (sift room t top s place).failure = none := by
          by_contra hfailed
          obtain ⟨error, herror⟩ := Option.ne_none_iff_exists'.mp hfailed
          rw [List.foldl_cons, foldl_sift_of_failure herror, herror] at hgoes
          simp at hgoes
        obtain ⟨hsum', hparsed'⟩ := (siftStep room t top s place).counts hgoes'
        rw [List.foldl_cons, hsum, hparsed, hsum', hparsed', List.length_cons]
        exact ⟨by omega, rfl⟩
  unfold siftAll at h ⊢
  split
  · rename_i hcached
    rw [if_pos hcached] at h
    obtain ⟨hsum, hparsed⟩ := hfold _ h
    exact ⟨by simpa using hsum, hparsed⟩
  · exact ⟨Nat.zero_add _, rfl⟩

end ScriptGraph.Scan
