import Mathlib
import ScriptGraph.Cache.Basic
import ScriptGraph.Cache.Record
import ScriptGraph.Proofs.Value

/-!
# Records and caches as values

The value of an object, of a result, of an entry or of a cache stands for what it was made from.  A
record does not keep the callers, so the references of a result must start at its definition.
-/

namespace ScriptGraph

namespace DbObject

theorem ofRecord_toRecord (room : Nat) (o : DbObject) : ofRecord room o.toRecord = .ok o := by
  have hmake : make? o.name o.kind = some o := make?_eq_some_iff.mpr ⟨rfl, rfl⟩
  have hname : o.toRecord.get "name" = .ok (.text o.name) := by
    simp [toRecord, Value.get]
  have hkind : o.toRecord.get "kind" = .ok (.text o.kind.label) := by
    simp [toRecord, Value.get]
  simp [ofRecord, hname, hkind, ofValues, kindOfValue, kind?, Kind.ofLabel?_label, hmake,
    Except.mapError, bind, Except.bind]

end DbObject

namespace ParsedScript

theorem referencesOfRecords_map (room : Nat) {definition : DbObject} {references : List Reference}
    (h : ∀ e ∈ references, e.caller = definition) :
    referencesOfRecords room definition (references.map fun r => r.callee.toRecord) =
      .ok references := by
  induction references with
  | nil => rfl
  | cons first later ih =>
      obtain ⟨rfl, hlater⟩ := List.forall_mem_cons.mp h
      simp [referencesOfRecords, DbObject.ofRecord_toRecord, ih hlater, bind, Except.bind]

/-- The record of a result stands for the result, if every reference starts at the definition. -/
theorem ofRecord_toRecord (room : Nat) {parsed : Option ParsedScript}
    (h : ∀ r, parsed = some r → ∀ e ∈ r.references, e.caller = r.definition) :
    ofRecord room (toRecord parsed) = .ok parsed := by
  cases parsed with
  | none => rfl
  | some r =>
      have hreferences := referencesOfRecords_map (room - 1) (h r rfl)
      simp [toRecord, ofRecord, Value.get, Value.items,
        DbObject.ofRecord_toRecord, hreferences, Except.mapError, bind, Except.bind]

end ParsedScript

namespace CacheEntry

theorem ofValue_toValue (entry : CacheEntry) : ofValue entry.toValue = .ok entry := by
  simp [ofValue, toValue, Value.get, Except.toOption, bind, Except.bind]

end CacheEntry

namespace Cache

theorem entriesOfValues_map (files : List (Key × CacheEntry)) :
    entriesOfValues (files.map fun (path, entry) => (path, entry.toValue)) = .ok files := by
  induction files with
  | nil => rfl
  | cons first later ih =>
      simp only [List.map_cons, entriesOfValues, CacheEntry.ofValue_toValue, ih, bind, Except.bind]

theorem ofValue_toValue {cache : Cache} (h : cache.version = currentVersion) :
    ofValue cache.toValue = .ok (some cache) := by
  obtain ⟨version, createdAt, files⟩ := cache
  obtain rfl : version = currentVersion := h
  have hfiles := entriesOfValues_map files
  simp [ofValue, toValue, Value.get, isCurrentVersion, hfiles,
    Except.mapError, bind, Except.bind]

end Cache

end ScriptGraph
