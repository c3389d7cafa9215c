import Mathlib
import ScriptGraph.Proofs.Cache.Values
import ScriptGraph.Proofs.Except
import ScriptGraph.Proofs.Script.References

/-!
# What records stand for

A record keeps the objects of a result and not where its references start: they are read back as
references of the definition.  So a result survives being recorded exactly if all its references start
at its definition, and what parsing a script gives is of this kind.

Any value may be read as a record.  It stands for a result exactly if every part that is looked at is
there and has its shape, and otherwise the error tells of a part that is not so.
-/

namespace ScriptGraph

/-! ### Recording and reading -/

namespace ParsedScript

/-- The result with the same callees in which every reference starts at the definition. -/
def recalled (parsed : ParsedScript) : ParsedScript :=
  ⟨parsed.definition, parsed.references.map fun e => ⟨parsed.definition, e.callee⟩⟩

theorem ofRecord_toRecord_eq_recalled (room : Nat) (parsed : ParsedScript) :
    ofRecord room (toRecord (some parsed)) = .ok (some parsed.recalled) := by
  have hsame : toRecord (some parsed) = toRecord (some parsed.recalled) := by
    simp [toRecord, recalled]
  have hcallers : ∀ e ∈ parsed.recalled.references, e.caller = parsed.recalled.definition := by
    intro e he
    obtain ⟨first, -, rfl⟩ := List.mem_map.mp he
    rfl
  rw [hsame]
  exact ofRecord_toRecord room fun r hr => Option.some.inj hr ▸ hcallers

theorem recalled_eq_self_iff {parsed : ParsedScript} :
    parsed.recalled = parsed ↔ ∀ e ∈ parsed.references, e.caller = parsed.definition := by
  obtain ⟨definition, references⟩ := parsed
  simp only [recalled, mk.injEq, true_and]
  induction references with
  | nil => simp
  | cons e later ih =>
      obtain ⟨caller, callee⟩ := e
      rw [List.map_cons, List.cons.injEq, ih, List.forall_mem_cons, Reference.mk.injEq]
      simp [eq_comm]

theorem ofRecord_toRecord_of_parse (room : Nat) {text : String} {outcome : Option ParsedScript}
    (h : Script.parse text = .ok outcome) : ofRecord room (toRecord outcome) = .ok outcome := by
  refine ofRecord_toRecord room ?_
  rintro r rfl
  obtain ⟨definition, hdefinition, rfl⟩ := Script.exists_definition?_of_parse h
  exact (Script.sound_of_definition? hdefinition).caller_eq

/-- A result survives being recorded exactly if all its references start at its definition, and the
outcome of parsing a script always does. -/
theorem record_round_trip (room : Nat) :
    (∀ parsed : ParsedScript, ofRecord room (toRecord (some parsed)) = .ok (some parsed) ↔
      ∀ e ∈ parsed.references, e.caller = parsed.definition) ∧
    ∀ (text : String) (outcome : Option ParsedScript), Script.parse text = .ok outcome →
      ofRecord room (toRecord outcome) = .ok outcome := by
  refine ⟨fun parsed => ?_, fun text outcome => ofRecord_toRecord_of_parse room⟩
  rw [ofRecord_toRecord_eq_recalled, Except.ok.injEq, Option.some.injEq, recalled_eq_self_iff]

/-- A script that spells one table in two ways. -/
theorem record_round_trip_view :
    let v : DbObject := ⟨"[dbo].V", .view, by decide⟩
    let parsed : ParsedScript := ⟨v, [⟨v, "f", .userFunction, by decide⟩, ⟨v, "[T]", .table, by decide⟩]⟩
    Script.parse "CREATE VIEW [dbo].V AS SELECT f(1) FROM [T] JOIN t" = .ok (some parsed) ∧
    ofRecord 0 (toRecord (some parsed)) = .ok (some parsed) := by
  intro v parsed
  have hparse : Script.parse "CREATE VIEW [dbo].V AS SELECT f(1) FROM [T] JOIN t" =
      .ok (some parsed) := by decide +kernel
  exact ⟨hparse, (record_round_trip 0).2 _ _ hparse⟩

end ParsedScript

/-! ### Values that stand for objects -/

theorem Kind.label_of_ofLabel? {s : String} {kind : Kind} (h : ofLabel? s = some kind) :
    kind.label = s := by
  simpa using List.find?_some h

namespace Value

/-- A value that stands for an object: a map with its name and the label of its kind. -/
structure Names (v : Value) (o : DbObject) : Prop where
  name_eq : v.get "name" = .ok (.text o.name)
  kind_eq : v.get "kind" = .ok (.text o.kind.label)

/-- A value that stands for a result: a map with its definition, and with its callees as the items of
a value. -/
structure Records (v : Value) (parsed : ParsedScript) : Prop where
  definition : ∃ part, v.get "definition" = .ok part ∧ part.Names parsed.definition
  callees : ∃ part items, v.get "edges" = .ok part ∧ part.items = .ok items ∧
    List.Forall₂ (fun item e => item.Names e.callee) items parsed.references
  callers : ∀ e ∈ parsed.references, e.caller = parsed.definition

end Value

namespace DbObject

variable {room : Nat} {v name kind : Value} {o : DbObject}

theorem kind?_eq_some_iff {k : Kind} : kind? v = some k ↔ v = .text k.label := by
  constructor
  · intro h
    unfold kind? at h
    split at h
    · rw [Kind.label_of_ofLabel? h]
    · simp at h
  · rintro rfl
    simp [kind?, Kind.ofLabel?_label]

theorem kindOfValue_eq_ok_iff {k : Kind} : kindOfValue room v = .ok k ↔ v = .text k.label := by
  rw [← kind?_eq_some_iff, kindOfValue]
  split
  · rename_i found hfound
    simp [hfound]
  · rename_i hnone
    simp [hnone]

theorem ofValues_eq_ok_iff :
    ofValues room name kind = .ok o ↔ name = .text o.name ∧ kind = .text o.kind.label := by
  constructor
  · intro h
    obtain ⟨k, hkind, h⟩ := exists_of_bind_eq_ok h
    split at h
    · split at h
      · rename_i object hmake
        obtain rfl := Except.ok.inj h
        obtain ⟨rfl, rfl⟩ := make?_eq_some_iff.mp hmake
        exact ⟨rfl, kindOfValue_eq_ok_iff.mp hkind⟩
      · simp at h
    · simp at h
  · rintro ⟨rfl, rfl⟩
    have hmake : make? o.name o.kind = some o := make?_eq_some_iff.mpr ⟨rfl, rfl⟩
    simp [ofValues, kindOfValue_eq_ok_iff.mpr rfl, hmake, bind, Except.bind]

theorem ofRecord_eq_ok_iff : ofRecord room v = .ok o ↔ v.Names o := by
  constructor
  · intro h
    obtain ⟨name, hname, h⟩ := exists_of_bind_eq_ok h
    obtain ⟨kind, hkind, h⟩ := exists_of_bind_eq_ok h
    obtain ⟨rfl, rfl⟩ := ofValues_eq_ok_iff.mp h
    exact ⟨eq_ok_of_mapError_eq_ok hname, eq_ok_of_mapError_eq_ok hkind⟩
  · rintro ⟨hname, hkind⟩
    have hvalues : ofValues room (.text o.name) (.text o.kind.label) = .ok o :=
      ofValues_eq_ok_iff.mpr ⟨rfl, rfl⟩
    simp [ofRecord, hname, hkind, hvalues, Except.mapError, bind, Except.bind]

end DbObject

namespace ParsedScript

variable {room : Nat} {v : Value} {definition : DbObject}

theorem referencesOfRecords_eq_ok_iff {items : List Value} {references : List Reference} :
    referencesOfRecords room definition items = .ok references ↔
      List.Forall₂ (fun item e => item.Names e.callee) items references ∧
        ∀ e ∈ references, e.caller = definition := by
  induction items generalizing references with
  | nil =>
      cases references with
      | nil => simp [referencesOfRecords]
      | cons e later => simp [referencesOfRecords]
  | cons item items ih =>
      constructor
      · intro h
        obtain ⟨callee, hcallee, h⟩ := exists_of_bind_eq_ok h
        obtain ⟨rest, hrest, h⟩ := exists_of_bind_eq_ok h
        obtain rfl := Except.ok.inj h
        obtain ⟨hitems, hcallers⟩ := ih.mp hrest
        exact ⟨.cons (DbObject.ofRecord_eq_ok_iff.mp hcallee) hitems,
          List.forall_mem_cons.mpr ⟨rfl, hcallers⟩⟩
      · rintro ⟨hitems, hcallers⟩
        cases hitems with
        | cons hfirst hlater =>
            obtain ⟨rfl, hcallers⟩ := List.forall_mem_cons.mp hcallers
            simp [referencesOfRecords, DbObject.ofRecord_eq_ok_iff.mpr hfirst,
              ih.mpr ⟨hlater, hcallers⟩, bind, Except.bind]

theorem ofRecord_eq_ok_none_iff : ofRecord room v = .ok none ↔ v = .null := by
  constructor
  · intro h
    unfold ofRecord at h
    split at h
    · rfl
    · obtain ⟨_, -, h⟩ := exists_of_bind_eq_ok h
      obtain ⟨_, -, h⟩ := exists_of_bind_eq_ok h
      obtain ⟨_, -, h⟩ := exists_of_bind_eq_ok h
      obtain ⟨_, -, h⟩ := exists_of_bind_eq_ok h
      obtain ⟨_, -, h⟩ := exists_of_bind_eq_ok h
      simp at h
  · rintro rfl
    rfl

theorem ofRecord_eq_ok_some_iff {parsed : ParsedScript} :
    ofRecord room v = .ok (some parsed) ↔ v.Records parsed := by
  constructor
  · intro h
    unfold ofRecord at h
    split at h
    · simp at h
    · obtain ⟨part, hpart, h⟩ := exists_of_bind_eq_ok h
      obtain ⟨definition, hdefinition, h⟩ := exists_of_bind_eq_ok h
      obtain ⟨edges, hedges, h⟩ := exists_of_bind_eq_ok h
      obtain ⟨items, hitems, h⟩ := exists_of_bind_eq_ok h
      obtain ⟨references, hreferences, h⟩ := exists_of_bind_eq_ok h
      obtain rfl := Option.some.inj (Except.ok.inj h)
      obtain ⟨hcallees, hcallers⟩ := referencesOfRecords_eq_ok_iff.mp hreferences
      exact ⟨⟨part, eq_ok_of_mapError_eq_ok hpart, DbObject.ofRecord_eq_ok_iff.mp hdefinition⟩,
        ⟨edges, items, eq_ok_of_mapError_eq_ok hedges, eq_ok_of_mapError_eq_ok hitems, hcallees⟩,
        hcallers⟩
  · rintro ⟨⟨part, hpart, hdefinition⟩, ⟨edges, items, hedges, hitems, hcallees⟩, hcallers⟩
    have hreferences : referencesOfRecords (room - 1) parsed.definition items =
        .ok parsed.references :=
      referencesOfRecords_eq_ok_iff.mpr ⟨hcallees, hcallers⟩
    unfold ofRecord
    split
    · simp [Value.get] at hpart
    · simp [hpart, DbObject.ofRecord_eq_ok_iff.mpr hdefinition, hedges, hitems, hreferences,
        Except.mapError, bind, Except.bind]

end ParsedScript

/-! ### Values that stand for nothing -/

theorem RecordError.isPassedOver_iff {error : RecordError} :
    error.isPassedOver = true ↔ error ≠ .tooDeep := by
  cases error <;> simp [isPassedOver]

namespace Value

/-- Why a value stands for no object, where so many levels of the stack are left. -/
inductive NamesNothing (room : Nat) (v : Value) : RecordError → Prop where
  | access {key : String} {error : AccessError} (hkey : key ∈ ["name", "kind"])
      (h : v.get key = .error error) : NamesNothing room v (.access error)
  | badKind {part : Value} (h : v.get "kind" = .ok part)
      (hnone : ∀ kind : Kind, part ≠ .text kind.label) (hroom : part.displayDepth ≤ room) :
      NamesNothing room v (.badKind part)
  | tooDeep {part : Value} (h : v.get "kind" = .ok part)
      (hnone : ∀ kind : Kind, part ≠ .text kind.label) (hroom : room < part.displayDepth) :
      NamesNothing room v .tooDeep
  | blankName {part : Value} (h : v.get "name" = .ok part)
      (hblank : ∀ s, part = .text s → Text.allBlank s.toList = true) :
      NamesNothing room v .blankName

/-- Why a value stands for no result: a part is not there, or it stands for no object. -/
inductive RecordsNothing (room : Nat) (v : Value) : RecordError → Prop where
  | access {key : String} {error : AccessError} (hkey : key ∈ ["definition", "edges"])
      (h : v.get key = .error error) : RecordsNothing room v (.access error)
  | items {part : Value} {error : AccessError} (h : v.get "edges" = .ok part)
      (hitems : part.items = .error error) : RecordsNothing room v (.access error)
  | definition {part : Value} {error : RecordError} (h : v.get "definition" = .ok part)
      (hpart : part.NamesNothing room error) : RecordsNothing room v error
  | callee {part item : Value} {items : List Value} {error : RecordError}
      (h : v.get "edges" = .ok part) (hitems : part.items = .ok items) (hitem : item ∈ items)
      (hnothing : item.NamesNothing (room - 1) error) : RecordsNothing room v error

end Value

section

variable {room : Nat} {v : Value} {error : RecordError}

theorem DbObject.kindOfValue_eq_error (h : kindOfValue room v = .error error) :
    (∀ kind : Kind, v ≠ .text kind.label) ∧
      error = if v.displayDepth ≤ room then .badKind v else .tooDeep := by
  refine ⟨fun kind heq => ?_, ?_⟩
  · rw [kindOfValue_eq_ok_iff.mpr heq] at h
    simp at h
  · unfold kindOfValue at h
    split at h
    · simp at h
    · exact (Except.error.inj h).symm

theorem DbObject.namesNothing_of_ofRecord (h : ofRecord room v = .error error) :
    v.NamesNothing room error := by
  rcases error_cases_of_bind h with h | ⟨name, hname, h⟩
  · obtain ⟨cause, hcause, rfl⟩ := exists_of_mapError_eq_error h
    exact .access (by simp) hcause
  rcases error_cases_of_bind h with h | ⟨kind, hkind, h⟩
  · obtain ⟨cause, hcause, rfl⟩ := exists_of_mapError_eq_error h
    exact .access (by simp) hcause
  rcases error_cases_of_bind h with h | ⟨k, -, h⟩
  · obtain ⟨hnone, rfl⟩ := kindOfValue_eq_error h
    have hkind := eq_ok_of_mapError_eq_ok hkind
    split
    · rename_i hroom
      exact .badKind hkind hnone hroom
    · rename_i hroom
      exact .tooDeep hkind hnone (Nat.lt_of_not_le hroom)
  -- the kind is one, so it is the name that is wrong
  have hblank : ∀ s, name = .text s → Text.allBlank s.toList = true := by
    rintro s rfl
    by_contra hnamed
    have hmake : make? s k = some ⟨s, k, by simpa using hnamed⟩ := dif_pos _
    simp [hmake] at h
  obtain rfl : RecordError.blankName = error := by
    split at h
    · split at h
      · simp at h
      · exact Except.error.inj h
    · exact Except.error.inj h
  exact .blankName (eq_ok_of_mapError_eq_ok hname) hblank

theorem ParsedScript.exists_of_referencesOfRecords_eq_error {definition : DbObject}
    {items : List Value} (h : referencesOfRecords room definition items = .error error) :
    ∃ item ∈ items, item.NamesNothing room error := by
  induction items with
  | nil => simp [referencesOfRecords] at h
  | cons item items ih =>
      rcases error_cases_of_bind h with h | ⟨callee, -, h⟩
      · exact ⟨item, List.mem_cons_self, DbObject.namesNothing_of_ofRecord h⟩
      · rcases error_cases_of_bind h with h | ⟨rest, -, h⟩
        · obtain ⟨later, hlater, hnothing⟩ := ih h
          exact ⟨later, List.mem_cons_of_mem _ hlater, hnothing⟩
        · simp at h

theorem ParsedScript.recordsNothing_of_ofRecord (h : ofRecord room v = .error error) :
    v.RecordsNothing room error := by
  unfold ofRecord at h
  split at h
  · simp at h
  rcases error_cases_of_bind h with h | ⟨part, hpart, h⟩
  · obtain ⟨cause, hcause, rfl⟩ := exists_of_mapError_eq_error h
    exact .access (by simp) hcause
  rcases error_cases_of_bind h with h | ⟨definition, -, h⟩
  · exact .definition (eq_ok_of_mapError_eq_ok hpart) (DbObject.namesNothing_of_ofRecord h)
  rcases error_cases_of_bind h with h | ⟨edges, hedges, h⟩
  · obtain ⟨cause, hcause, rfl⟩ := exists_of_mapError_eq_error h
    exact .access (by simp) hcause
  have hedges := eq_ok_of_mapError_eq_ok hedges
  rcases error_cases_of_bind h with h | ⟨items, hitems, h⟩
  · obtain ⟨cause, hcause, rfl⟩ := exists_of_mapError_eq_error h
    exact .items hedges hcause
  rcases error_cases_of_bind h with h | ⟨references, -, h⟩
  · obtain ⟨item, hitem, hnothing⟩ := exists_of_referencesOfRecords_eq_error h
    exact .callee hedges (eq_ok_of_mapError_eq_ok hitems) hitem hnothing
  · simp at h

end

end ScriptGraph
