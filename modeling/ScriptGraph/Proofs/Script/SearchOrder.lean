import Mathlib.Data.List.Basic
import ScriptGraph.Proofs.Script.References

/-!
# The order of the searches

The searches share one context, and only the search for functions in table position adds to it.
Eight of the other nine searches read what it adds.  As long as it comes before these eight, every
search finds what it finds in the context that knows all functions in table position, so the order
has no influence on what is found.
-/

namespace ScriptGraph

theorem Reference.mem_identities_distinct_iff {references : List Reference}
    {identity : String × Kind × String} :
    identity ∈ (distinct references).map Reference.identity ↔
      identity ∈ references.map Reference.identity := by
  constructor
  · intro h
    exact ((distinctFrom_sublist [] references).map _).subset h
  · intro h
    obtain ⟨r, hr, rfl⟩ := List.mem_map.mp h
    obtain ⟨kept, hkept, hsame⟩ := exists_mem_distinctFrom hr List.not_mem_nil
    exact List.mem_map.mpr ⟨kept, hkept, hsame⟩

namespace Script.Search

/-- The searches that leave out the functions in table position that are known to them. -/
def functionReaders : List Search := [
  scalarFunctions, querySources, insertTargets, updateTargets, deleteTargets, mergeTargets,
  mergeSources, mergeSubquerySources]

variable {ctx : Context} {search : Search} {searches before after : List Search}

theorem references_update_of_notMem (h : search ∉ functionReaders) :
    search.references (tableFunctions.update ctx) = search.references ctx := by
  cases search with
  | procedureCalls => rfl
  | tableFunctions => rfl
  | _ => exact (h (by decide)).elim

theorem update_of_ne (h : search ≠ tableFunctions) : search.update ctx = ctx := by
  cases search with
  | tableFunctions => exact (h rfl).elim
  | _ => rfl

theorem candidates_cons (ctx : Context) (search : Search) (later : List Search) :
    candidates ctx (search :: later) =
      search.references ctx ++ candidates (search.update ctx) later := by
  simp [candidates, run]

theorem candidates_of_notMem (h : tableFunctions ∉ searches) :
    candidates ctx searches = searches.flatMap (references ctx) := by
  induction searches with
  | nil => rfl
  | cons search later ih =>
      obtain ⟨hne, hlater⟩ : tableFunctions ≠ search ∧ tableFunctions ∉ later := by simpa using h
      rw [candidates_cons, update_of_ne hne.symm, ih hlater, List.flatMap_cons]

theorem candidates_append_of_notMem (h : tableFunctions ∉ before) :
    candidates ctx (before ++ after) = candidates ctx before ++ candidates ctx after := by
  induction before with
  | nil => rfl
  | cons search later ih =>
      obtain ⟨hne, hlater⟩ : tableFunctions ≠ search ∧ tableFunctions ∉ later := by simpa using h
      rw [List.cons_append, candidates_cons, candidates_cons, update_of_ne hne.symm, ih hlater,
        List.append_assoc]

/-- If the search for functions in table position comes once and before all that read its records,
every search finds what it finds in the context that has these records. -/
theorem candidates_eq_flatMap (hnodup : searches.Nodup) (hmem : tableFunctions ∈ searches)
    (hfirst : ∀ search ∈ functionReaders,
      searches.idxOf tableFunctions < searches.idxOf search) :
    candidates ctx searches = searches.flatMap (references (tableFunctions.update ctx)) := by
  -- Only one search records, and what comes before it reads no records.
  obtain ⟨before, after, rfl, hbefore⟩ := List.eq_append_cons_of_mem hmem
  have hafter : tableFunctions ∉ after := by
    have hlater := (List.nodup_append.mp hnodup).2.1
    exact (List.nodup_cons.mp hlater).1
  have hearly : ∀ search ∈ before, search ∉ functionReaders := by
    intro search hsearch hreader
    have hlt := hfirst search hreader
    rw [List.idxOf_append_of_notMem hbefore, List.idxOf_append_of_mem hsearch] at hlt
    have hle := List.idxOf_lt_length_of_mem hsearch
    omega
  have hsame : before.flatMap (references ctx) =
      before.flatMap (references (tableFunctions.update ctx)) := by
    apply List.flatMap_congr
    intro search hsearch
    exact (references_update_of_notMem (hearly search hsearch)).symm
  have hown : tableFunctions.references ctx =
      tableFunctions.references (tableFunctions.update ctx) :=
    (references_update_of_notMem (by decide)).symm
  calc candidates ctx (before ++ tableFunctions :: after)
    _ = before.flatMap (references ctx) ++ (tableFunctions.references ctx ++
          after.flatMap (references (tableFunctions.update ctx))) := by
        rw [candidates_append_of_notMem hbefore, candidates_of_notMem hbefore, candidates_cons,
          candidates_of_notMem hafter]
    _ = (before ++ tableFunctions :: after).flatMap (references (tableFunctions.update ctx)) := by
        rw [hsame, hown, List.flatMap_append, List.flatMap_cons]

/-- In every order in which the search for functions in table position comes before those that read
its records, the searches find the same references, up to repetitions and spelling. -/
theorem mem_identities_iff_of_perm (ctx : Context) {order : List Search}
    (hperm : order.Perm Search.all)
    (hfirst : ∀ search ∈ functionReaders, order.idxOf tableFunctions < order.idxOf search)
    (identity : String × Kind × String) :
    identity ∈ (Reference.distinct (candidates ctx order)).map Reference.identity ↔
      identity ∈ (Reference.distinct (candidates ctx Search.all)).map Reference.identity := by
  have hall : candidates ctx Search.all =
      Search.all.flatMap (references (tableFunctions.update ctx)) := by
    apply candidates_eq_flatMap
    · decide
    · decide
    · decide
  have horder : candidates ctx order =
      order.flatMap (references (tableFunctions.update ctx)) := by
    apply candidates_eq_flatMap
    · exact hperm.nodup_iff.mpr (by decide)
    · exact hperm.mem_iff.mpr (by decide)
    · exact hfirst
  have hsame : (candidates ctx order).Perm (candidates ctx Search.all) := by
    rw [hall, horder]
    exact hperm.flatMap_right _
  rw [Reference.mem_identities_distinct_iff, Reference.mem_identities_distinct_iff]
  exact (hsame.map _).mem_iff

/-- The searches in reverse, but for the one that records: a function in table position that is also
called and joined without arguments stays a function. -/
theorem mem_identities_iff_of_perm_reverse :
    let v : DbObject := ⟨"v", .view, by decide⟩
    let clean := "SELECT f(1) FROM f(2) JOIN f JOIN g EXEC p MERGE t USING f".toList
    let ctx : Context := ⟨clean, v, [], [], []⟩
    let order := tableFunctions :: Search.all.reverse.erase tableFunctions
    order.Perm Search.all ∧
      (∀ search ∈ functionReaders, order.idxOf tableFunctions < order.idxOf search) ∧
      ("v", .userFunction, "f") ∈
        (Reference.distinct (candidates ctx order)).map Reference.identity ∧
      ("v", .table, "f") ∉
        (Reference.distinct (candidates ctx order)).map Reference.identity := by
  intro v clean ctx order
  have hperm : order.Perm Search.all := by decide
  have hfirst : ∀ search ∈ functionReaders,
      order.idxOf tableFunctions < order.idxOf search := by decide
  have hiff := mem_identities_iff_of_perm ctx hperm hfirst
  refine ⟨hperm, hfirst, ?_, ?_⟩
  · rw [hiff]
    decide +kernel
  · rw [hiff]
    decide +kernel

-- A search that reads the records before they are complete finds more.
example :
    let v : DbObject := ⟨"v", .view, by decide⟩
    let ctx : Context := ⟨"SELECT 1 FROM f(2) JOIN f".toList, v, [], [], []⟩
    (candidates ctx [querySources, tableFunctions]).map Reference.identity =
        [("v", .table, "f"), ("v", .userFunction, "f")] ∧
      (candidates ctx [tableFunctions, querySources]).map Reference.identity =
        [("v", .userFunction, "f")] := by
  decide +kernel

end Script.Search

end ScriptGraph
