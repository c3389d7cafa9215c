import Mathlib.Data.List.Induction
import ScriptGraph.Proofs.Script.References

/-!
# Noise as a filter on the finished list

The searches consult the noise names while they run, and what they leave out there decides which
functions in table position become known to the searches after them.  Nevertheless the noise acts as
a filter that could be applied at the end: to the candidates of searches that know of no noise,
after their repetitions are dropped.
-/

namespace ScriptGraph

/-! ### First occurrences -/

namespace Reference

/-- The references that stand at a place before which there is no reference of the same identity. -/
def firsts (references : List Reference) : List Reference :=
  (references.zipIdx.filter fun entry =>
    (references.take entry.2).all fun earlier => earlier.identity != entry.1.identity).map (·.1)

theorem firsts_concat (references : List Reference) (r : Reference) :
    firsts (references ++ [r]) =
      firsts references ++ if r.identity ∈ references.map identity then [] else [r] := by
  have hbefore : ∀ entry ∈ references.zipIdx,
      (references ++ [r]).take entry.2 = references.take entry.2 := by
    intro entry hentry
    have hmem := List.mem_zipIdx hentry
    apply List.take_append_of_le_length
    omega
  have hlast : ((references ++ [r]).take references.length).all
      (fun earlier => earlier.identity != r.identity) =
        decide (r.identity ∉ references.map identity) := by
    rw [List.take_left, Bool.eq_iff_iff]
    simp [List.all_eq_true]
  unfold firsts
  rw [List.zipIdx_append, List.filter_append, List.map_append]
  congr 1
  · congr 1
    apply List.filter_congr
    intro entry hentry
    rw [hbefore entry hentry]
  · simp only [List.zipIdx_singleton, Nat.zero_add, List.filter_singleton, hlast]
    by_cases hmem : r.identity ∈ references.map identity
    · simp [hmem]
    · simp [hmem]

theorem distinctFrom_concat (seen : List (String × Kind × String)) (references : List Reference)
    (r : Reference) :
    distinctFrom seen (references ++ [r]) =
      distinctFrom seen references ++
        if r.identity ∈ seen ∨ r.identity ∈ references.map identity then [] else [r] := by
  induction references generalizing seen with
  | nil => by_cases hseen : r.identity ∈ seen <;> simp [distinctFrom, hseen]
  | cons first later ih =>
      rw [List.cons_append, distinctFrom, distinctFrom, List.map_cons]
      by_cases hfirst : seen.contains first.identity = true
      · have hmem : first.identity ∈ seen := List.contains_iff_mem.mp hfirst
        have hiff : r.identity ∈ seen ∨ r.identity ∈ first.identity :: later.map identity ↔
            r.identity ∈ seen ∨ r.identity ∈ later.map identity := by
          rw [List.mem_cons]
          constructor
          · rintro (hseen | hsame | hlater)
            · exact .inl hseen
            · exact .inl (hsame ▸ hmem)
            · exact .inr hlater
          · exact Or.imp_right .inr
        rw [if_pos hfirst, if_pos hfirst, ih, if_congr hiff rfl rfl]
      · have hiff : r.identity ∈ seen ∨ r.identity ∈ first.identity :: later.map identity ↔
            r.identity ∈ first.identity :: seen ∨ r.identity ∈ later.map identity := by
          rw [List.mem_cons, List.mem_cons, or_left_comm, or_assoc]
        rw [if_neg hfirst, if_neg hfirst, ih, List.cons_append, if_congr hiff rfl rfl]

/-- A filter that looks only at identities can be applied before or after repetitions go. -/
theorem distinct_filter (keeps : String × Kind × String → Bool) (references : List Reference) :
    distinct (references.filter fun r => keeps r.identity) =
      (firsts references).filter fun r => keeps r.identity := by
  induction references using List.reverseRecOn with
  | nil => rfl
  | append_singleton references r ih =>
      rw [List.filter_append, firsts_concat, List.filter_append, ← ih]
      by_cases hkeeps : keeps r.identity = true
      · -- A reference of the same identity is kept as well, so none is overlooked.
        have hiff : r.identity ∈ (references.filter fun r => keeps r.identity).map identity ↔
            r.identity ∈ references.map identity := by
          constructor
          · intro hmem
            exact (List.filter_sublist.map identity).subset hmem
          · intro hmem
            obtain ⟨earlier, hearlier, hsame⟩ := List.mem_map.mp hmem
            have hkept : keeps earlier.identity = true := by rw [hsame]; exact hkeeps
            exact List.mem_map.mpr ⟨earlier, List.mem_filter.mpr ⟨hearlier, hkept⟩, hsame⟩
        have hlast : [r].filter (fun r => keeps r.identity) = [r] := by simp [hkeeps]
        rw [distinct, distinct, hlast, distinctFrom_concat]
        congr 1
        by_cases hmem : r.identity ∈ references.map identity
        · simp [hiff, hmem]
        · simp [hiff, hmem, hkeeps]
      · have hlast : [r].filter (fun r => keeps r.identity) = [] := by simp [hkeeps]
        rw [hlast, List.append_nil]
        split
        · simp
        · rw [hlast, List.append_nil]

end Reference

namespace Script

/-! ### Contexts without noise -/

namespace Context

/-- `plain` has no noise, and outside the noise of `ctx` it knows the same functions. -/
structure Quieted (ctx plain : Context) : Prop where
  clean_eq : plain.clean = ctx.clean
  definition_eq : plain.definition = ctx.definition
  spans_eq : plain.spans = ctx.spans
  noise_eq : plain.noise = []
  tableFunctions_iff : ∀ key ∉ ctx.noise, key ∈ plain.tableFunctions ↔ key ∈ ctx.tableFunctions

def isHeard (ctx : Context) (e : Reference) : Bool := !ctx.noise.contains e.callee.key

theorem quieted_self (ctx : Context) : ctx.Quieted { ctx with noise := [] } where
  clean_eq := rfl
  definition_eq := rfl
  spans_eq := rfl
  noise_eq := rfl
  tableFunctions_iff := fun _ _ => Iff.rfl

variable {ctx plain : Context}

theorem key_of_candidate? {name : List Char} {kind : Kind} {e : Reference}
    (h : ctx.candidate? name kind = some e) : e.callee.key = Name.key (String.ofList name) := by
  rw [DbObject.key, (admits_of_candidate? h).name_eq]

theorem candidate?_of_mem_noise {name : List Char}
    (h : Name.key (String.ofList name) ∈ ctx.noise) (kind : Kind) :
    ctx.candidate? name kind = none := by
  simp [candidate?, h]

theorem filter_isHeard {key : String} {found : Option Reference}
    (hkey : ∀ e, found = some e → e.callee.key = key) :
    found.filter ctx.isHeard = if key ∈ ctx.noise then none else found := by
  cases found with
  | none => simp
  | some e =>
      have hheard : ctx.isHeard e = decide (key ∉ ctx.noise) := by
        simp [isHeard, hkey e rfl]
      by_cases hmem : key ∈ ctx.noise
      · simp [hheard, hmem]
      · simp [hheard, hmem]

namespace Quieted

theorem candidate?_of_notMem (h : ctx.Quieted plain) {name : List Char}
    (hkey : Name.key (String.ofList name) ∉ ctx.noise) (kind : Kind) :
    ctx.candidate? name kind = plain.candidate? name kind := by
  simp [candidate?, hkey, h.noise_eq, h.definition_eq]

/-- Both filters of a context are the filter for all searches behind a condition.  It is enough that
two contexts judge the condition alike for names outside the noise. -/
theorem ite_candidate?_eq (h : ctx.Quieted plain) (name : List Char) (kind : Kind)
    {refused refused' : Bool}
    (hrefused : Name.key (String.ofList name) ∉ ctx.noise → refused' = refused) :
    (if refused then none else ctx.candidate? name kind) =
      (if refused' then none else plain.candidate? name kind).filter ctx.isHeard := by
  have hkey : ∀ e, (if refused' then none else plain.candidate? name kind) = some e →
      e.callee.key = Name.key (String.ofList name) := by
    intro e he
    rw [Option.ite_none_left_eq_some] at he
    exact key_of_candidate? he.2
  rw [filter_isHeard hkey]
  by_cases hnoise : Name.key (String.ofList name) ∈ ctx.noise
  · rw [if_pos hnoise, candidate?_of_mem_noise hnoise, ite_self]
  · rw [if_neg hnoise, hrefused hnoise, h.candidate?_of_notMem hnoise]

theorem candidate?_eq (h : ctx.Quieted plain) (name : List Char) (kind : Kind) :
    ctx.candidate? name kind = (plain.candidate? name kind).filter ctx.isHeard := by
  have hite := h.ite_candidate?_eq name kind (fun _ => rfl : _ → false = false)
  simpa using hite

theorem tableCandidate?_eq (h : ctx.Quieted plain) (name : List Char) :
    ctx.tableCandidate? name = (plain.tableCandidate? name).filter ctx.isHeard := by
  apply h.ite_candidate?_eq
  intro hkey
  rw [Bool.eq_iff_iff]
  simp [h.tableFunctions_iff _ hkey]

theorem scalarFunction?_eq (h : ctx.Quieted plain) (hit : Text.Hit) :
    Search.scalarFunction? ctx hit = (Search.scalarFunction? plain hit).filter ctx.isHeard := by
  simp only [Search.scalarFunction?]
  split
  · rfl
  · apply h.ite_candidate?_eq
    intro hkey
    rw [Bool.eq_iff_iff]
    simp [h.tableFunctions_iff _ hkey]

end Quieted

end Context

/-! ### Searches without noise -/

namespace Search

theorem tables_eq_filter {ctx plain : Context} (h : ctx.Quieted plain) (rule : Text.Rule)
    (text : List Char) : tables ctx rule text = (tables plain rule text).filter ctx.isHeard := by
  simp only [tables, List.filter_filterMap, h.tableCandidate?_eq]

theorem references_eq_filter {ctx plain : Context} (h : ctx.Quieted plain) (search : Search) :
    search.references ctx = (search.references plain).filter ctx.isHeard := by
  cases search with
  | procedureCalls =>
      simp only [references, List.filter_filterMap, h.clean_eq, h.candidate?_eq]
  | tableFunctions =>
      simp only [references, List.filter_filterMap, h.clean_eq, h.candidate?_eq]
  | scalarFunctions =>
      simp only [references, List.filter_filterMap, h.clean_eq, h.scalarFunction?_eq]
  | querySources =>
      simp only [references, List.filter_filterMap, h.clean_eq, h.spans_eq, h.tableCandidate?_eq]
      apply List.filterMap_congr
      intro hit _
      split
      · rfl
      · rfl
  | insertTargets => simp only [references, h.clean_eq, tables_eq_filter h]
  | updateTargets => simp only [references, h.clean_eq, tables_eq_filter h]
  | deleteTargets => simp only [references, h.clean_eq, tables_eq_filter h]
  | mergeTargets => simp only [references, h.clean_eq, tables_eq_filter h]
  | mergeSources =>
      simp only [references, List.filter_filterMap, h.clean_eq, h.tableCandidate?_eq]
      apply List.filterMap_congr
      intro target _
      cases usingWord.find? target.stop with
      | none => rfl
      | some word =>
          simp only [Option.bind_some]
          cases mergeSource.hit? word.start with
          | none => rfl
          | some hit => rfl
  | mergeSubquerySources =>
      simp only [references, h.clean_eq, h.spans_eq, List.filter_flatMap, tables_eq_filter h]

theorem noise_update (ctx : Context) (search : Search) : (search.update ctx).noise = ctx.noise := by
  cases search <;> rfl

/-- A function that only the context without noise comes to know has a noise name. -/
theorem quieted_update {ctx plain : Context} (h : ctx.Quieted plain) (search : Search) :
    (search.update ctx).Quieted (search.update plain) := by
  cases search with
  | tableFunctions =>
      refine ⟨h.clean_eq, h.definition_eq, h.spans_eq, h.noise_eq, ?_⟩
      intro key hkey
      rw [noise_update] at hkey
      have hfound : key ∈ (tableFunctions.references plain).map (·.callee.key) ↔
          key ∈ (tableFunctions.references ctx).map (·.callee.key) := by
        rw [references_eq_filter h]
        constructor
        · intro hmem
          obtain ⟨e, he, rfl⟩ := List.mem_map.mp hmem
          have hheard : ctx.isHeard e = true := by simpa [Context.isHeard] using hkey
          exact List.mem_map.mpr ⟨e, List.mem_filter.mpr ⟨he, hheard⟩, rfl⟩
        · intro hmem
          exact (List.filter_sublist.map _).subset hmem
      simp only [update, List.mem_append, h.tableFunctions_iff key hkey, hfound]
  | _ => exact h

/-- Whatever searches are run, the noise filters what they find without it. -/
theorem candidates_eq_filter {ctx plain : Context} (h : ctx.Quieted plain)
    (searches : List Search) :
    candidates ctx searches = (candidates plain searches).filter ctx.isHeard := by
  induction searches generalizing ctx plain with
  | nil => rfl
  | cons search later ih =>
      have hlater := ih (quieted_update h search)
      have hheard : (search.update ctx).isHeard = ctx.isHeard := by
        funext e
        rw [Context.isHeard, Context.isHeard, noise_update]
      rw [hheard] at hlater
      simp only [candidates, run, List.flatMap_cons, List.filter_append] at hlater ⊢
      rw [references_eq_filter h, hlater]

end Search

/-! ### The result of parsing -/

/-- The candidates of a cleaned script when no name counts as noise. -/
def unfilteredCandidates (clean : List Char) (definition : DbObject) : List Reference :=
  Search.candidates { startContext clean definition with noise := [] } Search.all

/-- A script is parsed as if noise were unknown to the searches: of their candidates those remain
that are the first of their identity among all of them and whose key is no noise. -/
theorem parse_eq_firsts_filter (text : String) :
    parse text =
      (definition? (clean text.toList)).map (·.map fun definition =>
        ⟨definition,
          (Reference.firsts (unfilteredCandidates (clean text.toList) definition)).filter
            fun e => !(noise (clean text.toList)).contains e.callee.key⟩) := by
  have hreferences : ∀ definition : DbObject,
      Reference.distinct
          (Search.candidates (startContext (clean text.toList) definition) Search.all) =
        (Reference.firsts (unfilteredCandidates (clean text.toList) definition)).filter
          fun e => !(noise (clean text.toList)).contains e.callee.key := by
    intro definition
    rw [Search.candidates_eq_filter (Context.quieted_self _)]
    exact Reference.distinct_filter
      (fun identity => !(noise (clean text.toList)).contains identity.2.2) _
  rw [parse, analyze, analyzeClean]
  cases definition? (clean text.toList) with
  | error e => rfl
  | ok found =>
      cases found with
      | none => rfl
      | some definition =>
          simp only [Except.map, Option.map, Analysis.result, hreferences]

end Script

end ScriptGraph
