import Mathlib.Data.List.Forall2
import ScriptGraph.Proofs.Script.Outcomes
import ScriptGraph.Proofs.Script.SearchOrder
import ScriptGraph.Proofs.Script.SmallLetters

/-!
# Scripts whose names are renamed

Every search finds names in the cleaned script, and what becomes of a name depends only on its key
and on its spelling as a word.  If the names of two scripts correspond, one script's keys being the
other's under a renaming that confuses none of them, then so do their results.
-/

namespace ScriptGraph

open Text

namespace Script

/-! ### Names and what becomes of them -/

namespace Search

def written (rule : Rule) (text : List Char) : List (List Char) :=
  (rule.findAll (.start text)).map Hit.body

def names (clean : List Char) : Search → List (List Char)
  | procedureCalls => written executedProcedure clean
  | tableFunctions => written tableFunction clean
  | scalarFunctions =>
      ((calledName.findAll (.start clean)).filter (!inTablePosition ·.start)).map Hit.body
  | querySources =>
      ((querySource.findAll (.start clean)).filter fun hit =>
        !inSpans (usingSpans clean) hit.start.offset).map Hit.body
  | insertTargets => written insertTarget clean
  | updateTargets => written updateTarget clean
  | deleteTargets => written deleteTarget clean
  | mergeTargets => written mergeTarget clean
  | mergeSources =>
      (mergeTarget.findAll (.start clean)).filterMap fun target =>
        (usingWord.find? target.stop).bind fun word =>
          (mergeSource.hit? word.start).map Hit.body
  | mergeSubquerySources =>
      (usingSpans clean).flatMap fun span => written querySource (span.slice clean)

def judge (ctx : Context) (name : List Char) : Search → Option Reference
  | procedureCalls => ctx.candidate? name .storedProcedure
  | tableFunctions => ctx.candidate? name .userFunction
  | scalarFunctions => calledFunction? ctx name
  | _ => ctx.tableCandidate? name

theorem exists_candidate?_of_judge {ctx : Context} {name : List Char} {search : Search}
    {e : Reference} (h : search.judge ctx name = some e) :
    ∃ kind, ctx.candidate? name kind = some e := by
  cases search with
  | procedureCalls =>
      simp only [judge] at h
      exact ⟨_, h⟩
  | tableFunctions =>
      simp only [judge] at h
      exact ⟨_, h⟩
  | scalarFunctions =>
      simp only [judge] at h
      exact ⟨_, candidate?_of_calledFunction? h⟩
  | _ =>
      simp only [judge, Context.tableCandidate?, Option.ite_none_left_eq_some] at h
      exact ⟨_, h.2⟩

theorem tables_eq (ctx : Context) (rule : Rule) (text : List Char) :
    tables ctx rule text = (written rule text).filterMap ctx.tableCandidate? := by
  rw [tables, written, List.filterMap_map, Function.comp_def]

/-- A search finds names, and judges each of them by itself. -/
theorem references_eq {ctx : Context} (h : ctx.spans = usingSpans ctx.clean) (search : Search) :
    search.references ctx = (search.names ctx.clean).filterMap (judge ctx · search) := by
  cases search with
  | procedureCalls =>
      simp only [references, names, written, judge, List.filterMap_map, Function.comp_def]
  | tableFunctions =>
      simp only [references, names, written, judge, List.filterMap_map, Function.comp_def]
  | scalarFunctions =>
      simp only [references, names, List.filterMap_map, List.filterMap_filter]
      apply List.filterMap_congr
      intro hit _
      simp only [scalarFunction?_eq, Function.comp, judge]
      cases inTablePosition hit.start with
      | false => rfl
      | true => rfl
  | querySources =>
      simp only [references, names, List.filterMap_map, List.filterMap_filter, h]
      apply List.filterMap_congr
      intro hit _
      cases inSpans (usingSpans ctx.clean) hit.start.offset with
      | false => rfl
      | true => rfl
  | mergeSources =>
      simp only [references, names, List.filterMap_filterMap]
      apply List.filterMap_congr
      intro target _
      cases usingWord.find? target.stop with
      | none => rfl
      | some word =>
          simp only [Option.bind_some]
          cases mergeSource.hit? word.start with
          | none => rfl
          | some hit => rfl
  | mergeSubquerySources =>
      simp only [references, names, List.filterMap_flatMap, h]
      apply List.flatMap_congr
      intro span _
      simp only [tables_eq, judge]
  | _ => simp only [references, names, judge, tables_eq]

end Search

theorem Context.identity_of_candidate? {ctx : Context} {name : List Char} {kind : Kind}
    {e : Reference} (h : ctx.candidate? name kind = some e) :
    e.identity = (ctx.definition.key, kind, Name.key (String.ofList name)) := by
  simp only [candidate?, Option.ite_none_left_eq_some, Option.map_eq_some_iff] at h
  obtain ⟨-, -, callee, hmake, rfl⟩ := h
  obtain ⟨hname, hkind⟩ := DbObject.make?_eq_some_iff.mp hmake
  simp [Reference.identity, DbObject.key, hname, hkind]

/-! ### Names that correspond -/

/-- The second name has the key of the first one, renamed, and is the same as a word. -/
structure Alike (rename : String → String) (known : String → Prop) (name name' : List Char) :
    Prop where
  known : known (Name.key (String.ofList name))
  key_eq : Name.key (String.ofList name') = rename (Name.key (String.ofList name))
  empty_iff : Name.key (String.ofList name') = "" ↔ Name.key (String.ofList name) = ""
  dot_eq : (Name.key (String.ofList name')).toList.contains '.' =
    (Name.key (String.ofList name)).toList.contains '.'
  trigger_eq : triggerTables.contains (Name.key (String.ofList name')) =
    triggerTables.contains (Name.key (String.ofList name))
  reserved_eq : isReserved (trim name') = isReserved (trim name)
  neverCalled_eq : isNeverCalled (trim name') = isNeverCalled (trim name)

/-- The second context has the keys of the first one, renamed, and the names that the searches find
correspond. -/
structure Context.Renamed (rename : String → String) (known : String → Prop)
    (ctx ctx' : Context) : Prop where
  spans_eq : ctx.spans = usingSpans ctx.clean ∧ ctx'.spans = usingSpans ctx'.clean
  names_alike : ∀ search : Search,
    List.Forall₂ (Alike rename known) (search.names ctx.clean) (search.names ctx'.clean)
  definition_eq : ctx'.definition.key = rename ctx.definition.key
  noise_eq : ctx'.noise = ctx.noise.map rename
  tableFunctions_eq : ctx'.tableFunctions = ctx.tableFunctions.map rename
  known_definition : known ctx.definition.key
  known_noise : ∀ key ∈ ctx.noise, known key
  known_tableFunctions : ∀ key ∈ ctx.tableFunctions, known key

/-- The renaming confuses no keys that are known. -/
def Faithful (rename : String → String) (known : String → Prop) : Prop :=
  ∀ key other, known key → known other → rename key = rename other → key = other

def renameIdentity (rename : String → String) (identity : String × Kind × String) :
    String × Kind × String := (rename identity.1, identity.2.1, rename identity.2.2)

section

variable {rename : String → String} {known : String → Prop} {ctx ctx' : Context}
  {name name' : List Char}

theorem Faithful.mem_map_iff (h : Faithful rename known) {keys : List String} {key : String}
    (hkeys : ∀ other ∈ keys, known other) (hkey : known key) :
    rename key ∈ keys.map rename ↔ key ∈ keys := by
  constructor
  · intro hmem
    obtain ⟨other, hother, heq⟩ := List.mem_map.mp hmem
    rwa [← h other key (hkeys other hother) hkey heq]
  · exact List.mem_map_of_mem

namespace Context.Renamed

theorem passes_iff (h : Renamed rename known ctx ctx') (hfaithful : Faithful rename known)
    (hname : Alike rename known name name') : ctx'.Passes name' ↔ ctx.Passes name := by
  have hnoise := hfaithful.mem_map_iff h.known_noise hname.known
  have hself : rename (Name.key (String.ofList name)) = rename ctx.definition.key ↔
      Name.key (String.ofList name) = ctx.definition.key :=
    ⟨hfaithful _ _ hname.known h.known_definition, congrArg rename⟩
  have hdot : '.' ∈ (Name.key (String.ofList name')).toList ↔
      '.' ∈ (Name.key (String.ofList name)).toList := by
    rw [← List.contains_iff_mem, ← List.contains_iff_mem, hname.dot_eq]
  rw [← hname.key_eq, ← h.noise_eq] at hnoise
  rw [← hname.key_eq, ← h.definition_eq] at hself
  constructor
  · rintro ⟨hkey, hquiet, hother, hword⟩
    refine ⟨mt hname.empty_iff.mpr hkey, mt hnoise.mpr hquiet, mt hself.mpr hother, ?_⟩
    rwa [hdot, hname.reserved_eq] at hword
  · rintro ⟨hkey, hquiet, hother, hword⟩
    refine ⟨mt hname.empty_iff.mp hkey, mt hnoise.mp hquiet, mt hself.mp hother, ?_⟩
    rwa [hdot, hname.reserved_eq]

theorem candidate?_eq (h : Renamed rename known ctx ctx') (hfaithful : Faithful rename known)
    (hname : Alike rename known name name') (kind : Kind) :
    (ctx'.candidate? name' kind).map Reference.identity =
      ((ctx.candidate? name kind).map Reference.identity).map (renameIdentity rename) := by
  have hpasses := h.passes_iff hfaithful hname
  rw [← exists_candidate?_iff, ← exists_candidate?_iff] at hpasses
  cases hfirst : ctx.candidate? name kind with
  | none =>
      cases hsecond : ctx'.candidate? name' kind with
      | none => rfl
      | some e =>
          obtain ⟨other, hother⟩ := hpasses.mp ⟨e, hsecond⟩
          rw [hfirst] at hother
          cases hother
  | some e =>
      obtain ⟨e', hsecond⟩ := hpasses.mpr ⟨e, hfirst⟩
      rw [hsecond, Option.map_some, Option.map_some, Option.map_some, identity_of_candidate? hfirst,
        identity_of_candidate? hsecond, h.definition_eq, hname.key_eq]
      rfl

theorem tableFunctions_contains (h : Renamed rename known ctx ctx')
    (hfaithful : Faithful rename known) (hname : Alike rename known name name') :
    ctx'.tableFunctions.contains (Name.key (String.ofList name')) =
      ctx.tableFunctions.contains (Name.key (String.ofList name)) := by
  rw [Bool.eq_iff_iff, List.contains_iff_mem, List.contains_iff_mem, h.tableFunctions_eq,
    hname.key_eq]
  exact hfaithful.mem_map_iff h.known_tableFunctions hname.known

theorem tableCandidate?_eq (h : Renamed rename known ctx ctx')
    (hfaithful : Faithful rename known) (hname : Alike rename known name name') :
    (ctx'.tableCandidate? name').map Reference.identity =
      ((ctx.tableCandidate? name).map Reference.identity).map (renameIdentity rename) := by
  simp only [tableCandidate?, h.tableFunctions_contains hfaithful hname, hname.trigger_eq]
  split
  · rfl
  · exact h.candidate?_eq hfaithful hname .table

theorem judge_eq (h : Renamed rename known ctx ctx') (hfaithful : Faithful rename known)
    (hname : Alike rename known name name') (search : Search) :
    (search.judge ctx' name').map Reference.identity =
      ((search.judge ctx name).map Reference.identity).map (renameIdentity rename) := by
  cases search with
  | procedureCalls =>
      simp only [Search.judge]
      exact h.candidate?_eq hfaithful hname .storedProcedure
  | tableFunctions =>
      simp only [Search.judge]
      exact h.candidate?_eq hfaithful hname .userFunction
  | scalarFunctions =>
      simp only [Search.judge, Search.calledFunction?, hname.dot_eq, hname.neverCalled_eq,
        h.tableFunctions_contains hfaithful hname]
      split
      · rfl
      · split
        · rfl
        · exact h.candidate?_eq hfaithful hname .userFunction
  | _ =>
      simp only [Search.judge]
      exact h.tableCandidate?_eq hfaithful hname

theorem references_eq (h : Renamed rename known ctx ctx') (hfaithful : Faithful rename known)
    (search : Search) :
    (search.references ctx').map Reference.identity =
      ((search.references ctx).map Reference.identity).map (renameIdentity rename) := by
  rw [Search.references_eq h.spans_eq.1, Search.references_eq h.spans_eq.2]
  have hnames := h.names_alike search
  generalize search.names ctx.clean = names at hnames
  generalize search.names ctx'.clean = names' at hnames
  induction hnames with
  | nil => rfl
  | @cons name name' names names' hname _ ih =>
      have hjudge := h.judge_eq hfaithful hname search
      rw [List.filterMap_cons, List.filterMap_cons]
      cases hfirst : search.judge ctx name with
      | none =>
          have hsecond : search.judge ctx' name' = none := by simpa [hfirst] using hjudge
          rw [hsecond]
          exact ih
      | some e =>
          obtain ⟨e', hsecond, hidentity⟩ : ∃ e', search.judge ctx' name' = some e' ∧
              e'.identity = renameIdentity rename e.identity := by simpa [hfirst] using hjudge
          rw [hsecond, List.map_cons, List.map_cons, List.map_cons, hidentity, ih]

/-- Every reference leads from the definition to an object with a known key. -/
theorem known_of_mem_references (h : Renamed rename known ctx ctx') {search : Search}
    {e : Reference} (he : e ∈ search.references ctx) :
    e.caller.key = ctx.definition.key ∧ known e.callee.key := by
  rw [Search.references_eq h.spans_eq.1] at he
  obtain ⟨name, hname, hjudge⟩ := List.mem_filterMap.mp he
  obtain ⟨kind, hcandidate⟩ := Search.exists_candidate?_of_judge hjudge
  have hidentity := identity_of_candidate? hcandidate
  simp only [Reference.identity, Prod.mk.injEq] at hidentity
  obtain ⟨hcaller, -, hcallee⟩ := hidentity
  have hknown := ((List.forall₂_and_left _ _).mp
    ((h.names_alike search).imp fun _ _ halike => ⟨halike.known, halike⟩)).1
  exact ⟨hcaller, hcallee ▸ hknown name hname⟩

theorem update (h : Renamed rename known ctx ctx') (hfaithful : Faithful rename known)
    (search : Search) : Renamed rename known (search.update ctx) (search.update ctx') := by
  by_cases hsearch : search = .tableFunctions
  · subst hsearch
    have hkeys : (Search.tableFunctions.references ctx').map (·.callee.key) =
        ((Search.tableFunctions.references ctx).map (·.callee.key)).map rename := by
      have hidentities := congrArg (List.map fun identity => identity.2.2)
        (h.references_eq hfaithful .tableFunctions)
      simp only [List.map_map] at hidentities ⊢
      exact hidentities
    refine { h with tableFunctions_eq := ?_, known_tableFunctions := ?_ }
    · simp only [Search.update, hkeys, h.tableFunctions_eq, List.map_append]
    · intro key hkey
      rcases List.mem_append.mp hkey with hkey | hkey
      · exact h.known_tableFunctions key hkey
      · obtain ⟨e, he, rfl⟩ := List.mem_map.mp hkey
        exact (h.known_of_mem_references he).2
  · rw [Search.update_of_ne hsearch, Search.update_of_ne hsearch]
    exact h

/-- What one search does, a sequence of searches does. -/
theorem candidates_eq (h : Renamed rename known ctx ctx') (hfaithful : Faithful rename known)
    (searches : List Search) :
    (Search.candidates ctx' searches).map Reference.identity =
      ((Search.candidates ctx searches).map Reference.identity).map (renameIdentity rename) := by
  induction searches generalizing ctx ctx' with
  | nil => rfl
  | cons search later ih =>
      rw [Search.candidates_cons, Search.candidates_cons, List.map_append, List.map_append,
        List.map_append, h.references_eq hfaithful, ih (h.update hfaithful search)]

theorem known_of_mem_candidates (h : Renamed rename known ctx ctx')
    (hfaithful : Faithful rename known) {searches : List Search} {e : Reference}
    (he : e ∈ Search.candidates ctx searches) : known e.caller.key ∧ known e.callee.key := by
  induction searches generalizing ctx ctx' with
  | nil => cases he
  | cons search later ih =>
      rw [Search.candidates_cons] at he
      rcases List.mem_append.mp he with he | he
      · obtain ⟨hcaller, hcallee⟩ := h.known_of_mem_references he
        refine ⟨?_, hcallee⟩
        rw [hcaller]
        exact h.known_definition
      · exact ih (h.update hfaithful search) he

end Context.Renamed

end

end Script

/-! ### Results -/

theorem Reference.map_identity_distinctFrom_rename {known : String × Kind × String → Prop}
    {rename : String × Kind × String → String × Kind × String}
    (hinj : ∀ a b, known a → known b → rename a = rename b → a = b)
    {references references' : List Reference} {seen : List (String × Kind × String)}
    (hreferences : ∀ r ∈ references, known r.identity) (hseen : ∀ a ∈ seen, known a)
    (h : references'.map identity = (references.map identity).map rename) :
    (distinctFrom (seen.map rename) references').map identity =
      ((distinctFrom seen references).map identity).map rename := by
  -- What has been seen is renamed too, and it is known, so that it is not confused with `r`.
  induction references generalizing references' seen with
  | nil =>
      obtain rfl : references' = [] := by simpa using h
      rfl
  | cons r later ih =>
      obtain ⟨hr, hlater⟩ := List.forall_mem_cons.mp hreferences
      rw [List.map_cons, List.map_cons] at h
      obtain ⟨r', later', rfl, hidentity, hidentities⟩ := List.map_eq_cons_iff.mp h
      have hcontains : (seen.map rename).contains (rename r.identity) =
          seen.contains r.identity := by
        rw [Bool.eq_iff_iff, List.contains_iff_mem, List.contains_iff_mem]
        constructor
        · intro hmem
          obtain ⟨a, ha, heq⟩ := List.mem_map.mp hmem
          rwa [← hinj a r.identity (hseen a ha) hr heq]
        · exact List.mem_map_of_mem
      rw [distinctFrom, distinctFrom, hidentity, hcontains]
      split
      · exact ih hlater hseen hidentities
      · have hnext := ih hlater (List.forall_mem_cons.mpr ⟨hr, hseen⟩) hidentities
        rw [List.map_cons] at hnext
        rw [List.map_cons, List.map_cons, List.map_cons, hidentity, hnext]

/-- What tells results apart: kind and key of the definition, and the identities of the
references. -/
def ParsedScript.identities (r : ParsedScript) :
    (Kind × String) × List (String × Kind × String) :=
  (r.definition.identity, r.references.map Reference.identity)

namespace Script

def renameIdentities (rename : String → String)
    (found : (Kind × String) × List (String × Kind × String)) :
    (Kind × String) × List (String × Kind × String) :=
  ((found.1.1, rename found.1.2), found.2.map (renameIdentity rename))

theorem Context.Renamed.identities_result_eq {rename : String → String} {known : String → Prop}
    {ctx ctx' : Context} (h : Context.Renamed rename known ctx ctx')
    (hfaithful : Faithful rename known) (hkind : ctx'.definition.kind = ctx.definition.kind)
    (searches : List Search) :
    (Analysis.result ⟨ctx'.definition, Search.candidates ctx' searches⟩).identities =
      renameIdentities rename
        (Analysis.result ⟨ctx.definition, Search.candidates ctx searches⟩).identities := by
  have hdefinition : ctx'.definition.identity =
      (ctx.definition.kind, rename ctx.definition.key) := by
    rw [DbObject.identity, hkind, h.definition_eq]
  have hinj : ∀ a b : String × Kind × String, known a.1 ∧ known a.2.2 → known b.1 ∧ known b.2.2 →
      renameIdentity rename a = renameIdentity rename b → a = b := by
    rintro a b ⟨hcaller, hcallee⟩ ⟨hcaller', hcallee'⟩ heq
    simp only [renameIdentity, Prod.mk.injEq] at heq
    exact Prod.ext (hfaithful _ _ hcaller hcaller' heq.1)
      (Prod.ext heq.2.1 (hfaithful _ _ hcallee hcallee' heq.2.2))
  have hreferences := Reference.map_identity_distinctFrom_rename hinj
    (fun r hr => h.known_of_mem_candidates hfaithful hr) (List.forall_mem_nil _)
    (h.candidates_eq hfaithful searches)
  rw [List.map_nil] at hreferences
  simp only [ParsedScript.identities, Analysis.result, Reference.distinct, renameIdentities,
    hdefinition, hreferences]
  rfl

end Script

end ScriptGraph
