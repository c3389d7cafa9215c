import ScriptGraph.Proofs.Name
import ScriptGraph.Proofs.Text.Hits
import ScriptGraph.Script.Parse

/-!
# What the references of a script have in common

Ten searches bring candidates, each through one of two filters, and repetitions are dropped at the
end.  `Search.Found` says once what a search can bring; what holds of every result of parsing,
`ParsedScript.Sound`, follows from it for all searches together.
-/

namespace ScriptGraph

open Text Name

/-! ### Repetitions -/

namespace Reference

theorem distinctFrom_sublist (seen : List (String × Kind × String)) (references : List Reference) :
    (distinctFrom seen references).Sublist references := by
  induction references generalizing seen with
  | nil => exact List.Sublist.refl []
  | cons r later ih =>
      unfold distinctFrom
      split
      · exact (ih seen).cons r
      · exact (ih _).cons_cons r

theorem identity_notMem_of_mem_distinctFrom {seen : List (String × Kind × String)}
    {references : List Reference} {r : Reference} (h : r ∈ distinctFrom seen references) :
    r.identity ∉ seen := by
  induction references generalizing seen with
  | nil => simp [distinctFrom] at h
  | cons first later ih =>
      unfold distinctFrom at h
      split at h
      · exact ih h
      · rename_i hnew
        rcases List.mem_cons.mp h with rfl | hlater
        · simpa using hnew
        · exact fun hseen => ih hlater (List.mem_cons_of_mem _ hseen)

theorem nodup_identity_distinctFrom (seen : List (String × Kind × String))
    (references : List Reference) : ((distinctFrom seen references).map identity).Nodup := by
  induction references generalizing seen with
  | nil => exact List.nodup_nil
  | cons r later ih =>
      unfold distinctFrom
      split
      · exact ih seen
      · refine List.nodup_cons.mpr ⟨?_, ih _⟩
        intro hmem
        obtain ⟨other, hother, heq⟩ := List.mem_map.mp hmem
        have hnew := identity_notMem_of_mem_distinctFrom hother
        rw [heq] at hnew
        exact hnew List.mem_cons_self

theorem exists_mem_distinctFrom {seen : List (String × Kind × String)}
    {references : List Reference} {r : Reference} (h : r ∈ references) (hseen : r.identity ∉ seen) :
    ∃ kept ∈ distinctFrom seen references, kept.identity = r.identity := by
  induction references generalizing seen with
  | nil => simp at h
  | cons first later ih =>
      unfold distinctFrom
      split
      · rename_i hfirst
        rcases List.mem_cons.mp h with rfl | hlater
        · exact absurd (List.contains_iff_mem.mp hfirst) hseen
        · exact ih hlater hseen
      · rcases List.mem_cons.mp h with rfl | hlater
        · exact ⟨r, List.mem_cons_self, rfl⟩
        · by_cases hsame : first.identity = r.identity
          · exact ⟨first, List.mem_cons_self, hsame⟩
          · have hnot : r.identity ∉ first.identity :: seen := by
              simp [Ne.symm hsame, hseen]
            obtain ⟨kept, hkept, heq⟩ := ih hlater hnot
            exact ⟨kept, List.mem_cons_of_mem _ hkept, heq⟩

end Reference

namespace Script

/-! ### The two filters -/

namespace Context

variable {ctx : Context} {name : List Char} {kind : Kind} {e : Reference}

/-- A reference that passes the filter for all searches. -/
structure Admits (ctx : Context) (name : List Char) (kind : Kind) (e : Reference) : Prop where
  caller_eq : e.caller = ctx.definition
  name_eq : e.callee.name = String.ofList name
  kind_eq : e.callee.kind = kind
  key_ne_empty : e.callee.key ≠ ""
  key_notMem_noise : e.callee.key ∉ ctx.noise
  key_ne_definition : e.callee.key ≠ ctx.definition.key
  not_reserved : isReserved name = false

theorem admits_of_candidate? (h : ctx.candidate? name kind = some e) : ctx.Admits name kind e := by
  simp only [candidate?] at h
  split at h
  · simp at h
  · rename_i hkey
    split at h
    · simp at h
    · rename_i hword
      obtain ⟨callee, hmake, rfl⟩ := Option.map_eq_some_iff.mp h
      obtain ⟨hname, hkind⟩ := DbObject.make?_eq_some_iff.mp hmake
      have hcallee : callee.key = Name.key (String.ofList name) := by rw [DbObject.key, hname]
      simp only [Bool.or_eq_true, not_or, DbObject.isNamed, List.contains_iff_mem, beq_iff_eq,
        String.isEmpty_iff] at hkey
      obtain ⟨⟨hempty, hnoise⟩, hself⟩ := hkey
      rw [← hcallee] at hempty hnoise hself
      refine ⟨rfl, hname, hkind, hempty, hnoise, fun heq => hself heq.symm, ?_⟩
      apply isReserved_eq_false
      simpa [or_iff_not_imp_left] using hword

/-- A reference to a table passes that filter, and its key is neither that of a function in table
position nor that of a trigger's own table. -/
theorem admits_of_tableCandidate? (h : ctx.tableCandidate? name = some e) :
    ctx.Admits name .table e ∧ e.callee.key ∉ ctx.tableFunctions ∧
      e.callee.key ∉ triggerTables := by
  simp only [tableCandidate?] at h
  split at h
  · simp at h
  · rename_i hkey
    have hadmits := admits_of_candidate? h
    have hcallee : e.callee.key = Name.key (String.ofList name) := by
      rw [DbObject.key, hadmits.name_eq]
    simp only [Bool.or_eq_true, not_or, List.contains_iff_mem, ← hcallee] at hkey
    exact ⟨hadmits, hkey⟩

end Context

/-! ### Searches -/

/-- What a search can bring: a reference to a path that is written in the cleaned script, through
the filter for tables if it is a table. -/
structure Search.Found (ctx : Context) (e : Reference) : Prop where
  admits : ctx.Admits e.callee.name.toList e.callee.kind e
  spells : path.Spells e.callee.name.toList
  written : e.callee.name.toList <:+: ctx.clean
  table : e.callee.kind = .table →
    e.callee.key ∉ ctx.tableFunctions ∧ e.callee.key ∉ triggerTables

theorem Span.slice_infix (span : Span) (text : List Char) : span.slice text <:+: text :=
  (List.take_prefix _ _).isInfix.trans (List.drop_suffix _ _).isInfix

namespace Search

variable {ctx : Context} {e : Reference} {name : List Char}

theorem found_of_candidate? {kind : Kind} (hspells : path.Spells name)
    (hwritten : name <:+: ctx.clean) (hkind : kind ≠ .table)
    (h : ctx.candidate? name kind = some e) : Found ctx e := by
  have hadmits := Context.admits_of_candidate? h
  have hname : e.callee.name.toList = name := by rw [hadmits.name_eq, String.toList_ofList]
  refine ⟨?_, hname ▸ hspells, hname ▸ hwritten, ?_⟩
  · rw [hname, hadmits.kind_eq]
    exact hadmits
  · intro htable
    exact absurd (hadmits.kind_eq.symm.trans htable) hkind

theorem found_of_tableCandidate? (hspells : path.Spells name) (hwritten : name <:+: ctx.clean)
    (h : ctx.tableCandidate? name = some e) : Found ctx e := by
  obtain ⟨hadmits, htable⟩ := Context.admits_of_tableCandidate? h
  have hname : e.callee.name.toList = name := by rw [hadmits.name_eq, String.toList_ofList]
  refine ⟨?_, hname ▸ hspells, hname ▸ hwritten, fun _ => htable⟩
  rw [hname, hadmits.kind_eq]
  exact hadmits

theorem found_of_mem_tables (rule : Rule) (hbody : ∀ w, rule.body.Spells w → path.Spells w)
    {text : List Char} (htext : text <:+: ctx.clean) (h : e ∈ tables ctx rule text) :
    Found ctx e := by
  obtain ⟨hit, hhit, hcandidate⟩ := List.mem_filterMap.mp h
  exact found_of_tableCandidate? (hbody _ (Rule.spells_body_of_mem_findAll hhit))
    ((Rule.body_infix_of_mem_findAll hhit).trans htext) hcandidate

/-- A reference to a called name, unless it is a form of the language or a function in table
position; what stands before the name does not count. -/
def calledFunction? (ctx : Context) (name : List Char) : Option Reference :=
  let key := Name.key (String.ofList name)
  if !key.toList.contains '.' && isNeverCalled (trim name) then none
  else if ctx.tableFunctions.contains key then none
  else ctx.candidate? name .userFunction

theorem scalarFunction?_eq (ctx : Context) (hit : Hit) :
    scalarFunction? ctx hit =
      if inTablePosition hit.start then none else calledFunction? ctx hit.body := by
  unfold scalarFunction? calledFunction?
  cases inTablePosition hit.start <;> simp

theorem candidate?_of_calledFunction? (h : calledFunction? ctx name = some e) :
    ctx.candidate? name .userFunction = some e := by
  simp only [calledFunction?, Option.ite_none_left_eq_some] at h
  exact h.2.2

/-- Whatever search brings a reference, the reference is written in the script as a path and has
passed the filters. -/
theorem found_of_mem_references {search : Search} (h : e ∈ search.references ctx) :
    Found ctx e := by
  have hwhole : ctx.clean <:+: ctx.clean := List.infix_refl _
  cases search with
  | procedureCalls =>
      obtain ⟨hit, hhit, hcandidate⟩ := List.mem_filterMap.mp h
      exact found_of_candidate? (Rule.spells_body_of_mem_findAll hhit)
        (Rule.body_infix_of_mem_findAll hhit) (by decide) hcandidate
  | tableFunctions =>
      obtain ⟨hit, hhit, hcandidate⟩ := List.mem_filterMap.mp h
      exact found_of_candidate? (Rule.spells_body_of_mem_findAll hhit)
        (Rule.body_infix_of_mem_findAll hhit) (by decide) hcandidate
  | scalarFunctions =>
      obtain ⟨hit, hhit, hcandidate⟩ := List.mem_filterMap.mp h
      rw [scalarFunction?_eq, Option.ite_none_left_eq_some] at hcandidate
      exact found_of_candidate?
        (spells_path_of_plainPath (Rule.spells_body_of_mem_findAll hhit))
        (Rule.body_infix_of_mem_findAll hhit) (by decide)
        (candidate?_of_calledFunction? hcandidate.2)
  | querySources =>
      obtain ⟨hit, hhit, hcandidate⟩ := List.mem_filterMap.mp h
      simp only [Option.ite_none_left_eq_some] at hcandidate
      exact found_of_tableCandidate? (Rule.spells_body_of_mem_findAll hhit)
        (Rule.body_infix_of_mem_findAll hhit) hcandidate.2
  | insertTargets => exact found_of_mem_tables insertTarget (fun _ => id) hwhole h
  | updateTargets =>
      exact found_of_mem_tables updateTarget (fun _ => spells_path_of_qualifiedPath) hwhole h
  | deleteTargets => exact found_of_mem_tables deleteTarget (fun _ => id) hwhole h
  | mergeTargets => exact found_of_mem_tables mergeTarget (fun _ => id) hwhole h
  | mergeSources =>
      obtain ⟨target, htarget, hsource⟩ := List.mem_filterMap.mp h
      obtain ⟨word, hword, hsource⟩ := Option.bind_eq_some_iff.mp hsource
      obtain ⟨hit, hhit, hcandidate⟩ := Option.bind_eq_some_iff.mp hsource
      -- The source is looked for behind the target, where the word before it was found.
      obtain ⟨⟨before, hbefore⟩, htargetHit⟩ := Rule.exists_reads_of_mem_findAll htarget
      obtain ⟨lead, trail, -, -, -, hlead, hbody, htrail⟩ := Rule.exists_parts_of_hit? htargetHit
      obtain ⟨⟨between, hbetween⟩, -⟩ := Rule.exists_reads_of_find? hword
      have hreads := hbefore.trans (((hlead.trans hbody).trans htrail).trans hbetween)
      exact found_of_tableCandidate? (Rule.spells_body_of_hit? hhit)
        ((Rule.body_infix_of_hit? hhit).trans hreads.suffix_rest.isInfix) hcandidate
  | mergeSubquerySources =>
      obtain ⟨span, -, hmem⟩ := List.mem_flatMap.mp h
      exact found_of_mem_tables querySource (fun _ => id) (span.slice_infix ctx.clean) hmem

/-- The searches after the one for functions in table position know all of its keys. -/
theorem candidates_all (ctx : Context) :
    candidates ctx Search.all =
      procedureCalls.references ctx ++ (tableFunctions.references ctx ++
        (Search.all.drop 2).flatMap (references (tableFunctions.update ctx))) := by
  simp [candidates, Search.all, run, update]

theorem kind_of_mem_tableFunctions (h : e ∈ tableFunctions.references ctx) :
    e.callee.kind = .userFunction := by
  obtain ⟨hit, -, hcandidate⟩ := List.mem_filterMap.mp h
  exact (Context.admits_of_candidate? hcandidate).kind_eq

theorem kind_of_mem_procedureCalls (h : e ∈ procedureCalls.references ctx) :
    e.callee.kind = .storedProcedure := by
  obtain ⟨hit, -, hcandidate⟩ := List.mem_filterMap.mp h
  exact (Context.admits_of_candidate? hcandidate).kind_eq

/-- What is found in a context that knows more functions is found in the context before. -/
theorem Found.of_update (h : Found (tableFunctions.update ctx) e) : Found ctx e where
  admits := ⟨h.admits.caller_eq, h.admits.name_eq, h.admits.kind_eq, h.admits.key_ne_empty,
    h.admits.key_notMem_noise, h.admits.key_ne_definition, h.admits.not_reserved⟩
  spells := h.spells
  written := h.written
  table := fun htable =>
    ⟨fun hmem => (h.table htable).1 (List.mem_append_left _ hmem), (h.table htable).2⟩

/-- Every candidate is found in the context in which the searches start, and a table among them
also in the context that knows the functions in table position. -/
theorem found_of_mem_candidates (h : e ∈ candidates ctx Search.all) :
    Found ctx e ∧ (e.callee.kind = .table → Found (tableFunctions.update ctx) e) := by
  rw [candidates_all] at h
  rcases List.mem_append.mp h with hprocedure | h
  · refine ⟨found_of_mem_references hprocedure, fun htable => ?_⟩
    simp [kind_of_mem_procedureCalls hprocedure] at htable
  · rcases List.mem_append.mp h with hfunction | h
    · refine ⟨found_of_mem_references hfunction, fun htable => ?_⟩
      simp [kind_of_mem_tableFunctions hfunction] at htable
    · obtain ⟨search, -, hmem⟩ := List.mem_flatMap.mp h
      have hfound := found_of_mem_references hmem
      exact ⟨hfound.of_update, fun _ => hfound⟩

end Search

/-! ### Definitions -/

theorem createdName_of_find? {clean : List Char} {hit : Hit}
    (hfind : creation.find? (.start clean) = some hit) :
    path.Spells (createdName hit) ∧ createdName hit <:+: clean := by
  obtain ⟨⟨before, hbefore⟩, hhit⟩ := Rule.exists_reads_of_find? hfind
  obtain ⟨lead, trail, -, -, htrail, hlead, hbody, hreads⟩ := Rule.exists_parts_of_hit? hhit
  obtain ⟨gapText, name, rfl, hgap, hname⟩ := Pattern.spells_seq_iff.mp htrail
  have hcreated : createdName hit = name := by
    rw [createdName, hreads.upTo_eq, trimStart_gap_path hgap hname]
  have hpiece : name <:+: gapText ++ name := (List.suffix_append _ _).isInfix
  have hwhole := hbefore.trans (hlead.trans hbody)
  exact hcreated ▸ ⟨hname, hpiece.trans (hreads.infix_rest.trans hwhole.suffix_rest.isInfix)⟩

/-- The object that a script creates is named by a path that is written in the cleaned script. -/
theorem definition?_written {clean : List Char} {definition : DbObject}
    (h : definition? clean = .ok (some definition)) :
    path.Spells definition.name.toList ∧ definition.name.toList <:+: clean := by
  unfold definition? at h
  split at h
  · simp at h
  · rename_i hit hfind
    have hdefinition : definition.name.toList = createdName hit := by
      cases hkind : kindOfWord hit.body with
      | error error => simp [hkind, bind, Except.bind] at h
      | ok kind =>
          simp only [hkind, bind, Except.bind] at h
          split at h
          · rename_i object hmake
            obtain rfl : object = definition := by simpa using h
            rw [(DbObject.make?_eq_some_iff.mp hmake).1, String.toList_ofList]
          · simp at h
    exact hdefinition ▸ createdName_of_find? hfind

/-! ### Results -/

/-- The keys that the search for functions in table position records: those of the names before an
opening parenthesis after `FROM` that pass the filter. -/
def IsTableFunctionKey (clean : List Char) (definition : DbObject) (key : String) : Prop :=
  ∃ hit ∈ tableFunction.findAll (.start clean), ∃ e,
    (startContext clean definition).candidate? hit.body .userFunction = some e ∧
      e.callee.key = key

end Script

/-- What holds of the result of parsing a script that is cleaned to `clean`. -/
structure ParsedScript.Sound (clean : List Char) (r : ParsedScript) : Prop where
  caller_eq : ∀ e ∈ r.references, e.caller = r.definition
  key_ne_empty : ∀ e ∈ r.references, e.callee.key ≠ ""
  key_ne_definition : ∀ e ∈ r.references, e.callee.key ≠ r.definition.key
  key_notMem_noise : ∀ e ∈ r.references, e.callee.key ∉ Script.noise clean
  /-- No two references are the same. -/
  identities_nodup : (r.references.map Reference.identity).Nodup
  /-- The tables of a trigger are not reported. -/
  table_key_ne : ∀ e ∈ r.references, e.callee.kind = .table →
    e.callee.key ≠ "inserted" ∧ e.callee.key ≠ "deleted"
  /-- A function in table position is reported as a function and never as a table. -/
  tableFunction : ∀ key, Script.IsTableFunctionKey clean r.definition key →
    (∃ e ∈ r.references, e.callee.kind = .userFunction ∧ e.callee.key = key) ∧
      ∀ e ∈ r.references, e.callee.kind = .table → e.callee.key ≠ key
  callee_written : ∀ e ∈ r.references, e.callee.name.toList <:+: clean
  callee_path : ∀ e ∈ r.references, path.matchesWhole e.callee.name.toList = true
  callee_not_reserved : ∀ e ∈ r.references, isReserved e.callee.name.toList = false
  definition_written : r.definition.name.toList <:+: clean
  definition_path : path.matchesWhole r.definition.name.toList = true

namespace Script

theorem Search.mem_tableFunctions_of_isTableFunctionKey {clean : List Char}
    {definition : DbObject} {key : String} (h : IsTableFunctionKey clean definition key) :
    ∃ e ∈ tableFunctions.references (startContext clean definition), e.callee.key = key := by
  obtain ⟨hit, hhit, e, hcandidate, hkey⟩ := h
  exact ⟨e, List.mem_filterMap.mpr ⟨hit, hhit, hcandidate⟩, hkey⟩

/-- Without repetitions, the candidates of a cleaned script have all the properties of a result. -/
theorem sound_of_definition? {clean : List Char} {definition : DbObject}
    (h : definition? clean = .ok (some definition)) :
    ParsedScript.Sound clean
      (Analysis.result ⟨definition, Search.candidates (startContext clean definition) Search.all⟩) := by
  obtain ⟨hpath, hwritten⟩ := definition?_written h
  have hsub := Reference.distinctFrom_sublist []
    (Search.candidates (startContext clean definition) Search.all)
  have hfound : ∀ e ∈ Reference.distinct
      (Search.candidates (startContext clean definition) Search.all),
      Search.Found (startContext clean definition) e ∧ (e.callee.kind = .table →
        Search.Found (Search.tableFunctions.update (startContext clean definition)) e) :=
    fun e he => Search.found_of_mem_candidates (hsub.subset he)
  exact {
    caller_eq := fun e he => (hfound e he).1.admits.caller_eq
    key_ne_empty := fun e he => (hfound e he).1.admits.key_ne_empty
    key_ne_definition := fun e he => (hfound e he).1.admits.key_ne_definition
    key_notMem_noise := fun e he => (hfound e he).1.admits.key_notMem_noise
    identities_nodup := Reference.nodup_identity_distinctFrom _ _
    table_key_ne := fun e he htable => by
      simpa [triggerTables] using ((hfound e he).1.table htable).2
    tableFunction := fun key hkey => by
      obtain ⟨e, he, rfl⟩ := Search.mem_tableFunctions_of_isTableFunctionKey hkey
      constructor
      · have hmem : e ∈ Search.candidates (startContext clean definition) Search.all := by
          rw [Search.candidates_all]
          exact List.mem_append_right _ (List.mem_append_left _ he)
        obtain ⟨kept, hkept, hsame⟩ := Reference.exists_mem_distinctFrom hmem List.not_mem_nil
        simp only [Reference.identity, Prod.mk.injEq] at hsame
        exact ⟨kept, hkept, hsame.2.1.trans (Search.kind_of_mem_tableFunctions he), hsame.2.2⟩
      · intro other hother htable hsame
        have hrecorded : e.callee.key ∈
            (Search.tableFunctions.update (startContext clean definition)).tableFunctions :=
          List.mem_append_right _ (List.mem_map.mpr ⟨e, he, rfl⟩)
        rw [← hsame] at hrecorded
        exact (((hfound other hother).2 htable).table htable).1 hrecorded
    callee_written := fun e he => (hfound e he).1.written
    callee_path := fun e he => (Pattern.matchesWhole_iff isFree_path).mpr (hfound e he).1.spells
    callee_not_reserved := fun e he => (hfound e he).1.admits.not_reserved
    definition_written := hwritten
    definition_path := (Pattern.matchesWhole_iff isFree_path).mpr hpath }

theorem exists_definition?_of_parse {text : String} {r : ParsedScript}
    (h : parse text = .ok (some r)) :
    ∃ definition, definition? (clean text.toList) = .ok (some definition) ∧
      r = Analysis.result ⟨definition,
        Search.candidates (startContext (clean text.toList) definition) Search.all⟩ := by
  unfold parse analyze analyzeClean at h
  split at h
  · simp [Except.map] at h
  · simp [Except.map] at h
  · rename_i definition hdefinition
    refine ⟨definition, hdefinition, ?_⟩
    simpa [Except.map] using h.symm

/-- The result of parsing a script is sound, whatever the script. -/
theorem sound_of_parse {text : String} {r : ParsedScript} (h : parse text = .ok (some r)) :
    r.Sound (clean text.toList) := by
  obtain ⟨definition, hdefinition, rfl⟩ := exists_definition?_of_parse h
  exact sound_of_definition? hdefinition

/-- A function in table position that is also written like a table, a table with an alias, and the
script itself. -/
theorem sound_of_parse_view :
    let v : DbObject := ⟨"V", .view, by decide⟩
    let r : ParsedScript := ⟨v, [⟨v, "F", .userFunction, by decide⟩, ⟨v, "[U]", .table, by decide⟩]⟩
    let text := "CREATE VIEW V AS SELECT t.x FROM F(1) JOIN [U] t JOIN f JOIN v"
    parse text = .ok (some r) ∧ r.Sound (clean text.toList) := by
  intro v r text
  have hparse : parse text = .ok (some r) := by decide +kernel
  exact ⟨hparse, sound_of_parse hparse⟩

end Script

end ScriptGraph
