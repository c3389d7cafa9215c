import ScriptGraph.Proofs.Script.SmallLetters

/-!
# Scripts that differ in the case of letters

A search over a script in small letters finds the same objects in the same order as over the script
itself.  So two scripts that differ only in the case of ASCII letters are parsed alike.
-/

namespace ScriptGraph

open Text

namespace Script

/-! ### Contexts -/

namespace Context

structure Lowered (ctx low : Context) : Prop where
  clean_eq : low.clean = ctx.clean.map Char.toLower
  definition_eq : low.definition.key = ctx.definition.key
  noise_eq : low.noise = ctx.noise
  spans_eq : low.spans = ctx.spans
  tableFunctions_eq : low.tableFunctions = ctx.tableFunctions

variable {ctx low : Context}

theorem Lowered.candidate?_eq (h : ctx.Lowered low) (name : List Char) (kind : Kind) :
    (low.candidate? (name.map Char.toLower) kind).map Reference.identity =
      (ctx.candidate? name kind).map Reference.identity := by
  have hnamed : low.definition.isNamed (String.ofList (name.map Char.toLower)) =
      ctx.definition.isNamed (String.ofList name) := by
    rw [DbObject.isNamed, DbObject.isNamed, Name.key_toLower, h.definition_eq]
  simp only [candidate?, Name.key_toLower, h.noise_eq, hnamed, trim_toLower, isReserved_toLower]
  split
  · rfl
  · split
    · rfl
    · have hmake := DbObject.make?_toLower name kind
      have hidentity : ∀ (caller : DbObject) (found : Option DbObject),
          (found.map fun callee => (⟨caller, callee⟩ : Reference)).map Reference.identity =
            (found.map DbObject.identity).map fun callee => (caller.key, callee) := by
        intro caller found
        cases found <;> rfl
      rw [hidentity, hidentity, hmake, h.definition_eq]

theorem Lowered.tableCandidate?_eq (h : ctx.Lowered low) (name : List Char) :
    (low.tableCandidate? (name.map Char.toLower)).map Reference.identity =
      (ctx.tableCandidate? name).map Reference.identity := by
  simp only [tableCandidate?, Name.key_toLower, h.tableFunctions_eq]
  split
  · rfl
  · exact h.candidate?_eq name .table

end Context

/-! ### Searches -/

theorem inTablePosition_toLower (c : Cursor) : inTablePosition c.toLower = inTablePosition c := by
  have hwindow : (c.toLower.back.take lookBack).reverse =
      ((c.back.take lookBack).reverse).map Char.toLower := by
    simp [Cursor.toLower, List.map_take]
  have htable : beforeTable.Caseless := by simp [beforeTable]
  rw [inTablePosition, hwindow, Pattern.occursIn_toLower htable, inTablePosition]

namespace Search

variable {ctx low : Context}

theorem scalarFunction?_toLower (h : ctx.Lowered low) (hit : Hit) :
    (scalarFunction? low hit.toLower).map Reference.identity =
      (scalarFunction? ctx hit).map Reference.identity := by
  have hplace : inTablePosition hit.toLower.start = inTablePosition hit.start :=
    inTablePosition_toLower hit.start
  simp only [scalarFunction?, Hit.body_toLower, Name.key_toLower, trim_toLower,
    isNeverCalled_toLower, h.tableFunctions_eq, hplace]
  split
  · rfl
  · split
    · rfl
    · exact h.candidate?_eq hit.body .userFunction

/-- What the matches of a rule give is the same for the script in small letters, if it is the same
for each match. -/
theorem map_filterMap_findAll_toLower {rule : Rule} (hrule : rule.Caseless)
    {give give' : Hit → Option Reference}
    (hgive : ∀ hit, (give' hit.toLower).map Reference.identity = (give hit).map Reference.identity)
    (text : List Char) :
    ((rule.findAll (.start (text.map Char.toLower))).filterMap give').map Reference.identity =
      ((rule.findAll (.start text)).filterMap give).map Reference.identity := by
  rw [← Cursor.toLower_start, Rule.findAll_toLower hrule, List.filterMap_map, List.map_filterMap,
    List.map_filterMap]
  exact congrArg (List.filterMap · _) (funext hgive)

theorem tables_toLower (h : ctx.Lowered low) {rule : Rule} (hrule : rule.Caseless)
    (text : List Char) :
    (tables low rule (text.map Char.toLower)).map Reference.identity =
      (tables ctx rule text).map Reference.identity := by
  apply map_filterMap_findAll_toLower hrule
  intro hit
  rw [Hit.body_toLower]
  exact h.tableCandidate?_eq hit.body

theorem caseless_querySource : querySource.Caseless := by
  constructor <;> simp [querySource, sourceWord]

theorem caseless_mergeTarget : mergeTarget.Caseless := by
  constructor <;> simp [mergeTarget, IgnoresCase]

theorem mergeSources_toLower (h : ctx.Lowered low) :
    (mergeSources.references low).map Reference.identity =
      (mergeSources.references ctx).map Reference.identity := by
  have husing : usingWord.Caseless := by constructor <;> simp [usingWord]
  have hrule : mergeSource.Caseless := by constructor <;> simp [mergeSource]
  simp only [references, h.clean_eq]
  apply map_filterMap_findAll_toLower caseless_mergeTarget
  intro target
  have hword : usingWord.find? target.toLower.stop =
      (usingWord.find? target.stop).map Hit.toLower :=
    Rule.find?_toLower husing target.stop
  rw [hword]
  cases usingWord.find? target.stop with
  | none => rfl
  | some word =>
      have hsource : mergeSource.hit? word.toLower.start =
          (mergeSource.hit? word.start).map Hit.toLower :=
        Rule.hit?_toLower hrule word.start
      simp only [Option.map_some, Option.bind_some, hsource]
      cases mergeSource.hit? word.start with
      | none => rfl
      | some hit =>
          simp only [Option.map_some, Option.bind_some, Hit.body_toLower]
          exact h.tableCandidate?_eq hit.body

theorem references_toLower (h : ctx.Lowered low) (search : Search) :
    (search.references low).map Reference.identity =
      (search.references ctx).map Reference.identity := by
  cases search with
  | procedureCalls =>
      have hrule : executedProcedure.Caseless := by
        constructor <;> simp [executedProcedure, IgnoresCase]
      simp only [references, h.clean_eq]
      apply map_filterMap_findAll_toLower hrule
      intro hit
      rw [Hit.body_toLower]
      exact h.candidate?_eq hit.body .storedProcedure
  | tableFunctions =>
      have hrule : tableFunction.Caseless := by constructor <;> simp [tableFunction]
      simp only [references, h.clean_eq]
      apply map_filterMap_findAll_toLower hrule
      intro hit
      rw [Hit.body_toLower]
      exact h.candidate?_eq hit.body .userFunction
  | scalarFunctions =>
      have hrule : calledName.Caseless := by constructor <;> simp [calledName, IgnoresCase]
      simp only [references, h.clean_eq]
      exact map_filterMap_findAll_toLower hrule (scalarFunction?_toLower h) ctx.clean
  | querySources =>
      simp only [references, h.clean_eq]
      apply map_filterMap_findAll_toLower caseless_querySource
      intro hit
      have hoffset : hit.toLower.start.offset = hit.start.offset := Cursor.offset_toLower hit.start
      rw [Hit.body_toLower, hoffset, h.spans_eq]
      split
      · rfl
      · exact h.tableCandidate?_eq hit.body
  | insertTargets =>
      have hrule : insertTarget.Caseless := by constructor <;> simp [insertTarget]
      rw [references, references, h.clean_eq]
      exact tables_toLower h hrule ctx.clean
  | updateTargets =>
      have hrule : updateTarget.Caseless := by constructor <;> simp [updateTarget]
      rw [references, references, h.clean_eq]
      exact tables_toLower h hrule ctx.clean
  | deleteTargets =>
      have hrule : deleteTarget.Caseless := by constructor <;> simp [deleteTarget]
      rw [references, references, h.clean_eq]
      exact tables_toLower h hrule ctx.clean
  | mergeTargets =>
      rw [references, references, h.clean_eq]
      exact tables_toLower h caseless_mergeTarget ctx.clean
  | mergeSources => exact mergeSources_toLower h
  | mergeSubquerySources =>
      simp only [references, h.clean_eq, h.spans_eq, List.map_flatMap, slice_toLower]
      apply List.flatMap_congr
      intro span _
      exact tables_toLower h caseless_querySource (span.slice ctx.clean)

theorem lowered_update (h : ctx.Lowered low) (search : Search) :
    (search.update ctx).Lowered (search.update low) := by
  cases search with
  | tableFunctions =>
      have hkeys : (tableFunctions.references low).map (·.callee.key) =
          (tableFunctions.references ctx).map (·.callee.key) := by
        have hidentities := congrArg (List.map fun identity => identity.2.2)
          (references_toLower h tableFunctions)
        rw [List.map_map, List.map_map] at hidentities
        exact hidentities
      refine ⟨h.clean_eq, h.definition_eq, h.noise_eq, h.spans_eq, ?_⟩
      simp only [update, hkeys, h.tableFunctions_eq]
  | _ => exact h

theorem candidates_toLower (h : ctx.Lowered low) (searches : List Search) :
    (candidates low searches).map Reference.identity =
      (candidates ctx searches).map Reference.identity := by
  induction searches generalizing ctx low with
  | nil => rfl
  | cons search later ih =>
      have hlater := ih (lowered_update h search)
      simp only [candidates, run, List.flatMap_cons, List.map_append] at hlater ⊢
      rw [references_toLower h, hlater]

end Search

end Script

/-! ### Results -/

theorem Reference.map_identity_distinctFrom {references references' : List Reference}
    (h : references'.map identity = references.map identity)
    (seen : List (String × Kind × String)) :
    (distinctFrom seen references').map identity = (distinctFrom seen references).map identity := by
  induction references generalizing references' seen with
  | nil =>
      obtain rfl : references' = [] := by simpa using h
      rfl
  | cons r later ih =>
      obtain ⟨r', later', rfl, hr, hlater⟩ := List.map_eq_cons_iff.mp h
      rw [distinctFrom, distinctFrom, hr]
      split
      · exact ih hlater seen
      · rw [List.map_cons, List.map_cons, hr, ih hlater]

/-- The objects of a result in order: kind and key of the definition and of every callee. -/
def ParsedScript.outline (r : ParsedScript) : (Kind × String) × List (Kind × String) :=
  (r.definition.identity, r.references.map (·.callee.identity))

theorem SameUpTo.trans_symm {ε α β : Type} {view : α → β} {x y z : Except ε (Option α)}
    (hx : SameUpTo view x z) (hy : SameUpTo view y z) : SameUpTo view x y := by
  cases hx with
  | error e e' =>
      cases hy with
      | error e₂ e₂' => exact .error e e₂
  | nothing =>
      cases hy with
      | nothing => exact .nothing
  | found h =>
      cases hy with
      | found h' => exact .found (h.trans h'.symm)

namespace Script

theorem lowered_startContext (clean : List Char) {definition definition' : DbObject}
    (h : definition.identity = definition'.identity) :
    (startContext clean definition).Lowered
      (startContext (clean.map Char.toLower) definition') where
  clean_eq := rfl
  definition_eq := (congrArg Prod.snd h).symm
  noise_eq := noise_toLower clean
  spans_eq := usingSpans_toLower clean
  tableFunctions_eq := rfl

theorem outline_result_toLower (clean : List Char) {definition definition' : DbObject}
    (h : definition.identity = definition'.identity) :
    (Analysis.result
      ⟨definition, Search.candidates (startContext clean definition) Search.all⟩).outline =
    (Analysis.result
      ⟨definition', Search.candidates (startContext (clean.map Char.toLower) definition')
        Search.all⟩).outline := by
  have hcandidates := Search.candidates_toLower (lowered_startContext clean h) Search.all
  have hdistinct := Reference.map_identity_distinctFrom hcandidates []
  have hcallees := congrArg (List.map Prod.snd) hdistinct
  rw [List.map_map, List.map_map] at hcallees
  exact Prod.ext h hcallees.symm

/-- Every outcome of parsing is kept when the ASCII letters of the script are written small. -/
theorem parse_toLower (text : String) :
    SameUpTo ParsedScript.outline (parse text)
      (parse (String.ofList (text.toList.map Char.toLower))) := by
  have hdefinition := definition?_toLower (clean text.toList)
  rw [parse, parse, analyze, analyze, String.toList_ofList, clean_toLower, analyzeClean,
    analyzeClean]
  generalize definition? (clean text.toList) = found at hdefinition
  generalize definition? ((clean text.toList).map Char.toLower) = found' at hdefinition
  cases hdefinition with
  | error e e' => exact .error e e'
  | nothing => exact .nothing
  | found h => exact .found (outline_result_toLower _ h)

/-- Two scripts that differ only in the case of ASCII letters are both refused, both without a
definition, or have results that agree object by object. -/
theorem parse_sameUpTo_of_toLower_eq {text text' : String}
    (h : text.toList.map Char.toLower = text'.toList.map Char.toLower) :
    SameUpTo ParsedScript.outline (parse text) (parse text') := by
  have hlow := parse_toLower text
  rw [h] at hlow
  exact hlow.trans_symm (parse_toLower text')

theorem parse_sameUpTo_of_toLower_eq_view :
    "CREATE VIEW Totals AS SELECT DBO.Tax(x) FROM [Sales]".toList.map Char.toLower =
        "create View TOTALS as select dbo.TAX(X) From [sAles]".toList.map Char.toLower ∧
      SameUpTo ParsedScript.outline
        (parse "CREATE VIEW Totals AS SELECT DBO.Tax(x) FROM [Sales]")
        (parse "create View TOTALS as select dbo.TAX(X) From [sAles]") :=
  ⟨by decide +kernel, parse_sameUpTo_of_toLower_eq (by decide +kernel)⟩

end Script

end ScriptGraph
