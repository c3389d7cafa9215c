import ScriptGraph.Proofs.Script.OpenSearches
import ScriptGraph.Proofs.Script.Renaming

/-!
# What the searches find in texts with open names

Every search finds its names at the same slots whatever the open names hold.  Whether a table is
named at a place is judged by the last characters before the place, and these may reach into an open
name; but no word before a table goes past the bracket that closes the name.
-/

namespace ScriptGraph.Script

open Text Name Pattern

/-! ### Places where a table is named -/

theorem framed_beforeTable (before text : List Char) :
    beforeTable.Framed (before ++ [']']) text [] := by
  have hword : ∀ letters : String, (Pattern.word letters).Framed (before ++ [']']) text [] := by
    intro letters
    apply Framed.all
    intro p hp
    obtain ⟨x, -, rfl⟩ := List.mem_map.mp hp
    exact .one (by simp)
  have hend : Pattern.atEnd.Framed (before ++ [']']) text [] := by
    intro c _
    have hrest : (c.within (before ++ [']']) []).rest = c.rest := List.append_nil c.rest
    rw [ends, ends, hrest]
    split <;> rfl
  exact .seq (.wordEdge (by simp; decide) (by simp))
    (.seq (.alt (hword _) (hword _)) (.seq (.run (by simp)) hend))

/-- A word before a table and the blanks behind it reach the end of the text without a bracket. -/
theorem bracket_notMem_of_beforeTable {c : Cursor} (h : beforeTable.matchesAt c = true) :
    ']' ∉ c.rest := by
  obtain ⟨d, hd⟩ : ∃ d, d ∈ beforeTable.ends c := by
    cases hends : beforeTable.ends c with
    | nil => simp [matchesAt, hends] at h
    | cons d later => exact ⟨d, List.mem_cons_self⟩
  obtain ⟨w, hspells, hreads⟩ := exists_spells_of_mem_ends hd
  have havoids : beforeTable.Avoids ']' w := by
    have hnothing : ∀ p : Pattern, (∀ w, p.Spells w → w = []) → p.Avoids ']' w :=
      fun _ => .of_spells_nil
    apply Avoids.seq (hnothing _ (by rintro w ⟨⟩; rfl))
    apply Avoids.seq (.alt (avoids_word (by decide)) (avoids_word (by decide)))
    exact .seq (.run (by decide)) (hnothing _ (by rintro w ⟨⟩; rfl))
  have hend : d.rest = [] := by
    obtain ⟨_, -, hd⟩ := List.mem_flatMap.mp hd
    obtain ⟨_, -, hd⟩ := List.mem_flatMap.mp hd
    obtain ⟨e, -, hd⟩ := List.mem_flatMap.mp hd
    have hlast : d ∈ Pattern.atEnd.ends e := hd
    rw [ends] at hlast
    split at hlast
    · rename_i hempty
      obtain rfl := List.mem_singleton.mp hlast
      exact List.isEmpty_iff.mp hempty
    · cases hlast
  rw [hreads.rest, hend, List.append_nil]
  exact havoids w hspells List.infix_rfl

theorem occursFrom_append_bracket (back front rest : List Char) :
    beforeTable.occursFrom back (front ++ ']' :: rest) =
      beforeTable.occursFrom (']' :: (front.reverse ++ back)) rest := by
  have hnone : ∀ back front : List Char,
      beforeTable.matchesAt ⟨back, front ++ ']' :: rest⟩ = false := by
    intro back front
    rw [Bool.eq_false_iff]
    intro hmatch
    exact bracket_notMem_of_beforeTable hmatch (by simp)
  induction front generalizing back with
  | nil =>
      have hhere : beforeTable.matchesAt ⟨back, ']' :: rest⟩ = false := hnone back []
      rw [List.nil_append, occursFrom, hhere]
      rfl
  | cons x front ih =>
      have hhere : beforeTable.matchesAt ⟨back, x :: (front ++ ']' :: rest)⟩ = false :=
        hnone back (x :: front)
      rw [List.cons_append, occursFrom, hhere, ih]
      simp

theorem occursIn_append_bracket (front rest : List Char) :
    beforeTable.occursIn (front ++ ']' :: rest) = beforeTable.occursIn rest := by
  have hframe : ∀ back rest : List Char,
      beforeTable.occursFrom (back ++ ']' :: front.reverse) rest =
        beforeTable.occursFrom back rest := by
    intro back rest
    have hmatch : ∀ back rest : List Char,
        beforeTable.matchesAt ⟨back ++ ']' :: front.reverse, rest⟩ =
          beforeTable.matchesAt ⟨back, rest⟩ := by
      intro back rest
      have hends := framed_beforeTable front _ ⟨back, rest⟩ rfl
      simp only [Cursor.within, List.append_nil, List.reverse_append, List.reverse_singleton,
        List.singleton_append] at hends
      rw [matchesAt, hends, List.isEmpty_map, matchesAt]
    induction rest generalizing back with
    | nil => exact hmatch back []
    | cons x rest ih =>
        rw [occursFrom, occursFrom, hmatch, ← List.cons_append, ih]
  rw [occursIn, occursFrom_append_bracket, List.append_nil]
  exact hframe [] rest

theorem exists_inTablePosition (c : Place) : ∃ named : Bool, ∀ content,
    inTablePosition (c.fill content) = named := by
  by_cases hopen : .hole ∈ c.back
  · obtain ⟨near, far, hback, hnear⟩ := List.eq_append_cons_of_mem hopen
    let window : List Char := (Slot.fill default near.reverse).reverse
    refine ⟨beforeTable.occursIn (window.take lookBack).reverse, fun content => ?_⟩
    have hplain : (Slot.fill content near.reverse).reverse = window := by
      rw [Slot.fill_eq_of_hole_notMem (by simpa using hnear) content default]
    obtain ⟨behind, hfill⟩ : ∃ behind, (c.fill content).back = window ++ ']' :: behind := by
      refine ⟨content.chars.reverse ++ '[' :: (Slot.fill content far.reverse).reverse, ?_⟩
      rw [← hplain]
      simp [Place.fill, hback]
    rw [inTablePosition, hfill, List.take_append]
    -- The characters looked at either end before the bracket or reach beyond it.
    cases hleft : lookBack - window.length with
    | zero => simp
    | succ n =>
        have hwhole : window.take lookBack = window := List.take_of_length_le (by omega)
        rw [List.take_succ_cons, hwhole, List.reverse_append, List.reverse_cons, List.append_assoc,
          List.singleton_append, occursIn_append_bracket]
  · refine ⟨inTablePosition (c.fill default), fun content => ?_⟩
    have hplain : .hole ∉ c.back.reverse := by simpa using hopen
    have hback : (c.fill content).back = (c.fill default).back :=
      congrArg List.reverse (Slot.fill_eq_of_hole_notMem hplain content default)
    rw [inTablePosition, hback, inTablePosition]

/-! ### The searches -/

section

variable {rule : Rule} (htraces : rule.Traces anyPiece IsPath anyPiece)

include htraces

theorem gives_filter (hadvances : rule.Advances)
    (hsilent : ∀ content, Mute content → rule.SilentIn content) (slots : List Slot)
    {test : Content → Hit → Bool}
    (htest : ∀ t : Trace, (∃ w, Place.Reads ⟨[], slots⟩ w t.start) →
      ∃ passes : Bool, ∀ content, test content (t.fill content) = passes) :
    Gives Slot.fill fun content =>
      ((rule.findAll (.start (Slot.fill content slots))).filter (test content)).map Hit.body := by
  have hall : Gives Slot.fill fun content =>
      (rule.findAll (Place.fill content ⟨[], slots⟩)).flatMap fun hit =>
        if test content hit then [hit.body] else [] := by
    apply Gives.findAll htraces hadvances
    · intro content hmute
      exact (hsilent content hmute).quietIn _
    · intro t hstart hcover
      obtain ⟨w, hw, hpath⟩ := hcover.body
      obtain ⟨passes, hpasses⟩ := htest t hstart
      cases passes with
      | true =>
          apply (Gives.singleton hpath.isName).congr
          intro content _
          rw [hpasses, if_pos rfl, Trace.body_fill hw]
      | false =>
          apply Gives.nil.congr
          intro content _
          rw [hpasses, if_neg Bool.false_ne_true]
  apply hall.congr
  intro content _
  have hfilter : ∀ hits : List Hit, (hits.filter (test content)).map Hit.body =
      hits.flatMap fun hit => if test content hit then [hit.body] else [] := by
    intro hits
    induction hits with
    | nil => rfl
    | cons hit later ih =>
        rw [List.filter_cons, List.flatMap_cons, ← ih]
        split <;> rfl
  exact hfilter _

theorem gives_written (hadvances : rule.Advances)
    (hsilent : ∀ content, Mute content → rule.SilentIn content) (slots : List Slot) :
    Gives Slot.fill fun content => Search.written rule (Slot.fill content slots) := by
  have hall : Gives Slot.fill fun content =>
      ((rule.findAll (.start (Slot.fill content slots))).filter fun _ => true).map Hit.body :=
    gives_filter htraces hadvances hsilent slots fun _ _ => ⟨true, fun _ => rfl⟩
  apply hall.congr
  intro content _
  rw [List.filter_true, Search.written]

end

theorem gives_mergeSources (slots : List Slot) :
    Gives Slot.fill fun content => Search.mergeSources.names (Slot.fill content slots) := by
  have hall : Gives Slot.fill fun content =>
      (mergeTarget.findAll (Place.fill content ⟨[], slots⟩)).flatMap fun target =>
        ((usingWord.find? target.stop).bind fun word =>
          (mergeSource.hit? word.start).map Hit.body).toList := by
    apply Gives.findAll traces_mergeTarget advances_mergeTarget
    · intro content hmute
      exact (hmute.silentIn (by simp [exposedRules])).quietIn _
    · intro t _ _
      have hsilent : ∀ content, Mute content → usingWord.SilentIn content :=
        fun _ hmute => hmute.silentIn (by simp [exposedRules])
      obtain ⟨word?, hword, -⟩ := traces_usingWord.exists_find? advances_usingWord t.stop
      have hword : ∀ content, Mute content → usingWord.find? (t.fill content).stop =
        word?.map (Trace.fill content) := fun content hmute => hword content (hsilent content hmute)
      cases word? with
      | none =>
          apply Gives.nil.congr
          intro content hmute
          rw [hword content hmute]
          rfl
      | some word =>
          obtain ⟨source?, hsource, hcovers⟩ := traces_mergeSource.exists_hit? word.start
          have hsource : ∀ content, mergeSource.hit? (word.fill content).start =
            source?.map (Trace.fill content) := hsource
          cases source? with
          | none =>
              apply Gives.nil.congr
              intro content hmute
              rw [hword content hmute]
              simp only [Option.map_some, Option.bind_some, hsource, Option.map_none,
                Option.toList_none]
          | some source =>
              obtain ⟨-, hcover⟩ := hcovers source rfl
              obtain ⟨w, hw, hpath⟩ := hcover.body
              apply (Gives.singleton hpath.isName).congr
              intro content hmute
              rw [hword content hmute]
              simp only [Option.map_some, Option.bind_some, hsource, Option.toList_some,
                Trace.body_fill hw]
  apply hall.congr
  intro content _
  exact List.filterMap_eq_flatMap_toList _ _

/-- Every search finds its names at the same slots whatever the open names hold. -/
theorem gives_names (slots : List Slot) (search : Search) :
    Gives Slot.fill fun content => search.names (Slot.fill content slots) := by
  cases search with
  | procedureCalls =>
      exact gives_written traces_executedProcedure advances_executedProcedure
        (fun _ hmute => hmute.silentIn (by simp [exposedRules])) slots
  | tableFunctions =>
      exact gives_written traces_tableFunction advances_tableFunction
        (fun content _ => silentIn_tableFunction content) slots
  | scalarFunctions =>
      apply gives_filter traces_calledName advances_calledName
        (fun content _ => silentIn_calledName content) slots
      intro t _
      obtain ⟨named, hnamed⟩ := exists_inTablePosition t.start
      exact ⟨!named, fun content => congrArg Bool.not (hnamed content)⟩
  | querySources =>
      apply gives_filter traces_querySource advances_querySource
        (fun _ hmute => hmute.silentIn_querySource) slots
      rintro t ⟨w, hw⟩
      obtain ⟨inside, hinside⟩ := exists_inSpans slots hw
      exact ⟨!inside, fun content => congrArg Bool.not (hinside content)⟩
  | insertTargets =>
      exact gives_written traces_insertTarget advances_insertTarget
        (fun _ hmute => hmute.silentIn (by simp [exposedRules])) slots
  | updateTargets =>
      exact gives_written traces_updateTarget advances_updateTarget
        (fun content _ => silentIn_updateTarget content) slots
  | deleteTargets =>
      exact gives_written traces_deleteTarget advances_deleteTarget
        (fun _ hmute => hmute.silentIn (by simp [exposedRules])) slots
  | mergeTargets =>
      exact gives_written traces_mergeTarget advances_mergeTarget
        (fun _ hmute => hmute.silentIn (by simp [exposedRules])) slots
  | mergeSources => exact gives_mergeSources slots
  | mergeSubquerySources =>
      obtain ⟨bounds, hspans, hbounds⟩ := exists_usingSpans slots
      have hall : Gives Slot.fill fun content => bounds.flatMap fun b =>
          Search.written querySource ((spanIn content b).slice (Slot.fill content slots)) := by
        apply Gives.flatMap
        intro b hb
        obtain ⟨inner, hinner⟩ := exists_slice (hbounds b hb)
        apply (gives_written traces_querySource advances_querySource
          (fun _ hmute => hmute.silentIn_querySource) inner).congr
        intro content _
        rw [hinner]
      apply hall.congr
      intro content _
      rw [Search.names, hspans, List.flatMap_map]

end ScriptGraph.Script
