import ScriptGraph.Proofs.Script.OpenRules

/-!
# The stages of a parse over texts with open names

Cleaning a text with open names gives such a text again.  The definition, the groups in parentheses,
the spans after `USING` and the names that are not references are found at the same slots whatever
the open names hold, as long as these hold nothing that looks like a statement.
-/

namespace ScriptGraph.Text

namespace Place

variable {slots u v : List Slot} {c d : Place}

theorem Reads.text_fill (h : Reads ⟨[], slots⟩ u c) (content : Content) :
    (c.fill content).text = Slot.fill content slots := (h.fill content).text_eq

theorem Reads.offset_fill (h : Reads ⟨[], slots⟩ u c) (content : Content) :
    (c.fill content).offset = (Slot.fill content u).length := by
  have hoffset := (h.fill content).offset_eq
  rw [hoffset]
  exact Nat.zero_add _

/-- Places of one text lie to one another as the slots before them do. -/
theorem offset_fill_le_iff (hc : Reads ⟨[], slots⟩ u c) (hd : Reads ⟨[], slots⟩ v d)
    (content : Content) :
    (c.fill content).offset ≤ (d.fill content).offset ↔ u.length ≤ v.length := by
  have hfirst : u <+: slots := ⟨_, hc.rest.symm⟩
  have hsecond : v <+: slots := ⟨_, hd.rest.symm⟩
  rw [hc.offset_fill, hd.offset_fill]
  constructor
  · intro hle
    by_contra hlt
    obtain ⟨later, rfl⟩ := List.prefix_of_prefix_length_le hsecond hfirst (Nat.le_of_not_le hlt)
    have hpos := Slot.length_le_length_fill content later
    simp only [Slot.fill_append, List.length_append] at hle hlt
    omega
  · intro hle
    obtain ⟨later, rfl⟩ := List.prefix_of_prefix_length_le hfirst hsecond hle
    simp

end Place

end ScriptGraph.Text

namespace ScriptGraph.Script

open Text Name Pattern

/-! ### Cleaning -/

theorem exists_clean (slots : List Slot) : ∃ cleaned : List Slot, ∀ content,
    dropCommentsAndLiterals (Slot.fill content slots) = Slot.fill content slots →
      clean (Slot.fill content slots) = Slot.fill content cleaned := by
  obtain ⟨typed, htyped⟩ :=
    traces_typeWithParameters.exists_reduce advances_typeWithParameters slots
  obtain ⟨inserted, hinserted⟩ :=
    traces_insertWithColumns.exists_reduce advances_insertWithColumns typed
  obtain ⟨merged, hmerged⟩ :=
    traces_mergeInsertWithColumns.exists_reduce advances_mergeInsertWithColumns inserted
  refine ⟨merged, fun content hsame => ?_⟩
  rw [clean, hsame, dropTypeParameters, htyped content (silentIn_typeWithParameters content),
    dropInsertColumns, hinserted content (silentIn_insertWithColumns content),
    hmerged content (silentIn_mergeInsertWithColumns content)]

/-! ### The definition -/

/-- The kind of the definition does not depend on the open names, and its name is a path. -/
theorem exists_definition? (slots : List Slot) :
    ∃ found : Except DefinitionError (Option (List Slot × Kind)),
      (∀ content, Mute content →
        (definition? (Slot.fill content slots)).map (·.map fun o => (o.name, o.kind)) =
          found.map (·.map fun d => (String.ofList (Slot.fill content d.1), d.2))) ∧
      ∀ w kind, found = .ok (some (w, kind)) → IsName w := by
  obtain ⟨trace?, hfind, hcovers⟩ := traces_creation.exists_find? advances_creation ⟨[], slots⟩
  have hsilent : ∀ content, Mute content → creation.SilentIn content :=
    fun _ h => h.silentIn (by simp [exposedRules])
  cases trace? with
  | none =>
      refine ⟨.ok none, fun content hmute => ?_, by simp⟩
      have hnone : creation.find? (.start (Slot.fill content slots)) = none :=
        hfind content (hsilent content hmute)
      simp [definition?, hnone, Except.map]
  | some t =>
      obtain ⟨-, hcover⟩ := hcovers t rfl
      obtain ⟨word, hword, hplain⟩ := hcover.body
      obtain ⟨_, htrail, u, w, rfl, hu, hw⟩ := hcover.trail
      refine ⟨(kindOfWord (Slot.fill default word)).map fun kind => some (w, kind), ?_, ?_⟩
      · intro content hmute
        have hsome : creation.find? (.start (Slot.fill content slots)) = some (t.fill content) :=
          hfind content (hsilent content hmute)
        have hbody : (t.fill content).body = Slot.fill default word := by
          rw [Trace.body_fill hword, Slot.fill_eq_of_hole_notMem hplain content default]
        obtain ⟨x, rest, hcons, hx⟩ := hw.exists_cons content
        have hname : createdName (t.fill content) = Slot.fill content w := by
          have hupTo : (t.fill content).right.upTo (t.fill content).stop =
              Slot.fill content (u ++ w) := (htrail.fill content).upTo_eq
          rw [createdName, hupTo, Slot.fill_append, trimStart,
            List.dropWhile_append_of_pos fun _ => isBlank_of_mem_fill hu, hcons]
          simp [hx]
        have hnamed : allBlank (String.ofList (Slot.fill content w)).toList = false := by
          simp [hcons, allBlank, hx]
        cases hkind : kindOfWord (Slot.fill default word) with
        | error e => simp [definition?, hsome, hbody, hkind, bind, Except.bind, Except.map]
        | ok kind =>
            have hmake : DbObject.make? (String.ofList (Slot.fill content w)) kind =
                some ⟨String.ofList (Slot.fill content w), kind, hnamed⟩ := dif_pos hnamed
            simp [definition?, hsome, hbody, hkind, hname, hmake, bind, Except.bind, Except.map]
      · intro w' kind hfound
        cases hkind : kindOfWord (Slot.fill default word) with
        | error e => simp [hkind, Except.map] at hfound
        | ok other =>
            obtain ⟨rfl, -⟩ : w = w' ∧ other = kind := by simpa [hkind, Except.map] using hfound
            exact hw.isName

/-! ### Groups in parentheses -/

theorem closingOffset?_append {front : List Char} (h : ∀ x ∈ front, x ≠ '(' ∧ x ≠ ')')
    (depth : Int) (rest : List Char) :
    closingOffset? depth (front ++ rest) = (closingOffset? depth rest).map (· + front.length) := by
  induction front with
  | nil => simp
  | cons x front ih =>
      obtain ⟨⟨hopening, hclosing⟩, hfront⟩ := List.forall_mem_cons.mp h
      simp only [List.cons_append, closingOffset?, ih hfront, Option.map_map, List.length_cons]
      congr 1

/-- The closing parenthesis is found at the same slot whatever the open names hold. -/
theorem exists_closingOffset? (depth : Int) (slots : List Slot) : ∃ w? : Option (List Slot),
    (∀ content, closingOffset? depth (Slot.fill content slots) =
      w?.map fun w => (Slot.fill content w).length) ∧
    ∀ w ∈ w?, ∃ h behind, slots = w ++ .char ')' h :: behind := by
  induction slots generalizing depth with
  | nil => exact ⟨none, fun _ => rfl, by simp⟩
  | cons s slots ih =>
      -- A slot that does not end the group changes the depth at most, to the same for all contents.
      have hstep : ∀ later : Int,
          (∀ content, closingOffset? depth (Slot.fill content (s :: slots)) =
            (closingOffset? later (Slot.fill content slots)).map (· + (s.text content).length)) →
          ∃ w? : Option (List Slot),
            (∀ content, closingOffset? depth (Slot.fill content (s :: slots)) =
              w?.map fun w => (Slot.fill content w).length) ∧
            ∀ w ∈ w?, ∃ h behind, s :: slots = w ++ .char ')' h :: behind := by
        intro later hlater
        obtain ⟨w?, hw, hbehind⟩ := ih later
        refine ⟨w?.map (s :: ·), fun content => ?_, fun w hmem => ?_⟩
        · rw [hlater, hw, Option.map_map, Option.map_map]
          congr 1
          funext w
          simp [Slot.fill_cons, Nat.add_comm]
        · obtain ⟨w, hfound, rfl⟩ := Option.map_eq_some_iff.mp hmem
          obtain ⟨h, behind, hslots⟩ := hbehind w hfound
          exact ⟨h, behind, by rw [hslots]; rfl⟩
      cases s with
      | hole =>
          apply hstep depth
          intro content
          have hplain : ∀ x ∈ Slot.hole.text content, x ≠ '(' ∧ x ≠ ')' := by
            intro x hx
            simp only [Slot.text, List.mem_cons, List.mem_append, List.not_mem_nil, or_false] at hx
            rcases hx with rfl | hx | rfl
            · decide
            · exact (content.plain x hx).2.2
            · decide
          rw [Slot.fill_cons, closingOffset?_append hplain]
      | char x hx =>
          by_cases hopening : x = '('
          · subst hopening
            exact hstep (depth + 1) fun content => by rw [Slot.fill_char, closingOffset?]; rfl
          · by_cases hclosing : x = ')'
            · subst hclosing
              by_cases hdepth : depth = 1
              · refine ⟨some [], fun content => ?_, ?_⟩
                · rw [Slot.fill_char, closingOffset?, if_pos hdepth]
                  rfl
                · rintro w ⟨⟩
                  exact ⟨hx, slots, rfl⟩
              · apply hstep (depth - 1)
                intro content
                rw [Slot.fill_char, closingOffset?, if_neg hdepth]
                rfl
            · apply hstep depth
              intro content
              have hplain : ∀ y ∈ [x], y ≠ '(' ∧ y ≠ ')' := by simp [hopening, hclosing]
              exact closingOffset?_append hplain depth (Slot.fill content slots)

theorem exists_afterGroup? (c : Place) : ∃ d? : Option Place,
    (∀ content, afterGroup? (c.fill content) = d?.map (Place.fill content)) ∧
    ∀ d ∈ d?, ∃ w, c.Reads w d ∧ w ≠ [] := by
  obtain ⟨w?, hw, hbehind⟩ := exists_closingOffset? 1 c.rest
  cases w? with
  | none =>
      refine ⟨none, fun content => ?_, by simp⟩
      have hnone : closingOffset? 1 (c.fill content).rest = none := hw content
      rw [afterGroup?, hnone]
      rfl
  | some w =>
      obtain ⟨h, behind, hrest⟩ := hbehind w rfl
      let after : Place := ⟨.char ')' h :: (w.reverse ++ c.back), behind⟩
      have hreads : c.Reads (w ++ [.char ')' h]) after := ⟨by simp [hrest, after], by simp [after]⟩
      refine ⟨some after, fun content => ?_, ?_⟩
      · have hsome : closingOffset? 1 (c.fill content).rest = some (Slot.fill content w).length :=
          hw content
        have hskip := (hreads.fill content).skip_eq
        rw [Slot.fill_append, List.length_append] at hskip
        rw [afterGroup?, hsome]
        exact congrArg some hskip
      · rintro d ⟨⟩
        exact ⟨_, hreads, by simp⟩

/-! ### The spans after `USING` -/

def spanIn (content : Content) (bounds : Place × Place) : Span :=
  ⟨(bounds.1.fill content).offset, (bounds.2.fill content).offset⟩

/-- The bounds are places of a text, one behind the other. -/
structure Bounds (slots : List Slot) (bounds : Place × Place) : Prop where
  start : ∃ u, Place.Reads ⟨[], slots⟩ u bounds.1
  stop : ∃ v, bounds.1.Reads v bounds.2

theorem exists_groupEnd (c : Place) : ∃ (d : Place) (w : List Slot), c.Reads w d ∧ ∀ content,
    (match closingOffset? 1 (c.fill content).rest with
      | some n => (⟨(c.fill content).offset, (c.fill content).offset + n⟩ : Span)
      | none => ⟨(c.fill content).offset, (c.fill content).text.length⟩) =
        spanIn content (c, d) := by
  obtain ⟨w?, hw, hbehind⟩ := exists_closingOffset? 1 c.rest
  cases w? with
  | none =>
      let after : Place := ⟨c.rest.reverse ++ c.back, []⟩
      refine ⟨after, c.rest, ⟨(List.append_nil _).symm, rfl⟩, fun content => ?_⟩
      have hnone : closingOffset? 1 (c.fill content).rest = none := hw content
      have hend : (after.fill content).offset = (c.fill content).text.length := by
        simp [after, Place.fill, Cursor.offset, Cursor.text, Nat.add_comm]
      rw [hnone, spanIn, hend]
  | some w =>
      obtain ⟨h, behind, hrest⟩ := hbehind w rfl
      have hreads : c.Reads w ⟨w.reverse ++ c.back, .char ')' h :: behind⟩ := ⟨hrest, rfl⟩
      refine ⟨_, w, hreads, fun content => ?_⟩
      have hsome : closingOffset? 1 (c.fill content).rest = some (Slot.fill content w).length :=
        hw content
      rw [hsome, spanIn, (hreads.fill content).offset_eq, Int.natCast_add]

theorem exists_usingSpans (slots : List Slot) : ∃ bounds : List (Place × Place),
    (∀ content, usingSpans (Slot.fill content slots) = bounds.map (spanIn content)) ∧
    ∀ b ∈ bounds, Bounds slots b := by
  obtain ⟨traces, htraces, hcovers⟩ :=
    traces_usingGroup.exists_findAll_eq advances_usingGroup ⟨[], slots⟩
  choose stop inner hreads hspan using exists_groupEnd
  have hplace : ∀ t ∈ traces, ∃ u, Place.Reads ⟨[], slots⟩ u t.stop := by
    intro t ht
    obtain ⟨⟨u, hu⟩, hcover⟩ := hcovers t ht
    obtain ⟨w, hw⟩ := hcover.reads
    exact ⟨u ++ w, hu.trans hw⟩
  refine ⟨traces.map fun t => (t.stop, stop t.stop), fun content => ?_, fun b hb => ?_⟩
  · have hall : usingGroup.findAll (.start (Slot.fill content slots)) =
        traces.map (Trace.fill content) := htraces content (silentIn_usingGroup content)
    rw [usingSpans, hall, List.map_map, List.map_map]
    apply List.map_congr_left
    intro t ht
    obtain ⟨u, hu⟩ := hplace t ht
    have hgroup := hspan t.stop content
    rw [hu.text_fill] at hgroup
    exact hgroup
  · obtain ⟨t, ht, rfl⟩ := List.mem_map.mp hb
    exact ⟨hplace t ht, inner t.stop, hreads t.stop⟩

theorem contains_spanIn {slots u : List Slot} {bounds : Place × Place} {c : Place}
    (hbounds : Bounds slots bounds) (hc : Place.Reads ⟨[], slots⟩ u c) : ∃ inside : Bool,
      ∀ content, (spanIn content bounds).contains (c.fill content).offset = inside := by
  obtain ⟨start, hstart⟩ := hbounds.start
  obtain ⟨inner, hinner⟩ := hbounds.stop
  refine ⟨decide (start.length ≤ u.length) && !decide ((start ++ inner).length ≤ u.length), ?_⟩
  intro content
  have hfirst := Place.offset_fill_le_iff hstart hc content
  have hlast := Place.offset_fill_le_iff (hstart.trans hinner) hc content
  rw [Bool.eq_iff_iff]
  simp only [Span.contains, spanIn, Bool.and_eq_true, decide_eq_true_eq, Bool.not_eq_true',
    decide_eq_false_iff_not, Int.ofNat_le, Int.ofNat_lt, hfirst, ← Nat.not_le, hlast]

theorem exists_inSpans (slots : List Slot) {u : List Slot} {c : Place}
    (hc : Place.Reads ⟨[], slots⟩ u c) : ∃ inside : Bool, ∀ content,
      inSpans (usingSpans (Slot.fill content slots)) (c.fill content).offset = inside := by
  obtain ⟨bounds, hspans, hbounds⟩ := exists_usingSpans slots
  have hany : ∀ bounds : List (Place × Place), (∀ b ∈ bounds, Bounds slots b) → ∃ inside : Bool,
      ∀ content, inSpans (bounds.map (spanIn content)) (c.fill content).offset = inside := by
    intro bounds hbounds
    induction bounds with
    | nil => exact ⟨false, fun _ => rfl⟩
    | cons b later ih =>
        obtain ⟨hb, hlater⟩ := List.forall_mem_cons.mp hbounds
        obtain ⟨first, hfirst⟩ := contains_spanIn hb hc
        obtain ⟨rest, hrest⟩ := ih hlater
        refine ⟨first || rest, fun content => ?_⟩
        rw [← hfirst content, ← hrest content]
        rfl
  obtain ⟨inside, hinside⟩ := hany bounds hbounds
  exact ⟨inside, fun content => by rw [hspans, hinside]⟩

theorem exists_slice {slots : List Slot} {bounds : Place × Place} (h : Bounds slots bounds) :
    ∃ inner : List Slot, ∀ content,
      (spanIn content bounds).slice (Slot.fill content slots) = Slot.fill content inner := by
  obtain ⟨u, hu⟩ := h.start
  obtain ⟨v, hv⟩ := h.stop
  refine ⟨v, fun content => ?_⟩
  have htext : Slot.fill content slots =
      Slot.fill content u ++ (Slot.fill content v ++ Slot.fill content bounds.2.rest) := by
    have hslots : slots = u ++ (v ++ bounds.2.rest) := by rw [← hv.rest]; exact hu.rest
    rw [hslots, Slot.fill_append, Slot.fill_append]
  have hspan : spanIn content bounds = ⟨(Slot.fill content u).length,
      (Slot.fill content u).length + (Slot.fill content v).length⟩ := by
    rw [spanIn, hu.offset_fill, (hu.trans hv).offset_fill, Slot.fill_append, List.length_append,
      Int.natCast_add]
  rw [hspan, htext]
  exact Span.slice_eq _ _ _

end ScriptGraph.Script
