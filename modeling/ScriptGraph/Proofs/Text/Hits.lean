import ScriptGraph.Proofs.Text.Spelling

/-!
# Where rules match

A match of a rule is made of three matches of patterns, one after the other.  Every match that is
found in a text starts at a place of that text, so the body of the match is a piece of the text, and
the body is spelled by the pattern of the body.  The first match that is found is the preferred match
at the leftmost place that has one.
-/

namespace ScriptGraph.Text

/-- A place is given by the text around it and its offset. -/
theorem Cursor.eq_of_text_of_offset {c d : Cursor} (htext : c.text = d.text)
    (hoffset : c.offset = d.offset) : c = d := by
  obtain ⟨hback, hrest⟩ := List.append_inj htext (by simpa [offset] using hoffset)
  obtain ⟨back, rest⟩ := c
  obtain ⟨back', rest'⟩ := d
  simp_all

theorem Cursor.skip_start (c : Cursor) : (Cursor.start c.text).skip c.offset = c := by
  have hreads : (Cursor.start c.text).Reads c.back.reverse c := ⟨rfl, by simp [start]⟩
  simpa [offset] using hreads.skip_eq

namespace Rule

variable {r : Rule} {c : Cursor} {h : Hit}

theorem mem_hits_iff :
    h ∈ r.hits c ↔
      h.start = c ∧ h.left ∈ r.lead.ends c ∧ h.right ∈ r.body.ends h.left ∧
        h.stop ∈ r.trail.ends h.right := by
  obtain ⟨start, left, right, stop⟩ := h
  simp only [hits, List.mem_flatMap, List.mem_map, Hit.mk.injEq]
  constructor
  · rintro ⟨left, hleft, right, hright, stop, hstop, rfl, rfl, rfl, rfl⟩
    exact ⟨rfl, hleft, hright, hstop⟩
  · rintro ⟨rfl, hleft, hright, hstop⟩
    exact ⟨left, hleft, right, hright, stop, hstop, rfl, rfl, rfl, rfl⟩

theorem mem_hits_of_hit? (hhit : r.hit? c = some h) : h ∈ r.hits c :=
  List.mem_of_mem_head? hhit

/-- What a match covers, part by part. -/
theorem exists_parts_of_hit? (hhit : r.hit? c = some h) :
    ∃ lead trail, r.lead.Spells lead ∧ r.body.Spells h.body ∧ r.trail.Spells trail ∧
      c.Reads lead h.left ∧ h.left.Reads h.body h.right ∧ h.right.Reads trail h.stop := by
  obtain ⟨-, hleft, hright, hstop⟩ := mem_hits_iff.mp (mem_hits_of_hit? hhit)
  obtain ⟨lead, hlead, hreadsLead⟩ := Pattern.exists_spells_of_mem_ends hleft
  obtain ⟨body, hbody, hreadsBody⟩ := Pattern.exists_spells_of_mem_ends hright
  obtain ⟨trail, htrail, hreadsTrail⟩ := Pattern.exists_spells_of_mem_ends hstop
  have heq : h.body = body := hreadsBody.upTo_eq
  exact ⟨lead, trail, hlead, heq ▸ hbody, htrail, hreadsLead, heq ▸ hreadsBody, hreadsTrail⟩

theorem start_of_hit? (hhit : r.hit? c = some h) : h.start = c :=
  (mem_hits_iff.mp (mem_hits_of_hit? hhit)).1

theorem exists_reads_of_mem_findAllFrom {left : List Char} (hmem : h ∈ r.findAllFrom left c) :
    (∃ piece, c.Reads piece h.start) ∧ r.hit? h.start = some h := by
  induction left generalizing c with
  | nil => simp [findAllFrom] at hmem
  | cons _ left ih =>
      unfold findAllFrom at hmem
      split at hmem
      · rename_i first hfirst
        have hstart := start_of_hit? hfirst
        rcases List.mem_cons.mp hmem with rfl | hlater
        · exact ⟨⟨[], hstart ▸ Cursor.Reads.refl _⟩, hstart ▸ hfirst⟩
        · obtain ⟨⟨piece, hreads⟩, hhit⟩ := ih hlater
          obtain ⟨lead, trail, -, -, -, hlead, hbody, htrail⟩ := exists_parts_of_hit? hfirst
          exact ⟨⟨_, ((hlead.trans hbody).trans htrail).trans hreads⟩, hhit⟩
      · obtain ⟨⟨piece, hreads⟩, hhit⟩ := ih hmem
        exact ⟨⟨_, (Cursor.reads_skip_one c).trans hreads⟩, hhit⟩

/-- A match that is found starts at a place of the text, and it is the preferred match there. -/
theorem exists_reads_of_mem_findAll (hmem : h ∈ r.findAll c) :
    (∃ piece, c.Reads piece h.start) ∧ r.hit? h.start = some h :=
  exists_reads_of_mem_findAllFrom hmem

theorem exists_reads_of_findFrom {left : List Char} (hfind : r.findFrom left c = some h) :
    (∃ piece, c.Reads piece h.start) ∧ r.hit? h.start = some h := by
  induction left generalizing c with
  | nil =>
      have hstart := start_of_hit? hfind
      exact ⟨⟨[], hstart ▸ Cursor.Reads.refl _⟩, hstart ▸ hfind⟩
  | cons _ left ih =>
      unfold findFrom at hfind
      split at hfind
      · rename_i first hfirst
        obtain rfl : first = h := by simpa using hfind
        have hstart := start_of_hit? hfirst
        exact ⟨⟨[], hstart ▸ Cursor.Reads.refl _⟩, hstart ▸ hfirst⟩
      · obtain ⟨⟨piece, hreads⟩, hhit⟩ := ih hfind
        exact ⟨⟨_, (Cursor.reads_skip_one c).trans hreads⟩, hhit⟩

theorem exists_reads_of_find? (hfind : r.find? c = some h) :
    (∃ piece, c.Reads piece h.start) ∧ r.hit? h.start = some h :=
  exists_reads_of_findFrom hfind

theorem isSome_findFrom {left : List Char} (hhit : (r.hit? c).isSome) :
    (r.findFrom left c).isSome := by
  obtain ⟨first, hfirst⟩ := Option.isSome_iff_exists.mp hhit
  cases left <;> simp [findFrom, hfirst]

theorem isSome_find?_append {piece back rest : List Char}
    (hhit : (r.hit? ⟨piece.reverse ++ back, rest⟩).isSome) :
    (r.find? ⟨back, piece ++ rest⟩).isSome := by
  induction piece generalizing back with
  | nil => exact isSome_findFrom hhit
  | cons x piece ih =>
      simp only [find?, List.cons_append, findFrom]
      split
      · rfl
      · exact ih (by simpa using hhit)

/-! ### The leftmost match -/

/-- The preferred match at the first place of a text at which the rule matches. -/
structure IsLeftmost (r : Rule) (text : List Char) (h : Hit) : Prop where
  text_start : h.start.text = text
  hit?_start : r.hit? h.start = some h
  none_before : ∀ c : Cursor, c.text = text → c.offset < h.start.offset → r.hit? c = none

theorem find?_eq_none_iff {back rest : List Char} :
    r.find? ⟨back, rest⟩ = none ↔
      ∀ c : Cursor, c.text = back.reverse ++ rest → back.length ≤ c.offset → r.hit? c = none := by
  induction rest generalizing back with
  | nil =>
      constructor
      · intro hnone c htext hoffset
        have hlength := congrArg List.length htext
        simp only [Cursor.text, Cursor.offset, List.length_append, List.length_reverse,
          List.length_nil] at hlength hoffset
        have hc : c = ⟨back, []⟩ := Cursor.eq_of_text_of_offset htext (by simp only [Cursor.offset]; omega)
        exact hc ▸ hnone
      · intro hall
        exact hall ⟨back, []⟩ rfl (Nat.le_refl _)
  | cons x rest ih =>
      have hstep : r.find? ⟨back, x :: rest⟩ = none ↔
          r.hit? ⟨back, x :: rest⟩ = none ∧ r.find? ⟨x :: back, rest⟩ = none := by
        simp only [find?, findFrom, Cursor.skip]
        cases r.hit? ⟨back, x :: rest⟩ with
        | none => simp
        | some first => simp
      rw [hstep, ih]
      constructor
      · rintro ⟨hhere, hlater⟩ c htext hoffset
        rcases Nat.eq_or_lt_of_le hoffset with heq | hlt
        · have hc : c = ⟨back, x :: rest⟩ := Cursor.eq_of_text_of_offset htext heq.symm
          exact hc ▸ hhere
        · exact hlater c (by simpa using htext) hlt
      · intro hall
        refine ⟨hall _ rfl (Nat.le_refl _), ?_⟩
        intro c htext hoffset
        exact hall c (by simpa using htext) (Nat.le_of_succ_le hoffset)

theorem none_before_of_find? {back rest : List Char} (hfind : r.find? ⟨back, rest⟩ = some h)
    {c : Cursor} (htext : c.text = back.reverse ++ rest) (hoffset : back.length ≤ c.offset)
    (hbefore : c.offset < h.start.offset) : r.hit? c = none := by
  induction rest generalizing back with
  | nil =>
      have hstart : h.start = ⟨back, []⟩ := start_of_hit? hfind
      rw [hstart] at hbefore
      exact absurd hoffset (Nat.not_le_of_lt hbefore)
  | cons x rest ih =>
      simp only [find?, findFrom, Cursor.skip] at hfind
      split at hfind
      · rename_i first hfirst
        obtain rfl : first = h := by simpa using hfind
        rw [start_of_hit? hfirst] at hbefore
        exact absurd hoffset (Nat.not_le_of_lt hbefore)
      · rename_i hnone
        rcases Nat.eq_or_lt_of_le hoffset with heq | hlt
        · have hc : c = ⟨back, x :: rest⟩ := Cursor.eq_of_text_of_offset htext heq.symm
          exact hc ▸ hnone
        · exact ih hfind (by simpa using htext) hlt

theorem find?_start_eq_some_iff {text : List Char} :
    r.find? (.start text) = some h ↔ r.IsLeftmost text h := by
  have hleftmost : ∀ {h : Hit}, r.find? (.start text) = some h → r.IsLeftmost text h := by
    intro h hfind
    obtain ⟨⟨piece, hreads⟩, hhit⟩ := exists_reads_of_find? hfind
    refine ⟨?_, hhit, fun c htext => none_before_of_find? hfind htext (Nat.zero_le _)⟩
    have hback : h.start.back = piece.reverse := by simpa [Cursor.start] using hreads.back
    rw [Cursor.text, hback, List.reverse_reverse, ← hreads.rest]
    rfl
  refine ⟨hleftmost, fun hh => ?_⟩
  cases hfind : r.find? (.start text) with
  | none =>
      have hnone := find?_eq_none_iff.mp hfind h.start hh.text_start (Nat.zero_le _)
      rw [hh.hit?_start] at hnone
      cases hnone
  | some other =>
      -- Two leftmost matches start at the same place, and there is one preferred match there.
      have hother := hleftmost hfind
      have hoffset : other.start.offset = h.start.offset := by
        rcases Nat.lt_trichotomy other.start.offset h.start.offset with hlt | heq | hlt
        · have hnone := hh.none_before _ hother.text_start hlt
          rw [hother.hit?_start] at hnone
          cases hnone
        · exact heq
        · have hnone := hother.none_before _ hh.text_start hlt
          rw [hh.hit?_start] at hnone
          cases hnone
      have hstart := Cursor.eq_of_text_of_offset (hother.text_start.trans hh.text_start.symm) hoffset
      rw [← hother.hit?_start, hstart, hh.hit?_start]

theorem find?_start_eq_none_iff {text : List Char} :
    r.find? (.start text) = none ↔ ∀ c : Cursor, c.text = text → r.hit? c = none := by
  simp [Cursor.start, find?_eq_none_iff]

theorem reduce_eq_self {text : List Char}
    (h : ∀ piece d, (Cursor.start text).Reads piece d → r.hit? d = none) : r.reduce text = text := by
  have hfrom : ∀ left c piece, (Cursor.start text).Reads piece c → r.reduceFrom left c = c.rest := by
    intro left
    induction left with
    | nil => intros; rfl
    | cons y left ih =>
        intro c piece hreads
        unfold reduceFrom
        rw [h piece c hreads]
        obtain ⟨back, rest⟩ := c
        cases rest with
        | nil => rfl
        | cons x rest => exact congrArg (x :: ·) (ih _ _ (hreads.trans (.step back rest x)))
  exact hfrom text (.start text) [] (.refl _)

theorem body_infix_of_hit? (hhit : r.hit? c = some h) : h.body <:+: c.rest := by
  obtain ⟨lead, trail, -, -, -, hlead, hbody, -⟩ := exists_parts_of_hit? hhit
  exact hbody.infix_rest.trans hlead.suffix_rest.isInfix

theorem body_infix_of_mem_findAll (hmem : h ∈ r.findAll c) : h.body <:+: c.rest := by
  obtain ⟨⟨piece, hreads⟩, hhit⟩ := exists_reads_of_mem_findAll hmem
  exact (body_infix_of_hit? hhit).trans hreads.suffix_rest.isInfix

theorem spells_body_of_hit? (hhit : r.hit? c = some h) : r.body.Spells h.body := by
  obtain ⟨lead, trail, -, hbody, -⟩ := exists_parts_of_hit? hhit
  exact hbody

theorem spells_body_of_mem_findAll (hmem : h ∈ r.findAll c) : r.body.Spells h.body :=
  spells_body_of_hit? (exists_reads_of_mem_findAll hmem).2

end Rule

end ScriptGraph.Text
