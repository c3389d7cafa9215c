import Mathlib.Data.List.Infix
import ScriptGraph.Proofs.Name
import ScriptGraph.Proofs.Text.Framing
import ScriptGraph.Script.References

/-!
# Sources of a merge inside and outside its subqueries

The search for the named sources of a query leaves out the spans after `USING`, and another search
reads these spans one by one.  A named source has no parenthesis in it, so no match reaches across
the end of a span, and together the two searches find what one search over the whole text finds.
-/

namespace ScriptGraph.Script

open Text Name

/-- No parenthesis stands between an opening bracket and the next closing one. -/
def BracketsFlat (text : List Char) : Prop :=
  ∀ rest, '[' :: rest <:+ text → ']' ∈ rest →
    '(' ∉ rest.takeWhile (· != ']') ∧ ')' ∉ rest.takeWhile (· != ']')

theorem bracketsFlat_iff_tails (text : List Char) :
    BracketsFlat text ↔ ∀ piece ∈ text.tails, piece.head? = some '[' → ']' ∈ piece.tail →
      '(' ∉ piece.tail.takeWhile (· != ']') ∧ ')' ∉ piece.tail.takeWhile (· != ']') := by
  constructor
  · intro h piece hpiece hhead
    apply h piece.tail
    rw [List.cons_head?_tail hhead]
    exact (List.mem_tails _ _).mp hpiece
  · intro h rest hrest
    exact h ('[' :: rest) ((List.mem_tails _ _).mpr hrest) rfl

instance (text : List Char) : Decidable (BracketsFlat text) :=
  decidable_of_iff' _ (bracketsFlat_iff_tails text)

theorem BracketsFlat.notMem {text inner behind : List Char} (h : BracketsFlat text)
    (hbracket : '[' :: (inner ++ ']' :: behind) <:+ text) (hinner : ']' ∉ inner) :
    '(' ∉ inner ∧ ')' ∉ inner := by
  have hnext : (inner ++ ']' :: behind).takeWhile (· != ']') = inner := by
    rw [List.takeWhile_append_of_pos]
    · simp
    · intro x hx
      simpa using ne_of_mem_of_not_mem hx hinner
  have hflat := h _ hbracket (by simp)
  rwa [hnext] at hflat

/-! ### The pieces that a named source covers -/

theorem advances_furtherPart (first : Char → Bool) : (furtherPart first).Advances :=
  Pattern.advances_of_consumes rfl

theorem advances_querySource : querySource.Advances := Rule.advances_of_consumes (by decide)

theorem advances_usingGroup : usingGroup.Advances := Rule.advances_of_consumes (by decide)

section Avoidance

variable {text : List Char}

theorem avoids_word {x : Char} {letters : String}
    (h : letters.toList.any (sameLetter · x) = false) : (Pattern.word letters).Avoids x text := by
  apply Pattern.Avoids.all
  intro p hp
  obtain ⟨y, hy, rfl⟩ := List.mem_map.mp hp
  exact .one (Bool.eq_false_iff.mpr (List.any_eq_false.mp h y hy))

theorem avoids_identifier (hquote : '"' ∉ text) (hflat : BracketsFlat text) :
    identifier.Avoids '(' text := by
  apply Pattern.Avoids.alt
  · intro w hw htext hmem
    obtain ⟨inner, rfl, -, hinner⟩ := Pattern.exists_of_spells_delimited hw
    obtain ⟨front, behind, htext⟩ := htext
    have hbracket : '[' :: (inner ++ ']' :: behind) <:+ text := ⟨front, by simp [← htext]⟩
    have hparen : '(' ∈ inner := by simpa using hmem
    exact (hflat.notMem hbracket hinner).1 hparen
  · apply Pattern.Avoids.alt
    · intro w hw htext
      obtain ⟨inner, rfl, -⟩ := Pattern.exists_of_spells_delimited hw
      exact (hquote (htext.subset List.mem_cons_self)).elim
    · exact .seq (.one (by decide)) (.run (by decide))

theorem avoids_path (hquote : '"' ∉ text) (hflat : BracketsFlat text) : path.Avoids '(' text := by
  have hidentifier := avoids_identifier hquote hflat
  have hblanks : blanks.Avoids '(' text := .run (by decide)
  exact .seq hidentifier
    (.many (.seq hblanks (.seq (.one (by decide)) (.seq hblanks hidentifier))))

theorem avoids_sourceLead : querySource.lead.Avoids '(' text := by
  have hedge : Pattern.wordEdge.Avoids '(' text := by
    apply Pattern.Avoids.of_spells_nil
    rintro w ⟨⟩
    rfl
  have hword : (Pattern.alt (.word "FROM") (.word "JOIN")).Avoids '(' text :=
    .alt (avoids_word (by decide)) (avoids_word (by decide))
  exact .seq (.seq hedge hword) (.seq (.one (by decide)) (.run (by decide)))

theorem spells_notCalled {w : List Char} (h : notCalled.Spells w) : w = [] := by
  obtain ⟨_, _, rfl, hfirst, hsecond⟩ := Pattern.spells_seq_iff.mp h
  cases hfirst
  cases hsecond
  rfl

/-- No match of a named source covers an opening parenthesis. -/
theorem paren_notMem_of_hit? (hquote : '"' ∉ text) (hflat : BracketsFlat text) {c : Cursor}
    {h : Hit} {piece : List Char} (hc : c.text = text) (hhit : querySource.hit? c = some h)
    (hreads : c.Reads piece h.stop) : '(' ∉ piece := by
  obtain ⟨lead, trail, hlead, hbody, htrail, hreadsLead, hreadsBody, hreadsTrail⟩ :=
    Rule.exists_parts_of_hit? hhit
  obtain rfl := spells_notCalled htrail
  have hpiece : piece = lead ++ h.body := by
    have hwhole := (hreadsLead.trans hreadsBody).trans hreadsTrail
    rw [← hreads.upTo_eq, hwhole.upTo_eq, List.append_nil]
  have hpart : lead ++ h.body <:+: text := by
    rw [← hpiece, ← hc]
    exact hreads.infix_rest.trans (List.suffix_append _ _).isInfix
  rw [hpiece]
  exact (avoids_sourceLead.seq (avoids_path hquote hflat)) _ (.seq hlead hbody) hpart

end Avoidance

/-- A text of which `inner` stands in parentheses that may be left open. -/
structure Group (text before inner after : List Char) : Prop where
  text_eq : text = before ++ (inner ++ after)
  opening : before.getLast? = some '('
  closing : ∀ x ∈ after.head?, x = ')'

/-! ### Named sources in a group -/

namespace Group

variable {text before inner after : List Char}

theorem rejects (h : Group text before inner after) {accepts : Char → Bool}
    (haccepts : accepts ')' = false) : ∀ x ∈ after.head?, accepts x = false := by
  intro x hx
  rw [h.closing x hx]
  exact haccepts

theorem framed_word (h : Group text before inner after) {letters : String}
    (hletters : letters.toList.any (sameLetter · ')') = false) :
    (Pattern.word letters).Framed before inner after := by
  apply Pattern.Framed.all
  intro p hp
  obtain ⟨x, hx, rfl⟩ := List.mem_map.mp hp
  exact .one (h.rejects (Bool.eq_false_iff.mpr (List.any_eq_false.mp hletters x hx)))

theorem framed_sourceWord (h : Group text before inner after) :
    sourceWord.Framed before inner after := by
  have hopening : ∀ x ∈ before.getLast?, isWord x = false := by
    intro x hx
    obtain rfl : x = '(' := by simpa [h.opening] using hx.symm
    decide
  apply Pattern.Framed.seq
  · exact .wordEdge hopening (h.rejects (by decide))
  · exact .alt (h.framed_word (by decide)) (h.framed_word (by decide))

theorem framed_identifier (h : Group text before inner after) (hquote : '"' ∉ text)
    (hflat : BracketsFlat text) : identifier.Framed before inner after := by
  apply Pattern.Framed.any
  intro p hp
  simp only [List.mem_cons, List.not_mem_nil, or_false] at hp
  rcases hp with rfl | rfl | rfl
  · apply Pattern.Framed.delimited
    · intro x hx
      rw [h.closing x hx]
      decide
    · intro rest hrest hclosing hmem
      -- The first closing bracket behind the group would enclose the parenthesis that closes it.
      obtain ⟨between, behind, rfl, hbetween⟩ := List.eq_append_cons_of_mem hmem
      have hparen : ')' ∈ between := by
        cases between with
        | nil => exact absurd (h.closing ']' rfl) (by decide)
        | cons x between =>
            rw [h.closing x rfl]
            exact List.mem_cons_self
      have hbracket : '[' :: ((rest ++ between) ++ ']' :: behind) <:+ text := by
        obtain ⟨front, rfl⟩ := hrest
        exact ⟨before ++ front, by simp [h.text_eq]⟩
      have hnone := (hflat.notMem hbracket (by simp [hclosing, hbetween])).2
      exact hnone (List.mem_append_right _ hparen)
  · apply Pattern.Framed.delimited
    · intro x hx
      rw [h.closing x hx]
      decide
    · intro rest hrest
      have hmem : '"' ∈ inner := hrest.subset List.mem_cons_self
      exact (hquote (by simp [h.text_eq, hmem])).elim
  · exact .seq (.one (h.rejects (by decide))) (.run (h.rejects (by decide)))

theorem framed_blanks (h : Group text before inner after) : blanks.Framed before inner after :=
  .run (h.rejects (by decide))

theorem framed_path (h : Group text before inner after) (hquote : '"' ∉ text)
    (hflat : BracketsFlat text) : path.Framed before inner after := by
  have hidentifier := h.framed_identifier hquote hflat
  have hfurther : (furtherPart isFirstChar).Framed before inner after :=
    .seq h.framed_blanks (.seq (.one (h.rejects (by decide))) (.seq h.framed_blanks hidentifier))
  exact .seq hidentifier (.many hfurther (advances_furtherPart _))

theorem framed_querySource (h : Group text before inner after) (hquote : '"' ∉ text)
    (hflat : BracketsFlat text) : querySource.Framed before inner after where
  lead := .seq h.framed_sourceWord (.run1 (h.rejects (by decide)))
  body := h.framed_path hquote hflat
  trail := .seq (.notBefore (.one (h.rejects (by decide))))
    (.notBefore (.seq h.framed_blanks (.one (h.rejects (by decide)))))

/-- What is found in the whole text is what is found in the group, moved along, between what starts
before the group and what starts behind it. -/
theorem exists_findAll_eq (h : Group text before inner after) (hquote : '"' ∉ text)
    (hflat : BracketsFlat text) :
    ∃ earlier later, querySource.findAll (.start text) =
        earlier ++ ((querySource.findAll (.start inner)).map (Hit.within before after) ++ later) ∧
      (∀ hit ∈ earlier, hit.start.offset < before.length) ∧
      ∀ hit ∈ later, before.length + inner.length ≤ hit.start.offset := by
  obtain ⟨front, rfl⟩ := List.getLast?_eq_some_iff.mp h.opening
  have htext : text = front ++ '(' :: (inner ++ after) := by simp [h.text_eq]
  have hstart : Cursor.text ⟨[], front ++ '(' :: (inner ++ after)⟩ = text := htext.symm
  obtain ⟨earlier, hall, hearlier⟩ := advances_querySource.findAll_split
    (fun c hit piece => paren_notMem_of_hit? hquote hflat) hstart
  have hinside := (h.framed_querySource hquote hflat).findAll_within advances_querySource
    (Cursor.text_start inner)
  have hplace : (⟨'(' :: (front.reverse ++ []), inner ++ after⟩ : Cursor) =
      (Cursor.start inner).within (front ++ ['(']) after := by
    simp [Cursor.within, Cursor.start]
  rw [← htext, hplace, hinside] at hall
  refine ⟨earlier, _, hall, ?_, ?_⟩
  · intro hit hhit
    have hle := hearlier hit hhit
    simp only [List.length_nil, List.length_append, List.length_singleton] at hle ⊢
    omega
  · intro hit hhit
    have hle := Rule.le_offset_of_mem_findAll hhit
    simp only [Cursor.offset, Cursor.within, List.length_append, List.length_reverse] at hle ⊢
    omega

end Group

theorem body_within {before after text : List Char} {hit : Hit}
    (h : hit ∈ querySource.findAll (.start text)) :
    (hit.within before after).body = hit.body := by
  obtain ⟨-, hhit⟩ := Rule.exists_reads_of_mem_findAll h
  obtain ⟨_, _, -, -, -, -, hbody, -⟩ := Rule.exists_parts_of_hit? hhit
  exact Cursor.upTo_within before after hit.left hit.right hbody

/-! ### The spans after `USING` -/

theorem exists_of_closingOffset? {depth : Int} {rest : List Char} {n : Nat}
    (h : closingOffset? depth rest = some n) :
    ∃ inner behind, rest = inner ++ ')' :: behind ∧ inner.length = n := by
  fun_induction closingOffset? depth rest generalizing n with
  | case1 => simp at h
  | case2 depth rest ih =>
      obtain ⟨m, hm, rfl⟩ := Option.map_eq_some_iff.mp h
      obtain ⟨inner, behind, rfl, rfl⟩ := ih hm
      exact ⟨'(' :: inner, behind, rfl, rfl⟩
  | case3 rest =>
      obtain rfl : 0 = n := by simpa using h
      exact ⟨[], rest, rfl, rfl⟩
  | case4 depth rest hdepth ih =>
      obtain ⟨m, hm, rfl⟩ := Option.map_eq_some_iff.mp h
      obtain ⟨inner, behind, rfl, rfl⟩ := ih hm
      exact ⟨')' :: inner, behind, rfl, rfl⟩
  | case5 depth x rest hopening hclosing ih =>
      obtain ⟨m, hm, rfl⟩ := Option.map_eq_some_iff.mp h
      obtain ⟨inner, behind, rfl, rfl⟩ := ih hm
      exact ⟨x :: inner, behind, rfl, rfl⟩

/-- A match of `USING` with its parenthesis ends right behind the parenthesis. -/
theorem exists_before_of_mem_usingGroup {clean : List Char} {hit : Hit}
    (h : hit ∈ usingGroup.findAll (.start clean)) :
    ∃ before, clean = before ++ hit.stop.rest ∧ before.getLast? = some '(' ∧
      hit.stop.offset = before.length := by
  obtain ⟨⟨piece, hreads⟩, hhit⟩ := Rule.exists_reads_of_mem_findAll h
  obtain ⟨lead, trail, -, hbody, htrail, hreadsLead, hreadsBody, hreadsTrail⟩ :=
    Rule.exists_parts_of_hit? hhit
  cases htrail
  obtain ⟨word, w, hword, -, hw⟩ := Pattern.spells_seq_iff.mp hbody
  obtain ⟨gap, paren, rfl, -, hparen⟩ := Pattern.spells_seq_iff.mp hw
  obtain ⟨x, rfl, hx⟩ := Pattern.spells_one_iff.mp hparen
  obtain rfl : x = '(' := eq_of_beq hx
  have hwhole := hreads.trans ((hreadsLead.trans hreadsBody).trans hreadsTrail)
  refine ⟨_, hwhole.rest, ?_, ?_⟩
  · rw [hword, List.append_nil]
    simp only [← List.append_assoc]
    exact List.getLast?_concat
  · rw [hwhole.offset_eq, Cursor.offset_start, Nat.zero_add]

theorem Span.clamp_of_le {size n : Nat} (h : n ≤ size) : Span.clamp size n = n := by
  have hnonneg : ¬ (n : Int) < 0 := by omega
  rw [Span.clamp, if_neg hnonneg, Int.toNat_natCast]
  exact Nat.min_eq_right h

theorem Span.slice_eq (before inner after : List Char) :
    (⟨before.length, before.length + inner.length⟩ : Span).slice (before ++ (inner ++ after)) =
      inner := by
  have hfirst : before.length ≤ (before ++ (inner ++ after)).length := by simp
  have hlast : before.length + inner.length ≤ (before ++ (inner ++ after)).length := by
    simp only [List.length_append]
    omega
  simp only [Span.slice, ← Int.natCast_add, clamp_of_le hfirst, clamp_of_le hlast]
  rw [List.drop_left, Nat.add_sub_cancel_left, List.take_left]

theorem exists_group_of_mem_usingSpans {clean : List Char} {span : Span}
    (h : span ∈ usingSpans clean) :
    ∃ before inner after, Group clean before inner after ∧
      span = ⟨before.length, before.length + inner.length⟩ := by
  obtain ⟨hit, hhit, rfl⟩ := List.mem_map.mp h
  obtain ⟨before, hclean, hopening, hoffset⟩ := exists_before_of_mem_usingGroup hhit
  cases hclosing : closingOffset? 1 hit.stop.rest with
  | none =>
      refine ⟨before, hit.stop.rest, [], ⟨by simpa using hclean, hopening, by simp⟩, ?_⟩
      have hlength : clean.length = before.length + hit.stop.rest.length := by
        rw [hclean, List.length_append]
      simp only [hoffset, hlength, Int.natCast_add]
  | some n =>
      obtain ⟨inner, behind, hrest, rfl⟩ := exists_of_closingOffset? hclosing
      refine ⟨before, inner, ')' :: behind, ⟨hrest ▸ hclean, hopening, by simp⟩, ?_⟩
      simp only [hoffset]

/-! ### Both searches together -/

theorem mem_querySources_iff {ctx : Context} {e : Reference} :
    e ∈ Search.querySources.references ctx ↔
      ∃ hit ∈ querySource.findAll (.start ctx.clean),
        inSpans ctx.spans hit.start.offset = false ∧ ctx.tableCandidate? hit.body = some e := by
  simp only [Search.references, List.mem_filterMap, Option.ite_none_left_eq_some,
    Bool.not_eq_true]

theorem mem_mergeSubquerySources_iff {ctx : Context} {e : Reference} :
    e ∈ Search.mergeSubquerySources.references ctx ↔
      ∃ span ∈ ctx.spans, ∃ hit ∈ querySource.findAll (.start (span.slice ctx.clean)),
        ctx.tableCandidate? hit.body = some e := by
  simp only [Search.references, Search.tables, List.mem_flatMap, List.mem_filterMap]

/-- The names that a search over the slice of a span finds are those that the search over the whole
text finds from a place inside the span on. -/
theorem exists_hit_in_span_iff {clean : List Char} (hquote : '"' ∉ clean)
    (hflat : BracketsFlat clean) {span : Span} (hspan : span ∈ usingSpans clean)
    (name : List Char) :
    (∃ hit ∈ querySource.findAll (.start clean),
        span.contains hit.start.offset = true ∧ hit.body = name) ↔
      ∃ hit ∈ querySource.findAll (.start (span.slice clean)), hit.body = name := by
  obtain ⟨before, inner, after, hgroup, rfl⟩ := exists_group_of_mem_usingSpans hspan
  obtain ⟨earlier, later, hall, hearlier, hlater⟩ := hgroup.exists_findAll_eq hquote hflat
  have hslice : (⟨before.length, before.length + inner.length⟩ : Span).slice clean = inner := by
    rw [hgroup.text_eq, Span.slice_eq]
  rw [hslice, hall]
  constructor
  · rintro ⟨hit, hhit, hcontains, rfl⟩
    have hbounds : before.length ≤ hit.start.offset ∧
        hit.start.offset < before.length + inner.length := by
      simp only [Span.contains, Bool.and_eq_true, decide_eq_true_eq] at hcontains
      omega
    rcases List.mem_append.mp hhit with hhit | hhit
    · have hlt := hearlier hit hhit
      omega
    · rcases List.mem_append.mp hhit with hhit | hhit
      · obtain ⟨original, horiginal, rfl⟩ := List.mem_map.mp hhit
        exact ⟨original, horiginal, (body_within horiginal).symm⟩
      · have hle := hlater hit hhit
        omega
  · rintro ⟨hit, hhit, rfl⟩
    refine ⟨hit.within before after, ?_, ?_, body_within hhit⟩
    · exact List.mem_append_right _ (List.mem_append_left _ (List.mem_map_of_mem hhit))
    · have hlt := advances_querySource.offset_lt_of_mem_findAll hhit
      simp only [Span.contains, Hit.within, Cursor.offset_within, Bool.and_eq_true,
        decide_eq_true_eq]
      omega

/-- What the searches for named sources outside and inside the spans after `USING` find together is
what the search finds that knows of no spans. -/
theorem mem_sources_iff_without_spans {clean : List Char} (hquote : '"' ∉ clean)
    (hflat : BracketsFlat clean) (definition : DbObject) (noise tableFunctions : List String)
    (e : Reference) :
    let ctx : Context := ⟨clean, definition, noise, usingSpans clean, tableFunctions⟩
    e ∈ Search.querySources.references ctx ++ Search.mergeSubquerySources.references ctx ↔
      e ∈ Search.querySources.references { ctx with spans := [] } := by
  intro ctx
  rw [List.mem_append, mem_querySources_iff, mem_querySources_iff, mem_mergeSubquerySources_iff]
  constructor
  · rintro (⟨hit, hhit, -, hcandidate⟩ | ⟨span, hspan, hit, hhit, hcandidate⟩)
    · exact ⟨hit, hhit, rfl, hcandidate⟩
    · obtain ⟨whole, hwhole, -, hbody⟩ :=
        (exists_hit_in_span_iff hquote hflat hspan hit.body).mpr ⟨hit, hhit, rfl⟩
      exact ⟨whole, hwhole, rfl, hbody ▸ hcandidate⟩
  · rintro ⟨hit, hhit, -, hcandidate⟩
    cases hinside : inSpans (usingSpans clean) hit.start.offset with
    | false => exact .inl ⟨hit, hhit, hinside, hcandidate⟩
    | true =>
        obtain ⟨span, hspan, hcontains⟩ := List.any_eq_true.mp hinside
        obtain ⟨inner, hinner, hbody⟩ :=
          (exists_hit_in_span_iff hquote hflat hspan hit.body).mp ⟨hit, hhit, hcontains, rfl⟩
        exact .inr ⟨span, hspan, inner, hinner, hbody ▸ hcandidate⟩

/-- One source inside the parentheses after `USING`, in brackets, and one behind them. -/
theorem mem_sources_iff_without_spans_merge :
    let clean := "MERGE t USING (SELECT a FROM [s 1] WHERE b IN (1)) x JOIN dbo.u".toList
    let p : DbObject := ⟨"p", .storedProcedure, by decide⟩
    let ctx : Context := ⟨clean, p, ["x"], usingSpans clean, []⟩
    let inside : Reference := ⟨p, "[s 1]", .table, by decide⟩
    let behind : Reference := ⟨p, "dbo.u", .table, by decide⟩
    '"' ∉ clean ∧ BracketsFlat clean ∧
      Search.querySources.references ctx = [behind] ∧
      Search.mergeSubquerySources.references ctx = [inside] ∧
      ∀ e ∈ [inside, behind], e ∈ Search.querySources.references { ctx with spans := [] } := by
  intro clean p ctx inside behind
  have hquote : '"' ∉ clean := by decide +kernel
  have hflat : BracketsFlat clean := by decide +kernel
  have houter : Search.querySources.references ctx = [behind] := by decide +kernel
  have hinner : Search.mergeSubquerySources.references ctx = [inside] := by decide +kernel
  refine ⟨hquote, hflat, houter, hinner, ?_⟩
  intro e he
  apply (mem_sources_iff_without_spans hquote hflat p ["x"] [] e).mp
  change e ∈ Search.querySources.references ctx ++ Search.mergeSubquerySources.references ctx
  rw [houter, hinner]
  simpa [or_comm] using he

end ScriptGraph.Script
