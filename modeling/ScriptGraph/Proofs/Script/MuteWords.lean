import ScriptGraph.Proofs.Script.OpenRules
import ScriptGraph.Proofs.Script.Outcomes

/-!
# Words inside brackets

Most rules that can match inside a name in brackets need a blank there.  The others look for a word
between word edges, so in a single word they match only if it is that word.
-/

namespace ScriptGraph.Script

open Text Name Pattern

/-- Every piece that the pattern spells has a blank. -/
def NeedsBlank (p : Pattern) : Prop := ∀ w, p.Spells w → ∃ x ∈ w, isBlank x = true

theorem needsBlank_gap : NeedsBlank gap := by
  intro w hw
  obtain ⟨_, _, rfl, hfirst, -⟩ := Pattern.spells_seq_iff.mp hw
  obtain ⟨x, rfl, hx⟩ := Pattern.spells_one_iff.mp hfirst
  exact ⟨x, by simp, hx⟩

theorem NeedsBlank.seq_left {p : Pattern} (h : NeedsBlank p) (q : Pattern) :
    NeedsBlank (.seq p q) := by
  intro w hw
  obtain ⟨u, v, rfl, hu, -⟩ := Pattern.spells_seq_iff.mp hw
  obtain ⟨x, hx, hblank⟩ := h u hu
  exact ⟨x, List.mem_append_left v hx, hblank⟩

theorem NeedsBlank.seq_right {q : Pattern} (p : Pattern) (h : NeedsBlank q) :
    NeedsBlank (.seq p q) := by
  intro w hw
  obtain ⟨u, v, rfl, -, hv⟩ := Pattern.spells_seq_iff.mp hw
  obtain ⟨x, hx, hblank⟩ := h v hv
  exact ⟨x, List.mem_append_right u hx, hblank⟩

theorem find?_eq_none_of_blank {r : Rule} {text : List Char} (hlead : NeedsBlank r.lead)
    (htext : ∀ x ∈ text, isBlank x = false) : r.find? (.start text) = none := by
  rw [Rule.find?_start_eq_none_iff]
  intro c hc
  cases hhit : r.hit? c with
  | none => rfl
  | some hit =>
      obtain ⟨lead, -, hspells, -, -, hreads, -⟩ := Rule.exists_parts_of_hit? hhit
      obtain ⟨x, hx, hblank⟩ := hlead lead hspells
      have hmem : x ∈ text := by
        rw [← hc]
        exact List.mem_append_right _ (hreads.infix_rest.subset hx)
      rw [htext x hmem] at hblank
      cases hblank

theorem find?_eq_none_of_body {r : Rule} {text : List Char}
    (h : ∀ c : Cursor, c.text = text → r.body.ends c = []) : r.find? (.start text) = none := by
  rw [Rule.find?_start_eq_none_iff]
  intro c hc
  cases hhit : r.hit? c with
  | none => rfl
  | some hit =>
      obtain ⟨-, hleft, hright, -⟩ := Rule.mem_hits_iff.mp (Rule.mem_hits_of_hit? hhit)
      rw [h hit.left ((Pattern.text_of_mem_ends hleft).trans hc)] at hright
      cases hright

/-- Between two edges of a word lies the whole word. -/
theorem spells_text_of_edges {p : Pattern} (hconsumes : p.consumes = true) {c d : Cursor}
    (hd : d ∈ p.ends c) (hfirst : Pattern.isWordEdge c = true)
    (hlast : Pattern.isWordEdge d = true) (htext : ∀ x ∈ c.text, isWord x = true) :
    p.Spells c.text := by
  obtain ⟨w, hspells, hreads⟩ := Pattern.exists_spells_of_mem_ends hd
  obtain ⟨y, later, hw⟩ := List.exists_cons_of_ne_nil (hspells.ne_nil hconsumes)
  obtain ⟨back, rest⟩ := c
  obtain ⟨back', rest'⟩ := d
  obtain ⟨rfl, rfl⟩ : rest = w ++ rest' ∧ back' = w.reverse ++ back := ⟨hreads.rest, hreads.back⟩
  have hmem : ∀ x ∈ w, isWord x = true := fun x hx => htext x (by simp [Cursor.text, hx])
  have hback : back = [] := by
    cases back with
    | nil => rfl
    | cons x back =>
        have hx : isWord x = true := htext x (by simp [Cursor.text])
        have hy : isWord y = true := hmem y (by simp [hw])
        simp [Pattern.isWordEdge, hw, hx, hy] at hfirst
  have hrest : rest' = [] := by
    cases rest' with
    | nil => rfl
    | cons x rest' =>
        have hx : isWord x = true := htext x (by simp [Cursor.text])
        obtain ⟨z, front, hreverse⟩ : ∃ z front, w.reverse = z :: front :=
          List.exists_cons_of_ne_nil (by simp [hw])
        have hz : isWord z = true := hmem z (by rw [← List.mem_reverse, hreverse]; simp)
        simp [Pattern.isWordEdge, hreverse, hx, hz] at hlast
  rw [hback, hrest]
  simpa [Cursor.text] using hspells

theorem ends_edged_eq_nil {p : Pattern} (hconsumes : p.consumes = true) {c : Cursor}
    (htext : ∀ x ∈ c.text, isWord x = true) (hother : ¬ p.Spells c.text) :
    (Pattern.seq .wordEdge (.seq p .wordEdge)).ends c = [] := by
  have hedge : ∀ {c d : Cursor}, d ∈ Pattern.wordEdge.ends c →
      d = c ∧ Pattern.isWordEdge c = true := by
    intro c d hd
    rw [Pattern.ends] at hd
    split at hd
    · exact ⟨List.mem_singleton.mp hd, ‹_›⟩
    · cases hd
  rw [List.eq_nil_iff_forall_not_mem]
  intro d hd
  obtain ⟨first, hstart, hbody⟩ := List.mem_flatMap.mp hd
  obtain ⟨heq, hfirst⟩ := hedge hstart
  rw [heq] at hbody
  obtain ⟨last, hlast, hstop⟩ := List.mem_flatMap.mp hbody
  obtain ⟨-, hend⟩ := hedge hstop
  exact hother (spells_text_of_edges hconsumes hlast hfirst hend htext)

def loneWords : List String := ["FROM", "INTO", "SELECT", "USING"]

theorem ends_listBoundary_eq_nil {c : Cursor} (htext : ∀ x ∈ c.text, isWord x = true)
    (hother : ∀ letters ∈ loneWords, ¬ (Pattern.word letters).Spells c.text) :
    listBoundary.body.ends c = [] := by
  have hone : (Pattern.one fun x => x == '(' || x == ')' || x == ';').ends c = [] := by
    obtain ⟨back, rest⟩ := c
    cases rest with
    | nil => rfl
    | cons x rest =>
        have hx : isWord x = true := htext x (by simp [Cursor.text])
        have hplain : (x == '(' || x == ')' || x == ';') = false := by
          rw [Bool.eq_false_iff]
          intro hmark
          simp only [Bool.or_eq_true, beq_iff_eq] at hmark
          rcases hmark with (rfl | rfl) | rfl <;> exact absurd hx (by decide)
        simp [Pattern.ends, hplain]
  have hwords : (Pattern.all [.wordEdge, .any [.word "FROM", .word "INTO", .word "SELECT"],
      .wordEdge]).ends c = [] := by
    apply ends_edged_eq_nil (by decide) htext
    intro hany
    obtain ⟨p, hp, hword⟩ := Pattern.exists_mem_of_spells_any hany (by simp)
    simp only [List.mem_cons, List.not_mem_nil, or_false] at hp
    rcases hp with rfl | rfl | rfl <;> exact hother _ (by simp [loneWords]) hword
  rw [listBoundary, Pattern.ends, hone, hwords]
  rfl

/-- Every other word is no statement. -/
theorem mute_of_isWord {content : Content} (hchars : ∀ x ∈ content.chars, isWord x = true)
    (hother : ∀ letters ∈ loneWords, (Pattern.word letters).matchesWhole content.chars = false) :
    Mute content := by
  have hfree : ∀ letters ∈ loneWords, (Pattern.word letters).isFree = true := by decide
  have hspells : ∀ letters ∈ loneWords, ¬ (Pattern.word letters).Spells content.chars := by
    intro letters hletters hspells
    have hwhole := (Pattern.matchesWhole_iff (hfree letters hletters)).mpr hspells
    rw [hother letters hletters] at hwhole
    cases hwhole
  have hblank : ∀ x ∈ content.chars, isBlank x = false := by
    intro x hx
    rw [Bool.eq_false_iff]
    intro hblank
    have hword := hchars x hx
    rw [isWord_eq_false_of_isBlank hblank] at hword
    cases hword
  have hedged : ∀ letters ∈ loneWords, ∀ c : Cursor, c.text = content.chars →
      (Pattern.seq (.startingWord letters) .wordEdge).ends c = [] := by
    intro letters hletters c hc
    have hconsumes : ∀ letters ∈ loneWords, (Pattern.word letters).consumes = true := by decide
    have hnil := ends_edged_eq_nil (hconsumes letters hletters) (hc ▸ hchars)
      (hc ▸ hspells letters hletters)
    simpa only [Pattern.startingWord, Pattern.ends, List.flatMap_assoc] using hnil
  have hboundary : ∀ c : Cursor, c.text = content.chars → listBoundary.body.ends c = [] :=
    fun c hc => ends_listBoundary_eq_nil (hc ▸ hchars) (hc ▸ hspells)
  have hsecond : ∀ p q : Pattern, NeedsBlank (.seq p (.seq gap q)) :=
    fun p q => .seq_right p (needsBlank_gap.seq_left q)
  intro r hr
  simp only [exposedRules, List.mem_cons, List.not_mem_nil, or_false] at hr
  rcases hr with rfl | rfl | rfl | rfl | rfl | rfl | rfl | rfl | rfl
  · exact find?_eq_none_of_blank (.seq_right _ needsBlank_gap) hblank
  · exact find?_eq_none_of_blank (.seq_right _ needsBlank_gap) hblank
  · exact find?_eq_none_of_blank (.seq_right _ (hsecond _ _)) hblank
  · exact find?_eq_none_of_blank (hsecond _ _) hblank
  · exact find?_eq_none_of_blank (hsecond _ _) hblank
  · exact find?_eq_none_of_blank (hsecond _ _) hblank
  · exact find?_eq_none_of_body (hedged "USING" (by decide))
  · exact find?_eq_none_of_body (hedged "SELECT" (by decide))
  · exact find?_eq_none_of_body hboundary

end ScriptGraph.Script
