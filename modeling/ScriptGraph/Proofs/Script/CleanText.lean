import ScriptGraph.Proofs.Script.TokenBoundaries

/-!
# Nothing is left to clean

Exactly the unmarked texts pass unchanged through the passes for comments and literals, and what the
passes leave is unmarked.  A later pass takes out stretches of text and could bring the two
characters of a mark together that an earlier pass has not seen side by side.  This does not happen:
in place of a stretch there is a blank, or the end of the line follows it, or the character before
it belongs to no mark.  Texts that are thinned out in this way have no mark, no comment and no quote
that they did not have before.
-/

namespace ScriptGraph.Script

open Text Name

/-! ### Texts that are thinned out -/

def markChars : List Char := ['-', '/', '*']

/-- The first text is the second one with some stretches taken out, after a given character.  In
place of a stretch there is a blank, or there is no mark character on one of its sides. -/
inductive Thinned : Option Char → List Char → List Char → Prop
  | nil (before : Option Char) : Thinned before [] []
  | keep (before : Option Char) (x : Char) {left text : List Char}
      (h : Thinned (some x) left text) : Thinned before (x :: left) (x :: text)
  | blank (before : Option Char) {skipped left text : List Char} (hskipped : skipped ≠ [])
      (h : Thinned (some ' ') left text) : Thinned before (' ' :: left) (skipped ++ text)
  | skip {before : Option Char} (skipped : List Char) {left text : List Char}
      (hapart : (∀ x ∈ before, x ∉ markChars) ∨ ∀ x ∈ left.head?, x ∉ markChars)
      (h : Thinned before left text) : Thinned before left (skipped ++ text)

namespace Thinned

variable {before : Option Char} {left text : List Char}

theorem append {piece : List Char} (h : Thinned (piece.getLast?.or before) left text) :
    Thinned before (piece ++ left) (piece ++ text) := by
  induction piece generalizing before with
  | nil => simpa using h
  | cons x piece ih =>
      refine .keep before x (ih ?_)
      rw [List.getLast?_cons] at h
      cases hlast : piece.getLast? <;> simpa [hlast] using h

theorem refl (before : Option Char) (text : List Char) : Thinned before text text := by
  simpa using (Thinned.nil (text.getLast?.or before)).append

theorem length_le (h : Thinned before left text) : left.length ≤ text.length := by
  induction h with
  | nil => exact Nat.le_refl _
  | keep _ x _ ih => simpa using ih
  | blank _ hskipped _ ih =>
      have hpos := List.length_pos_iff.mpr hskipped
      rw [List.length_cons, List.length_append]
      omega
  | skip skipped _ _ ih =>
      rw [List.length_append]
      omega

theorem count_le (h : Thinned before left text) {x : Char} (hx : x ≠ ' ') :
    left.count x ≤ text.count x := by
  induction h with
  | nil => exact Nat.le_refl _
  | keep _ y _ ih => simpa [List.count_cons] using ih
  | blank _ _ _ ih =>
      rw [List.count_cons_of_ne (Ne.symm hx), List.count_append]
      omega
  | skip skipped _ _ ih =>
      rw [List.count_append]
      omega

/-- Behind a mark character, another one was there before. -/
theorem exists_cons_of_mark {a b : Char} (ha : a ∈ markChars) (hb : b ∈ markChars)
    (h : Thinned (some a) (b :: left) text) :
    ∃ rest, text = b :: rest ∧ Thinned (some b) left rest := by
  generalize hbefore : some a = before at h
  generalize hleft : b :: left = whole at h
  cases h with
  | nil => cases hleft
  | keep _ x hrest =>
      obtain ⟨rfl, rfl⟩ := List.cons.inj hleft
      exact ⟨_, rfl, hrest⟩
  | blank =>
      obtain ⟨rfl, -⟩ := List.cons.inj hleft
      exact absurd hb (by decide)
  | skip _ hapart =>
      subst hbefore hleft
      rcases hapart with hapart | hapart
      · exact absurd ha (hapart a rfl)
      · exact absurd hb (hapart b rfl)

/-- Two mark characters side by side stood side by side before. -/
theorem exists_append_of_pair {a b : Char} (ha : a ∈ markChars) (hb : b ∈ markChars)
    {front rest : List Char} (h : Thinned before (front ++ ([a, b] ++ rest)) text) :
    ∃ front' rest', text = front' ++ ([a, b] ++ rest') ∧ Thinned (some b) rest rest' := by
  generalize hwhole : front ++ ([a, b] ++ rest) = whole at h
  induction h generalizing front with
  | nil => simp at hwhole
  | keep _ x hlater ih =>
      cases front with
      | nil =>
          obtain ⟨rfl, rfl⟩ := List.cons.inj hwhole
          obtain ⟨rest', rfl, hrest'⟩ := exists_cons_of_mark ha hb hlater
          exact ⟨[], rest', rfl, hrest'⟩
      | cons y front =>
          obtain ⟨-, hlater⟩ := List.cons.inj hwhole
          obtain ⟨front', rest', rfl, hrest'⟩ := ih hlater
          exact ⟨x :: front', rest', rfl, hrest'⟩
  | @blank _ skipped _ _ _ _ ih =>
      cases front with
      | nil =>
          obtain ⟨rfl, -⟩ := List.cons.inj hwhole
          exact absurd ha (by decide)
      | cons y front =>
          obtain ⟨-, hlater⟩ := List.cons.inj hwhole
          obtain ⟨front', rest', rfl, hrest'⟩ := ih hlater
          exact ⟨skipped ++ front', rest', by rw [List.append_assoc], hrest'⟩
  | skip skipped _ _ ih =>
      obtain ⟨front', rest', rfl, hrest'⟩ := ih hwhole
      exact ⟨skipped ++ front', rest', by rw [List.append_assoc], hrest'⟩

theorem infix_of_pair {a b : Char} (ha : a ∈ markChars) (hb : b ∈ markChars)
    (h : Thinned before left text) (hpair : [a, b] <:+: left) : [a, b] <:+: text := by
  obtain ⟨front, rest, rfl⟩ := hpair
  rw [List.append_assoc] at h
  obtain ⟨front', rest', rfl, -⟩ := h.exists_append_of_pair ha hb
  exact ⟨front', rest', List.append_assoc ..⟩

theorem hasBlockComment (h : Thinned before left text) (hcomment : HasBlockComment left) :
    HasBlockComment text := by
  obtain ⟨front, rest, rfl, hend⟩ := hcomment
  obtain ⟨front', rest', rfl, hrest⟩ := h.exists_append_of_pair (by decide) (by decide)
  exact ⟨front', rest', rfl, hrest.infix_of_pair (by decide) (by decide) hend⟩

theorem unmarked (h : Thinned before left text) (htext : Unmarked text) : Unmarked left where
  block := fun hcomment => htext.block (h.hasBlockComment hcomment)
  line := fun hline => htext.line (h.infix_of_pair (by decide) (by decide) hline)
  quote := (h.count_le (by decide)).trans htext.quote

end Thinned

/-! ### Every pass thins its text out -/

theorem thinned_dropBlockComments (before : Option Char) (text : List Char) :
    Thinned before (dropBlockComments text) text := by
  fun_induction dropBlockComments text generalizing before with
  | case1 => exact .nil before
  | case2 inner rest hinner ih =>
      obtain ⟨skipped, rfl⟩ := exists_of_afterBlockEnd? hinner
      have hblank := Thinned.blank before
        (List.cons_ne_nil '/' ('*' :: (skipped ++ ['/']))) (ih (some ' '))
      simpa using hblank
  | case3 inner _ ih => exact .keep before _ (ih _)
  | case4 x rest _ ih => exact .keep before x (ih _)

theorem head?_dropLineComments_newline (rest : List Char) :
    ∀ x ∈ (dropLineComments (rest.dropWhile (· != '\n'))).head?, x = '\n' := by
  intro x hx
  cases hrest : rest.dropWhile (· != '\n') with
  | nil => simp [hrest, dropLineComments] at hx
  | cons y later =>
      have hstop := List.head?_dropWhile_not (· != '\n') rest
      obtain rfl : y = '\n' := by simpa [hrest] using hstop
      rw [hrest, dropLineComments.eq_3 _ _ (fun _ h _ => by simp at h)] at hx
      simpa using hx.symm

theorem thinned_dropLineComments (before : Option Char) (text : List Char) :
    Thinned before (dropLineComments text) text := by
  fun_induction dropLineComments text generalizing before with
  | case1 => exact .nil before
  | case2 rest ih =>
      have hapart : ∀ x ∈ (dropLineComments (rest.dropWhile (· != '\n'))).head?,
          x ∉ markChars := by
        intro x hx
        rw [head?_dropLineComments_newline rest x hx]
        decide
      have hskip := Thinned.skip ('-' :: '-' :: rest.takeWhile (· != '\n')) (.inr hapart)
        (ih before)
      rwa [List.cons_append, List.cons_append, List.takeWhile_append_dropWhile] at hskip
  | case3 x rest _ ih => exact .keep before x (ih _)

theorem thinned_dropLiterals (before : Option Char) (text : List Char) :
    Thinned before (dropLiterals text) text := by
  fun_induction dropLiterals text generalizing before with
  | case1 => exact .nil before
  | case2 inner rest hinner ih =>
      obtain ⟨skipped, rfl⟩ := exists_of_afterLiteral? hinner
      have hblank := Thinned.blank before
        (List.cons_ne_nil '\'' (skipped ++ ['\''])) (ih (some ' '))
      simpa using hblank
  | case3 inner _ ih => exact .keep before _ (ih _)
  | case4 x rest _ ih => exact .keep before x (ih _)

/-- The list that a rule takes out stands behind the body, which ends with no mark character. -/
theorem thinned_reduceFrom {r : Rule} (hlead : ∀ piece, r.lead.Spells piece → piece = [])
    (hconsumes : r.body.consumes = true) (hends : r.body.endsOutside markChars = true)
    (before : Option Char) (left : List Char) (c : Cursor) :
    Thinned before (r.reduceFrom left c) c.rest := by
  fun_induction Rule.reduceFrom r left c generalizing before with
  | case1 c => exact .refl before c.rest
  | case2 _ left c hit hhit ih =>
      obtain ⟨lead, trail, hspellsLead, hspellsBody, -, hreadsLead, hreadsBody, hreadsTrail⟩ :=
        Rule.exists_parts_of_hit? hhit
      obtain rfl := hlead lead hspellsLead
      have hlast : ∀ x ∈ hit.body.getLast?.or before, x ∉ markChars := by
        rw [Option.or_of_isSome (by simpa using hspellsBody.ne_nil hconsumes)]
        exact hspellsBody.last_notMem hends
      have hrest : c.rest = hit.body ++ (trail ++ hit.stop.rest) := by
        rw [hreadsLead.rest, hreadsBody.rest, hreadsTrail.rest, List.nil_append]
      rw [hrest]
      exact (Thinned.skip trail (.inl hlast) (ih _)).append
  | case3 _ left c hrest _ =>
      rw [hrest]
      exact .nil before
  | case4 _ left c x rest hrest _ ih =>
      rw [hrest]
      exact .keep before x (ih _)

theorem thinned_reduce_of_mem_listRules {r : Rule} (h : r ∈ listRules) (text : List Char) :
    Thinned none (r.reduce text) text := by
  have hbodies : ∀ r ∈ listRules,
      r.body.consumes = true ∧ r.body.endsOutside markChars = true := by
    simp only [listRules, List.forall_mem_cons, List.not_mem_nil, false_implies, implies_true]
    decide +kernel
  obtain ⟨hconsumes, hends⟩ := hbodies r h
  exact thinned_reduceFrom (cutsBetweenTokens_of_mem_listRules h).lead hconsumes hends none text
    (.start text)

/-! ### What the passes leave -/

theorem not_hasBlockComment_dropBlockComments (text : List Char) :
    ¬ HasBlockComment (dropBlockComments text) := by
  fun_induction dropBlockComments text with
  | case1 =>
      rintro ⟨front, rest, heq, -⟩
      simp [blockStart] at heq
  | case2 inner rest _ ih =>
      rw [hasBlockComment_cons_iff]
      rintro (⟨_, hslash, -⟩ | hlater)
      · exact absurd hslash (by decide)
      · exact ih hlater
  | case3 inner hinner ih =>
      rw [hasBlockComment_cons_iff]
      rintro (⟨rest, -, hrest, hend⟩ | hlater)
      · -- An end mark would have closed the comment.
        rw [dropBlockComments.eq_3 _ _ (fun _ h _ => by simp at h)] at hrest
        obtain ⟨-, rfl⟩ := List.cons.inj hrest
        have hclosed : blockEnd <:+: inner :=
          (thinned_dropBlockComments none inner).infix_of_pair (by decide) (by decide) hend
        rw [← isSome_afterBlockEnd?_iff, hinner] at hclosed
        exact absurd hclosed (by decide)
      · exact ih hlater
  | case4 x inner hother ih =>
      rw [hasBlockComment_cons_iff]
      rintro (⟨rest, rfl, hrest, -⟩ | hlater)
      · obtain ⟨later, rfl⟩ := exists_of_dropBlockComments_star hrest
        exact hother later rfl rfl
      · exact ih hlater

/-- The pass leaves a hyphen in front only where one was. -/
theorem exists_of_dropLineComments_hyphen {text rest : List Char}
    (h : dropLineComments text = '-' :: rest) : ∃ later, text = '-' :: later := by
  fun_cases dropLineComments text with
  | case1 => simp [dropLineComments] at h
  | case2 inner => exact ⟨_, rfl⟩
  | case3 x inner hother =>
      rw [dropLineComments.eq_3 _ _ hother] at h
      obtain ⟨rfl, -⟩ := List.cons.inj h
      exact ⟨inner, rfl⟩

theorem not_lineStart_infix_dropLineComments (text : List Char) :
    ¬ lineStart <:+: dropLineComments text := by
  fun_induction dropLineComments text with
  | case1 => simp [lineStart]
  | case2 rest ih => exact ih
  | case3 x inner hother ih =>
      rw [List.infix_cons_iff]
      rintro (⟨rest, heq⟩ | hlater)
      · obtain ⟨rfl, hrest⟩ : '-' = x ∧ '-' :: rest = dropLineComments inner := by
          simpa [lineStart] using heq
        obtain ⟨later, rfl⟩ := exists_of_dropLineComments_hyphen hrest.symm
        exact hother later rfl rfl
      · exact ih hlater

theorem count_quote_dropLiterals_le (text : List Char) : (dropLiterals text).count '\'' ≤ 1 := by
  fun_induction dropLiterals text with
  | case1 => simp
  | case2 inner rest _ ih => simpa using ih
  | case3 inner hinner ih =>
      have hnone : inner.count '\'' = 0 :=
        List.count_eq_zero.mpr (afterLiteral?_eq_none_iff.mp hinner)
      rw [dropLiterals_eq_self (by omega), List.count_cons_self, hnone]
  | case4 x rest hquote ih => rwa [List.count_cons_of_ne hquote]

theorem unmarked_dropCommentsAndLiterals (text : List Char) :
    Unmarked (dropCommentsAndLiterals text) where
  block := fun hcomment =>
    not_hasBlockComment_dropBlockComments text
      ((thinned_dropLineComments none _).hasBlockComment
        ((thinned_dropLiterals none _).hasBlockComment hcomment))
  line := fun hline =>
    not_lineStart_infix_dropLineComments (dropBlockComments text)
      ((thinned_dropLiterals none _).infix_of_pair (by decide) (by decide) hline)
  quote := count_quote_dropLiterals_le _

theorem length_dropCommentsAndLiterals_le (text : List Char) :
    (dropCommentsAndLiterals text).length ≤ text.length := by
  have hblocks := (thinned_dropBlockComments none text).length_le
  have hlines := (thinned_dropLineComments none (dropBlockComments text)).length_le
  have hliterals :=
    (thinned_dropLiterals none (dropLineComments (dropBlockComments text))).length_le
  exact (hliterals.trans hlines).trans hblocks

theorem dropCommentsAndLiterals_eq_self_iff {text : List Char} :
    dropCommentsAndLiterals text = text ↔ Unmarked text :=
  ⟨fun h => h ▸ unmarked_dropCommentsAndLiterals text, Unmarked.dropCommentsAndLiterals_eq_self⟩

theorem foldl_reduce_of_listRules {rules : List Rule} (hrules : rules ⊆ listRules)
    (text : List Char) :
    (rules.foldl (fun text r => r.reduce text) text).length ≤ text.length ∧
      (Unmarked text → Unmarked (rules.foldl (fun text r => r.reduce text) text)) := by
  induction rules generalizing text with
  | nil => exact ⟨Nat.le_refl _, id⟩
  | cons r rules ih =>
      have hfirst := thinned_reduce_of_mem_listRules (hrules List.mem_cons_self) text
      obtain ⟨hlength, hunmarked⟩ := ih (List.subset_of_cons_subset hrules) (r.reduce text)
      exact ⟨hlength.trans hfirst.length_le, fun h => hunmarked (hfirst.unmarked h)⟩

/-- A cleaned text is no longer than the text, and it is unmarked: it has no line comment, no closed
block comment and one quote at most.  The unmarked texts are those from which the passes for
comments and literals take out nothing, so these passes do nothing to a cleaned text, nor to a text
that has been through them before. -/
theorem unmarked_clean (text : List Char) :
    (clean text).length ≤ text.length ∧ Unmarked (clean text) ∧
      (∀ other, dropCommentsAndLiterals other = other ↔ Unmarked other) ∧
      dropCommentsAndLiterals (clean text) = clean text ∧
      dropCommentsAndLiterals (dropCommentsAndLiterals text) = dropCommentsAndLiterals text := by
  have hpasses := unmarked_dropCommentsAndLiterals text
  obtain ⟨hlength, hlists⟩ :=
    foldl_reduce_of_listRules (List.Subset.refl _) (dropCommentsAndLiterals text)
  rw [← clean_eq_foldl] at hlength hlists
  exact ⟨hlength.trans (length_dropCommentsAndLiterals_le text), hlists hpasses,
    fun _ => dropCommentsAndLiterals_eq_self_iff, (hlists hpasses).dropCommentsAndLiterals_eq_self,
    hpasses.dropCommentsAndLiterals_eq_self⟩

end ScriptGraph.Script
