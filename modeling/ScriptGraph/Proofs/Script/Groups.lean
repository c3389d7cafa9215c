import Mathlib.Order.Bounds.Basic
import ScriptGraph.Proofs.Script.Balance
import ScriptGraph.Proofs.Script.Subqueries

/-!
# Groups in parentheses

The parenthesis that closes a group is found by counting from the one that opens it.  The count is
positive inside the group and comes to zero behind it for the first time.  Of two groups the one
that opens later either opens behind the end of the other or ends inside it, since the count of the
later one lies below that of the earlier one.  This holds of groups that are never closed as well.
-/

namespace ScriptGraph.Script

open Text Name

/-! ### Counting -/

/-- By how much the depth of parentheses grows in a piece of text. -/
def rise (piece : List Char) : Int := piece.count '(' - piece.count ')'

theorem rise_append (a b : List Char) : rise (a ++ b) = rise a + rise b := by
  simp only [rise, List.count_append]
  omega

theorem rise_cons (x : Char) (rest : List Char) : rise (x :: rest) = rise [x] + rise rest :=
  rise_append [x] rest

theorem rise_singleton_of_ne {x : Char} (hopening : x ≠ '(') (hclosing : x ≠ ')') :
    rise [x] = 0 := by
  simp [rise, List.count_cons_of_ne hopening, List.count_cons_of_ne hclosing]

theorem neg_one_le_rise (x : Char) : -1 ≤ rise [x] := by
  have hcount : [x].count ')' ≤ 1 := List.count_le_length
  simp only [rise]
  omega

theorem eq_closing_of_rise {x : Char} (h : rise [x] = -1) : x = ')' := by
  by_contra hne
  have hcount : [x].count ')' = 0 := by simp [List.count_cons_of_ne hne]
  simp only [rise] at h
  omega

theorem closingOffset?_cons {depth : Int} (hdepth : 0 < depth) (x : Char) (rest : List Char) :
    closingOffset? depth (x :: rest) =
      if depth + rise [x] = 0 then some 0
      else (closingOffset? (depth + rise [x]) rest).map (· + 1) := by
  by_cases hopening : x = '('
  · subst hopening
    have hrise : rise ['('] = 1 := by decide
    rw [closingOffset?, hrise, if_neg (by omega)]
  · by_cases hclosing : x = ')'
    · subst hclosing
      have hrise : rise [')'] = -1 := by decide
      have hzero : depth + -1 = 0 ↔ depth = 1 := by omega
      simp only [closingOffset?, hrise, hzero, Int.sub_eq_add_neg]
    · rw [closingOffset?.eq_4 _ _ _ hopening hclosing, rise_singleton_of_ne hopening hclosing,
        Int.add_zero, if_neg (by omega)]

/-- Where the count does not come to zero the depth stays positive. -/
theorem rise_pos_of_closingOffset? {depth : Int} {rest : List Char} (hdepth : 0 < depth)
    (h : closingOffset? depth rest = none) : ∀ piece, piece <+: rest → 0 < depth + rise piece := by
  induction rest generalizing depth with
  | nil =>
      intro piece hpiece
      rw [List.prefix_nil.mp hpiece]
      simpa [rise] using hdepth
  | cons x rest ih =>
      have hlow := neg_one_le_rise x
      rw [closingOffset?_cons hdepth] at h
      split at h
      · simp at h
      · refine forall_prefix_cons_iff.mpr ⟨by simpa [rise] using hdepth, fun piece hpiece => ?_⟩
        have hpos := ih (by omega) (Option.map_eq_none_iff.mp h) piece hpiece
        rw [rise_cons]
        omega

/-- Where the count comes to zero a parenthesis closes, and the depth is positive up to there. -/
theorem exists_group_of_closingOffset? {depth : Int} {rest : List Char} {n : Nat}
    (hdepth : 0 < depth) (h : closingOffset? depth rest = some n) :
    ∃ inner behind, rest = inner ++ ')' :: behind ∧ inner.length = n ∧
      (∀ piece, piece <+: inner → 0 < depth + rise piece) ∧ depth + rise inner = 1 := by
  induction rest generalizing depth n with
  | nil => simp [closingOffset?] at h
  | cons x rest ih =>
      have hlow := neg_one_le_rise x
      rw [closingOffset?_cons hdepth] at h
      split at h
      · rename_i hzero
        obtain rfl : 0 = n := by simpa using h
        obtain rfl : x = ')' := eq_closing_of_rise (by omega)
        have hrise : rise [] = 0 := rfl
        refine ⟨[], rest, rfl, rfl, ?_, by omega⟩
        intro piece hpiece
        rw [List.prefix_nil.mp hpiece]
        omega
      · obtain ⟨m, hm, rfl⟩ := Option.map_eq_some_iff.mp h
        obtain ⟨inner, behind, rfl, rfl, hinside, hlast⟩ := ih (by omega) hm
        refine ⟨x :: inner, behind, rfl, rfl, ?_, by rw [rise_cons]; omega⟩
        refine forall_prefix_cons_iff.mpr ⟨by simpa [rise] using hdepth, fun piece hpiece => ?_⟩
        have hpos := hinside piece hpiece
        rw [rise_cons]
        omega

/-- A piece in which the depth falls to zero or below has the closing parenthesis in it. -/
theorem exists_closingOffset?_lt {depth : Int} {rest piece : List Char} (hdepth : 0 < depth)
    (hpiece : piece <+: rest) (hlow : depth + rise piece ≤ 0) :
    ∃ n < piece.length, closingOffset? depth rest = some n := by
  cases h : closingOffset? depth rest with
  | none =>
      have hpos := rise_pos_of_closingOffset? hdepth h piece hpiece
      omega
  | some n =>
      obtain ⟨inner, behind, rfl, rfl, hinside, -⟩ := exists_group_of_closingOffset? hdepth h
      refine ⟨_, ?_, rfl⟩
      by_contra hle
      have hshort : piece <+: inner :=
        List.prefix_of_prefix_length_le hpiece (List.prefix_append _ _) (by omega)
      have hpos := hinside piece hshort
      omega

/-! ### The parenthesis that closes a group -/

/-- From the offset `i` to the offset `j`, both included, as many parentheses close as open. -/
structure EvenBetween (text : List Char) (i j : Nat) : Prop where
  lt : i < j
  lt_length : j < text.length
  count_eq : (text.extract i (j + 1)).count '(' = (text.extract i (j + 1)).count ')'

/-- The group that opens at the offset `i` is closed at the offset `j`. -/
structure ClosedAt (text : List Char) (i j : Nat) : Prop where
  isLeast : IsLeast {j | EvenBetween text i j} j
  closing : text[j]? = some ')'
  balanced : Balanced (text.extract (i + 1) j)
  inside : ∀ piece, piece <+: text.extract i (j + 1) → piece ≠ [] → piece ≠ text.extract i (j + 1) →
    piece.count ')' < piece.count '('

theorem exists_append_of_getElem? {text : List Char} {i : Nat} {x : Char} (h : text[i]? = some x) :
    ∃ before rest, text = before ++ x :: rest ∧ before.length = i := by
  obtain ⟨hlt, rfl⟩ := List.getElem?_eq_some_iff.mp h
  refine ⟨text.take i, text.drop (i + 1), ?_, List.length_take_of_le (Nat.le_of_lt hlt)⟩
  rw [← List.drop_eq_getElem_cons hlt, List.take_append_drop]

section

variable (before rest : List Char)

theorem closingParen?_append :
    closingParen? (before ++ '(' :: rest) before.length =
      some (((closingOffset? 1 rest).elim (before ++ '(' :: rest).length
        fun n => before.length + 1 + n : Nat) : Int) := by
  have hlow : ¬ (before.length : Int) < -((before ++ '(' :: rest).length : Int) := by omega
  have hpos : ¬ (before.length : Int) < 0 := by omega
  have hvisited : (before ++ '(' :: rest).drop (before.length : Int).toNat = '(' :: rest := by
    rw [Int.toNat_natCast, List.drop_left]
  simp only [closingParen?, if_neg hlow, if_neg hpos, hvisited, closingOffset?, Int.zero_add]
  cases closingOffset? 1 rest with
  | none => rfl
  | some n =>
      simp only [Option.map_some, Option.elim_some, Option.some.injEq]
      omega

variable {before rest}

theorem extract_opening {j : Nat} (h : before.length < j) :
    (before ++ '(' :: rest).extract before.length (j + 1) =
      '(' :: rest.take (j - before.length) := by
  have hsize : j + 1 - before.length = j - before.length + 1 := by omega
  rw [List.extract_eq_take_drop, List.drop_left, hsize, List.take_succ_cons]

theorem evenBetween_iff {j : Nat} :
    EvenBetween (before ++ '(' :: rest) before.length j ↔
      before.length < j ∧ j < (before ++ '(' :: rest).length ∧
        1 + rise (rest.take (j - before.length)) = 0 := by
  have hcount : ∀ piece : List Char,
      ('(' :: piece).count '(' = ('(' :: piece).count ')' ↔ 1 + rise piece = 0 := by
    intro piece
    have hcons : rise ('(' :: piece) = 1 + rise piece := rise_cons '(' piece
    rw [← hcons, rise]
    omega
  constructor
  · rintro ⟨hlt, hlength, heven⟩
    rw [extract_opening hlt, hcount] at heven
    exact ⟨hlt, hlength, heven⟩
  · rintro ⟨hlt, hlength, heven⟩
    refine ⟨hlt, hlength, ?_⟩
    rwa [extract_opening hlt, hcount]

theorem not_evenBetween_of_closingOffset? (h : closingOffset? 1 rest = none) (j : Nat) :
    ¬ EvenBetween (before ++ '(' :: rest) before.length j := by
  rw [evenBetween_iff]
  rintro ⟨-, -, heven⟩
  have hpos :=
    rise_pos_of_closingOffset? Int.one_pos h _ (List.take_prefix (j - before.length) rest)
  omega

end

section

variable {inner : List Char} (hinside : ∀ piece, piece <+: inner → 0 < 1 + rise piece)

include hinside

theorem balanced_of_rise (hlast : 1 + rise inner = 1) : Balanced inner where
  opened := by
    intro piece hpiece
    have hpos := hinside piece hpiece
    simp only [rise] at hpos
    omega
  closed := by
    simp only [rise] at hlast
    omega

theorem count_lt_of_proper {piece : List Char} (hpiece : piece <+: '(' :: (inner ++ [')']))
    (hne : piece ≠ []) (hproper : piece ≠ '(' :: (inner ++ [')'])) :
    piece.count ')' < piece.count '(' := by
  obtain ⟨later, rfl, hlater⟩ := (List.prefix_cons_iff.mp hpiece).resolve_left hne
  have hshort : later <+: inner :=
    (List.prefix_concat_iff.mp hlater).resolve_left fun heq => hproper (heq ▸ rfl)
  have hpos := hinside later hshort
  simp only [rise] at hpos
  simp only [List.count_cons_self, List.count_cons_of_ne (by decide : '(' ≠ ')')]
  omega

theorem isLeast_closing (hlast : 1 + rise inner = 1) (before behind : List Char) :
    IsLeast {j | EvenBetween (before ++ '(' :: (inner ++ ')' :: behind)) before.length j}
      (before.length + 1 + inner.length) := by
  constructor
  · have hsize : before.length + 1 + inner.length - before.length = inner.length + 1 := by omega
    have hclosing : rise [')'] = -1 := by decide
    refine evenBetween_iff.mpr ⟨by omega, ?_, ?_⟩
    · simp only [List.length_append, List.length_cons]
      omega
    · rw [hsize, List.take_length_add_append, rise_append, List.take_succ_cons, List.take_zero]
      omega
  · intro j hj
    obtain ⟨hlt, -, heven⟩ := evenBetween_iff.mp hj
    by_contra hbefore
    have hpiece : (inner ++ ')' :: behind).take (j - before.length) <+: inner := by
      rw [List.take_append_of_le_length (by omega)]
      exact List.take_prefix _ _
    have hpos := hinside _ hpiece
    omega

end

theorem closedAt_of_closingOffset? {before rest : List Char} {n : Nat}
    (h : closingOffset? 1 rest = some n) :
    ClosedAt (before ++ '(' :: rest) before.length (before.length + 1 + n) := by
  obtain ⟨inner, behind, rfl, rfl, hinside, hlast⟩ := exists_group_of_closingOffset? Int.one_pos h
  have hsize : before.length + 1 + inner.length - before.length = inner.length + 1 := by omega
  have hgroup : (before ++ '(' :: (inner ++ ')' :: behind)).extract before.length
      (before.length + 1 + inner.length + 1) = '(' :: (inner ++ [')']) := by
    rw [extract_opening (by omega), hsize, List.take_length_add_append]
    rfl
  have hcontent : (before ++ '(' :: (inner ++ ')' :: behind)).extract (before.length + 1)
      (before.length + 1 + inner.length) = inner := by
    rw [List.extract_eq_take_drop, List.append_cons, List.drop_left' (by simp),
      Nat.add_sub_cancel_left, List.take_left]
  refine ⟨isLeast_closing hinside hlast before behind, ?_, ?_, ?_⟩
  · rw [List.getElem?_append_right (by omega), hsize, List.getElem?_cons_succ,
      List.getElem?_append_right (Nat.le_refl _), Nat.sub_self]
    rfl
  · rw [hcontent]
    exact balanced_of_rise hinside hlast
  · rw [hgroup]
    exact fun piece hpiece => count_lt_of_proper hinside hpiece

theorem closingParen?_cases {text : List Char} {i : Nat} (h : text[i]? = some '(') :
    (∃ j : Nat, closingParen? text i = some (j : Int) ∧ ClosedAt text i j) ∨
      closingParen? text i = some (text.length : Int) ∧ ∀ j, ¬ EvenBetween text i j := by
  obtain ⟨before, rest, rfl, rfl⟩ := exists_append_of_getElem? h
  rw [closingParen?_append]
  cases hclosing : closingOffset? 1 rest with
  | none => exact .inr ⟨rfl, not_evenBetween_of_closingOffset? hclosing⟩
  | some n => exact .inl ⟨_, rfl, closedAt_of_closingOffset? hclosing⟩

/-! ### Two groups -/

/-- What the count from the outer of two opening parentheses says about the count from the inner
one. -/
theorem closingOffset?_of_outer {front later : List Char} {n : Nat}
    (h : closingOffset? 1 (front ++ '(' :: later) = some n) :
    n < front.length ∨ ∃ m, closingOffset? 1 later = some m ∧ front.length + 1 + m < n := by
  obtain ⟨inner, behind, htext, rfl, hinside, hlast⟩ := exists_group_of_closingOffset? Int.one_pos h
  rcases List.append_eq_append_iff.mp htext with ⟨mid, rfl, hlater⟩ | ⟨tail, rfl, hbehind⟩
  · rcases List.cons_eq_append_iff.mp hlater with ⟨-, hne⟩ | ⟨mid, rfl, rfl⟩
    · simp at hne
    · -- the outer group is open where the inner one opens, so the depth falls further in `mid`
      have hopen := hinside front (List.prefix_append _ _)
      have hopening : rise ['('] = 1 := by decide
      rw [rise_append, rise_cons] at hlast
      obtain ⟨m, hm, hclosing⟩ := exists_closingOffset?_lt Int.one_pos
        (List.prefix_append mid (')' :: behind)) (by omega)
      refine .inr ⟨m, hclosing, ?_⟩
      simp only [List.length_append, List.length_cons]
      omega
  · rcases List.cons_eq_append_iff.mp hbehind with ⟨-, hne⟩ | ⟨tail, rfl, -⟩
    · simp at hne
    · left
      simp only [List.length_append, List.length_cons]
      omega

/-- Of two groups the later one opens behind the end of the earlier one, or it does not end behind
it. -/
theorem closingParen?_lt_or_le {text : List Char} {i i' : Nat} {j j' : Int}
    (hi : text[i]? = some '(') (hi' : text[i']? = some '(') (hlt : i < i')
    (hj : closingParen? text i = some j) (hj' : closingParen? text i' = some j') :
    j < i' ∨ j' ≤ j := by
  obtain ⟨before, rest, rfl, rfl⟩ := exists_append_of_getElem? hi
  have hrest : rest[i' - before.length - 1]? = some '(' := by
    obtain ⟨k, rfl⟩ : ∃ k, i' = before.length + (k + 1) := ⟨i' - before.length - 1, by omega⟩
    rw [List.getElem?_append_right (by omega), Nat.add_sub_cancel_left] at hi'
    simpa using hi'
  obtain ⟨front, later, rfl, hfront⟩ := exists_append_of_getElem? hrest
  obtain rfl : i' = (before ++ '(' :: front).length := by simp; omega
  rw [closingParen?_append] at hj
  have htext : before ++ '(' :: (front ++ '(' :: later) =
      (before ++ '(' :: front) ++ '(' :: later := by
    simp
  rw [htext, closingParen?_append] at hj'
  simp only [Option.some.injEq] at hj hj'
  cases houter : closingOffset? 1 (front ++ '(' :: later) with
  | none =>
      right
      cases hinner : closingOffset? 1 later with
      | none =>
          simp only [houter, hinner, htext, Option.elim_none] at hj hj'
          omega
      | some m =>
          obtain ⟨inner, behind, rfl, rfl⟩ := exists_of_closingOffset? hinner
          simp only [houter, hinner, Option.elim_none, Option.elim_some] at hj hj'
          simp only [List.length_append, List.length_cons] at hj hj'
          omega
  | some n =>
      simp only [houter, Option.elim_some] at hj
      rcases closingOffset?_of_outer houter with hbefore | ⟨m, hinner, hle⟩
      · left
        simp only [List.length_append, List.length_cons]
        omega
      · right
        simp only [hinner, Option.elim_some, List.length_append, List.length_cons] at hj'
        omega

end ScriptGraph.Script

namespace ScriptGraph.Text

/-- The matches that a search finds end one behind the other. -/
theorem Rule.Advances.pairwise_findAll {r : Rule} (hadvances : r.Advances) (c : Cursor) :
    (r.findAll c).Pairwise fun h h' => h.stop.offset < h'.stop.offset := by
  unfold findAll
  generalize c.rest = left
  fun_induction Rule.findAllFrom r left c with
  | case1 => exact .nil
  | case2 y left c h hhit ih =>
      refine .cons (fun h' hmem => ?_) ih
      obtain ⟨⟨between, hbetween⟩, hhit'⟩ := exists_reads_of_mem_findAllFrom hmem
      obtain ⟨piece, hne, hpiece⟩ := hadvances.exists_reads hhit'
      have hpos := List.length_pos_of_ne_nil hne
      rw [hpiece.offset_eq, hbetween.offset_eq]
      omega
  | case3 y left c hnone ih => exact ih

end ScriptGraph.Text

namespace ScriptGraph.Script

open Text

/-! ### The spans after `USING` -/

namespace Span

/-- One of the spans ends before the other one begins. -/
def Apart (a b : Span) : Prop := a.stop ≤ b.start ∨ b.stop ≤ a.start

/-- The first span lies between the ends of the second one. -/
def Within (a b : Span) : Prop := b.start ≤ a.start ∧ a.stop ≤ b.stop

end Span

/-- A span after `USING` begins behind an opening parenthesis and ends at the closing one. -/
theorem exists_opening_of_mem_usingSpans {clean : List Char} {span : Span}
    (h : span ∈ usingSpans clean) :
    ∃ i : Nat, clean[i]? = some '(' ∧ span.start = i + 1 ∧
      closingParen? clean i = some span.stop := by
  obtain ⟨hit, hhit, rfl⟩ := List.mem_map.mp h
  obtain ⟨before, hclean, hopening, hoffset⟩ := exists_before_of_mem_usingGroup hhit
  obtain ⟨front, rfl⟩ := List.getLast?_eq_some_iff.mp hopening
  have htext : clean = front ++ '(' :: hit.stop.rest := by rw [hclean, List.append_assoc]; rfl
  have hstart : (hit.stop.offset : Int) = front.length + 1 := by simp [hoffset]
  have hanswer := closingParen?_append front hit.stop.rest
  rw [← htext] at hanswer
  refine ⟨front.length, by rw [htext]; simp, ?_⟩
  rw [hanswer]
  cases hclosing : closingOffset? 1 hit.stop.rest with
  | none => exact ⟨hstart, rfl⟩
  | some n =>
      refine ⟨hstart, congrArg some ?_⟩
      simp only [Option.elim_some]
      omega

theorem pairwise_usingSpans (clean : List Char) :
    (usingSpans clean).Pairwise fun a b => a.start < b.start := by
  unfold usingSpans
  rw [List.pairwise_map]
  refine (advances_usingGroup.pairwise_findAll (.start clean)).imp fun {hit hit'} hlt => ?_
  cases closingOffset? 1 hit.stop.rest <;> cases closingOffset? 1 hit'.stop.rest <;>
    exact Int.ofNat_lt.mpr hlt

theorem apart_or_within_of_mem_usingSpans {clean : List Char} {a b : Span}
    (ha : a ∈ usingSpans clean) (hb : b ∈ usingSpans clean) :
    a.Apart b ∨ a.Within b ∨ b.Within a := by
  obtain ⟨i, hi, hstart, hj⟩ := exists_opening_of_mem_usingSpans ha
  obtain ⟨i', hi', hstart', hj'⟩ := exists_opening_of_mem_usingSpans hb
  rcases Nat.lt_trichotomy i i' with hlt | rfl | hlt
  · rcases closingParen?_lt_or_le hi hi' hlt hj hj' with hbefore | hle
    · exact .inl (.inl (by omega))
    · exact .inr (.inr ⟨by omega, hle⟩)
  · rw [hj, Option.some.injEq] at hj'
    exact .inr (.inl ⟨by omega, by omega⟩)
  · rcases closingParen?_lt_or_le hi' hi hlt hj' hj with hbefore | hle
    · exact .inl (.inr (by omega))
    · exact .inr (.inl ⟨by omega, hle⟩)

/-- The parenthesis that closes a group is the first one up to which as many parentheses close as
open, and without such a parenthesis the answer is the end of the text.  The spans after `USING` are
listed by their starts, and any two of them are apart or one lies within the other. -/
theorem closingParen?_least_and_usingSpans_nested (text : List Char) :
    (∀ i : Nat, text[i]? = some '(' →
      (∃ j : Nat, closingParen? text i = some (j : Int) ∧ ClosedAt text i j) ∨
        closingParen? text i = some (text.length : Int) ∧ ∀ j, ¬ EvenBetween text i j) ∧
    (usingSpans text).Pairwise (fun a b => a.start < b.start) ∧
    ∀ a ∈ usingSpans text, ∀ b ∈ usingSpans text, a.Apart b ∨ a.Within b ∨ b.Within a :=
  ⟨fun _ => closingParen?_cases, pairwise_usingSpans text,
    fun _ ha _ hb => apart_or_within_of_mem_usingSpans ha hb⟩

/-- A group inside another one, and a third one that is never closed. -/
theorem closingParen?_least_and_usingSpans_nested_three :
    let text := "USING (a USING (b)) USING (c".toList
    text[6]? = some '(' ∧ closingParen? text 6 = some 18 ∧ ClosedAt text 6 18 ∧
    text[26]? = some '(' ∧ closingParen? text 26 = some 28 ∧ (∀ j, ¬ EvenBetween text 26 j) ∧
    usingSpans text = [⟨7, 18⟩, ⟨16, 17⟩, ⟨27, 28⟩] ∧
    (usingSpans text).Pairwise (fun a b => a.start < b.start) ∧
    (⟨16, 17⟩ : Span).Within ⟨7, 18⟩ := by
  intro text
  obtain ⟨hclosing, hordered, -⟩ := closingParen?_least_and_usingSpans_nested text
  have hopening : text[6]? = some '(' := by decide
  have hopening' : text[26]? = some '(' := by decide
  have hanswer : closingParen? text 6 = some 18 := by decide +kernel
  have hanswer' : closingParen? text 26 = some 28 := by decide +kernel
  have hspans : usingSpans text = [⟨7, 18⟩, ⟨16, 17⟩, ⟨27, 28⟩] := by decide +kernel
  refine ⟨hopening, hanswer, ?_, hopening', hanswer', ?_, hspans, hordered, by decide, by decide⟩
  · rcases hclosing 6 hopening with ⟨j, hj, hclosed⟩ | ⟨hend, -⟩
    · obtain rfl : j = 18 := by
        have heq := hj.symm.trans hanswer
        simp only [Option.some.injEq] at heq
        omega
      exact hclosed
    · have heq := hend.symm.trans hanswer
      simp [text] at heq
  · rcases hclosing 26 hopening' with ⟨j, hj, hclosed⟩ | ⟨-, hnone⟩
    · have heq := hj.symm.trans hanswer'
      have hlt := hclosed.isLeast.1.lt_length
      simp only [Option.some.injEq] at heq
      simp [text] at hlt
      omega
    · exact hnone

end ScriptGraph.Script
