import Mathlib.Data.List.Basic
import ScriptGraph.Proofs.Text.Hits

/-!
# Matches inside a frame

A text can stand between two others as in a frame.  A pattern that covers no piece across the end of
the text, and that does not see where the text starts and ends, matches inside the frame exactly as
it does in the text alone.  Then the matches of a rule in the framed text are those of the text,
moved along, and those behind it.  More generally a search splits at every place that no match
reaches across.
-/

namespace ScriptGraph.Text

namespace Cursor

/-- The same place when the text stands between `before` and `after`. -/
def within (before after : List Char) (c : Cursor) : Cursor :=
  ⟨c.back ++ before.reverse, c.rest ++ after⟩

theorem offset_within (before after : List Char) (c : Cursor) :
    (c.within before after).offset = c.offset + before.length := by
  simp [within, offset]

theorem Reads.text_eq {c d : Cursor} {piece : List Char} (h : c.Reads piece d) :
    d.text = c.text := by
  simp [text, h.rest, h.back]

theorem Reads.offset_eq {c d : Cursor} {piece : List Char} (h : c.Reads piece d) :
    d.offset = c.offset + piece.length := by
  simp [offset, h.back, Nat.add_comm]

theorem Reads.getElem?_text {c d : Cursor} {piece : List Char} (h : c.Reads piece d) {n : Nat}
    (hlow : c.offset ≤ n) (hhigh : n < d.offset) : c.text[n]? = piece[n - c.offset]? := by
  rw [h.offset_eq] at hhigh
  simp only [offset] at hlow hhigh ⊢
  rw [text, h.rest, List.getElem?_append_right (by simpa using hlow), List.length_reverse,
    List.getElem?_append_left (by omega)]

/-- What is read of two pieces ends in the first one if it is not longer. -/
theorem Reads.exists_append {back front behind piece : List Char} {d : Cursor}
    (h : Reads ⟨back, front ++ behind⟩ piece d) (hle : piece.length ≤ front.length) :
    ∃ front', front = piece ++ front' ∧ d = ⟨piece.reverse ++ back, front' ++ behind⟩ := by
  have hsplit : front ++ behind = piece ++ d.rest := h.rest
  obtain ⟨front', hfront⟩ := List.prefix_of_prefix_length_le ⟨d.rest, hsplit.symm⟩
    (List.prefix_append front behind) hle
  rw [← hfront, List.append_assoc] at hsplit
  refine ⟨front', hfront.symm, ?_⟩
  rw [List.append_cancel_left hsplit, ← h.back]

theorem upTo_within (before after : List Char) (c d : Cursor) {piece : List Char}
    (h : c.Reads piece d) :
    (c.within before after).upTo (d.within before after) = c.upTo d := by
  have hwithin : (c.within before after).Reads piece (d.within before after) :=
    ⟨by simp [within, h.rest], by simp [within, h.back]⟩
  rw [hwithin.upTo_eq, h.upTo_eq]

end Cursor

namespace Pattern

/-- The pattern matches at the places of the framed text as it does at those of the text. -/
def Framed (before text after : List Char) (p : Pattern) : Prop :=
  ∀ c : Cursor, c.text = text →
    p.ends (c.within before after) = (p.ends c).map (Cursor.within before after)

def Advances (p : Pattern) : Prop := ∀ c, ∀ d ∈ p.ends c, d.rest.length < c.rest.length

theorem advances_of_consumes {p : Pattern} (h : p.consumes = true) : p.Advances := by
  intro c d hd
  obtain ⟨piece, hspells, hreads⟩ := exists_spells_of_mem_ends hd
  have hpos := List.length_pos_of_ne_nil (hspells.ne_nil h)
  rw [hreads.rest, List.length_append]
  omega

theorem text_of_mem_ends {p : Pattern} {c d : Cursor} (h : d ∈ p.ends c) : d.text = c.text := by
  obtain ⟨piece, -, hreads⟩ := exists_spells_of_mem_ends h
  exact hreads.text_eq

/-- From inside a delimited piece the closing delimiter is found at its first place. -/
theorem flatMap_runEnds_closing {closing : Char} {inner : List Char} (hinner : closing ∉ inner)
    (back behind : List Char) (nearer : List Cursor) :
    (runEnds (· != closing) back (inner ++ closing :: behind) nearer).flatMap (char closing).ends =
      ⟨closing :: (inner.reverse ++ back), behind⟩ :: nearer.flatMap (char closing).ends := by
  induction inner generalizing back nearer with
  | nil => simp [runEnds, char, ends]
  | cons x inner ih =>
      obtain ⟨hx, hinner⟩ : closing ≠ x ∧ closing ∉ inner := by simpa using hinner
      have hlater := ih hinner (x :: back) (⟨back, x :: (inner ++ closing :: behind)⟩ :: nearer)
      simpa [runEnds, char, ends, Ne.symm hx] using hlater

theorem flatMap_runEnds_unclosed {closing : Char} {inner : List Char} (hinner : closing ∉ inner)
    (back : List Char) (nearer : List Cursor) :
    (runEnds (· != closing) back inner nearer).flatMap (char closing).ends =
      nearer.flatMap (char closing).ends := by
  induction inner generalizing back nearer with
  | nil => simp [runEnds, char, ends]
  | cons x inner ih =>
      obtain ⟨hx, hinner⟩ : closing ≠ x ∧ closing ∉ inner := by simpa using hinner
      have hlater := ih hinner (x :: back) (⟨back, x :: inner⟩ :: nearer)
      simpa [runEnds, char, ends, Ne.symm hx] using hlater

theorem ends_closing {closing : Char} {inner : List Char} (hinner : closing ∉ inner)
    (back behind : List Char) :
    (seq (run1 (· != closing)) (char closing)).ends ⟨back, inner ++ closing :: behind⟩ =
      if inner = [] then [] else [⟨closing :: (inner.reverse ++ back), behind⟩] := by
  cases inner with
  | nil => simp [run1, ends]
  | cons x inner =>
      obtain ⟨hx, hinner⟩ : closing ≠ x ∧ closing ∉ inner := by simpa using hinner
      have hrun := flatMap_runEnds_closing hinner (x :: back) behind []
      simpa [run1, ends, Ne.symm hx] using hrun

theorem ends_unclosed {closing : Char} {rest : List Char} (hrest : closing ∉ rest)
    (back : List Char) :
    (seq (run1 (· != closing)) (char closing)).ends ⟨back, rest⟩ = [] := by
  cases rest with
  | nil => simp [run1, ends]
  | cons x rest =>
      obtain ⟨hx, hrest⟩ : closing ≠ x ∧ closing ∉ rest := by simpa using hrest
      have hrun := flatMap_runEnds_unclosed hrest (x :: back) []
      simpa [run1, ends, Ne.symm hx] using hrun

theorem ends_delimited_nil (opening closing : Char) (back : List Char) :
    (all [.char opening, .run1 (· != closing), .char closing]).ends ⟨back, []⟩ = [] := rfl

theorem ends_delimited_cons (opening closing x : Char) (back rest : List Char) :
    (all [.char opening, .run1 (· != closing), .char closing]).ends ⟨back, x :: rest⟩ =
      if x = opening then (seq (run1 (· != closing)) (char closing)).ends ⟨x :: back, rest⟩
      else [] := by
  by_cases hx : x = opening <;> simp [all, char, ends, hx]

namespace Framed

variable {before text after : List Char} {p q : Pattern} {accepts : Char → Bool}

theorem one (hafter : ∀ x ∈ after.head?, accepts x = false) :
    Framed before text after (.one accepts) := by
  rintro ⟨back, rest⟩ -
  cases rest with
  | cons x rest => by_cases hx : accepts x = true <;> simp [Cursor.within, ends, hx]
  | nil =>
      cases after with
      | nil => simp [Cursor.within, ends]
      | cons x after =>
          have hx : accepts x = false := hafter x rfl
          simp [Cursor.within, ends, hx]

theorem runEnds_within (hafter : ∀ x ∈ after.head?, accepts x = false) (back rest : List Char)
    (nearer : List Cursor) :
    runEnds accepts (back ++ before.reverse) (rest ++ after)
        (nearer.map (Cursor.within before after)) =
      (runEnds accepts back rest nearer).map (Cursor.within before after) := by
  induction rest generalizing back nearer with
  | nil =>
      cases after with
      | nil => simp [runEnds, Cursor.within]
      | cons x after =>
          have hx : accepts x = false := hafter x rfl
          simp [runEnds, Cursor.within, hx]
  | cons x rest ih =>
      by_cases hx : accepts x = true
      · have hlater := ih (x :: back) (⟨back, x :: rest⟩ :: nearer)
        simpa [runEnds, hx, Cursor.within] using hlater
      · simp [runEnds, hx, Cursor.within]

theorem run (hafter : ∀ x ∈ after.head?, accepts x = false) :
    Framed before text after (.run accepts) := by
  rintro ⟨back, rest⟩ -
  exact runEnds_within hafter back rest []

theorem empty : Framed before text after .empty := fun _ _ => rfl

theorem seq (hp : Framed before text after p) (hq : Framed before text after q) :
    Framed before text after (.seq p q) := by
  intro c hc
  have hlater : ∀ d ∈ p.ends c,
      q.ends (d.within before after) = (q.ends d).map (Cursor.within before after) := by
    intro d hd
    apply hq
    rw [text_of_mem_ends hd, hc]
  simp only [ends, hp c hc, List.flatMap_map, List.map_flatMap]
  exact List.flatMap_congr hlater

theorem alt (hp : Framed before text after p) (hq : Framed before text after q) :
    Framed before text after (.alt p q) := by
  intro c hc
  simp only [ends, hp c hc, hq c hc, List.map_append]

theorem all {patterns : List Pattern} (h : ∀ p ∈ patterns, Framed before text after p) :
    Framed before text after (.all patterns) := by
  induction patterns with
  | nil => exact empty
  | cons p later ih =>
      obtain ⟨hp, hlater⟩ := List.forall_mem_cons.mp h
      cases later with
      | nil => exact hp
      | cons q later => exact seq hp (ih hlater)

theorem any {patterns : List Pattern} (h : ∀ p ∈ patterns, Framed before text after p) :
    Framed before text after (.any patterns) := by
  induction patterns with
  | nil => exact fun _ _ => rfl
  | cons p later ih =>
      obtain ⟨hp, hlater⟩ := List.forall_mem_cons.mp h
      cases later with
      | nil => exact hp
      | cons q later => exact alt hp (ih hlater)

theorem notBefore (hp : Framed before text after p) : Framed before text after (.notBefore p) := by
  intro c hc
  simp only [ends, hp c hc, List.isEmpty_map]
  split <;> rfl

theorem any_head?_append {front behind : List Char}
    (h : ∀ x ∈ behind.head?, accepts x = false) :
    (front ++ behind).head?.any accepts = front.head?.any accepts := by
  cases front with
  | cons x front => rfl
  | nil =>
      cases behind with
      | nil => rfl
      | cons x behind => simpa using h x rfl

theorem wordEdge (hbefore : ∀ x ∈ before.getLast?, isWord x = false)
    (hafter : ∀ x ∈ after.head?, isWord x = false) : Framed before text after .wordEdge := by
  intro c _
  rw [← List.head?_reverse] at hbefore
  have hedge : isWordEdge (c.within before after) = isWordEdge c := by
    simp only [isWordEdge, Cursor.within, any_head?_append hbefore, any_head?_append hafter]
  simp only [ends, hedge]
  split <;> rfl

theorem run1 (hafter : ∀ x ∈ after.head?, accepts x = false) :
    Framed before text after (.run1 accepts) := seq (one hafter) (run hafter)

theorem many (hp : Framed before text after p) (hadvances : p.Advances) :
    Framed before text after (.many p) := by
  have hmany : ∀ (left left' : List Char) (c : Cursor), c.text = text →
      c.rest.length ≤ left.length → left.length ≤ left'.length →
        manyEnds p.ends left' (c.within before after) =
          (manyEnds p.ends left c).map (Cursor.within before after) := by
    intro left
    induction left with
    | nil =>
        intro left' c hc hrest hle
        have hnone : p.ends c = [] := by
          apply List.eq_nil_iff_forall_not_mem.mpr
          intro d hd
          have hlt := hadvances c d hd
          simp only [List.length_nil] at hrest
          omega
        cases left' with
        | nil => rfl
        | cons y left' => simp [manyEnds, hp c hc, hnone]
    | cons y left ih =>
        intro left' c hc hrest hle
        cases left' with
        | nil => simp at hle
        | cons y' left' =>
            have hlater : ∀ d ∈ p.ends c,
                manyEnds p.ends left' (d.within before after) =
                  (manyEnds p.ends left d).map (Cursor.within before after) := by
              intro d hd
              have hlt := hadvances c d hd
              simp only [List.length_cons] at hrest hle
              apply ih
              · rw [text_of_mem_ends hd, hc]
              · omega
              · omega
            simp only [manyEnds, hp c hc, List.flatMap_map, List.map_append, List.map_flatMap]
            rw [List.flatMap_congr hlater]
            rfl
  intro c hc
  apply hmany
  · exact hc
  · exact Nat.le_refl _
  · simp [Cursor.within]

/-- Delimited pieces are framed if none that starts in the text is closed behind it. -/
theorem delimited {opening closing : Char} (hopening : ∀ x ∈ after.head?, x ≠ opening)
    (hclosed : ∀ rest, opening :: rest <:+ text → closing ∉ rest → closing ∉ after) :
    Framed before text after (.all [.char opening, .run1 (· != closing), .char closing]) := by
  rintro ⟨back, rest⟩ hc
  cases rest with
  | nil =>
      cases after with
      | nil => simp [Cursor.within, ends_delimited_nil]
      | cons x after =>
          have hx : x ≠ opening := hopening x rfl
          simp [Cursor.within, ends_delimited_nil, ends_delimited_cons, hx]
  | cons y rest =>
      by_cases hy : y = opening
      · subst hy
        simp only [Cursor.within, List.cons_append, ends_delimited_cons, if_true]
        by_cases hmem : closing ∈ rest
        · obtain ⟨inner, behind, rfl, hinner⟩ := List.eq_append_cons_of_mem hmem
          rw [List.append_assoc, List.cons_append, ends_closing hinner, ends_closing hinner]
          split
          · rfl
          · simp [Cursor.within]
        · have hbehind : closing ∉ after := hclosed rest ⟨back.reverse, hc⟩ hmem
          have hnone : closing ∉ rest ++ after := by simp [hmem, hbehind]
          rw [ends_unclosed hnone, ends_unclosed hmem]
          rfl
      · simp [Cursor.within, ends_delimited_cons, hy]

end Framed

theorem exists_of_spells_delimited {opening closing : Char} {w : List Char}
    (h : (all [.char opening, .run1 (· != closing), .char closing]).Spells w) :
    ∃ inner, w = opening :: (inner ++ [closing]) ∧ inner ≠ [] ∧ closing ∉ inner := by
  simp only [all] at h
  obtain ⟨_, w', rfl, hopening, h⟩ := spells_seq_iff.mp h
  obtain ⟨inner, _, rfl, hinner, hclosing⟩ := spells_seq_iff.mp h
  obtain ⟨x, rfl, hx⟩ := spells_one_iff.mp hopening
  obtain ⟨y, rfl, hy⟩ := spells_one_iff.mp hclosing
  obtain rfl : x = opening := eq_of_beq hx
  obtain rfl : y = closing := eq_of_beq hy
  refine ⟨inner, rfl, hinner.ne_nil rfl, ?_⟩
  intro hmem
  obtain ⟨_, _, rfl, hfirst, hlater⟩ := spells_seq_iff.mp hinner
  obtain ⟨z, rfl, hz⟩ := spells_one_iff.mp hfirst
  rcases List.mem_append.mp hmem with hmem | hmem
  · rw [List.mem_singleton.mp hmem] at hz
    simp at hz
  · have hne := spells_run_iff.mp hlater y hmem
    simp at hne

/-! ### Characters that no match covers -/

/-- No piece of the text that the pattern spells has the character in it. -/
def Avoids (x : Char) (text : List Char) (p : Pattern) : Prop :=
  ∀ w, p.Spells w → w <:+: text → x ∉ w

namespace Avoids

variable {x : Char} {text : List Char} {p q : Pattern} {accepts : Char → Bool}

theorem of_spells_nil (h : ∀ w, p.Spells w → w = []) : Avoids x text p := by
  intro w hw _ hmem
  rw [h w hw] at hmem
  simp at hmem

theorem one (hx : accepts x = false) : Avoids x text (.one accepts) := by
  intro w hw _ hmem
  obtain ⟨y, rfl, hy⟩ := spells_one_iff.mp hw
  rw [List.mem_singleton.mp hmem, hy] at hx
  simp at hx

theorem run (hx : accepts x = false) : Avoids x text (.run accepts) := by
  intro w hw _ hmem
  rw [spells_run_iff.mp hw x hmem] at hx
  simp at hx

theorem seq (hp : Avoids x text p) (hq : Avoids x text q) : Avoids x text (.seq p q) := by
  intro w hw htext hmem
  obtain ⟨a, b, rfl, ha, hb⟩ := spells_seq_iff.mp hw
  rcases List.mem_append.mp hmem with hmem | hmem
  · exact hp a ha ((List.prefix_append a b).isInfix.trans htext) hmem
  · exact hq b hb ((List.suffix_append a b).isInfix.trans htext) hmem

theorem alt (hp : Avoids x text p) (hq : Avoids x text q) : Avoids x text (.alt p q) := by
  intro w hw
  rcases spells_alt_iff.mp hw with hw | hw
  · exact hp w hw
  · exact hq w hw

theorem many (hp : Avoids x text p) : Avoids x text (.many p) := by
  intro w hw htext
  generalize hmany : Pattern.many p = r at hw
  induction hw with
  | manyNil => simp
  | @manyCons p' a b ha _ _ ih =>
      cases hmany
      intro hmem
      rcases List.mem_append.mp hmem with hmem | hmem
      · exact hp a ha ((List.prefix_append a b).isInfix.trans htext) hmem
      · exact ih ((List.suffix_append a b).isInfix.trans htext) rfl hmem
  | _ => cases hmany

theorem all {patterns : List Pattern} (h : ∀ p ∈ patterns, Avoids x text p) :
    Avoids x text (.all patterns) := by
  induction patterns with
  | nil =>
      apply of_spells_nil
      rintro w ⟨⟩
      rfl
  | cons p later ih =>
      obtain ⟨hp, hlater⟩ := List.forall_mem_cons.mp h
      cases later with
      | nil => exact hp
      | cons q later => exact seq hp (ih hlater)

end Avoids

end Pattern

namespace Hit

/-- The same match when the text stands between `before` and `after`. -/
def within (before after : List Char) (h : Hit) : Hit :=
  ⟨h.start.within before after, h.left.within before after, h.right.within before after,
    h.stop.within before after⟩

end Hit

namespace Rule

variable {r : Rule} {before text after : List Char}

structure Framed (before text after : List Char) (r : Rule) : Prop where
  lead : r.lead.Framed before text after
  body : r.body.Framed before text after
  trail : r.trail.Framed before text after

def Advances (r : Rule) : Prop := ∀ c, ∀ h ∈ r.hits c, h.stop.rest.length < c.rest.length

theorem advances_of_consumes (h : r.body.consumes = true) : r.Advances := by
  intro c hit hhit
  obtain ⟨-, hleft, hright, hstop⟩ := mem_hits_iff.mp hhit
  obtain ⟨lead, -, hlead⟩ := Pattern.exists_spells_of_mem_ends hleft
  obtain ⟨body, hspells, hbody⟩ := Pattern.exists_spells_of_mem_ends hright
  obtain ⟨trail, -, htrail⟩ := Pattern.exists_spells_of_mem_ends hstop
  have hpos := List.length_pos_of_ne_nil (hspells.ne_nil h)
  rw [((hlead.trans hbody).trans htrail).rest, List.length_append, List.length_append,
    List.length_append]
  omega

theorem Framed.hits_within (hframed : r.Framed before text after) {c : Cursor}
    (hc : c.text = text) :
    r.hits (c.within before after) = (r.hits c).map (Hit.within before after) := by
  simp only [hits, hframed.lead c hc, List.flatMap_map, List.map_flatMap]
  apply List.flatMap_congr
  intro left hleft
  have hleftText : left.text = text := by rw [Pattern.text_of_mem_ends hleft, hc]
  simp only [hframed.body left hleftText, List.flatMap_map]
  apply List.flatMap_congr
  intro right hright
  have hrightText : right.text = text := by rw [Pattern.text_of_mem_ends hright, hleftText]
  simp only [hframed.trail right hrightText, List.map_map]
  rfl

theorem Framed.hit?_within (hframed : r.Framed before text after) {c : Cursor}
    (hc : c.text = text) :
    r.hit? (c.within before after) = (r.hit? c).map (Hit.within before after) := by
  rw [hit?, hframed.hits_within hc, List.head?_map]
  rfl

/-! ### Equations for the matches from a place on -/

theorem Advances.hit?_nil (hadvances : r.Advances) (back : List Char) :
    r.hit? ⟨back, []⟩ = none := by
  cases hhit : r.hit? ⟨back, []⟩ with
  | none => rfl
  | some h =>
      have hlt := hadvances _ h (mem_hits_of_hit? hhit)
      simp at hlt

theorem Advances.findAllFrom_nil (hadvances : r.Advances) (back left : List Char) :
    r.findAllFrom left ⟨back, []⟩ = [] := by
  induction left with
  | nil => rfl
  | cons y left ih =>
      rw [findAllFrom, hadvances.hit?_nil back]
      exact ih

/-- A bound on the number of places has no effect if it is large enough. -/
theorem Advances.findAllFrom_eq (hadvances : r.Advances) {left : List Char} {c : Cursor}
    (hle : c.rest.length ≤ left.length) : r.findAllFrom left c = r.findAll c := by
  have hbound : ∀ (n : Nat) (left left' : List Char) (c : Cursor), c.rest.length ≤ n →
      c.rest.length ≤ left.length → c.rest.length ≤ left'.length →
        r.findAllFrom left c = r.findAllFrom left' c := by
    intro n
    induction n with
    | zero =>
        rintro left left' ⟨back, rest⟩ hrest - -
        obtain rfl : rest = [] := by simpa using hrest
        rw [hadvances.findAllFrom_nil, hadvances.findAllFrom_nil]
    | succ n ih =>
        rintro left left' ⟨back, rest⟩ hn hleft hleft'
        cases rest with
        | nil => rw [hadvances.findAllFrom_nil, hadvances.findAllFrom_nil]
        | cons x rest =>
            have hpos : 0 < (x :: rest).length := List.length_pos_of_ne_nil (List.cons_ne_nil x rest)
            obtain ⟨y, left, rfl⟩ := List.exists_cons_of_length_pos (Nat.lt_of_lt_of_le hpos hleft)
            obtain ⟨y', left', rfl⟩ := List.exists_cons_of_length_pos (Nat.lt_of_lt_of_le hpos hleft')
            simp only [List.length_cons] at hn hleft hleft'
            rw [findAllFrom, findAllFrom]
            cases hhit : r.hit? ⟨back, x :: rest⟩ with
            | none =>
                have hrest : rest.length ≤ n ∧ rest.length ≤ left.length ∧
                    rest.length ≤ left'.length := by omega
                exact ih left left' ⟨x :: back, rest⟩ hrest.1 hrest.2.1 hrest.2.2
            | some h =>
                have hlt := hadvances _ h (mem_hits_of_hit? hhit)
                simp only [List.length_cons] at hlt
                simp only
                rw [ih left left' h.stop (by omega) (by omega) (by omega)]
  exact hbound _ left c.rest c (Nat.le_refl _) hle (Nat.le_refl _)

theorem Advances.findAll_nil (hadvances : r.Advances) (back : List Char) :
    r.findAll ⟨back, []⟩ = [] := hadvances.findAllFrom_nil back []

theorem findAll_of_none {back rest : List Char} {x : Char}
    (hnone : r.hit? ⟨back, x :: rest⟩ = none) :
    r.findAll ⟨back, x :: rest⟩ = r.findAll ⟨x :: back, rest⟩ := by
  rw [findAll, findAllFrom, hnone]
  rfl

theorem Advances.findAll_of_some (hadvances : r.Advances) {c : Cursor} {h : Hit}
    (hhit : r.hit? c = some h) : r.findAll c = h :: r.findAll h.stop := by
  have hlt := hadvances c h (mem_hits_of_hit? hhit)
  obtain ⟨back, rest⟩ := c
  cases rest with
  | nil => simp at hlt
  | cons x rest =>
      simp only [List.length_cons] at hlt
      rw [findAll, findAllFrom, hhit]
      simp only
      rw [hadvances.findAllFrom_eq (by omega)]

theorem Advances.exists_reads (hadvances : r.Advances) {c : Cursor} {h : Hit}
    (hhit : r.hit? c = some h) : ∃ piece, piece ≠ [] ∧ c.Reads piece h.stop := by
  obtain ⟨lead, trail, -, -, -, hlead, hbody, htrail⟩ := exists_parts_of_hit? hhit
  have hreads := (hlead.trans hbody).trans htrail
  refine ⟨_, ?_, hreads⟩
  intro hnil
  have hlt := hadvances c h (mem_hits_of_hit? hhit)
  rw [hreads.rest, hnil] at hlt
  simp at hlt

/-- The matches in a framed text are those of the text and then those from its end on. -/
theorem Framed.findAll_within (hframed : r.Framed before text after) (hadvances : r.Advances)
    {c : Cursor} (hc : c.text = text) :
    r.findAll (c.within before after) =
      (r.findAll c).map (Hit.within before after) ++
        r.findAll ((⟨text.reverse, []⟩ : Cursor).within before after) := by
  obtain ⟨n, hn⟩ : ∃ n, c.rest.length ≤ n := ⟨_, Nat.le_refl _⟩
  induction n generalizing c with
  | zero =>
      obtain ⟨back, rest⟩ := c
      obtain rfl : rest = [] := by simpa using hn
      obtain rfl : back.reverse = text := by simpa [Cursor.text] using hc
      simp [hadvances.findAll_nil]
  | succ n ih =>
      have hhit := hframed.hit?_within hc
      cases hfound : r.hit? c with
      | some h =>
          rw [hfound] at hhit
          have hstop : h.stop.text = text := by
            obtain ⟨piece, -, hreads⟩ := hadvances.exists_reads hfound
            rw [hreads.text_eq, hc]
          have hlt := hadvances c h (mem_hits_of_hit? hfound)
          rw [hadvances.findAll_of_some hhit, hadvances.findAll_of_some hfound]
          exact congrArg (h.within before after :: ·) (ih hstop (by omega))
      | none =>
          rw [hfound] at hhit
          obtain ⟨back, rest⟩ := c
          cases rest with
          | nil =>
              obtain rfl : back.reverse = text := by simpa [Cursor.text] using hc
              simp [hadvances.findAll_nil]
          | cons x rest =>
              have hnext : (⟨x :: back, rest⟩ : Cursor).text = text := by
                rw [Cursor.text_step, hc]
              have hle : rest.length ≤ n := by simpa using hn
              have hlater := ih hnext hle
              rw [findAll_of_none hfound, ← hlater]
              exact findAll_of_none hhit

/-- A place that no match reaches across splits the search: what is found from there on is what is
found by a search that starts there. -/
theorem Advances.findAll_append (hadvances : r.Advances) {text : List Char} {place : Nat}
    (hclear : ∀ (c : Cursor) (h : Hit), c.text = text → c.offset < place → r.hit? c = some h →
      h.stop.offset ≤ place)
    (back front behind : List Char) (htext : Cursor.text ⟨back, front ++ behind⟩ = text)
    (hplace : back.length + front.length = place) :
    ∃ earlier, r.findAll ⟨back, front ++ behind⟩ =
        earlier ++ r.findAll ⟨front.reverse ++ back, behind⟩ ∧
      ∀ h ∈ earlier, h.start.offset < place := by
  induction hn : front.length using Nat.strongRecOn generalizing back front with
  | ind n ih =>
      cases front with
      | nil => exact ⟨[], rfl, by simp⟩
      | cons x front =>
          rw [List.length_cons] at hn hplace
          rw [List.cons_append] at htext ⊢
          cases hfound : r.hit? ⟨back, x :: (front ++ behind)⟩ with
          | none =>
              have hnext : Cursor.text ⟨x :: back, front ++ behind⟩ = text := by
                rw [Cursor.text_step, htext]
              have hlength : (x :: back).length + front.length = place := by
                rw [List.length_cons]
                omega
              obtain ⟨earlier, hall, hearlier⟩ :=
                ih front.length (by omega) (x :: back) front hnext hlength rfl
              refine ⟨earlier, ?_, hearlier⟩
              rw [findAll_of_none hfound, hall]
              simp
          | some h =>
              obtain ⟨piece, hne, hreads⟩ := hadvances.exists_reads hfound
              have hoffset : Cursor.offset ⟨back, x :: (front ++ behind)⟩ = back.length := rfl
              have hstop := hclear _ h htext (by omega) hfound
              rw [hreads.offset_eq] at hstop
              have hle : piece.length ≤ (x :: front).length := by
                rw [List.length_cons]
                omega
              -- The match ends before the place, and the search goes on from its end.
              obtain ⟨front', hfront, hstop⟩ := Cursor.Reads.exists_append hreads hle
              have hpos := List.length_pos_of_ne_nil hne
              have hlengths := congrArg List.length hfront
              rw [List.length_cons, List.length_append] at hlengths
              have hstopText : Cursor.text ⟨piece.reverse ++ back, front' ++ behind⟩ = text := by
                rw [← hstop, hreads.text_eq, htext]
              have hlength : (piece.reverse ++ back).length + front'.length = place := by
                rw [List.length_append, List.length_reverse]
                omega
              obtain ⟨earlier, hall, hearlier⟩ :=
                ih front'.length (by omega) _ front' hstopText hlength rfl
              refine ⟨h :: earlier, ?_, ?_⟩
              · rw [hadvances.findAll_of_some hfound, hstop, hall, hfront]
                simp
              · intro other hother
                rcases List.mem_cons.mp hother with rfl | hother
                · rw [start_of_hit? hfound]
                  omega
                · exact hearlier other hother

/-- A search finds the match at a place that no earlier match reaches across. -/
theorem Advances.mem_findAll (hadvances : r.Advances) {before rest : List Char} {h : Hit}
    (hhit : r.hit? ⟨before.reverse, rest⟩ = some h)
    (hclear : ∀ (c : Cursor) (earlier : Hit), c.text = before ++ rest → c.offset < before.length →
      r.hit? c = some earlier → earlier.stop.offset ≤ before.length) :
    h ∈ r.findAll (.start (before ++ rest)) := by
  obtain ⟨earlier, hall, -⟩ :=
    hadvances.findAll_append hclear [] before rest rfl (Nat.zero_add _)
  rw [Cursor.start, hall, List.append_nil, hadvances.findAll_of_some hhit]
  exact List.mem_append_right _ List.mem_cons_self

/-- A character that no match covers splits the search: what is found from behind it on is what is
found there by a search that starts behind it. -/
theorem Advances.findAll_split (hadvances : r.Advances) {fence : Char} {text : List Char}
    (hfence : ∀ (c : Cursor) (h : Hit) (piece : List Char), c.text = text → r.hit? c = some h →
      c.Reads piece h.stop → fence ∉ piece)
    {back front behind : List Char} (htext : Cursor.text ⟨back, front ++ fence :: behind⟩ = text) :
    ∃ earlier, r.findAll ⟨back, front ++ fence :: behind⟩ =
        earlier ++ r.findAll ⟨fence :: (front.reverse ++ back), behind⟩ ∧
      ∀ h ∈ earlier, h.start.offset ≤ back.length + front.length := by
  have hclear : ∀ (c : Cursor) (h : Hit), c.text = text →
      c.offset < back.length + (front.length + 1) → r.hit? c = some h →
        h.stop.offset ≤ back.length + (front.length + 1) := by
    intro c h hc hlow hhit
    obtain ⟨piece, -, hreads⟩ := hadvances.exists_reads hhit
    by_contra hcross
    have hcovered := hreads.getElem?_text (n := back.length + front.length)
      (by omega) (by omega)
    have hat : c.text[back.length + front.length]? = some fence := by
      rw [hc, ← htext, Cursor.text]
      simp
    rw [hat] at hcovered
    exact hfence c h piece hc hhit hreads (List.mem_of_getElem? hcovered.symm)
  obtain ⟨earlier, hall, hearlier⟩ := hadvances.findAll_append hclear back (front ++ [fence]) behind
    (by simpa using htext) (by simp)
  refine ⟨earlier, by simpa using hall, fun h hh => ?_⟩
  have hlt := hearlier h hh
  omega

theorem le_offset_of_mem_findAll {c : Cursor} {h : Hit} (hmem : h ∈ r.findAll c) :
    c.offset ≤ h.start.offset := by
  obtain ⟨⟨piece, hreads⟩, -⟩ := exists_reads_of_mem_findAll hmem
  rw [hreads.offset_eq]
  exact Nat.le_add_right _ _

theorem Advances.offset_lt_of_mem_findAll (hadvances : r.Advances) {h : Hit}
    (hmem : h ∈ r.findAll (.start text)) : h.start.offset < text.length := by
  obtain ⟨⟨piece, hreads⟩, hhit⟩ := exists_reads_of_mem_findAll hmem
  have hlt := hadvances h.start h (mem_hits_of_hit? hhit)
  have hlength : text.length = piece.length + h.start.rest.length := by
    have hrest : text = piece ++ h.start.rest := hreads.rest
    rw [hrest, List.length_append]
  rw [hreads.offset_eq, Cursor.offset_start]
  omega

end Rule

end ScriptGraph.Text
