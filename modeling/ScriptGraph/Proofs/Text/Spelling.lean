import Mathlib.Data.List.Forall2
import ScriptGraph.Text.Letter

/-!
# The texts that a pattern spells

A match of a pattern covers a piece of text.  `Pattern.Spells` says which pieces a pattern can cover,
without regard to what stands around them.  Every end of a match lies after a spelled piece, and a
pattern that does not look around can end after every piece that it spells.
-/

namespace ScriptGraph.Text

namespace Cursor

/-- `d` lies behind `c`, with the characters of `piece` between them. -/
structure Reads (c : Cursor) (piece : List Char) (d : Cursor) : Prop where
  rest : c.rest = piece ++ d.rest
  back : d.back = piece.reverse ++ c.back

namespace Reads

variable {c d e : Cursor} {piece later : List Char}

theorem refl (c : Cursor) : c.Reads [] c := ⟨rfl, rfl⟩

theorem step (back rest : List Char) (x : Char) :
    Reads ⟨back, x :: rest⟩ [x] ⟨x :: back, rest⟩ := ⟨rfl, rfl⟩

theorem trans (h : c.Reads piece d) (h' : d.Reads later e) : c.Reads (piece ++ later) e := by
  refine ⟨?_, ?_⟩
  · rw [h.rest, h'.rest, List.append_assoc]
  · rw [h'.back, h.back, List.reverse_append, List.append_assoc]

theorem upTo_eq (h : c.Reads piece d) : c.upTo d = piece := by
  simp [upTo, h.rest]

theorem infix_rest (h : c.Reads piece d) : piece <:+: c.rest :=
  ⟨[], d.rest, by simp [h.rest]⟩

theorem suffix_rest (h : c.Reads piece d) : d.rest <:+ c.rest :=
  ⟨piece, h.rest.symm⟩

theorem skip_eq (h : c.Reads piece d) : c.skip piece.length = d := by
  induction piece generalizing c with
  | nil =>
      obtain ⟨back, rest⟩ := c
      obtain ⟨back', rest'⟩ := d
      obtain ⟨hrest, hback⟩ := h
      simp only [List.nil_append, List.reverse_nil] at hrest hback
      rw [hrest, hback]
      cases rest' <;> rfl
  | cons x piece ih =>
      obtain ⟨back, rest⟩ := c
      obtain ⟨hrest, hback⟩ := h
      simp only [List.cons_append] at hrest
      rw [hrest]
      exact ih ⟨rfl, by simpa using hback⟩

end Reads

theorem reads_skip_one (c : Cursor) : c.Reads (c.rest.take 1) (c.skip 1) := by
  obtain ⟨back, rest⟩ := c
  cases rest with
  | nil => exact Reads.refl _
  | cons x rest => simpa [skip] using Reads.step back rest x

end Cursor

namespace Pattern

/-- The pieces of text that a pattern can cover, whatever stands around them. -/
inductive Spells : Pattern → List Char → Prop
  | empty : Spells .empty []
  | one {accepts : Char → Bool} {x : Char} (h : accepts x = true) : Spells (.one accepts) [x]
  | run {accepts : Char → Bool} {piece : List Char} (h : ∀ x ∈ piece, accepts x = true) :
      Spells (.run accepts) piece
  | seq {p q : Pattern} {a b : List Char} (hp : Spells p a) (hq : Spells q b) :
      Spells (.seq p q) (a ++ b)
  | altLeft {p q : Pattern} {a : List Char} (h : Spells p a) : Spells (.alt p q) a
  | altRight {p q : Pattern} {a : List Char} (h : Spells q a) : Spells (.alt p q) a
  | manyNil {p : Pattern} : Spells (.many p) []
  | manyCons {p : Pattern} {a b : List Char} (hp : Spells p a) (hmany : Spells (.many p) b) :
      Spells (.many p) (a ++ b)
  | wordEdge : Spells .wordEdge []
  | notAfter {rejects : Char → Bool} : Spells (.notAfter rejects) []
  | notBefore {p : Pattern} : Spells (.notBefore p) []
  | atEnd : Spells .atEnd []

theorem spells_empty_iff {w : List Char} : Pattern.empty.Spells w ↔ w = [] := by
  constructor
  · rintro ⟨⟩
    rfl
  · rintro rfl
    exact .empty

theorem spells_one_iff {accepts : Char → Bool} {w : List Char} :
    (one accepts).Spells w ↔ ∃ x, w = [x] ∧ accepts x = true := by
  constructor
  · intro h
    cases h with
    | one hx => exact ⟨_, rfl, hx⟩
  · rintro ⟨x, rfl, hx⟩
    exact .one hx

theorem spells_run_iff {accepts : Char → Bool} {w : List Char} :
    (run accepts).Spells w ↔ ∀ x ∈ w, accepts x = true := by
  constructor
  · intro h
    cases h with
    | run hall => exact hall
  · exact .run

theorem spells_seq_iff {p q : Pattern} {w : List Char} :
    (seq p q).Spells w ↔ ∃ a b, w = a ++ b ∧ p.Spells a ∧ q.Spells b := by
  constructor
  · intro h
    cases h with
    | seq hp hq => exact ⟨_, _, rfl, hp, hq⟩
  · rintro ⟨a, b, rfl, hp, hq⟩
    exact .seq hp hq

theorem spells_alt_iff {p q : Pattern} {w : List Char} :
    (alt p q).Spells w ↔ p.Spells w ∨ q.Spells w := by
  constructor
  · intro h
    cases h with
    | altLeft hp => exact .inl hp
    | altRight hq => exact .inr hq
  · rintro (hp | hq)
    · exact .altLeft hp
    · exact .altRight hq

/-- A word is spelled letter by letter. -/
theorem spells_word_iff {letters : String} {w : List Char} :
    (word letters).Spells w ↔
      List.Forall₂ (fun x c => sameLetter x c = true) letters.toList w := by
  have hall : ∀ (xs w : List Char), (all (xs.map fun x => one (sameLetter x))).Spells w ↔
      List.Forall₂ (fun x c => sameLetter x c = true) xs w := by
    intro xs
    induction xs with
    | nil =>
        intro w
        constructor
        · intro h
          cases h with
          | empty => exact .nil
        · intro h
          cases h with
          | nil => exact .empty
    | cons x later ih =>
        intro w
        cases later with
        | nil =>
            rw [List.forall₂_cons_left_iff]
            simp [all, spells_one_iff, and_comm]
        | cons y later =>
            have hseq : all ((x :: y :: later).map fun x => one (sameLetter x)) =
                seq (one (sameLetter x)) (all ((y :: later).map fun x => one (sameLetter x))) := rfl
            rw [hseq, spells_seq_iff, List.forall₂_cons_left_iff]
            constructor
            · rintro ⟨a, b, rfl, ha, hb⟩
              obtain ⟨c, rfl, hc⟩ := spells_one_iff.mp ha
              exact ⟨c, b, hc, (ih b).mp hb, rfl⟩
            · rintro ⟨c, b, hc, hb, rfl⟩
              exact ⟨[c], b, rfl, .one hc, (ih b).mpr hb⟩
  exact hall letters.toList w

theorem Spells.many_mono {p q : Pattern} (hpq : ∀ a, p.Spells a → q.Spells a) {w : List Char}
    (h : (many p).Spells w) : (many q).Spells w := by
  generalize hmany : many p = r at h
  induction h with
  | manyNil => exact .manyNil
  | manyCons hfirst _ _ ih =>
      cases hmany
      exact .manyCons (hpq _ hfirst) (ih rfl)
  | _ => cases hmany

/-! ### Every end of a match lies after a spelled piece -/

theorem exists_reads_of_mem_runEnds {accepts : Char → Bool} {back rest : List Char}
    {nearer : List Cursor} {d : Cursor} (h : d ∈ runEnds accepts back rest nearer) :
    d ∈ nearer ∨
      ∃ piece, (∀ x ∈ piece, accepts x = true) ∧ Cursor.Reads ⟨back, rest⟩ piece d := by
  fun_induction runEnds accepts back rest nearer with
  | case1 back nearer =>
      rcases List.mem_cons.mp h with rfl | hnear
      · exact .inr ⟨[], by simp, Cursor.Reads.refl _⟩
      · exact .inl hnear
  | case2 back x rest nearer hx ih =>
      rcases ih h with hmem | ⟨piece, hall, hreads⟩
      · rcases List.mem_cons.mp hmem with rfl | hnear
        · exact .inr ⟨[], by simp, Cursor.Reads.refl _⟩
        · exact .inl hnear
      · refine .inr ⟨x :: piece, ?_, (Cursor.Reads.step back rest x).trans hreads⟩
        intro y hy
        rcases List.mem_cons.mp hy with rfl | hy
        · exact hx
        · exact hall y hy
  | case3 back x rest nearer hx =>
      rcases List.mem_cons.mp h with rfl | hnear
      · exact .inr ⟨[], by simp, Cursor.Reads.refl _⟩
      · exact .inl hnear

theorem exists_spells_of_mem_manyEnds {p : Pattern}
    (ih : ∀ {c d : Cursor}, d ∈ p.ends c → ∃ piece, p.Spells piece ∧ c.Reads piece d)
    {left : List Char} {c d : Cursor} (h : d ∈ manyEnds p.ends left c) :
    ∃ piece, (Pattern.many p).Spells piece ∧ c.Reads piece d := by
  induction left generalizing c with
  | nil =>
      have hd : d = c := by simpa [manyEnds] using h
      exact ⟨[], .manyNil, hd ▸ Cursor.Reads.refl c⟩
  | cons _ left ihLeft =>
      rcases List.mem_append.mp h with hstep | hstop
      · obtain ⟨middle, hmiddle, hlater⟩ := List.mem_flatMap.mp hstep
        obtain ⟨first, hfirst, hreads⟩ := ih hmiddle
        obtain ⟨later, hmany, hreads'⟩ := ihLeft hlater
        exact ⟨first ++ later, .manyCons hfirst hmany, hreads.trans hreads'⟩
      · have hd : d = c := by simpa using hstop
        exact ⟨[], .manyNil, hd ▸ Cursor.Reads.refl c⟩

/-- A match moves over a piece that the pattern spells. -/
theorem exists_spells_of_mem_ends {p : Pattern} {c d : Cursor} (h : d ∈ p.ends c) :
    ∃ piece, p.Spells piece ∧ c.Reads piece d := by
  induction p generalizing c d with
  | empty =>
      have hd : d = c := by simpa [ends] using h
      exact ⟨[], .empty, hd ▸ Cursor.Reads.refl c⟩
  | one accepts =>
      obtain ⟨back, rest⟩ := c
      cases rest with
      | nil => simp [ends] at h
      | cons x rest =>
          by_cases hx : accepts x = true
          · have hd : d = ⟨x :: back, rest⟩ := by simpa [ends, hx] using h
            exact ⟨[x], .one hx, hd ▸ Cursor.Reads.step back rest x⟩
          · simp [ends, hx] at h
  | run accepts =>
      obtain ⟨back, rest⟩ := c
      rcases exists_reads_of_mem_runEnds h with hnil | ⟨piece, hall, hreads⟩
      · simp at hnil
      · exact ⟨piece, .run hall, hreads⟩
  | seq p q ihp ihq =>
      obtain ⟨middle, hmiddle, hlater⟩ := List.mem_flatMap.mp h
      obtain ⟨first, hfirst, hreads⟩ := ihp hmiddle
      obtain ⟨later, hlaterSpelled, hreads'⟩ := ihq hlater
      exact ⟨first ++ later, .seq hfirst hlaterSpelled, hreads.trans hreads'⟩
  | alt p q ihp ihq =>
      rcases List.mem_append.mp h with hp | hq
      · obtain ⟨piece, hspells, hreads⟩ := ihp hp
        exact ⟨piece, .altLeft hspells, hreads⟩
      · obtain ⟨piece, hspells, hreads⟩ := ihq hq
        exact ⟨piece, .altRight hspells, hreads⟩
  | many p ih => exact exists_spells_of_mem_manyEnds ih h
  | wordEdge =>
      have hd : d = c := by
        simp only [ends] at h
        split at h
        · simpa using h
        · simp at h
      exact ⟨[], .wordEdge, hd ▸ Cursor.Reads.refl c⟩
  | notAfter rejects =>
      have hd : d = c := by
        simp only [ends] at h
        split at h
        · simp at h
        · simpa using h
      exact ⟨[], .notAfter, hd ▸ Cursor.Reads.refl c⟩
  | notBefore p _ =>
      have hd : d = c := by
        simp only [ends] at h
        split at h
        · simpa using h
        · simp at h
      exact ⟨[], .notBefore, hd ▸ Cursor.Reads.refl c⟩
  | atEnd =>
      have hd : d = c := by
        simp only [ends] at h
        split at h
        · simpa using h
        · simp at h
      exact ⟨[], .atEnd, hd ▸ Cursor.Reads.refl c⟩

/-! ### The last character of a piece -/

/-- Whether every piece that a pattern covers has a character. -/
def consumes : Pattern → Bool
  | one _ => true
  | seq p q => p.consumes || q.consumes
  | alt p q => p.consumes && q.consumes
  | _ => false

theorem Spells.ne_nil {p : Pattern} {piece : List Char} (h : p.Spells piece)
    (hconsumes : p.consumes = true) : piece ≠ [] := by
  induction h with
  | one _ => simp
  | seq _ _ ihp ihq =>
      rcases Bool.or_eq_true_iff.mp hconsumes with hp | hq
      · exact List.append_ne_nil_of_left_ne_nil (ihp hp) _
      · exact List.append_ne_nil_of_right_ne_nil _ (ihq hq)
  | altLeft _ ih => exact ih (Bool.and_eq_true_iff.mp hconsumes).1
  | altRight _ ih => exact ih (Bool.and_eq_true_iff.mp hconsumes).2
  | _ => exact absurd hconsumes Bool.false_ne_true

/-- Whether no piece that a pattern covers ends with one of the given characters. -/
def endsOutside (marks : List Char) : Pattern → Bool
  | one accepts => marks.all (!accepts ·)
  | run accepts => marks.all (!accepts ·)
  | seq p q => q.endsOutside marks && (q.consumes || p.endsOutside marks)
  | alt p q => p.endsOutside marks && q.endsOutside marks
  | many p => p.endsOutside marks
  | _ => true

theorem notMem_of_all_not {marks : List Char} {accepts : Char → Bool}
    (h : marks.all (!accepts ·) = true) {x : Char} (hx : accepts x = true) : x ∉ marks := by
  intro hmark
  have hnot := List.all_eq_true.mp h x hmark
  simp [hx] at hnot

theorem Spells.last_notMem {marks : List Char} {p : Pattern} {piece : List Char}
    (h : p.Spells piece) (hends : p.endsOutside marks = true) :
    ∀ x ∈ piece.getLast?, x ∉ marks := by
  induction h with
  | one hx =>
      intro x hlast
      obtain rfl := by simpa using hlast
      exact notMem_of_all_not hends hx
  | run hall =>
      intro x hlast
      exact notMem_of_all_not hends (hall x (List.mem_of_getLast? hlast))
  | @seq p q a b hp hq ihp ihq =>
      obtain ⟨hsecond, hfirst⟩ := Bool.and_eq_true_iff.mp hends
      rw [List.getLast?_append]
      cases hb : b.getLast? with
      | some y => simpa [hb] using ihq hsecond
      | none =>
          rcases Bool.or_eq_true_iff.mp hfirst with hconsumes | hends
          · exact absurd (List.getLast?_eq_none_iff.mp hb) (hq.ne_nil hconsumes)
          · simpa using ihp hends
  | altLeft _ ih => exact ih (Bool.and_eq_true_iff.mp hends).1
  | altRight _ ih => exact ih (Bool.and_eq_true_iff.mp hends).2
  | @manyCons p a b _ _ ihp ihmany =>
      rw [List.getLast?_append]
      cases hb : b.getLast? with
      | some y => simpa [hb] using ihmany hends
      | none => simpa using ihp hends
  | _ => simp

/-! ### Patterns that do not look around -/

/-- Whether a pattern looks only at the piece that it covers. -/
def isFree : Pattern → Bool
  | empty => true
  | one _ => true
  | run _ => true
  | seq p q => p.isFree && q.isFree
  | alt p q => p.isFree && q.isFree
  | many p => p.isFree
  | wordEdge => false
  | notAfter _ => false
  | notBefore _ => false
  | atEnd => false

theorem mem_runEnds_of_mem {accepts : Char → Bool} {back rest : List Char}
    {nearer : List Cursor} {d : Cursor} (h : d ∈ nearer) :
    d ∈ runEnds accepts back rest nearer := by
  fun_induction runEnds accepts back rest nearer with
  | case1 => exact List.mem_cons_of_mem _ h
  | case2 back x rest nearer hx ih => exact ih (List.mem_cons_of_mem _ h)
  | case3 => exact List.mem_cons_of_mem _ h

theorem mem_runEnds {accepts : Char → Bool} {piece : List Char}
    (h : ∀ x ∈ piece, accepts x = true) (back rest : List Char) (nearer : List Cursor) :
    (⟨piece.reverse ++ back, rest⟩ : Cursor) ∈ runEnds accepts back (piece ++ rest) nearer := by
  induction piece generalizing back nearer with
  | nil =>
      cases rest with
      | nil => simp [runEnds]
      | cons x rest =>
          by_cases hx : accepts x = true
          · simp only [List.reverse_nil, List.nil_append, runEnds, hx, if_true]
            exact mem_runEnds_of_mem List.mem_cons_self
          · simp [runEnds, hx]
  | cons x piece ih =>
      have hx : accepts x = true := h x List.mem_cons_self
      have hlater : ∀ y ∈ piece, accepts y = true := fun y hy => h y (List.mem_cons_of_mem x hy)
      simpa [runEnds, hx] using ih hlater (x :: back) _

theorem mem_manyEnds_of_length_le {step : Cursor → List Cursor} {left left' : List Char}
    (hle : left.length ≤ left'.length) {c d : Cursor} (h : d ∈ manyEnds step left c) :
    d ∈ manyEnds step left' c := by
  induction left generalizing left' c with
  | nil =>
      have hd : d = c := by simpa [manyEnds] using h
      cases left' <;> simp [manyEnds, hd]
  | cons _ left ih =>
      cases left' with
      | nil => simp at hle
      | cons y left' =>
          rcases List.mem_append.mp h with hstep | hstop
          · obtain ⟨middle, hmiddle, hlater⟩ := List.mem_flatMap.mp hstep
            have hle' : left.length ≤ left'.length := by simpa using hle
            exact List.mem_append_left _ (List.mem_flatMap.mpr ⟨middle, hmiddle, ih hle' hlater⟩)
          · exact List.mem_append_right _ hstop

/-- A free pattern can end after every piece that it spells. -/
theorem mem_ends_of_spells {p : Pattern} {piece : List Char} (hspells : p.Spells piece)
    (hfree : p.isFree = true) (back rest : List Char) :
    (⟨piece.reverse ++ back, rest⟩ : Cursor) ∈ p.ends ⟨back, piece ++ rest⟩ := by
  induction hspells generalizing back rest with
  | empty => simp [ends]
  | one hx => simp [ends, hx]
  | run hall => exact mem_runEnds hall back rest []
  | @seq p q a b _ _ ihp ihq =>
      obtain ⟨hp, hq⟩ : p.isFree = true ∧ q.isFree = true := by simpa [isFree] using hfree
      have hfirst := ihp hp back (b ++ rest)
      have hlater := ihq hq (a.reverse ++ back) rest
      simp only [ends, List.append_assoc, List.reverse_append]
      exact List.mem_flatMap.mpr ⟨_, hfirst, hlater⟩
  | @altLeft p q a _ ih =>
      obtain ⟨hp, -⟩ : p.isFree = true ∧ q.isFree = true := by simpa [isFree] using hfree
      exact List.mem_append_left _ (ih hp back rest)
  | @altRight p q a _ ih =>
      obtain ⟨-, hq⟩ : p.isFree = true ∧ q.isFree = true := by simpa [isFree] using hfree
      exact List.mem_append_right _ (ih hq back rest)
  | @manyNil p =>
      cases rest <;> simp [ends, manyEnds]
  | @manyCons p a b _ _ ihp ihmany =>
      have hlater := ihmany hfree (a.reverse ++ back) rest
      cases a with
      | nil => simpa using hlater
      | cons x a =>
          -- The first step covers a character at least, so one unit of the bound is enough for it.
          have hfirst := ihp (by simpa [isFree] using hfree) back (b ++ rest)
          have hle : (b ++ rest).length ≤ (a ++ (b ++ rest)).length := by simp
          have hback : (x :: a ++ b).reverse ++ back = b.reverse ++ ((x :: a).reverse ++ back) := by
            simp
          rw [hback, List.append_assoc]
          refine List.mem_append_left _ (List.mem_flatMap.mpr ⟨_, hfirst, ?_⟩)
          exact mem_manyEnds_of_length_le hle hlater
  | wordEdge => simp [isFree] at hfree
  | notAfter => simp [isFree] at hfree
  | notBefore => simp [isFree] at hfree
  | atEnd => simp [isFree] at hfree

/-- Whether a pattern matches a text from its start to its end. -/
def matchesWhole (p : Pattern) (text : List Char) : Bool :=
  (p.ends (.start text)).any (·.rest.isEmpty)

theorem matchesWhole_iff {p : Pattern} (hfree : p.isFree = true) {text : List Char} :
    p.matchesWhole text = true ↔ p.Spells text := by
  constructor
  · intro h
    obtain ⟨d, hd, hend⟩ := List.any_eq_true.mp h
    obtain ⟨piece, hspells, hreads⟩ := exists_spells_of_mem_ends hd
    have hrest : d.rest = [] := by simpa using hend
    have htext : text = piece := by simpa [Cursor.start, hrest] using hreads.rest
    exact htext ▸ hspells
  · intro h
    have hmem := mem_ends_of_spells h hfree [] []
    rw [List.append_nil] at hmem
    exact List.any_eq_true.mpr ⟨_, hmem, rfl⟩

end Pattern

end ScriptGraph.Text
