import ScriptGraph.Proofs.Name
import ScriptGraph.Proofs.Text.Framing
import ScriptGraph.Proofs.Text.Tokens

/-!
# Preferred matches

A pattern can match in several ways at a place, and the preferred one decides.  `Pattern.Takes` says
which piece of text the preferred match covers.  A sequence takes what its parts take one after the
other, and a run takes all it can, so what follows must not continue it.  The preferred match of a
rule is put together from what its parts take.
-/

namespace ScriptGraph.Text

theorem head?_flatMap_of_head? {α β : Type} {l : List α} {f : α → List β} {a : α} {b : β}
    (ha : l.head? = some a) (hb : (f a).head? = some b) : (l.flatMap f).head? = some b := by
  obtain ⟨later, rfl⟩ := List.head?_eq_some_iff.mp ha
  rw [List.flatMap_cons, List.head?_append, hb, Option.some_or]

namespace Pattern

/-- The preferred match behind `back` covers `piece` and leaves `rest`. -/
def Takes (p : Pattern) (back piece rest : List Char) : Prop :=
  (p.ends ⟨back, piece ++ rest⟩).head? = some ⟨piece.reverse ++ back, rest⟩

namespace Takes

variable {p q : Pattern} {accepts : Char → Bool} {back piece rest : List Char}

theorem empty : Pattern.empty.Takes back [] rest := rfl

theorem one {x : Char} (hx : accepts x = true) : (Pattern.one accepts).Takes back [x] rest := by
  simp [Takes, ends, hx]

theorem char (x : Char) : (Pattern.char x).Takes back [x] rest := one (by simp)

theorem seq {a b : List Char} (hp : p.Takes back a (b ++ rest))
    (hq : q.Takes (a.reverse ++ back) b rest) : (Pattern.seq p q).Takes back (a ++ b) rest := by
  rw [Takes, List.append_assoc, List.reverse_append, List.append_assoc]
  exact head?_flatMap_of_head? hp hq

theorem altLeft (hp : p.Takes back piece rest) : (Pattern.alt p q).Takes back piece rest := by
  rw [Takes, ends, List.head?_append, hp, Option.some_or]

theorem altRight (hnone : p.ends ⟨back, piece ++ rest⟩ = []) (hq : q.Takes back piece rest) :
    (Pattern.alt p q).Takes back piece rest := by
  rw [Takes, ends, hnone]
  exact hq

theorem run (hpiece : ∀ x ∈ piece, accepts x = true)
    (hrest : ∀ x ∈ rest.head?, accepts x = false) :
    (Pattern.run accepts).Takes back piece rest := by
  have hrun : ∀ back nearer, (runEnds accepts back (piece ++ rest) nearer).head? =
      some ⟨piece.reverse ++ back, rest⟩ := by
    induction piece with
    | nil =>
        intro back nearer
        cases rest with
        | nil => rfl
        | cons x rest => simp [runEnds, hrest x rfl]
    | cons x piece ih =>
        intro back nearer
        obtain ⟨hx, hpiece⟩ := List.forall_mem_cons.mp hpiece
        simpa [runEnds, hx] using ih hpiece (x :: back) _
  exact hrun back []

theorem delimited {opening closing : Char} {inner : List Char} (hne : inner ≠ [])
    (hinner : closing ∉ inner) :
    (all [.char opening, .run1 (· != closing), .char closing]).Takes back
      (opening :: (inner ++ [closing])) rest := by
  rw [Takes, List.cons_append, List.append_assoc, ends_delimited_cons, if_pos rfl]
  rw [List.singleton_append, ends_closing hinner, if_neg hne]
  simp

theorem afterEdge {x : Char} (hback : back.head?.any isWord = false) (hx : isWord x = true)
    (hp : p.Takes back (x :: piece) rest) :
    (Pattern.seq .wordEdge p).Takes back (x :: piece) rest := by
  have hedge : Pattern.wordEdge.Takes back [] (x :: piece ++ rest) := by
    simp [Takes, ends, isWordEdge, hback, hx]
  exact hedge.seq hp

theorem word {letters : String} (h : (Pattern.word letters).Spells piece) :
    (Pattern.word letters).Takes back piece rest := by
  have hall : ∀ (xs piece back : List Char),
      List.Forall₂ (fun x c => sameLetter x c = true) xs piece →
        (all (xs.map fun x => .one (sameLetter x))).Takes back piece rest := by
    intro xs
    induction xs with
    | nil =>
        rintro piece back ⟨⟩
        exact empty
    | cons x later ih =>
        rintro piece back (_ | ⟨hx, hpiece⟩)
        cases later with
        | nil =>
            cases hpiece
            exact one hx
        | cons y later => exact (one hx).seq (ih _ _ hpiece)
  exact hall _ _ _ (spells_word_iff.mp h)

end Takes

end Pattern

namespace Rule

variable {r : Rule}

theorem exists_hit?_of_takes {back lead body trail rest : List Char}
    (hlead : r.lead.Takes back lead (body ++ (trail ++ rest)))
    (hbody : r.body.Takes (lead.reverse ++ back) body (trail ++ rest))
    (htrail : r.trail.Takes (body.reverse ++ (lead.reverse ++ back)) trail rest) :
    ∃ h, r.hit? ⟨back, lead ++ (body ++ (trail ++ rest))⟩ = some h ∧ h.body = body ∧
      h.stop = ⟨trail.reverse ++ (body.reverse ++ (lead.reverse ++ back)), rest⟩ := by
  have hreads : Cursor.Reads ⟨lead.reverse ++ back, body ++ (trail ++ rest)⟩ body
      ⟨body.reverse ++ (lead.reverse ++ back), trail ++ rest⟩ := ⟨rfl, rfl⟩
  refine ⟨⟨⟨back, lead ++ (body ++ (trail ++ rest))⟩, _, _, _⟩,
    head?_flatMap_of_head? hlead (head?_flatMap_of_head? hbody ?_), hreads.upTo_eq, rfl⟩
  rw [List.head?_map, htrail]
  rfl

theorem exists_hit?_of_takes_body {back lead body rest : List Char} (htrail : r.trail = .empty)
    (hlead : r.lead.Takes back lead (body ++ rest))
    (hbody : r.body.Takes (lead.reverse ++ back) body rest) :
    ∃ h, r.hit? ⟨back, lead ++ (body ++ rest)⟩ = some h ∧ h.body = body ∧
      h.stop = ⟨body.reverse ++ (lead.reverse ++ back), rest⟩ := by
  have hempty : r.trail.Takes (body.reverse ++ (lead.reverse ++ back)) [] rest := htrail ▸ .empty
  exact exists_hit?_of_takes hlead hbody hempty

end Rule

end ScriptGraph.Text

namespace ScriptGraph.Name

open Text Pattern

theorem map_plainLetter_of_spells_word {letters : String} {w : List Char}
    (h : (word letters).Spells w) : w.map plainLetter = letters.toList.map plainLetter := by
  have hsame : List.Forall₂ (fun x c => plainLetter x = plainLetter c) letters.toList w :=
    (spells_word_iff.mp h).imp fun _ _ hsame => eq_of_beq hsame
  have hmap := List.forall₂_map_left_iff.mpr (List.forall₂_map_right_iff.mpr hsame)
  rw [List.forall₂_eq_eq_eq] at hmap
  exact hmap.symm

theorem isFirstChar_of_spells_word {letters : String} {w : List Char}
    (hletters : letters.toList.all isAsciiLetter = true) (h : (word letters).Spells w) :
    ∀ c ∈ w, isFirstChar c = true := by
  intro c hc
  have hmem : plainLetter c ∈ letters.toList.map plainLetter :=
    map_plainLetter_of_spells_word h ▸ List.mem_map_of_mem hc
  obtain ⟨x, hx, hplain⟩ := List.mem_map.mp hmem
  rw [isFirstChar, ← hplain, isAsciiLetter_plainLetter (List.all_eq_true.mp hletters x hx)]
  rfl

theorem exists_cons_of_spells_word {letters : String} {w : List Char} (hne : letters ≠ "")
    (hletters : letters.toList.all isAsciiLetter = true) (h : (word letters).Spells w) :
    ∃ x later, w = x :: later ∧ isFirstChar x = true := by
  have hfirst := isFirstChar_of_spells_word hletters h
  cases w with
  | nil =>
      have hnil := map_plainLetter_of_spells_word h
      exact absurd (by simpa using hnil.symm) hne
  | cons x later => exact ⟨x, later, rfl, hfirst x List.mem_cons_self⟩

theorem ends_word_eq_nil {letters : String} {x y : Char} {later back rest : List Char}
    (hletters : letters.toList = y :: later) (h : plainLetter x ≠ plainLetter y) :
    (word letters).ends ⟨back, x :: rest⟩ = [] := by
  rw [List.eq_nil_iff_forall_not_mem]
  intro d hd
  obtain ⟨w, hspells, hreads⟩ := exists_spells_of_mem_ends hd
  have hmap := map_plainLetter_of_spells_word hspells
  rw [hletters] at hmap
  obtain ⟨z, w, rfl, hz, -⟩ := List.map_eq_cons_iff.mp hmap
  obtain ⟨rfl, -⟩ : x = z ∧ _ := by simpa using hreads.rest
  exact h hz

theorem identifier_cases {name : List Char} (h : identifier.Spells name) :
    (∃ inner, name = '[' :: (inner ++ [']']) ∧ inner ≠ [] ∧ ']' ∉ inner) ∨
      (∃ inner, name = '"' :: (inner ++ ['"']) ∧ inner ≠ [] ∧ '"' ∉ inner) ∨
        ∃ x inner, name = x :: inner ∧ isFirstChar x = true ∧ ∀ y ∈ inner, isNameChar y = true := by
  simp only [identifier, identifierFrom, Pattern.any] at h
  rcases spells_alt_iff.mp h with hbracket | h
  · exact .inl (exists_of_spells_delimited hbracket)
  · rcases spells_alt_iff.mp h with hquote | hbare
    · exact .inr (.inl (exists_of_spells_delimited hquote))
    · obtain ⟨_, inner, rfl, hfirst, hinner⟩ := spells_seq_iff.mp hbare
      obtain ⟨x, rfl, hx⟩ := spells_one_iff.mp hfirst
      exact .inr (.inr ⟨x, inner, rfl, hx, spells_run_iff.mp hinner⟩)

theorem isBlank_head_of_spells_identifier {name : List Char} (h : identifier.Spells name)
    (rest : List Char) : ∀ x ∈ (name ++ rest).head?, isBlank x = false := by
  obtain ⟨y, later, rfl, hy⟩ := exists_cons_of_spells_identifier h
  rintro x ⟨⟩
  exact hy

theorem isNameChar_of_spells_identifier {name : List Char} (h : identifier.Spells name)
    (hfirst : name.head?.any isFirstChar = true) : ∀ c ∈ name, isNameChar c = true := by
  rcases identifier_cases h with ⟨inner, rfl, -⟩ | ⟨inner, rfl, -⟩ | ⟨x, inner, rfl, hx, hinner⟩
  · have hbracket : isFirstChar '[' = true := hfirst
    exact absurd hbracket (by decide)
  · have hquote : isFirstChar '"' = true := hfirst
    exact absurd hquote (by decide)
  · exact List.forall_mem_cons.mpr ⟨isNameChar_of_isFirstChar hx, hinner⟩

theorem takes_blanks {space back rest : List Char} (h : blanks.Spells space)
    (hrest : ∀ x ∈ rest.head?, isBlank x = false) : blanks.Takes back space rest :=
  .run (spells_run_iff.mp h) hrest

theorem takes_gap {space back rest : List Char} (h : gap.Spells space)
    (hrest : ∀ x ∈ rest.head?, isBlank x = false) : gap.Takes back space rest := by
  obtain ⟨first, later, rfl, hfirst, hlater⟩ := spells_seq_iff.mp h
  obtain ⟨x, rfl, hx⟩ := spells_one_iff.mp hfirst
  exact Takes.seq (.one hx) (.run (spells_run_iff.mp hlater) hrest)

/-- An identifier is taken as a whole unless what follows continues it. -/
theorem takes_identifier {name rest : List Char} (h : identifier.Spells name)
    (hrest : joins name rest = false) (back : List Char) : identifier.Takes back name rest := by
  simp only [identifier, identifierFrom, Pattern.any]
  rcases identifier_cases h with ⟨inner, rfl, hne, hinner⟩ | ⟨inner, rfl, hne, hinner⟩ |
    ⟨x, inner, rfl, hx, hinner⟩
  · exact .altLeft (.delimited hne hinner)
  · exact .altRight (ends_delimited_cons ..) (.altLeft (.delimited hne hinner))
  · have hopening : ∀ opening, isFirstChar opening = false → x ≠ opening := by
      rintro opening hother rfl
      rw [hx] at hother
      cases hother
    have hname := isNameChar_of_spells_identifier h hx
    have hfollowing := isNameChar_head_of_joins hname (List.cons_ne_nil x inner) hrest
    refine .altRight ?_ (.altRight ?_ ?_)
    · exact (ends_delimited_cons ..).trans (if_neg (hopening _ (by decide)))
    · exact (ends_delimited_cons ..).trans (if_neg (hopening _ (by decide)))
    · have hfirst : (Pattern.one isFirstChar).Takes back [x] (inner ++ rest) := .one hx
      exact hfirst.seq (.run hinner hfollowing)

end ScriptGraph.Name
