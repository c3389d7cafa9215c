import Mathlib.Data.List.TakeWhile
import ScriptGraph.Name
import ScriptGraph.Proofs.Text.Hits

/-!
# Tokens

The tokens of a text are its maximal runs of name characters.  Where two pieces meet, they keep
their tokens unless a name character stands on both sides; then two tokens become one.  A rule whose
trail starts and ends with other characters cuts a text into pieces without touching a token, so the
only harm that reducing the text can do is to join two pieces in this way.
-/

namespace ScriptGraph.Text

open Name
open scoped List

/-- The maximal runs of name characters of a text. -/
def tokens (text : List Char) : List (List Char) :=
  match text with
  | [] => []
  | x :: rest =>
      if isNameChar x then
        (x :: rest.takeWhile isNameChar) :: tokens (rest.dropWhile isNameChar)
      else tokens rest
termination_by text.length
decreasing_by
  · have hle := (List.dropWhile_suffix (l := rest) isNameChar).length_le
    simp only [List.length_cons]
    omega
  · simp

/-- Whether the last character of a piece and the first of the next one are both name
characters. -/
def joins (piece next : List Char) : Bool :=
  piece.getLast?.any isNameChar && next.head?.any isNameChar

/-- The number of places where pieces that are put together join two tokens. -/
def fusions : List (List Char) → Nat
  | [] => 0
  | piece :: later => (joins piece later.flatten).toNat + fusions later

/-! ### Tokens of pieces -/

@[simp]
theorem tokens_nil : tokens [] = [] := by
  rw [tokens]

theorem tokens_cons_of_other {x : Char} (h : isNameChar x = false) (rest : List Char) :
    tokens (x :: rest) = tokens rest := by
  rw [tokens, h]
  rfl

theorem tokens_cons_of_name {x : Char} (h : isNameChar x = true) (rest : List Char) :
    tokens (x :: rest) =
      (x :: rest.takeWhile isNameChar) :: tokens (rest.dropWhile isNameChar) := by
  rw [tokens, if_pos h]

theorem joins_append_left {a b : List Char} (c : List Char) (h : b ≠ []) :
    joins (a ++ b) c = joins b c := by
  rw [joins, joins, List.getLast?_append, Option.or_of_isSome (by simpa using h)]

theorem joins_of_head {piece next : List Char} (h : ∀ x ∈ next.head?, isNameChar x = false) :
    joins piece next = false := by
  cases next with
  | nil => simp [joins]
  | cons x next => simp [joins, h x rfl]

theorem joins_of_getLast {piece next : List Char}
    (h : ∀ x ∈ piece.getLast?, isNameChar x = false) : joins piece next = false := by
  cases hlast : piece.getLast? with
  | none => simp [joins, hlast]
  | some x => simp [joins, hlast, h x hlast]

theorem isNameChar_head_of_joins {piece next : List Char}
    (hpiece : ∀ x ∈ piece, isNameChar x = true) (hne : piece ≠ []) (h : joins piece next = false) :
    ∀ x ∈ next.head?, isNameChar x = false := by
  intro x hx
  have hlast : isNameChar (piece.getLast hne) = true := hpiece _ (List.getLast_mem hne)
  simpa [joins, List.getLast?_eq_some_getLast hne, hlast, Option.mem_def.mp hx] using h

theorem takeWhile_append_of_head {accepts : Char → Bool} {piece rest : List Char}
    (hpiece : ∀ x ∈ piece, accepts x = true) (hrest : ∀ x ∈ rest.head?, accepts x = false) :
    (piece ++ rest).takeWhile accepts = piece := by
  rw [List.takeWhile_append_of_pos hpiece]
  cases rest with
  | nil => simp
  | cons x rest => simp [hrest x rfl]

theorem joins_suffix {a b c : List Char} (h : joins (a ++ b) c = false) : joins b c = false := by
  by_cases hb : b = []
  · rw [hb]
    rfl
  · rwa [joins_append_left c hb] at h

theorem tokens_append {a b : List Char} (h : joins a b = false) :
    tokens (a ++ b) = tokens a ++ tokens b := by
  fun_induction tokens a with
  | case1 => rfl
  | case2 x rest hx ih =>
      rw [List.cons_append, tokens_cons_of_name hx, List.cons_append]
      by_cases hall : ∀ y ∈ rest, isNameChar y = true
      · -- All of `a` is one run, and the run ends with `a`.
        have hlast : (x :: rest).getLast?.any isNameChar = true := by
          rw [List.getLast?_eq_some_getLast (List.cons_ne_nil x rest), Option.any_some]
          rcases List.mem_cons.mp (List.getLast_mem (List.cons_ne_nil x rest)) with hfirst | hlater
          · rw [hfirst, hx]
          · exact hall _ hlater
        have hhead : b.head?.any isNameChar = false := by simpa [joins, hlast] using h
        have hstops : b.takeWhile isNameChar = [] ∧ b.dropWhile isNameChar = b := by
          cases b with
          | nil => exact ⟨rfl, rfl⟩
          | cons y b =>
              have hy : isNameChar y = false := by simpa using hhead
              simp [hy]
        rw [List.takeWhile_append_of_pos hall, List.dropWhile_append_of_pos hall, hstops.1,
          hstops.2, List.append_nil, List.takeWhile_eq_self_iff.mpr hall,
          List.dropWhile_eq_nil_iff.mpr hall, tokens_nil, List.nil_append]
      · have hleft : rest.dropWhile isNameChar ≠ [] := by
          intro hnil
          exact hall (List.dropWhile_eq_nil_iff.mp hnil)
        have hsplit := List.takeWhile_append_dropWhile (p := isNameChar) (l := rest)
        have hlength : (rest.takeWhile isNameChar).length ≠ rest.length := by
          intro heq
          exact hall (List.takeWhile_eq_self_iff.mp
            ((List.takeWhile_prefix isNameChar).eq_of_length heq))
        have hjoins : joins (rest.dropWhile isNameChar) b = false := by
          apply joins_suffix (a := x :: rest.takeWhile isNameChar)
          rwa [List.cons_append, hsplit]
        rw [List.takeWhile_append, if_neg hlength, List.dropWhile_append,
          if_neg (by simpa using hleft), ih hjoins]
  | case3 x rest hx ih =>
      have hother : isNameChar x = false := by simpa using hx
      rw [List.cons_append, tokens_cons_of_other hother]
      exact ih (joins_suffix (a := [x]) h)

theorem tokens_append_cons {x : Char} (h : isNameChar x = false) (a b : List Char) :
    tokens (a ++ x :: b) = tokens a ++ tokens b := by
  have hjoins : joins a (x :: b) = false := by
    apply joins_of_head
    rintro _ ⟨⟩
    exact h
  rw [tokens_append hjoins, tokens_cons_of_other h]

/-- A token starts with a name character that no other name character stands before. -/
theorem length_tokens_cons (x : Char) (rest : List Char) :
    (tokens (x :: rest)).length + (joins [x] rest).toNat =
      (tokens [x]).length + (tokens rest).length := by
  cases hx : isNameChar x with
  | false => simp [tokens_cons_of_other hx, joins, hx]
  | true =>
      cases rest with
      | nil => simp [joins]
      | cons y rest =>
          cases hy : isNameChar y with
          | false =>
              simp [tokens_cons_of_name hx, tokens_cons_of_other hy, joins, hx, hy]
              omega
          | true =>
              simp [tokens_cons_of_name hx, tokens_cons_of_name hy, joins, hx, hy]
              omega

theorem length_tokens_append (a b : List Char) :
    (tokens (a ++ b)).length + (joins a b).toNat = (tokens a).length + (tokens b).length := by
  induction a with
  | nil => simp [joins]
  | cons x rest ih =>
      have hwhole := length_tokens_cons x (rest ++ b)
      have hpiece := length_tokens_cons x rest
      cases rest with
      | nil =>
          simp at *
          omega
      | cons y rest =>
          have hjoins : joins (x :: y :: rest) b = joins (y :: rest) b :=
            joins_append_left (a := [x]) b (List.cons_ne_nil y rest)
          have hstart : joins [x] (y :: rest ++ b) = joins [x] (y :: rest) := rfl
          rw [hstart] at hwhole
          rw [hjoins, List.cons_append]
          omega

theorem length_tokens_flatten (pieces : List (List Char)) :
    (tokens pieces.flatten).length + fusions pieces = (pieces.flatMap tokens).length := by
  induction pieces with
  | nil => simp [fusions]
  | cons piece later ih =>
      have hjoint := length_tokens_append piece later.flatten
      rw [List.flatten_cons, fusions, List.flatMap_cons, List.length_append]
      omega

/-- Pieces keep their tokens when they are put together exactly if no two of them join. -/
theorem tokens_flatten_eq_iff (pieces : List (List Char)) :
    tokens pieces.flatten = pieces.flatMap tokens ↔ fusions pieces = 0 := by
  constructor
  · intro h
    have hlength := length_tokens_flatten pieces
    rw [h] at hlength
    omega
  · intro h
    induction pieces with
    | nil => exact tokens_nil
    | cons piece later ih =>
        obtain ⟨hjoint, hlater⟩ : joins piece later.flatten = false ∧ fusions later = 0 := by
          simpa [fusions] using h
        rw [List.flatten_cons, tokens_append hjoint, ih hlater, List.flatMap_cons]

/-- A cut between pieces that leaves the tokens on both sides whole. -/
theorem tokens_append_cut {cut : List Char} (hcut : cut ≠ [])
    (hhead : ∀ x ∈ cut.head?, isNameChar x = false)
    (hlast : ∀ x ∈ cut.getLast?, isNameChar x = false) (a b : List Char) :
    tokens (a ++ (cut ++ b)) = tokens a ++ (tokens cut ++ tokens b) := by
  have hbefore : joins a (cut ++ b) = false := by
    apply joins_of_head
    rwa [List.head?_append, Option.or_of_isSome (by simpa using hcut)]
  rw [tokens_append hbefore, tokens_append (joins_of_getLast hlast)]

/-! ### Rules that cut a text into pieces -/

namespace Rule

/-- The pieces that are left when the trail of every match from a place on is cut out. -/
def piecesFrom (r : Rule) : List Char → Cursor → List (List Char)
  | [], c => [c.rest]
  | _ :: left, c =>
      match r.hit? c, c.rest with
      | some h, _ => h.body :: piecesFrom r left h.stop
      | none, [] => [[]]
      | none, x :: rest => (piecesFrom r left ⟨x :: c.back, rest⟩).modifyHead (x :: ·)

/-- The pieces of a text that are left when the trail of every match is cut out. -/
def pieces (r : Rule) (text : List Char) : List (List Char) := r.piecesFrom text (.start text)

/-- A rule that takes out nothing but its trail, which starts and ends with characters that belong
to no token. -/
structure CutsBetweenTokens (r : Rule) : Prop where
  lead : ∀ piece, r.lead.Spells piece → piece = []
  trail_ne_nil : ∀ piece, r.trail.Spells piece → piece ≠ []
  trail_head : ∀ piece, r.trail.Spells piece → ∀ x ∈ piece.head?, isNameChar x = false
  trail_getLast : ∀ piece, r.trail.Spells piece → ∀ x ∈ piece.getLast?, isNameChar x = false

variable {r : Rule}

theorem piecesFrom_ne_nil (left : List Char) (c : Cursor) : r.piecesFrom left c ≠ [] := by
  fun_induction piecesFrom r left c with
  | case1 => simp
  | case2 => simp
  | case3 => simp
  | case4 _ _ _ _ _ _ _ ih => simpa [List.modifyHead_eq_nil_iff] using ih

theorem flatten_piecesFrom (left : List Char) (c : Cursor) :
    (r.piecesFrom left c).flatten = r.reduceFrom left c := by
  fun_induction piecesFrom r left c with
  | case1 c => simp [reduceFrom]
  | case2 _ left c h hhit ih => simp [reduceFrom, hhit, ih]
  | case3 _ left c hrest hhit => simp [reduceFrom, hhit, hrest]
  | case4 _ left c x rest hrest hhit ih =>
      obtain ⟨piece, later, hpieces⟩ := List.exists_cons_of_ne_nil
        (piecesFrom_ne_nil (r := r) left ⟨x :: c.back, rest⟩)
      simp only [reduceFrom, hhit, hrest, ← ih, hpieces, List.modifyHead_cons, List.flatten_cons,
        List.cons_append]

theorem modifyHead_nil_append (pieces : List (List Char)) :
    pieces.modifyHead ([] ++ ·) = pieces := by
  cases pieces <;> rfl

theorem flatten_pieces (r : Rule) (text : List Char) : (r.pieces text).flatten = r.reduce text :=
  flatten_piecesFrom text (.start text)

namespace CutsBetweenTokens

/-- The tokens of the pieces are tokens of the text.  The characters before the place that go with
the first piece are part of the induction, since a token may have started there. -/
theorem flatMap_tokens_piecesFrom_sublist (hcuts : r.CutsBetweenTokens) (left : List Char)
    (c : Cursor) (before : List Char) :
    ((r.piecesFrom left c).modifyHead (before ++ ·)).flatMap tokens <+
      tokens (before ++ c.rest) := by
  fun_induction piecesFrom r left c generalizing before with
  | case1 c => simp
  | case2 _ left c h hhit ih =>
      obtain ⟨lead, trail, hlead, -, htrail, hreadsLead, hreadsBody, hreadsTrail⟩ :=
        exists_parts_of_hit? hhit
      obtain rfl := hcuts.lead lead hlead
      have hlater : (r.piecesFrom left h.stop).flatMap tokens <+ tokens h.stop.rest := by
        have hsublist := ih []
        rwa [modifyHead_nil_append] at hsublist
      have hrest : before ++ c.rest = (before ++ h.body) ++ (trail ++ h.stop.rest) := by
        rw [hreadsLead.rest, hreadsBody.rest, hreadsTrail.rest, List.nil_append, List.append_assoc]
      rw [hrest, tokens_append_cut (hcuts.trail_ne_nil trail htrail)
        (hcuts.trail_head trail htrail) (hcuts.trail_getLast trail htrail), List.modifyHead_cons,
        List.flatMap_cons]
      exact (hlater.trans (List.sublist_append_right _ _)).append_left _
  | case3 _ left c hrest hhit => simp [hrest]
  | case4 _ left c x rest hrest hhit ih =>
      have hlater := ih (before ++ [x])
      rw [List.modifyHead_modifyHead, hrest]
      simpa only [List.append_assoc, List.singleton_append, Function.comp_def] using hlater

theorem flatMap_tokens_pieces_sublist (hcuts : r.CutsBetweenTokens) (text : List Char) :
    (r.pieces text).flatMap tokens <+ tokens text := by
  have hsublist := hcuts.flatMap_tokens_piecesFrom_sublist text (.start text) []
  rwa [modifyHead_nil_append] at hsublist

theorem tokens_reduce_sublist (hcuts : r.CutsBetweenTokens) {text : List Char}
    (h : fusions (r.pieces text) = 0) : tokens (r.reduce text) <+ tokens text := by
  have hpieces := (tokens_flatten_eq_iff (r.pieces text)).mpr h
  rw [← flatten_pieces, hpieces]
  exact hcuts.flatMap_tokens_pieces_sublist text

end CutsBetweenTokens

end Rule

end ScriptGraph.Text
