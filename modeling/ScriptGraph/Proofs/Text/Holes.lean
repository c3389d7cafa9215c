import Mathlib.Data.List.Basic
import ScriptGraph.Proofs.Text.Framing
import ScriptGraph.Text.Blank
import ScriptGraph.Text.Letter

/-!
# Texts in which bracketed names are left open

A list of slots is a text in which the content of some names in brackets is left open.  Most
patterns take a name in brackets as a whole or not at all.  Such a pattern leads from a place
between slots to places between slots, and to the same ones whatever the open names hold: it
traces a path through the slots.  So does a search with a rule, provided that the rule finds
nothing inside the names.
-/

namespace ScriptGraph.Text

def isDelimiter (x : Char) : Bool := x == '[' || x == ']' || x == '"'

/-- What an open name may hold. -/
structure Content where
  chars : List Char
  named : allBlank chars = false
  plain : ∀ x ∈ chars, isDelimiter x = false ∧ x ≠ '.' ∧ x ≠ '(' ∧ x ≠ ')'

namespace Content

theorem plain_of_all {chars : List Char}
    (h : (chars.all fun x => !(isDelimiter x || x == '.' || x == '(' || x == ')')) = true) :
    ∀ x ∈ chars, isDelimiter x = false ∧ x ≠ '.' ∧ x ≠ '(' ∧ x ≠ ')' := by
  simpa [and_assoc] using h

instance : Inhabited Content := ⟨['x'], by decide, by simp [isDelimiter]⟩

variable (content : Content)

theorem chars_ne_nil : content.chars ≠ [] := by
  intro hnil
  have hnamed := content.named
  simp [hnil, allBlank] at hnamed

theorem bracket_notMem : ']' ∉ content.chars := fun hmem =>
  absurd (content.plain _ hmem).1 (by decide)

end Content

/-- A character outside of open names, or an open name. -/
inductive Slot where
  | char (x : Char) (h : isDelimiter x = false)
  | hole

namespace Slot

def text (content : Content) : Slot → List Char
  | char x _ => [x]
  | hole => '[' :: (content.chars ++ [']'])

def fill (content : Content) (slots : List Slot) : List Char := slots.flatMap (text content)

def isChar (accepts : Char → Bool) : Slot → Bool
  | char x _ => accepts x
  | hole => false

def first : Slot → Char
  | char x _ => x
  | hole => '['

def last : Slot → Char
  | char x _ => x
  | hole => ']'

variable {content : Content}

@[simp] theorem fill_nil : fill content [] = [] := rfl

@[simp] theorem fill_char {x : Char} {h : isDelimiter x = false} {slots : List Slot} :
    fill content (char x h :: slots) = x :: fill content slots := rfl

@[simp] theorem fill_hole {slots : List Slot} :
    fill content (hole :: slots) = '[' :: (content.chars ++ ']' :: fill content slots) := by
  simp [fill, text]

theorem fill_cons (s : Slot) (slots : List Slot) :
    fill content (s :: slots) = s.text content ++ fill content slots := rfl

@[simp] theorem fill_append (slots later : List Slot) :
    fill content (slots ++ later) = fill content slots ++ fill content later :=
  List.flatMap_append

theorem length_pos_text (content : Content) (s : Slot) : 0 < (s.text content).length := by
  cases s <;> simp [text]

theorem length_le_length_fill (content : Content) (slots : List Slot) :
    slots.length ≤ (fill content slots).length := by
  induction slots with
  | nil => simp
  | cons s slots ih =>
      have hpos := length_pos_text content s
      rw [fill_cons, List.length_append, List.length_cons]
      omega

theorem fill_eq_nil_iff {slots : List Slot} : fill content slots = [] ↔ slots = [] := by
  constructor
  · intro h
    have hle := length_le_length_fill content slots
    rw [h] at hle
    exact List.length_eq_zero_iff.mp (Nat.le_zero.mp hle)
  · rintro rfl
    rfl

theorem hole_notMem {accepts : Char → Bool} {slots : List Slot}
    (h : ∀ s ∈ slots, s.isChar accepts = true) : hole ∉ slots := by
  intro hmem
  cases h _ hmem

theorem fill_eq_of_hole_notMem {slots : List Slot} (h : hole ∉ slots)
    (content content' : Content) : fill content slots = fill content' slots := by
  induction slots with
  | nil => rfl
  | cons s slots ih =>
      obtain ⟨hs, hslots⟩ : hole ≠ s ∧ hole ∉ slots := by simpa using h
      cases s with
      | char x _ => rw [fill_char, fill_char, ih hslots]
      | hole => exact absurd rfl hs

theorem head?_fill (slots : List Slot) : (fill content slots).head? = slots.head?.map first := by
  cases slots with
  | nil => rfl
  | cons s slots => cases s <;> simp [first]

theorem getLast?_fill (slots : List Slot) :
    (fill content slots).getLast? = slots.getLast?.map last := by
  rcases List.eq_nil_or_concat slots with rfl | ⟨front, s, rfl⟩
  · rfl
  · rw [List.concat_eq_append]
    cases s with
    | char x h => simp [fill, text, last]
    | hole =>
        have hfill : fill content (front ++ [hole]) =
            (fill content front ++ '[' :: content.chars) ++ [']'] := by simp
        rw [hfill, List.getLast?_concat, List.getLast?_concat]
        rfl

end Slot

/-- A place between slots. -/
structure Place where
  back : List Slot
  rest : List Slot

namespace Place

variable {content : Content} {c d e : Place} {w : List Slot}

def fill (content : Content) (c : Place) : Cursor :=
  ⟨(Slot.fill content c.back.reverse).reverse, Slot.fill content c.rest⟩

/-- `d` lies behind `c`, with the slots of `w` between them. -/
structure Reads (c : Place) (w : List Slot) (d : Place) : Prop where
  rest : c.rest = w ++ d.rest
  back : d.back = w.reverse ++ c.back

theorem Reads.refl (c : Place) : c.Reads [] c := ⟨rfl, rfl⟩

theorem Reads.step (back rest : List Slot) (s : Slot) :
    Reads ⟨back, s :: rest⟩ [s] ⟨s :: back, rest⟩ := ⟨rfl, rfl⟩

theorem Reads.trans {w' : List Slot} (h : c.Reads w d) (h' : d.Reads w' e) :
    c.Reads (w ++ w') e := by
  refine ⟨?_, ?_⟩
  · rw [h.rest, h'.rest, List.append_assoc]
  · rw [h'.back, h.back, List.reverse_append, List.append_assoc]

theorem Reads.fill (h : c.Reads w d) (content : Content) :
    (c.fill content).Reads (Slot.fill content w) (d.fill content) := by
  refine ⟨?_, ?_⟩
  · simp [Place.fill, h.rest]
  · simp [Place.fill, h.back]

theorem Reads.length_lt (h : c.Reads w d) (hw : w ≠ []) : d.rest.length < c.rest.length := by
  have hpos := List.length_pos_of_ne_nil hw
  rw [h.rest, List.length_append]
  omega

theorem Reads.length_fill_lt (h : c.Reads w d) (hw : w ≠ []) :
    (d.fill content).rest.length < (c.fill content).rest.length := by
  have hle := Slot.length_le_length_fill content w
  have hpos := List.length_pos_of_ne_nil hw
  rw [(h.fill content).rest, List.length_append]
  omega

theorem fill_step (s : Slot) (back rest : List Slot) :
    fill content ⟨s :: back, rest⟩ =
      ⟨(s.text content).reverse ++ (Slot.fill content back.reverse).reverse,
        Slot.fill content rest⟩ := by
  simp [fill, Slot.fill]

theorem fill_step_char (back rest : List Slot) {x : Char} (h : isDelimiter x = false) :
    fill content ⟨.char x h :: back, rest⟩ =
      ⟨x :: (Slot.fill content back.reverse).reverse, Slot.fill content rest⟩ := by
  simp [fill]

theorem fill_step_hole (back rest : List Slot) :
    fill content ⟨.hole :: back, rest⟩ =
      ⟨']' :: (content.chars.reverse ++ '[' :: (Slot.fill content back.reverse).reverse),
        Slot.fill content rest⟩ := by
  simp [fill]

theorem head?_back_fill (c : Place) :
    (c.fill content).back.head? = c.back.head?.map Slot.last := by
  rw [fill, List.head?_reverse, Slot.getLast?_fill, List.getLast?_reverse]

theorem head?_rest_fill (c : Place) :
    (c.fill content).rest.head? = c.rest.head?.map Slot.first := Slot.head?_fill c.rest

end Place

namespace Pattern

/-- From every place the pattern leads over pieces of a certain kind to places between slots, and to
the same ones whatever the open names hold. -/
def Traces (p : Pattern) (pieces : List Slot → Prop) : Prop :=
  ∀ c : Place, ∃ ends : List Place,
    (∀ content, p.ends (c.fill content) = ends.map (Place.fill content)) ∧
      ∀ d ∈ ends, ∃ w, c.Reads w d ∧ pieces w

namespace Traces

variable {p q : Pattern} {pieces later : List Slot → Prop} {accepts : Char → Bool}

theorem mono (h : p.Traces pieces) (hsub : ∀ w, pieces w → later w) : p.Traces later := by
  intro c
  obtain ⟨ends, hends, hpieces⟩ := h c
  refine ⟨ends, hends, fun d hd => ?_⟩
  obtain ⟨w, hreads, hw⟩ := hpieces d hd
  exact ⟨w, hreads, hsub w hw⟩

/-- A pattern that looks around without moving. -/
theorem of_test (test : Place → Bool)
    (h : ∀ c content, p.ends (c.fill content) = if test c then [c.fill content] else []) :
    p.Traces (· = []) := by
  intro c
  refine ⟨if test c then [c] else [], fun content => ?_, fun d hd => ?_⟩
  · rw [h]
    split <;> rfl
  · split at hd
    · obtain rfl := List.mem_singleton.mp hd
      exact ⟨[], .refl _, rfl⟩
    · simp at hd

theorem empty : Pattern.empty.Traces (· = []) := of_test (fun _ => true) fun _ _ => rfl

theorem wordEdge : Pattern.wordEdge.Traces (· = []) := by
  apply of_test fun c =>
    (c.back.head?.map Slot.last).any isWord != (c.rest.head?.map Slot.first).any isWord
  intro c content
  rw [ends, isWordEdge, Place.head?_back_fill, Place.head?_rest_fill]

theorem notAfter (rejects : Char → Bool) : (Pattern.notAfter rejects).Traces (· = []) := by
  apply of_test fun c => !(c.back.head?.map Slot.last).any rejects
  intro c content
  rw [ends, Place.head?_back_fill]
  cases (c.back.head?.map Slot.last).any rejects <;> rfl

theorem atEnd : Pattern.atEnd.Traces (· = []) := by
  apply of_test fun c => c.rest.isEmpty
  intro c content
  have hempty : (c.fill content).rest.isEmpty = c.rest.isEmpty := by
    rw [Bool.eq_iff_iff, List.isEmpty_iff, List.isEmpty_iff]
    exact Slot.fill_eq_nil_iff
  rw [ends, hempty]

theorem notBefore (hp : p.Traces pieces) : (Pattern.notBefore p).Traces (· = []) := by
  intro c
  obtain ⟨ends, hends, -⟩ := hp c
  refine ⟨if ends.isEmpty then [c] else [], fun content => ?_, fun d hd => ?_⟩
  · rw [Pattern.ends, hends, List.isEmpty_map]
    split <;> rfl
  · split at hd
    · obtain rfl := List.mem_singleton.mp hd
      exact ⟨[], .refl _, rfl⟩
    · simp at hd

theorem one (hbracket : accepts '[' = false) :
    (Pattern.one accepts).Traces fun w => ∃ s, w = [s] ∧ s.isChar accepts = true := by
  rintro ⟨back, rest⟩
  cases rest with
  | nil => exact ⟨[], fun _ => rfl, by simp⟩
  | cons s rest =>
      cases s with
      | hole => exact ⟨[], fun content => by simp [Place.fill, ends, hbracket], by simp⟩
      | char x h =>
          by_cases hx : accepts x = true
          · refine ⟨[⟨.char x h :: back, rest⟩], fun content => ?_, fun d hd => ?_⟩
            · rw [List.map_singleton, Place.fill_step_char]
              simp [Place.fill, ends, hx]
            · obtain rfl := List.mem_singleton.mp hd
              exact ⟨_, .step _ _ _, _, rfl, hx⟩
          · exact ⟨[], fun content => by simp [Place.fill, ends, hx], by simp⟩

theorem run (hbracket : accepts '[' = false) :
    (Pattern.run accepts).Traces fun w => ∀ s ∈ w, s.isChar accepts = true := by
  have hrun : ∀ (rest back : List Slot) (nearer : List Place), ∃ ends : List Place,
      (∀ content, runEnds accepts (Place.fill content ⟨back, rest⟩).back
        (Place.fill content ⟨back, rest⟩).rest (nearer.map (Place.fill content)) =
          ends.map (Place.fill content)) ∧
      ∀ d ∈ ends, d ∈ nearer ∨
        ∃ w, Place.Reads ⟨back, rest⟩ w d ∧ ∀ s ∈ w, s.isChar accepts = true := by
    intro rest
    induction rest with
    | nil =>
        intro back nearer
        refine ⟨⟨back, []⟩ :: nearer, fun content => rfl, fun d hd => ?_⟩
        rcases List.mem_cons.mp hd with rfl | hnear
        · exact .inr ⟨[], .refl _, by simp⟩
        · exact .inl hnear
    | cons s rest ih =>
        intro back nearer
        have hstop : ∀ content, accepts s.first = false →
            runEnds accepts (Place.fill content ⟨back, s :: rest⟩).back
              (Place.fill content ⟨back, s :: rest⟩).rest (nearer.map (Place.fill content)) =
                (⟨back, s :: rest⟩ :: nearer : List Place).map (Place.fill content) := by
          intro content hs
          cases s with
          | hole => simp [Place.fill, runEnds, hbracket]
          | char x h =>
              have hx : accepts x = false := hs
              simp [Place.fill, runEnds, hx]
        by_cases hs : accepts s.first = true
        · cases s with
          | hole => simp [Slot.first, hbracket] at hs
          | char x h =>
              have hx : accepts x = true := hs
              obtain ⟨ends, hends, hpieces⟩ :=
                ih (.char x h :: back) (⟨back, .char x h :: rest⟩ :: nearer)
              refine ⟨ends, fun content => ?_, fun d hd => ?_⟩
              · rw [← hends, Place.fill_step_char]
                simp [Place.fill, runEnds, hx]
              · rcases hpieces d hd with hmem | ⟨w, hreads, hw⟩
                · rcases List.mem_cons.mp hmem with rfl | hnear
                  · exact .inr ⟨[], .refl _, by simp⟩
                  · exact .inl hnear
                · refine .inr ⟨_, (Place.Reads.step back rest (.char x h)).trans hreads, ?_⟩
                  simpa [Slot.isChar, hx] using hw
        · refine ⟨⟨back, s :: rest⟩ :: nearer, fun content => hstop content (by simpa using hs), ?_⟩
          intro d hd
          rcases List.mem_cons.mp hd with rfl | hnear
          · exact .inr ⟨[], .refl _, by simp⟩
          · exact .inl hnear
  rintro ⟨back, rest⟩
  obtain ⟨ends, hends, hpieces⟩ := hrun rest back []
  refine ⟨ends, hends, fun d hd => ?_⟩
  exact (hpieces d hd).resolve_left List.not_mem_nil

theorem seq (hp : p.Traces pieces) (hq : q.Traces later) :
    (Pattern.seq p q).Traces fun w => ∃ u v, w = u ++ v ∧ pieces u ∧ later v := by
  choose next hnext hlater using hq
  intro c
  obtain ⟨ends, hends, hpieces⟩ := hp c
  refine ⟨ends.flatMap next, fun content => ?_, fun d hd => ?_⟩
  · rw [Pattern.ends, hends, List.flatMap_map, List.map_flatMap]
    simp only [hnext]
  · obtain ⟨middle, hmiddle, hd⟩ := List.mem_flatMap.mp hd
    obtain ⟨u, hu, hpu⟩ := hpieces middle hmiddle
    obtain ⟨v, hv, hqv⟩ := hlater middle d hd
    exact ⟨u ++ v, hu.trans hv, u, v, rfl, hpu, hqv⟩

theorem alt (hp : p.Traces pieces) (hq : q.Traces later) :
    (Pattern.alt p q).Traces fun w => pieces w ∨ later w := by
  intro c
  obtain ⟨ends, hends, hpieces⟩ := hp c
  obtain ⟨ends', hends', hlater⟩ := hq c
  refine ⟨ends ++ ends', fun content => ?_, fun d hd => ?_⟩
  · rw [Pattern.ends, hends, hends', List.map_append]
  · rcases List.mem_append.mp hd with hd | hd
    · obtain ⟨w, hreads, hw⟩ := hpieces d hd
      exact ⟨w, hreads, .inl hw⟩
    · obtain ⟨w, hreads, hw⟩ := hlater d hd
      exact ⟨w, hreads, .inr hw⟩

/-- Lists of pieces, one after the other. -/
inductive Repeated (pieces : List Slot → Prop) : List Slot → Prop
  | nil : Repeated pieces []
  | cons {u v : List Slot} (hu : pieces u) (hv : Repeated pieces v) : Repeated pieces (u ++ v)

/-- The bound on the number of steps depends on what the names hold, but it is always large
enough. -/
theorem many (hp : p.Traces pieces) (hne : ∀ w, pieces w → w ≠ []) :
    (Pattern.many p).Traces (Repeated pieces) := by
  have hmany : ∀ (n : Nat) (c : Place), c.rest.length ≤ n → ∃ ends : List Place,
      (∀ content (left : List Char), (c.fill content).rest.length ≤ left.length →
        manyEnds p.ends left (c.fill content) = ends.map (Place.fill content)) ∧
      ∀ d ∈ ends, ∃ w, c.Reads w d ∧ Repeated pieces w := by
    intro n
    induction n with
    | zero =>
        intro c hn
        obtain ⟨first, hfirst, hpieces⟩ := hp c
        have hnone : first = [] := by
          apply List.eq_nil_iff_forall_not_mem.mpr
          intro d hd
          obtain ⟨w, hreads, hw⟩ := hpieces d hd
          have hlt := hreads.length_lt (hne w hw)
          omega
        refine ⟨[c], fun content left _ => ?_, fun d hd => ?_⟩
        · cases left with
          | nil => rfl
          | cons y left => simp [manyEnds, hfirst, hnone]
        · obtain rfl := List.mem_singleton.mp hd
          exact ⟨[], .refl _, .nil⟩
    | succ n ih =>
        intro c hn
        obtain ⟨first, hfirst, hpieces⟩ := hp c
        have hnext : ∀ d : Place, ∃ ends : List Place, d.rest.length ≤ n →
            (∀ content (left : List Char), (d.fill content).rest.length ≤ left.length →
              manyEnds p.ends left (d.fill content) = ends.map (Place.fill content)) ∧
            ∀ e ∈ ends, ∃ w, d.Reads w e ∧ Repeated pieces w := by
          intro d
          by_cases hd : d.rest.length ≤ n
          · obtain ⟨ends, hends⟩ := ih d hd
            exact ⟨ends, fun _ => hends⟩
          · exact ⟨[], fun h => absurd h hd⟩
        choose next hnext using hnext
        have hstep : ∀ d ∈ first, d.rest.length ≤ n ∧ ∀ content,
            (d.fill content).rest.length < (c.fill content).rest.length := by
          intro d hd
          obtain ⟨w, hreads, hw⟩ := hpieces d hd
          have hlt := hreads.length_lt (hne w hw)
          exact ⟨by omega, fun content => hreads.length_fill_lt (hne w hw)⟩
        refine ⟨first.flatMap next ++ [c], fun content left hleft => ?_, fun e he => ?_⟩
        · cases left with
          | nil =>
              have hnone : first = [] := by
                apply List.eq_nil_iff_forall_not_mem.mpr
                intro d hd
                have hlt := (hstep d hd).2 content
                simp only [List.length_nil] at hleft
                omega
              simp [manyEnds, hnone]
          | cons y left =>
              rw [manyEnds, hfirst, List.flatMap_map, List.map_append, List.map_flatMap]
              congr 1
              apply List.flatMap_congr
              intro d hd
              have hlt := (hstep d hd).2 content
              simp only [List.length_cons] at hleft
              exact (hnext d (hstep d hd).1).1 content left (by omega)
        · rcases List.mem_append.mp he with he | he
          · obtain ⟨d, hd, he⟩ := List.mem_flatMap.mp he
            obtain ⟨u, hu, hpu⟩ := hpieces d hd
            obtain ⟨v, hv, hrepeated⟩ := (hnext d (hstep d hd).1).2 e he
            exact ⟨u ++ v, hu.trans hv, .cons hpu hrepeated⟩
          · obtain rfl := List.mem_singleton.mp he
            exact ⟨[], .refl _, .nil⟩
  intro c
  obtain ⟨ends, hends, hpieces⟩ := hmany c.rest.length c (Nat.le_refl _)
  exact ⟨ends, fun content => hends content _ (Nat.le_refl _), hpieces⟩

/-! ### Lists of patterns -/

theorem all {patterns : List Pattern} (hnil : pieces [])
    (happend : ∀ u v, pieces u → pieces v → pieces (u ++ v))
    (h : ∀ p ∈ patterns, p.Traces pieces) : (Pattern.all patterns).Traces pieces := by
  induction patterns with
  | nil =>
      apply empty.mono
      rintro w rfl
      exact hnil
  | cons p later ih =>
      obtain ⟨hp, hlater⟩ := List.forall_mem_cons.mp h
      cases later with
      | nil => exact hp
      | cons q later =>
          apply (seq hp (ih hlater)).mono
          rintro w ⟨u, v, rfl, hu, hv⟩
          exact happend u v hu hv

theorem any {patterns : List Pattern} (hne : patterns ≠ [])
    (h : ∀ p ∈ patterns, p.Traces pieces) : (Pattern.any patterns).Traces pieces := by
  induction patterns with
  | nil => exact absurd rfl hne
  | cons p later ih =>
      obtain ⟨hp, hlater⟩ := List.forall_mem_cons.mp h
      cases later with
      | nil => exact hp
      | cons q later => exact (alt hp (ih (by simp) hlater)).mono fun _ hw => hw.elim id id

theorem word {letters : String} (h : ∀ x ∈ letters.toList, sameLetter x '[' = false) :
    (Pattern.word letters).Traces (.hole ∉ ·) := by
  apply all (by simp) (by simp +contextual)
  intro p hp
  obtain ⟨x, hx, rfl⟩ := List.mem_map.mp hp
  apply (one (h x hx)).mono
  rintro w ⟨s, rfl, hs⟩
  exact Slot.hole_notMem (by simpa using hs)

/-! ### Delimited pieces -/

/-- An open name is taken as a whole. -/
theorem bracketed :
    (Pattern.all [.char '[', .run1 (· != ']'), .char ']']).Traces (· = [.hole]) := by
  rintro ⟨back, rest⟩
  cases rest with
  | nil => exact ⟨[], fun _ => rfl, by simp⟩
  | cons s rest =>
      cases s with
      | char x h =>
          have hx : x ≠ '[' := by
            rintro rfl
            exact absurd h (by decide)
          exact ⟨[], fun content => by simp [Place.fill, ends_delimited_cons, hx], by simp⟩
      | hole =>
          refine ⟨[⟨.hole :: back, rest⟩], fun content => ?_, fun d hd => ?_⟩
          · rw [List.map_singleton, Place.fill_step_hole, Place.fill, Slot.fill_hole,
              ends_delimited_cons, if_pos rfl, ends_closing content.bracket_notMem,
              if_neg content.chars_ne_nil]
          · obtain rfl := List.mem_singleton.mp hd
            exact ⟨_, .step _ _ _, rfl⟩

theorem quoted :
    (Pattern.all [.char '"', .run1 (· != '"'), .char '"']).Traces fun _ => False := by
  rintro ⟨back, rest⟩
  cases rest with
  | nil => exact ⟨[], fun _ => rfl, by simp⟩
  | cons s rest =>
      cases s with
      | char x h =>
          have hx : x ≠ '"' := by
            rintro rfl
            exact absurd h (by decide)
          exact ⟨[], fun content => by simp [Place.fill, ends_delimited_cons, hx], by simp⟩
      | hole => exact ⟨[], fun content => by simp [Place.fill, ends_delimited_cons], by simp⟩

/-! ### Lists in parentheses -/

theorem runEnds_append (back rest : List Char) (nearer : List Cursor) :
    runEnds accepts back rest nearer = runEnds accepts back rest [] ++ nearer := by
  induction rest generalizing back nearer with
  | nil => rfl
  | cons x rest ih =>
      unfold runEnds
      split
      · rw [ih (x :: back) (_ :: nearer), ih (x :: back) [_], List.append_assoc]
        rfl
      · rfl

/-- A run up to a character that it does not accept passes over what it accepts. -/
theorem ends_run_append {x : Char} (hx : accepts x = false) {front : List Char}
    (hfront : ∀ y ∈ front, accepts y = true) (back rest : List Char) :
    (Pattern.seq (.run accepts) (.char x)).ends ⟨back, front ++ rest⟩ =
      (Pattern.seq (.run accepts) (.char x)).ends ⟨front.reverse ++ back, rest⟩ := by
  induction front generalizing back with
  | nil => rfl
  | cons y front ih =>
      have hy : accepts y = true := hfront y List.mem_cons_self
      have hne : (y == x) = false := by
        apply beq_false_of_ne
        rintro rfl
        exact Bool.noConfusion (hy.symm.trans hx)
      have hlater := ih (fun z hz => hfront z (List.mem_cons_of_mem y hz)) (y :: back)
      rw [List.reverse_cons, List.append_assoc, List.singleton_append, ← hlater]
      simp only [ends, List.cons_append, runEnds, hy, if_true]
      rw [runEnds_append]
      simp [Pattern.char, ends, hne]

/-- A list in parentheses that is read up to a closing one: open names in it are passed over. -/
theorem closed {x : Char} (hx : accepts x = false)
    (haccepts : ∀ y, y ≠ '(' → y ≠ ')' → accepts y = true) :
    (Pattern.seq (.run accepts) (.char x)).Traces fun _ => True := by
  have hclosed : ∀ (rest back : List Slot), ∃ ends : List Place,
      (∀ content, (Pattern.seq (.run accepts) (.char x)).ends (Place.fill content ⟨back, rest⟩) =
        ends.map (Place.fill content)) ∧
      ∀ d ∈ ends, ∃ w, Place.Reads ⟨back, rest⟩ w d := by
    intro rest
    induction rest with
    | nil =>
        intro back
        exact ⟨[], fun content => by simp [Place.fill, ends, runEnds, char], by simp⟩
    | cons s rest ih =>
        intro back
        -- Whatever is accepted as a whole is passed over.
        have hpass : (∀ content, ∀ y ∈ s.text content, accepts y = true) → ∃ ends : List Place,
            (∀ content, (Pattern.seq (.run accepts) (.char x)).ends
              (Place.fill content ⟨back, s :: rest⟩) = ends.map (Place.fill content)) ∧
            ∀ d ∈ ends, ∃ w, Place.Reads ⟨back, s :: rest⟩ w d := by
          intro hs
          obtain ⟨ends, hends, hreads⟩ := ih (s :: back)
          refine ⟨ends, fun content => ?_, fun d hd => ?_⟩
          · rw [← hends, Place.fill_step, ← ends_run_append hx (hs content)]
            rfl
          · obtain ⟨w, hw⟩ := hreads d hd
            exact ⟨_, (Place.Reads.step back rest s).trans hw⟩
        cases s with
        | hole =>
            apply hpass
            intro content y hy
            have hchar : y = '[' ∨ y ∈ content.chars ∨ y = ']' := by simpa [Slot.text] using hy
            rcases hchar with rfl | hmem | rfl
            · exact haccepts _ (by decide) (by decide)
            · obtain ⟨-, -, hopening, hclosing⟩ := content.plain y hmem
              exact haccepts y hopening hclosing
            · exact haccepts _ (by decide) (by decide)
        | char y h =>
            by_cases hy : accepts y = true
            · apply hpass
              intro content z hz
              exact List.mem_singleton.mp hz ▸ hy
            · by_cases hyx : y = x
              · refine ⟨[⟨.char y h :: back, rest⟩], fun content => ?_, fun d hd => ?_⟩
                · rw [List.map_singleton, Place.fill_step_char]
                  simp [Place.fill, ends, runEnds, hyx, hx, Pattern.char]
                · obtain rfl := List.mem_singleton.mp hd
                  exact ⟨_, .step _ _ _⟩
              · refine ⟨[], fun content => ?_, by simp⟩
                simp [Place.fill, ends, runEnds, hy, hyx, Pattern.char]
  rintro ⟨back, rest⟩
  obtain ⟨ends, hends, hreads⟩ := hclosed rest back
  refine ⟨ends, hends, fun d hd => ?_⟩
  obtain ⟨w, hw⟩ := hreads d hd
  exact ⟨w, hw, trivial⟩

theorem assoc {r : Pattern} (h : (Pattern.seq (.seq p q) r).Traces pieces) :
    (Pattern.seq p (.seq q r)).Traces pieces := by
  intro c
  obtain ⟨ends, hends, hpieces⟩ := h c
  refine ⟨ends, fun content => ?_, hpieces⟩
  rw [← hends]
  simp only [Pattern.ends, List.flatMap_assoc]

end Traces

end Pattern

end ScriptGraph.Text
