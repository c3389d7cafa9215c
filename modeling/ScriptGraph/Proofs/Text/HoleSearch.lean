import ScriptGraph.Proofs.Text.Holes

/-!
# Searching a text with open names

A rule whose parts trace pieces has the same matches at a place between slots whatever the open
names hold.  A search goes on character by character and so it also looks at the places inside
the names.  If the rule has no match there, or none that counts, the search finds the same
matches whatever the names hold.
-/

namespace ScriptGraph.Text

/-- A match between slots. -/
structure Trace where
  start : Place
  left : Place
  right : Place
  stop : Place

namespace Trace

def fill (content : Content) (t : Trace) : Hit :=
  ⟨t.start.fill content, t.left.fill content, t.right.fill content, t.stop.fill content⟩

/-- The match covers pieces of the given kinds. -/
structure Covers (lead body trail : List Slot → Prop) (t : Trace) : Prop where
  lead : ∃ w, t.start.Reads w t.left ∧ lead w
  body : ∃ w, t.left.Reads w t.right ∧ body w
  trail : ∃ w, t.right.Reads w t.stop ∧ trail w

variable {lead body trail : List Slot → Prop} {t : Trace}

theorem Covers.reads (h : t.Covers lead body trail) : ∃ w, t.start.Reads w t.stop := by
  obtain ⟨u, hu, -⟩ := h.lead
  obtain ⟨v, hv, -⟩ := h.body
  obtain ⟨w, hw, -⟩ := h.trail
  exact ⟨_, (hu.trans hv).trans hw⟩

theorem body_fill {w : List Slot} (h : t.left.Reads w t.right) (content : Content) :
    (t.fill content).body = Slot.fill content w := (h.fill content).upTo_eq

end Trace

/-- The place inside an open name at a place of its content. -/
def Cursor.inBrackets (before after : List Char) (c : Cursor) : Cursor :=
  c.within (before ++ ['[']) (']' :: after)

/-! ### Patterns inside an open name -/

namespace Pattern

/-- The pattern matches inside an open name as it does in the content alone. -/
def FramedIn (content : Content) (p : Pattern) : Prop :=
  ∀ before after, p.Framed (before ++ ['[']) content.chars (']' :: after)

/-- From a place inside an open name the pattern leads to places inside it. -/
def StaysIn (content : Content) (p : Pattern) : Prop :=
  ∀ before after c, Cursor.text c = content.chars → ∀ e ∈ p.ends (c.inBrackets before after),
    ∃ d, Cursor.text d = content.chars ∧ e = d.inBrackets before after

def NeverIn (content : Content) (p : Pattern) : Prop :=
  ∀ before after c, Cursor.text c = content.chars → p.ends (c.inBrackets before after) = []

variable {content : Content} {p q : Pattern} {accepts : Char → Bool}

namespace StaysIn

theorem of_framedIn (h : p.FramedIn content) : p.StaysIn content := by
  intro before after c hc e he
  rw [Cursor.inBrackets, h before after c hc] at he
  obtain ⟨d, hd, rfl⟩ := List.mem_map.mp he
  exact ⟨d, (text_of_mem_ends hd).trans hc, rfl⟩

theorem of_spells_nil (h : ∀ w, p.Spells w → w = []) : p.StaysIn content := by
  intro before after c hc e he
  obtain ⟨w, hw, hreads⟩ := exists_spells_of_mem_ends he
  rw [h w hw] at hreads
  obtain ⟨back, rest⟩ := e
  have hrest : (c.inBrackets before after).rest = rest := hreads.rest
  have hback : back = (c.inBrackets before after).back := hreads.back
  exact ⟨c, hc, by rw [← hrest, hback]⟩

end StaysIn

namespace NeverIn

theorem one (hbracket : accepts ']' = false) (h : ∀ x ∈ content.chars, accepts x = false) :
    (Pattern.one accepts).NeverIn content := by
  rintro before after ⟨back, rest⟩ hc
  cases rest with
  | nil => simp [Cursor.inBrackets, Cursor.within, ends, hbracket]
  | cons x rest =>
      have hx : accepts x = false := h x (by simp [← hc, Cursor.text])
      simp [Cursor.inBrackets, Cursor.within, ends, hx]

theorem seq_left (hp : p.NeverIn content) (q : Pattern) : (Pattern.seq p q).NeverIn content := by
  intro before after c hc
  rw [ends, hp before after c hc, List.flatMap_nil]

theorem seq_right (hp : p.StaysIn content) (hq : q.NeverIn content) :
    (Pattern.seq p q).NeverIn content := by
  intro before after c hc
  rw [ends, List.flatMap_eq_nil_iff]
  intro middle hmiddle
  obtain ⟨d, hd, rfl⟩ := hp before after c hc middle hmiddle
  exact hq before after d hd

end NeverIn

end Pattern

namespace Rule

structure Traces (lead body trail : List Slot → Prop) (r : Rule) : Prop where
  lead : r.lead.Traces lead
  body : r.body.Traces body
  trail : r.trail.Traces trail

variable {r : Rule} {lead body trail : List Slot → Prop}

theorem Traces.exists_hits (h : r.Traces lead body trail) (c : Place) :
    ∃ traces : List Trace,
      (∀ content, r.hits (c.fill content) = traces.map (Trace.fill content)) ∧
      ∀ t ∈ traces, t.start = c ∧ t.Covers lead body trail := by
  obtain ⟨lefts, hlefts, hlead⟩ := h.lead c
  choose rights hrights hbody using h.body
  choose stops hstops htrail using h.trail
  refine ⟨lefts.flatMap fun left => (rights left).flatMap fun right =>
    (stops right).map fun stop => ⟨c, left, right, stop⟩, fun content => ?_, fun t ht => ?_⟩
  · simp only [hits, hlefts, hrights, hstops, List.flatMap_map, List.map_flatMap, List.map_map]
    rfl
  · obtain ⟨left, hleft, ht⟩ := List.mem_flatMap.mp ht
    obtain ⟨right, hright, ht⟩ := List.mem_flatMap.mp ht
    obtain ⟨stop, hstop, rfl⟩ := List.mem_map.mp ht
    exact ⟨rfl, hlead left hleft, hbody left right hright, htrail right stop hstop⟩

theorem Traces.exists_hit? (h : r.Traces lead body trail) (c : Place) :
    ∃ trace? : Option Trace,
      (∀ content, r.hit? (c.fill content) = trace?.map (Trace.fill content)) ∧
      ∀ t ∈ trace?, t.start = c ∧ t.Covers lead body trail := by
  obtain ⟨traces, hhits, hcovers⟩ := h.exists_hits c
  refine ⟨traces.head?, fun content => ?_, fun t ht => ?_⟩
  · rw [hit?, hhits, List.head?_map]
  · exact hcovers t (List.mem_of_mem_head? ht)

/-! ### Places inside the names -/

/-- Matches that start inside an open name end there and give nothing. -/
def QuietIn {β : Type} (r : Rule) (content : Content) (give : Hit → List β) : Prop :=
  ∀ before after c, Cursor.text c = content.chars → ∀ h,
    r.hit? (c.inBrackets before after) = some h →
      give h = [] ∧ ∃ d, Cursor.text d = content.chars ∧ h.stop = d.inBrackets before after

/-- No match starts inside an open name. -/
def SilentIn (r : Rule) (content : Content) : Prop :=
  ∀ before after c, Cursor.text c = content.chars → r.hit? (c.inBrackets before after) = none

theorem SilentIn.quietIn {β : Type} {content : Content} (h : r.SilentIn content)
    (give : Hit → List β) : r.QuietIn content give := by
  intro before after c hc hit hhit
  rw [h before after c hc] at hhit
  cases hhit

theorem silentIn_of_body {content : Content} (hlead : r.lead.StaysIn content)
    (hbody : r.body.NeverIn content) : r.SilentIn content := by
  intro before after c hc
  rw [hit?, hits, List.head?_eq_none_iff, List.flatMap_eq_nil_iff]
  intro left hleft
  obtain ⟨d, hd, rfl⟩ := hlead before after c hc left hleft
  rw [hbody before after d hd, List.flatMap_nil]

theorem silentIn_of_trail {content : Content} (hlead : r.lead.StaysIn content)
    (hbody : r.body.StaysIn content) (htrail : r.trail.NeverIn content) : r.SilentIn content := by
  intro before after c hc
  rw [hit?, hits, List.head?_eq_none_iff, List.flatMap_eq_nil_iff]
  intro left hleft
  obtain ⟨d, hd, rfl⟩ := hlead before after c hc left hleft
  rw [List.flatMap_eq_nil_iff]
  intro right hright
  obtain ⟨e, he, rfl⟩ := hbody before after d hd right hright
  rw [htrail before after e he, List.map_nil]

theorem silentIn_of_find? {content : Content} (hlead : r.lead.FramedIn content)
    (hbody : r.body.FramedIn content) (htrail : r.trail.FramedIn content)
    (hnone : r.find? (.start content.chars) = none) : r.SilentIn content := by
  intro before after c hc
  have hframed : r.Framed (before ++ ['[']) content.chars (']' :: after) :=
    ⟨hlead before after, hbody before after, htrail before after⟩
  rw [Cursor.inBrackets, hframed.hit?_within hc, find?_start_eq_none_iff.mp hnone c hc]
  rfl

theorem QuietIn.flatMap_findAll_inBrackets {β : Type} {content : Content} {give : Hit → List β}
    (hquiet : r.QuietIn content give) (hadvances : r.Advances) (before after : List Char)
    {c : Cursor} (hc : c.text = content.chars) :
    (r.findAll (c.inBrackets before after)).flatMap give =
      (r.findAll ⟨']' :: (content.chars.reverse ++ '[' :: before.reverse), after⟩).flatMap
        give := by
  -- On what is left of the name: a match in it gives nothing, and ends in it.
  induction hn : c.rest.length using Nat.strongRecOn generalizing c with
  | ind n ih =>
      cases hhit : r.hit? (c.inBrackets before after) with
      | some h =>
          obtain ⟨hgive, d, hd, hstop⟩ := hquiet before after c hc h hhit
          have hlt := hadvances _ h (mem_hits_of_hit? hhit)
          rw [hstop] at hlt
          simp only [Cursor.inBrackets, Cursor.within, List.length_append] at hlt
          rw [hadvances.findAll_of_some hhit, List.flatMap_cons, hgive, List.nil_append, hstop]
          exact ih d.rest.length (by omega) hd rfl
      | none =>
          obtain ⟨back, rest⟩ := c
          cases rest with
          | nil =>
              have hback : back = content.chars.reverse := by
                rw [← hc]
                simp [Cursor.text]
              have hstep := findAll_of_none hhit
              simp only [Cursor.inBrackets, Cursor.within, List.nil_append] at hstep ⊢
              rw [hstep, hback]
              simp
          | cons x rest =>
              have hnext : Cursor.text ⟨x :: back, rest⟩ = content.chars := by
                rw [Cursor.text_step, hc]
              have hlater := ih rest.length (by simp [← hn]) hnext rfl
              rw [← hlater]
              exact congrArg (List.flatMap give) (findAll_of_none hhit)

/-- A search that finds no match at an open name goes on behind it. -/
theorem QuietIn.flatMap_findAll_hole {β : Type} {content : Content} {give : Hit → List β}
    (hquiet : r.QuietIn content give) (hadvances : r.Advances) {back rest : List Slot}
    (hnone : r.hit? (Place.fill content ⟨back, .hole :: rest⟩) = none) :
    (r.findAll (Place.fill content ⟨back, .hole :: rest⟩)).flatMap give =
      (r.findAll (Place.fill content ⟨.hole :: back, rest⟩)).flatMap give := by
  have hinside := hquiet.flatMap_findAll_inBrackets hadvances (Slot.fill content back.reverse)
    (Slot.fill content rest) (Cursor.text_start content.chars)
  rw [Place.fill_step_hole, ← hinside]
  simp only [Place.fill, Slot.fill_hole] at hnone ⊢
  rw [findAll_of_none hnone]
  simp [Cursor.inBrackets, Cursor.within, Cursor.start]

/-! ### Searches -/

theorem Advances.length_lt_of_covers (hadvances : r.Advances) {t : Trace}
    (hhit : ∀ content, r.hit? (t.start.fill content) = some (t.fill content))
    (hcovers : t.Covers lead body trail) : t.stop.rest.length < t.start.rest.length := by
  obtain ⟨w, hreads⟩ := hcovers.reads
  apply hreads.length_lt
  rintro rfl
  have hlt := hadvances _ _ (mem_hits_of_hit? (hhit default))
  have hrest := (hreads.fill default).rest
  simp only [Trace.fill, hrest, Slot.fill_nil, List.nil_append] at hlt
  omega

/-- What a search gives from a place on, whatever the open names hold. -/
theorem Traces.exists_findAll (h : r.Traces lead body trail) (hadvances : r.Advances) (c : Place) :
    ∃ traces : List Trace,
      (∀ content {β : Type} (give : Hit → List β), r.QuietIn content give →
        (r.findAll (c.fill content)).flatMap give =
          (traces.map (Trace.fill content)).flatMap give) ∧
      ∀ t ∈ traces, (∃ w, c.Reads w t.start) ∧ t.Covers lead body trail := by
  -- On the slots that are left, not on the characters: their number is the same for all contents.
  induction hn : c.rest.length using Nat.strongRecOn generalizing c with
  | ind n ih =>
      obtain ⟨trace?, hhit, hcovers⟩ := h.exists_hit? c
      cases trace? with
      | some t =>
          obtain ⟨rfl, hcover⟩ := hcovers t rfl
          have hhit : ∀ content, r.hit? (t.start.fill content) = some (t.fill content) := hhit
          obtain ⟨w, hreads⟩ := hcover.reads
          have hlt := hadvances.length_lt_of_covers hhit hcover
          obtain ⟨later, hlater, hstarts⟩ := ih _ (hn ▸ hlt) t.stop rfl
          refine ⟨t :: later, fun content β give hquiet => ?_, ?_⟩
          · rw [hadvances.findAll_of_some (hhit content), List.flatMap_cons, List.map_cons,
              List.flatMap_cons, ← hlater content give hquiet]
            rfl
          · intro other hother
            rcases List.mem_cons.mp hother with rfl | hother
            · exact ⟨⟨[], .refl _⟩, hcover⟩
            · obtain ⟨⟨v, hv⟩, hcovers'⟩ := hstarts other hother
              exact ⟨⟨w ++ v, hreads.trans hv⟩, hcovers'⟩
      | none =>
          obtain ⟨back, rest⟩ := c
          have hhit : ∀ content, r.hit? (Place.fill content ⟨back, rest⟩) = none := hhit
          cases rest with
          | nil =>
              refine ⟨[], fun content β give _ => ?_, by simp⟩
              rw [Place.fill, Slot.fill_nil, hadvances.findAll_nil]
              rfl
          | cons s rest =>
              obtain ⟨later, hlater, hstarts⟩ :=
                ih rest.length (by simp [← hn]) ⟨s :: back, rest⟩ rfl
              refine ⟨later, fun content β give hquiet => ?_, ?_⟩
              · rw [← hlater content give hquiet]
                cases s with
                | hole => exact hquiet.flatMap_findAll_hole hadvances (hhit content)
                | char x hx =>
                    rw [Place.fill_step_char]
                    exact congrArg (List.flatMap give) (findAll_of_none (hhit content))
              · intro t ht
                obtain ⟨⟨w, hw⟩, hcovers'⟩ := hstarts t ht
                exact ⟨⟨_, (Place.Reads.step back rest s).trans hw⟩, hcovers'⟩

theorem Traces.exists_findAll_eq (h : r.Traces lead body trail) (hadvances : r.Advances)
    (c : Place) :
    ∃ traces : List Trace,
      (∀ content, r.SilentIn content →
        r.findAll (c.fill content) = traces.map (Trace.fill content)) ∧
      ∀ t ∈ traces, (∃ w, c.Reads w t.start) ∧ t.Covers lead body trail := by
  obtain ⟨traces, htraces, hcovers⟩ := h.exists_findAll hadvances c
  refine ⟨traces, fun content hsilent => ?_, hcovers⟩
  have hall := htraces content (fun hit => [hit]) (hsilent.quietIn _)
  simpa using hall

theorem Advances.find?_eq_head? (hadvances : r.Advances) (c : Cursor) :
    r.find? c = (r.findAll c).head? := by
  obtain ⟨back, rest⟩ := c
  induction rest generalizing back with
  | nil =>
      rw [hadvances.findAll_nil, find?]
      exact hadvances.hit?_nil back
  | cons x rest ih =>
      cases hhit : r.hit? ⟨back, x :: rest⟩ with
      | some h =>
          rw [hadvances.findAll_of_some hhit]
          simp [find?, findFrom, hhit]
      | none =>
          rw [findAll_of_none hhit, ← ih (x :: back)]
          simp [find?, findFrom, hhit, Cursor.skip]

theorem Traces.exists_find? (h : r.Traces lead body trail) (hadvances : r.Advances) (c : Place) :
    ∃ trace? : Option Trace,
      (∀ content, r.SilentIn content →
        r.find? (c.fill content) = trace?.map (Trace.fill content)) ∧
      ∀ t ∈ trace?, (∃ w, c.Reads w t.start) ∧ t.Covers lead body trail := by
  obtain ⟨traces, htraces, hcovers⟩ := h.exists_findAll_eq hadvances c
  refine ⟨traces.head?, fun content hsilent => ?_, fun t ht => ?_⟩
  · rw [hadvances.find?_eq_head?, htraces content hsilent, List.head?_map]
  · exact hcovers t (List.mem_of_mem_head? ht)

/-! ### Reductions -/

/-- Where a rule has no match, a reduction keeps the text. -/
theorem reduceFrom_append {front : List Char} (back rest left : List Char)
    (hnone : ∀ u v, front = u ++ v → v ≠ [] → r.hit? ⟨u.reverse ++ back, v ++ rest⟩ = none)
    (hleft : front.length ≤ left.length) :
    r.reduceFrom left ⟨back, front ++ rest⟩ =
      front ++ r.reduceFrom (left.drop front.length) ⟨front.reverse ++ back, rest⟩ := by
  induction front generalizing back left with
  | nil => rfl
  | cons x front ih =>
      cases left with
      | nil => simp at hleft
      | cons y left =>
          have hfirst : r.hit? ⟨back, x :: (front ++ rest)⟩ = none :=
            hnone [] (x :: front) rfl (by simp)
          have hlater := ih (x :: back) left
            (fun u v huv hv => by simpa using hnone (x :: u) v (by rw [huv]; rfl) hv)
            (by simpa using hleft)
          rw [List.cons_append, reduceFrom, hfirst]
          simp only [hlater, List.cons_append, List.length_cons, List.drop_succ_cons,
            List.reverse_cons, List.append_assoc, List.nil_append]

/-- Where the rule does not match at a slot, it does not match inside it either. -/
theorem SilentIn.hit?_slot {content : Content} (hsilent : r.SilentIn content) {s : Slot}
    {back rest : List Slot} (hnone : r.hit? (Place.fill content ⟨back, s :: rest⟩) = none)
    {u v : List Char} (huv : s.text content = u ++ v) (hv : v ≠ []) :
    r.hit? ⟨u.reverse ++ (Slot.fill content back.reverse).reverse, v ++ Slot.fill content rest⟩ =
      none := by
  cases u with
  | nil =>
      obtain rfl : s.text content = v := huv
      exact hnone
  | cons x u =>
      cases s with
      | char y h =>
          obtain ⟨-, rfl, rfl⟩ : y = x ∧ u = [] ∧ v = [] := by simpa [Slot.text] using huv
          exact absurd rfl hv
      | hole =>
          obtain ⟨rfl, hrest⟩ : '[' = x ∧ content.chars ++ [']'] = u ++ v := by
            simpa [Slot.text] using huv
          -- What is left of the name ends with the bracket.
          obtain ⟨inner, rfl⟩ : ∃ inner, v = inner ++ [']'] := by
            rcases List.eq_nil_or_concat v with rfl | ⟨inner, y, rfl⟩
            · exact absurd rfl hv
            · rw [List.concat_eq_append, ← List.append_assoc] at hrest
              obtain ⟨-, hy⟩ := List.append_inj' hrest rfl
              exact ⟨inner, by rw [List.concat_eq_append, ← hy]⟩
          have hchars : content.chars = u ++ inner := by
            rw [← List.append_assoc] at hrest
            exact (List.append_inj' hrest rfl).1
          have hinside := hsilent (Slot.fill content back.reverse) (Slot.fill content rest)
            ⟨u.reverse, inner⟩ (by simp [Cursor.text, hchars])
          simpa [Cursor.inBrackets, Cursor.within] using hinside

theorem Traces.exists_reduce (h : r.Traces lead body trail) (hadvances : r.Advances)
    (slots : List Slot) :
    ∃ reduced : List Slot, ∀ content, r.SilentIn content →
      r.reduce (Slot.fill content slots) = Slot.fill content reduced := by
  -- The bound on the steps depends on the content, so that the slots are chosen before it.
  have hreduce : ∀ (n : Nat) (c : Place), c.rest.length = n → ∃ reduced : List Slot,
      ∀ content, r.SilentIn content → ∀ left : List Char,
        (c.fill content).rest.length ≤ left.length →
          r.reduceFrom left (c.fill content) = Slot.fill content reduced := by
    intro n
    induction n using Nat.strongRecOn with
    | ind n ih =>
        intro c hn
        obtain ⟨trace?, hhit, hcovers⟩ := h.exists_hit? c
        cases trace? with
        | some t =>
            obtain ⟨rfl, hcover⟩ := hcovers t rfl
            have hhit : ∀ content, r.hit? (t.start.fill content) = some (t.fill content) := hhit
            obtain ⟨w, hbody, -⟩ := hcover.body
            have hlt := hadvances.length_lt_of_covers hhit hcover
            obtain ⟨later, hlater⟩ := ih _ (hn ▸ hlt) t.stop rfl
            refine ⟨w ++ later, fun content hsilent left hleft => ?_⟩
            have hless := hadvances _ _ (mem_hits_of_hit? (hhit content))
            cases left with
            | nil =>
                simp only [List.length_nil] at hleft
                omega
            | cons y left =>
                simp only [List.length_cons] at hleft
                have hfuel : (t.stop.fill content).rest.length ≤ left.length := by
                  have : (t.fill content).stop.rest.length < (t.start.fill content).rest.length :=
                    hless
                  simp only [Trace.fill] at this
                  omega
                rw [reduceFrom, hhit content]
                simp only [Trace.body_fill hbody, Slot.fill_append]
                rw [← hlater content hsilent left hfuel]
                rfl
        | none =>
            obtain ⟨back, rest⟩ := c
            have hhit : ∀ content, r.hit? (Place.fill content ⟨back, rest⟩) = none := hhit
            cases rest with
            | nil =>
                refine ⟨[], fun content _ left _ => ?_⟩
                cases left with
                | nil => rfl
                | cons y left =>
                    have hnil := hhit content
                    simp only [Place.fill, Slot.fill_nil] at hnil ⊢
                    rw [reduceFrom, hnil]
            | cons s rest =>
                obtain ⟨later, hlater⟩ := ih rest.length (by simp [← hn]) ⟨s :: back, rest⟩ rfl
                refine ⟨s :: later, fun content hsilent left hleft => ?_⟩
                have hslot : (s.text content).length + (Slot.fill content rest).length ≤
                    left.length := by
                  simpa only [Place.fill, Slot.fill_cons, List.length_append] using hleft
                have hkept := reduceFrom_append (r := r)
                  (Slot.fill content back.reverse).reverse (Slot.fill content rest) left
                  (fun u v huv hv => hsilent.hit?_slot (hhit content) huv hv)
                  (Nat.le_of_add_right_le hslot)
                have hfuel : (Place.fill content ⟨s :: back, rest⟩).rest.length ≤
                    (left.drop (s.text content).length).length := by
                  simp only [Place.fill, List.length_drop]
                  omega
                rw [Slot.fill_cons, ← hlater content hsilent _ hfuel, Place.fill_step]
                exact hkept
  obtain ⟨reduced, hreduced⟩ := hreduce _ ⟨[], slots⟩ rfl
  refine ⟨reduced, fun content hsilent => ?_⟩
  exact hreduced content hsilent _ (Nat.le_refl _)

end Rule

end ScriptGraph.Text
