import ScriptGraph.Proofs.Script.OpenScripts

/-!
# Names found in texts with open names

The names that are not references and the names that the searches find are spelled by the same slots
whatever the open names hold.
-/

namespace ScriptGraph

/-- A reserved word is not delimited, and neither is a form that is written like a call. -/
theorem isNeverCalled_of_bracket {token : List Char} (h : '[' ∈ token) :
    isReserved token = false ∧ isNeverCalled token = false := by
  have hwords : ∀ word ∈ reservedWords ++ callForms, '[' ∉ word.toList := by decide +kernel
  have hlower : '[' ∈ (String.ofList (Text.lower token)).toList := by
    simpa [Text.lower] using ⟨'[', h, by decide⟩
  have hreserved : String.ofList (Text.lower token) ∉ reservedWords :=
    fun hmem => hwords _ (List.mem_append_left _ hmem) hlower
  have hcall : String.ofList (Text.lower token) ∉ callForms :=
    fun hmem => hwords _ (List.mem_append_right _ hmem) hlower
  simp [isReserved, isNeverCalled, hreserved, hcall]

end ScriptGraph

namespace ScriptGraph.Script

open Text Name Pattern

/-- Whatever the open names hold, the function gives what the same names stand for. -/
def Gives {β : Type} (view : Content → List Slot → β) (f : Content → List β) : Prop :=
  ∃ given : List (List Slot), (∀ w ∈ given, IsName w) ∧
    ∀ content, Mute content → f content = given.map (view content)

namespace Gives

variable {β : Type} {view : Content → List Slot → β} {f g : Content → List β}

theorem congr (h : Gives view g) (heq : ∀ content, Mute content → f content = g content) :
    Gives view f := by
  obtain ⟨given, hnames, hgiven⟩ := h
  exact ⟨given, hnames, fun content hmute => (heq content hmute).trans (hgiven content hmute)⟩

theorem nil : Gives view fun _ => [] := ⟨[], by simp, fun _ _ => rfl⟩

theorem singleton {w : List Slot} (hw : IsName w) : Gives view fun content => [view content w] :=
  ⟨[w], by simpa using hw, fun _ _ => rfl⟩

theorem append (hf : Gives view f) (hg : Gives view g) :
    Gives view fun content => f content ++ g content := by
  obtain ⟨first, hfirst, hf⟩ := hf
  obtain ⟨second, hsecond, hg⟩ := hg
  refine ⟨first ++ second, fun w hw => ?_, fun content hmute => ?_⟩
  · rcases List.mem_append.mp hw with hw | hw
    · exact hfirst w hw
    · exact hsecond w hw
  · simp only [hf content hmute, hg content hmute, List.map_append]

theorem flatMap {α : Type} {items : List α} {give : Content → α → List β}
    (h : ∀ item ∈ items, Gives view fun content => give content item) :
    Gives view fun content => items.flatMap (give content) := by
  induction items with
  | nil => exact nil
  | cons item later ih =>
      obtain ⟨hitem, hlater⟩ := List.forall_mem_cons.mp h
      exact (hitem.append (ih hlater)).congr fun _ _ => rfl

theorem findAll {r : Rule} {lead body trail : List Slot → Prop} (h : r.Traces lead body trail)
    (hadvances : r.Advances) (c : Place) {give : Content → Hit → List β}
    (hquiet : ∀ content, Mute content → r.QuietIn content (give content))
    (hgive : ∀ t : Trace, (∃ w, c.Reads w t.start) → t.Covers lead body trail →
      Gives view fun content => give content (t.fill content)) :
    Gives view fun content => (r.findAll (c.fill content)).flatMap (give content) := by
  obtain ⟨traces, htraces, hcovers⟩ := h.exists_findAll hadvances c
  have hall : Gives view fun content =>
      traces.flatMap fun t => give content (t.fill content) := by
    apply flatMap
    intro t ht
    obtain ⟨hstart, hcover⟩ := hcovers t ht
    exact hgive t hstart hcover
  apply hall.congr
  intro content hmute
  rw [htraces content (give content) (hquiet content hmute), List.flatMap_map]

end Gives

/-! ### Names that are not references -/

def keyIn (content : Content) (w : List Slot) : String :=
  Name.key (String.ofList (Slot.fill content w))

theorem wantedKey_fill {t : Trace} {w : List Slot} (h : t.left.Reads w t.right)
    (content : Content) : wantedKey (t.fill content) = keyIn content w := by
  rw [wantedKey, Trace.body_fill h, keyIn]

/-- The number of characters left bounds the chain and does not cut it. -/
theorem expressionChain_eq {left : List Char} {c : Cursor} (h : c.rest.length ≤ left.length) :
    expressionChain left c =
      match afterGroup? c with
      | none => []
      | some after =>
          match furtherExpression.hit? after with
          | none => []
          | some hit => wantedKey hit :: expressionChain left.tail hit.stop := by
  cases left with
  | cons x left => rfl
  | nil =>
      obtain ⟨back, rest⟩ := c
      obtain rfl : rest = [] := List.length_eq_zero_iff.mp (Nat.le_zero.mp h)
      rfl

theorem gives_expressionChain (c : Place) (left : Content → List Char)
    (hleft : ∀ content, (c.fill content).rest.length ≤ (left content).length) :
    Gives keyIn fun content => expressionChain (left content) (c.fill content) := by
  -- Each round passes over a group in parentheses, so that fewer slots are left.
  induction hn : c.rest.length using Nat.strongRecOn generalizing c left with
  | ind n ih =>
      obtain ⟨d?, hafter, hreads⟩ := exists_afterGroup? c
      cases d? with
      | none =>
          apply Gives.nil.congr
          intro content _
          rw [expressionChain_eq (hleft content), hafter]
          rfl
      | some d =>
          obtain ⟨u, hu, hne⟩ := hreads d rfl
          obtain ⟨trace?, hhit, hcovers⟩ := traces_furtherExpression.exists_hit? d
          cases trace? with
          | none =>
              apply Gives.nil.congr
              intro content _
              rw [expressionChain_eq (hleft content), hafter]
              simp only [Option.map_some, hhit, Option.map_none]
          | some t =>
              obtain ⟨rfl, hcover⟩ := hcovers t rfl
              obtain ⟨w, hw, hidentifier⟩ := hcover.body
              obtain ⟨v, hv⟩ := hcover.reads
              have hstop := hu.trans hv
              have hne' : u ++ v ≠ [] := List.append_ne_nil_of_left_ne_nil hne v
              have hfuel : ∀ content,
                  (t.stop.fill content).rest.length ≤ (left content).tail.length := by
                intro content
                have hlt : (t.stop.fill content).rest.length < (c.fill content).rest.length :=
                  hstop.length_fill_lt hne'
                have hle := hleft content
                rw [List.length_tail]
                omega
              have hlater :=
                ih t.stop.rest.length (hn ▸ hstop.length_lt hne') t.stop _ hfuel rfl
              apply ((Gives.singleton hidentifier.isName).append hlater).congr
              intro content _
              rw [expressionChain_eq (hleft content), hafter]
              simp only [Option.map_some, hhit]
              rw [wantedKey_fill hw]
              rfl

theorem gives_tableExpressions (slots : List Slot) :
    Gives keyIn fun content => tableExpressions (Slot.fill content slots) := by
  apply Gives.findAll traces_firstExpression advances_firstExpression ⟨[], slots⟩
  · intro content _
    exact (silentIn_firstExpression content).quietIn _
  · intro t _ hcover
    obtain ⟨w, hw, hidentifier⟩ := hcover.body
    have hchain := gives_expressionChain t.stop (fun content => (t.stop.fill content).rest)
      fun _ => Nat.le_refl _
    apply ((Gives.singleton hidentifier.isName).append hchain).congr
    intro content _
    rw [wantedKey_fill hw]
    rfl

theorem gives_aliasKey? (c : Place) :
    Gives keyIn fun content => (aliasKey? (c.fill content)).toList := by
  obtain ⟨trace?, hhit, hcovers⟩ := traces_aliasClause.exists_hit? c
  cases trace? with
  | none =>
      apply Gives.nil.congr
      intro content _
      rw [aliasKey?, hhit]
      rfl
  | some t =>
      obtain ⟨-, hcover⟩ := hcovers t rfl
      obtain ⟨w, hw, hidentifier⟩ := hcover.body
      obtain ⟨found, hfound⟩ := hidentifier.isName
      have hsame : ∀ content, isReserved (Slot.fill content w) = isReserved (Slot.fill default w) :=
        fun content =>
          hfound.test_fill_eq isReserved (fun _ h => (isNeverCalled_of_bracket h).1) content _
      have hkey : ∀ content, aliasKey? (c.fill content) =
          if isReserved (Slot.fill default w) then none else some (keyIn content w) := by
        intro content
        rw [aliasKey?, hhit]
        simp only [Option.map_some, Trace.body_fill hw, hsame, wantedKey_fill hw]
      by_cases hreserved : isReserved (Slot.fill default w) = true
      · apply Gives.nil.congr
        intro content _
        rw [hkey, if_pos hreserved]
        rfl
      · apply (Gives.singleton hidentifier.isName).congr
        intro content _
        rw [hkey, if_neg hreserved]
        rfl

theorem gives_aliasAfterGroup (c : Place) :
    Gives keyIn fun content => ((afterGroup? (c.fill content)).bind aliasKey?).toList := by
  obtain ⟨d?, hafter, -⟩ := exists_afterGroup? c
  cases d? with
  | none =>
      apply Gives.nil.congr
      intro content _
      rw [hafter]
      rfl
  | some d =>
      apply (gives_aliasKey? d).congr
      intro content _
      rw [hafter]
      rfl

theorem gives_derivedTableAliases (slots : List Slot) :
    Gives keyIn fun content => derivedTableAliases (Slot.fill content slots) := by
  have hall : Gives keyIn fun content =>
      (derivedTable.findAll (Place.fill content ⟨[], slots⟩)).flatMap fun hit =>
        ((afterGroup? hit.stop).bind aliasKey?).toList := by
    apply Gives.findAll traces_derivedTable advances_derivedTable
    · intro content _
      exact (silentIn_derivedTable content).quietIn _
    · intro t _ _
      exact gives_aliasAfterGroup t.stop
  apply hall.congr
  intro content _
  exact List.filterMap_eq_flatMap_toList _ _

theorem gives_correlationAliases (slots : List Slot) :
    Gives keyIn fun content => correlationAliases (Slot.fill content slots) := by
  have hall : Gives keyIn fun content =>
      (sourceName.findAll (Place.fill content ⟨[], slots⟩)).flatMap fun hit =>
        ((openingParen.hit? hit.stop).elim (aliasKey? hit.stop) fun arguments =>
          (afterGroup? arguments.stop).bind aliasKey?).toList := by
    apply Gives.findAll traces_sourceName advances_sourceName
    · intro content hmute
      exact (hmute.silentIn (by simp [exposedRules])).quietIn _
    · intro t _ _
      obtain ⟨trace?, hhit, -⟩ := traces_openingParen.exists_hit? t.stop
      have hhit : ∀ content, openingParen.hit? (t.fill content).stop =
        trace?.map (Trace.fill content) := hhit
      cases trace? with
      | none =>
          apply (gives_aliasKey? t.stop).congr
          intro content _
          rw [hhit]
          rfl
      | some arguments =>
          apply (gives_aliasAfterGroup arguments.stop).congr
          intro content _
          rw [hhit]
          rfl
  apply hall.congr
  intro content _
  rw [correlationAliases, List.filterMap_eq_flatMap_toList]
  apply List.flatMap_congr
  intro hit _
  cases openingParen.hit? hit.stop <;> rfl

/-! ### Select lists -/

theorem listEnd?_nil (depth : Nat) (left back : List Char) :
    listEnd? depth left ⟨back, []⟩ = none := by
  induction left with
  | nil => rfl
  | cons x left ih =>
      rw [listEnd?, advances_listBoundary.hit?_nil back]
      exact ih

/-- Where nothing can end the list, the search for its end goes on. -/
theorem listEnd?_append {front : List Char} (depth : Nat) (back rest left : List Char)
    (hnone : ∀ u v, front = u ++ v → v ≠ [] →
      listBoundary.hit? ⟨u.reverse ++ back, v ++ rest⟩ = none)
    (hleft : front.length ≤ left.length) :
    listEnd? depth left ⟨back, front ++ rest⟩ =
      listEnd? depth (left.drop front.length) ⟨front.reverse ++ back, rest⟩ := by
  induction front generalizing back left with
  | nil => rfl
  | cons x front ih =>
      cases left with
      | nil => simp at hleft
      | cons y left =>
          have hfirst : listBoundary.hit? ⟨back, x :: (front ++ rest)⟩ = none :=
            hnone [] (x :: front) rfl (by simp)
          have hlater := ih (x :: back) left
            (fun u v huv hv => by simpa using hnone (x :: u) v (by rw [huv]; rfl) hv)
            (by simpa using hleft)
          rw [List.cons_append, listEnd?, hfirst]
          simp only [Cursor.skip, hlater, List.length_cons, List.drop_succ_cons,
            List.reverse_cons, List.append_assoc, List.singleton_append]

/-- From a place at the given depth, the list ends at the same slot whatever the open names hold. -/
def EndsAtSlot (c : Place) (depth : Nat) : Prop := ∃ d? : Option Place,
  (∀ content, Mute content → ∀ left : List Char, (c.fill content).rest.length ≤ left.length →
    listEnd? depth left (c.fill content) = d?.map (Place.fill content)) ∧
  ∀ d ∈ d?, ∃ w, c.Reads w d

theorem endsAtSlot_of_silent {back rest : List Slot} {s : Slot} {depth : Nat}
    (hhit : ∀ content, listBoundary.hit? (Place.fill content ⟨back, s :: rest⟩) = none)
    (h : EndsAtSlot ⟨s :: back, rest⟩ depth) : EndsAtSlot ⟨back, s :: rest⟩ depth := by
  obtain ⟨d?, hend, hreads⟩ := h
  refine ⟨d?, fun content hmute left hleft => ?_, fun d hd => ?_⟩
  · have hsilent : listBoundary.SilentIn content := hmute.silentIn (by simp [exposedRules])
    have hslot : (s.text content).length + (Slot.fill content rest).length ≤ left.length := by
      simpa only [Place.fill, Slot.fill_cons, List.length_append] using hleft
    have hskip := listEnd?_append depth (Slot.fill content back.reverse).reverse
      (Slot.fill content rest) left (fun u v huv hv => hsilent.hit?_slot (hhit content) huv hv)
      (Nat.le_of_add_right_le hslot)
    have hfuel : (Place.fill content ⟨s :: back, rest⟩).rest.length ≤
        (left.drop (s.text content).length).length := by
      simp only [Place.fill, List.length_drop]
      omega
    rw [← hend content hmute _ hfuel, Place.fill_step]
    exact hskip
  · obtain ⟨w, hw⟩ := hreads d hd
    exact ⟨_, (Place.Reads.step back rest s).trans hw⟩

section

variable {t : Trace} {lead body trail : List Slot → Prop} {depth : Nat}

/-- At a boundary something is left of the text, so the bound on the places is not used up. -/
theorem exists_cons_of_boundary
    (hhit : ∀ content, listBoundary.hit? (t.start.fill content) = some (t.fill content))
    {content : Content} {left : List Char}
    (hleft : (t.start.fill content).rest.length ≤ left.length) :
    ∃ x later, left = x :: later ∧ (t.stop.fill content).rest.length ≤ later.length := by
  have hless : (t.stop.fill content).rest.length < (t.start.fill content).rest.length :=
    advances_listBoundary _ _ (Rule.mem_hits_of_hit? (hhit content))
  cases left with
  | nil =>
      simp only [List.length_nil] at hleft
      omega
  | cons x later =>
      simp only [List.length_cons] at hleft
      exact ⟨x, later, rfl, by omega⟩

theorem endsAtSlot_of_stop
    (hhit : ∀ content, listBoundary.hit? (t.start.fill content) = some (t.fill content))
    (hstop : ∀ content x left, listEnd? depth (x :: left) (t.start.fill content) =
      some (t.start.fill content)) : EndsAtSlot t.start depth := by
  refine ⟨some t.start, fun content _ left hleft => ?_, ?_⟩
  · obtain ⟨x, later, rfl, -⟩ := exists_cons_of_boundary hhit hleft
    exact hstop content x later
  · rintro d ⟨⟩
    exact ⟨[], .refl _⟩

theorem endsAtSlot_of_next {inner : Nat}
    (hhit : ∀ content, listBoundary.hit? (t.start.fill content) = some (t.fill content))
    (hcover : t.Covers lead body trail) (h : EndsAtSlot t.stop inner)
    (hnext : ∀ content x left, listEnd? depth (x :: left) (t.start.fill content) =
      listEnd? inner left (t.stop.fill content)) : EndsAtSlot t.start depth := by
  obtain ⟨d?, hend, hreads⟩ := h
  obtain ⟨v, hv⟩ := hcover.reads
  refine ⟨d?, fun content hmute left hleft => ?_, fun d hd => ?_⟩
  · obtain ⟨x, later, rfl, hlater⟩ := exists_cons_of_boundary hhit hleft
    rw [hnext]
    exact hend content hmute later hlater
  · obtain ⟨w, hw⟩ := hreads d hd
    exact ⟨_, hv.trans hw⟩

end

theorem endsAtSlot (c : Place) (depth : Nat) : EndsAtSlot c depth := by
  induction hn : c.rest.length using Nat.strongRecOn generalizing c depth with
  | ind n ih =>
      obtain ⟨trace?, hhit, hcovers⟩ := traces_listBoundary.exists_hit? c
      cases trace? with
      | none =>
          obtain ⟨back, rest⟩ := c
          cases rest with
          | nil => exact ⟨none, fun content _ left _ => listEnd?_nil depth left _, by simp⟩
          | cons s rest =>
              exact endsAtSlot_of_silent hhit (ih rest.length (by simp [← hn]) _ depth rfl)
      | some t =>
          obtain ⟨rfl, hcover⟩ := hcovers t rfl
          have hhit : ∀ content, listBoundary.hit? (t.start.fill content) = some (t.fill content) :=
            hhit
          obtain ⟨word, hword, hplain⟩ := hcover.body
          have hbody : ∀ content, (t.fill content).body = Slot.fill default word := by
            intro content
            rw [Trace.body_fill hword, Slot.fill_eq_of_hole_notMem hplain content default]
          have hlt := advances_listBoundary.length_lt_of_covers hhit hcover
          have hlater : ∀ inner, EndsAtSlot t.stop inner :=
            fun inner => ih t.stop.rest.length (hn ▸ hlt) t.stop inner rfl
          -- What the boundary does to the depth is read off its text.
          by_cases hopening : Slot.fill default word = ['(']
          · apply endsAtSlot_of_next hhit hcover (hlater (depth + 1))
            intro content x left
            rw [listEnd?, hhit]
            simp only [hbody, hopening]
            rfl
          by_cases hclosing : Slot.fill default word = [')']
          · cases depth with
            | zero =>
                apply endsAtSlot_of_stop hhit
                intro content x left
                rw [listEnd?, hhit]
                simp only [hbody, hclosing]
            | succ depth =>
                apply endsAtSlot_of_next hhit hcover (hlater depth)
                intro content x left
                rw [listEnd?, hhit]
                simp only [hbody, hclosing]
                rfl
          have hother : ∀ content x left, listEnd? depth (x :: left) (t.start.fill content) =
              if depth = 0 then some (t.start.fill content)
              else listEnd? depth left (t.stop.fill content) := by
            intro content x left
            exact listEnd?_of_word (hhit content) (by rwa [hbody]) (by rwa [hbody]) depth x left
          by_cases hzero : depth = 0
          · apply endsAtSlot_of_stop hhit
            intro content x left
            rw [hother, if_pos hzero]
          · apply endsAtSlot_of_next hhit hcover (hlater depth)
            intro content x left
            rw [hother, if_neg hzero]

theorem exists_selectList (c : Place) : ∃ d : Place, ∀ content, Mute content →
    selectList (c.fill content) = d.fill content := by
  obtain ⟨d?, hend, hreads⟩ := endsAtSlot c 0
  cases d? with
  | none =>
      refine ⟨c, fun content hmute => ?_⟩
      rw [selectList, hend content hmute _ (Nat.le_refl _)]
      rfl
  | some d =>
      obtain ⟨w, hw⟩ := hreads d rfl
      refine ⟨⟨c.back, w⟩, fun content hmute => ?_⟩
      rw [selectList, hend content hmute _ (Nat.le_refl _)]
      simp only [Option.map_some, Cursor.endingAt, (hw.fill content).upTo_eq]
      rfl

theorem gives_qualifierKey? {t : Trace} (hcover : t.Covers anyPiece IsPath anyPiece) :
    Gives keyIn fun content =>
      (qualifierKey? (t.fill content).body
        ((t.fill content).right.upTo (t.fill content).stop)).toList := by
  obtain ⟨w, hw, hpath⟩ := hcover.body
  obtain ⟨v, hv, -⟩ := hcover.trail
  obtain ⟨dotted, first, hfirst, hpart⟩ := hpath.exists_firstPart
  have hfollowing : ∀ content, ((t.fill content).right.upTo (t.fill content).stop).getLast? =
      v.getLast?.map Slot.last := by
    intro content
    have hupTo : (t.fill content).right.upTo (t.fill content).stop = Slot.fill content v :=
      (hv.fill content).upTo_eq
    rw [hupTo, Slot.getLast?_fill]
  have hkey : ∀ content, qualifierKey? (t.fill content).body
      ((t.fill content).right.upTo (t.fill content).stop) =
        if v.getLast?.map Slot.last == some '(' then none
        else if dotted || v.getLast?.map Slot.last == some '*' then some (keyIn content first)
        else none := by
    intro content
    obtain ⟨hdotted, htake⟩ := hpart content
    rw [qualifierKey?, hfollowing, Trace.body_fill hw, hdotted, htake]
    rfl
  by_cases hcalled : (v.getLast?.map Slot.last == some '(') = true
  · apply Gives.nil.congr
    intro content _
    rw [hkey, if_pos hcalled]
    rfl
  · by_cases hqualified : (dotted || v.getLast?.map Slot.last == some '*') = true
    · apply (Gives.singleton hfirst).congr
      intro content _
      rw [hkey, if_neg hcalled, if_pos hqualified]
      rfl
    · apply Gives.nil.congr
      intro content _
      rw [hkey, if_neg hcalled, if_neg hqualified]
      rfl

theorem gives_columnQualifiers (slots : List Slot) :
    Gives keyIn fun content => columnQualifiers (Slot.fill content slots) := by
  apply Gives.findAll traces_selectWord advances_selectWord ⟨[], slots⟩
  · intro content hmute
    exact (hmute.silentIn (by simp [exposedRules])).quietIn _
  · intro t _ _
    obtain ⟨d, hlist⟩ := exists_selectList t.stop
    have hall : Gives keyIn fun content => (columnPath.findAll (d.fill content)).flatMap fun hit =>
        (qualifierKey? hit.body (hit.right.upTo hit.stop)).toList := by
      apply Gives.findAll traces_columnPath advances_columnPath
      · intro content _
        exact quietIn_columnPath content
      · intro hit _ hcover
        exact gives_qualifierKey? hcover
    apply hall.congr
    intro content hmute
    have hstop : selectList (t.fill content).stop = d.fill content := hlist content hmute
    rw [hstop, List.filterMap_eq_flatMap_toList]

/-- The names that are not references stand at the same slots whatever the open names hold. -/
theorem gives_noise (slots : List Slot) :
    Gives keyIn fun content => noise (Slot.fill content slots) := by
  obtain ⟨names, hnames, hall⟩ := (((gives_tableExpressions slots).append
    (gives_derivedTableAliases slots)).append (gives_correlationAliases slots)).append
      (gives_columnQualifiers slots)
  refine ⟨names, hnames, fun content hmute => ?_⟩
  have hnoise := hall content hmute
  dsimp only at hnoise ⊢
  rw [noise, hnoise, List.filter_eq_self]
  intro key hkey
  obtain ⟨w, hw, rfl⟩ := List.mem_map.mp hkey
  obtain ⟨found, hfound⟩ := hnames w hw
  simpa [keyIn] using hfound.key_ne_empty content

end ScriptGraph.Script
