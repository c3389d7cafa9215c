import ScriptGraph.Proofs.Script.References
import ScriptGraph.Proofs.Text.Preferred

/-!
# Looking back for a word before a table

Whether a table is named at a place is judged by a window of characters before it.  The window may
end inside the blanks or the word that it should show, and a word that is cut off from the letters
before it counts as a word of its own.  Up to these two accidents the window shows what the whole
text before the place shows.
-/

namespace ScriptGraph.Text.Pattern

theorem occursFrom_iff {p : Pattern} {back rest : List Char} :
    p.occursFrom back rest = true ↔
      ∃ front later, rest = front ++ later ∧ p.matchesAt ⟨front.reverse ++ back, later⟩ = true := by
  induction rest generalizing back with
  | nil =>
      constructor
      · exact fun h => ⟨[], [], rfl, h⟩
      · rintro ⟨front, later, heq, h⟩
        obtain ⟨rfl, rfl⟩ := List.append_eq_nil_iff.mp heq.symm
        exact h
  | cons x rest ih =>
      rw [occursFrom, Bool.or_eq_true, ih]
      constructor
      · rintro (hhere | ⟨front, later, rfl, h⟩)
        · exact ⟨[], x :: rest, rfl, hhere⟩
        · exact ⟨x :: front, later, rfl, by simpa using h⟩
      · rintro ⟨front, later, heq, h⟩
        rcases List.cons_eq_append_iff.mp heq with ⟨rfl, rfl⟩ | ⟨front, rfl, rfl⟩
        · exact .inl h
        · exact .inr ⟨front, later, rfl, by simpa using h⟩

theorem matchesAt_iff {p : Pattern} {c : Cursor} : p.matchesAt c = true ↔ ∃ d, d ∈ p.ends c := by
  rw [matchesAt, Bool.not_eq_true', List.isEmpty_eq_false_iff_exists_mem]

theorem mem_ends_wordEdge_iff {c d : Cursor} :
    d ∈ wordEdge.ends c ↔ d = c ∧ isWordEdge c = true := by
  simp [ends, and_comm]

theorem mem_ends_atEnd_iff {c d : Cursor} : d ∈ atEnd.ends c ↔ d = c ∧ c.rest = [] := by
  simp [ends, and_comm]

end ScriptGraph.Text.Pattern

namespace ScriptGraph.Script

open Text Name Pattern

/-! ### The end of a text -/

/-- A text ends in the letters of a word after which a table is named, and in blanks. -/
structure EndsInTableWord (text before word space : List Char) : Prop where
  text_eq : text = before ++ (word ++ space)
  spells : (Pattern.alt (.word "FROM") (.word "REFERENCES")).Spells word
  blank : ∀ x ∈ space, isBlank x = true

/-- A word that follows the text starts there. -/
def EndsOutsideWord (text : List Char) : Prop := ∀ x ∈ text.getLast?, isWord x = false

theorem exists_cons_of_spells_tableWord {word : List Char}
    (h : (Pattern.alt (.word "FROM") (.word "REFERENCES")).Spells word) :
    ∃ x later, word = x :: later ∧ isWord x = true := by
  have hcons : ∀ letters : String, letters ≠ "" → letters.toList.all isAsciiLetter = true →
      (Pattern.word letters).Spells word → ∃ x later, word = x :: later ∧ isWord x = true := by
    intro letters hne hletters hspells
    obtain ⟨x, later, rfl, hx⟩ := exists_cons_of_spells_word hne hletters hspells
    exact ⟨x, later, rfl, isWord_of_isFirstChar hx⟩
  rcases spells_alt_iff.mp h with hfrom | hreferences
  · exact hcons _ (by decide) (by decide) hfrom
  · exact hcons _ (by decide) (by decide) hreferences

theorem isWordEdge_append_iff {before word : List Char} {x : Char} (hx : isWord x = true) :
    isWordEdge ⟨before.reverse, x :: word⟩ = true ↔ EndsOutsideWord before := by
  rw [isWordEdge, List.head?_reverse, List.head?_cons, Option.any_some, hx, EndsOutsideWord]
  cases before.getLast? <;> simp

theorem matchesAt_beforeTable_iff {before rest : List Char} :
    beforeTable.matchesAt ⟨before.reverse, rest⟩ = true ↔
      EndsOutsideWord before ∧ ∃ word space, EndsInTableWord rest [] word space := by
  rw [matchesAt_iff]
  constructor
  · rintro ⟨d, hd⟩
    obtain ⟨_, hstart, hd⟩ := List.mem_flatMap.mp hd
    obtain ⟨rfl, hedge⟩ := mem_ends_wordEdge_iff.mp hstart
    obtain ⟨afterWord, hword, hd⟩ := List.mem_flatMap.mp hd
    obtain ⟨stop, hspace, hd⟩ := List.mem_flatMap.mp hd
    obtain ⟨-, hend⟩ := mem_ends_atEnd_iff.mp hd
    obtain ⟨word, hspells, hreads⟩ := exists_spells_of_mem_ends hword
    obtain ⟨space, hblank, hreads'⟩ := exists_spells_of_mem_ends hspace
    have hrest : rest = word ++ space := by
      simpa [hreads'.rest, hend] using hreads.rest
    obtain ⟨x, later, rfl, hx⟩ := exists_cons_of_spells_tableWord hspells
    rw [hrest, List.cons_append, isWordEdge_append_iff hx] at hedge
    exact ⟨hedge, _, space, hrest, hspells, spells_run_iff.mp hblank⟩
  · rintro ⟨houtside, word, space, hrest, hspells, hblank⟩
    obtain ⟨x, later, rfl, hx⟩ := exists_cons_of_spells_tableWord hspells
    obtain rfl : rest = x :: (later ++ space) := hrest
    have hedge : isWordEdge ⟨before.reverse, x :: (later ++ space)⟩ = true :=
      (isWordEdge_append_iff hx).mpr houtside
    have hword := mem_ends_of_spells hspells (by decide) before.reverse space
    have hspace := mem_ends_of_spells (spells_run_iff.mpr hblank) rfl
      ((x :: later).reverse ++ before.reverse) []
    rw [List.append_nil] at hspace
    exact ⟨_, List.mem_flatMap.mpr ⟨_, mem_ends_wordEdge_iff.mpr ⟨rfl, hedge⟩,
      List.mem_flatMap.mpr ⟨_, hword,
        List.mem_flatMap.mpr ⟨_, hspace, mem_ends_atEnd_iff.mpr ⟨rfl, rfl⟩⟩⟩⟩⟩

/-- A search in a text finds a word before a table exactly if the text ends in one. -/
theorem occursIn_beforeTable_iff {text : List Char} :
    beforeTable.occursIn text = true ↔
      ∃ before word space, EndsInTableWord text before word space ∧ EndsOutsideWord before := by
  rw [occursIn, occursFrom_iff]
  simp only [List.append_nil, matchesAt_beforeTable_iff]
  constructor
  · rintro ⟨before, rest, rfl, houtside, word, space, hrest, hspells, hblank⟩
    exact ⟨before, word, space, ⟨by rw [hrest, List.nil_append], hspells, hblank⟩, houtside⟩
  · rintro ⟨before, word, space, ⟨rfl, hspells, hblank⟩, houtside⟩
    exact ⟨before, word ++ space, rfl, houtside, word, space, rfl, hspells, hblank⟩

/-! ### Only one word can stand there -/

theorem map_plainLetter_of_spells_tableWord {word : List Char}
    (h : (Pattern.alt (.word "FROM") (.word "REFERENCES")).Spells word) :
    word.map plainLetter = "from".toList ∨ word.map plainLetter = "references".toList :=
  (spells_alt_iff.mp h).imp map_plainLetter_of_spells_word map_plainLetter_of_spells_word

theorem isBlank_eq_false_of_spells_tableWord {word : List Char}
    (h : (Pattern.alt (.word "FROM") (.word "REFERENCES")).Spells word) :
    ∀ x ∈ word, isBlank x = false := by
  intro x hx
  rcases spells_alt_iff.mp h with hfrom | hreferences
  · exact isBlank_eq_false_of_isFirstChar (isFirstChar_of_spells_word (by decide) hfrom x hx)
  · exact isBlank_eq_false_of_isFirstChar (isFirstChar_of_spells_word (by decide) hreferences x hx)

-- The two words end in different letters.
theorem length_eq_of_spells_tableWord {front front' word word' : List Char}
    (h : (Pattern.alt (.word "FROM") (.word "REFERENCES")).Spells word)
    (h' : (Pattern.alt (.word "FROM") (.word "REFERENCES")).Spells word')
    (heq : front ++ word = front' ++ word') : word.length = word'.length := by
  have hlast := congrArg (fun text => (text.map plainLetter).getLast?) heq
  simp only [List.map_append, List.getLast?_append] at hlast
  suffices hletters : (word.map plainLetter).length = (word'.map plainLetter).length by
    simpa using hletters
  rcases map_plainLetter_of_spells_tableWord h with hword | hword
  · rcases map_plainLetter_of_spells_tableWord h' with hword' | hword'
    · rw [hword, hword']
    · simp [hword, hword'] at hlast
  · rcases map_plainLetter_of_spells_tableWord h' with hword' | hword'
    · simp [hword, hword'] at hlast
    · rw [hword, hword']

theorem EndsInTableWord.space_eq {text before word space : List Char}
    (h : EndsInTableWord text before word space) :
    space = (text.reverse.takeWhile isBlank).reverse := by
  have htext : text.reverse = space.reverse ++ (word.reverse ++ before.reverse) := by
    rw [h.text_eq, List.reverse_append, List.reverse_append, List.append_assoc]
  have hhead : ∀ x ∈ (word.reverse ++ before.reverse).head?, isBlank x = false := by
    obtain ⟨x, later, hword, -⟩ := exists_cons_of_spells_tableWord h.spells
    intro y hy
    rw [List.head?_append_of_ne_nil _ (by simp [hword])] at hy
    exact isBlank_eq_false_of_spells_tableWord h.spells y
      (List.mem_reverse.mp (List.mem_of_mem_head? hy))
  rw [htext, takeWhile_append_of_head (by simpa using h.blank) hhead, List.reverse_reverse]

theorem EndsInTableWord.unique {text before word space before' word' space' : List Char}
    (h : EndsInTableWord text before word space) (h' : EndsInTableWord text before' word' space') :
    before = before' ∧ word = word' ∧ space = space' := by
  obtain rfl : space = space' := h.space_eq.trans h'.space_eq.symm
  have heq : before ++ word = before' ++ word' := by
    have htext := h.text_eq.symm.trans h'.text_eq
    rw [← List.append_assoc, ← List.append_assoc] at htext
    exact List.append_cancel_right htext
  obtain ⟨rfl, rfl⟩ := List.append_inj' heq (length_eq_of_spells_tableWord h.spells h'.spells heq)
  exact ⟨rfl, rfl, rfl⟩

/-! ### The window -/

/-- Directly before a place stands a word after which a table is named, however many blanks follow
it. -/
def FollowsTableWord (c : Cursor) : Prop :=
  ∃ before word space, EndsInTableWord c.back.reverse before word space ∧ EndsOutsideWord before

theorem followsTableWord_iff {c : Cursor} :
    FollowsTableWord c ↔ beforeTable.occursIn c.back.reverse = true :=
  occursIn_beforeTable_iff.symm

instance (c : Cursor) : Decidable (FollowsTableWord c) :=
  decidable_of_iff _ followsTableWord_iff.symm

theorem endsOutsideWord_nil : EndsOutsideWord [] := by simp [EndsOutsideWord]

theorem endsOutsideWord_append {front later : List Char} (hne : later ≠ []) :
    EndsOutsideWord (front ++ later) ↔ EndsOutsideWord later := by
  rw [EndsOutsideWord, EndsOutsideWord, List.getLast?_append_of_ne_nil _ hne]

theorem EndsOutsideWord.drop {text : List Char} (h : EndsOutsideWord text) (n : Nat) :
    EndsOutsideWord (text.drop n) := by
  by_cases hnil : text.drop n = []
  · rw [hnil]
    exact endsOutsideWord_nil
  · rwa [← List.take_append_drop n text, endsOutsideWord_append hnil] at h

/-- What is found in a window of the last characters of a text. -/
theorem occursIn_window_iff {text : List Char} (size : Nat) :
    beforeTable.occursIn (text.drop (text.length - size)) = true ↔
      ∃ before word space, EndsInTableWord text before word space ∧
        word.length + space.length ≤ size ∧
        (EndsOutsideWord before ∨ word.length + space.length = size) := by
  rw [occursIn_beforeTable_iff]
  constructor
  · rintro ⟨before, word, space, ⟨hwindow, hspells, hblank⟩, houtside⟩
    have htext : text = text.take (text.length - size) ++ before ++ (word ++ space) := by
      rw [List.append_assoc, ← hwindow, List.take_append_drop]
    have hsize : text.length - (text.length - size) =
        before.length + (word.length + space.length) := by
      rw [← List.length_drop, hwindow, List.length_append, List.length_append]
    refine ⟨_, word, space, ⟨htext, hspells, hblank⟩, by omega, ?_⟩
    by_cases hbefore : before = []
    · -- the word begins where the window does, which may be the start of the text
      rw [hbefore, List.append_nil]
      rw [hbefore, List.length_nil] at hsize
      rcases Nat.eq_zero_or_pos (text.length - size) with hzero | hpos
      · rw [hzero, List.take_zero]
        exact .inl endsOutsideWord_nil
      · exact .inr (by omega)
    · exact .inl ((endsOutsideWord_append hbefore).mpr houtside)
  · rintro ⟨before, word, space, ⟨rfl, hspells, hblank⟩, hle, hstart⟩
    have hsize : (before ++ (word ++ space)).length =
        before.length + (word.length + space.length) := by
      rw [List.length_append, List.length_append]
    rw [List.drop_append_of_le_length (by omega)]
    refine ⟨_, word, space, ⟨rfl, hspells, hblank⟩, ?_⟩
    rcases hstart with houtside | heq
    · exact houtside.drop _
    · rw [hsize, heq, Nat.add_sub_cancel, List.drop_length]
      exact endsOutsideWord_nil

theorem inTablePosition_iff {c : Cursor} :
    inTablePosition c = true ↔
      ∃ before word space, EndsInTableWord c.back.reverse before word space ∧
        word.length + space.length ≤ lookBack ∧
        (EndsOutsideWord before ∨ word.length + space.length = lookBack) := by
  rw [inTablePosition, List.reverse_take, ← @List.length_reverse _ c.back]
  exact occursIn_window_iff lookBack

section

variable {c : Cursor} {before word space : List Char}
  (h : EndsInTableWord c.back.reverse before word space)

include h

theorem EndsInTableWord.inTablePosition_iff :
    inTablePosition c = true ↔ word.length + space.length ≤ lookBack ∧
      (EndsOutsideWord before ∨ word.length + space.length = lookBack) := by
  rw [Script.inTablePosition_iff]
  constructor
  · rintro ⟨before', word', space', h', hfound⟩
    obtain ⟨rfl, rfl, rfl⟩ := h.unique h'
    exact hfound
  · intro hfound
    exact ⟨before, word, space, h, hfound⟩

theorem EndsInTableWord.followsTableWord_iff : FollowsTableWord c ↔ EndsOutsideWord before := by
  constructor
  · rintro ⟨before', word', space', h', houtside⟩
    obtain ⟨rfl, -, -⟩ := h.unique h'
    exact houtside
  · intro houtside
    exact ⟨before, word, space, h, houtside⟩

end

/-! ### Called names -/

/-- The window shows what the whole text before a place shows exactly if the word before a table and
the blanks behind it fit into the window, and letters that continue another word do not fill it.  A
name behind such a word is passed over as far as the window reaches, and is reported like any other
called name from there on. -/
theorem inTablePosition_iff_followsTableWord_iff (c : Cursor) :
    ((inTablePosition c = true ↔ FollowsTableWord c) ↔
      ∀ before word space, EndsInTableWord c.back.reverse before word space →
        (EndsOutsideWord before → word.length + space.length ≤ lookBack) ∧
        (¬ EndsOutsideWord before → word.length + space.length ≠ lookBack)) ∧
    ∀ (ctx : Context) (hit : Hit) (before word space : List Char), hit.start = c →
      EndsInTableWord c.back.reverse before word space → EndsOutsideWord before →
        Search.scalarFunction? ctx hit =
          if word.length + space.length ≤ lookBack then none
          else Search.calledFunction? ctx hit.body := by
  refine ⟨⟨?_, ?_⟩, ?_⟩
  · intro hagree before word space h
    rw [h.inTablePosition_iff, h.followsTableWord_iff] at hagree
    refine ⟨fun houtside => (hagree.mpr houtside).1, fun hinside hfills => hinside ?_⟩
    exact hagree.mp ⟨by omega, .inr hfills⟩
  · intro hfits
    constructor
    · intro hseen
      obtain ⟨before, word, space, h, hle, hstart⟩ := inTablePosition_iff.mp hseen
      refine h.followsTableWord_iff.mpr (by_contra fun hinside => ?_)
      exact (hfits before word space h).2 hinside (hstart.resolve_left hinside)
    · rintro ⟨before, word, space, h, houtside⟩
      exact h.inTablePosition_iff.mpr ⟨(hfits before word space h).1 houtside, .inl houtside⟩
  · rintro ctx hit before word space rfl h houtside
    have hseen : inTablePosition hit.start = true ↔ word.length + space.length ≤ lookBack := by
      rw [h.inTablePosition_iff]
      exact and_iff_left (.inl houtside)
    rw [Search.scalarFunction?_eq]
    simp only [hseen]

/-- A foreign key: the referenced table stands where a function could be called. -/
theorem inTablePosition_iff_followsTableWord_iff_foreignKey :
    let t : DbObject := ⟨"t", .table, by decide⟩
    let clean := "CREATE TABLE t (a INT REFERENCES u(id))".toList
    let c := (Cursor.start clean).skip 33
    let hit : Hit := ⟨c, c, c.skip 1, c.skip 2⟩
    let before := "CREATE TABLE t (a INT ".toList
    EndsInTableWord c.back.reverse before "REFERENCES".toList [' '] ∧ EndsOutsideWord before ∧
    calledName.hit? c = some hit ∧
    (inTablePosition c = true ↔ FollowsTableWord c) ∧
    Search.scalarFunction? (startContext clean t) hit = none := by
  intro t clean c hit before
  have hends : EndsInTableWord c.back.reverse before "REFERENCES".toList [' '] := by
    refine ⟨by decide +kernel, (matchesWhole_iff (by decide)).mp (by decide +kernel), ?_⟩
    intro x hx
    rw [List.mem_singleton.mp hx]
    decide
  have houtside : EndsOutsideWord before := by
    rintro x ⟨⟩
    decide
  obtain ⟨hagree, hname⟩ := inTablePosition_iff_followsTableWord_iff c
  refine ⟨hends, houtside, rfl, hagree.mpr ?_, hname _ hit _ _ _ rfl hends houtside⟩
  intro before' word' space' h'
  obtain ⟨rfl, rfl, rfl⟩ := hends.unique h'
  exact ⟨fun _ => by decide, fun hinside => (hinside houtside).elim⟩

/-- Behind enough blanks the referenced table is reported as a function.  A word that merely ends in
the letters of the other one keeps a function from being reported if the window begins between
them. -/
theorem not_inTablePosition_iff_followsTableWord :
    let t : DbObject := ⟨"t", .table, by decide⟩
    let v : DbObject := ⟨"v", .view, by decide⟩
    let spaces (n : Nat) := String.ofList (List.replicate n ' ')
    let distant := "CREATE TABLE t (a INT REFERENCES" ++ spaces 55 ++ "u(id))"
    let glued := "CREATE VIEW v AS SELECT xREFERENCES" ++ spaces 54 ++ "f(1)"
    let c := (Cursor.start distant.toList).skip 87
    let d := (Cursor.start glued.toList).skip 89
    FollowsTableWord c ∧ inTablePosition c = false ∧
    parse distant = .ok (some ⟨t, [⟨t, "u", .userFunction, by decide⟩]⟩) ∧
    ¬ FollowsTableWord d ∧ inTablePosition d = true ∧ parse glued = .ok (some ⟨v, []⟩) := by
  decide +kernel

end ScriptGraph.Script
