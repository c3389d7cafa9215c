import Mathlib.Data.List.TakeWhile
import ScriptGraph.Proofs.Name
import ScriptGraph.Proofs.Script.SmallLetters
import ScriptGraph.Proofs.Text.HoleSearch

/-!
# Names with open parts

A path of identifiers may have open names among its identifiers.  Its key then has the same parts
whatever these names hold, except that each open name gives the part of its content.
-/

namespace ScriptGraph.Text

theorem trim_append {front core back : List Char} (hfront : ∀ x ∈ front, isBlank x = true)
    (hback : ∀ x ∈ back, isBlank x = true) (hhead : ∀ x ∈ core.head?, isBlank x = false)
    (hlast : ∀ x ∈ core.getLast?, isBlank x = false) (hne : core ≠ []) :
    trim (front ++ (core ++ back)) = core := by
  have hdrop : ∀ {l : List Char}, (∀ x ∈ l.head?, isBlank x = false) → l.dropWhile isBlank = l := by
    intro l hl
    cases l with
    | nil => rfl
    | cons x l => simp [hl x rfl]
  have hstart : ∀ x ∈ (core ++ back).head?, isBlank x = false := by
    intro x hx
    rw [List.head?_append_of_ne_nil _ hne] at hx
    exact hhead x hx
  have hend : ∀ x ∈ core.reverse.head?, isBlank x = false := by
    rwa [List.head?_reverse]
  rw [trim, trimStart, List.dropWhile_append_of_pos hfront, hdrop hstart, trimEnd,
    List.reverse_append, List.dropWhile_append_of_pos (by simpa using hback), hdrop hend,
    List.reverse_reverse]

theorem mem_trim {text : List Char} {x : Char} (hx : x ∈ text) (hblank : isBlank x = false) :
    x ∈ trim text := by
  have hdrop : ∀ {l : List Char}, x ∈ l → x ∈ l.dropWhile isBlank := by
    intro l hl
    have hsplit : x ∈ l.takeWhile isBlank ++ l.dropWhile isBlank := by
      rwa [List.takeWhile_append_dropWhile]
    rcases List.mem_append.mp hsplit with htake | hdrop
    · have hyes := List.mem_takeWhile_imp htake
      rw [hblank] at hyes
      cases hyes
    · exact hdrop
  exact List.mem_reverse.mpr (hdrop (List.mem_reverse.mpr (hdrop hx)))

theorem trim_ne_nil {text : List Char} (h : allBlank text = false) : trim text ≠ [] := by
  obtain ⟨x, hx, hblank⟩ : ∃ x ∈ text, isBlank x = false := by simpa [allBlank] using h
  exact List.ne_nil_of_mem (mem_trim hx hblank)

theorem foldExpansions_ne_nil : ∀ entry ∈ foldExpansions, entry.2 ≠ [] := by
  decide +kernel

theorem foldChar_ne_nil (c : Char) : foldChar c ≠ [] := by
  unfold foldChar mapCase
  split
  · split <;> simp
  · split
    · rename_i codes hlookup
      have hmem := Entries.mem_of_lookup_eq_some hlookup
      simpa using foldExpansions_ne_nil _ hmem
    · split <;> simp

theorem fold_ne_nil {text : List Char} (h : text ≠ []) : fold text ≠ [] := by
  obtain ⟨x, rest, rfl⟩ := List.exists_cons_of_ne_nil h
  rw [fold, List.flatMap_cons]
  exact List.append_ne_nil_of_left_ne_nil (foldChar_ne_nil x) _

theorem fold_intercalate (pieces : List (List Char)) :
    fold (['.'].intercalate pieces) = ['.'].intercalate (pieces.map fold) := by
  have happend : ∀ a b : List Char, fold (a ++ b) = fold a ++ fold b := fun a b =>
    List.flatMap_append
  have hdot : fold ['.'] = ['.'] := by decide +kernel
  induction pieces with
  | nil => rfl
  | cons piece later ih =>
      cases later with
      | nil => simp [List.intercalate_singleton]
      | cons next later =>
          rw [List.map_cons, List.map_cons, List.intercalate_cons_cons, List.intercalate_cons_cons,
            ← List.map_cons, ← ih, happend, happend, hdot]

end ScriptGraph.Text

namespace ScriptGraph.Name

open Text Pattern

/-! ### Parts between dots -/

theorem parts_append_dot {front : List Char} (h : '.' ∉ front) (rest : List Char) :
    parts (front ++ '.' :: rest) = front :: parts rest := by
  have hne : ∀ text, parts text ≠ [] := by
    intro text
    cases text with
    | nil => simp [parts]
    | cons c text =>
        rw [parts]
        split
        · simp
        · split <;> simp
  induction front with
  | nil =>
      obtain ⟨part, later, heq⟩ := List.exists_cons_of_ne_nil (hne rest)
      simp [parts, heq]
  | cons c front ih =>
      obtain ⟨hc, hfront⟩ : '.' ≠ c ∧ '.' ∉ front := by simpa using h
      have hdot : (c == '.') = false := beq_false_of_ne (Ne.symm hc)
      rw [List.cons_append, parts, ih hfront]
      simp [hdot]

theorem parts_intercalate {pieces : List (List Char)} (h : ∀ piece ∈ pieces, '.' ∉ piece)
    (hne : pieces ≠ []) : parts (['.'].intercalate pieces) = pieces := by
  induction pieces with
  | nil => exact absurd rfl hne
  | cons piece later ih =>
      cases later with
      | nil =>
          rw [List.intercalate_singleton]
          exact parts_eq_singleton (h piece List.mem_cons_self)
      | cons next later =>
          have hlater := ih (fun p hp => h p (List.mem_cons_of_mem _ hp)) (by simp)
          rw [List.intercalate_cons_cons, List.append_assoc, List.singleton_append,
            parts_append_dot (h piece List.mem_cons_self), hlater]

/-! ### Pieces of slots that names cover -/

def dot : Slot := .char '.' (by decide)

def IsBlanks (w : List Slot) : Prop := ∀ s ∈ w, s.isChar isBlank = true

/-- An open name, or characters of a bare identifier. -/
def IsIdentifier (w : List Slot) : Prop :=
  w = [.hole] ∨ w ≠ [] ∧ ∀ s ∈ w, s.isChar (fun x => !isBlank x && x != '.') = true

/-- A dot with blanks around it, and an identifier. -/
def IsFurtherPart (w : List Slot) : Prop :=
  ∃ a b i, w = a ++ dot :: (b ++ i) ∧ IsBlanks a ∧ IsBlanks b ∧ IsIdentifier i

def IsPath (w : List Slot) : Prop :=
  ∃ i later, w = i ++ later ∧ IsIdentifier i ∧ Traces.Repeated IsFurtherPart later

theorem isChar_mono {accepts accepts' : Char → Bool} (h : ∀ x, accepts x = true → accepts' x = true)
    {s : Slot} (hs : s.isChar accepts = true) : s.isChar accepts' = true := by
  cases s with
  | char x _ => exact h x hs
  | hole => exact hs

theorem traces_blanks : blanks.Traces IsBlanks := Traces.run (by decide)

theorem traces_identifierFrom {first : Char → Bool} (hbracket : first '[' = false)
    (hfirst : ∀ x, first x = true → isBlank x = false ∧ x ≠ '.') :
    (identifierFrom first).Traces IsIdentifier := by
  have hname : ∀ x, isNameChar x = true → (!isBlank x && x != '.') = true := by
    intro x hx
    have hblank := isBlank_eq_false_of_isNameChar hx
    have hdot : x ≠ '.' := by
      rintro rfl
      exact absurd hx (by decide)
    simp [hblank, hdot]
  have hbare : (Pattern.seq (.one first) (.run isNameChar)).Traces IsIdentifier := by
    apply (Traces.seq (Traces.one hbracket) (Traces.run (by decide))).mono
    rintro w ⟨u, v, rfl, ⟨s, rfl, hs⟩, hv⟩
    refine .inr ⟨by simp, ?_⟩
    intro t ht
    rcases List.mem_append.mp ht with ht | ht
    · obtain rfl := List.mem_singleton.mp ht
      exact isChar_mono (fun x hx => by simp [hfirst x hx]) hs
    · exact isChar_mono hname (hv t ht)
  apply (Traces.alt Traces.bracketed (Traces.alt Traces.quoted hbare)).mono
  rintro w (rfl | hquoted | hw)
  · exact .inl rfl
  · exact hquoted.elim
  · exact hw

theorem traces_furtherPart {first : Char → Bool} (h : (identifierFrom first).Traces IsIdentifier) :
    (furtherPart first).Traces IsFurtherPart := by
  have hdot : (Pattern.char '.').Traces (· = [dot]) := by
    apply (Traces.one (by decide)).mono
    rintro w ⟨s, rfl, hs⟩
    cases s with
    | char x hx =>
        obtain rfl : x = '.' := eq_of_beq hs
        rfl
    | hole => cases hs
  apply (Traces.seq traces_blanks (Traces.seq hdot (Traces.seq traces_blanks h))).mono
  rintro w ⟨a, w', rfl, ha, u, w'', rfl, rfl, b, i, rfl, hb, hi⟩
  exact ⟨a, b, i, rfl, ha, hb, hi⟩

theorem traces_pathFrom {first : Char → Bool} (h : (identifierFrom first).Traces IsIdentifier) :
    (pathFrom first).Traces IsPath := by
  apply Traces.seq h (Traces.many (traces_furtherPart h) _)
  rintro w ⟨a, b, i, rfl, -⟩
  simp

theorem traces_identifier : identifier.Traces IsIdentifier := by
  apply traces_identifierFrom (by decide)
  intro x hx
  refine ⟨isBlank_eq_false_of_isFirstChar hx, ?_⟩
  rintro rfl
  exact absurd hx (by decide)

theorem traces_path : path.Traces IsPath := traces_pathFrom traces_identifier

theorem traces_plainPath : plainPath.Traces IsPath := by
  apply traces_pathFrom
  apply traces_identifierFrom (by decide)
  intro x hx
  have hx := isFirstChar_of_isPlainFirstChar hx
  refine ⟨isBlank_eq_false_of_isFirstChar hx, ?_⟩
  rintro rfl
  exact absurd hx (by decide)

theorem traces_qualifiedPath : qualifiedPath.Traces IsPath := by
  have hfurther := traces_furtherPart traces_identifier
  have hne : ∀ w, IsFurtherPart w → w ≠ [] := by
    rintro w ⟨a, b, i, rfl, -⟩
    simp
  apply (Traces.seq traces_identifier (Traces.seq hfurther (Traces.many hfurther hne))).mono
  rintro w ⟨i, w', rfl, hi, u, v, rfl, hu, hv⟩
  exact ⟨i, u ++ v, rfl, hi, .cons hu hv⟩

theorem IsPath.exists_cons {w : List Slot} (h : IsPath w) (content : Content) :
    ∃ x rest, Slot.fill content w = x :: rest ∧ isBlank x = false := by
  obtain ⟨i, later, rfl, hi, -⟩ := h
  rcases hi with rfl | ⟨hne, hi⟩
  · exact ⟨'[', _, Slot.fill_hole, by decide⟩
  · obtain ⟨s, i, rfl⟩ := List.exists_cons_of_ne_nil hne
    cases s with
    | hole => cases hi _ List.mem_cons_self
    | char x hx =>
        have hchar : isBlank x = false ∧ x ≠ '.' := by
          simpa [Slot.isChar] using hi _ List.mem_cons_self
        exact ⟨x, _, Slot.fill_char, hchar.1⟩

/-! ### Parts of names -/

/-- The part of a key that a part of a name gives; without a text it is that of the open name. -/
def partKey (content : Content) (part : Option (List Char)) : List Char :=
  fold (part.getD (trim content.chars))

/-- The slots spell a name with the given parts, of which the open ones have no text. -/
structure Denotes (w : List Slot) (found : List (Option (List Char))) : Prop where
  ne_nil : found ≠ []
  plain : ∀ part, some part ∈ found → part ≠ [] ∧ '.' ∉ part
  significantParts_eq : ∀ content,
    significantParts (Slot.fill content w) = found.map (·.getD (trim content.chars))
  fill_eq : none ∉ found → ∀ content content', Slot.fill content w = Slot.fill content' w
  bracket_mem : none ∈ found → ∀ content, '[' ∈ Slot.fill content w

theorem exists_char_of_mem_fill {accepts : Char → Bool} {w : List Slot}
    (h : ∀ s ∈ w, s.isChar accepts = true) {content : Content} {x : Char}
    (hx : x ∈ Slot.fill content w) : accepts x = true ∧ isDelimiter x = false := by
  obtain ⟨s, hs, hx⟩ := List.mem_flatMap.mp hx
  have haccepts := h s hs
  cases s with
  | char y hy =>
      obtain rfl := List.mem_singleton.mp hx
      exact ⟨haccepts, hy⟩
  | hole => cases haccepts

/-- The slots spell one part of a name, without a text if it is open. -/
structure IsPart (w : List Slot) (part : Option (List Char)) : Prop where
  plain : ∀ text, part = some text → text ≠ [] ∧ '.' ∉ text
  bare_eq : ∀ content, bare (Slot.fill content w) = part.getD (trim content.chars)
  dot_notMem : ∀ content, '.' ∉ Slot.fill content w
  fill_eq : part ≠ none → ∀ content content', Slot.fill content w = Slot.fill content' w
  bracket_mem : part = none → ∀ content, '[' ∈ Slot.fill content w

section

variable {a b : List Slot}

theorem isBlank_of_mem_fill (ha : IsBlanks a) {content : Content} {x : Char}
    (hx : x ∈ Slot.fill content a) : isBlank x = true := (exists_char_of_mem_fill ha hx).1

theorem IsBlanks.dot_notMem (ha : IsBlanks a) (content : Content) : '.' ∉ Slot.fill content a :=
  fun hmem => absurd (isBlank_of_mem_fill ha hmem) (by decide)

theorem isPart_hole (ha : IsBlanks a) (hb : IsBlanks b) : IsPart (a ++ ([.hole] ++ b)) none where
  plain := by simp
  bare_eq := by
    intro content
    have hlast : ('[' :: (content.chars ++ [']'])).getLast? = some ']' := by
      rw [← List.cons_append, List.getLast?_concat]
    have hcore : trim (Slot.fill content a ++
        ('[' :: (content.chars ++ [']']) ++ Slot.fill content b)) = _ :=
      trim_append (fun _ => isBlank_of_mem_fill ha) (fun _ => isBlank_of_mem_fill hb)
        (by simp; decide) (by simp [hlast]; decide) (by simp)
    have htrim : trim (Slot.fill content (a ++ ([.hole] ++ b))) =
        '[' :: (content.chars ++ [']']) := by simpa using hcore
    rw [bare_cons htrim]
    simp
  dot_notMem := by
    intro content
    have hchars : '.' ∉ content.chars := fun hmem => (content.plain _ hmem).2.1 rfl
    simp [ha.dot_notMem content, hb.dot_notMem content, hchars]
  fill_eq := fun h => absurd rfl h
  bracket_mem := by simp

theorem isPart_bare (ha : IsBlanks a) (hb : IsBlanks b) {i : List Slot} (hne : i ≠ [])
    (hi : ∀ s ∈ i, s.isChar (fun x => !isBlank x && x != '.') = true) :
    IsPart (a ++ (i ++ b)) (some (Slot.fill default i)) := by
  have hchar : ∀ {content : Content}, ∀ x ∈ Slot.fill content i,
      isBlank x = false ∧ x ≠ '.' ∧ isDelimiter x = false := by
    intro content x hx
    obtain ⟨haccepts, hdelimiter⟩ := exists_char_of_mem_fill hi hx
    have hboth : isBlank x = false ∧ x ≠ '.' := by simpa using haccepts
    exact ⟨hboth.1, hboth.2, hdelimiter⟩
  have hfill : ∀ content : Content, Slot.fill content i ≠ [] :=
    fun _ hnil => hne (Slot.fill_eq_nil_iff.mp hnil)
  refine ⟨?_, fun content => ?_, fun content => ?_, fun _ => ?_, by simp⟩
  · rintro text ⟨⟩
    exact ⟨hfill default, fun hmem => (hchar _ hmem).2.1 rfl⟩
  · rw [Option.getD_some, Slot.fill_eq_of_hole_notMem (Slot.hole_notMem hi) default content]
    have htrim : trim (Slot.fill content (a ++ (i ++ b))) = Slot.fill content i := by
      rw [Slot.fill_append, Slot.fill_append]
      exact trim_append (fun _ => isBlank_of_mem_fill ha) (fun _ => isBlank_of_mem_fill hb)
        (fun x hx => (hchar x (List.mem_of_mem_head? hx)).1)
        (fun x hx => (hchar x (List.mem_of_mem_getLast? hx)).1) (hfill content)
    obtain ⟨x, inner, hx⟩ := List.exists_cons_of_ne_nil (hfill content)
    have hdelimiter := (hchar x (hx ▸ List.mem_cons_self)).2.2
    rw [hx] at htrim
    rw [bare_cons htrim, hx, if_neg]
    intro hcond
    simp only [isDelimiter, Bool.or_eq_false_iff] at hdelimiter
    simp [hdelimiter] at hcond
  · simp only [Slot.fill_append, List.mem_append, not_or]
    exact ⟨ha.dot_notMem content, fun hmem => (hchar _ hmem).2.1 rfl, hb.dot_notMem content⟩
  · apply Slot.fill_eq_of_hole_notMem
    simp only [List.mem_append, not_or]
    exact ⟨Slot.hole_notMem ha, Slot.hole_notMem hi, Slot.hole_notMem hb⟩

theorem IsIdentifier.exists_isPart {i : List Slot} (hi : IsIdentifier i) (ha : IsBlanks a)
    (hb : IsBlanks b) : ∃ part, IsPart (a ++ (i ++ b)) part := by
  rcases hi with rfl | ⟨hne, hi⟩
  · exact ⟨none, isPart_hole ha hb⟩
  · exact ⟨_, isPart_bare ha hb hne hi⟩

end

theorem IsPart.isEmpty_eq {w : List Slot} {part : Option (List Char)} (h : IsPart w part)
    (content : Content) : (part.getD (trim content.chars)).isEmpty = false := by
  cases part with
  | none => simpa using trim_ne_nil content.named
  | some text => simpa using (h.plain text rfl).1

theorem IsPart.denotes {w : List Slot} {part : Option (List Char)} (h : IsPart w part) :
    Denotes w [part] where
  ne_nil := by simp
  plain := fun text htext => h.plain text (List.mem_singleton.mp htext).symm
  significantParts_eq := by
    intro content
    rw [significantParts, parts_eq_singleton (h.dot_notMem content), List.map_singleton,
      h.bare_eq, List.filter_singleton, h.isEmpty_eq]
    rfl
  fill_eq := fun hnone => h.fill_eq fun hpart => hnone (by simp [hpart])
  bracket_mem := fun hnone => h.bracket_mem (List.mem_singleton.mp hnone).symm

theorem IsPart.denotes_further {w later : List Slot} {part : Option (List Char)}
    {found : List (Option (List Char))} (h : IsPart w part) (hlater : Denotes later found) :
    Denotes (w ++ dot :: later) (part :: found) where
  ne_nil := by simp
  plain := by
    intro text htext
    rcases List.mem_cons.mp htext with hpart | hfound
    · exact h.plain text hpart.symm
    · exact hlater.plain text hfound
  significantParts_eq := by
    intro content
    have hparts := parts_append_dot (h.dot_notMem content) (Slot.fill content later)
    have hfill : Slot.fill content (w ++ dot :: later) =
        Slot.fill content w ++ '.' :: Slot.fill content later := by
      simp [dot]
    rw [significantParts, hfill, hparts, List.map_cons, h.bare_eq, List.filter_cons, h.isEmpty_eq,
      ← significantParts, hlater.significantParts_eq]
    rfl
  fill_eq := by
    intro hnone content content'
    obtain ⟨hpart, hfound⟩ : none ≠ part ∧ none ∉ found := by simpa using hnone
    rw [Slot.fill_append, Slot.fill_append, dot, Slot.fill_char, Slot.fill_char,
      h.fill_eq (Ne.symm hpart) content content', hlater.fill_eq hfound content content']
  bracket_mem := by
    intro hnone content
    rw [Slot.fill_append, dot, Slot.fill_char]
    rcases List.mem_cons.mp hnone with hpart | hfound
    · exact List.mem_append_left _ (h.bracket_mem hpart.symm content)
    · exact List.mem_append_right _ (List.mem_cons_of_mem _ (hlater.bracket_mem hfound content))

/-- A path is a name, whatever the open names in it hold. -/
theorem IsPath.exists_denotes {w : List Slot} (h : IsPath w) : ∃ found, Denotes w found := by
  have hnil : IsBlanks [] := fun _ hs => absurd hs List.not_mem_nil
  have hlater : ∀ {later : List Slot}, Traces.Repeated IsFurtherPart later →
      ∀ {a i : List Slot}, IsBlanks a → IsIdentifier i →
        ∃ found, Denotes (a ++ (i ++ later)) found := by
    intro later hlater
    induction hlater with
    | nil =>
        intro a i ha hi
        obtain ⟨part, hpart⟩ := hi.exists_isPart ha hnil
        exact ⟨[part], hpart.denotes⟩
    | cons hu _ ih =>
        -- The first part ends before the dot of the next one, with the blanks there.
        intro a i ha hi
        obtain ⟨b, b', i', rfl, hb, hb', hi'⟩ := hu
        obtain ⟨part, hpart⟩ := hi.exists_isPart ha hb
        obtain ⟨found, hfound⟩ := ih hb' hi'
        exact ⟨part :: found, by simpa using hpart.denotes_further hfound⟩
  obtain ⟨i, later, rfl, hi, hrepeated⟩ := h
  exact hlater hrepeated hnil hi

/-! ### Keys of names -/

namespace Denotes

variable {w : List Slot} {found : List (Option (List Char))}

theorem key_eq (h : Denotes w found) (content : Content) :
    key (String.ofList (Slot.fill content w)) =
      String.ofList (['.'].intercalate (found.map (partKey content))) := by
  rw [key, String.toList_ofList, keyChars, h.significantParts_eq, fold_intercalate, List.map_map]
  rfl

theorem partKey_ne_nil (h : Denotes w found) (content : Content) {part : Option (List Char)}
    (hpart : part ∈ found) : partKey content part ≠ [] := by
  apply fold_ne_nil
  cases part with
  | none => exact trim_ne_nil content.named
  | some text => exact (h.plain text hpart).1

theorem dot_notMem_partKey (h : Denotes w found) (content : Content) {part : Option (List Char)}
    (hpart : part ∈ found) : '.' ∉ partKey content part := by
  intro hmem
  have hdot := dot_mem_of_mem_fold hmem
  cases part with
  | none => exact (content.plain _ (mem_of_mem_trim hdot)).2.1 rfl
  | some text => exact (h.plain text hpart).2 hdot

theorem parts_key (h : Denotes w found) (content : Content) :
    parts (key (String.ofList (Slot.fill content w))).toList = found.map (partKey content) := by
  rw [h.key_eq, String.toList_ofList]
  apply parts_intercalate
  · intro piece hpiece
    obtain ⟨part, hpart, rfl⟩ := List.mem_map.mp hpiece
    exact h.dot_notMem_partKey content hpart
  · simpa using h.ne_nil

theorem key_ne_empty (h : Denotes w found) (content : Content) :
    key (String.ofList (Slot.fill content w)) ≠ "" := by
  intro hempty
  have hparts := h.parts_key content
  have hnil : parts ("" : String).toList = [[]] := rfl
  rw [hempty, hnil] at hparts
  obtain ⟨part, hpart, hkey⟩ : ∃ part ∈ found, partKey content part = [] :=
    List.mem_map.mp (hparts ▸ List.mem_singleton_self _)
  exact h.partKey_ne_nil content hpart hkey

/-- A test of the name's text has the same answer for all contents, if it fails on brackets. -/
theorem test_fill_eq (h : Denotes w found) (test : List Char → Bool)
    (htest : ∀ text, '[' ∈ text → test text = false) (content content' : Content) :
    test (Slot.fill content w) = test (Slot.fill content' w) := by
  by_cases hopen : none ∈ found
  · rw [htest _ (h.bracket_mem hopen content), htest _ (h.bracket_mem hopen content')]
  · rw [h.fill_eq hopen content content']

end Denotes

def IsName (w : List Slot) : Prop := ∃ found, Denotes w found

theorem IsPath.isName {w : List Slot} (h : IsPath w) : IsName w := h.exists_denotes

theorem IsIdentifier.isName {w : List Slot} (h : IsIdentifier w) : IsName w :=
  IsPath.isName ⟨w, [], (List.append_nil w).symm, h, .nil⟩

/-- Up to its first dot, a path is a name as well; where the dot is depends on the slots only. -/
theorem IsPath.exists_firstPart {w : List Slot} (h : IsPath w) :
    ∃ (dotted : Bool) (first : List Slot), IsName first ∧ ∀ content,
      (Slot.fill content w).contains '.' = dotted ∧
        (Slot.fill content w).takeWhile (· != '.') = Slot.fill content first := by
  have hnil : IsBlanks [] := fun _ hs => absurd hs List.not_mem_nil
  obtain ⟨i, later, rfl, hi, hlater⟩ := h
  cases hlater with
  | nil =>
      obtain ⟨part, hpart⟩ := hi.exists_isPart hnil hnil
      simp only [List.nil_append] at hpart
      refine ⟨false, i ++ [], ⟨_, hpart.denotes⟩, fun content => ⟨?_, ?_⟩⟩
      · simpa using hpart.dot_notMem content
      · rw [List.takeWhile_eq_self_iff]
        intro x hx
        have hne : x ≠ '.' := fun hdot => hpart.dot_notMem content (hdot ▸ hx)
        simpa using hne
  | cons hu _ =>
      obtain ⟨a, b, i', rfl, ha, -, -⟩ := hu
      obtain ⟨part, hpart⟩ := hi.exists_isPart hnil ha
      simp only [List.nil_append] at hpart
      refine ⟨true, i ++ a, ⟨_, hpart.denotes⟩, fun content => ⟨?_, ?_⟩⟩
      · simp [dot]
      · have hbefore : ∀ x ∈ Slot.fill content (i ++ a), (x != '.') = true := by
          intro x hx
          have hne : x ≠ '.' := fun hdot => hpart.dot_notMem content (hdot ▸ hx)
          simpa using hne
        have hfill : ∀ rest, Slot.fill content (i ++ (a ++ dot :: rest)) =
            Slot.fill content (i ++ a) ++ '.' :: Slot.fill content rest := by simp [dot]
        rw [List.append_assoc, List.cons_append, hfill, List.takeWhile_append_of_pos hbefore]
        simp

end ScriptGraph.Name
