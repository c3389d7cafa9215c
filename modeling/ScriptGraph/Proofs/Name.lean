import Mathlib.Data.List.Basic
import ScriptGraph.Proofs.Text.Characters
import ScriptGraph.Proofs.Text.Spelling

/-!
# The shape of names

Every kind of path that is looked for is a path of one identifier or more where case is ignored.  A
path starts with no blank.  The key of a name has a dot only if the name has one, so no reserved word
has a key with a dot.
-/

namespace ScriptGraph.Text

/-! ### Trimming -/

theorem mem_of_mem_trim {text : List Char} {c : Char} (h : c ∈ trim text) : c ∈ text := by
  have hend : c ∈ (trimStart text).reverse :=
    (List.dropWhile_suffix isBlank).subset (List.mem_reverse.mp h)
  exact (List.dropWhile_suffix isBlank).subset (List.mem_reverse.mp hend)

theorem trim_eq_self {text : List Char} (h : ∀ c ∈ text, isBlank c = false) : trim text = text := by
  have hdrop : ∀ l : List Char, (∀ c ∈ l, isBlank c = false) → l.dropWhile isBlank = l := by
    intro l hl
    cases l with
    | nil => rfl
    | cons x l => simp [hl x List.mem_cons_self]
  rw [trim, trimStart, hdrop text h, trimEnd, hdrop text.reverse (by simpa using h),
    List.reverse_reverse]

end ScriptGraph.Text

namespace ScriptGraph.Name

open Text Pattern

/-! ### Paths -/

theorem isFree_path : path.isFree = true := rfl

theorem identifierFrom_mono {first first' : Char → Bool}
    (hfirst : ∀ c, first c = true → first' c = true) {w : List Char}
    (h : (identifierFrom first).Spells w) : (identifierFrom first').Spells w := by
  simp only [identifierFrom, Pattern.any] at h ⊢
  rcases spells_alt_iff.mp h with hbracket | h
  · exact .altLeft hbracket
  · rcases spells_alt_iff.mp h with hquote | hbare
    · exact .altRight (.altLeft hquote)
    · obtain ⟨a, b, rfl, ha, hb⟩ := spells_seq_iff.mp hbare
      obtain ⟨x, rfl, hx⟩ := spells_one_iff.mp ha
      exact .altRight (.altRight (.seq (.one (hfirst x hx)) hb))

theorem furtherPart_mono {first first' : Char → Bool}
    (hfirst : ∀ c, first c = true → first' c = true) {w : List Char}
    (h : (furtherPart first).Spells w) : (furtherPart first').Spells w := by
  simp only [furtherPart, Pattern.all] at h ⊢
  obtain ⟨a, w', rfl, ha, h⟩ := spells_seq_iff.mp h
  obtain ⟨b, w', rfl, hb, h⟩ := spells_seq_iff.mp h
  obtain ⟨c, d, rfl, hc, hd⟩ := spells_seq_iff.mp h
  exact .seq ha (.seq hb (.seq hc (identifierFrom_mono hfirst hd)))

theorem spells_path_of_plainPath {w : List Char} (h : plainPath.Spells w) : path.Spells w := by
  obtain ⟨a, b, rfl, ha, hb⟩ := spells_seq_iff.mp h
  refine .seq (identifierFrom_mono (fun _ => isFirstChar_of_isPlainFirstChar) ha) ?_
  exact hb.many_mono fun _ => furtherPart_mono fun _ => isFirstChar_of_isPlainFirstChar

theorem spells_path_of_qualifiedPath {w : List Char} (h : qualifiedPath.Spells w) :
    path.Spells w := by
  obtain ⟨a, w', rfl, ha, h⟩ := spells_seq_iff.mp h
  obtain ⟨b, c, rfl, hb, hc⟩ := spells_seq_iff.mp h
  exact .seq ha (.manyCons hb hc)

/-- An identifier starts with a character that is no blank. -/
theorem exists_cons_of_spells_identifier {w : List Char} (h : identifier.Spells w) :
    ∃ x rest, w = x :: rest ∧ isBlank x = false := by
  simp only [identifier, identifierFrom, Pattern.any, Pattern.all] at h
  rcases spells_alt_iff.mp h with hbracket | h
  · obtain ⟨a, b, rfl, ha, -⟩ := spells_seq_iff.mp hbracket
    obtain ⟨x, rfl, hx⟩ := spells_one_iff.mp ha
    obtain rfl : x = '[' := eq_of_beq hx
    exact ⟨_, b, rfl, by decide⟩
  · rcases spells_alt_iff.mp h with hquote | hbare
    · obtain ⟨a, b, rfl, ha, -⟩ := spells_seq_iff.mp hquote
      obtain ⟨x, rfl, hx⟩ := spells_one_iff.mp ha
      obtain rfl : x = '"' := eq_of_beq hx
      exact ⟨_, b, rfl, by decide⟩
    · obtain ⟨a, b, rfl, ha, -⟩ := spells_seq_iff.mp hbare
      obtain ⟨x, rfl, hx⟩ := spells_one_iff.mp ha
      exact ⟨x, b, rfl, isBlank_eq_false_of_isFirstChar hx⟩

theorem trimStart_gap_path {a w : List Char} (ha : gap.Spells a) (hw : path.Spells w) :
    trimStart (a ++ w) = w := by
  obtain ⟨first, later, rfl, hfirst, hlater⟩ := spells_seq_iff.mp ha
  obtain ⟨y, rfl, hy⟩ := spells_one_iff.mp hfirst
  have hblank : ∀ x ∈ [y] ++ later, isBlank x = true := by
    intro x hx
    rcases List.mem_append.mp hx with hx | hx
    · exact List.mem_singleton.mp hx ▸ hy
    · exact spells_run_iff.mp hlater x hx
  obtain ⟨id, further, rfl, hid, -⟩ := spells_seq_iff.mp hw
  obtain ⟨x, rest, rfl, hx⟩ := exists_cons_of_spells_identifier hid
  rw [trimStart, List.dropWhile_append_of_pos hblank]
  simp [hx]

/-! ### Dots in keys -/

theorem parts_eq_singleton {raw : List Char} (h : '.' ∉ raw) : parts raw = [raw] := by
  induction raw with
  | nil => rfl
  | cons c raw ih =>
      obtain ⟨hc, hraw⟩ : '.' ≠ c ∧ '.' ∉ raw := by simpa using h
      have hne : (c == '.') = false := beq_false_of_ne (Ne.symm hc)
      simp [parts, ih hraw, hne]

theorem mem_of_mem_bare {part : List Char} {c : Char} (h : c ∈ bare part) : c ∈ part := by
  unfold bare at h
  split at h
  · rename_i inner heq
    have htrim : c ∈ trim part := by
      rw [heq]
      split at h
      · exact List.mem_cons_of_mem _ (List.dropLast_subset _ (mem_of_mem_trim h))
      · exact h
    exact mem_of_mem_trim htrim
  · rename_i inner heq
    have htrim : c ∈ trim part := by
      rw [heq]
      split at h
      · exact List.mem_cons_of_mem _ (List.dropLast_subset _ (mem_of_mem_trim h))
      · exact h
    exact mem_of_mem_trim htrim
  · exact mem_of_mem_trim h

theorem dot_mem_of_mem_keyChars {raw : List Char} (h : '.' ∈ keyChars raw) : '.' ∈ raw := by
  by_contra hraw
  have hfold := dot_mem_of_mem_fold h
  rw [significantParts, parts_eq_singleton hraw] at hfold
  by_cases hempty : (bare raw).isEmpty = true
  · simp [List.intercalate, hempty] at hfold
  · have hbare : '.' ∈ bare raw := by simpa [List.intercalate, hempty] using hfold
    exact hraw (mem_of_mem_bare hbare)

/-- A name that is a reserved word has a key without a dot and nothing to trim. -/
theorem isReserved_eq_false {name : List Char}
    (h : '.' ∈ (key (String.ofList name)).toList ∨ isReserved (trim name) = false) :
    isReserved name = false := by
  rw [Bool.eq_false_iff]
  intro hreserved
  rcases h with hdot | htrim
  · have hmem : '.' ∈ name := dot_mem_of_mem_keyChars (by simpa [key] using hdot)
    exact (isBlank_eq_false_of_isReserved hreserved hmem).2 rfl
  · rw [trim_eq_self fun c hc => (isBlank_eq_false_of_isReserved hreserved hc).1] at htrim
    simp [htrim] at hreserved

end ScriptGraph.Name
