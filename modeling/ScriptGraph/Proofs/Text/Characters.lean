import ScriptGraph.Keyword
import ScriptGraph.Name
import ScriptGraph.Proofs.Entries

/-!
# Classes of characters

How the classes of characters lie to one another: letters are no blanks, a character whose
lower-case form is a letter is neither a blank nor a dot, and only a dot folds to a dot.
-/

namespace ScriptGraph.Text

theorem le_iff_toNat_le {a b : Char} : a ≤ b ↔ a.toNat ≤ b.toNat :=
  Char.le_def.trans UInt32.le_iff_toNat_le

theorem toNat_ofNat_of_isValidChar {n : Nat} (h : n.isValidChar) : (Char.ofNat n).toNat = n := by
  rw [Char.ofNat, dif_pos h]
  rfl

theorem isAsciiLetter_iff {c : Char} :
    isAsciiLetter c = true ↔
      (65 ≤ c.toNat ∧ c.toNat ≤ 90) ∨ (97 ≤ c.toNat ∧ c.toNat ≤ 122) := by
  simp [isAsciiLetter, le_iff_toNat_le]

/-! ### Letters and blanks -/

theorem toNat_plainLetter_of_isAsciiLetter {c : Char} (h : isAsciiLetter c = true) :
    97 ≤ (plainLetter c).toNat ∧ (plainLetter c).toNat ≤ 122 := by
  rcases isAsciiLetter_iff.mp h with ⟨hlow, hhigh⟩ | ⟨hlow, hhigh⟩
  · have hupper : 'A' ≤ c ∧ c ≤ 'Z' := ⟨le_iff_toNat_le.mpr hlow, le_iff_toNat_le.mpr hhigh⟩
    rw [plainLetter, if_pos hupper, toNat_ofNat_of_isValidChar (.inl (by omega))]
    omega
  · have hupper : ¬ ('A' ≤ c ∧ c ≤ 'Z') := by
      simp only [le_iff_toNat_le, Char.reduceToNat]
      omega
    rw [plainLetter, if_neg hupper, if_pos (by omega)]
    exact ⟨hlow, hhigh⟩

theorem isAsciiLetter_plainLetter {c : Char} (h : isAsciiLetter c = true) :
    isAsciiLetter (plainLetter c) = true :=
  isAsciiLetter_iff.mpr (.inr (toNat_plainLetter_of_isAsciiLetter h))

/-- The characters that can stand for a letter. -/
theorem toNat_of_isAsciiLetter_plainLetter {c : Char} (h : isAsciiLetter (plainLetter c) = true) :
    isAsciiLetter c = true ∨ c.toNat = 0x130 ∨ c.toNat = 0x131 ∨ c.toNat = 0x17f ∨
      c.toNat = 0x212a := by
  unfold plainLetter at h
  split at h
  · rename_i hupper
    simp only [le_iff_toNat_le, Char.reduceToNat] at hupper
    exact .inl (isAsciiLetter_iff.mpr (.inl hupper))
  · split at h
    · exact .inl h
    · simp only [beq_iff_eq, Bool.or_eq_true] at h
      split at h
      · exact .inr (by omega)
      · split at h
        · exact .inr (by omega)
        · split at h
          · exact .inr (by omega)
          · exact .inl h

theorem isBlank_eq_false_of_isAsciiLetter {c : Char} (h : isAsciiLetter c = true) :
    isBlank c = false := by
  have hrange := isAsciiLetter_iff.mp h
  have hascii : c.toNat < 0x80 := by omega
  simp only [isBlank, hascii, if_true, Bool.or_eq_false_iff, Bool.and_eq_false_iff,
    decide_eq_false_iff_not]
  omega

theorem isWord_eq_false_of_isBlank {c : Char} (h : isBlank c = true) : isWord c = false := by
  have hascii : ∀ n < 0x80, isBlank (Char.ofNat n) = true → isWord (Char.ofNat n) = false := by
    decide +kernel
  have hlater : ∀ n ∈ [0x85, 0xa0, 0x1680, 0x2028, 0x2029, 0x202f, 0x205f, 0x3000] ++
      List.range' 0x2000 11, inRanges wordRanges n = false := by
    decide +kernel
  by_cases hlow : c.toNat < 0x80
  · have hcode := hascii c.toNat hlow
    rw [Char.ofNat_toNat] at hcode
    exact hcode h
  · rw [isWord, if_neg hlow]
    apply hlater
    simp only [isBlank, hlow, if_false, Bool.or_eq_true, Bool.and_eq_true, beq_iff_eq,
      decide_eq_true_eq] at h
    simp only [List.mem_append, List.mem_cons, List.not_mem_nil, or_false, List.mem_range'_1]
    omega

theorem isWord_of_isAsciiLetter_plainLetter {c : Char} (h : isAsciiLetter (plainLetter c) = true) :
    isWord c = true := by
  have hascii : ∀ n < 0x80, isAsciiLetter (Char.ofNat n) = true → isWord (Char.ofNat n) = true := by
    decide +kernel
  have hother : ∀ n ∈ [0x130, 0x131, 0x17f, 0x212a], inRanges wordRanges n = true := by
    decide +kernel
  by_cases hlow : c.toNat < 0x80
  · have hcode := hascii c.toNat hlow
    rw [Char.ofNat_toNat] at hcode
    apply hcode
    rcases toNat_of_isAsciiLetter_plainLetter h with hletter | hother
    · exact hletter
    · omega
  · rw [isWord, if_neg hlow]
    apply hother
    rcases toNat_of_isAsciiLetter_plainLetter h with hletter | hother
    · have hrange := isAsciiLetter_iff.mp hletter
      omega
    · simpa using hother

/-! ### Lower case -/

/-- The characters whose lower-case form is a small ASCII letter. -/
theorem isAsciiLetter_of_lowerChar {c : Char} (hlow : 97 ≤ (lowerChar c).toNat)
    (hhigh : (lowerChar c).toNat ≤ 122) : isAsciiLetter c = true ∨ c.toNat = 0x212a := by
  unfold lowerChar at hlow hhigh
  split at hlow
  · rename_i hupper
    simp only [le_iff_toNat_le, Char.reduceToNat] at hupper
    exact .inl (isAsciiLetter_iff.mpr (.inl hupper))
  · rename_i hupper
    rw [if_neg hupper] at hhigh
    split at hlow
    · rename_i hkelvin
      exact .inr (eq_of_beq hkelvin ▸ rfl)
    · rename_i hkelvin
      rw [if_neg hkelvin] at hhigh
      exact .inl (isAsciiLetter_iff.mpr (.inr ⟨hlow, hhigh⟩))

theorem lowerChar_eq_plainLetter {c : Char} (h : c.toNat < 0x80) : lowerChar c = plainLetter c := by
  unfold lowerChar plainLetter
  split
  · rfl
  · split
    · rename_i hkelvin
      rw [eq_of_beq hkelvin] at h
      exact absurd h (by decide)
    · rfl

/-! ### Folding -/

/-- A character that a run shifts goes to a code point at the same distance from the run's start. -/
theorem exists_run_of_shiftCase? {runs : List CaseRun} {n m : Nat}
    (h : shiftCase? runs n = some m) :
    ∃ run ∈ runs, run.first ≤ n ∧ m = (n + run.shift).toNat := by
  induction runs with
  | nil => simp [shiftCase?] at h
  | cons run later ih =>
      unfold shiftCase? at h
      split at h
      · simp at h
      · rename_i hfirst
        split at h
        · refine ⟨run, List.mem_cons_self, Nat.le_of_not_lt hfirst, ?_⟩
          simpa using h.symm
        · obtain ⟨other, hmem, hle, heq⟩ := ih h
          exact ⟨other, List.mem_cons_of_mem _ hmem, hle, heq⟩

theorem foldRuns_above_dot : ∀ run ∈ foldRuns, (0x2e : Int) < run.first + run.shift := by
  decide +kernel

theorem foldExpansions_without_dot :
    ∀ entry ∈ foldExpansions, ∀ code ∈ entry.2, Char.ofNat code ≠ '.' := by
  decide +kernel

theorem ofNat_ne_dot {n : Nat} (h : 0x2e < n) : Char.ofNat n ≠ '.' := by
  intro heq
  have hnat : (Char.ofNat n).toNat = 0x2e := congrArg Char.toNat heq
  by_cases hvalid : n.isValidChar
  · rw [toNat_ofNat_of_isValidChar hvalid] at hnat
    omega
  · simp [Char.ofNat, hvalid, Char.toNat] at hnat

theorem eq_dot_of_mem_foldChar {c : Char} (h : '.' ∈ foldChar c) : c = '.' := by
  unfold foldChar at h
  split at h
  · split at h
    · rename_i hupper
      simp only [le_iff_toNat_le, Char.reduceToNat] at hupper
      exact absurd (List.mem_singleton.mp h).symm (ofNat_ne_dot (by omega))
    · exact (List.mem_singleton.mp h).symm
  · unfold mapCase at h
    split at h
    · rename_i codes hlookup
      obtain ⟨code, hcode, hdot⟩ := List.mem_map.mp h
      have hexpansion := Entries.mem_of_lookup_eq_some hlookup
      exact absurd hdot (foldExpansions_without_dot _ hexpansion code hcode)
    · split at h
      · rename_i m hshift
        obtain ⟨run, hrun, hfirst, rfl⟩ := exists_run_of_shiftCase? hshift
        have habove := foldRuns_above_dot run hrun
        exact absurd (List.mem_singleton.mp h).symm (ofNat_ne_dot (by omega))
      · exact (List.mem_singleton.mp h).symm

theorem dot_mem_of_mem_fold {text : List Char} (h : '.' ∈ fold text) : '.' ∈ text := by
  obtain ⟨c, hc, hdot⟩ := List.mem_flatMap.mp h
  exact eq_dot_of_mem_foldChar hdot ▸ hc

end ScriptGraph.Text

namespace ScriptGraph

open Text

theorem reservedWords_lower :
    ∀ word ∈ reservedWords, ∀ c ∈ word.toList, 97 ≤ c.toNat ∧ c.toNat ≤ 122 := by
  have hall : (reservedWords.all fun word => word.toList.all fun c =>
      decide (97 ≤ c.toNat ∧ c.toNat ≤ 122)) = true := by decide +kernel
  intro word hword c hc
  exact of_decide_eq_true (List.all_eq_true.mp (List.all_eq_true.mp hall word hword) c hc)

theorem isBlank_eq_false_of_isReserved {token : List Char} (h : isReserved token = true) {c : Char}
    (hc : c ∈ token) : isBlank c = false ∧ c ≠ '.' := by
  have hmem : String.ofList (lower token) ∈ reservedWords := by simpa [isReserved] using h
  have hlower : lowerChar c ∈ (String.ofList (lower token)).toList := by
    simpa [lower] using ⟨c, hc, rfl⟩
  obtain ⟨hlow, hhigh⟩ := reservedWords_lower _ hmem _ hlower
  rcases isAsciiLetter_of_lowerChar hlow hhigh with hletter | hkelvin
  · refine ⟨isBlank_eq_false_of_isAsciiLetter hletter, ?_⟩
    rintro rfl
    exact absurd hletter (by decide)
  · refine ⟨by simp [isBlank, hkelvin], ?_⟩
    rintro rfl
    exact absurd hkelvin (by decide)

theorem isReserved_eq_false_of_mem {token : List Char} {x : Char} (hx : x ∈ token)
    (hletter : ¬ (97 ≤ (lowerChar x).toNat ∧ (lowerChar x).toNat ≤ 122)) :
    isReserved token = false := by
  rw [Bool.eq_false_iff]
  intro hreserved
  have hmem : String.ofList (lower token) ∈ reservedWords := by simpa [isReserved] using hreserved
  have hlower : lowerChar x ∈ (String.ofList (lower token)).toList := by
    simpa [lower] using ⟨x, hx, rfl⟩
  exact hletter (reservedWords_lower _ hmem _ hlower)

end ScriptGraph

namespace ScriptGraph.Name

open Text

theorem isFirstChar_of_isPlainFirstChar {c : Char} (h : isPlainFirstChar c = true) :
    isFirstChar c = true := by
  rcases Bool.or_eq_true_iff.mp h with hletter | hline
  · simp [isFirstChar, isAsciiLetter_plainLetter hletter]
  · simp [isFirstChar, hline]

theorem isWord_of_isFirstChar {c : Char} (h : isFirstChar c = true) : isWord c = true := by
  rcases Bool.or_eq_true_iff.mp h with hletter | hline
  · exact isWord_of_isAsciiLetter_plainLetter hletter
  · obtain rfl : c = '_' := by simpa using hline
    decide

theorem isNameChar_of_isFirstChar {c : Char} (h : isFirstChar c = true) : isNameChar c = true := by
  simp [isNameChar, isWord_of_isFirstChar h]

theorem isNameChar_eq_false_of_isBlank {c : Char} (h : isBlank c = true) :
    isNameChar c = false := by
  have hother : ∀ x, isBlank x = false → (c == x) = false := by
    intro x hx
    apply beq_false_of_ne
    rintro rfl
    exact Bool.noConfusion (h.symm.trans hx)
  rw [isNameChar, isWord_eq_false_of_isBlank h, hother '$' (by decide), hother '#' (by decide),
    hother '@' (by decide)]
  rfl

theorem isBlank_eq_false_of_isNameChar {c : Char} (h : isNameChar c = true) :
    isBlank c = false := by
  rw [Bool.eq_false_iff]
  intro hblank
  rw [isNameChar_eq_false_of_isBlank hblank] at h
  cases h

theorem isBlank_eq_false_of_isFirstChar {c : Char} (h : isFirstChar c = true) :
    isBlank c = false := by
  rcases Bool.or_eq_true_iff.mp h with hletter | hline
  · rcases toNat_of_isAsciiLetter_plainLetter hletter with hascii | h | h | h | h
    · exact isBlank_eq_false_of_isAsciiLetter hascii
    all_goals simp [isBlank, h]
  · obtain rfl : c = '_' := by simpa using hline
    decide

end ScriptGraph.Name
