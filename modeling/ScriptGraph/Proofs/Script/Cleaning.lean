import ScriptGraph.Proofs.Text.Hits
import ScriptGraph.Script.Cleaning

/-!
# The cleaning passes on texts put together from pieces

A pass that takes out comments or literals works on a text put together from two pieces as it works
on each of them, as long as nothing that it takes out starts in one piece and ends in the other.  The
statements below say when that is so, and what the pass leaves where it is not so.
-/

namespace ScriptGraph.Script

open Text Name

/-! ### Block comments -/

def blockStart : List Char := ['/', '*']

def blockEnd : List Char := ['*', '/']

theorem afterBlockEnd?_append_of_notMem {x : List Char} (hx : '*' ∉ x) (rest : List Char) :
    afterBlockEnd? (x ++ rest) = afterBlockEnd? rest := by
  induction x with
  | nil => rfl
  | cons y x ih =>
      obtain ⟨hy, hx⟩ : '*' ≠ y ∧ '*' ∉ x := by simpa using hx
      rw [List.cons_append, afterBlockEnd?.eq_2 _ _ (fun _ h _ => hy h.symm), ih hx]

theorem isSome_afterBlockEnd?_iff {text : List Char} :
    (afterBlockEnd? text).isSome ↔ blockEnd <:+: text := by
  fun_induction afterBlockEnd? text with
  | case1 rest => exact iff_of_true rfl ⟨[], rest, rfl⟩
  | case2 y rest hother ih =>
      rw [ih, List.infix_cons_iff]
      constructor
      · exact .inr
      · rintro (hstart | hlater)
        · obtain ⟨later, heq⟩ := hstart
          obtain ⟨rfl, rfl⟩ : '*' = y ∧ '/' :: later = rest := by simpa [blockEnd] using heq
          exact (hother later rfl rfl).elim
        · exact hlater
  | case3 => simp [blockEnd]

theorem mem_of_afterBlockEnd? {text rest : List Char} (h : afterBlockEnd? text = some rest)
    {y : Char} (hy : y ∈ rest) : y ∈ text := by
  fun_induction afterBlockEnd? text with
  | case1 inner =>
      obtain rfl : inner = rest := by simpa using h
      simp [hy]
  | case2 _ inner _ ih => exact List.mem_cons_of_mem _ (ih h)
  | case3 => simp at h

/-- The end of a comment is looked for in the first piece and then in the second, unless the second
one starts with a character that could complete an end mark. -/
theorem afterBlockEnd?_append {s : Char} (hs : s ≠ '/') (text rest : List Char) :
    afterBlockEnd? (text ++ s :: rest) =
      ((afterBlockEnd? text).map (· ++ s :: rest)).or (afterBlockEnd? (s :: rest)) := by
  fun_induction afterBlockEnd? text with
  | case1 => rfl
  | case2 y inner hother ih =>
      rw [List.cons_append, afterBlockEnd?.eq_2, ih]
      intro later hy heq
      cases inner with
      | nil => exact hs (by simpa using congrArg List.head? heq)
      | cons z inner =>
          obtain ⟨rfl, -⟩ : z = '/' ∧ inner ++ s :: rest = later := by simpa using heq
          exact hother inner hy rfl
  | case3 => rfl

theorem dropBlockComments_append_of_notMem {x : List Char} (hx : '/' ∉ x) (rest : List Char) :
    dropBlockComments (x ++ rest) = x ++ dropBlockComments rest := by
  induction x with
  | nil => rfl
  | cons y x ih =>
      obtain ⟨hy, hx⟩ : '/' ≠ y ∧ '/' ∉ x := by simpa using hx
      rw [List.cons_append, dropBlockComments.eq_3 _ _ (fun _ h _ => hy h.symm), ih hx,
        List.cons_append]

theorem dropBlockComments_closed {inner rest : List Char} (h : afterBlockEnd? inner = some rest) :
    dropBlockComments ('/' :: '*' :: inner) = ' ' :: dropBlockComments rest := by
  rw [dropBlockComments]
  split <;> simp_all

theorem dropBlockComments_unclosed {inner : List Char} (h : afterBlockEnd? inner = none) :
    dropBlockComments ('/' :: '*' :: inner) = '/' :: '*' :: dropBlockComments inner := by
  rw [dropBlockComments]
  split
  · simp_all
  · rw [dropBlockComments.eq_3 _ _ (fun _ h _ => by simp at h)]

/-- A character that starts no comment stays in front of a text that is put together. -/
theorem dropBlockComments_cons_append {y s : Char} (hs : s ≠ '*') {inner : List Char}
    (hother : ∀ later, y = '/' → inner = '*' :: later → False) (rest : List Char) :
    dropBlockComments (y :: (inner ++ s :: rest)) = y :: dropBlockComments (inner ++ s :: rest) := by
  refine dropBlockComments.eq_3 _ _ fun later hy heq => ?_
  cases inner with
  | nil => exact hs (by simpa using congrArg List.head? heq)
  | cons z inner =>
      obtain ⟨rfl, -⟩ : z = '*' ∧ inner ++ s :: rest = later := by simpa using heq
      exact hother inner hy rfl

/-- Code in which no comment starts stays as it is in front of a text that does not complete a start
mark. -/
theorem dropBlockComments_append_of_unopened {x rest : List Char} (hx : ¬ blockStart <:+: x)
    (hrest : ∀ y ∈ rest.head?, y ≠ '*') :
    dropBlockComments (x ++ rest) = x ++ dropBlockComments rest := by
  induction x with
  | nil => rfl
  | cons y x ih =>
      rw [List.cons_append, dropBlockComments.eq_3, ih fun hwithin => hx (List.infix_cons hwithin),
        List.cons_append]
      rintro later rfl heq
      cases x with
      | nil => exact hrest '*' (by simpa using congrArg List.head? heq) rfl
      | cons z x =>
          obtain ⟨rfl, -⟩ : z = '*' ∧ x ++ rest = later := by simpa using heq
          exact hx ⟨[], x, rfl⟩

/-- A comment ends at the first end mark behind its start mark. -/
theorem dropBlockComments_comment {before comment : List Char} (hbefore : ¬ blockStart <:+: before)
    (hcomment : ¬ blockEnd <:+: comment) (after : List Char) :
    dropBlockComments (before ++ (blockStart ++ (comment ++ (blockEnd ++ after)))) =
      before ++ ' ' :: dropBlockComments after := by
  have hopen : afterBlockEnd? comment = none :=
    Option.not_isSome_iff_eq_none.mp (mt isSome_afterBlockEnd?_iff.mp hcomment)
  have hend : afterBlockEnd? (comment ++ (blockEnd ++ after)) = some after := by
    rw [blockEnd, List.cons_append, afterBlockEnd?_append (by decide), hopen]
    rfl
  rw [dropBlockComments_append_of_unopened hbefore (by simp [blockStart])]
  exact congrArg (before ++ ·) (dropBlockComments_closed hend)

/-- No comment reaches from the first piece into the second if the first one leaves no comment open
or the second one ends none. -/
theorem dropBlockComments_append {s : Char} (hslash : s ≠ '/') (hstar : s ≠ '*')
    {text rest : List Char}
    (h : blockStart <:+: dropBlockComments text → afterBlockEnd? (s :: rest) = none) :
    dropBlockComments (text ++ s :: rest) =
      dropBlockComments text ++ dropBlockComments (s :: rest) := by
  fun_induction dropBlockComments text with
  | case1 => rfl
  | case2 inner later hinner ih =>
      have hwhole : afterBlockEnd? (inner ++ s :: rest) = some (later ++ s :: rest) := by
        rw [afterBlockEnd?_append hslash, hinner]
        rfl
      rw [List.cons_append, List.cons_append, dropBlockComments_closed hwhole,
        ih (fun hopen => h (hopen.trans (List.suffix_cons _ _).isInfix)), List.cons_append]
  | case3 inner hinner ih =>
      have hstart : dropBlockComments ('*' :: inner) = '*' :: dropBlockComments inner :=
        dropBlockComments.eq_3 _ _ fun _ hne _ => by simp at hne
      have hopen : blockStart <:+: '/' :: dropBlockComments ('*' :: inner) :=
        ⟨[], dropBlockComments inner, by simp [blockStart, hstart]⟩
      have hwhole : afterBlockEnd? (inner ++ s :: rest) = none := by
        rw [afterBlockEnd?_append hslash, hinner, h hopen]
        rfl
      have hrest := ih fun _ => h hopen
      rw [List.cons_append, dropBlockComments.eq_3 _ _ (fun _ hne _ => by simp at hne)] at hrest
      rw [List.cons_append, List.cons_append, dropBlockComments_unclosed hwhole, hrest,
        List.cons_append]
  | case4 y inner hother ih =>
      rw [List.cons_append, dropBlockComments_cons_append hstar hother,
        ih (fun hopen => h (hopen.trans (List.suffix_cons _ _).isInfix)), List.cons_append]

/-- The pass leaves a star in front only where one was. -/
theorem exists_of_dropBlockComments_star {text rest : List Char}
    (h : dropBlockComments text = '*' :: rest) : ∃ later, text = '*' :: later := by
  fun_cases dropBlockComments text with
  | case1 => simp [dropBlockComments] at h
  | case2 inner later hinner => simp [dropBlockComments_closed hinner] at h
  | case3 inner hinner => simp [dropBlockComments_unclosed hinner] at h
  | case4 y later hother =>
      rw [dropBlockComments.eq_3 _ _ hother] at h
      obtain ⟨rfl, -⟩ : y = '*' ∧ dropBlockComments later = rest := by simpa using h
      exact ⟨later, rfl⟩

/-- A comment that the first piece leaves open ends where the second piece first ends one. -/
theorem exists_dropBlockComments_append {text : List Char}
    (h : blockStart <:+: dropBlockComments text) :
    ∃ before, ∀ (s : Char) (rest later : List Char), s ≠ '/' → s ≠ '*' →
      afterBlockEnd? (s :: rest) = some later →
        dropBlockComments (text ++ s :: rest) = before ++ ' ' :: dropBlockComments later := by
  fun_induction dropBlockComments text with
  | case1 => simp [blockStart] at h
  | case2 inner left hinner ih =>
      have hopen : blockStart <:+: dropBlockComments left := by
        rcases List.infix_cons_iff.mp h with hstart | hlater
        · obtain ⟨_, heq⟩ := hstart
          simp [blockStart] at heq
        · exact hlater
      obtain ⟨before, hbefore⟩ := ih hopen
      refine ⟨' ' :: before, fun s rest later hslash hstar hend => ?_⟩
      have hwhole : afterBlockEnd? (inner ++ s :: rest) = some (left ++ s :: rest) := by
        rw [afterBlockEnd?_append hslash, hinner]
        rfl
      rw [List.cons_append, List.cons_append, dropBlockComments_closed hwhole,
        hbefore s rest later hslash hstar hend, List.cons_append]
  | case3 inner hinner =>
      refine ⟨[], fun s rest later hslash _ hend => ?_⟩
      have hwhole : afterBlockEnd? (inner ++ s :: rest) = some later := by
        rw [afterBlockEnd?_append hslash, hinner, hend]
        rfl
      rw [List.cons_append, List.cons_append, dropBlockComments_closed hwhole, List.nil_append]
  | case4 y inner hother ih =>
      have hopen : blockStart <:+: dropBlockComments inner := by
        rcases List.infix_cons_iff.mp h with hstart | hlater
        · obtain ⟨later, heq⟩ := hstart
          obtain ⟨rfl, hstar⟩ : '/' = y ∧ '*' :: later = dropBlockComments inner := by
            simpa [blockStart] using heq
          obtain ⟨left, rfl⟩ := exists_of_dropBlockComments_star hstar.symm
          exact (hother left rfl rfl).elim
        · exact hlater
      obtain ⟨before, hbefore⟩ := ih hopen
      refine ⟨y :: before, fun s rest later hslash hstar hend => ?_⟩
      rw [List.cons_append, dropBlockComments_cons_append hstar hother,
        hbefore s rest later hslash hstar hend, List.cons_append]

theorem mem_of_mem_dropBlockComments {text : List Char} {y : Char}
    (h : y ∈ dropBlockComments text) : y = ' ' ∨ y ∈ text := by
  fun_induction dropBlockComments text with
  | case1 => simp at h
  | case2 inner rest hinner ih =>
      rcases List.mem_cons.mp h with rfl | hlater
      · exact .inl rfl
      · refine (ih hlater).imp_right fun hmem => ?_
        exact List.mem_cons_of_mem _ (List.mem_cons_of_mem _ (mem_of_afterBlockEnd? hinner hmem))
  | case3 inner hinner ih =>
      rcases List.mem_cons.mp h with rfl | hlater
      · exact .inr List.mem_cons_self
      · exact (ih hlater).imp_right (List.mem_cons_of_mem _)
  | case4 z inner hother ih =>
      rcases List.mem_cons.mp h with rfl | hlater
      · exact .inr List.mem_cons_self
      · exact (ih hlater).imp_right (List.mem_cons_of_mem _)

/-! ### Line comments -/

def lineStart : List Char := ['-', '-']

def lastLine : List Char → List Char
  | [] => []
  | y :: rest => if '\n' ∈ rest then lastLine rest else if y = '\n' then rest else y :: rest

theorem lastLine_eq_self {text : List Char} (h : '\n' ∉ text) : lastLine text = text := by
  cases text with
  | nil => rfl
  | cons y rest =>
      obtain ⟨hy, hrest⟩ : '\n' ≠ y ∧ '\n' ∉ rest := by simpa using h
      rw [lastLine, if_neg hrest, if_neg (Ne.symm hy)]

theorem lastLine_cons_of_mem {rest : List Char} (h : '\n' ∈ rest) (y : Char) :
    lastLine (y :: rest) = lastLine rest := by rw [lastLine, if_pos h]

theorem lastLine_infix_cons (y : Char) (rest : List Char) :
    lastLine rest <:+: lastLine (y :: rest) := by
  by_cases hrest : '\n' ∈ rest
  · simp only [lastLine_cons_of_mem hrest, List.infix_refl]
  · rw [lastLine_eq_self hrest, lastLine, if_neg hrest]
    split
    · exact List.infix_refl _
    · exact (List.suffix_cons _ _).isInfix

/-- What stands before the first line break does not count for the last line. -/
theorem lastLine_dropWhile {text : List Char} (h : '\n' ∈ text) :
    lastLine (text.dropWhile (· != '\n')) = lastLine text := by
  induction text with
  | nil => simp at h
  | cons y rest ih =>
      by_cases hy : y = '\n'
      · simp [hy]
      · have hrest : '\n' ∈ rest := by simpa [Ne.symm hy] using h
        rw [List.dropWhile_cons_of_pos (by simpa using hy), ih hrest, lastLine_cons_of_mem hrest]

theorem lastLine_after_comment {inner : List Char} (h : '\n' ∈ inner) :
    lastLine (inner.dropWhile (· != '\n')) = lastLine ('-' :: '-' :: inner) := by
  rw [lastLine_dropWhile h, lastLine_cons_of_mem (List.mem_cons_of_mem _ h),
    lastLine_cons_of_mem h]

theorem dropLineComments_append_of_notMem {x : List Char} (hx : '-' ∉ x) (rest : List Char) :
    dropLineComments (x ++ rest) = x ++ dropLineComments rest := by
  induction x with
  | nil => rfl
  | cons y x ih =>
      obtain ⟨hy, hx⟩ : '-' ≠ y ∧ '-' ∉ x := by simpa using hx
      rw [List.cons_append, dropLineComments.eq_3 _ _ (fun _ h _ => hy h.symm), ih hx,
        List.cons_append]

/-- A character that starts no comment stays in front of a text that is put together. -/
theorem dropLineComments_cons_append {y s : Char} (hs : s ≠ '-') {inner : List Char}
    (hother : ∀ later, y = '-' → inner = '-' :: later → False) (rest : List Char) :
    dropLineComments (y :: (inner ++ s :: rest)) = y :: dropLineComments (inner ++ s :: rest) := by
  refine dropLineComments.eq_3 _ _ fun later hy heq => ?_
  cases inner with
  | nil => exact hs (by simpa using congrArg List.head? heq)
  | cons z inner =>
      obtain ⟨rfl, -⟩ : z = '-' ∧ inner ++ s :: rest = later := by simpa using heq
      exact hother inner hy rfl

theorem dropWhile_append_of_mem {inner : List Char} (h : '\n' ∈ inner) (rest : List Char) :
    (inner ++ rest).dropWhile (· != '\n') = inner.dropWhile (· != '\n') ++ rest := by
  induction inner with
  | nil => simp at h
  | cons y inner ih =>
      by_cases hy : y = '\n'
      · simp [hy]
      · have hinner : '\n' ∈ inner := by simpa [Ne.symm hy] using h
        rw [List.cons_append, List.dropWhile_cons_of_pos (by simpa using hy), ih hinner,
          List.dropWhile_cons_of_pos (by simpa using hy)]

theorem dropWhile_append_of_notMem {inner : List Char} (h : '\n' ∉ inner) (rest : List Char) :
    (inner ++ rest).dropWhile (· != '\n') = rest.dropWhile (· != '\n') := by
  refine List.dropWhile_append_of_pos fun y hy => ?_
  simpa using ne_of_mem_of_not_mem hy h

/-- No comment reaches from the first piece into the second if none starts on the last line of the
first one. -/
theorem dropLineComments_append {s : Char} (hs : s ≠ '-') {text : List Char}
    (h : ¬ lineStart <:+: lastLine text) (rest : List Char) :
    dropLineComments (text ++ s :: rest) =
      dropLineComments text ++ dropLineComments (s :: rest) := by
  fun_induction dropLineComments text with
  | case1 => rfl
  | case2 inner ih =>
      have hinner : '\n' ∈ inner := by
        refine Classical.not_not.mp fun hnone => h ?_
        rw [lastLine_eq_self (by simpa using hnone)]
        exact ⟨[], inner, rfl⟩
      rw [← lastLine_after_comment hinner] at h
      rw [List.cons_append, List.cons_append, dropLineComments, dropWhile_append_of_mem hinner,
        ih h]
  | case3 y inner hother ih =>
      rw [List.cons_append, dropLineComments_cons_append hs hother,
        ih (fun hopen => h (hopen.trans (lastLine_infix_cons y inner))), List.cons_append]

/-- A comment that starts on the last line of the first piece runs on to the first line break of the
second one. -/
theorem exists_dropLineComments_append {text : List Char} (h : lineStart <:+: lastLine text) :
    ∃ before, ∀ (s : Char) (rest : List Char), s ≠ '-' →
      dropLineComments (text ++ s :: rest) =
        before ++ dropLineComments ((s :: rest).dropWhile (· != '\n')) := by
  fun_induction dropLineComments text with
  | case1 => simp [lineStart, lastLine] at h
  | case2 inner ih =>
      by_cases hinner : '\n' ∈ inner
      · rw [← lastLine_after_comment hinner] at h
        obtain ⟨before, hbefore⟩ := ih h
        refine ⟨before, fun s rest hs => ?_⟩
        rw [List.cons_append, List.cons_append, dropLineComments, dropWhile_append_of_mem hinner,
          hbefore s rest hs]
      · refine ⟨[], fun s rest hs => ?_⟩
        rw [List.cons_append, List.cons_append, dropLineComments,
          dropWhile_append_of_notMem hinner, List.nil_append]
  | case3 y inner hother ih =>
      have hopen : lineStart <:+: lastLine inner := by
        by_cases hinner : '\n' ∈ inner
        · rwa [lastLine_cons_of_mem hinner] at h
        · rw [lastLine_eq_self hinner]
          rw [lastLine, if_neg hinner] at h
          split at h
          · exact h
          · rcases List.infix_cons_iff.mp h with hstart | hlater
            · obtain ⟨later, heq⟩ := hstart
              obtain ⟨rfl, rfl⟩ : '-' = y ∧ '-' :: later = inner := by
                simpa [lineStart] using heq
              exact (hother later rfl rfl).elim
            · exact hlater
      obtain ⟨before, hbefore⟩ := ih hopen
      refine ⟨y :: before, fun s rest hs => ?_⟩
      rw [List.cons_append, dropLineComments_cons_append hs hother, hbefore s rest hs,
        List.cons_append]

/-- A comment with the line break that ends it is reduced to the line break. -/
theorem dropLineComments_comment {inner : List Char} (h : '\n' ∉ inner) (rest : List Char) :
    dropLineComments ('-' :: '-' :: (inner ++ '\n' :: rest)) = '\n' :: dropLineComments rest := by
  rw [dropLineComments, dropWhile_append_of_notMem h, List.dropWhile_cons_of_neg (by decide),
    dropLineComments.eq_3 _ _ (fun _ h _ => by simp at h)]

/-! ### Literals -/

def isDoubled : List Char → Bool
  | [] => true
  | '\'' :: '\'' :: rest => isDoubled rest
  | '\'' :: _ => false
  | _ :: rest => isDoubled rest

@[simp] theorem isDoubled_cons_of_ne {y : Char} (hy : y ≠ '\'') (rest : List Char) :
    isDoubled (y :: rest) = isDoubled rest :=
  isDoubled.eq_4 _ _ (fun _ h _ => hy h) hy

theorem isDoubled_quote_cons_of_ne {y : Char} (hy : y ≠ '\'') (rest : List Char) :
    isDoubled ('\'' :: y :: rest) = false :=
  isDoubled.eq_3 _ (fun _ h => hy (by simpa using congrArg List.head? h))

theorem isDoubled_afterBlockEnd? {text rest : List Char} (h : isDoubled text = true)
    (hend : afterBlockEnd? text = some rest) : isDoubled rest = true := by
  fun_induction isDoubled text with
  | case1 => simp [afterBlockEnd?] at hend
  | case2 inner ih => exact ih h (by simpa [afterBlockEnd?] using hend)
  | case3 => simp at h
  | case4 y inner hpair hquote ih =>
      by_cases hmark : ∃ later, y = '*' ∧ inner = '/' :: later
      · obtain ⟨later, rfl, rfl⟩ := hmark
        obtain rfl : later = rest := by simpa [afterBlockEnd?] using hend
        simpa using h
      · rw [afterBlockEnd?.eq_2 _ _ fun later hy hinner => hmark ⟨later, hy, hinner⟩] at hend
        exact ih h hend

/-- Both halves of a pair of quotes stay or go with a block comment.  The second part is the
statement for a text whose first character closes a pair. -/
theorem isDoubled_dropBlockComments_and (text : List Char) :
    (isDoubled text = true → isDoubled (dropBlockComments text) = true) ∧
      (isDoubled ('\'' :: text) = true → isDoubled ('\'' :: dropBlockComments text) = true) := by
  fun_induction dropBlockComments text with
  | case1 => exact ⟨id, id⟩
  | case2 inner rest hinner ih =>
      refine ⟨fun h => ?_, fun h => ?_⟩
      · have hinside : isDoubled inner = true := by simpa using h
        simpa using ih.1 (isDoubled_afterBlockEnd? hinside hinner)
      · simp [isDoubled_quote_cons_of_ne] at h
  | case3 inner hinner ih =>
      refine ⟨fun h => ?_, fun h => ?_⟩
      · simpa using ih.1 (by simpa using h)
      · simp [isDoubled_quote_cons_of_ne] at h
  | case4 y inner hother ih =>
      by_cases hy : y = '\''
      · subst hy
        exact ⟨ih.2, fun h => ih.1 (by simpa [isDoubled] using h)⟩
      · refine ⟨fun h => ?_, fun h => ?_⟩
        · rw [isDoubled_cons_of_ne hy] at h ⊢
          exact ih.1 h
        · simp [isDoubled_quote_cons_of_ne hy] at h

theorem isDoubled_dropWhile {text : List Char} (h : isDoubled text = true) :
    isDoubled (text.dropWhile (· != '\n')) = true := by
  fun_induction isDoubled text with
  | case1 => rfl
  | case2 inner ih => simpa using ih h
  | case3 => simp at h
  | case4 y inner hpair hquote ih =>
      by_cases hy : y = '\n'
      · simpa [hy] using h
      · rw [List.dropWhile_cons_of_pos (by simpa using hy)]
        exact ih h

/-- Both halves of a pair of quotes stay or go with a line comment. -/
theorem isDoubled_dropLineComments_and (text : List Char) :
    (isDoubled text = true → isDoubled (dropLineComments text) = true) ∧
      (isDoubled ('\'' :: text) = true → isDoubled ('\'' :: dropLineComments text) = true) := by
  fun_induction dropLineComments text with
  | case1 => exact ⟨id, id⟩
  | case2 inner ih =>
      refine ⟨fun h => ?_, fun h => ?_⟩
      · have hinside : isDoubled inner = true := by simpa using h
        exact ih.1 (isDoubled_dropWhile hinside)
      · simp [isDoubled_quote_cons_of_ne] at h
  | case3 y inner hother ih =>
      by_cases hy : y = '\''
      · subst hy
        exact ⟨ih.2, fun h => ih.1 (by simpa [isDoubled] using h)⟩
      · refine ⟨fun h => ?_, fun h => ?_⟩
        · rw [isDoubled_cons_of_ne hy] at h ⊢
          exact ih.1 h
        · simp [isDoubled_quote_cons_of_ne hy] at h

theorem exists_afterLiteral?_quote (rest : List Char) :
    ∃ later, afterLiteral? ('\'' :: rest) = some later := by
  by_cases hpair : ∃ inner, rest = '\'' :: inner
  · obtain ⟨inner, rfl⟩ := hpair
    cases h : afterLiteral? inner <;> simp [afterLiteral?, h]
  · exact ⟨rest, afterLiteral?.eq_3 _ fun inner h => hpair ⟨inner, h⟩⟩

/-- The content of a literal does not count for where the literal ends. -/
theorem afterLiteral?_append {content : List Char} (h : isDoubled content = true)
    (rest : List Char) :
    afterLiteral? (content ++ '\'' :: rest) = afterLiteral? ('\'' :: rest) := by
  fun_induction isDoubled content with
  | case1 => rfl
  | case2 inner ih =>
      obtain ⟨later, hlater⟩ := exists_afterLiteral?_quote rest
      rw [List.cons_append, List.cons_append, afterLiteral?, ih h, hlater]
      rfl
  | case3 => simp at h
  | case4 y inner hpair hquote ih =>
      rw [List.cons_append, afterLiteral?.eq_4 _ _ (fun _ hy _ => hquote hy) hquote, ih h]

theorem dropLiterals_append_of_notMem {x : List Char} (hx : '\'' ∉ x) (rest : List Char) :
    dropLiterals (x ++ rest) = x ++ dropLiterals rest := by
  induction x with
  | nil => rfl
  | cons y x ih =>
      obtain ⟨hy, hx⟩ : '\'' ≠ y ∧ '\'' ∉ x := by simpa using hx
      rw [List.cons_append, dropLiterals.eq_3 _ _ (Ne.symm hy), ih hx, List.cons_append]

theorem dropLiterals_closed {inner rest : List Char} (h : afterLiteral? inner = some rest) :
    dropLiterals ('\'' :: inner) = ' ' :: dropLiterals rest := by
  rw [dropLiterals]
  split <;> simp_all

/-- A literal is dropped as the empty literal is. -/
theorem dropLiterals_literal {content : List Char} (h : isDoubled content = true)
    (rest : List Char) :
    dropLiterals ('\'' :: (content ++ '\'' :: rest)) = dropLiterals ('\'' :: '\'' :: rest) := by
  obtain ⟨later, hlater⟩ := exists_afterLiteral?_quote rest
  have hwhole : afterLiteral? (content ++ '\'' :: rest) = some later := by
    rw [afterLiteral?_append h, hlater]
  rw [dropLiterals_closed hwhole, dropLiterals_closed hlater]

theorem dropLiterals_empty {y : Char} (hy : y ≠ '\'') (rest : List Char) :
    dropLiterals ('\'' :: '\'' :: y :: rest) = ' ' :: dropLiterals (y :: rest) :=
  dropLiterals_closed (afterLiteral?.eq_3 _ fun _ h => hy (by simpa using congrArg List.head? h))

/-! ### Lists in parentheses -/

/-- A rule that asks for an opening parenthesis matches nothing in a text without one. -/
theorem reduce_eq_self_of_notMem {r : Rule} {inner : Pattern}
    (htrail : r.trail = .seq blanks (.seq (.char '(') inner)) {text : List Char}
    (h : '(' ∉ text) : r.reduce text = text := by
  refine Rule.reduce_eq_self fun piece d hreads => ?_
  cases hhit : r.hit? d with
  | none => rfl
  | some hit =>
      obtain ⟨lead, trail, -, -, hspells, hlead, hbody, hread⟩ := Rule.exists_parts_of_hit? hhit
      rw [htrail] at hspells
      obtain ⟨gap, list, rfl, -, hlist⟩ := Pattern.spells_seq_iff.mp hspells
      obtain ⟨first, later, rfl, hfirst, -⟩ := Pattern.spells_seq_iff.mp hlist
      obtain ⟨y, rfl, hy⟩ := Pattern.spells_one_iff.mp hfirst
      obtain rfl : y = '(' := eq_of_beq hy
      have hwhole := ((hreads.trans hlead).trans hbody).trans hread
      exact (h (hwhole.infix_rest.subset (by simp))).elim

/-- A text without parentheses is cleaned when its comments and literals are taken out. -/
theorem clean_eq {text : List Char} (h : '(' ∉ dropCommentsAndLiterals text) :
    clean text = dropCommentsAndLiterals text := by
  have htypes : dropTypeParameters (dropCommentsAndLiterals text) = dropCommentsAndLiterals text :=
    reduce_eq_self_of_notMem rfl h
  have hinserts : insertWithColumns.reduce (dropCommentsAndLiterals text) =
      dropCommentsAndLiterals text := reduce_eq_self_of_notMem rfl h
  rw [clean, htypes, dropInsertColumns, hinserts]
  exact reduce_eq_self_of_notMem rfl h

/-! ### Texts with nothing to clean -/

theorem infix_of_infix_append_cons {mark front rest : List Char} {x : Char} (hx : x ∉ mark)
    (h : mark <:+: front ++ x :: rest) : mark <:+: front ∨ mark <:+: rest := by
  obtain ⟨start, stop, heq⟩ := h
  rcases List.append_eq_append_iff.mp heq with ⟨later, rfl, -⟩ | ⟨later, hleft, hright⟩
  · exact .inl ⟨start, later, rfl⟩
  · cases later with
    | nil =>
        rw [List.append_nil] at hleft
        exact .inl ⟨start, [], by rw [List.append_nil, hleft]⟩
    | cons y later =>
        obtain ⟨rfl, rfl⟩ : x = y ∧ rest = later ++ stop := by simpa using hright
        -- The mark has to start behind the character.
        rcases List.append_eq_append_iff.mp hleft with ⟨middle, -, rfl⟩ | ⟨middle, -, hmark⟩
        · simp at hx
        · cases middle with
          | nil =>
              rw [List.nil_append] at hmark
              rw [← hmark] at hx
              simp at hx
          | cons z middle =>
              obtain ⟨-, rfl⟩ : x = z ∧ later = middle ++ mark := by simpa using hmark
              exact .inr ⟨middle, stop, rfl⟩

/-- Whether a start mark of a block comment has an end mark somewhere behind it. -/
def HasBlockComment (text : List Char) : Prop :=
  ∃ front rest, text = front ++ (blockStart ++ rest) ∧ blockEnd <:+: rest

theorem hasBlockComment_cons_iff {x : Char} {text : List Char} :
    HasBlockComment (x :: text) ↔
      (∃ rest, x = '/' ∧ text = '*' :: rest ∧ blockEnd <:+: rest) ∨ HasBlockComment text := by
  constructor
  · rintro ⟨front, rest, heq, hend⟩
    cases front with
    | nil =>
        obtain ⟨rfl, rfl⟩ : x = '/' ∧ text = '*' :: rest := by simpa [blockStart] using heq
        exact .inl ⟨rest, rfl, rfl, hend⟩
    | cons y front =>
        obtain ⟨-, rfl⟩ : x = y ∧ text = front ++ (blockStart ++ rest) := by simpa using heq
        exact .inr ⟨front, rest, rfl, hend⟩
  · rintro (⟨rest, rfl, rfl, hend⟩ | ⟨front, rest, rfl, hend⟩)
    · exact ⟨[], rest, rfl, hend⟩
    · exact ⟨x :: front, rest, rfl, hend⟩

theorem dropBlockComments_eq_self {text : List Char} (h : ¬ HasBlockComment text) :
    dropBlockComments text = text := by
  fun_induction dropBlockComments text with
  | case1 => rfl
  | case2 inner rest hinner =>
      have hend : blockEnd <:+: inner := isSome_afterBlockEnd?_iff.mp (by simp [hinner])
      exact absurd ⟨[], inner, rfl, hend⟩ h
  | case3 inner _ ih => rw [ih fun hwithin => h (hasBlockComment_cons_iff.mpr (.inr hwithin))]
  | case4 c rest _ ih => rw [ih fun hwithin => h (hasBlockComment_cons_iff.mpr (.inr hwithin))]

theorem dropLineComments_eq_self {text : List Char} (h : ¬ lineStart <:+: text) :
    dropLineComments text = text := by
  fun_induction dropLineComments text with
  | case1 => rfl
  | case2 rest => exact absurd ⟨[], rest, rfl⟩ h
  | case3 c rest _ ih => rw [ih fun hwithin => h (List.infix_cons hwithin)]

theorem afterLiteral?_eq_none_iff {text : List Char} : afterLiteral? text = none ↔ '\'' ∉ text := by
  fun_induction afterLiteral? text with
  | case1 => simp
  | case2 => simp
  | case3 => simp
  | case4 x rest _ hquote ih => simpa [Ne.symm hquote] using ih

theorem dropLiterals_eq_self {text : List Char} (h : text.count '\'' ≤ 1) :
    dropLiterals text = text := by
  fun_induction dropLiterals text with
  | case1 => rfl
  | case2 inner rest hinner =>
      have hquote : '\'' ∈ inner := by
        refine Classical.not_not.mp fun hnone => ?_
        rw [afterLiteral?_eq_none_iff.mpr hnone] at hinner
        simp at hinner
      have hpos := List.count_pos_iff.mpr hquote
      rw [List.count_cons_self] at h
      omega
  | case3 inner _ ih =>
      rw [List.count_cons_self] at h
      rw [ih (by omega)]
  | case4 x rest hquote ih => rw [ih (by rwa [List.count_cons_of_ne hquote] at h)]

/-- A text with no comment in it and one quote at most, so that it has no literal either. -/
structure Unmarked (text : List Char) : Prop where
  block : ¬ HasBlockComment text
  line : ¬ lineStart <:+: text
  quote : text.count '\'' ≤ 1

theorem Unmarked.dropCommentsAndLiterals_eq_self {text : List Char} (h : Unmarked text) :
    dropCommentsAndLiterals text = text := by
  rw [dropCommentsAndLiterals, dropBlockComments_eq_self h.block, dropLineComments_eq_self h.line,
    dropLiterals_eq_self h.quote]

end ScriptGraph.Script
