import Mathlib.Data.List.Basic
import ScriptGraph.Proofs.Script.Cleaning
import ScriptGraph.Proofs.Text.Hits
import ScriptGraph.Script.Parse

/-!
# What literals and comments hide

A script is woven from code and from literals and line comments between the code.  Parsing should not
depend on what the literals and comments hold.  It does not exactly if no comment that one of the
passes over the whole text takes out reaches across the end of a literal or a comment: a block
comment that starts in one of them and ends in a later one, or a line comment that starts on the last
line of a literal.  A block comment is different: the pass over block comments comes first, so it acts
as one blank wherever it stands.
-/

namespace ScriptGraph.Script

open Text

/-! ### Woven scripts -/

/-- Code without any character that could start or end a literal or a comment. -/
structure Code where
  text : List Char
  plain : ∀ y ∈ text, y ∉ ['\'', '-', '/', '*']

namespace Code

variable (code : Code)

theorem quote_notMem : '\'' ∉ code.text := fun h => code.plain _ h (by decide)

theorem hyphen_notMem : '-' ∉ code.text := fun h => code.plain _ h (by decide)

theorem slash_notMem : '/' ∉ code.text := fun h => code.plain _ h (by decide)

theorem star_notMem : '*' ∉ code.text := fun h => code.plain _ h (by decide)

end Code

/-- A literal, in which quotes are doubled, or a comment up to the end of its line. -/
inductive Hidden where
  | literal (content : List Char) (doubled : isDoubled content = true)
  | comment (content : List Char) (oneLine : '\n' ∉ content)

namespace Hidden

def content : Hidden → List Char
  | literal content _ => content
  | comment content _ => content

def opening : Hidden → List Char
  | literal _ _ => ['\'']
  | comment _ _ => ['-', '-']

def closing : Hidden → Char
  | literal _ _ => '\''
  | comment _ _ => '\n'

def text (h : Hidden) : List Char := h.opening ++ h.content ++ [h.closing]

/-- What has the same place in a script without any content: the empty literal, or the line break
alone. -/
def emptied : Hidden → List Char
  | literal _ _ => ['\'', '\'']
  | comment _ _ => ['\n']

/-- A literal or a comment from whose content the block comments are taken out. -/
def withoutBlocks : Hidden → Hidden
  | literal content h =>
      literal (dropBlockComments content) ((isDoubled_dropBlockComments_and content).1 h)
  | comment content h =>
      comment (dropBlockComments content)
        fun hmem => (mem_of_mem_dropBlockComments hmem).elim (by decide) h

/-- The content leaves a block comment open. -/
def OpensBlock (h : Hidden) : Prop := blockStart <:+: dropBlockComments h.content

/-- The content can end a block comment. -/
def ClosesBlock (h : Hidden) : Prop := blockEnd <:+: h.content

/-- The content of a literal leaves a line comment open. -/
def OpensLine : Hidden → Prop
  | literal content _ => lineStart <:+: lastLine content
  | comment _ _ => False

@[simp] theorem opening_withoutBlocks (h : Hidden) : h.withoutBlocks.opening = h.opening := by
  cases h <;> rfl

@[simp] theorem closing_withoutBlocks (h : Hidden) : h.withoutBlocks.closing = h.closing := by
  cases h <;> rfl

@[simp] theorem content_withoutBlocks (h : Hidden) :
    h.withoutBlocks.content = dropBlockComments h.content := by
  cases h <;> rfl

theorem slash_notMem_opening (h : Hidden) : '/' ∉ h.opening := by cases h <;> simp [opening]

theorem star_notMem_opening (h : Hidden) : '*' ∉ h.opening := by cases h <;> simp [opening]

theorem closing_ne_slash (h : Hidden) : h.closing ≠ '/' := by cases h <;> simp [closing]

theorem closing_ne_star (h : Hidden) : h.closing ≠ '*' := by cases h <;> simp [closing]

end Hidden

/-- Code and other pieces in turn. -/
def weave (code : Nat → Code) : List (List Char) → List Char
  | [] => (code 0).text
  | piece :: pieces => (code 0).text ++ (piece ++ weave (fun n => code (n + 1)) pieces)

theorem weave_text_cons (code : Nat → Code) (h : Hidden) (pieces : List (List Char)) :
    weave code (h.text :: pieces) =
      (code 0).text ++ (h.opening ++
        (h.content ++ h.closing :: weave (fun n => code (n + 1)) pieces)) := by
  simp [weave, Hidden.text]

/-- Two ways to fill in the code that differ at one place at most. -/
def AgreeOff (i : Nat) (code code' : Nat → Code) : Prop := ∀ n, n ≠ i → code n = code' n

theorem AgreeOff.tail {i : Nat} {code code' : Nat → Code} (h : AgreeOff (i + 1) code code') :
    AgreeOff i (fun n => code (n + 1)) (fun n => code' (n + 1)) :=
  fun n hn => h (n + 1) (by omega)

theorem AgreeOff.tail_eq {code code' : Nat → Code} (h : AgreeOff 0 code code') :
    (fun n => code (n + 1)) = fun n => code' (n + 1) :=
  funext fun n => h (n + 1) (by omega)

/-! ### The pass over block comments -/

theorem afterBlockEnd?_weave_eq {code code' : Nat → Code} (h : AgreeOff 0 code code')
    (pieces : List (List Char)) :
    afterBlockEnd? (weave code pieces) = afterBlockEnd? (weave code' pieces) := by
  cases pieces with
  | nil =>
      rw [weave, weave, ← List.append_nil (code 0).text, ← List.append_nil (code' 0).text,
        afterBlockEnd?_append_of_notMem (code 0).star_notMem,
        afterBlockEnd?_append_of_notMem (code' 0).star_notMem]
  | cons piece pieces =>
      rw [weave, weave, afterBlockEnd?_append_of_notMem (code 0).star_notMem,
        afterBlockEnd?_append_of_notMem (code' 0).star_notMem, h.tail_eq]

theorem afterBlockEnd?_closing (h : Hidden) (rest : List Char) :
    afterBlockEnd? (h.closing :: rest) = afterBlockEnd? rest :=
  afterBlockEnd?.eq_2 _ _ fun _ hstar _ => h.closing_ne_star hstar

theorem dropBlockComments_closing (h : Hidden) (rest : List Char) :
    dropBlockComments (h.closing :: rest) = h.closing :: dropBlockComments rest :=
  dropBlockComments.eq_3 _ _ fun _ hslash _ => h.closing_ne_slash hslash

theorem afterBlockEnd?_weave_cons (code : Nat → Code) (h : Hidden) (pieces : List (List Char)) :
    afterBlockEnd? (weave code (h.text :: pieces)) =
      ((afterBlockEnd? h.content).map
        (· ++ h.closing :: weave (fun n => code (n + 1)) pieces)).or
          (afterBlockEnd? (weave (fun n => code (n + 1)) pieces)) := by
  rw [weave_text_cons, afterBlockEnd?_append_of_notMem (code 0).star_notMem,
    afterBlockEnd?_append_of_notMem h.star_notMem_opening,
    afterBlockEnd?_append h.closing_ne_slash, afterBlockEnd?_closing]

/-- A woven script can end a block comment exactly if one of its literals and comments can. -/
theorem isSome_afterBlockEnd?_weave (code : Nat → Code) (hidden : List Hidden) :
    (afterBlockEnd? (weave code (hidden.map Hidden.text))).isSome ↔
      ∃ h ∈ hidden, h.ClosesBlock := by
  induction hidden generalizing code with
  | nil =>
      have hnone := afterBlockEnd?_append_of_notMem (code 0).star_notMem []
      rw [List.append_nil] at hnone
      simp [weave, hnone, afterBlockEnd?]
  | cons h hidden ih =>
      rw [List.map_cons, afterBlockEnd?_weave_cons, Option.isSome_or, Bool.or_eq_true, ih,
        Option.isSome_map, isSome_afterBlockEnd?_iff]
      simp [Hidden.ClosesBlock]

/-- No block comment reaches from one literal or comment into a later one. -/
def BlocksApart (hidden : List Hidden) : Prop :=
  hidden.Pairwise fun h later => ¬ (h.OpensBlock ∧ later.ClosesBlock)

/-- The pass takes a block comment out of the first literal or comment, if the rest ends no block
comment that is left open there. -/
theorem dropBlockComments_weave_cons {h : Hidden} {hidden : List Hidden}
    (happart : ∀ later ∈ hidden, ¬ (h.OpensBlock ∧ later.ClosesBlock)) (code : Nat → Code) :
    dropBlockComments (weave code ((h :: hidden).map Hidden.text)) =
      (code 0).text ++ (h.opening ++ (dropBlockComments h.content ++ h.closing ::
        dropBlockComments (weave (fun n => code (n + 1)) (hidden.map Hidden.text)))) := by
  have hend : h.OpensBlock →
      afterBlockEnd? (h.closing :: weave (fun n => code (n + 1)) (hidden.map Hidden.text)) =
        none := by
    intro hopens
    have hnone : ¬ (afterBlockEnd?
        (weave (fun n => code (n + 1)) (hidden.map Hidden.text))).isSome := by
      rw [isSome_afterBlockEnd?_weave]
      rintro ⟨later, hlater, hcloses⟩
      exact happart later hlater ⟨hopens, hcloses⟩
    rw [afterBlockEnd?_closing]
    simpa using hnone
  rw [List.map_cons, weave_text_cons, dropBlockComments_append_of_notMem (code 0).slash_notMem,
    dropBlockComments_append_of_notMem h.slash_notMem_opening,
    dropBlockComments_append h.closing_ne_slash h.closing_ne_star hend, dropBlockComments_closing]

/-- A block comment that the first literal or comment leaves open takes with it what comes before
the next end of one. -/
theorem exists_dropBlockComments_weave_cons {h : Hidden} (hopens : h.OpensBlock) :
    ∃ before, ∀ (code : Nat → Code) (pieces : List (List Char)) (rest : List Char),
      afterBlockEnd? (weave (fun n => code (n + 1)) pieces) = some rest →
        dropBlockComments (weave code (h.text :: pieces)) =
          (code 0).text ++ (before ++ ' ' :: dropBlockComments rest) := by
  obtain ⟨before, hbefore⟩ := exists_dropBlockComments_append hopens
  refine ⟨h.opening ++ before, fun code pieces rest hrest => ?_⟩
  rw [← afterBlockEnd?_closing h] at hrest
  rw [weave_text_cons, dropBlockComments_append_of_notMem (code 0).slash_notMem,
    dropBlockComments_append_of_notMem h.slash_notMem_opening,
    hbefore _ _ rest h.closing_ne_slash h.closing_ne_star hrest, List.append_assoc]

theorem dropBlockComments_weave {hidden : List Hidden} (h : BlocksApart hidden)
    (code : Nat → Code) :
    dropBlockComments (weave code (hidden.map Hidden.text)) =
      weave code ((hidden.map Hidden.withoutBlocks).map Hidden.text) := by
  induction hidden generalizing code with
  | nil =>
      have hkept := dropBlockComments_append_of_notMem (code 0).slash_notMem []
      simpa [weave, dropBlockComments] using hkept
  | cons first hidden ih =>
      obtain ⟨happart, hlater⟩ := List.pairwise_cons.mp h
      rw [dropBlockComments_weave_cons happart, ih hlater, List.map_cons, List.map_cons,
        weave_text_cons]
      simp

/-- Where a block comment reaches from one literal or comment into a later one, the pass takes out
the code after the first of them. -/
theorem exists_dropBlockComments_weave_eq {hidden : List Hidden} (h : ¬ BlocksApart hidden) :
    ∃ i ≤ hidden.length, ∀ code code' : Nat → Code, AgreeOff i code code' →
      dropBlockComments (weave code (hidden.map Hidden.text)) =
        dropBlockComments (weave code' (hidden.map Hidden.text)) := by
  induction hidden with
  | nil => exact (h List.Pairwise.nil).elim
  | cons first hidden ih =>
      by_cases happart : ∀ later ∈ hidden, ¬ (first.OpensBlock ∧ later.ClosesBlock)
      · have htail : ¬ BlocksApart hidden := fun htail => h (List.pairwise_cons.mpr ⟨happart, htail⟩)
        obtain ⟨i, hi, hsame⟩ := ih htail
        refine ⟨i + 1, by simpa using hi, fun code code' hagree => ?_⟩
        rw [dropBlockComments_weave_cons happart, dropBlockComments_weave_cons happart,
          hagree 0 (by omega), hsame _ _ hagree.tail]
      · push Not at happart
        obtain ⟨later, hlater, hopens, hcloses⟩ := happart
        obtain ⟨before, hbefore⟩ := exists_dropBlockComments_weave_cons hopens
        refine ⟨1, by simp, fun code code' hagree => ?_⟩
        have hsome := (isSome_afterBlockEnd?_weave (fun n => code (n + 1)) hidden).mpr
          ⟨later, hlater, hcloses⟩
        obtain ⟨rest, hrest⟩ := Option.isSome_iff_exists.mp hsome
        have hrest' := (afterBlockEnd?_weave_eq hagree.tail _).symm.trans hrest
        rw [List.map_cons, hbefore code _ rest hrest, hbefore code' _ rest hrest',
          hagree 0 (by omega)]

/-! ### The pass over line comments -/

theorem dropWhile_weave_eq {code code' : Nat → Code} (h : AgreeOff 0 code code')
    (hline : '\n' ∉ (code 0).text) (hline' : '\n' ∉ (code' 0).text) (pieces : List (List Char)) :
    (weave code pieces).dropWhile (· != '\n') = (weave code' pieces).dropWhile (· != '\n') := by
  cases pieces with
  | nil =>
      rw [weave, weave, ← List.append_nil (code 0).text, ← List.append_nil (code' 0).text,
        dropWhile_append_of_notMem hline, dropWhile_append_of_notMem hline']
  | cons piece pieces =>
      rw [weave, weave, dropWhile_append_of_notMem hline, dropWhile_append_of_notMem hline',
        h.tail_eq]

/-- What the pass over line comments leaves of a literal or a comment. -/
def Hidden.withoutLines : Hidden → List Char
  | .literal content _ => '\'' :: (dropLineComments content ++ ['\''])
  | .comment _ _ => ['\n']

theorem dropLineComments_weave_cons {h : Hidden} (hline : ¬ h.OpensLine) (code : Nat → Code)
    (pieces : List (List Char)) :
    dropLineComments (weave code (h.text :: pieces)) =
      (code 0).text ++ (h.withoutLines ++
        dropLineComments (weave (fun n => code (n + 1)) pieces)) := by
  rw [weave_text_cons, dropLineComments_append_of_notMem (code 0).hyphen_notMem]
  cases h with
  | literal content hdoubled =>
      simp only [Hidden.opening, Hidden.content, Hidden.closing, Hidden.withoutLines]
      rw [dropLineComments_append_of_notMem (by decide),
        dropLineComments_append (by decide) hline,
        dropLineComments.eq_3 _ _ (fun _ h _ => by simp at h)]
      simp
  | comment content honeLine =>
      exact congrArg _ (dropLineComments_comment honeLine _)

theorem dropLineComments_weave {hidden : List Hidden} (h : ∀ x ∈ hidden, ¬ x.OpensLine)
    (code : Nat → Code) :
    dropLineComments (weave code (hidden.map Hidden.text)) =
      weave code (hidden.map Hidden.withoutLines) := by
  induction hidden generalizing code with
  | nil =>
      have hkept := dropLineComments_append_of_notMem (code 0).hyphen_notMem []
      simpa [weave, dropLineComments] using hkept
  | cons first hidden ih =>
      obtain ⟨hfirst, hlater⟩ := List.forall_mem_cons.mp h
      rw [List.map_cons, dropLineComments_weave_cons hfirst, ih hlater, List.map_cons, weave]

/-- Where a line comment starts on the last line of a literal, the pass takes out the code after the
literal, up to the next line break. -/
theorem exists_dropLineComments_weave_eq {hidden : List Hidden} (h : ∃ x ∈ hidden, x.OpensLine) :
    ∃ i ≤ hidden.length, ∀ code code' : Nat → Code,
      (∀ n, '\n' ∉ (code n).text) → (∀ n, '\n' ∉ (code' n).text) → AgreeOff i code code' →
        dropLineComments (weave code (hidden.map Hidden.text)) =
          dropLineComments (weave code' (hidden.map Hidden.text)) := by
  induction hidden with
  | nil => simp at h
  | cons first hidden ih =>
      by_cases hfirst : first.OpensLine
      · cases first with
        | literal content hdoubled =>
            obtain ⟨before, hbefore⟩ := exists_dropLineComments_append hfirst
            refine ⟨1, by simp, fun code code' hline hline' hagree => ?_⟩
            have hcode : ∀ other : Nat → Code,
                dropLineComments
                  (weave other ((Hidden.literal content hdoubled :: hidden).map Hidden.text)) =
                (other 0).text ++ ('\'' :: (before ++ dropLineComments
                  ((weave (fun n => other (n + 1)) (hidden.map Hidden.text)).dropWhile
                    (· != '\n')))) := by
              intro other
              rw [List.map_cons, weave_text_cons,
                dropLineComments_append_of_notMem (other 0).hyphen_notMem]
              simp only [Hidden.opening, Hidden.content, Hidden.closing]
              rw [dropLineComments_append_of_notMem (by decide), hbefore _ _ (by decide)]
              rfl
            rw [hcode code, hcode code', hagree 0 (by omega),
              dropWhile_weave_eq hagree.tail (hline 1) (hline' 1)]
        | comment => exact hfirst.elim
      · have hlater : ∃ x ∈ hidden, x.OpensLine := by
          obtain ⟨x, hx, hopens⟩ := h
          rcases List.mem_cons.mp hx with rfl | hx
          · exact (hfirst hopens).elim
          · exact ⟨x, hx, hopens⟩
        obtain ⟨i, hi, hsame⟩ := ih hlater
        refine ⟨i + 1, by simpa using hi, fun code code' hline hline' hagree => ?_⟩
        rw [List.map_cons, dropLineComments_weave_cons hfirst, dropLineComments_weave_cons hfirst,
          hagree 0 (by omega),
          hsame _ _ (fun n => hline (n + 1)) (fun n => hline' (n + 1)) hagree.tail]

/-! ### The pass over literals -/

/-- Where the code before two texts is not empty, an empty literal in front changes nothing. -/
theorem dropLiterals_empty_append_eq {y : Char} {x rest rest' : List Char}
    (hx : '\'' ∉ y :: x) (h : dropLiterals rest = dropLiterals rest') :
    dropLiterals ('\'' :: '\'' :: ((y :: x) ++ rest)) =
      dropLiterals ('\'' :: '\'' :: ((y :: x) ++ rest')) := by
  have hy : y ≠ '\'' := fun hy => hx (hy ▸ List.mem_cons_self)
  rw [List.cons_append, List.cons_append, dropLiterals_empty hy, dropLiterals_empty hy,
    ← List.cons_append, ← List.cons_append, dropLiterals_append_of_notMem hx,
    dropLiterals_append_of_notMem hx, h]

/-- After an empty literal as well as alone, what is woven from literals is taken as what is woven
from empty literals.  The first part needs the second one where a literal follows another at once. -/
theorem dropLiterals_weave_and (hidden : List Hidden) (code : Nat → Code) :
    dropLiterals (weave code (hidden.map Hidden.withoutLines)) =
        dropLiterals (weave code (hidden.map Hidden.emptied)) ∧
      dropLiterals ('\'' :: '\'' :: weave code (hidden.map Hidden.withoutLines)) =
        dropLiterals ('\'' :: '\'' :: weave code (hidden.map Hidden.emptied)) := by
  induction hidden generalizing code with
  | nil => exact ⟨rfl, rfl⟩
  | cons first hidden ih =>
      obtain ⟨halone, hafter⟩ := ih fun n => code (n + 1)
      simp only [List.map_cons, weave]
      generalize weave (fun n => code (n + 1)) (hidden.map Hidden.withoutLines) = rest at *
      generalize weave (fun n => code (n + 1)) (hidden.map Hidden.emptied) = rest' at *
      have hquote := (code 0).quote_notMem
      cases first with
      | literal content hdoubled =>
          have hcontent := (isDoubled_dropLineComments_and content).1 hdoubled
          simp only [Hidden.withoutLines, Hidden.emptied, List.cons_append, List.append_assoc,
            List.nil_append]
          have hpiece : dropLiterals ('\'' :: (dropLineComments content ++ '\'' :: rest)) =
              dropLiterals ('\'' :: '\'' :: rest') :=
            (dropLiterals_literal hcontent rest).trans hafter
          refine ⟨?_, ?_⟩
          · rw [dropLiterals_append_of_notMem hquote, dropLiterals_append_of_notMem hquote, hpiece]
          · cases hcode : (code 0).text with
            | nil =>
                have hpair : isDoubled ('\'' :: '\'' :: dropLineComments content) = true := hcontent
                exact (dropLiterals_literal hpair rest).trans
                  (hafter.trans (@dropLiterals_literal ['\'', '\''] rfl rest').symm)
            | cons y x =>
                exact dropLiterals_empty_append_eq (hcode ▸ hquote) hpiece
      | comment content honeLine =>
          simp only [Hidden.withoutLines, Hidden.emptied, ← List.append_assoc]
          have hline : '\'' ∉ (code 0).text ++ ['\n'] := by simpa using hquote
          refine ⟨?_, ?_⟩
          · rw [dropLiterals_append_of_notMem hline, dropLiterals_append_of_notMem hline, halone]
          · obtain ⟨y, x, heq⟩ : ∃ y x, (code 0).text ++ ['\n'] = y :: x :=
              List.exists_cons_of_ne_nil (by simp)
            rw [heq] at hline ⊢
            exact dropLiterals_empty_append_eq hline halone

/-! ### Hiding -/

/-- No comment that a pass takes out reaches across the end of a literal or a comment. -/
structure Inert (hidden : List Hidden) : Prop where
  blocks : BlocksApart hidden
  lines : ∀ h ∈ hidden, ¬ h.withoutBlocks.OpensLine

theorem mem_weave {code : Nat → Code} {pieces : List (List Char)} {y : Char}
    (h : y ∈ weave code pieces) : (∃ n, y ∈ (code n).text) ∨ ∃ piece ∈ pieces, y ∈ piece := by
  induction pieces generalizing code with
  | nil => exact .inl ⟨0, h⟩
  | cons piece pieces ih =>
      rcases List.mem_append.mp h with hcode | hrest
      · exact .inl ⟨0, hcode⟩
      · rcases List.mem_append.mp hrest with hpiece | hlater
        · exact .inr ⟨piece, List.mem_cons_self, hpiece⟩
        · rcases ih hlater with ⟨n, hn⟩ | ⟨other, hother, hy⟩
          · exact .inl ⟨n + 1, hn⟩
          · exact .inr ⟨other, List.mem_cons_of_mem _ hother, hy⟩

/-- Without contents there are no comments. -/
theorem dropCommentsAndLiterals_emptied (code : Nat → Code) (hidden : List Hidden) :
    dropCommentsAndLiterals (weave code (hidden.map Hidden.emptied)) =
      dropLiterals (weave code (hidden.map Hidden.emptied)) := by
  have hnone : ∀ y ∈ ['-', '/'], y ∉ weave code (hidden.map Hidden.emptied) := by
    intro y hy hmem
    rcases mem_weave hmem with ⟨n, hn⟩ | ⟨piece, hpiece, hn⟩
    · exact (code n).plain y hn (by revert hy; simp; tauto)
    · obtain ⟨h, -, rfl⟩ := List.mem_map.mp hpiece
      cases h <;> simp_all [Hidden.emptied]
  have hblock := dropBlockComments_append_of_notMem (hnone '/' (by decide)) []
  have hline := dropLineComments_append_of_notMem (hnone '-' (by decide)) []
  simp only [List.append_nil, dropBlockComments, dropLineComments] at hblock hline
  rw [dropCommentsAndLiterals, hblock, hline]

/-- Where no comment reaches across, the contents are taken out without a trace. -/
theorem dropCommentsAndLiterals_weave {hidden : List Hidden} (h : Inert hidden)
    (code : Nat → Code) :
    dropCommentsAndLiterals (weave code (hidden.map Hidden.text)) =
      dropCommentsAndLiterals (weave code (hidden.map Hidden.emptied)) := by
  have hlines : ∀ x ∈ hidden.map Hidden.withoutBlocks, ¬ x.OpensLine := by
    intro x hx
    obtain ⟨original, hmem, rfl⟩ := List.mem_map.mp hx
    exact h.lines original hmem
  have hemptied : (hidden.map Hidden.withoutBlocks).map Hidden.emptied =
      hidden.map Hidden.emptied := by
    rw [List.map_map]
    exact List.map_congr_left fun x _ => by cases x <;> rfl
  calc dropCommentsAndLiterals (weave code (hidden.map Hidden.text))
    _ = dropLiterals (weave code
          ((hidden.map Hidden.withoutBlocks).map Hidden.withoutLines)) := by
        rw [dropCommentsAndLiterals, dropBlockComments_weave h.blocks,
          dropLineComments_weave hlines]
    _ = dropLiterals (weave code (hidden.map Hidden.emptied)) := by
        rw [(dropLiterals_weave_and _ code).1, hemptied]
    _ = dropCommentsAndLiterals (weave code (hidden.map Hidden.emptied)) :=
        (dropCommentsAndLiterals_emptied code hidden).symm

/-- Where a comment reaches across, some of the code is taken out with it. -/
theorem exists_dropCommentsAndLiterals_weave_eq {hidden : List Hidden} (h : ¬ Inert hidden) :
    ∃ i ≤ hidden.length, ∀ code code' : Nat → Code,
      (∀ n, '\n' ∉ (code n).text) → (∀ n, '\n' ∉ (code' n).text) → AgreeOff i code code' →
        dropCommentsAndLiterals (weave code (hidden.map Hidden.text)) =
          dropCommentsAndLiterals (weave code' (hidden.map Hidden.text)) := by
  by_cases hblocks : BlocksApart hidden
  · have hlines : ∃ x ∈ hidden.map Hidden.withoutBlocks, x.OpensLine := by
      by_contra hnone
      exact h ⟨hblocks, fun x hx hopens => hnone ⟨_, List.mem_map_of_mem hx, hopens⟩⟩
    obtain ⟨i, hi, hsame⟩ := exists_dropLineComments_weave_eq hlines
    refine ⟨i, by simpa using hi, fun code code' hline hline' hagree => ?_⟩
    rw [dropCommentsAndLiterals, dropCommentsAndLiterals, dropBlockComments_weave hblocks,
      dropBlockComments_weave hblocks, hsame code code' hline hline' hagree]
  · obtain ⟨i, hi, hsame⟩ := exists_dropBlockComments_weave_eq hblocks
    refine ⟨i, hi, fun code code' _ _ hagree => ?_⟩
    rw [dropCommentsAndLiterals, dropCommentsAndLiterals, hsame code code' hagree]

/-! ### Telling code apart -/

namespace Code

def blank : Code := ⟨[' '], by simp⟩

def creation : Code := ⟨' ' :: "CREATE TABLE t;".toList, by simp⟩

def creationAt (i n : Nat) : Code := if n = i then creation else blank

theorem creationAt_cases (i n : Nat) : creationAt i n = creation ∨ creationAt i n = blank := by
  unfold creationAt
  split
  · exact .inl rfl
  · exact .inr rfl

theorem agreeOff_creationAt (i : Nat) : AgreeOff i (fun _ => blank) (creationAt i) := by
  intro n hn
  simp [creationAt, hn]

end Code

/-- The blank that an emptied literal or comment becomes. -/
def Hidden.blank : Hidden → List Char
  | .literal _ _ => [' ']
  | .comment _ _ => ['\n']

/-- Between pieces of code that are not empty, every emptied literal becomes a blank of its own. -/
theorem dropLiterals_weave_emptied {code : Nat → Code} (h : ∀ n, (code n).text ≠ [])
    (hidden : List Hidden) :
    dropLiterals (weave code (hidden.map Hidden.emptied)) =
      weave code (hidden.map Hidden.blank) := by
  induction hidden generalizing code with
  | nil =>
      have hkept := dropLiterals_append_of_notMem (code 0).quote_notMem []
      simpa [weave, dropLiterals] using hkept
  | cons first hidden ih =>
      have hrest := ih fun n => h (n + 1)
      rw [List.map_cons, List.map_cons, weave, weave,
        dropLiterals_append_of_notMem (code 0).quote_notMem, ← hrest]
      refine congrArg ((code 0).text ++ ·) ?_
      cases first with
      | literal content hdoubled =>
          obtain ⟨y, x, hyx⟩ := List.exists_cons_of_ne_nil (h 1)
          have hy : y ≠ '\'' := fun hy => (code 1).quote_notMem (by simp [hyx, hy])
          obtain ⟨rest, hstart⟩ :
              ∃ rest, weave (fun n => code (n + 1)) (hidden.map Hidden.emptied) = y :: rest := by
            cases hidden <;> simp [weave, hyx]
          rw [hstart]
          exact dropLiterals_empty hy rest
      | comment content honeLine => exact dropLiterals.eq_3 _ _ (by decide)

theorem exists_weave_eq {i : Nat} {pieces : List (List Char)} (h : i ≤ pieces.length)
    (code : Nat → Code) : ∃ before after, weave code pieces = before ++ ((code i).text ++ after) := by
  induction pieces generalizing i code with
  | nil =>
      obtain rfl : i = 0 := by simpa using h
      exact ⟨[], [], by simp [weave]⟩
  | cons piece pieces ih =>
      cases i with
      | zero => exact ⟨[], _, rfl⟩
      | succ i =>
          obtain ⟨before, after, heq⟩ := ih (by simpa using h) fun n => code (n + 1)
          exact ⟨(code 0).text ++ (piece ++ before), after, by simp [weave, heq]⟩

theorem definition?_eq_ok_none_iff (text : List Char) :
    definition? text = .ok none ↔ creation.find? (.start text) = none := by
  unfold definition?
  split
  · simp_all
  · rename_i hit hfind
    rw [hfind]
    simp only [reduceCtorEq, iff_false]
    intro h
    cases hkind : kindOfWord hit.body with
    | error e => simp [hkind, bind, Except.bind] at h
    | ok kind =>
        simp only [hkind, bind, Except.bind] at h
        split at h <;> simp at h

/-- Parsing finds nothing exactly if the cleaned text has no `CREATE` statement. -/
theorem parse_eq_ok_none_iff (text : String) :
    parse text = .ok none ↔ creation.find? (.start (clean text.toList)) = none := by
  rw [← definition?_eq_ok_none_iff, parse, analyze, analyzeClean]
  split
  · rename_i e he
    simp [he, Except.map]
  · rename_i hnone
    simp [hnone, Except.map]
  · rename_i definition hdefinition
    simp [hdefinition, Except.map]

/-- A `CREATE` statement has the first letter of that word. -/
theorem find?_creation_eq_none {text : List Char} (h : ∀ y ∈ text, sameLetter 'C' y = false) :
    creation.find? (.start text) = none := by
  cases hfind : creation.find? (.start text) with
  | none => rfl
  | some hit =>
      obtain ⟨⟨piece, hreads⟩, hhit⟩ := Rule.exists_reads_of_find? hfind
      obtain ⟨lead, trail, hspells, -, -, hlead, -⟩ := Rule.exists_parts_of_hit? hhit
      obtain ⟨start, _, rfl, hstart, -⟩ := Pattern.spells_seq_iff.mp hspells
      obtain ⟨_, letters, rfl, -, hletters⟩ := Pattern.spells_seq_iff.mp hstart
      obtain ⟨_, later, rfl, hfirst, -⟩ := Pattern.spells_seq_iff.mp hletters
      obtain ⟨y, rfl, hy⟩ := Pattern.spells_one_iff.mp hfirst
      have hmem : y ∈ text := (hreads.trans hlead).infix_rest.subset (by simp)
      have hletter : sameLetter 'C' y = true := hy
      simp [h y hmem] at hletter

theorem isSome_hit?_creation (back after : List Char) :
    (creation.hit? ⟨' ' :: back, "CREATE TABLE t;".toList ++ after⟩).isSome := by rfl

theorem isSome_find?_creation (before after : List Char) :
    (creation.find? (.start (before ++ (Code.creation.text ++ after)))).isSome := by
  have hplace : (creation.hit?
      ⟨(before ++ [' ']).reverse ++ [], "CREATE TABLE t;".toList ++ after⟩).isSome := by
    simpa using isSome_hit?_creation before.reverse after
  have hfind := Rule.isSome_find?_append hplace
  rwa [List.append_assoc] at hfind

/-- What is left of an emptied script whose code is blank or creates a table. -/
theorem clean_weave_emptied {code : Nat → Code}
    (hcode : ∀ n, code n = Code.creation ∨ code n = Code.blank) (hidden : List Hidden) :
    clean (weave code (hidden.map Hidden.emptied)) = weave code (hidden.map Hidden.blank) := by
  have hne : ∀ n, (code n).text ≠ [] := by
    intro n
    rcases hcode n with h | h <;> rw [h] <;> decide
  have hleft : dropCommentsAndLiterals (weave code (hidden.map Hidden.emptied)) =
      weave code (hidden.map Hidden.blank) := by
    rw [dropCommentsAndLiterals_emptied, dropLiterals_weave_emptied hne]
  have hparen : '(' ∉ weave code (hidden.map Hidden.blank) := by
    intro hmem
    rcases mem_weave hmem with ⟨n, hn⟩ | ⟨piece, hpiece, hn⟩
    · rcases hcode n with h | h <;> rw [h] at hn <;> revert hn <;> decide
    · obtain ⟨h, -, rfl⟩ := List.mem_map.mp hpiece
      cases h <;> simp [Hidden.blank] at hn
  rw [← hleft] at hparen
  rw [clean_eq hparen, hleft]

theorem parse_blank (hidden : List Hidden) :
    parse (String.ofList (weave (fun _ => Code.blank) (hidden.map Hidden.emptied))) = .ok none := by
  rw [parse_eq_ok_none_iff, String.toList_ofList, clean_weave_emptied fun _ => .inr rfl]
  refine find?_creation_eq_none fun y hy => ?_
  rcases mem_weave hy with ⟨n, hn⟩ | ⟨piece, hpiece, hn⟩
  · obtain rfl : y = ' ' := by simpa [Code.blank] using hn
    decide
  · obtain ⟨h, -, rfl⟩ := List.mem_map.mp hpiece
    cases h with
    | literal =>
        obtain rfl : y = ' ' := by simpa [Hidden.blank] using hn
        decide
    | comment =>
        obtain rfl : y = '\n' := by simpa [Hidden.blank] using hn
        decide

theorem parse_creationAt_ne {i : Nat} {hidden : List Hidden} (hi : i ≤ hidden.length) :
    parse (String.ofList (weave (Code.creationAt i) (hidden.map Hidden.emptied))) ≠ .ok none := by
  rw [Ne, parse_eq_ok_none_iff, String.toList_ofList,
    clean_weave_emptied (Code.creationAt_cases i)]
  obtain ⟨before, after, heq⟩ :=
    @exists_weave_eq i (hidden.map Hidden.blank) (by simpa using hi) (Code.creationAt i)
  rw [heq, show Code.creationAt i i = Code.creation by simp [Code.creationAt]]
  exact Option.isSome_iff_ne_none.mp (isSome_find?_creation before after)

/-! ### Opacity -/

/-- What literals and comments hold is hidden from the parser, whatever the code around them, exactly
if they are inert.  One comment alone always is; one literal alone is if no line comment starts on
its last line. -/
theorem parse_weave_eq_iff_inert (hidden : List Hidden) :
    ((∀ code : Nat → Code,
        parse (String.ofList (weave code (hidden.map Hidden.text))) =
          parse (String.ofList (weave code (hidden.map Hidden.emptied)))) ↔ Inert hidden) ∧
    (∀ content oneLine, hidden = [.comment content oneLine] → Inert hidden) ∧
    ∀ content doubled, hidden = [.literal content doubled] →
      (Inert hidden ↔ ¬ lineStart <:+: lastLine (dropBlockComments content)) := by
  refine ⟨⟨fun hsame => ?_, fun hinert code => ?_⟩, ?_, ?_⟩
  · by_contra hreaches
    obtain ⟨i, hi, htaken⟩ := exists_dropCommentsAndLiterals_weave_eq hreaches
    have hline : ∀ n, '\n' ∉ (Code.creationAt i n).text := by
      intro n
      rcases Code.creationAt_cases i n with h | h <;> rw [h] <;> decide
    have hclean := htaken (fun _ => Code.blank) (Code.creationAt i) (fun _ => by decide) hline
      (Code.agreeOff_creationAt i)
    have hparse : parse (String.ofList (weave (fun _ => Code.blank) (hidden.map Hidden.text))) =
        parse (String.ofList (weave (Code.creationAt i) (hidden.map Hidden.text))) := by
      simp only [parse, analyze, String.toList_ofList, clean, hclean]
    rw [hsame, hsame, parse_blank] at hparse
    exact parse_creationAt_ne hi hparse.symm
  · simp only [parse, analyze, String.toList_ofList, clean, dropCommentsAndLiterals_weave hinert]
  · rintro content oneLine rfl
    exact ⟨List.pairwise_singleton _ _, by simp [Hidden.withoutBlocks, Hidden.OpensLine]⟩
  · rintro content doubled rfl
    refine ⟨fun h => h.lines _ List.mem_cons_self, fun h => ⟨List.pairwise_singleton _ _, ?_⟩⟩
    simpa [Hidden.withoutBlocks, Hidden.OpensLine] using h

/-- A literal that holds two hyphens keeps the code after it from the parser, and what the next
literal holds is read as code. -/
theorem parse_exposes_literal :
    let view : DbObject := ⟨"v", .view, by decide⟩
    parse "CREATE VIEW v AS '--'\n'EXEC p'" =
        .ok (some ⟨view, [⟨view, "p", .storedProcedure, by decide⟩]⟩) ∧
      parse "CREATE VIEW v AS ''\n''" = .ok (some ⟨view, []⟩) := by
  decide +kernel

/-! ### Block comments in any place -/

/-- A block comment counts as one blank, whatever it holds and wherever it stands: in code, in a
literal, behind the mark of a line comment or behind a slash. -/
theorem parse_blockComment_eq_blank {before comment : String}
    (hbefore : ¬ "/*".toList <:+: before.toList) (hcomment : ¬ "*/".toList <:+: comment.toList)
    (after : String) :
    dropBlockComments (before ++ "/*" ++ comment ++ "*/" ++ after).toList =
        before.toList ++ ' ' :: dropBlockComments after.toList ∧
      analyze (before ++ "/*" ++ comment ++ "*/" ++ after) = analyze (before ++ " " ++ after) ∧
      parse (before ++ "/*" ++ comment ++ "*/" ++ after) = parse (before ++ " " ++ after) := by
  have hcommented : dropBlockComments (before ++ "/*" ++ comment ++ "*/" ++ after).toList =
      before.toList ++ ' ' :: dropBlockComments after.toList := by
    simpa [blockStart, blockEnd] using
      dropBlockComments_comment (by simpa [blockStart] using hbefore)
        (by simpa [blockEnd] using hcomment) after.toList
  have hblank : dropBlockComments (before ++ " " ++ after).toList =
      before.toList ++ ' ' :: dropBlockComments after.toList := by
    have hstep : dropBlockComments (' ' :: after.toList) = ' ' :: dropBlockComments after.toList :=
      dropBlockComments.eq_3 _ _ (fun _ h _ => by simp at h)
    have happend : dropBlockComments (before.toList ++ ' ' :: after.toList) =
        before.toList ++ dropBlockComments (' ' :: after.toList) :=
      dropBlockComments_append_of_unopened (by simpa [blockStart] using hbefore) (by simp)
    rw [hstep] at happend
    simpa using happend
  have hclean : clean (before ++ "/*" ++ comment ++ "*/" ++ after).toList =
      clean (before ++ " " ++ after).toList := by
    rw [clean, clean, dropCommentsAndLiterals, dropCommentsAndLiterals, hcommented, hblank]
  have hanalyze : analyze (before ++ "/*" ++ comment ++ "*/" ++ after) =
      analyze (before ++ " " ++ after) := by
    rw [analyze, analyze, hclean]
  exact ⟨hcommented, hanalyze, by rw [parse, parse, hanalyze]⟩

/-- A comment between a division and its operand, with a quote, marks of all kinds and a line break
inside. -/
theorem parse_blockComment_eq_blank_view :
    let view : DbObject := ⟨"v", .view, by decide⟩
    let before := "CREATE VIEW v AS SELECT a /"
    let comment := "'--/*\n*"
    ¬ "/*".toList <:+: before.toList ∧ ¬ "*/".toList <:+: comment.toList ∧
      parse (before ++ "/*" ++ comment ++ "*/" ++ "2 FROM t /* x */") =
        .ok (some ⟨view, [⟨view, "t", .table, by decide⟩]⟩) := by
  intro view before comment
  have hbefore : ¬ "/*".toList <:+: before.toList := by decide +kernel
  have hcomment : ¬ "*/".toList <:+: comment.toList := by decide +kernel
  refine ⟨hbefore, hcomment, ?_⟩
  rw [(parse_blockComment_eq_blank hbefore hcomment _).2.2]
  decide +kernel

end ScriptGraph.Script
