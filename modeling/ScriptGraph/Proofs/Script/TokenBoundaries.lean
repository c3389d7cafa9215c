import ScriptGraph.Proofs.Script.Cleaning
import ScriptGraph.Proofs.Text.Characters
import ScriptGraph.Proofs.Text.Tokens

/-!
# Token boundaries

Taking out comments and literals never joins two tokens of a script, since a blank or the end of the
line stays between them.  Taking out a list in parentheses leaves nothing in its place, so it joins
the tokens on both sides where a name character stands directly before the list and another one
directly after it; everywhere else the tokens that are left are tokens of the script.
-/

namespace ScriptGraph.Script

open Text Name
open scoped List

/-! ### Comments and literals -/

/-- A blank in place of a stretch that starts and ends outside tokens. -/
theorem tokens_append_blank_sublist {opening closing : Char} (hopening : isNameChar opening = false)
    (hclosing : isNameChar closing = false) {left rest : List Char} (h : tokens left <+ tokens rest)
    (before skipped : List Char) :
    tokens (before ++ ' ' :: left) <+
      tokens (before ++ opening :: (skipped ++ closing :: rest)) := by
  rw [tokens_append_cons (by decide), tokens_append_cons hopening,
    tokens_append_cons hclosing]
  exact (h.trans (List.sublist_append_right _ _)).append_left _

theorem exists_of_afterBlockEnd? {text rest : List Char} (h : afterBlockEnd? text = some rest) :
    ∃ skipped, text = skipped ++ '/' :: rest := by
  fun_induction afterBlockEnd? text with
  | case1 inner =>
      obtain rfl : inner = rest := by simpa using h
      exact ⟨['*'], rfl⟩
  | case2 x inner _ ih =>
      obtain ⟨skipped, rfl⟩ := ih h
      exact ⟨x :: skipped, rfl⟩
  | case3 => simp at h

theorem tokens_dropBlockComments_sublist (before text : List Char) :
    tokens (before ++ dropBlockComments text) <+ tokens (before ++ text) := by
  fun_induction dropBlockComments text generalizing before with
  | case1 => exact List.Sublist.refl _
  | case2 inner rest hinner ih =>
      obtain ⟨skipped, rfl⟩ := exists_of_afterBlockEnd? hinner
      exact tokens_append_blank_sublist (by decide) (by decide) (ih []) before
        ('*' :: skipped)
  | case3 inner hinner ih => simpa using ih (before ++ ['/'])
  | case4 x rest hother ih => simpa using ih (before ++ [x])

theorem joins_dropWhile_newline (before rest : List Char) :
    joins before (rest.dropWhile (· != '\n')) = false := by
  apply joins_of_head
  intro x hx
  have hstop := List.head?_dropWhile_not (· != '\n') rest
  rw [Option.mem_def.mp hx] at hstop
  obtain rfl : x = '\n' := by simpa using hstop
  decide

theorem tokens_dropLineComments_sublist (before text : List Char) :
    tokens (before ++ dropLineComments text) <+ tokens (before ++ text) := by
  fun_induction dropLineComments text generalizing before with
  | case1 => exact List.Sublist.refl _
  | case2 rest ih =>
      refine (ih before).trans ?_
      have hrest : tokens rest = tokens (rest.takeWhile (· != '\n')) ++
          tokens (rest.dropWhile (· != '\n')) := by
        rw [← tokens_append (joins_dropWhile_newline _ _), List.takeWhile_append_dropWhile]
      have hhyphen : isNameChar '-' = false := by decide
      rw [tokens_append (joins_dropWhile_newline _ _), tokens_append_cons hhyphen,
        tokens_cons_of_other hhyphen, hrest]
      exact (List.sublist_append_right _ _).append_left _
  | case3 x rest hother ih => simpa using ih (before ++ [x])

theorem exists_of_afterLiteral? {text rest : List Char} (h : afterLiteral? text = some rest) :
    ∃ skipped, text = skipped ++ '\'' :: rest := by
  fun_induction afterLiteral? text generalizing rest with
  | case1 => simp at h
  | case2 inner ih =>
      cases hinner : afterLiteral? inner with
      | none =>
          obtain rfl : '\'' :: inner = rest := by simpa [hinner] using h
          exact ⟨[], rfl⟩
      | some later =>
          obtain rfl : later = rest := by simpa [hinner] using h
          obtain ⟨skipped, rfl⟩ := ih hinner
          exact ⟨'\'' :: '\'' :: skipped, rfl⟩
  | case3 inner _ =>
      obtain rfl : inner = rest := by simpa using h
      exact ⟨[], rfl⟩
  | case4 x inner _ _ ih =>
      obtain ⟨skipped, rfl⟩ := ih h
      exact ⟨x :: skipped, rfl⟩

theorem tokens_dropLiterals_sublist (before text : List Char) :
    tokens (before ++ dropLiterals text) <+ tokens (before ++ text) := by
  fun_induction dropLiterals text generalizing before with
  | case1 => exact List.Sublist.refl _
  | case2 inner rest hinner ih =>
      obtain ⟨skipped, rfl⟩ := exists_of_afterLiteral? hinner
      exact tokens_append_blank_sublist (by decide) (by decide) (ih []) before
        skipped
  | case3 inner hinner ih => simpa using ih (before ++ ['\''])
  | case4 x rest hquote ih => simpa using ih (before ++ [x])

theorem tokens_dropCommentsAndLiterals_sublist (text : List Char) :
    tokens (dropCommentsAndLiterals text) <+ tokens text := by
  have hblocks := tokens_dropBlockComments_sublist [] text
  have hlines := tokens_dropLineComments_sublist [] (dropBlockComments text)
  have hliterals := tokens_dropLiterals_sublist [] (dropLineComments (dropBlockComments text))
  exact (hliterals.trans hlines).trans hblocks

/-! ### Lists in parentheses -/

theorem exists_of_spells_list {accepts : Char → Bool} {piece : List Char}
    (h : (Pattern.seq blanks (.all [.char '(', .run accepts, .char ')'])).Spells piece) :
    ∃ space inner, (∀ x ∈ space, isBlank x = true) ∧ (∀ x ∈ inner, accepts x = true) ∧
      piece = (space ++ '(' :: inner) ++ [')'] := by
  obtain ⟨space, list, rfl, hspace, hlist⟩ := Pattern.spells_seq_iff.mp h
  obtain ⟨opening, later, rfl, hopening, hlater⟩ := Pattern.spells_seq_iff.mp hlist
  obtain ⟨inner, closing, rfl, hinner, hclosing⟩ := Pattern.spells_seq_iff.mp hlater
  obtain ⟨x, rfl, hx⟩ := Pattern.spells_one_iff.mp hopening
  obtain ⟨y, rfl, hy⟩ := Pattern.spells_one_iff.mp hclosing
  obtain rfl : x = '(' := by simpa using hx
  obtain rfl : y = ')' := by simpa using hy
  refine ⟨space, inner, Pattern.spells_run_iff.mp hspace, Pattern.spells_run_iff.mp hinner, ?_⟩
  rw [List.append_assoc]
  rfl

/-- A list in parentheses, with the blanks before it, starts and ends outside tokens. -/
theorem cutsBetweenTokens_of_list {r : Rule} (hlead : ∀ piece, r.lead.Spells piece → piece = [])
    {accepts : Char → Bool}
    (htrail : r.trail = .seq blanks (.all [.char '(', .run accepts, .char ')'])) :
    r.CutsBetweenTokens where
  lead := hlead
  trail_ne_nil := by
    intro piece h
    obtain ⟨space, inner, -, -, rfl⟩ := exists_of_spells_list (htrail ▸ h)
    simp
  trail_head := by
    intro piece h x hx
    obtain ⟨space, inner, hspace, -, rfl⟩ := exists_of_spells_list (htrail ▸ h)
    cases space with
    | nil =>
        obtain rfl : '(' = x := by simpa using hx
        decide
    | cons y space =>
        obtain rfl : y = x := by simpa using hx
        exact isNameChar_eq_false_of_isBlank (hspace y List.mem_cons_self)
  trail_getLast := by
    intro piece h x hx
    obtain ⟨space, inner, -, -, rfl⟩ := exists_of_spells_list (htrail ▸ h)
    rw [List.getLast?_concat] at hx
    obtain rfl : ')' = x := by simpa using hx
    decide

/-- The rules that take out a list, in the order in which they are applied. -/
def listRules : List Rule := [typeWithParameters, insertWithColumns, mergeInsertWithColumns]

theorem cutsBetweenTokens_of_mem_listRules {r : Rule} (h : r ∈ listRules) :
    r.CutsBetweenTokens := by
  obtain rfl | rfl | rfl :
      r = typeWithParameters ∨ r = insertWithColumns ∨ r = mergeInsertWithColumns := by
    simpa [listRules] using h
  · exact cutsBetweenTokens_of_list (fun _ hpiece => by cases hpiece; rfl) rfl
  · exact cutsBetweenTokens_of_list (fun _ hpiece => by cases hpiece; rfl) rfl
  · exact cutsBetweenTokens_of_list (fun _ hpiece => by cases hpiece; rfl) rfl

/-- How many of the cuts that some rules make, one rule after another, join two tokens. -/
def fusionsOf : List Rule → List Char → Nat
  | [], _ => 0
  | r :: later, text => fusions (r.pieces text) + fusionsOf later (r.reduce text)

/-- Cleaning a script reduces it with the rules for lists, after comments and literals. -/
theorem clean_eq_foldl (text : List Char) :
    clean text = listRules.foldl (fun text r => r.reduce text) (dropCommentsAndLiterals text) := rfl

theorem tokens_foldl_reduce_sublist {rules : List Rule} (h : ∀ r ∈ rules, r.CutsBetweenTokens)
    {text : List Char} (hfusions : fusionsOf rules text = 0) :
    tokens (rules.foldl (fun text r => r.reduce text) text) <+ tokens text := by
  induction rules generalizing text with
  | nil => exact List.Sublist.refl _
  | cons r later ih =>
      obtain ⟨hfirst, hlater⟩ :
          fusions (r.pieces text) = 0 ∧ fusionsOf later (r.reduce text) = 0 := by
        simpa [fusionsOf] using hfusions
      have hstep := (h r List.mem_cons_self).tokens_reduce_sublist hfirst
      have hrest := ih (fun r' hr' => h r' (List.mem_cons_of_mem _ hr')) hlater
      exact hrest.trans hstep

/-- The number of lists that cleaning a script takes out from directly between two tokens. -/
def listFusions (text : List Char) : Nat := fusionsOf listRules (dropCommentsAndLiterals text)

/-- The tokens of a cleaned script are tokens of the script, in the same order, if no list stands
directly between two tokens.  No comment or literal does harm, and each of the rules for lists
leaves the tokens outside its lists exactly if it takes out none from directly between two tokens. -/
theorem tokens_clean_sublist_of_listFusions (text : List Char) :
    (listFusions text = 0 → tokens (clean text) <+ tokens text) ∧
      tokens (dropCommentsAndLiterals text) <+ tokens text ∧
      ∀ r ∈ listRules, ∀ input, (r.pieces input).flatMap tokens <+ tokens input ∧
        (tokens (r.reduce input) = (r.pieces input).flatMap tokens ↔
          fusions (r.pieces input) = 0) := by
  refine ⟨?_, tokens_dropCommentsAndLiterals_sublist text, ?_⟩
  · intro h
    have hlists := tokens_foldl_reduce_sublist (fun r => cutsBetweenTokens_of_mem_listRules) h
    rw [clean_eq_foldl]
    exact hlists.trans (tokens_dropCommentsAndLiterals_sublist text)
  · intro r hr input
    refine ⟨(cutsBetweenTokens_of_mem_listRules hr).flatMap_tokens_pieces_sublist input, ?_⟩
    rw [← Rule.flatten_pieces]
    exact tokens_flatten_eq_iff (r.pieces input)

theorem tokens_clean_sublist_of_listFusions_insert :
    listFusions "a CHAR(2) NOT/*c*/NULL INSERT INTO t(a) SELECT 'x'".toList = 0 ∧
      tokens (clean "a CHAR(2) NOT/*c*/NULL INSERT INTO t(a) SELECT 'x'".toList) <+
        tokens "a CHAR(2) NOT/*c*/NULL INSERT INTO t(a) SELECT 'x'".toList := by
  have h : listFusions "a CHAR(2) NOT/*c*/NULL INSERT INTO t(a) SELECT 'x'".toList = 0 := by
    decide +kernel
  exact ⟨h, (tokens_clean_sublist_of_listFusions _).1 h⟩

/-- A column list between a target and the next keyword: the two become one token. -/
theorem not_tokens_clean_sublist_insert :
    ¬ tokens (clean "CREATE PROCEDURE p AS INSERT INTO t(a)SELECT b FROM u".toList) <+
      tokens "CREATE PROCEDURE p AS INSERT INTO t(a)SELECT b FROM u".toList := by
  decide +kernel

end ScriptGraph.Script
