import ScriptGraph.Proofs.Script.OpenNames
import ScriptGraph.Proofs.Script.Renaming

/-!
# When two spellings denote one object

A path is written as segments between dots, each of them bare, in brackets or in double quotes, with
blanks around it.  As long as no content has a dot, two paths have the same key exactly if they have
the same contents, trimmed and without regard to case and to empty segments.  A dot inside
delimiters parts the content like any other dot, so the delimiters stay in the key: the bracketed
and the quoted spelling of such a content denote different objects.
-/

namespace ScriptGraph.Name

open Text

/-! ### Segments as they are written -/

inductive Style where
  | bare
  | bracketed
  | quoted
deriving DecidableEq

namespace Style

def admits : Style → List Char → Bool
  | bare, [] => false
  | bare, x :: rest => isFirstChar x && rest.all isNameChar
  | bracketed, content => !content.contains ']'
  | quoted, content => !content.contains '"'

def write : Style → List Char → List Char
  | bare, content => content
  | bracketed, content => '[' :: (content ++ [']'])
  | quoted, content => '"' :: (content ++ ['"'])

end Style

/-- A segment of a path as it is written, with the blanks around it. -/
structure Segment where
  style : Style
  content : List Char
  before : List Char
  after : List Char
  admitted : style.admits content = true
  dotless : '.' ∉ content
  before_blank : allBlank before = true
  after_blank : allBlank after = true

namespace Segment

def text (s : Segment) : List Char := s.before ++ (s.style.write s.content ++ s.after)

/-- What a segment stands for, without regard to style, blanks and case. -/
def meaning (s : Segment) : List Char := fold (trim s.content)

end Segment

def render (path : List Segment) : List Char := ['.'].intercalate (path.map Segment.text)

/-- What a path stands for; empty segments do not count. -/
def meanings (path : List Segment) : List (List Char) :=
  (path.map Segment.meaning).filter (!·.isEmpty)

theorem exists_cons_of_admits_bare {content : List Char} (h : Style.bare.admits content = true) :
    ∃ x rest, content = x :: rest ∧ isFirstChar x = true ∧ ∀ y ∈ content, isBlank y = false := by
  cases content with
  | nil => simp [Style.admits] at h
  | cons x rest =>
      obtain ⟨hx, hrest⟩ : isFirstChar x = true ∧ ∀ y ∈ rest, isNameChar y = true := by
        simpa [Style.admits] using h
      refine ⟨x, rest, rfl, hx, List.forall_mem_cons.mpr ⟨?_, fun y hy => ?_⟩⟩
      · exact isBlank_eq_false_of_isFirstChar hx
      · exact isBlank_eq_false_of_isNameChar (hrest y hy)

/-! ### Taking off delimiters -/

def delimiters : List (Char × Char) := [('[', ']'), ('"', '"')]

section Delimiters

variable {opening closing : Char} (h : (opening, closing) ∈ delimiters)

include h

theorem isBlank_delimiters : isBlank opening = false ∧ isBlank closing = false := by
  have hall : ∀ pair ∈ delimiters, isBlank pair.1 = false ∧ isBlank pair.2 = false := by decide
  exact hall _ h

theorem bare_eq_of_opening {part inner : List Char} (htrim : trim part = opening :: inner) :
    bare part =
      if inner.getLast? = some closing then trim inner.dropLast else opening :: inner := by
  obtain ⟨rfl, rfl⟩ | ⟨rfl, rfl⟩ :
      opening = '[' ∧ closing = ']' ∨ opening = '"' ∧ closing = '"' := by simpa [delimiters] using h
  · rw [bare, htrim]
    simp
  · rw [bare, htrim]
    simp

theorem bare_delimited {before after : List Char} (hbefore : allBlank before = true)
    (hafter : allBlank after = true) (content : List Char) :
    bare (before ++ (opening :: (content ++ [closing]) ++ after)) = trim content := by
  obtain ⟨hopening, hclosing⟩ := isBlank_delimiters h
  have htrim : trim (before ++ (opening :: (content ++ [closing]) ++ after)) =
      opening :: (content ++ [closing]) := by
    refine trim_append (by simpa [allBlank] using hbefore) (by simpa [allBlank] using hafter) ?_ ?_
      (by simp)
    · simpa using hopening
    · rw [← List.cons_append, List.getLast?_concat]
      simpa using hclosing
  rw [bare_eq_of_opening h htrim, List.getLast?_concat, if_pos rfl, List.dropLast_concat]

end Delimiters

theorem bare_eq_trim {part inner : List Char} {x : Char} (htrim : trim part = x :: inner)
    (hbracket : x ≠ '[') (hquote : x ≠ '"') : bare part = trim part := by
  unfold bare
  split
  · rename_i heq
    exact absurd (List.cons.inj (htrim.symm.trans heq)).1 hbracket
  · rename_i heq
    exact absurd (List.cons.inj (htrim.symm.trans heq)).1 hquote
  · rfl

namespace Segment

theorem bare_text (s : Segment) : Name.bare s.text = trim s.content := by
  obtain ⟨style, content, before, after, hadmitted, -, hbefore, hafter⟩ := s
  unfold text
  cases style with
  | bracketed => exact bare_delimited (by decide) hbefore hafter content
  | quoted => exact bare_delimited (by decide) hbefore hafter content
  | bare =>
      obtain ⟨x, rest, rfl, hx, hblank⟩ := exists_cons_of_admits_bare hadmitted
      have htrim : trim (before ++ (x :: rest ++ after)) = x :: rest :=
        trim_append (by simpa [allBlank] using hbefore) (by simpa [allBlank] using hafter)
          (by simpa using hblank x List.mem_cons_self)
          (fun y hy => hblank y (List.mem_of_getLast? hy)) (by simp)
      have hdelimiter : x ≠ '[' ∧ x ≠ '"' := by
        constructor
        all_goals
          rintro rfl
          exact absurd hx (by decide)
      exact (bare_eq_trim htrim hdelimiter.1 hdelimiter.2).trans
        (htrim.trans (trim_eq_self hblank).symm)

theorem dot_notMem_text (s : Segment) : '.' ∉ s.text := by
  have hblanks : ∀ {blanks : List Char}, allBlank blanks = true → '.' ∉ blanks := by
    intro blanks hblanks hmem
    have hdot : isBlank '.' = true := List.all_eq_true.mp hblanks _ hmem
    exact absurd hdot (by decide)
  have hwrite : '.' ∉ s.style.write s.content := by
    cases s.style <;> simpa [Style.write] using s.dotless
  simp [text, hblanks s.before_blank, hblanks s.after_blank, hwrite]

end Segment

/-! ### Keys of paths -/

theorem significantParts_render (path : List Segment) :
    significantParts (render path) =
      (path.map fun s => trim s.content).filter (!·.isEmpty) := by
  have hbare : (path.map Segment.text).map bare = path.map fun s => trim s.content := by
    rw [List.map_map]
    exact List.map_congr_left fun s _ => s.bare_text
  by_cases hempty : path = []
  · subst hempty
    decide
  · have hdotless : ∀ piece ∈ path.map Segment.text, '.' ∉ piece := by
      simpa using fun s (_ : s ∈ path) => s.dot_notMem_text
    rw [significantParts, render, parts_intercalate hdotless (by simpa using hempty), hbare]

theorem isEmpty_fold (text : List Char) : (fold text).isEmpty = text.isEmpty := by
  cases text with
  | nil => rfl
  | cons x rest => simpa using fold_ne_nil (List.cons_ne_nil x rest)

theorem keyChars_render (path : List Segment) :
    keyChars (render path) = ['.'].intercalate (meanings path) := by
  have hcounts : ((!·.isEmpty) ∘ fun s : Segment => trim s.content) =
      ((!·.isEmpty) ∘ Segment.meaning) := by
    funext s
    exact congrArg not (isEmpty_fold (trim s.content)).symm
  rw [keyChars, significantParts_render, fold_intercalate, meanings, List.filter_map,
    List.filter_map, List.map_map, hcounts]
  rfl

theorem intercalate_ne_nil {pieces : List (List Char)}
    (h : ∀ piece ∈ pieces, '.' ∉ piece ∧ piece ≠ []) (hne : pieces ≠ []) :
    ['.'].intercalate pieces ≠ [] := by
  intro hnil
  have hparts := parts_intercalate (fun piece hpiece => (h piece hpiece).1) hne
  rw [hnil] at hparts
  exact (h [] (hparts ▸ List.mem_singleton_self [])).2 rfl

/-- Pieces that are joined by dots can be told apart, if none is empty or has a dot itself. -/
theorem eq_of_intercalate_eq {pieces pieces' : List (List Char)}
    (h : ∀ piece ∈ pieces, '.' ∉ piece ∧ piece ≠ [])
    (h' : ∀ piece ∈ pieces', '.' ∉ piece ∧ piece ≠ [])
    (heq : ['.'].intercalate pieces = ['.'].intercalate pieces') : pieces = pieces' := by
  by_cases hempty : pieces = []
  · by_contra hne
    have hne' : pieces' ≠ [] := fun hempty' => hne (hempty.trans hempty'.symm)
    exact intercalate_ne_nil h' hne' (by rw [← heq, hempty]; rfl)
  · have hempty' : pieces' ≠ [] := by
      intro hempty'
      exact intercalate_ne_nil h hempty (by rw [heq, hempty']; rfl)
    have hparts := parts_intercalate (fun piece hpiece => (h piece hpiece).1) hempty
    have hparts' := parts_intercalate (fun piece hpiece => (h' piece hpiece).1) hempty'
    rw [← hparts, heq, hparts']

theorem dot_notMem_of_mem_meanings {path : List Segment} {piece : List Char}
    (h : piece ∈ meanings path) : '.' ∉ piece ∧ piece ≠ [] := by
  obtain ⟨hmem, hne⟩ := List.mem_filter.mp h
  obtain ⟨s, -, rfl⟩ := List.mem_map.mp hmem
  exact ⟨fun hdot => s.dotless (mem_of_mem_trim (dot_mem_of_mem_fold hdot)), by simpa using hne⟩

/-- Two paths without dots inside their segments denote one object exactly if they stand for the
same names. -/
theorem key_render_eq_iff (path path' : List Segment) :
    key (String.ofList (render path)) = key (String.ofList (render path')) ↔
      meanings path = meanings path' := by
  simp only [key, String.toList_ofList, String.ofList_inj, keyChars_render]
  constructor
  · exact eq_of_intercalate_eq (fun _ => dot_notMem_of_mem_meanings)
      (fun _ => dot_notMem_of_mem_meanings)
  · intro h
    rw [h]

/-- A path in two spellings, the second with an empty segment, and a path that differs from them in
its last segment. -/
theorem key_render_eq_iff_spellings :
    let path : List Segment := [
      ⟨.bracketed, "dbo".toList, [' '], [' '], by decide, by decide, by decide, by decide⟩,
      ⟨.quoted, "Order Lines".toList, ['\t'], [], by decide, by decide, by decide, by decide⟩]
    let path' : List Segment := [
      ⟨.bare, "DBO".toList, [], [], by decide, by decide, by decide, by decide⟩,
      ⟨.quoted, [], [], [' '], by decide, by decide, by decide, by decide⟩,
      ⟨.bracketed, " order LINES ".toList, [], [], by decide, by decide, by decide, by decide⟩]
    let other : List Segment := [
      ⟨.bare, "dbo".toList, [], [], by decide, by decide, by decide, by decide⟩,
      ⟨.bare, "Orders".toList, [], [], by decide, by decide, by decide, by decide⟩]
    String.ofList (render path) = " [dbo] .\t\"Order Lines\"" ∧
    String.ofList (render path') = "DBO.\"\" .[ order LINES ]" ∧
    key (String.ofList (render path)) = key (String.ofList (render path')) ∧
    key (String.ofList (render path)) ≠ key (String.ofList (render other)) := by
  intro path path' other
  have hsame : meanings path = meanings path' := by decide +kernel
  have hother : meanings path ≠ meanings other := by decide +kernel
  exact ⟨by decide +kernel, by decide +kernel, (key_render_eq_iff path path').mpr hsame,
    fun hkey => hother ((key_render_eq_iff path other).mp hkey)⟩

/-! ### One identifier in delimiters -/

def spelled (style : Style) (content : List Char) : String := String.ofList (style.write content)

theorem keyChars_of_dotless {raw : List Char} (h : '.' ∉ raw) : keyChars raw = fold (bare raw) := by
  rw [keyChars, significantParts, parts_eq_singleton h]
  cases hbare : bare raw with
  | nil => simp [hbare, List.intercalate]
  | cons x rest => simp [hbare, List.intercalate_singleton]

theorem trim_cons {x : Char} (hx : isBlank x = false) (rest : List Char) :
    ∃ inner, trim (x :: rest) = x :: inner ∧ inner <+: rest := by
  have hstart : trimStart (x :: rest) = x :: rest := by simp [trimStart, hx]
  have hprefix : trim (x :: rest) <+: x :: rest := by
    rw [trim, hstart, trimEnd, ← List.reverse_suffix, List.reverse_reverse]
    exact List.dropWhile_suffix _
  rcases List.prefix_cons_iff.mp hprefix with hnil | ⟨inner, heq, hinner⟩
  · exact absurd hnil (List.ne_nil_of_mem (mem_trim List.mem_cons_self hx))
  · exact ⟨inner, heq, hinner⟩

section Delimiters

variable {opening closing : Char} (h : (opening, closing) ∈ delimiters)

include h

theorem keyChars_delimited_of_dotless {content : List Char} (hdot : '.' ∉ content) :
    keyChars (opening :: (content ++ [closing])) = fold (trim content) := by
  have hdelimiters : ∀ pair ∈ delimiters, pair.1 ≠ '.' ∧ pair.2 ≠ '.' := by decide
  have hraw : '.' ∉ opening :: (content ++ [closing]) := by
    simp [hdot, (hdelimiters _ h).1.symm, (hdelimiters _ h).2.symm]
  have hbare := @bare_delimited _ _ h [] [] rfl rfl content
  rw [keyChars_of_dotless hraw]
  simpa using congrArg fold hbare

/-- A dot inside delimiters parts them, and the opening one stays in the key. -/
theorem head?_keyChars_delimited_of_dot {content : List Char} (hdot : '.' ∈ content)
    (hclosing : closing ∉ content) :
    (keyChars (opening :: (content ++ [closing]))).head? = some opening := by
  have hdelimiters : ∀ pair ∈ delimiters, '.' ≠ pair.1 ∧ foldChar pair.1 = [pair.1] := by
    decide +kernel
  obtain ⟨hopening, hfold⟩ := hdelimiters _ h
  -- The first part ends before the first dot, so it has no closing delimiter.
  obtain ⟨front, rest, rfl, hfront⟩ := List.eq_append_cons_of_mem hdot
  have hparts : parts (opening :: (front ++ '.' :: rest ++ [closing])) =
      (opening :: front) :: parts (rest ++ [closing]) := by
    have hfirst : '.' ∉ opening :: front := by simp [hopening, hfront]
    simpa using parts_append_dot hfirst (rest ++ [closing])
  obtain ⟨inner, htrim, hinner⟩ := trim_cons (isBlank_delimiters h).1 front
  have hunclosed : inner.getLast? ≠ some closing := by
    intro hlast
    exact hclosing (List.mem_append_left _ (hinner.subset (List.mem_of_getLast? hlast)))
  have hbare : bare (opening :: front) = opening :: inner := by
    rw [bare_eq_of_opening h htrim, if_neg hunclosed]
  obtain ⟨later, hlater⟩ : ∃ later,
      significantParts (opening :: (front ++ '.' :: rest ++ [closing])) =
        (opening :: inner) :: later := by
    rw [significantParts, hparts, List.map_cons, hbare]
    exact ⟨_, rfl⟩
  rw [keyChars, hlater, fold_intercalate, List.map_cons, fold, List.flatMap_cons, hfold]
  cases later with
  | nil => simp
  | cons part later => simp [List.intercalate_cons_cons]

end Delimiters

/-- Without a dot inside, both spellings have the key of the content. -/
theorem key_spelled_of_dotless {content : List Char} (hdot : '.' ∉ content) :
    key (spelled .bracketed content) = String.ofList (fold (trim content)) ∧
      key (spelled .quoted content) = String.ofList (fold (trim content)) := by
  simp only [key, spelled, String.toList_ofList, Style.write]
  rw [keyChars_delimited_of_dotless (by decide) hdot,
    keyChars_delimited_of_dotless (by decide) hdot]
  exact ⟨rfl, rfl⟩

/-- With a dot inside, each spelling has a key that starts with its own delimiter. -/
theorem head?_key_spelled_of_dot {content : List Char} (hbracket : ']' ∉ content)
    (hquote : '"' ∉ content) (hdot : '.' ∈ content) :
    (key (spelled .bracketed content)).toList.head? = some '[' ∧
      (key (spelled .quoted content)).toList.head? = some '"' := by
  simp only [key, spelled, String.toList_ofList, Style.write]
  exact ⟨head?_keyChars_delimited_of_dot (by decide) hdot hbracket,
    head?_keyChars_delimited_of_dot (by decide) hdot hquote⟩

theorem key_spelled_eq_iff {content : List Char} (hbracket : ']' ∉ content)
    (hquote : '"' ∉ content) :
    key (spelled .bracketed content) = key (spelled .quoted content) ↔ '.' ∉ content := by
  constructor
  · intro heq hdot
    obtain ⟨hbracketed, hquoted⟩ := head?_key_spelled_of_dot hbracket hquote hdot
    rw [heq, hquoted] at hbracketed
    exact absurd hbracketed (by decide)
  · intro hdot
    obtain ⟨hbracketed, hquoted⟩ := key_spelled_of_dotless hdot
    rw [hbracketed, hquoted]

end ScriptGraph.Name

namespace ScriptGraph.Script

open Text Name

/-! ### Scripts that refer to what they create -/

theorem isReserved_eq_false_of_quote {token : List Char} (h : '"' ∈ token) :
    isReserved token = false :=
  isReserved_eq_false_of_mem h (by decide)

/-- No reference leads to an object with the key of the definition. -/
theorem key_ne_of_parse {text : String} {r : ParsedScript} (h : parse text = .ok (some r)) :
    ∀ e ∈ r.references, e.callee.key ≠ r.definition.key := by
  obtain ⟨definition, hdefinition, rfl⟩ := exists_definition?_of_parse h
  exact (sound_of_definition? hdefinition).key_ne_definition

/-- A name that is executed is reported if it passes the filters. -/
theorem exists_reference_of_call {text : String} {r : ParsedScript} {name : List Char}
    (h : parse text = .ok (some r)) (hcall : name ∈ Search.procedureCalls.names (clean text.toList))
    (hpasses : (startContext (clean text.toList) r.definition).Passes name) :
    ∃ e ∈ r.references,
      e.callee.kind = .storedProcedure ∧ e.callee.key = key (String.ofList name) := by
  obtain ⟨definition, -, rfl⟩ := exists_definition?_of_parse h
  obtain ⟨e, he⟩ := Context.exists_candidate?_iff.mpr hpasses
  have hmem : e ∈ Search.candidates (startContext (clean text.toList) definition) Search.all := by
    obtain ⟨hit, hhit, rfl⟩ := List.mem_map.mp hcall
    exact List.mem_flatMap.mpr ⟨_, List.mem_cons_self, List.mem_filterMap.mpr ⟨hit, hhit, he⟩⟩
  obtain ⟨kept, hkept, hsame⟩ := Reference.exists_mem_distinctFrom hmem List.not_mem_nil
  rw [Context.identity_of_candidate? he] at hsame
  simp only [Reference.identity, Prod.mk.injEq] at hsame
  exact ⟨kept, hkept, hsame.2⟩

/-- The bracketed and the quoted spelling of a content denote one object exactly if the content has
no dot.  Then the key is that of the content alone, and no script that creates the one has a
reference to the other.  With a dot inside, a delimiter stays in each of the keys, and a script that
creates the one and executes the other has a reference to itself. -/
theorem delimited_same_iff_dotless {content : List Char} (hbracket : ']' ∉ content)
    (hquote : '"' ∉ content) :
    (key (spelled .bracketed content) = key (spelled .quoted content) ↔ '.' ∉ content) ∧
    ('.' ∉ content → key (spelled .bracketed content) = String.ofList (fold (trim content))) ∧
    ('.' ∈ content → '[' ∈ (key (spelled .bracketed content)).toList ∧
      '"' ∈ (key (spelled .quoted content)).toList) ∧
    ∀ (text : String) (r : ParsedScript), parse text = .ok (some r) →
      r.definition.name = spelled .bracketed content →
        ('.' ∉ content → ∀ e ∈ r.references, e.callee.key ≠ key (spelled .quoted content)) ∧
        ('.' ∈ content →
          Style.quoted.write content ∈ Search.procedureCalls.names (clean text.toList) →
          key (spelled .quoted content) ∉ noise (clean text.toList) →
            ∃ e ∈ r.references, e.callee.kind = .storedProcedure ∧
              e.callee.key = key (spelled .quoted content)) := by
  have hsame := key_spelled_eq_iff hbracket hquote
  have hheads := head?_key_spelled_of_dot hbracket hquote
  refine ⟨hsame, fun hdot => (key_spelled_of_dotless hdot).1, ?_, ?_⟩
  · intro hdot
    exact ⟨List.mem_of_head? (hheads hdot).1, List.mem_of_head? (hheads hdot).2⟩
  · intro text r hparse hname
    have hkey : r.definition.key = key (spelled .bracketed content) := by rw [DbObject.key, hname]
    refine ⟨fun hdot e he => ?_, fun hdot hcall hnoise => ?_⟩
    · rw [← hsame.mpr hdot, ← hkey]
      exact key_ne_of_parse hparse e he
    · refine exists_reference_of_call hparse hcall ⟨?_, hnoise, ?_, .inr ?_⟩
      · intro hempty
        have hhead := (hheads hdot).2
        rw [spelled, hempty] at hhead
        exact absurd hhead (by decide)
      · intro hself
        exact hsame.mp (hkey.symm.trans hself.symm) hdot
      · exact isReserved_eq_false_of_quote (mem_trim List.mem_cons_self (by decide))

theorem delimited_same_iff_dotless_view :
    let plain := "Order Lines".toList
    let dotted := "a.b".toList
    ']' ∉ plain ∧ '"' ∉ plain ∧ key (spelled .bracketed plain) = key (spelled .quoted plain) ∧
      ']' ∉ dotted ∧ '"' ∉ dotted ∧
        key (spelled .bracketed dotted) ≠ key (spelled .quoted dotted) := by
  have hplain := delimited_same_iff_dotless
    (by decide : ']' ∉ "Order Lines".toList) (by decide : '"' ∉ "Order Lines".toList)
  have hdotted := delimited_same_iff_dotless
    (by decide : ']' ∉ "a.b".toList) (by decide : '"' ∉ "a.b".toList)
  exact ⟨by decide, by decide, hplain.1.mpr (by decide), by decide, by decide,
    fun heq => hdotted.1.mp heq (by decide)⟩

/-- A procedure whose name has a dot inside its delimiters and that executes itself. -/
theorem parse_reports_dotted_self :
    let procedure : DbObject := ⟨spelled .bracketed "a.b".toList, .storedProcedure, by decide⟩
    parse "CREATE PROCEDURE [a.b] AS EXEC \"a.b\"" =
        .ok (some ⟨procedure,
          [⟨procedure, spelled .quoted "a.b".toList, .storedProcedure, by decide⟩]⟩) ∧
      procedure.key = "[a.b]" ∧ key (spelled .quoted "a.b".toList) = "\"a.b\"" := by
  decide +kernel

end ScriptGraph.Script
