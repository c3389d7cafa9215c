import ScriptGraph.Proofs.Script.Balance
import ScriptGraph.Proofs.Script.References
import ScriptGraph.Proofs.Text.Preferred

/-!
# Names that a script introduces

A `WITH` clause gives names to queries in parentheses, and a derived table has its name behind the
parenthesis that closes it.  The query may hold any balanced text, further clauses of both kinds
included.  All names that are introduced in this way are collected, so that no search reports them.
-/

namespace ScriptGraph.Script

open Text Name Pattern

/-- No search that leaves out the noise of a script reports the key. -/
def NeverReported (clean : List Char) (key : String) : Prop :=
  ∀ ctx : Context, ctx.noise = noise clean → ∀ search : Search,
    ∀ e ∈ search.references ctx, e.callee.key ≠ key

theorem neverReported_of_mem {clean : List Char} {key : String}
    (h : key ∈ tableExpressions clean ∨ key ∈ derivedTableAliases clean) :
    NeverReported clean key := by
  rintro ctx hctx search e he rfl
  have hadmits := (Search.found_of_mem_references he).admits
  apply hadmits.key_notMem_noise
  have hnonempty : e.callee.key.isEmpty = false := by simpa using hadmits.key_ne_empty
  rw [hctx, noise, List.mem_filter, hnonempty]
  rcases h with h | h <;> simp [h]

/-! ### Table expressions -/

/-- A table expression as it is written: a name, perhaps a list of columns, `AS` and a query in
parentheses. -/
structure TableExpression where
  name : List Char
  afterName : List Char
  columns : Option (List Char)
  afterColumns : List Char
  asWord : List Char
  afterAs : List Char
  query : List Char
  name_spelled : identifier.Spells name
  afterName_blank : blanks.Spells afterName
  columns_flat : ∀ list ∈ columns, '(' ∉ list ∧ ')' ∉ list
  afterColumns_blank : blanks.Spells afterColumns
  asWord_spelled : (word "AS").Spells asWord
  afterAs_blank : blanks.Spells afterAs
  query_balanced : Balanced query
  /-- Only a delimited name stands directly before `AS`. -/
  name_apart : columns = none → afterName = [] → name.getLast?.any isNameChar = false

namespace TableExpression

def columnList (e : TableExpression) : List Char :=
  e.columns.elim [] fun list => '(' :: (list ++ ')' :: e.afterColumns)

def opening (e : TableExpression) : List Char :=
  e.afterName ++ (e.columnList ++ (e.asWord ++ (e.afterAs ++ ['('])))

def text (e : TableExpression) : List Char := e.name ++ (e.opening ++ (e.query ++ [')']))

def key (e : TableExpression) : String := Name.key (String.ofList e.name)

variable (e : TableExpression) {back rest : List Char} {x : Char}

theorem isBlank_head_columnList (hx : isFirstChar x = true) :
    ∀ y ∈ (e.columnList ++ x :: rest).head?, isBlank y = false := by
  cases hcolumns : e.columns with
  | none =>
      simp only [columnList, hcolumns, Option.elim_none, List.nil_append]
      rintro y ⟨⟩
      exact isBlank_eq_false_of_isFirstChar hx
  | some list =>
      simp only [columnList, hcolumns, Option.elim_some, List.cons_append]
      rintro y ⟨⟩
      decide

theorem takes_columnList (hx : isFirstChar x = true) :
    (optional (.all [.char '(', .run (fun c => c != '(' && c != ')'), .char ')', blanks])).Takes
      back e.columnList (x :: rest) := by
  unfold columnList
  cases hcolumns : e.columns with
  | none =>
      -- The word `AS` starts with a letter, so there is no list to prefer.
      have hletter : x ≠ '(' := by
        rintro rfl
        exact absurd hx (by decide)
      refine .altRight ?_ .empty
      simp [Pattern.all, Pattern.char, ends, hletter]
  | some list =>
      obtain ⟨hopening, hclosing⟩ := e.columns_flat list hcolumns
      have hlist : ∀ y ∈ list, (y != '(' && y != ')') = true := by
        intro y hy
        have hopen : y ≠ '(' := fun heq => hopening (heq ▸ hy)
        have hclose : y ≠ ')' := fun heq => hclosing (heq ▸ hy)
        simp [hopen, hclose]
      have hblanks : blanks.Takes (')' :: (list.reverse ++ '(' :: back)) e.afterColumns
          (x :: rest) := by
        refine takes_blanks e.afterColumns_blank ?_
        rintro y ⟨⟩
        exact isBlank_eq_false_of_isFirstChar hx
      refine .altLeft
        ((Takes.char '(').seq (Takes.seq (.run hlist ?_) ((Takes.char ')').seq hblanks)))
      rintro y ⟨⟩
      decide

theorem takes_opening : expressionTail.Takes back e.opening rest := by
  obtain ⟨x, later, hword, hx⟩ :=
    exists_cons_of_spells_word (by decide) (by decide) e.asWord_spelled
  have hspelled := e.asWord_spelled
  rw [opening, hword]
  rw [hword] at hspelled
  refine .seq (takes_blanks e.afterName_blank ?_) (.seq (e.takes_columnList hx)
    (.seq (.word hspelled) (.seq (takes_blanks e.afterAs_blank ?_) (.char '('))))
  · rw [List.append_assoc]
    exact e.isBlank_head_columnList hx
  · rintro y ⟨⟩
    decide

theorem joins_name_opening : joins e.name (e.opening ++ rest) = false := by
  cases hafter : e.afterName with
  | cons y later =>
      have hblank : isBlank y = true := spells_run_iff.mp e.afterName_blank y (by simp [hafter])
      apply joins_of_head
      rw [opening, hafter]
      rintro z ⟨⟩
      exact isNameChar_eq_false_of_isBlank hblank
  | nil =>
      cases hcolumns : e.columns with
      | none => simp [joins, e.name_apart hcolumns hafter]
      | some list =>
          apply joins_of_head
          simp only [opening, hafter, columnList, hcolumns, Option.elim_some, List.nil_append,
            List.cons_append]
          rintro z ⟨⟩
          decide

/-- Behind the text that leads to it, the expression is matched up to its query. -/
theorem exists_hit?_behind {r : Rule} (hbody : r.body = identifier)
    (htrail : r.trail = expressionTail) {lead : List Char}
    (hlead : r.lead.Takes back lead (e.name ++ (e.opening ++ rest))) :
    ∃ hit behind, r.hit? ⟨back, lead ++ (e.name ++ (e.opening ++ rest))⟩ = some hit ∧
      wantedKey hit = e.key ∧ hit.stop = ⟨behind, rest⟩ := by
  obtain ⟨hit, hhit, hname, hstop⟩ := Rule.exists_hit?_of_takes hlead
    (hbody ▸ takes_identifier e.name_spelled e.joins_name_opening _) (htrail ▸ e.takes_opening)
  exact ⟨hit, _, hhit, by rw [wantedKey, hname, key], hstop⟩

end TableExpression

/-- A table expression behind a comma. -/
structure FurtherExpression extends TableExpression where
  beforeComma : List Char
  afterComma : List Char
  beforeComma_blank : blanks.Spells beforeComma
  afterComma_blank : blanks.Spells afterComma

namespace FurtherExpression

def comma (e : FurtherExpression) : List Char := e.beforeComma ++ ',' :: e.afterComma

def text (e : FurtherExpression) : List Char := e.comma ++ e.toTableExpression.text

theorem exists_hit? (e : FurtherExpression) (back rest : List Char) :
    ∃ hit behind, furtherExpression.hit? ⟨back, e.comma ++ (e.name ++ (e.opening ++ rest))⟩ =
      some hit ∧ wantedKey hit = e.key ∧ hit.stop = ⟨behind, rest⟩ := by
  refine e.exists_hit?_behind rfl rfl (.seq (takes_blanks e.beforeComma_blank ?_)
    (.seq (.char ',') (takes_blanks e.afterComma_blank
      (isBlank_head_of_spells_identifier e.name_spelled _))))
  rintro y ⟨⟩
  decide

theorem length_le_length_flatMap_text (further : List FurtherExpression) :
    further.length ≤ (further.flatMap text).length := by
  induction further with
  | nil => exact Nat.le_refl 0
  | cons e further ih =>
      have hpos : 0 < e.text.length := List.length_pos_of_ne_nil (by simp [text, comma])
      rw [List.flatMap_cons, List.length_append, List.length_cons]
      omega

end FurtherExpression

/-- The keys of all expressions that follow are collected, one after the other. -/
theorem key_mem_expressionChain {query : List Char} (hquery : Balanced query)
    {further : List FurtherExpression} {left : List Char} (hleft : further.length ≤ left.length)
    (back after : List Char) :
    ∀ e ∈ further, e.key ∈ expressionChain left
      ⟨back, query ++ ')' :: (further.flatMap FurtherExpression.text ++ after)⟩ := by
  induction further generalizing query left back with
  | nil => simp
  | cons e further ih =>
      obtain ⟨y, left, rfl⟩ :=
        List.exists_cons_of_length_pos (Nat.lt_of_lt_of_le (Nat.succ_pos _) hleft)
      have htext : (e :: further).flatMap FurtherExpression.text ++ after =
          e.comma ++ (e.name ++ (e.opening ++
            (e.query ++ ')' :: (further.flatMap FurtherExpression.text ++ after)))) := by
        simp [FurtherExpression.text, TableExpression.text]
      obtain ⟨hit, behind, hhit, hkey, hstop⟩ := e.exists_hit? (')' :: (query.reverse ++ back))
        (e.query ++ ')' :: (further.flatMap FurtherExpression.text ++ after))
      simp only [expressionChain, hquery.afterGroup?_eq, htext, hhit, hkey, hstop]
      refine List.forall_mem_cons.mpr ⟨List.mem_cons_self, fun other hother => ?_⟩
      have hlater := ih e.query_balanced (Nat.le_of_succ_le_succ hleft) behind other hother
      exact List.mem_cons_of_mem _ hlater

/-- `WITH` and one table expression or more. -/
structure WithClause where
  word : List Char
  afterWord : List Char
  first : TableExpression
  further : List FurtherExpression
  word_spelled : (Pattern.word "WITH").Spells word
  afterWord_blank : gap.Spells afterWord

namespace WithClause

def text (c : WithClause) : List Char :=
  (c.word ++ c.afterWord) ++ (c.first.text ++ c.further.flatMap FurtherExpression.text)

def keys (c : WithClause) : List String := c.first.key :: c.further.map fun e => e.key

/-- After a place where a word can start, the clause is matched up to its first query. -/
theorem exists_hit? (c : WithClause) {back : List Char} (hback : back.head?.any isWord = false)
    (rest : List Char) :
    ∃ hit behind, firstExpression.hit?
        ⟨back, (c.word ++ c.afterWord) ++ (c.first.name ++ (c.first.opening ++ rest))⟩ = some hit ∧
      wantedKey hit = c.first.key ∧ hit.stop = ⟨behind, rest⟩ := by
  obtain ⟨x, later, hword, hx⟩ := exists_cons_of_spells_word (by decide) (by decide) c.word_spelled
  have hstarting : ∀ behind, (startingWord "WITH").Takes back c.word behind := by
    intro behind
    have hspelled := c.word_spelled
    rw [hword] at hspelled ⊢
    exact .afterEdge hback (isWord_of_isFirstChar hx) (.word hspelled)
  have hgap : gap.Takes (c.word.reverse ++ back) c.afterWord
      (c.first.name ++ (c.first.opening ++ rest)) :=
    takes_gap c.afterWord_blank (isBlank_head_of_spells_identifier c.first.name_spelled _)
  exact c.first.exists_hit?_behind rfl rfl ((hstarting _).seq hgap)

/-- Every name of a `WITH` clause is collected, so no search reports it: the clause may stand behind
any text in which no other one is matched, and its queries may hold any balanced text. -/
theorem keys_collected (clause : WithClause) {before after : List Char}
    (hbefore : before.getLast?.any isWord = false)
    (hnone : ∀ n < before.length,
      firstExpression.hit? ((Cursor.start (before ++ (clause.text ++ after))).skip n) = none) :
    ∀ key ∈ clause.keys, key ∈ tableExpressions (before ++ (clause.text ++ after)) ∧
      NeverReported (before ++ (clause.text ++ after)) key := by
  have htext : clause.text ++ after = (clause.word ++ clause.afterWord) ++ (clause.first.name ++
      (clause.first.opening ++ (clause.first.query ++
        ')' :: (clause.further.flatMap FurtherExpression.text ++ after)))) := by
    simp [WithClause.text, TableExpression.text]
  obtain ⟨hit, behind, hhit, hkey, hstop⟩ := clause.exists_hit?
    (by rwa [List.head?_reverse]) (clause.first.query ++
      ')' :: (clause.further.flatMap FurtherExpression.text ++ after))
  rw [← htext] at hhit
  have hadvances : firstExpression.Advances := Rule.advances_of_consumes (by decide)
  have hmem : hit ∈ firstExpression.findAll (.start (before ++ (clause.text ++ after))) := by
    refine hadvances.mem_findAll hhit fun c earlier hc hlow hearlier => ?_
    have hplace := hnone c.offset hlow
    rw [← hc, c.skip_start, hearlier] at hplace
    cases hplace
  have hcollected : ∀ key ∈ clause.keys,
      key ∈ tableExpressions (before ++ (clause.text ++ after)) := by
    intro key hclause
    refine List.mem_flatMap.mpr ⟨hit, hmem, ?_⟩
    rw [hkey, hstop]
    rcases List.mem_cons.mp hclause with rfl | hclause
    · exact List.mem_cons_self
    · obtain ⟨e, he, rfl⟩ := List.mem_map.mp hclause
      refine List.mem_cons_of_mem _
        (key_mem_expressionChain clause.first.query_balanced ?_ _ _ e he)
      have hle := FurtherExpression.length_le_length_flatMap_text clause.further
      simp only [List.length_append, List.length_cons]
      omega
  exact fun key hclause =>
    ⟨hcollected key hclause, neverReported_of_mem (.inl (hcollected key hclause))⟩

def sample : WithClause where
  word := "with".toList
  afterWord := "\n".toList
  first :=
    { name := "a".toList
      afterName := []
      columns := some "x, y".toList
      afterColumns := " ".toList
      asWord := "As".toList
      afterAs := "\t".toList
      query := "WITH z AS (SELECT (1)), y AS (z) SELECT * FROM z, y".toList
      name_spelled := (matchesWhole_iff rfl).mp (by decide)
      afterName_blank := (matchesWhole_iff rfl).mp (by decide)
      columns_flat := by
        rintro list ⟨⟩
        decide
      afterColumns_blank := (matchesWhole_iff rfl).mp (by decide)
      asWord_spelled := (matchesWhole_iff rfl).mp (by decide)
      afterAs_blank := (matchesWhole_iff rfl).mp (by decide)
      query_balanced := by decide
      name_apart := by simp }
  further := [
    { name := "[B c]".toList
      afterName := []
      columns := none
      afterColumns := []
      asWord := "AS".toList
      afterAs := []
      query := "SELECT * FROM a".toList
      beforeComma := " ".toList
      afterComma := []
      name_spelled := (matchesWhole_iff rfl).mp (by decide)
      afterName_blank := (matchesWhole_iff rfl).mp (by decide)
      columns_flat := by simp
      afterColumns_blank := (matchesWhole_iff rfl).mp (by decide)
      asWord_spelled := (matchesWhole_iff rfl).mp (by decide)
      afterAs_blank := (matchesWhole_iff rfl).mp (by decide)
      query_balanced := by decide
      name_apart := fun _ _ => by decide
      beforeComma_blank := (matchesWhole_iff rfl).mp (by decide)
      afterComma_blank := (matchesWhole_iff rfl).mp (by decide) }]
  word_spelled := (matchesWhole_iff rfl).mp (by decide)
  afterWord_blank := (matchesWhole_iff rfl).mp (by decide)

theorem keys_collected_sample :
    let before := "SELECT 1;".toList
    let clean := before ++ (sample.text ++ " SELECT * FROM [b C]".toList)
    before.getLast?.any isWord = false ∧
      (∀ n < before.length, firstExpression.hit? ((Cursor.start clean).skip n) = none) ∧
      ("a" ∈ tableExpressions clean ∧ NeverReported clean "a") ∧
      "b c" ∈ tableExpressions clean ∧ NeverReported clean "b c" := by
  intro before clean
  have hbefore : before.getLast?.any isWord = false := by decide
  have hnone : ∀ n < before.length,
      firstExpression.hit? ((Cursor.start clean).skip n) = none := by decide +kernel
  have hkeys : sample.keys = ["a", "b c"] := by decide +kernel
  have hcollected := sample.keys_collected hbefore hnone
  rw [hkeys] at hcollected
  exact ⟨hbefore, hnone, hcollected "a" (by simp), hcollected "b c" (by simp)⟩

end WithClause

/-! ### Derived tables -/

/-- The first letter of `FROM` or `JOIN` is not among the later ones of either word. -/
theorem exists_cons_of_spells_from_join {w : List Char}
    (h : (alt (word "FROM") (word "JOIN")).Spells w) :
    ∃ x later, w = x :: later ∧ plainLetter x ∈ ['f', 'j'] ∧
      ∀ y ∈ later, plainLetter y ∉ ['f', 'j'] := by
  have hletters : w.map plainLetter = ['f', 'r', 'o', 'm'] ∨
      w.map plainLetter = ['j', 'o', 'i', 'n'] :=
    (spells_alt_iff.mp h).imp map_plainLetter_of_spells_word map_plainLetter_of_spells_word
  rcases hletters with hletters | hletters
  all_goals
    obtain ⟨x, later, rfl, hx, hlater⟩ := List.map_eq_cons_iff.mp hletters
    refine ⟨x, later, rfl, by simp [hx], fun y hy hfirst => ?_⟩
    have hmem := List.mem_map_of_mem (f := plainLetter) hy
    rw [hlater] at hmem
    generalize plainLetter y = z at hfirst hmem
    simp only [List.mem_cons, List.not_mem_nil, or_false] at hfirst
    rcases hfirst with rfl | rfl <;> simp at hmem

theorem isFirstChar_of_plainLetter {x : Char} (hx : plainLetter x ∈ ['f', 'j']) :
    isFirstChar x = true := by
  have hletters : ['f', 'j'].all isAsciiLetter = true := by decide
  rw [isFirstChar, List.all_eq_true.mp hletters _ hx]
  rfl

theorem isReserved_of_spells_as {w : List Char} (h : (word "AS").Spells w)
    (hascii : w.all (·.toNat < 0x80) = true) : isReserved w = true := by
  have hlower : lower w = w.map plainLetter := by
    apply List.map_congr_left
    intro c hc
    exact lowerChar_eq_plainLetter (by simpa using List.all_eq_true.mp hascii c hc)
  rw [isReserved, hlower, map_plainLetter_of_spells_word h]
  decide

/-- A derived table as it is written: `FROM` or `JOIN`, a query in parentheses, perhaps `AS`, and an
alias. -/
structure DerivedTable where
  word : List Char
  afterWord : List Char
  query : List Char
  afterQuery : List Char
  asClause : List Char
  name : List Char
  word_spelled : (alt (.word "FROM") (.word "JOIN")).Spells word
  afterWord_blank : blanks.Spells afterWord
  query_balanced : Balanced query
  afterQuery_blank : blanks.Spells afterQuery
  asClause_spelled : (optional (.seq (.word "AS") gap)).Spells asClause
  name_spelled : identifier.Spells name
  /-- A bare alias is ASCII and is not reserved. -/
  bare_name : name.head?.any isFirstChar = true →
    name.all (·.toNat < 0x80) = true ∧ isReserved name = false

namespace DerivedTable

def text (t : DerivedTable) : List Char :=
  (t.word ++ (t.afterWord ++ ['('])) ++ (t.query ++ ')' :: ((t.afterQuery ++ t.asClause) ++ t.name))

def key (t : DerivedTable) : String := Name.key (String.ofList t.name)

variable (t : DerivedTable) {back after : List Char}

theorem isReserved_name : isReserved t.name = false := by
  rcases identifier_cases t.name_spelled with ⟨inner, hname, -⟩ | ⟨inner, hname, -⟩ |
    ⟨x, inner, hname, hx, -⟩
  · exact isReserved_eq_false_of_mem (x := '[') (by simp [hname]) (by decide)
  · exact isReserved_eq_false_of_mem (x := '"') (by simp [hname]) (by decide)
  · exact (t.bare_name (by rw [hname]; exact hx)).2

/-- Where no `AS` is written the alias is not taken for one. -/
theorem ends_as_eq_nil (hafter : joins t.name after = false) :
    (seq (.word "AS") gap).ends ⟨back, t.name ++ after⟩ = [] := by
  rw [List.eq_nil_iff_forall_not_mem]
  intro d hd
  obtain ⟨piece, hspells, hreads⟩ := exists_spells_of_mem_ends hd
  obtain ⟨w, space, rfl, hword, hspace⟩ := spells_seq_iff.mp hspells
  obtain ⟨x, later, hw, hx⟩ := exists_cons_of_spells_word (by decide) (by decide) hword
  obtain ⟨y, spaces, rfl, hy⟩ : ∃ y spaces, space = y :: spaces ∧ isBlank y = true := by
    obtain ⟨first, spaces, rfl, hfirst, -⟩ := spells_seq_iff.mp hspace
    obtain ⟨y, rfl, hy⟩ := spells_one_iff.mp hfirst
    exact ⟨y, spaces, rfl, hy⟩
  have hrest : t.name ++ after = w ++ (y :: (spaces ++ d.rest)) := by
    rw [← List.cons_append, ← List.append_assoc]
    exact hreads.rest
  obtain ⟨z, letters, hcons, -⟩ := exists_cons_of_spells_identifier t.name_spelled
  have hbare : t.name.head?.any isFirstChar = true := by
    rw [hcons, hw] at hrest
    obtain ⟨rfl, -⟩ : z = x ∧ _ := by simpa using hrest
    rw [hcons]
    exact hx
  obtain ⟨hascii, hreserved⟩ := t.bare_name hbare
  -- Both sides start with a longest run of name characters, so the alias is the word.
  have hname := isNameChar_of_spells_identifier t.name_spelled hbare
  have hfollowing := isNameChar_head_of_joins hname (by simp [hcons]) hafter
  have hwordName : ∀ c ∈ w, isNameChar c = true := fun c hc =>
    isNameChar_of_isFirstChar (isFirstChar_of_spells_word (by decide) hword c hc)
  have hspaceHead : ∀ c ∈ (y :: (spaces ++ d.rest)).head?, isNameChar c = false := by
    rintro c ⟨⟩
    exact isNameChar_eq_false_of_isBlank hy
  have heq : t.name = w := by
    have hrun := congrArg (List.takeWhile isNameChar) hrest
    rwa [takeWhile_append_of_head hname hfollowing,
      takeWhile_append_of_head hwordName hspaceHead] at hrun
  rw [heq] at hascii hreserved
  rw [isReserved_of_spells_as hword hascii] at hreserved
  cases hreserved

theorem takes_asClause (hafter : joins t.name after = false) :
    (optional (.seq (.word "AS") gap)).Takes back t.asClause (t.name ++ after) := by
  rcases spells_alt_iff.mp t.asClause_spelled with has | hnone
  · obtain ⟨w, space, hclause, hword, hspace⟩ := spells_seq_iff.mp has
    rw [hclause]
    exact .altLeft (.seq (.word hword)
      (takes_gap hspace (isBlank_head_of_spells_identifier t.name_spelled after)))
  · rw [spells_empty_iff.mp hnone]
    exact .altRight (t.ends_as_eq_nil hafter) .empty

theorem isBlank_head_asClause :
    ∀ x ∈ (t.asClause ++ (t.name ++ after)).head?, isBlank x = false := by
  rcases spells_alt_iff.mp t.asClause_spelled with has | hnone
  · obtain ⟨w, space, hclause, hword, -⟩ := spells_seq_iff.mp has
    obtain ⟨y, later, rfl, hy⟩ := exists_cons_of_spells_word (by decide) (by decide) hword
    rw [hclause]
    rintro x ⟨⟩
    exact isBlank_eq_false_of_isFirstChar hy
  · rw [spells_empty_iff.mp hnone]
    exact isBlank_head_of_spells_identifier t.name_spelled after

theorem aliasKey?_eq (hafter : joins t.name after = false) :
    aliasKey? ⟨back, (t.afterQuery ++ t.asClause) ++ (t.name ++ after)⟩ = some t.key := by
  have hlead : aliasClause.lead.Takes back (t.afterQuery ++ t.asClause) (t.name ++ after) :=
    .seq (takes_blanks t.afterQuery_blank t.isBlank_head_asClause) (t.takes_asClause hafter)
  obtain ⟨hit, hhit, hbody, -⟩ :=
    Rule.exists_hit?_of_takes_body rfl hlead (takes_identifier t.name_spelled hafter _)
  rw [aliasKey?, hhit]
  simp only [hbody, t.isReserved_name, wantedKey, key]
  rfl

theorem takes_word (back rest : List Char) :
    (alt (.word "FROM") (.word "JOIN")).Takes back t.word rest := by
  rcases spells_alt_iff.mp t.word_spelled with hfrom | hjoin
  · exact .altLeft (.word hfrom)
  · have hletters := map_plainLetter_of_spells_word hjoin
    obtain ⟨x, later, hword, hx, -⟩ := List.map_eq_cons_iff.mp hletters
    refine .altRight ?_ (.word hjoin)
    rw [hword]
    apply ends_word_eq_nil rfl
    rw [hx]
    decide

theorem exists_hit? (hback : back.head?.any isWord = false) (rest : List Char) :
    ∃ hit behind, derivedTable.hit? ⟨back, (t.word ++ (t.afterWord ++ ['('])) ++ rest⟩ = some hit ∧
      hit.stop = ⟨behind, rest⟩ := by
  obtain ⟨x, later, hword, hx, -⟩ := exists_cons_of_spells_from_join t.word_spelled
  have hsource : ∀ behind, sourceWord.Takes back t.word behind := by
    intro behind
    have htakes := t.takes_word back behind
    rw [hword] at htakes ⊢
    exact .afterEdge hback (isWord_of_isFirstChar (isFirstChar_of_plainLetter hx)) htakes
  have hblanks : blanks.Takes (t.word.reverse ++ back) t.afterWord (['('] ++ rest) := by
    refine takes_blanks t.afterWord_blank ?_
    rintro y ⟨⟩
    decide
  have hbody : derivedTable.body.Takes back (t.word ++ (t.afterWord ++ ['('])) rest :=
    (hsource _).seq (hblanks.seq (.char '('))
  have hlead : derivedTable.lead.Takes back [] ((t.word ++ (t.afterWord ++ ['('])) ++ rest) :=
    .empty
  obtain ⟨hit, hhit, -, hstop⟩ := Rule.exists_hit?_of_takes_body rfl hlead hbody
  exact ⟨hit, _, hhit, hstop⟩

theorem exists_cons_of_spells_derivedTable {w : List Char} (h : derivedTable.body.Spells w) :
    ∃ x later, w = x :: later ∧ ∀ y ∈ later, plainLetter y ∉ ['f', 'j'] := by
  obtain ⟨source, _, rfl, hsource, h⟩ := spells_seq_iff.mp h
  obtain ⟨space, _, rfl, hspace, hparen⟩ := spells_seq_iff.mp h
  obtain ⟨edge, word, rfl, hedge, hword⟩ := spells_seq_iff.mp hsource
  obtain ⟨paren, rfl, hopening⟩ := spells_one_iff.mp hparen
  obtain ⟨x, later, rfl, -, hlater⟩ := exists_cons_of_spells_from_join hword
  cases hedge
  refine ⟨x, later ++ (space ++ [paren]), by simp, fun y hy hfirst => ?_⟩
  have hletter := isFirstChar_of_plainLetter hfirst
  rcases List.mem_append.mp hy with hy | hy
  · exact hlater y hy hfirst
  · rcases List.mem_append.mp hy with hy | hy
    · have hblank := spells_run_iff.mp hspace y hy
      rw [isBlank_eq_false_of_isFirstChar hletter] at hblank
      cases hblank
    · obtain rfl : paren = '(' := eq_of_beq hopening
      rw [List.mem_singleton.mp hy] at hletter
      exact absurd hletter (by decide)

/-- No match before `FROM` or `JOIN` reaches into the word. -/
theorem stop_offset_le_of_derivedTable {before rest : List Char} {x : Char}
    (hx : plainLetter x ∈ ['f', 'j']) {c : Cursor} {hit : Hit} (hc : c.text = before ++ x :: rest)
    (hlow : c.offset < before.length) (hhit : derivedTable.hit? c = some hit) :
    hit.stop.offset ≤ before.length := by
  obtain ⟨lead, trail, hlead, hbody, htrail, hreadsLead, hreadsBody, hreadsTrail⟩ :=
    Rule.exists_parts_of_hit? hhit
  cases hlead
  cases htrail
  have hreads : c.Reads hit.body hit.stop := by
    simpa using (hreadsLead.trans hreadsBody).trans hreadsTrail
  by_contra hcross
  have hcovered := hreads.getElem?_text (n := before.length) (by omega) (by omega)
  obtain ⟨y, later, hcons, hlater⟩ := exists_cons_of_spells_derivedTable hbody
  obtain ⟨n, hn⟩ : ∃ n, before.length - c.offset = n + 1 :=
    ⟨before.length - c.offset - 1, by omega⟩
  rw [hc, hcons, hn] at hcovered
  have hmem : x ∈ later := List.mem_of_getElem? (by simpa using hcovered.symm)
  exact hlater x hmem hx

/-- The alias of a derived table is collected, so no search reports it: the table may stand anywhere
between other text, and its query may hold any balanced text. -/
theorem key_collected (table : DerivedTable) {before after : List Char}
    (hbefore : before.getLast?.any isWord = false) (hafter : joins table.name after = false) :
    table.key ∈ derivedTableAliases (before ++ (table.text ++ after)) ∧
      NeverReported (before ++ (table.text ++ after)) table.key := by
  have htext : table.text ++ after = (table.word ++ (table.afterWord ++ ['('])) ++ (table.query ++
      ')' :: ((table.afterQuery ++ table.asClause) ++ (table.name ++ after))) := by
    simp [text]
  obtain ⟨hit, behind, hhit, hstop⟩ := table.exists_hit? (by rwa [List.head?_reverse])
    (table.query ++ ')' :: ((table.afterQuery ++ table.asClause) ++ (table.name ++ after)))
  rw [← htext] at hhit
  obtain ⟨x, later, hword, hx, -⟩ := exists_cons_of_spells_from_join table.word_spelled
  have hadvances : derivedTable.Advances := Rule.advances_of_consumes (by decide)
  have hmem : hit ∈ derivedTable.findAll (.start (before ++ (table.text ++ after))) := by
    refine hadvances.mem_findAll hhit fun c earlier hc hlow hearlier => ?_
    rw [htext, hword] at hc
    exact stop_offset_le_of_derivedTable hx hc hlow hearlier
  have hcollected : table.key ∈ derivedTableAliases (before ++ (table.text ++ after)) := by
    refine List.mem_filterMap.mpr ⟨hit, hmem, ?_⟩
    rw [hstop, table.query_balanced.afterGroup?_eq]
    exact table.aliasKey?_eq hafter
  exact ⟨hcollected, neverReported_of_mem (.inr hcollected)⟩

def sample : DerivedTable where
  word := "Join".toList
  afterWord := "\n".toList
  query := "SELECT (1) FROM (SELECT f(2) FROM t) u".toList
  afterQuery := []
  asClause := []
  name := "Asset".toList
  word_spelled := (matchesWhole_iff rfl).mp (by decide)
  afterWord_blank := (matchesWhole_iff rfl).mp (by decide)
  query_balanced := by decide
  afterQuery_blank := (matchesWhole_iff rfl).mp (by decide)
  asClause_spelled := (matchesWhole_iff rfl).mp (by decide)
  name_spelled := (matchesWhole_iff rfl).mp (by decide)
  bare_name := fun _ => by decide

/-- The alias starts like `AS`, and the text before it ends in a match of its own. -/
theorem key_collected_sample :
    let before := "SELECT * FROM (".toList
    let after := " ON 1 = 1) v JOIN asset".toList
    let clean := before ++ (sample.text ++ after)
    before.getLast?.any isWord = false ∧ joins sample.name after = false ∧
      "asset" ∈ derivedTableAliases clean ∧ NeverReported clean "asset" := by
  intro before after clean
  have hbefore : before.getLast?.any isWord = false := by decide
  have hafter : joins sample.name after = false := by decide
  have hkey : sample.key = "asset" := by decide +kernel
  have hcollected := sample.key_collected hbefore hafter
  rw [hkey] at hcollected
  exact ⟨hbefore, hafter, hcollected⟩

end DerivedTable

end ScriptGraph.Script
