import ScriptGraph.Proofs.Script.OpenNames
import ScriptGraph.Proofs.Script.Subqueries
import ScriptGraph.Script.Parse

/-!
# The rules of the searches over texts with open names

Every rule of the searches takes an open name as a whole or not at all.  Inside such a name most
of them have no match, since they end with a parenthesis or need a dot; the others have none if
they have none in the content of the name.
-/

namespace ScriptGraph.Text.Pattern

/-- The pattern leads to the same places whatever the open names hold. -/
def Steady (p : Pattern) : Prop := p.Traces fun _ => True

variable {p q : Pattern} {pieces : List Slot → Prop} {accepts : Char → Bool}

theorem Traces.steady (h : p.Traces pieces) : p.Steady := h.mono fun _ _ => trivial

@[simp] theorem steady_empty : Pattern.empty.Steady := Traces.empty.steady

@[simp] theorem steady_wordEdge : Pattern.wordEdge.Steady := Traces.wordEdge.steady

@[simp] theorem steady_notAfter (rejects : Char → Bool) : (notAfter rejects).Steady :=
  (Traces.notAfter rejects).steady

@[simp] theorem steady_atEnd : Pattern.atEnd.Steady := Traces.atEnd.steady

@[simp] theorem steady_notBefore (h : p.Steady) : (notBefore p).Steady :=
  (Traces.notBefore h).steady

@[simp] theorem steady_one (h : accepts '[' = false) : (one accepts).Steady := (Traces.one h).steady

@[simp] theorem steady_run (h : accepts '[' = false) : (run accepts).Steady := (Traces.run h).steady

@[simp] theorem steady_seq (hp : p.Steady) (hq : q.Steady) : (seq p q).Steady :=
  (Traces.seq hp hq).steady

@[simp] theorem steady_alt (hp : p.Steady) (hq : q.Steady) : (alt p q).Steady :=
  (Traces.alt hp hq).steady

@[simp] theorem steady_char {x : Char} (h : '[' ≠ x) : (char x).Steady :=
  steady_one (by simpa using h)

@[simp] theorem steady_run1 (h : accepts '[' = false) : (run1 accepts).Steady :=
  steady_seq (steady_one h) (steady_run h)

@[simp] theorem steady_optional (h : p.Steady) : (optional p).Steady := steady_alt h steady_empty

@[simp] theorem steady_all {patterns : List Pattern} (h : ∀ p ∈ patterns, p.Steady) :
    (all patterns).Steady := Traces.all trivial (fun _ _ _ _ => trivial) h

@[simp] theorem steady_any {patterns : List Pattern} (hne : patterns ≠ [])
    (h : ∀ p ∈ patterns, p.Steady) : (any patterns).Steady := Traces.any hne h

def isPlainWord (letters : String) : Bool :=
  letters.toList.all fun x => !sameLetter x '[' && !sameLetter x ']'

theorem sameLetter_bracket {letters : String} (h : isPlainWord letters = true) {x : Char}
    (hx : x ∈ letters.toList) : sameLetter x '[' = false ∧ sameLetter x ']' = false := by
  simpa using List.all_eq_true.mp h x hx

theorem traces_word {letters : String} (h : isPlainWord letters = true) :
    (word letters).Traces (.hole ∉ ·) := Traces.word fun _ hx => (sameLetter_bracket h hx).1

@[simp] theorem steady_word {letters : String} (h : isPlainWord letters = true) :
    (word letters).Steady := (traces_word h).steady

@[simp] theorem steady_startingWord {letters : String} (h : isPlainWord letters = true) :
    (startingWord letters).Steady := steady_seq steady_wordEdge (steady_word h)

/-! ### Patterns that see no difference inside an open name -/

section

variable {content : Content}

@[simp] theorem framedIn_empty : Pattern.empty.FramedIn content := fun _ _ => .empty

@[simp] theorem framedIn_wordEdge : Pattern.wordEdge.FramedIn content :=
  fun _ _ => .wordEdge (by simp; decide) (by simp; decide)

@[simp] theorem framedIn_one (h : accepts ']' = false) : (one accepts).FramedIn content :=
  fun _ _ => .one (by simpa using h)

@[simp] theorem framedIn_run (h : accepts ']' = false) : (run accepts).FramedIn content :=
  fun _ _ => .run (by simpa using h)

@[simp] theorem framedIn_seq (hp : p.FramedIn content) (hq : q.FramedIn content) :
    (seq p q).FramedIn content := fun before after => .seq (hp before after) (hq before after)

@[simp] theorem framedIn_alt (hp : p.FramedIn content) (hq : q.FramedIn content) :
    (alt p q).FramedIn content := fun before after => .alt (hp before after) (hq before after)

@[simp] theorem framedIn_notBefore (hp : p.FramedIn content) : (notBefore p).FramedIn content :=
  fun before after => .notBefore (hp before after)

@[simp] theorem framedIn_char {x : Char} (h : ']' ≠ x) : (char x).FramedIn content :=
  framedIn_one (by simpa using h)

@[simp] theorem framedIn_run1 (h : accepts ']' = false) : (run1 accepts).FramedIn content :=
  framedIn_seq (framedIn_one h) (framedIn_run h)

@[simp] theorem framedIn_optional (h : p.FramedIn content) : (optional p).FramedIn content :=
  framedIn_alt h framedIn_empty

@[simp] theorem framedIn_all {patterns : List Pattern} (h : ∀ p ∈ patterns, p.FramedIn content) :
    (all patterns).FramedIn content := fun before after => .all fun p hp => h p hp before after

@[simp] theorem framedIn_any {patterns : List Pattern} (h : ∀ p ∈ patterns, p.FramedIn content) :
    (any patterns).FramedIn content := fun before after => .any fun p hp => h p hp before after

@[simp] theorem framedIn_word {letters : String} (h : isPlainWord letters = true) :
    (word letters).FramedIn content := by
  apply framedIn_all
  intro p hp
  obtain ⟨x, hx, rfl⟩ := List.mem_map.mp hp
  exact framedIn_one (sameLetter_bracket h hx).2

@[simp] theorem framedIn_startingWord {letters : String} (h : isPlainWord letters = true) :
    (startingWord letters).FramedIn content := framedIn_seq framedIn_wordEdge (framedIn_word h)

/-- No delimited piece starts inside an open name. -/
theorem framedIn_delimited {opening closing : Char} (h : isDelimiter opening = true)
    (hopening : opening ≠ ']') :
    (all [.char opening, .run1 (· != closing), .char closing]).FramedIn content := by
  intro before after
  apply Framed.delimited
  · intro x hx
    obtain rfl : ']' = x := by simpa using hx
    exact Ne.symm hopening
  · intro rest hrest
    have hmem : opening ∈ content.chars := hrest.subset List.mem_cons_self
    rw [(content.plain opening hmem).1] at h
    cases h

theorem neverIn_paren : (char '(').NeverIn content := by
  apply NeverIn.one (by decide)
  intro x hx
  simpa using (content.plain x hx).2.2.1

/-- A parenthesis has no match inside an open name, so it does not matter what follows it. -/
theorem framedIn_paren (later : Pattern) : (seq (char '(') later).FramedIn content := by
  have halone : ∀ c, Cursor.text c = content.chars → (char '(').ends c = [] := by
    intro c hc
    have hframed : (char '(').FramedIn content := framedIn_char (by decide)
    have hmap := hframed [] [] c hc
    rw [← Cursor.inBrackets, neverIn_paren [] [] c hc] at hmap
    exact List.map_eq_nil_iff.mp hmap.symm
  intro before after c hc
  have hnone := NeverIn.seq_left neverIn_paren later before after c hc
  rw [Cursor.inBrackets] at hnone
  rw [hnone, ends, halone c hc]
  rfl

theorem neverIn_dot : (char '.').NeverIn content := by
  apply NeverIn.one (by decide)
  intro x hx
  simpa using (content.plain x hx).2.1

end

end ScriptGraph.Text.Pattern

namespace ScriptGraph.Script

open Text Name Pattern

/-! ### Names and lists -/

@[simp] theorem steady_blanks : blanks.Steady := traces_blanks.steady

@[simp] theorem steady_gap : gap.Steady := steady_run1 (by decide)

@[simp] theorem steady_optionalWord {letters : String} (h : isPlainWord letters = true) :
    (optional (.seq (.word letters) gap)).Steady :=
  steady_optional (steady_seq (steady_word h) steady_gap)

@[simp] theorem steady_identifier : identifier.Steady := traces_identifier.steady

@[simp] theorem steady_path : path.Steady := traces_path.steady

@[simp] theorem steady_notCalled : notCalled.Steady :=
  steady_seq (steady_notBefore (by simp +decide)) (steady_notBefore (by simp +decide))

@[simp] theorem steady_sourceWord : sourceWord.Steady :=
  steady_seq (by simp) (by simp +decide)

@[simp] theorem steady_upToClosing : upToClosing.Steady :=
  steady_seq (by simp) (Traces.closed (by decide) (by simp))

@[simp] theorem steady_flatList : flatList.Steady :=
  steady_seq (by simp) (Traces.closed (by decide) (by simp +contextual))

section

variable {content : Content}

@[simp] theorem framedIn_blanks : blanks.FramedIn content := framedIn_run (by decide)

@[simp] theorem framedIn_gap : gap.FramedIn content := framedIn_run1 (by decide)

@[simp] theorem framedIn_optionalWord {letters : String} (h : isPlainWord letters = true) :
    (optional (.seq (.word letters) gap)).FramedIn content :=
  framedIn_optional (framedIn_seq (framedIn_word h) framedIn_gap)

theorem framedIn_identifierFrom {first : Char → Bool} (h : first ']' = false) :
    (identifierFrom first).FramedIn content := by
  apply framedIn_any
  simp only [List.mem_cons, List.not_mem_nil, or_false, forall_eq_or_imp, forall_eq]
  refine ⟨framedIn_delimited (by decide) (by decide),
    framedIn_delimited (by decide) (by decide), ?_⟩
  exact framedIn_seq (framedIn_one h) (framedIn_run (by decide))

@[simp] theorem framedIn_identifier : identifier.FramedIn content :=
  framedIn_identifierFrom (by decide)

theorem framedIn_pathFrom {first : Char → Bool} (h : first ']' = false)
    (hadvances : (furtherPart first).Advances) : (pathFrom first).FramedIn content := by
  have hidentifier : (identifierFrom first).FramedIn content := framedIn_identifierFrom h
  have hfurther : (furtherPart first).FramedIn content := by
    apply framedIn_all
    simp [hidentifier]
  apply framedIn_seq hidentifier
  intro before after
  exact .many (hfurther before after) hadvances

@[simp] theorem framedIn_path : path.FramedIn content :=
  framedIn_pathFrom (by decide) (advances_furtherPart _)

@[simp] theorem framedIn_notCalled : notCalled.FramedIn content :=
  framedIn_seq (framedIn_notBefore (by simp +decide)) (framedIn_notBefore (by simp +decide))

@[simp] theorem framedIn_sourceWord : sourceWord.FramedIn content :=
  framedIn_seq (by simp) (by simp +decide)

theorem framedIn_plainPath : plainPath.FramedIn content :=
  framedIn_pathFrom (by decide) (advances_furtherPart _)

end

def anyPiece (_ : List Slot) : Prop := True

/-! ### The rules for cleaning -/

theorem neverIn_list (closing : Pattern) {content : Content} :
    (Pattern.seq blanks (.seq (.char '(') closing)).NeverIn content :=
  .seq_right (.of_framedIn framedIn_blanks) (.seq_left neverIn_paren closing)

theorem traces_typeWithParameters : typeWithParameters.Traces anyPiece anyPiece anyPiece where
  lead := steady_wordEdge
  body := steady_any (by simp [parameterizedTypes]) (by simp +decide [parameterizedTypes])
  trail := steady_seq steady_blanks steady_upToClosing

theorem advances_typeWithParameters : typeWithParameters.Advances :=
  Rule.advances_of_consumes (by decide)

theorem silentIn_typeWithParameters (content : Content) : typeWithParameters.SilentIn content := by
  apply Rule.silentIn_of_trail
  · exact .of_framedIn framedIn_wordEdge
  · exact .of_framedIn (framedIn_any (by simp +decide [parameterizedTypes]))
  · exact neverIn_list _

theorem traces_insertWithColumns : insertWithColumns.Traces anyPiece anyPiece anyPiece where
  lead := steady_empty
  body := by
    have hvalues : (Pattern.notBefore (.seq (.word "VALUES") .wordEdge)).Steady :=
      steady_notBefore (by simp +decide)
    apply steady_all
    simp +decide [hvalues]
  trail := steady_seq steady_blanks steady_flatList

theorem advances_insertWithColumns : insertWithColumns.Advances :=
  Rule.advances_of_consumes (by decide)

theorem silentIn_insertWithColumns (content : Content) : insertWithColumns.SilentIn content := by
  have hvalues : (Pattern.notBefore (.seq (.word "VALUES") .wordEdge)).FramedIn content :=
    framedIn_notBefore (by simp +decide)
  apply Rule.silentIn_of_trail
  · exact .of_framedIn framedIn_empty
  · apply StaysIn.of_framedIn
    apply framedIn_all
    simp +decide [hvalues]
  · exact neverIn_list _

theorem traces_mergeInsertWithColumns :
    mergeInsertWithColumns.Traces anyPiece anyPiece anyPiece where
  lead := steady_empty
  body := by
    have hside : (Pattern.optional (.all [gap, .word "BY", gap,
        .alt (.word "TARGET") (.word "SOURCE")])).Steady :=
      steady_optional (steady_all (by simp +decide))
    apply steady_all
    simp +decide [hside]
  trail := steady_seq steady_blanks steady_flatList

theorem advances_mergeInsertWithColumns : mergeInsertWithColumns.Advances :=
  Rule.advances_of_consumes (by decide)

theorem silentIn_mergeInsertWithColumns (content : Content) :
    mergeInsertWithColumns.SilentIn content := by
  have hside : (Pattern.optional (.all [gap, .word "BY", gap,
      .alt (.word "TARGET") (.word "SOURCE")])).FramedIn content :=
    framedIn_optional (framedIn_all (by simp +decide))
  apply Rule.silentIn_of_trail
  · exact .of_framedIn framedIn_empty
  · apply StaysIn.of_framedIn
    apply framedIn_all
    simp +decide [hside]
  · exact neverIn_list _

/-! ### The rule for definitions -/

theorem traces_creationWord : creationWord.Traces (.hole ∉ ·) := by
  apply Traces.any (by simp [Kind.creationWords])
  intro p hp
  obtain ⟨entry, hentry, rfl⟩ := List.mem_map.mp hp
  have hplain : ∀ entry ∈ Kind.creationWords, isPlainWord entry.1 = true := by decide
  exact traces_word (hplain entry hentry)

theorem traces_creation : creation.Traces anyPiece (.hole ∉ ·)
    (fun w => ∃ u v, w = u ++ v ∧ IsBlanks u ∧ IsPath v) where
  lead := steady_seq (by simp +decide) steady_gap
  body := traces_creationWord
  trail := by
    apply (Traces.seq (Traces.seq (Traces.one (by decide)) (Traces.run (by decide)))
      traces_path).mono
    rintro w ⟨u, v, rfl, ⟨first, later, rfl, ⟨s, rfl, hs⟩, hlater⟩, hv⟩
    refine ⟨_, v, rfl, ?_, hv⟩
    intro t ht
    rcases List.mem_append.mp ht with ht | ht
    · exact List.mem_singleton.mp ht ▸ hs
    · exact hlater t ht

theorem advances_creation : creation.Advances := Rule.advances_of_consumes (by decide)

/-! ### The rules for noise and spans -/

theorem steady_expressionTail : expressionTail.Steady := by
  have hlist : (Pattern.all [.char '(', .run (fun c => c != '(' && c != ')'), .char ')',
      blanks]).Steady := by
    apply steady_seq (by simp)
    apply Traces.assoc
    exact steady_seq (Traces.closed (by decide) (by simp +contextual)) steady_blanks
  apply steady_all
  simp +decide [hlist]

theorem neverIn_expressionTail {content : Content} : expressionTail.NeverIn content := by
  apply NeverIn.seq_right (.of_framedIn framedIn_blanks)
  apply NeverIn.seq_right (.of_framedIn (framedIn_optional (framedIn_paren _)))
  apply NeverIn.seq_right (.of_framedIn (framedIn_word (by decide)))
  exact NeverIn.seq_right (.of_framedIn framedIn_blanks) neverIn_paren

theorem traces_firstExpression : firstExpression.Traces anyPiece IsIdentifier anyPiece where
  lead := steady_seq (by simp +decide) steady_gap
  body := traces_identifier
  trail := steady_expressionTail

theorem advances_firstExpression : firstExpression.Advances := Rule.advances_of_consumes (by decide)

theorem silentIn_firstExpression (content : Content) : firstExpression.SilentIn content :=
  Rule.silentIn_of_trail (.of_framedIn (framedIn_seq (by simp +decide) framedIn_gap))
    (.of_framedIn framedIn_identifier) neverIn_expressionTail

theorem traces_furtherExpression : furtherExpression.Traces anyPiece IsIdentifier anyPiece where
  lead := by
    apply steady_all
    simp
  body := traces_identifier
  trail := steady_expressionTail

theorem traces_aliasClause : aliasClause.Traces anyPiece IsIdentifier anyPiece where
  lead := steady_seq steady_blanks (steady_optionalWord (by decide))
  body := traces_identifier
  trail := steady_empty

theorem traces_derivedTable : derivedTable.Traces anyPiece anyPiece anyPiece where
  lead := steady_empty
  body := by
    apply steady_all
    simp
  trail := steady_empty

theorem advances_derivedTable : derivedTable.Advances := Rule.advances_of_consumes (by decide)

theorem silentIn_derivedTable (content : Content) : derivedTable.SilentIn content :=
  Rule.silentIn_of_body (.of_framedIn framedIn_empty)
    (.seq_right (.of_framedIn framedIn_sourceWord)
      (.seq_right (.of_framedIn framedIn_blanks) neverIn_paren))

theorem traces_sourceName : sourceName.Traces anyPiece IsPath anyPiece where
  lead := steady_seq steady_sourceWord steady_gap
  body := traces_path
  trail := steady_empty

theorem advances_sourceName : sourceName.Advances := Rule.advances_of_consumes (by decide)

theorem traces_openingParen : openingParen.Traces anyPiece anyPiece anyPiece where
  lead := steady_empty
  body := steady_seq steady_blanks (by simp)
  trail := steady_empty

theorem traces_selectWord : selectWord.Traces anyPiece anyPiece anyPiece where
  lead := steady_empty
  body := steady_seq (by simp +decide) steady_wordEdge
  trail := steady_empty

theorem advances_selectWord : selectWord.Advances := Rule.advances_of_consumes (by decide)

theorem traces_listBoundary : listBoundary.Traces anyPiece (.hole ∉ ·) anyPiece where
  lead := steady_empty
  body := by
    have hedge : Pattern.wordEdge.Traces (.hole ∉ ·) := Traces.wordEdge.mono (by simp)
    have hwords :
        (Pattern.any [.word "FROM", .word "INTO", .word "SELECT"]).Traces (.hole ∉ ·) := by
      apply Traces.any (by simp)
      simp only [List.mem_cons, List.not_mem_nil, or_false, forall_eq_or_imp, forall_eq]
      exact ⟨traces_word (by decide), traces_word (by decide), traces_word (by decide)⟩
    have hall : (Pattern.all [.wordEdge, .any [.word "FROM", .word "INTO", .word "SELECT"],
        .wordEdge]).Traces (.hole ∉ ·) := by
      apply Traces.all (by simp) (by simp +contextual)
      simp only [List.mem_cons, List.not_mem_nil, or_false, forall_eq_or_imp, forall_eq]
      exact ⟨hedge, hwords, hedge⟩
    apply (Traces.alt (Traces.one (by decide)) hall).mono
    rintro w (⟨s, rfl, hs⟩ | hw)
    · exact Slot.hole_notMem (by simpa using hs)
    · exact hw
  trail := steady_empty

theorem advances_listBoundary : listBoundary.Advances := Rule.advances_of_consumes (by decide)

theorem traces_columnPath : columnPath.Traces anyPiece IsPath anyPiece where
  lead := steady_notAfter _
  body := traces_plainPath
  trail := steady_seq (steady_optional (steady_all (by simp)))
    (steady_optional (steady_seq steady_blanks (by simp)))

theorem advances_columnPath : columnPath.Advances := Rule.advances_of_consumes (by decide)

theorem traces_usingGroup : usingGroup.Traces anyPiece anyPiece anyPiece where
  lead := steady_empty
  body := by
    apply steady_all
    simp +decide
  trail := steady_empty

theorem silentIn_usingGroup (content : Content) : usingGroup.SilentIn content :=
  Rule.silentIn_of_body (.of_framedIn framedIn_empty)
    (.seq_right (.of_framedIn (framedIn_startingWord (by decide)))
      (.seq_right (.of_framedIn framedIn_blanks) neverIn_paren))

/-! ### The rules for references -/

theorem traces_executedProcedure : executedProcedure.Traces anyPiece IsPath anyPiece where
  lead := by
    have hvariable : (Pattern.optional (.all [.char '@', .run1 isNameChar, blanks, .char '=',
        blanks])).Steady :=
      steady_optional (steady_all (by simp +decide))
    apply steady_all
    simp +decide [hvariable]
  body := traces_path
  trail := steady_notCalled

theorem advances_executedProcedure : executedProcedure.Advances :=
  Rule.advances_of_consumes (by decide)

theorem traces_tableFunction : tableFunction.Traces anyPiece IsPath anyPiece where
  lead := steady_seq (by simp +decide) steady_gap
  body := traces_path
  trail := steady_seq steady_blanks (by simp)

theorem advances_tableFunction : tableFunction.Advances := Rule.advances_of_consumes (by decide)

theorem silentIn_tableFunction (content : Content) : tableFunction.SilentIn content :=
  Rule.silentIn_of_trail (.of_framedIn (framedIn_seq (by simp +decide) framedIn_gap))
    (.of_framedIn framedIn_path) (.seq_right (.of_framedIn framedIn_blanks) neverIn_paren)

theorem traces_calledName : calledName.Traces anyPiece IsPath anyPiece where
  lead := steady_notAfter _
  body := traces_plainPath
  trail := steady_seq steady_blanks (by simp)

theorem advances_calledName : calledName.Advances := Rule.advances_of_consumes (by decide)

theorem silentIn_calledName (content : Content) : calledName.SilentIn content := by
  apply Rule.silentIn_of_trail
  · apply StaysIn.of_spells_nil
    rintro w ⟨⟩
    rfl
  · exact .of_framedIn framedIn_plainPath
  · exact .seq_right (.of_framedIn framedIn_blanks) neverIn_paren

theorem traces_querySource : querySource.Traces anyPiece IsPath anyPiece where
  lead := steady_seq steady_sourceWord steady_gap
  body := traces_path
  trail := steady_notCalled

theorem traces_insertTarget : insertTarget.Traces anyPiece IsPath anyPiece where
  lead := by
    apply steady_all
    simp +decide
  body := traces_path
  trail := steady_empty

theorem advances_insertTarget : insertTarget.Advances := Rule.advances_of_consumes (by decide)

theorem traces_updateTarget : updateTarget.Traces anyPiece IsPath anyPiece where
  lead := steady_seq (by simp +decide) steady_gap
  body := traces_qualifiedPath
  trail := steady_empty

theorem advances_updateTarget : updateTarget.Advances := Rule.advances_of_consumes (by decide)

theorem silentIn_updateTarget (content : Content) : updateTarget.SilentIn content := by
  have hfurther : (furtherPart isFirstChar).NeverIn content :=
    .seq_right (.of_framedIn framedIn_blanks) (.seq_left neverIn_dot _)
  apply Rule.silentIn_of_body
  · exact .of_framedIn (framedIn_seq (by simp +decide) framedIn_gap)
  · exact .seq_right (.of_framedIn framedIn_identifier) (.seq_left hfurther _)

theorem traces_deleteTarget : deleteTarget.Traces anyPiece IsPath anyPiece where
  lead := by
    apply steady_all
    simp +decide
  body := traces_path
  trail := steady_empty

theorem advances_deleteTarget : deleteTarget.Advances := Rule.advances_of_consumes (by decide)

theorem traces_mergeTarget : mergeTarget.Traces anyPiece IsPath anyPiece where
  lead := by
    have htop : (Pattern.all [.word "TOP", blanks, .char '(', .run (· != ')'), .char ')', blanks,
        .optional (.seq (.word "PERCENT") gap)]).Steady := by
      apply steady_seq (by simp +decide)
      apply steady_seq steady_blanks
      apply steady_seq (by simp)
      apply Traces.assoc
      apply steady_seq (Traces.closed (by decide) (by simp))
      exact steady_seq steady_blanks (by simp +decide)
    apply steady_all
    simp +decide [htop]
  body := traces_path
  trail := steady_empty

theorem advances_mergeTarget : mergeTarget.Advances := Rule.advances_of_consumes (by decide)

theorem traces_usingWord : usingWord.Traces anyPiece anyPiece anyPiece where
  lead := steady_empty
  body := steady_seq (by simp +decide) steady_wordEdge
  trail := steady_empty

theorem advances_usingWord : usingWord.Advances := Rule.advances_of_consumes (by decide)

theorem traces_mergeSource : mergeSource.Traces anyPiece IsPath anyPiece where
  lead := steady_seq (by simp +decide) steady_gap
  body := traces_path
  trail := steady_notCalled

/-! ### Rules that can match inside an open name -/

/-- The rules that match inside a name in brackets as they do elsewhere. -/
def exposedRules : List Rule := [
  creation, sourceName, executedProcedure, insertTarget, deleteTarget, mergeTarget, usingWord,
  selectWord, listBoundary]

theorem framedIn_exposedRules (content : Content) : ∀ r ∈ exposedRules,
    r.lead.FramedIn content ∧ r.body.FramedIn content ∧ r.trail.FramedIn content := by
  have hvariable : (Pattern.optional (.all [.char '@', .run1 isNameChar, blanks, .char '=',
      blanks])).FramedIn content :=
    framedIn_optional (framedIn_all (by simp +decide))
  have htop : (Pattern.all [.word "TOP", blanks, .char '(', .run (· != ')'), .char ')', blanks,
      .optional (.seq (.word "PERCENT") gap)]).FramedIn content :=
    framedIn_seq (framedIn_word (by decide)) (framedIn_seq framedIn_blanks (framedIn_paren _))
  have hboundary : (Pattern.all [.wordEdge, .any [.word "FROM", .word "INTO", .word "SELECT"],
      .wordEdge]).FramedIn content :=
    framedIn_seq framedIn_wordEdge
      (framedIn_seq (framedIn_any (by simp +decide)) framedIn_wordEdge)
  simp only [exposedRules, List.mem_cons, List.not_mem_nil, or_false, forall_eq_or_imp, forall_eq]
  refine ⟨⟨?_, ?_, ?_⟩, ⟨?_, framedIn_path, framedIn_empty⟩,
    ⟨?_, framedIn_path, framedIn_notCalled⟩, ⟨?_, framedIn_path, framedIn_empty⟩,
    ⟨?_, framedIn_path, framedIn_empty⟩, ⟨?_, framedIn_path, framedIn_empty⟩,
    ⟨framedIn_empty, ?_, framedIn_empty⟩, ⟨framedIn_empty, ?_, framedIn_empty⟩,
    ⟨framedIn_empty, ?_, framedIn_empty⟩⟩
  · exact framedIn_seq (framedIn_startingWord (by decide)) framedIn_gap
  · exact framedIn_any (by simp +decide [Kind.creationWords])
  · exact framedIn_seq framedIn_gap framedIn_path
  · exact framedIn_seq framedIn_sourceWord framedIn_gap
  · apply framedIn_all
    simp +decide [hvariable]
  · apply framedIn_all
    simp +decide
  · apply framedIn_all
    simp +decide
  · apply framedIn_all
    simp +decide [htop]
  · exact framedIn_seq (framedIn_startingWord (by decide)) framedIn_wordEdge
  · exact framedIn_seq (framedIn_startingWord (by decide)) framedIn_wordEdge
  · exact framedIn_alt (framedIn_one (by decide)) hboundary

/-- None of these rules matches in the content. -/
def Mute (content : Content) : Prop :=
  ∀ r ∈ exposedRules, r.find? (.start content.chars) = none

instance (content : Content) : Decidable (Mute content) :=
  inferInstanceAs (Decidable (∀ r ∈ exposedRules, r.find? (.start content.chars) = none))

namespace Mute

variable {content : Content}

theorem silentIn (h : Mute content) {r : Rule} (hr : r ∈ exposedRules) : r.SilentIn content := by
  obtain ⟨hlead, hbody, htrail⟩ := framedIn_exposedRules content r hr
  exact Rule.silentIn_of_find? hlead hbody htrail (h r hr)

theorem silentIn_querySource (h : Mute content) : querySource.SilentIn content := by
  intro before after c hc
  have hnone := h.silentIn (r := sourceName) (by simp [exposedRules]) before after c hc
  rw [Rule.hit?, List.head?_eq_none_iff] at hnone ⊢
  rw [List.eq_nil_iff_forall_not_mem] at hnone ⊢
  intro hit hhit
  obtain ⟨hstart, hleft, hright, -⟩ := Rule.mem_hits_iff.mp hhit
  apply hnone ⟨hit.start, hit.left, hit.right, hit.right⟩
  exact Rule.mem_hits_iff.mpr ⟨hstart, hleft, hright, List.mem_singleton.mpr rfl⟩

end Mute

/-- A column path inside an open name has neither a qualifier nor a star. -/
theorem quietIn_columnPath (content : Content) :
    columnPath.QuietIn content fun hit =>
      (qualifierKey? hit.body (hit.right.upTo hit.stop)).toList := by
  intro before after c hc hit hhit
  obtain ⟨-, hleft, hright, hstop⟩ := Rule.mem_hits_iff.mp (Rule.mem_hits_of_hit? hhit)
  have hlead : columnPath.lead.StaysIn content := by
    apply StaysIn.of_spells_nil
    rintro w ⟨⟩
    rfl
  obtain ⟨d, hd, hleftEq⟩ := hlead before after c hc _ hleft
  rw [hleftEq] at hright
  obtain ⟨e, he, hrightEq⟩ :=
    StaysIn.of_framedIn framedIn_plainPath before after d hd hit.right hright
  rw [hrightEq] at hright hstop
  -- Neither the dot nor the parenthesis that may follow a path stands in the name.
  have hstar : (Pattern.all [blanks, .char '.', blanks, .char '*']).NeverIn content :=
    .seq_right (.of_framedIn framedIn_blanks) (.seq_left neverIn_dot _)
  have hparen : (Pattern.seq blanks (.char '(')).NeverIn content :=
    .seq_right (.of_framedIn framedIn_blanks) neverIn_paren
  have hoptional : ∀ {p : Pattern}, p.NeverIn content →
      (Pattern.optional p).ends (e.inBrackets before after) = [e.inBrackets before after] := by
    intro p hp
    rw [Pattern.optional, ends, hp before after e he]
    rfl
  have hstopEq : hit.stop = e.inBrackets before after := by
    have hmem : hit.stop ∈ (Pattern.seq (.optional (.all [blanks, .char '.', blanks, .char '*']))
        (.optional (.seq blanks (.char '(')))).ends (e.inBrackets before after) := hstop
    rw [ends, hoptional hstar, List.flatMap_singleton, hoptional hparen] at hmem
    exact List.mem_singleton.mp hmem
  obtain ⟨w, -, hreads⟩ := exists_spells_of_mem_ends hright
  have hbody : hit.body = w := by
    rw [Hit.body, hleftEq, hrightEq]
    exact hreads.upTo_eq
  have hdot : '.' ∉ w := by
    intro hmem
    have hrest : d.rest = w ++ e.rest := by
      have hall := hreads.rest
      simp only [Cursor.inBrackets, Cursor.within, ← List.append_assoc] at hall
      exact List.append_cancel_right hall
    have hchars : '.' ∈ content.chars := by simp [← hd, Cursor.text, hrest, hmem]
    exact (content.plain _ hchars).2.1 rfl
  refine ⟨?_, e, he, hstopEq⟩
  simp [hbody, hstopEq, hrightEq, Cursor.upTo, qualifierKey?, hdot]

end ScriptGraph.Script
