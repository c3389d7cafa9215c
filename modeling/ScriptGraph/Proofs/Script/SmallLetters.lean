import ScriptGraph.Proofs.Script.Cleaning
import ScriptGraph.Proofs.Text.LetterCase
import ScriptGraph.Script.Parse

/-!
# Names and scripts in small letters

Cleaning a script commutes with writing its ASCII letters small.  The keys of names do not change by
it, so the object that a cleaned script creates, the spans in it and the noise are the same for the
script in small letters.
-/

namespace ScriptGraph

open Text

/-! ### Names -/

namespace Name

theorem parts_toLower (raw : List Char) :
    parts (raw.map Char.toLower) = (parts raw).map (List.map Char.toLower) := by
  induction raw with
  | nil => rfl
  | cons c raw ih =>
      rw [List.map_cons, parts, parts, ih]
      cases parts raw with
      | nil => rfl
      | cons part later =>
          have hdot : (c.toLower == '.') = (c == '.') := beq_toLower (by decide) c
          simp only [List.map_cons, hdot]
          split <;> rfl

theorem bare_cons {x : Char} {part inner : List Char} (h : trim part = x :: inner) :
    bare part =
      if (x == '[' && inner.getLast? == some ']') || (x == '"' && inner.getLast? == some '"') then
        trim inner.dropLast
      else x :: inner := by
  unfold bare
  split
  · rename_i inner' heq
    obtain ⟨rfl, rfl⟩ : x = '[' ∧ inner = inner' := by simpa [h] using heq
    simp
  · rename_i inner' heq
    obtain ⟨rfl, rfl⟩ : x = '"' ∧ inner = inner' := by simpa [h] using heq
    simp
  · rename_i hbracket hquote
    have hx : x ≠ '[' ∧ x ≠ '"' :=
      ⟨fun hx => hbracket inner (by rw [h, hx]), fun hx => hquote inner (by rw [h, hx])⟩
    simp [hx, h]

theorem bare_toLower (part : List Char) :
    bare (part.map Char.toLower) = (bare part).map Char.toLower := by
  have htrim := trim_toLower part
  cases hpart : trim part with
  | nil =>
      rw [hpart] at htrim
      simp [bare, hpart, htrim]
  | cons x inner =>
      rw [hpart, List.map_cons] at htrim
      rw [bare_cons htrim, bare_cons hpart, beq_toLower (by decide),
        beq_toLower (by decide), getLast?_toLower (by decide),
        getLast?_toLower (by decide), ← List.map_dropLast, trim_toLower]
      split <;> rfl

theorem significantParts_toLower (raw : List Char) :
    significantParts (raw.map Char.toLower) =
      (significantParts raw).map (List.map Char.toLower) := by
  have hbare : bare ∘ List.map Char.toLower = List.map Char.toLower ∘ bare := funext bare_toLower
  have hempty : (fun part : List Char => !part.isEmpty) ∘ List.map Char.toLower =
      fun part => !part.isEmpty := by
    funext part
    simp
  rw [significantParts, parts_toLower, List.map_map, hbare, ← List.map_map, List.filter_map, hempty]
  rfl

theorem intercalate_toLower (pieces : List (List Char)) :
    ['.'].intercalate (pieces.map (List.map Char.toLower)) =
      (['.'].intercalate pieces).map Char.toLower := by
  induction pieces with
  | nil => rfl
  | cons piece later ih =>
      cases later with
      | nil => simp [List.intercalate_singleton]
      | cons next later =>
          have hdot : Char.toLower '.' = '.' := by decide
          rw [List.map_cons, List.map_cons, List.intercalate_cons_cons, List.intercalate_cons_cons,
            ← List.map_cons, ih, List.map_append, List.map_append, List.map_singleton, hdot]

theorem keyChars_toLower (raw : List Char) : keyChars (raw.map Char.toLower) = keyChars raw := by
  rw [keyChars, significantParts_toLower, intercalate_toLower, fold_toLower, keyChars]

theorem key_toLower (raw : List Char) :
    key (String.ofList (raw.map Char.toLower)) = key (String.ofList raw) := by
  rw [key, key, String.toList_ofList, String.toList_ofList, keyChars_toLower]

end Name

namespace DbObject

def identity (o : DbObject) : Kind × String := (o.kind, o.key)

theorem make?_toLower (name : List Char) (kind : Kind) :
    (make? (String.ofList (name.map Char.toLower)) kind).map identity =
      (make? (String.ofList name) kind).map identity := by
  by_cases hblank : allBlank name = false
  · have hname : allBlank (String.ofList name).toList = false := by
      rwa [String.toList_ofList]
    have hlow : allBlank (String.ofList (name.map Char.toLower)).toList = false := by
      rwa [String.toList_ofList, allBlank_toLower]
    rw [make?, make?, dif_pos hname, dif_pos hlow]
    simp only [Option.map_some, identity, key, Name.key_toLower]
  · have hname : ¬ allBlank (String.ofList name).toList = false := by
      rwa [String.toList_ofList]
    have hlow : ¬ allBlank (String.ofList (name.map Char.toLower)).toList = false := by
      rwa [String.toList_ofList, allBlank_toLower]
    rw [make?, make?, dif_neg hname, dif_neg hlow]

end DbObject

/-- Two outcomes that are both an error, both nothing, or both something with the same view. -/
inductive SameUpTo {ε α β : Type} (view : α → β) : Except ε (Option α) → Except ε (Option α) → Prop
  | error (e e' : ε) : SameUpTo view (.error e) (.error e')
  | nothing : SameUpTo view (.ok none) (.ok none)
  | found {a a' : α} (h : view a = view a') : SameUpTo view (.ok (some a)) (.ok (some a'))

theorem isReserved_toLower (token : List Char) :
    isReserved (token.map Char.toLower) = isReserved token := by
  rw [isReserved, lower_toLower, isReserved]

theorem isNeverCalled_toLower (token : List Char) :
    isNeverCalled (token.map Char.toLower) = isNeverCalled token := by
  rw [isNeverCalled, lower_toLower, isNeverCalled]

namespace Name

/-! ### Patterns of names -/

@[simp]
theorem isNameChar_toLower (c : Char) : isNameChar c.toLower = isNameChar c := by
  simp [isNameChar, ignoresCase_isWord c]

theorem ignoresCase_isFirstChar : IgnoresCase isFirstChar := by
  intro c
  rw [isFirstChar, isFirstChar, ignoresCase_plainLetter, beq_toLower (by decide)]

theorem ignoresCase_isPlainFirstChar : IgnoresCase isPlainFirstChar := by
  intro c
  rw [isPlainFirstChar, isPlainFirstChar, ignoresCase_isAsciiLetter, beq_toLower (by decide)]

@[simp]
theorem caseless_blanks : blanks.Caseless := ignoresCase_isBlank

@[simp]
theorem caseless_gap : gap.Caseless := ⟨ignoresCase_isBlank, ignoresCase_isBlank⟩

theorem caseless_identifierFrom {first : Char → Bool} (h : IgnoresCase first) :
    (identifierFrom first).Caseless := by
  have hfirst : ∀ c : Char, first c.toLower = first c := h
  simp [identifierFrom, IgnoresCase, hfirst]

theorem caseless_furtherPart {first : Char → Bool} (h : IgnoresCase first) :
    (furtherPart first).Caseless := by
  simp [furtherPart, caseless_identifierFrom h]

theorem caseless_pathFrom {first : Char → Bool} (h : IgnoresCase first) :
    (pathFrom first).Caseless :=
  ⟨caseless_identifierFrom h, caseless_furtherPart h⟩

@[simp]
theorem caseless_identifier : identifier.Caseless :=
  caseless_identifierFrom ignoresCase_isFirstChar

@[simp]
theorem caseless_path : path.Caseless :=
  caseless_pathFrom ignoresCase_isFirstChar

@[simp]
theorem caseless_qualifiedPath : qualifiedPath.Caseless :=
  ⟨caseless_identifier, caseless_furtherPart ignoresCase_isFirstChar,
    caseless_furtherPart ignoresCase_isFirstChar⟩

@[simp]
theorem caseless_plainPath : plainPath.Caseless :=
  caseless_pathFrom ignoresCase_isPlainFirstChar

@[simp]
theorem caseless_notCalled : notCalled.Caseless := by
  simp [notCalled, IgnoresCase]

end Name

namespace Script

open Name

/-! ### Cleaning -/

theorem afterBlockEnd?_toLower (text : List Char) :
    afterBlockEnd? (text.map Char.toLower) =
      (afterBlockEnd? text).map (List.map Char.toLower) := by
  fun_induction afterBlockEnd? text with
  | case1 rest => rfl
  | case2 x rest hother ih =>
      rw [List.map_cons, afterBlockEnd?.eq_2, ih]
      intro later hx hrest
      obtain ⟨rest', rfl, -⟩ := exists_of_map_toLower_eq_cons (by decide) hrest
      exact hother rest' ((toLower_eq_iff (by decide) x).mp hx) rfl
  | case3 => rfl

theorem dropBlockComments_toLower (text : List Char) :
    dropBlockComments (text.map Char.toLower) = (dropBlockComments text).map Char.toLower := by
  fun_induction dropBlockComments text with
  | case1 => simp [dropBlockComments]
  | case2 inner rest hinner ih =>
      have hlow : afterBlockEnd? (inner.map Char.toLower) = some (rest.map Char.toLower) := by
        rw [afterBlockEnd?_toLower, hinner]
        rfl
      have hstart := dropBlockComments_closed hlow
      rw [ih] at hstart
      exact hstart
  | case3 inner hinner ih =>
      have hlow : afterBlockEnd? (inner.map Char.toLower) = none := by
        rw [afterBlockEnd?_toLower, hinner]
        rfl
      have hstar : dropBlockComments ('*' :: inner.map Char.toLower) =
          '*' :: dropBlockComments (inner.map Char.toLower) :=
        dropBlockComments.eq_3 _ _ fun _ hne _ => by simp at hne
      have hstart := dropBlockComments_unclosed hlow
      rw [← hstar] at hstart
      exact hstart.trans (congrArg ('/' :: ·) ih)
  | case4 x rest hother ih =>
      rw [List.map_cons, dropBlockComments.eq_3, ih, List.map_cons]
      intro later hx hrest
      obtain ⟨rest', rfl, -⟩ := exists_of_map_toLower_eq_cons (by decide) hrest
      exact hother rest' ((toLower_eq_iff (by decide) x).mp hx) rfl

theorem dropLineComments_toLower (text : List Char) :
    dropLineComments (text.map Char.toLower) = (dropLineComments text).map Char.toLower := by
  fun_induction dropLineComments text with
  | case1 => simp [dropLineComments]
  | case2 rest ih =>
      have hend : IgnoresCase (· != '\n') := bne_toLower (by decide)
      rw [← ih, ← dropWhile_toLower hend]
      exact dropLineComments.eq_2 _
  | case3 x rest hother ih =>
      rw [List.map_cons, dropLineComments.eq_3, ih, List.map_cons]
      intro later hx hrest
      obtain ⟨rest', rfl, -⟩ := exists_of_map_toLower_eq_cons (by decide) hrest
      exact hother rest' ((toLower_eq_iff (by decide) x).mp hx) rfl

theorem afterLiteral?_toLower (text : List Char) :
    afterLiteral? (text.map Char.toLower) = (afterLiteral? text).map (List.map Char.toLower) := by
  fun_induction afterLiteral? text with
  | case1 => rfl
  | case2 rest ih =>
      have hstart := afterLiteral?.eq_2 (rest.map Char.toLower)
      rw [ih] at hstart
      refine hstart.trans ?_
      cases afterLiteral? rest <;> rfl
  | case3 rest hother =>
      apply afterLiteral?.eq_3
      intro later hrest
      obtain ⟨rest', rfl, -⟩ := exists_of_map_toLower_eq_cons (by decide) hrest
      exact hother rest' rfl
  | case4 x rest hpair hquote ih =>
      have hx : x.toLower ≠ '\'' := fun hx => hquote ((toLower_eq_iff (by decide) x).mp hx)
      rw [List.map_cons, afterLiteral?.eq_4 _ _ (fun _ h _ => hx h) hx, ih]

theorem dropLiterals_unclosed {inner : List Char} (h : afterLiteral? inner = none) :
    dropLiterals ('\'' :: inner) = '\'' :: dropLiterals inner := by
  rw [dropLiterals]
  split <;> simp_all

theorem dropLiterals_toLower (text : List Char) :
    dropLiterals (text.map Char.toLower) = (dropLiterals text).map Char.toLower := by
  fun_induction dropLiterals text with
  | case1 => simp [dropLiterals]
  | case2 inner rest hinner ih =>
      have hlow : afterLiteral? (inner.map Char.toLower) = some (rest.map Char.toLower) := by
        rw [afterLiteral?_toLower, hinner]
        rfl
      have hstart := dropLiterals_closed hlow
      rw [ih] at hstart
      exact hstart
  | case3 inner hinner ih =>
      have hlow : afterLiteral? (inner.map Char.toLower) = none := by
        rw [afterLiteral?_toLower, hinner]
        rfl
      exact (dropLiterals_unclosed hlow).trans (congrArg ('\'' :: ·) ih)
  | case4 x rest hquote ih =>
      rw [List.map_cons, dropLiterals.eq_3, ih, List.map_cons]
      intro hx
      exact hquote ((toLower_eq_iff (by decide) x).mp hx)

theorem clean_toLower (text : List Char) :
    clean (text.map Char.toLower) = (clean text).map Char.toLower := by
  have htypes : typeWithParameters.Caseless := by
    constructor <;> simp [typeWithParameters, parameterizedTypes, upToClosing, IgnoresCase]
  have hinserts : insertWithColumns.Caseless := by
    constructor <;> simp [insertWithColumns, flatList, IgnoresCase]
  have hmerges : mergeInsertWithColumns.Caseless := by
    constructor <;> simp [mergeInsertWithColumns, flatList, IgnoresCase]
  rw [clean, dropCommentsAndLiterals, dropBlockComments_toLower, dropLineComments_toLower,
    dropLiterals_toLower, dropTypeParameters, Rule.reduce_toLower htypes, dropInsertColumns,
    Rule.reduce_toLower hinserts, Rule.reduce_toLower hmerges]
  rfl

/-! ### Definitions -/

theorem createdName_toLower (hit : Hit) :
    createdName hit.toLower = (createdName hit).map Char.toLower := by
  rw [createdName, createdName, ← trimStart_toLower, ← Cursor.upTo_toLower]
  rfl

theorem ofCreationWord?_toLower (token : List Char) :
    Kind.ofCreationWord? (token.map Char.toLower) = Kind.ofCreationWord? token := by
  rw [Kind.ofCreationWord?, trim_toLower, upper_toLower, Kind.ofCreationWord?]

theorem definition?_toLower (clean : List Char) :
    SameUpTo DbObject.identity (definition? clean) (definition? (clean.map Char.toLower)) := by
  have hcreation : creation.Caseless := by
    constructor <;> simp [creation, creationWord, Kind.creationWords]
  have hfind := Rule.find?_toLower hcreation (.start clean)
  rw [Cursor.toLower_start] at hfind
  unfold definition?
  rw [hfind]
  cases creation.find? (.start clean) with
  | none => exact .nothing
  | some hit =>
      have hmake := DbObject.make?_toLower (createdName hit)
      simp only [Option.map_some, kindOfWord, Hit.body_toLower, ofCreationWord?_toLower,
        createdName_toLower]
      cases Kind.ofCreationWord? hit.body with
      | none => exact .error _ _
      | some kind =>
          have hkind := hmake kind
          simp only [bind, Except.bind]
          cases hname : DbObject.make? (String.ofList (createdName hit)) kind with
          | none =>
              rw [hname, Option.map_none, Option.map_eq_none_iff] at hkind
              rw [hkind]
              exact .error _ _
          | some object =>
              rw [hname, Option.map_some, Option.map_eq_some_iff] at hkind
              obtain ⟨object', hname', hsame⟩ := hkind
              rw [hname']
              exact .found hsame.symm

/-! ### Parentheses and spans -/

theorem closingOffset?_toLower (depth : Int) (text : List Char) :
    closingOffset? depth (text.map Char.toLower) = closingOffset? depth text := by
  fun_induction closingOffset? depth text with
  | case1 => rfl
  | case2 depth rest ih => exact congrArg (Option.map (· + 1)) ih
  | case3 rest => rfl
  | case4 depth rest hdepth ih =>
      refine (if_neg hdepth).trans ?_
      exact congrArg (Option.map (· + 1)) ih
  | case5 depth x rest hopening hclosing ih =>
      rw [List.map_cons, closingOffset?.eq_4, ih]
      · exact fun hx => hopening ((toLower_eq_iff (by decide) x).mp hx)
      · exact fun hx => hclosing ((toLower_eq_iff (by decide) x).mp hx)

theorem afterGroup?_toLower (inside : Cursor) :
    afterGroup? inside.toLower = (afterGroup? inside).map Cursor.toLower := by
  rw [afterGroup?, afterGroup?, Option.map_map]
  change (closingOffset? 1 (inside.rest.map Char.toLower)).map _ = _
  rw [closingOffset?_toLower]
  exact congrFun (congrArg Option.map (funext fun n => Cursor.skip_toLower (n + 1) inside)) _

theorem slice_toLower (span : Span) (text : List Char) :
    span.slice (text.map Char.toLower) = (span.slice text).map Char.toLower := by
  simp only [Span.slice, List.length_map, List.map_drop, List.map_take]

theorem usingSpans_toLower (clean : List Char) :
    usingSpans (clean.map Char.toLower) = usingSpans clean := by
  have hgroup : usingGroup.Caseless := by constructor <;> simp [usingGroup]
  rw [usingSpans, ← Cursor.toLower_start, Rule.findAll_toLower hgroup, List.map_map, usingSpans]
  apply List.map_congr_left
  intro hit _
  have hclosing : closingOffset? 1 hit.stop.toLower.rest = closingOffset? 1 hit.stop.rest :=
    closingOffset?_toLower 1 hit.stop.rest
  simp only [Function.comp, Hit.toLower, hclosing, Cursor.offset_toLower, List.length_map]

/-! ### Noise -/

theorem wantedKey_toLower (hit : Hit) : wantedKey hit.toLower = wantedKey hit := by
  rw [wantedKey, Hit.body_toLower, Name.key_toLower, wantedKey]

theorem expressionChain_toLower (left : List Char) (inside : Cursor) :
    expressionChain (left.map Char.toLower) inside.toLower = expressionChain left inside := by
  induction left generalizing inside with
  | nil => rfl
  | cons x left ih =>
      rw [List.map_cons, expressionChain, expressionChain, afterGroup?_toLower]
      cases afterGroup? inside with
      | none => rfl
      | some after =>
          have hfurther : furtherExpression.Caseless := by
            constructor <;> simp [furtherExpression, expressionTail, IgnoresCase]
          simp only [Option.map_some, Rule.hit?_toLower hfurther]
          cases furtherExpression.hit? after with
          | none => rfl
          | some hit =>
              simp only [Option.map_some, wantedKey_toLower]
              exact congrArg (wantedKey hit :: ·) (ih hit.stop)

theorem tableExpressions_toLower (clean : List Char) :
    tableExpressions (clean.map Char.toLower) = tableExpressions clean := by
  have hfirst : firstExpression.Caseless := by
    constructor <;> simp [firstExpression, expressionTail, IgnoresCase]
  rw [tableExpressions, ← Cursor.toLower_start, Rule.findAll_toLower hfirst, List.flatMap_map,
    tableExpressions]
  apply List.flatMap_congr
  intro hit _
  rw [wantedKey_toLower]
  exact congrArg (wantedKey hit :: ·) (expressionChain_toLower hit.stop.rest hit.stop)

theorem aliasKey?_toLower (c : Cursor) : aliasKey? c.toLower = aliasKey? c := by
  have halias : aliasClause.Caseless := by constructor <;> simp [aliasClause]
  rw [aliasKey?, aliasKey?, Rule.hit?_toLower halias]
  cases aliasClause.hit? c with
  | none => rfl
  | some hit => simp only [Option.map_some, Hit.body_toLower, isReserved_toLower, wantedKey_toLower]

theorem aliasKey?_afterGroup?_toLower (inside : Cursor) :
    (afterGroup? inside.toLower).bind aliasKey? = (afterGroup? inside).bind aliasKey? := by
  rw [afterGroup?_toLower, Option.bind_map]
  exact congrArg (Option.bind _) (funext aliasKey?_toLower)

theorem derivedTableAliases_toLower (clean : List Char) :
    derivedTableAliases (clean.map Char.toLower) = derivedTableAliases clean := by
  have htable : derivedTable.Caseless := by constructor <;> simp [derivedTable, sourceWord]
  rw [derivedTableAliases, ← Cursor.toLower_start, Rule.findAll_toLower htable,
    List.filterMap_map, derivedTableAliases]
  apply List.filterMap_congr
  intro hit _
  exact aliasKey?_afterGroup?_toLower hit.stop

theorem correlationAliases_toLower (clean : List Char) :
    correlationAliases (clean.map Char.toLower) = correlationAliases clean := by
  have hname : sourceName.Caseless := by constructor <;> simp [sourceName, sourceWord]
  have hopening : openingParen.Caseless := by constructor <;> simp [openingParen]
  rw [correlationAliases, ← Cursor.toLower_start, Rule.findAll_toLower hname, List.filterMap_map,
    correlationAliases]
  apply List.filterMap_congr
  intro hit _
  have hparen := Rule.hit?_toLower hopening hit.stop
  simp only [Function.comp, Hit.toLower, hparen]
  cases openingParen.hit? hit.stop with
  | none => exact aliasKey?_toLower hit.stop
  | some arguments => exact aliasKey?_afterGroup?_toLower arguments.stop

theorem listEnd?_of_word {hit : Hit} {c : Cursor} (hhit : listBoundary.hit? c = some hit)
    (hopening : hit.body ≠ ['(']) (hclosing : hit.body ≠ [')']) (depth : Nat) (x : Char)
    (left : List Char) :
    listEnd? depth (x :: left) c = if depth = 0 then some c else listEnd? depth left hit.stop := by
  rw [listEnd?, hhit]
  simp only
  cases depth with
  | zero => split <;> simp_all
  | succ depth => split <;> simp_all

theorem listEnd?_toLower (depth : Nat) (left : List Char) (c : Cursor) :
    listEnd? depth (left.map Char.toLower) c.toLower =
      (listEnd? depth left c).map Cursor.toLower := by
  induction left generalizing depth c with
  | nil => rfl
  | cons x left ih =>
      have hboundary : listBoundary.Caseless := by constructor <;> simp [listBoundary, IgnoresCase]
      have hlow := Rule.hit?_toLower hboundary c
      cases hhit : listBoundary.hit? c with
      | none =>
          rw [hhit] at hlow
          rw [List.map_cons, listEnd?, listEnd?, hlow, hhit]
          simp only [Option.map_none, Cursor.skip_toLower]
          exact ih depth (c.skip 1)
      | some hit =>
          rw [hhit, Option.map_some] at hlow
          have hopening := map_toLower_eq_singleton (x := '(') (by decide) hit.body
          have hclosing := map_toLower_eq_singleton (x := ')') (by decide) hit.body
          rw [← Hit.body_toLower] at hopening hclosing
          by_cases hbody : hit.body = ['(']
          · rw [List.map_cons, listEnd?, listEnd?, hlow, hhit]
            simp only [hopening.mpr hbody, hbody]
            exact ih (depth + 1) hit.stop
          · by_cases hbody' : hit.body = [')']
            · rw [List.map_cons, listEnd?, listEnd?, hlow, hhit]
              simp only [hclosing.mpr hbody', hbody']
              cases depth with
              | zero => rfl
              | succ depth => exact ih depth hit.stop
            · rw [List.map_cons,
                listEnd?_of_word hlow (mt hopening.mp hbody) (mt hclosing.mp hbody'),
                listEnd?_of_word hhit hbody hbody']
              split
              · rfl
              · exact ih depth hit.stop

theorem selectList_toLower (c : Cursor) : selectList c.toLower = (selectList c).toLower := by
  have hend : listEnd? 0 c.toLower.rest c.toLower = (listEnd? 0 c.rest c).map Cursor.toLower :=
    listEnd?_toLower 0 c.rest c
  rw [selectList, selectList, hend]
  cases listEnd? 0 c.rest c with
  | none => rfl
  | some stop => exact Cursor.endingAt_toLower c stop

theorem qualifierKey?_toLower (columnPath following : List Char) :
    qualifierKey? (columnPath.map Char.toLower) (following.map Char.toLower) =
      qualifierKey? columnPath following := by
  have hdot : (columnPath.map Char.toLower).contains '.' = columnPath.contains '.' := by
    rw [Bool.eq_iff_iff]
    simp [toLower_eq_iff (x := '.') (by decide)]
  have hfirst : (columnPath.map Char.toLower).takeWhile (· != '.') =
      (columnPath.takeWhile (· != '.')).map Char.toLower := by
    rw [List.takeWhile_map]
    congr 2
    funext c
    exact bne_toLower (by decide) c
  simp only [qualifierKey?, getLast?_toLower (x := '(') (by decide),
    getLast?_toLower (x := '*') (by decide), hdot, hfirst, Name.key_toLower]

theorem columnQualifiers_toLower (clean : List Char) :
    columnQualifiers (clean.map Char.toLower) = columnQualifiers clean := by
  have hselect : selectWord.Caseless := by constructor <;> simp [selectWord]
  have hcolumn : columnPath.Caseless := by constructor <;> simp [columnPath, IgnoresCase]
  rw [columnQualifiers, ← Cursor.toLower_start, Rule.findAll_toLower hselect,
    List.flatMap_map, columnQualifiers]
  apply List.flatMap_congr
  intro select _
  have hlist : selectList select.toLower.stop = (selectList select.stop).toLower :=
    selectList_toLower select.stop
  rw [hlist, Rule.findAll_toLower hcolumn, List.filterMap_map]
  apply List.filterMap_congr
  intro hit _
  have hfollowing : hit.toLower.right.upTo hit.toLower.stop =
      (hit.right.upTo hit.stop).map Char.toLower := Cursor.upTo_toLower hit.right hit.stop
  simp only [Function.comp, Hit.body_toLower, hfollowing, qualifierKey?_toLower]

theorem noise_toLower (clean : List Char) : noise (clean.map Char.toLower) = noise clean := by
  rw [noise, tableExpressions_toLower, derivedTableAliases_toLower, correlationAliases_toLower,
    columnQualifiers_toLower, noise]

end Script

end ScriptGraph
