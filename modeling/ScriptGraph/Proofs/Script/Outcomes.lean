import Mathlib.Data.List.Forall2
import Mathlib.Data.List.TakeWhile
import ScriptGraph.Proofs.Script.Opacity
import ScriptGraph.Proofs.Script.References

/-!
# When parsing a script fails

The word after `CREATE` is recognised letter by letter in any case, but its kind is looked up by
its upper-case form.  The two disagree on one character, the dotted capital `i`: it stands for an
`i`, and it is its own upper-case form.  A script whose first `CREATE` statement has this
character in the word fails; every other script has a result or creates nothing, since no name
that is recognised is blank.
-/

namespace ScriptGraph.Text

/-! ### Words and their upper-case forms -/

theorem Pattern.exists_mem_of_spells_any {ps : List Pattern} {w : List Char}
    (h : (any ps).Spells w) (hne : ps ≠ []) : ∃ p ∈ ps, p.Spells w := by
  induction ps with
  | nil => exact absurd rfl hne
  | cons p later ih =>
      cases later with
      | nil => exact ⟨p, List.mem_cons_self, h⟩
      | cons q later =>
          rcases spells_alt_iff.mp h with hp | hlater
          · exact ⟨p, List.mem_cons_self, hp⟩
          · obtain ⟨other, hmem, hother⟩ := ih hlater (by simp)
            exact ⟨other, List.mem_cons_of_mem _ hmem, hother⟩

/-- Whatever stands for a letter has that letter as its upper-case form, but for the dotted capital
`i` and the Kelvin sign. -/
theorem upperChar_of_isAsciiLetter_plainLetter {c : Char}
    (h : isAsciiLetter (plainLetter c) = true) :
    c = '\u0130' ∨ c = 'K' ∨ upperChar c = [Char.ofNat ((plainLetter c).toNat - 32)] := by
  have hascii : ∀ n < 0x80, isAsciiLetter (Char.ofNat n) = true →
      upperChar (Char.ofNat n) = [Char.ofNat ((plainLetter (Char.ofNat n)).toNat - 32)] := by
    decide +kernel
  have hcode : ∀ n, c.toNat = n → c = Char.ofNat n := by
    rintro n rfl
    exact (Char.ofNat_toNat c).symm
  rcases toNat_of_isAsciiLetter_plainLetter h with hletter | hdotted | hdotless | hlong | hkelvin
  · have hlow : c.toNat < 0x80 := by
      have := isAsciiLetter_iff.mp hletter
      omega
    have hupper := hascii c.toNat hlow
    rw [Char.ofNat_toNat] at hupper
    exact .inr (.inr (hupper hletter))
  · exact .inl (hcode _ hdotted)
  · rw [hcode _ hdotless]
    exact .inr (.inr (by decide +kernel))
  · rw [hcode _ hlong]
    exact .inr (.inr (by decide +kernel))
  · exact .inr (.inl (hcode _ hkelvin))

end ScriptGraph.Text

namespace ScriptGraph.Script

open Text Name

/-! ### The word after `CREATE` -/

theorem creationWords_upper : ∀ entry ∈ Kind.creationWords, ∀ x ∈ entry.1.toList,
    isAsciiLetter (plainLetter x) = true ∧ Char.ofNat ((plainLetter x).toNat - 32) = x ∧
      plainLetter x ≠ 'k' := by
  have hall : (Kind.creationWords.all fun entry => entry.1.toList.all fun x =>
      decide (isAsciiLetter (plainLetter x) = true ∧
        Char.ofNat ((plainLetter x).toNat - 32) = x ∧ plainLetter x ≠ 'k')) = true := by
    decide +kernel
  intro entry hentry x hx
  exact of_decide_eq_true (List.all_eq_true.mp (List.all_eq_true.mp hall entry hentry) x hx)

theorem exists_of_spells_creationWord {w : List Char} (h : creationWord.Spells w) :
    ∃ entry ∈ Kind.creationWords,
      List.Forall₂ (fun x c => sameLetter x c = true) entry.1.toList w := by
  obtain ⟨p, hp, hspells⟩ := Pattern.exists_mem_of_spells_any h (by simp [Kind.creationWords])
  obtain ⟨entry, hentry, rfl⟩ := List.mem_map.mp hp
  exact ⟨entry, hentry, Pattern.spells_word_iff.mp hspells⟩

/-- Without a dotted capital `i`, the upper-case form is the word that was recognised. -/
theorem upper_eq_of_forall₂ {letters w : List Char}
    (hletters : ∀ x ∈ letters, isAsciiLetter (plainLetter x) = true ∧
      Char.ofNat ((plainLetter x).toNat - 32) = x ∧ plainLetter x ≠ 'k')
    (h : List.Forall₂ (fun x c => sameLetter x c = true) letters w) (hdotted : '\u0130' ∉ w) :
    upper w = letters := by
  induction h with
  | nil => rfl
  | @cons x c letters w hsame _ ih =>
      obtain ⟨hletter, hupper, hk⟩ := hletters x List.mem_cons_self
      have hplain : plainLetter x = plainLetter c := eq_of_beq hsame
      have hlater := ih (fun y hy => hletters y (List.mem_cons_of_mem _ hy))
        fun hmem => hdotted (List.mem_cons_of_mem _ hmem)
      have hc : upperChar c = [x] := by
        rcases upperChar_of_isAsciiLetter_plainLetter (hplain ▸ hletter) with rfl | rfl | hc
        · exact absurd List.mem_cons_self hdotted
        · exact absurd (hplain.trans (by decide)) hk
        · rw [hc, ← hplain, hupper]
      rw [upper, List.flatMap_cons, hc, ← upper, hlater, List.singleton_append]

theorem isBlank_eq_false_of_forall₂ {letters w : List Char}
    (hletters : ∀ x ∈ letters, isAsciiLetter (plainLetter x) = true)
    (h : List.Forall₂ (fun x c => sameLetter x c = true) letters w) :
    ∀ c ∈ w, isBlank c = false := by
  induction h with
  | nil => simp
  | @cons x c letters w hsame _ ih =>
      have hfirst : isFirstChar c = true := by
        rw [isFirstChar, ← eq_of_beq hsame, hletters x List.mem_cons_self, Bool.true_or]
      intro y hy
      rcases List.mem_cons.mp hy with rfl | hy
      · exact isBlank_eq_false_of_isFirstChar hfirst
      · exact ih (fun z hz => hletters z (List.mem_cons_of_mem _ hz)) y hy

theorem kindOfWord_of_spells {w : List Char} (h : creationWord.Spells w) :
    ('\u0130' ∈ w → kindOfWord w = .error (.unknownKind (String.ofList w))) ∧
      ('\u0130' ∉ w → ∃ kind, kindOfWord w = .ok kind) := by
  obtain ⟨entry, hentry, hsame⟩ := exists_of_spells_creationWord h
  have hletters := creationWords_upper entry hentry
  have htrim : trim w = w :=
    trim_eq_self (isBlank_eq_false_of_forall₂ (fun x hx => (hletters x hx).1) hsame)
  constructor
  · intro hdotted
    have hself : '\u0130' ∈ upperChar '\u0130' := by decide +kernel
    have hupper : '\u0130' ∈ upper w := List.mem_flatMap.mpr ⟨_, hdotted, hself⟩
    have hnone : Kind.creationWords.lookup (String.ofList (upper w)) = none := by
      cases hlookup : Kind.creationWords.lookup (String.ofList (upper w)) with
      | none => rfl
      | some kind =>
          have hmem := Entries.mem_of_lookup_eq_some hlookup
          obtain ⟨-, hown, -⟩ := creationWords_upper _ hmem '\u0130' (by simpa using hupper)
          exact absurd hown (by decide +kernel)
    rw [kindOfWord, Kind.ofCreationWord?, htrim, hnone]
  · intro hdotted
    have hfound : ∀ entry ∈ Kind.creationWords,
        (Kind.creationWords.lookup entry.1).isSome = true := by decide
    obtain ⟨kind, hkind⟩ := Option.isSome_iff_exists.mp (hfound entry hentry)
    refine ⟨kind, ?_⟩
    rw [kindOfWord, Kind.ofCreationWord?, htrim, upper_eq_of_forall₂ hletters hsame hdotted,
      String.ofList_toList, hkind]

/-! ### Names are not blank -/

theorem allBlank_eq_false_of_spells_path {w : List Char} (h : path.Spells w) :
    allBlank w = false := by
  obtain ⟨id, further, rfl, hid, -⟩ := Pattern.spells_seq_iff.mp h
  obtain ⟨x, rest, rfl, hx⟩ := exists_cons_of_spells_identifier hid
  simp [allBlank, hx]

theorem keyChars_of_allBlank {name : List Char} (h : allBlank name = true) :
    keyChars name = [] := by
  have hblank : ∀ x ∈ name, isBlank x = true := by simpa [allBlank] using h
  have hdot : '.' ∉ name := fun hmem => absurd (hblank _ hmem) (by decide)
  have htrim : trim name = [] := by
    rw [trim, trimStart, List.dropWhile_eq_nil_iff.mpr hblank]
    rfl
  have hbare : bare name = [] := by
    rw [bare, htrim]
  rw [keyChars, significantParts, parts_eq_singleton hdot]
  simp [hbare, fold]

namespace Context

variable {ctx : Context} {name : List Char} {kind : Kind}

/-- What the filters ask of a name. -/
structure Passes (ctx : Context) (name : List Char) : Prop where
  key_ne_empty : Name.key (String.ofList name) ≠ ""
  key_notMem_noise : Name.key (String.ofList name) ∉ ctx.noise
  key_ne_definition : Name.key (String.ofList name) ≠ ctx.definition.key
  not_reserved : '.' ∈ (Name.key (String.ofList name)).toList ∨ isReserved (trim name) = false

/-- A name becomes a reference exactly if it passes the filters. -/
theorem exists_candidate?_iff : (∃ e, ctx.candidate? name kind = some e) ↔ ctx.Passes name := by
  have hnamed : Name.key (String.ofList name) ≠ "" →
      ∃ o, DbObject.make? (String.ofList name) kind = some o := by
    intro hkey
    have hblank : allBlank (String.ofList name).toList = false := by
      rw [String.toList_ofList, Bool.eq_false_iff]
      intro hblank
      exact hkey (by simp [Name.key, keyChars_of_allBlank hblank])
    exact ⟨⟨_, kind, hblank⟩, DbObject.make?_eq_some_iff.mpr ⟨rfl, rfl⟩⟩
  simp only [candidate?, Option.ite_none_left_eq_some, Option.map_eq_some_iff]
  constructor
  · rintro ⟨e, hkey, hword, -⟩
    simp only [Bool.or_eq_true, not_or, DbObject.isNamed, List.contains_iff_mem, beq_iff_eq,
      String.isEmpty_iff] at hkey
    obtain ⟨⟨hempty, hnoise⟩, hself⟩ := hkey
    exact ⟨hempty, hnoise, fun heq => hself heq.symm, by
      simpa [or_iff_not_imp_left] using hword⟩
  · rintro ⟨hempty, hnoise, hself, hword⟩
    obtain ⟨o, ho⟩ := hnamed hempty
    refine ⟨⟨ctx.definition, o⟩, ?_, ?_, o, ho, rfl⟩
    · simp only [Bool.or_eq_true, not_or, DbObject.isNamed, List.contains_iff_mem, beq_iff_eq,
        String.isEmpty_iff]
      exact ⟨⟨hempty, hnoise⟩, fun heq => hself heq.symm⟩
    · simpa [or_iff_not_imp_left] using hword

end Context

/-! ### Outcomes -/

theorem definition?_of_find? {clean : List Char} {hit : Hit}
    (hfind : creation.find? (.start clean) = some hit) :
    ('\u0130' ∈ hit.body →
        definition? clean = .error (.unknownKind (String.ofList hit.body))) ∧
      ('\u0130' ∉ hit.body → ∃ o, definition? clean = .ok (some o)) := by
  obtain ⟨-, hhit⟩ := Rule.exists_reads_of_find? hfind
  obtain ⟨hfails, hkind⟩ := kindOfWord_of_spells (Rule.spells_body_of_hit? hhit)
  constructor
  · intro hdotted
    simp [definition?, hfind, hfails hdotted, bind, Except.bind]
  · intro hdotted
    obtain ⟨kind, hkind⟩ := hkind hdotted
    have hnamed : allBlank (String.ofList (createdName hit)).toList = false := by
      rw [String.toList_ofList]
      exact allBlank_eq_false_of_spells_path (createdName_of_find? hfind).1
    refine ⟨⟨String.ofList (createdName hit), kind, hnamed⟩, ?_⟩
    have hmake := DbObject.make?_eq_some_iff.mpr
      (⟨rfl, rfl⟩ : DbObject.name ⟨String.ofList (createdName hit), kind, hnamed⟩ = _ ∧
        DbObject.kind ⟨String.ofList (createdName hit), kind, hnamed⟩ = _)
    simp only [definition?, hfind, hkind, bind, Except.bind, hmake]

theorem parse_of_definition?_error {text : String} {e : DefinitionError}
    (h : definition? (clean text.toList) = .error e) : parse text = .error e := by
  simp [parse, analyze, analyzeClean, h, Except.map]

theorem exists_parse_of_definition?_ok {text : String} {o : DbObject}
    (h : definition? (clean text.toList) = .ok (some o)) : ∃ r, parse text = .ok (some r) := by
  simp [parse, analyze, analyzeClean, h, Except.map]

/-- Parsing fails exactly if the word of the leftmost `CREATE` statement has a dotted capital
`i`, and the error names this word.  It finds nothing exactly if there is no `CREATE` statement,
and else it has a result.  No object of a reference is refused for its name: a name is left out
only by a filter. -/
theorem parse_outcome (text : String) :
    ((∃ e, parse text = .error e) ↔
      ∃ hit, creation.IsLeftmost (clean text.toList) hit ∧ '\u0130' ∈ hit.body) ∧
    (∀ hit, creation.IsLeftmost (clean text.toList) hit → '\u0130' ∈ hit.body →
      ∃ e, parse text = .error e ∧
        e.message = "Unknown SQL object type '" ++ String.ofList hit.body ++ "'") ∧
    (parse text = .ok none ↔
      ∀ c : Cursor, c.text = clean text.toList → creation.hit? c = none) ∧
    (∀ hit, creation.IsLeftmost (clean text.toList) hit → '\u0130' ∉ hit.body →
      ∃ r, parse text = .ok (some r)) ∧
    ∀ (ctx : Context) (name : List Char) (kind : Kind),
      (∃ e, ctx.candidate? name kind = some e) ↔ ctx.Passes name := by
  have hfails : ∀ hit, creation.IsLeftmost (clean text.toList) hit → '\u0130' ∈ hit.body →
      parse text = .error (.unknownKind (String.ofList hit.body)) := by
    intro hit hleftmost hdotted
    have hfind := Rule.find?_start_eq_some_iff.mpr hleftmost
    exact parse_of_definition?_error ((definition?_of_find? hfind).1 hdotted)
  have hreturns : ∀ hit, creation.IsLeftmost (clean text.toList) hit → '\u0130' ∉ hit.body →
      ∃ r, parse text = .ok (some r) := by
    intro hit hleftmost hdotted
    have hfind := Rule.find?_start_eq_some_iff.mpr hleftmost
    obtain ⟨o, ho⟩ := (definition?_of_find? hfind).2 hdotted
    exact exists_parse_of_definition?_ok ho
  have hnothing : parse text = .ok none ↔
      ∀ c : Cursor, c.text = clean text.toList → creation.hit? c = none := by
    rw [parse_eq_ok_none_iff, Rule.find?_start_eq_none_iff]
  refine ⟨⟨?_, ?_⟩, ?_, hnothing, hreturns, fun _ _ _ => Context.exists_candidate?_iff⟩
  · rintro ⟨e, he⟩
    cases hfind : creation.find? (.start (clean text.toList)) with
    | none =>
        rw [(parse_eq_ok_none_iff text).mpr hfind] at he
        cases he
    | some hit =>
        have hleftmost := Rule.find?_start_eq_some_iff.mp hfind
        refine ⟨hit, hleftmost, ?_⟩
        by_contra hdotted
        obtain ⟨r, hr⟩ := hreturns hit hleftmost hdotted
        rw [hr] at he
        cases he
  · rintro ⟨hit, hleftmost, hdotted⟩
    exact ⟨_, hfails hit hleftmost hdotted⟩
  · intro hit hleftmost hdotted
    exact ⟨_, hfails hit hleftmost hdotted, rfl⟩

example : parse "CREATE V\u0130EW v AS SELECT 1" = .error (.unknownKind "V\u0130EW") := by
  decide +kernel

end ScriptGraph.Script
