import ScriptGraph.Proofs.Script.Cleaning
import ScriptGraph.Proofs.Script.MuteWords
import ScriptGraph.Proofs.Script.OpenReferences

/-!
# Delimited names are opaque

What stands between the brackets of a name is a name and nothing else: two scripts that differ only
in the content of one pair of brackets have the same results, up to the name of that object.  The
content must not be a statement by itself, since the searches look inside the brackets as well, it
must have no parentheses, and it must not be the name of a trigger's own table.
-/

namespace ScriptGraph.Name

open Text

/-! ### Keys with another segment -/

/-- The key in which one segment is replaced by another wherever it stands. -/
def renameSegment (old new : List Char) (key : String) : String :=
  String.ofList (['.'].intercalate
    ((parts key.toList).map fun part => if part = old then new else part))

/-- The part of a key that the content of an open name gives. -/
def segment (content : Content) : List Char := partKey content none

/-- The contents give the same part, or none that a written part of the name gives. -/
def Apart (a b : Content) (found : List (Option (List Char))) : Prop :=
  segment a = segment b ∨ ∀ text, some text ∈ found → fold text ≠ segment a ∧ fold text ≠ segment b

theorem Apart.symm {a b : Content} {found : List (Option (List Char))} (h : Apart a b found) :
    Apart b a found := by
  rcases h with heq | h
  · exact .inl heq.symm
  · exact .inr fun text htext => (h text htext).symm

namespace Denotes

variable {w : List Slot} {found : List (Option (List Char))} {a b : Content}

theorem renameSegment_key (h : Denotes w found) (hapart : Apart a b found) :
    renameSegment (segment a) (segment b) (key (String.ofList (Slot.fill a w))) =
      key (String.ofList (Slot.fill b w)) := by
  rw [renameSegment, h.parts_key, h.key_eq, List.map_map]
  congr 2
  apply List.map_congr_left
  intro part hpart
  cases part with
  | none => exact if_pos rfl
  | some text =>
      have hwritten : partKey a (some text) = partKey b (some text) := rfl
      simp only [Function.comp]
      split
      · rename_i hsame
        rcases hapart with heq | hapart
        · rw [← heq, ← hsame, hwritten]
        · exact absurd hsame (hapart text hpart).1
      · exact hwritten

/-- Only a name of several parts has a dot in its key. -/
theorem dot_mem_key_iff (h : Denotes w found) (content : Content) :
    '.' ∈ (key (String.ofList (Slot.fill content w))).toList ↔ 1 < found.length := by
  rw [h.key_eq, String.toList_ofList]
  cases found with
  | nil => exact absurd rfl h.ne_nil
  | cons part later =>
      cases later with
      | nil =>
          rw [List.map_singleton, List.intercalate_singleton]
          simpa using h.dot_notMem_partKey content List.mem_cons_self
      | cons next later =>
          rw [List.map_cons, List.map_cons, List.intercalate_cons_cons]
          simp

end Denotes

end ScriptGraph.Name

namespace ScriptGraph.Script

open Text Name

/-! ### Names with another content -/

/-- The content does not stand for one of a trigger's own tables. -/
def IsOrdinary (content : Content) : Prop := String.ofList (segment content) ∉ triggerTables

instance (content : Content) : Decidable (IsOrdinary content) :=
  inferInstanceAs (Decidable (_ ∉ _))

theorem notMem_triggerTables {w : List Slot} {found : List (Option (List Char))}
    (h : Denotes w found) (hopen : none ∈ found) {content : Content}
    (hordinary : IsOrdinary content) : keyIn content w ∉ triggerTables := by
  have hdotless : ∀ table ∈ triggerTables, '.' ∉ table.toList := by decide
  intro hmem
  have hshort := mt (h.dot_mem_key_iff content).mpr (hdotless _ hmem)
  obtain ⟨part, rfl⟩ : ∃ part, found = [part] := by
    apply List.length_eq_one_iff.mp
    have hpos := List.length_pos_of_ne_nil h.ne_nil
    omega
  obtain rfl : part = none := (List.mem_singleton.mp hopen).symm
  apply hordinary
  rw [keyIn, h.key_eq, List.map_singleton, List.intercalate_singleton] at hmem
  exact hmem

theorem alike_fill {w : List Slot} {found : List (Option (List Char))} {a b : Content}
    {known : String → Prop} (h : Denotes w found) (hapart : Apart a b found) (ha : IsOrdinary a)
    (hb : IsOrdinary b) (hknown : known (keyIn a w)) :
    Alike (renameSegment (segment a) (segment b)) known (Slot.fill a w) (Slot.fill b w) where
  known := hknown
  key_eq := (h.renameSegment_key hapart).symm
  empty_iff := iff_of_false (h.key_ne_empty b) (h.key_ne_empty a)
  dot_eq := by
    rw [Bool.eq_iff_iff, List.contains_iff_mem, List.contains_iff_mem, h.dot_mem_key_iff,
      h.dot_mem_key_iff]
  trigger_eq := by
    by_cases hopen : none ∈ found
    · rw [Bool.eq_iff_iff, List.contains_iff_mem, List.contains_iff_mem]
      exact iff_of_false (notMem_triggerTables h hopen hb) (notMem_triggerTables h hopen ha)
    · rw [h.fill_eq hopen b a]
  reserved_eq := by
    apply h.test_fill_eq (fun text => isReserved (trim text))
    intro text hmem
    exact (isNeverCalled_of_bracket (mem_trim hmem (by decide))).1
  neverCalled_eq := by
    apply h.test_fill_eq (fun text => isNeverCalled (trim text))
    intro text hmem
    exact (isNeverCalled_of_bracket (mem_trim hmem (by decide))).2

/-! ### Cleaned scripts with another content -/

/-- The keys that are read in a cleaned script: those of the definition, of the names that are not
references, and of the names that the searches find. -/
def keysRead (clean : List Char) : List String :=
  match definition? clean with
  | .ok (some definition) =>
      definition.key :: (noise clean ++
        (Search.all.flatMap (Search.names clean)).map fun name => Name.key (String.ofList name))
  | _ => []

/-- No key that is read in the script has the segment. -/
def Unused (part : List Char) (clean : List Char) : Prop :=
  ∀ key ∈ keysRead clean, part ∉ parts key.toList

instance (part clean : List Char) : Decidable (Unused part clean) :=
  inferInstanceAs (Decidable (∀ key ∈ keysRead clean, part ∉ parts key.toList))

/-- The names of a script with open names. -/
structure Names where
  definition : List Slot
  kind : Kind
  noise : List (List Slot)
  found : Search → List (List Slot)

namespace Names

def all (names : Names) : List (List Slot) :=
  names.definition :: (names.noise ++ Search.all.flatMap names.found)

theorem mem_all_of_found {names : Names} {search : Search} {w : List Slot}
    (h : w ∈ names.found search) : w ∈ names.all := by
  have hsearch : search ∈ Search.all := by cases search <;> decide
  apply List.mem_cons_of_mem
  exact List.mem_append_right _ (List.mem_flatMap.mpr ⟨search, hsearch, h⟩)

structure ReadIn (names : Names) (slots : List Slot) (content : Content) : Prop where
  definition? : ∃ o, Script.definition? (Slot.fill content slots) = .ok (some o) ∧
    o.name = String.ofList (Slot.fill content names.definition) ∧ o.kind = names.kind
  noise : Script.noise (Slot.fill content slots) = names.noise.map (keyIn content)
  found : ∀ search : Search,
    search.names (Slot.fill content slots) = (names.found search).map (Slot.fill content)

variable {slots : List Slot} {names : Names} {a b : Content}

theorem ReadIn.keysRead_eq (h : names.ReadIn slots a) :
    keysRead (Slot.fill a slots) = names.all.map (keyIn a) := by
  obtain ⟨o, ho, hname, -⟩ := h.definition?
  have hfound : Search.all.flatMap (Search.names (Slot.fill a slots)) =
      (Search.all.flatMap names.found).map (Slot.fill a) := by
    rw [List.map_flatMap]
    exact List.flatMap_congr fun search _ => h.found search
  have hkey : o.key = keyIn a names.definition := by rw [DbObject.key, hname, keyIn]
  simp only [keysRead, ho, h.noise, hfound, hkey, all, List.map_cons, List.map_append, List.map_map]
  rfl

/-- A segment that is not used differs from every part that is written. -/
theorem ReadIn.fold_ne (h : names.ReadIn slots a) {part : List Char}
    (hunused : Unused part (Slot.fill a slots)) {w : List Slot} (hw : w ∈ names.all)
    {found : List (Option (List Char))} (hfound : Denotes w found) {text : List Char}
    (htext : some text ∈ found) : fold text ≠ part := by
  rintro rfl
  have hread : keyIn a w ∈ keysRead (Slot.fill a slots) := by
    rw [h.keysRead_eq]
    exact List.mem_map_of_mem hw
  apply hunused _ hread
  rw [keyIn, hfound.parts_key]
  exact List.mem_map.mpr ⟨some text, htext, rfl⟩

/-- The contents give the same segment, or neither script has the other's segment. -/
def Distinguishes (slots : List Slot) (a b : Content) : Prop :=
  segment a = segment b ∨
    Unused (segment b) (Slot.fill a slots) ∧ Unused (segment a) (Slot.fill b slots)

theorem ReadIn.apart (ha : names.ReadIn slots a) (hb : names.ReadIn slots b)
    (h : Distinguishes slots a b) {w : List Slot} (hw : w ∈ names.all)
    {found : List (Option (List Char))} (hfound : Denotes w found) : Apart a b found := by
  rcases h with heq | ⟨hfirst, hsecond⟩
  · exact .inl heq
  · refine .inr fun text htext => ⟨?_, ?_⟩
    · exact hb.fold_ne hsecond hw hfound htext
    · exact ha.fold_ne hfirst hw hfound htext

def Known (names : Names) (content : Content) (key : String) : Prop :=
  ∃ w ∈ names.all, key = keyIn content w

/-- Renaming the segment back shows that no keys are confused. -/
theorem ReadIn.faithful (hnames : ∀ w ∈ names.all, IsName w) (ha : names.ReadIn slots a)
    (hb : names.ReadIn slots b) (h : Distinguishes slots a b) :
    Faithful (renameSegment (segment a) (segment b)) (names.Known a) := by
  rintro _ _ ⟨w, hw, rfl⟩ ⟨w', hw', rfl⟩ heq
  obtain ⟨found, hfound⟩ := hnames w hw
  obtain ⟨found', hfound'⟩ := hnames w' hw'
  have hapart := ha.apart hb h hw hfound
  have hapart' := ha.apart hb h hw' hfound'
  rw [keyIn, keyIn, hfound.renameSegment_key hapart, hfound'.renameSegment_key hapart'] at heq
  calc keyIn a w
    _ = renameSegment (segment b) (segment a) (key (String.ofList (Slot.fill b w))) :=
        (hfound.renameSegment_key hapart.symm).symm
    _ = renameSegment (segment b) (segment a) (key (String.ofList (Slot.fill b w'))) := by rw [heq]
    _ = keyIn a w' := hfound'.renameSegment_key hapart'.symm

theorem ReadIn.renamed (hnames : ∀ w ∈ names.all, IsName w) (ha : names.ReadIn slots a)
    (hb : names.ReadIn slots b) (h : Distinguishes slots a b) (hordinary : IsOrdinary a)
    (hordinary' : IsOrdinary b) {o o' : DbObject}
    (ho : o.name = String.ofList (Slot.fill a names.definition))
    (ho' : o'.name = String.ofList (Slot.fill b names.definition)) :
    Context.Renamed (renameSegment (segment a) (segment b)) (names.Known a)
      (startContext (Slot.fill a slots) o) (startContext (Slot.fill b slots) o') := by
  have halike : ∀ w ∈ names.all,
      Alike (renameSegment (segment a) (segment b)) (names.Known a) (Slot.fill a w)
        (Slot.fill b w) := by
    intro w hw
    obtain ⟨found, hfound⟩ := hnames w hw
    exact alike_fill hfound (ha.apart hb h hw hfound) hordinary hordinary' ⟨w, hw, rfl⟩
  have hself : names.definition ∈ names.all := List.mem_cons_self
  have hnoise : ∀ w ∈ names.noise, w ∈ names.all :=
    fun w hw => List.mem_cons_of_mem _ (List.mem_append_left _ hw)
  refine ⟨⟨rfl, rfl⟩, fun search => ?_, ?_, ?_, rfl, ?_, ?_, ?_⟩
  · simp only [startContext, ha.found, hb.found, List.forall₂_map_left_iff,
      List.forall₂_map_right_iff, List.forall₂_same]
    intro w hw
    exact halike w (mem_all_of_found hw)
  · simp only [startContext, DbObject.key, ho, ho']
    exact (halike _ hself).key_eq
  · simp only [startContext, ha.noise, hb.noise, List.map_map]
    apply List.map_congr_left
    intro w hw
    exact (halike w (hnoise w hw)).key_eq
  · exact ⟨_, hself, congrArg Name.key ho⟩
  · intro key hkey
    simp only [startContext, ha.noise] at hkey
    obtain ⟨w, hw, rfl⟩ := List.mem_map.mp hkey
    exact ⟨w, hnoise w hw, rfl⟩
  · intro key hkey
    cases hkey

end Names

/-- Whether a script creates an object depends on the slots alone; if it does, its names stand at
the same slots whatever the open names hold. -/
theorem exists_names (slots : List Slot) :
    (∃ found : Except DefinitionError (Option DbObject), (∀ o, found ≠ .ok (some o)) ∧
      ∀ content, Mute content → definition? (Slot.fill content slots) = found) ∨
    ∃ names : Names, (∀ w ∈ names.all, IsName w) ∧
      ∀ content, Mute content → names.ReadIn slots content := by
  -- The slots decide on the outcome; a script with a definition has the names of its slots.
  obtain ⟨found, hfound, hdefinition⟩ := exists_definition? slots
  cases found with
  | error e =>
      refine .inl ⟨.error e, by simp, fun content hmute => ?_⟩
      have hmap := hfound content hmute
      cases hcase : definition? (Slot.fill content slots) with
      | error e' => simpa [hcase, Except.map] using hmap
      | ok found => simp [hcase, Except.map] at hmap
  | ok found =>
      cases found with
      | none =>
          refine .inl ⟨.ok none, by simp, fun content hmute => ?_⟩
          have hmap := hfound content hmute
          cases hcase : definition? (Slot.fill content slots) with
          | error e => simp [hcase, Except.map] at hmap
          | ok found => simpa [hcase, Except.map] using hmap
      | some d =>
          obtain ⟨noises, hnoises, hnoise⟩ := gives_noise slots
          choose names hnames hsearch using gives_names slots
          refine .inr ⟨⟨d.1, d.2, noises, names⟩, fun w hw => ?_, fun content hmute => ⟨?_, ?_, ?_⟩⟩
          · rcases List.mem_cons.mp hw with rfl | hw
            · exact hdefinition d.1 d.2 rfl
            · rcases List.mem_append.mp hw with hw | hw
              · exact hnoises w hw
              · obtain ⟨search, -, hw⟩ := List.mem_flatMap.mp hw
                exact hnames search w hw
          · have hmap := hfound content hmute
            cases hcase : definition? (Slot.fill content slots) with
            | error e => simp [hcase, Except.map] at hmap
            | ok found =>
                cases found with
                | none => simp [hcase, Except.map] at hmap
                | some o =>
                    have hboth : o.name = String.ofList (Slot.fill content d.1) ∧ o.kind = d.2 := by
                      simpa [hcase, Except.map] using hmap
                    exact ⟨o, rfl, hboth⟩
          · exact hnoise content hmute
          · intro search
            exact hsearch search content hmute

/-- Changing the content of the open names renames a segment in the results. -/
theorem analyzeClean_fill_eq (slots : List Slot) {a b : Content} (ha : Mute a) (hb : Mute b)
    (hordinary : IsOrdinary a) (hordinary' : IsOrdinary b)
    (h : Names.Distinguishes slots a b) :
    (analyzeClean (Slot.fill b slots)).map (·.map fun r => r.result.identities) =
      (analyzeClean (Slot.fill a slots)).map
        (·.map fun r => renameIdentities (renameSegment (segment a) (segment b))
          r.result.identities) := by
  rcases exists_names slots with ⟨found, hnothing, hfound⟩ | ⟨names, hnames, hread⟩
  · simp only [analyzeClean, hfound a ha, hfound b hb]
    cases found with
    | error e => simp only [Except.map]
    | ok found =>
        cases found with
        | none => simp only [Except.map, Option.map_none]
        | some o => exact absurd rfl (hnothing o)
  · have hreadA := hread a ha
    have hreadB := hread b hb
    obtain ⟨o, ho, hname, hkind⟩ := hreadA.definition?
    obtain ⟨o', ho', hname', hkind'⟩ := hreadB.definition?
    have hrenamed := hreadA.renamed hnames hreadB h hordinary hordinary' hname hname'
    have hfaithful := hreadA.faithful hnames hreadB h
    have hresult := hrenamed.identities_result_eq hfaithful (hkind'.trans hkind.symm) Search.all
    simp only [analyzeClean, ho, ho', Except.map, Option.map_some, Except.ok.injEq,
      Option.some.injEq]
    exact hresult

/-! ### Texts without comments and literals -/

/-- Code without delimiters, literals and the marks of comments. -/
structure IsBareCode (code : List Char) : Prop where
  free : ∀ x ∈ code, isDelimiter x = false ∧ x ≠ '\''
  block : ¬ blockStart <:+: code
  line : ¬ lineStart <:+: code

instance (code : List Char) : Decidable (IsBareCode code) :=
  decidable_of_iff ((code.all fun x => !isDelimiter x && x != '\'') = true ∧
      ¬ blockStart <:+: code ∧ ¬ lineStart <:+: code)
    ⟨fun h => ⟨by simpa using h.1, h.2.1, h.2.2⟩, fun h => ⟨by simpa using h.free, h.block, h.line⟩⟩

def bracketed (before inside after : List Char) : List Char :=
  before ++ '[' :: (inside ++ ']' :: after)

theorem dropCommentsAndLiterals_bracketed {before inside after : List Char}
    (hbefore : IsBareCode before) (hinside : IsBareCode inside) (hafter : IsBareCode after) :
    dropCommentsAndLiterals (bracketed before inside after) = bracketed before inside after := by
  have hmark : ∀ {mark : List Char}, '[' ∉ mark → ']' ∉ mark →
      mark <:+: bracketed before inside after →
        mark <:+: before ∨ mark <:+: inside ∨ mark <:+: after := by
    intro mark hopening hclosing hwithin
    rcases infix_of_infix_append_cons hopening hwithin with hwithin | hwithin
    · exact .inl hwithin
    · exact .inr (infix_of_infix_append_cons hclosing hwithin)
  have hblock : ¬ blockStart <:+: bracketed before inside after := by
    intro hwithin
    rcases hmark (by decide) (by decide) hwithin with h | h | h
    · exact hbefore.block h
    · exact hinside.block h
    · exact hafter.block h
  have hline : ¬ lineStart <:+: bracketed before inside after := by
    intro hwithin
    rcases hmark (by decide) (by decide) hwithin with h | h | h
    · exact hbefore.line h
    · exact hinside.line h
    · exact hafter.line h
  have hquote : '\'' ∉ bracketed before inside after := by
    simp only [bracketed, List.mem_append, List.mem_cons, not_or]
    exact ⟨fun h => (hbefore.free _ h).2 rfl, by decide, fun h => (hinside.free _ h).2 rfl,
      by decide, fun h => (hafter.free _ h).2 rfl⟩
  have hunmarked : Unmarked (bracketed before inside after) :=
    { block := fun ⟨front, rest, heq, _⟩ => hblock ⟨front, rest, by rw [heq, List.append_assoc]⟩
      line := hline
      quote := by simp [List.count_eq_zero.mpr hquote] }
  exact hunmarked.dropCommentsAndLiterals_eq_self

/-- Nothing is read in the content but a name. -/
structure IsOpaque (content : Content) : Prop where
  bare : IsBareCode content.chars
  mute : Mute content
  ordinary : IsOrdinary content

/-- A word is opaque unless a search looks for it alone or it names a trigger's own table. -/
theorem isOpaque_of_isWord {content : Content} (hchars : ∀ x ∈ content.chars, isWord x = true)
    (hother : ∀ letters ∈ loneWords, (Pattern.word letters).matchesWhole content.chars = false)
    (hordinary : IsOrdinary content) : IsOpaque content where
  bare := by
    have hnone : ∀ x : Char, isWord x = false → x ∉ content.chars := by
      intro x hx hmem
      rw [hchars x hmem] at hx
      cases hx
    refine ⟨fun x hx => ⟨(content.plain x hx).1, ?_⟩, fun hwithin => ?_, fun hwithin => ?_⟩
    · rintro rfl
      exact hnone _ (by decide) hx
    · exact hnone '/' (by decide) (hwithin.subset (by decide))
    · exact hnone '-' (by decide) (hwithin.subset (by decide))
  mute := mute_of_isWord hchars hother
  ordinary := hordinary

/-! ### Scripts with another content -/

theorem exists_slots {before after : List Char} (hbefore : IsBareCode before)
    (hafter : IsBareCode after) : ∃ slots : List Slot, ∀ content : Content,
      Slot.fill content slots = bracketed before content.chars after := by
  have hpiece : ∀ {code : List Char}, IsBareCode code → ∃ slots : List Slot,
      ∀ content : Content, Slot.fill content slots = code := by
    intro code hcode
    have hfree : ∀ x ∈ code, isDelimiter x = false := fun x hx => (hcode.free x hx).1
    clear hcode
    induction code with
    | nil => exact ⟨[], fun _ => rfl⟩
    | cons x code ih =>
        obtain ⟨hx, hcode⟩ := List.forall_mem_cons.mp hfree
        obtain ⟨slots, hslots⟩ := ih hcode
        exact ⟨.char x hx :: slots, fun content => by rw [Slot.fill_char, hslots]⟩
  obtain ⟨front, hfront⟩ := hpiece hbefore
  obtain ⟨back, hback⟩ := hpiece hafter
  refine ⟨front ++ .hole :: back, fun content => ?_⟩
  rw [Slot.fill_append, Slot.fill_hole, hfront, hback, bracketed]

theorem map_parse {β : Type} (view : ParsedScript → β) (text : List Char) :
    (parse (String.ofList text)).map (·.map view) =
      (analyzeClean (clean text)).map (·.map fun r => view r.result) := by
  rw [parse, analyze, String.toList_ofList]
  cases analyzeClean (clean text) with
  | error e => simp only [Except.map]
  | ok found => simp only [Except.map, Option.map_map, Function.comp_def]

/-- Two scripts that differ in the content of a name in brackets have the same results, except that
the segment of one content stands where that of the other does. -/
theorem parse_rename_delimited {before after : List Char} (hbefore : IsBareCode before)
    (hafter : IsBareCode after) {a b : Content} (ha : IsOpaque a) (hb : IsOpaque b)
    (h : segment a = segment b ∨
      Unused (segment b) (clean (bracketed before a.chars after)) ∧
        Unused (segment a) (clean (bracketed before b.chars after))) :
    (parse (String.ofList (bracketed before b.chars after))).map
        (·.map ParsedScript.identities) =
      (parse (String.ofList (bracketed before a.chars after))).map
        (·.map fun r => renameIdentities (renameSegment (segment a) (segment b)) r.identities) := by
  obtain ⟨slots, hslots⟩ := exists_slots hbefore hafter
  obtain ⟨cleaned, hcleaned⟩ := exists_clean slots
  have hclean : ∀ {content : Content}, IsOpaque content →
      clean (bracketed before content.chars after) = Slot.fill content cleaned := by
    intro content hcontent
    have hsame := dropCommentsAndLiterals_bracketed hbefore hcontent.bare hafter
    rw [← hslots] at hsame ⊢
    exact hcleaned content hsame
  -- Neither text has comments or literals, and the reductions take out the same slots of both.
  rw [hclean ha, hclean hb] at h
  have hanalysis := analyzeClean_fill_eq cleaned ha.mute hb.mute ha.ordinary hb.ordinary h
  rw [← hclean ha, ← hclean hb] at hanalysis
  rw [map_parse, map_parse]
  exact hanalysis

/-- Words of the language between brackets are a name, here of a table with an alias. -/
theorem parse_rename_delimited_view :
    let before := "CREATE VIEW v AS SELECT f(1) FROM dbo.".toList
    let after := " AS t JOIN u".toList
    let a : Content := ⟨"group by, top 10".toList, by decide, Content.plain_of_all (by decide)⟩
    let b : Content := ⟨"z".toList, by decide, Content.plain_of_all (by decide)⟩
    IsBareCode before ∧ IsBareCode after ∧ IsOpaque a ∧ IsOpaque b ∧
      Unused (segment b) (clean (bracketed before a.chars after)) ∧
      Unused (segment a) (clean (bracketed before b.chars after)) ∧
      (parse (String.ofList (bracketed before b.chars after))).map
          (·.map ParsedScript.identities) =
        .ok (some ((.view, "v"), [("v", .userFunction, "f"), ("v", .table, "dbo.z"),
          ("v", .table, "u")])) := by
  intro before after a b
  have hbefore : IsBareCode before := by decide +kernel
  have hafter : IsBareCode after := by decide +kernel
  have ha : IsOpaque a := ⟨by decide +kernel, by decide +kernel, by decide +kernel⟩
  have hb : IsOpaque b :=
    isOpaque_of_isWord (List.all_eq_true.mp (by decide +kernel)) (by decide +kernel)
      (by decide +kernel)
  have hfirst : Unused (segment b) (clean (bracketed before a.chars after)) := by decide +kernel
  have hsecond : Unused (segment a) (clean (bracketed before b.chars after)) := by decide +kernel
  refine ⟨hbefore, hafter, ha, hb, hfirst, hsecond, ?_⟩
  rw [parse_rename_delimited hbefore hafter ha hb (.inr ⟨hfirst, hsecond⟩)]
  decide +kernel

/-- A call between brackets is found, although an ordinary name at the same place gives nothing; and
the name of a trigger's own table gives nothing where an ordinary name is a table. -/
theorem parse_reads_delimited :
    let found := fun before inside : String =>
      (parse (String.ofList (bracketed before.toList inside.toList []))).map
        (·.map ParsedScript.identities)
    let free := fun before inside : String =>
      IsBareCode before.toList ∧ IsBareCode inside.toList ∧ '.' ∉ inside.toList ∧
        Unused ['z'] (clean (bracketed before.toList inside.toList [])) ∧
        Unused (fold inside.toList) (clean (bracketed before.toList ['z'] []))
    (free "CREATE VIEW v AS SELECT " "x f(1) y" ∧
      found "CREATE VIEW v AS SELECT " "x f(1) y" =
        .ok (some ((.view, "v"), [("v", .userFunction, "f")])) ∧
      found "CREATE VIEW v AS SELECT " "z" = .ok (some ((.view, "v"), []))) ∧
    free "CREATE VIEW v AS SELECT 1 FROM " "inserted" ∧
      found "CREATE VIEW v AS SELECT 1 FROM " "inserted" = .ok (some ((.view, "v"), [])) ∧
      found "CREATE VIEW v AS SELECT 1 FROM " "z" =
        .ok (some ((.view, "v"), [("v", .table, "z")])) := by
  intro found free
  refine ⟨⟨⟨?_, ?_, ?_, ?_, ?_⟩, ?_, ?_⟩, ⟨?_, ?_, ?_, ?_, ?_⟩, ?_, ?_⟩
  all_goals decide +kernel

end ScriptGraph.Script
