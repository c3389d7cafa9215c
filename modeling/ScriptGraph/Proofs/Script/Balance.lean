import Mathlib.Data.List.Infix
import ScriptGraph.Proofs.Script.TokenBoundaries
import ScriptGraph.Proofs.Text.Framing
import ScriptGraph.Script.Parse

/-!
# Balanced parentheses

A text is balanced if no parenthesis closes before one opens and if all of them are closed.  From
inside a balanced group the parenthesis that closes the group is found by counting.  Cleaning takes
out lists in parentheses without counting: a list ends at its first closing parenthesis.  A column
list is balanced, since no parenthesis opens inside it, but a parameter list of a data type need not
be, and then a closing parenthesis is left over.
-/

namespace ScriptGraph.Script

open Text Name

/-- Every parenthesis is closed, and none closes before one opens. -/
structure Balanced (text : List Char) : Prop where
  opened : ∀ piece, piece <+: text → piece.count ')' ≤ piece.count '('
  closed : text.count '(' = text.count ')'

/-- Whether a text leads from the given depth of parentheses to depth zero without falling
below it. -/
def settles : Nat → List Char → Bool
  | depth, [] => depth == 0
  | depth, x :: rest =>
      if x = '(' then settles (depth + 1) rest
      else if x = ')' then depth != 0 && settles (depth - 1) rest
      else settles depth rest

theorem forall_prefix_cons_iff {x : Char} {rest : List Char} {holds : List Char → Prop} :
    (∀ piece, piece <+: x :: rest → holds piece) ↔
      holds [] ∧ ∀ piece, piece <+: rest → holds (x :: piece) := by
  constructor
  · intro h
    exact ⟨h [] List.nil_prefix, fun piece hpiece => h _ ((List.prefix_cons_inj x).mpr hpiece)⟩
  · rintro ⟨hnil, hcons⟩ piece hpiece
    rcases List.prefix_cons_iff.mp hpiece with rfl | ⟨later, rfl, hlater⟩
    · exact hnil
    · exact hcons later hlater

theorem settles_iff {depth : Nat} {text : List Char} :
    settles depth text = true ↔
      (∀ piece, piece <+: text → piece.count ')' ≤ depth + piece.count '(') ∧
        depth + text.count '(' = text.count ')' := by
  fun_induction settles depth text with
  | case1 depth => simp
  | case2 depth rest ih =>
      rw [ih, forall_prefix_cons_iff]
      simp [Nat.add_assoc, Nat.add_comm 1]
  | case3 depth rest _ ih =>
      rw [Bool.and_eq_true, bne_iff_ne, ih, forall_prefix_cons_iff]
      simp only [List.count_cons_self, List.count_cons_of_ne (by decide : ')' ≠ '(')]
      constructor
      · rintro ⟨hdepth, hopened, hclosed⟩
        refine ⟨⟨by simp, fun piece hpiece => ?_⟩, by omega⟩
        have hle := hopened piece hpiece
        omega
      · rintro ⟨⟨-, hopened⟩, hclosed⟩
        have hdepth : 1 ≤ depth := by simpa using hopened [] List.nil_prefix
        refine ⟨by omega, fun piece hpiece => ?_, by omega⟩
        have hle := hopened piece hpiece
        omega
  | case4 depth x rest hopening hclosing ih =>
      rw [ih, forall_prefix_cons_iff]
      simp [List.count_cons_of_ne hopening, List.count_cons_of_ne hclosing]

theorem settles_zero_iff {text : List Char} : settles 0 text = true ↔ Balanced text := by
  rw [settles_iff, Nat.zero_add]
  simp only [Nat.zero_add]
  exact ⟨fun h => ⟨h.1, h.2⟩, fun h => ⟨h.opened, h.closed⟩⟩

instance (text : List Char) : Decidable (Balanced text) := decidable_of_iff _ settles_zero_iff

theorem settles_append_left (front : List Char) {text text' : List Char}
    (h : ∀ depth, settles depth text = settles depth text') (depth : Nat) :
    settles depth (front ++ text) = settles depth (front ++ text') := by
  induction front generalizing depth with
  | nil => exact h depth
  | cons x front ih => simp only [List.cons_append, settles, ih]

theorem settles_append {depth : Nat} {text : List Char} (h : settles depth text = true)
    (more : Nat) (rest : List Char) :
    settles (more + depth) (text ++ rest) = settles more rest := by
  fun_induction settles depth text with
  | case1 depth =>
      obtain rfl : depth = 0 := by simpa using h
      rfl
  | case2 depth text ih => simpa [settles, Nat.add_assoc] using ih h
  | case3 depth text _ ih =>
      obtain ⟨hdepth, h⟩ : depth ≠ 0 ∧ settles (depth - 1) text = true := by simpa using h
      have hmore : more + depth - 1 = more + (depth - 1) := by omega
      simp [settles, hmore, ih h, hdepth]
  | case4 depth x text hopening hclosing ih => simpa [settles, hopening, hclosing] using ih h

theorem Balanced.append_cut_iff {cut : List Char} (h : Balanced cut) (front rest : List Char) :
    Balanced (front ++ (cut ++ rest)) ↔ Balanced (front ++ rest) := by
  rw [← settles_zero_iff, ← settles_zero_iff]
  rw [settles_append_left front fun depth => settles_append (settles_zero_iff.mpr h) depth rest]

/-! ### The end of a group -/

theorem closingOffset?_append_of_settles {depth : Nat} {text : List Char}
    (h : settles depth text = true) (rest : List Char) {outer : Int} (houter : 0 < outer) :
    closingOffset? (outer + depth) (text ++ rest) =
      (closingOffset? outer rest).map (· + text.length) := by
  have hmap : ∀ (found : Option Nat) (n : Nat),
      (found.map (· + n)).map (· + 1) = found.map (· + (n + 1)) := by
    intro found n
    cases found <;> rfl
  fun_induction settles depth text with
  | case1 depth =>
      obtain rfl : depth = 0 := by simpa using h
      simp
  | case2 depth text ih =>
      have hdepth : outer + depth + 1 = outer + (depth + 1 : Nat) := by omega
      rw [List.cons_append, closingOffset?, hdepth, ih h, hmap, List.length_cons]
  | case3 depth text _ ih =>
      obtain ⟨hdepth, h⟩ : depth ≠ 0 ∧ settles (depth - 1) text = true := by simpa using h
      have hmore : outer + depth - 1 = outer + (depth - 1 : Nat) := by omega
      rw [List.cons_append, closingOffset?, if_neg (by omega), hmore, ih h, hmap, List.length_cons]
  | case4 depth x text hopening hclosing ih =>
      rw [List.cons_append, closingOffset?.eq_4 _ _ _ hopening hclosing, ih h, hmap,
        List.length_cons]

theorem Balanced.afterGroup?_eq {body : List Char} (h : Balanced body) (back rest : List Char) :
    afterGroup? ⟨back, body ++ ')' :: rest⟩ = some ⟨')' :: (body.reverse ++ back), rest⟩ := by
  have hclosing : closingOffset? 1 (body ++ ')' :: rest) = some body.length := by
    have happend :=
      closingOffset?_append_of_settles (settles_zero_iff.mpr h) (')' :: rest) Int.one_pos
    simpa [closingOffset?] using happend
  have hreads : Cursor.Reads ⟨back, body ++ ')' :: rest⟩ (body ++ [')'])
      ⟨')' :: (body.reverse ++ back), rest⟩ := ⟨by simp, by simp⟩
  have hskip := hreads.skip_eq
  rw [List.length_append] at hskip
  simp only [afterGroup?, hclosing, Option.map_some]
  exact congrArg some hskip

/-! ### Stretches that are cut out -/

/-- The second text is the first one without some stretches, which are listed in their order. -/
inductive CutOut : List (List Char) → List Char → List Char → Prop
  | nil : CutOut [] [] []
  | keep (x : Char) {cuts : List (List Char)} {text left : List Char} (h : CutOut cuts text left) :
      CutOut cuts (x :: text) (x :: left)
  | cut (stretch : List Char) {cuts : List (List Char)} {text left : List Char}
      (h : CutOut cuts text left) : CutOut (stretch :: cuts) (stretch ++ text) left

namespace CutOut

variable {cuts : List (List Char)} {text left : List Char}

theorem append (piece : List Char) (h : CutOut cuts text left) :
    CutOut cuts (piece ++ text) (piece ++ left) := by
  induction piece with
  | nil => exact h
  | cons x piece ih => exact .keep x ih

theorem refl (text : List Char) : CutOut [] text text := by
  simpa using CutOut.nil.append text

/-- Stretches that close one parenthesis each leave a surplus of closing parentheses behind if they
open more than one. -/
theorem count_closing (h : CutOut cuts text left) (hcuts : ∀ cut ∈ cuts, cut.count ')' = 1) :
    left.count ')' + text.count '(' + cuts.length =
      left.count '(' + text.count ')' + cuts.flatten.count '(' := by
  induction h with
  | nil => rfl
  | keep x _ ih =>
      have hlater := ih hcuts
      simp only [List.count_cons]
      omega
  | cut stretch _ ih =>
      obtain ⟨hone, hcuts⟩ := List.forall_mem_cons.mp hcuts
      have hlater := ih hcuts
      simp only [List.count_append, List.length_cons, List.flatten_cons]
      omega

/-- Taking out balanced stretches neither makes nor breaks the balance. -/
theorem balanced_iff (h : CutOut cuts text left) (hcuts : ∀ cut ∈ cuts, Balanced cut) :
    Balanced text ↔ Balanced left := by
  have hfront : ∀ front, Balanced (front ++ text) ↔ Balanced (front ++ left) := by
    induction h with
    | nil => exact fun _ => Iff.rfl
    | keep x _ ih => exact fun front => by simpa using ih hcuts (front ++ [x])
    | cut stretch _ ih =>
        obtain ⟨hstretch, hcuts⟩ := List.forall_mem_cons.mp hcuts
        exact fun front => (hstretch.append_cut_iff front _).trans (ih hcuts front)
  exact hfront []

end CutOut

end ScriptGraph.Script

namespace ScriptGraph.Text

/-- What the matches of a rule in a text cover behind their bodies. -/
def Rule.cuts (r : Rule) (text : List Char) : List (List Char) :=
  (r.findAll (.start text)).map fun hit => hit.right.upTo hit.stop

end ScriptGraph.Text

namespace ScriptGraph.Script

open Text Name

theorem cutOut_reduceFrom {r : Rule} (hlead : ∀ piece, r.lead.Spells piece → piece = [])
    (hadvances : r.Advances) (left : List Char) (c : Cursor) :
    CutOut ((r.findAllFrom left c).map fun hit => hit.right.upTo hit.stop) c.rest
      (r.reduceFrom left c) := by
  fun_induction Rule.reduceFrom r left c with
  | case1 c => exact .refl c.rest
  | case2 y left c hit hhit ih =>
      obtain ⟨lead, trail, hspells, -, -, hreadsLead, hreadsBody, hreadsTrail⟩ :=
        Rule.exists_parts_of_hit? hhit
      obtain rfl := hlead lead hspells
      have hrest : c.rest = hit.body ++ (trail ++ hit.stop.rest) := by
        rw [hreadsLead.rest, hreadsBody.rest, hreadsTrail.rest, List.nil_append]
      simp only [Rule.findAllFrom, hhit, List.map_cons, hreadsTrail.upTo_eq, hrest]
      exact (ih.cut trail).append hit.body
  | case3 y left c hrest hhit =>
      obtain ⟨back, rest⟩ := c
      obtain rfl : rest = [] := hrest
      rw [hadvances.findAllFrom_nil]
      exact .nil
  | case4 y left c x rest hrest hhit ih =>
      obtain ⟨back, rest'⟩ := c
      obtain rfl : rest' = x :: rest := hrest
      simp only [Rule.findAllFrom, hhit]
      exact .keep x ih

theorem cutOut_reduce {r : Rule} (h : r ∈ listRules) (text : List Char) :
    CutOut (r.cuts text) text (r.reduce text) := by
  have hconsumes : ∀ r ∈ listRules, r.body.consumes = true := by
    simp only [listRules, List.forall_mem_cons, List.not_mem_nil, false_implies, implies_true]
    decide +kernel
  exact cutOut_reduceFrom (cutsBetweenTokens_of_mem_listRules h).lead
    (Rule.advances_of_consumes (hconsumes r h)) text (.start text)

theorem count_flatten_eq_length_iff {x : Char} {cuts : List (List Char)}
    (h : ∀ cut ∈ cuts, 1 ≤ cut.count x) :
    cuts.flatten.count x = cuts.length ↔ ∀ cut ∈ cuts, cut.count x = 1 := by
  have hle : ∀ cuts : List (List Char), (∀ cut ∈ cuts, 1 ≤ cut.count x) →
      cuts.length ≤ cuts.flatten.count x := by
    intro cuts h
    induction cuts with
    | nil => exact Nat.zero_le _
    | cons cut cuts ih =>
        obtain ⟨hcut, hcuts⟩ := List.forall_mem_cons.mp h
        have hlater := ih hcuts
        rw [List.flatten_cons, List.count_append, List.length_cons]
        omega
  induction cuts with
  | nil => simp
  | cons cut cuts ih =>
      obtain ⟨hcut, hcuts⟩ := List.forall_mem_cons.mp h
      have hlater := hle cuts hcuts
      rw [List.forall_mem_cons, List.flatten_cons, List.count_append, List.length_cons]
      constructor
      · intro heq
        exact ⟨by omega, (ih hcuts).mp (by omega)⟩
      · rintro ⟨hone, hall⟩
        have hrest := (ih hcuts).mpr hall
        omega

/-! ### Lists in parentheses -/

theorem settles_append_of_notMem {plain : List Char} (hopening : '(' ∉ plain)
    (hclosing : ')' ∉ plain) (depth : Nat) (rest : List Char) :
    settles depth (plain ++ rest) = settles depth rest := by
  induction plain with
  | nil => rfl
  | cons x plain ih =>
      obtain ⟨hx, hopening⟩ : '(' ≠ x ∧ '(' ∉ plain := by simpa using hopening
      obtain ⟨hx', hclosing⟩ : ')' ≠ x ∧ ')' ∉ plain := by simpa using hclosing
      rw [List.cons_append, settles, if_neg (Ne.symm hx), if_neg (Ne.symm hx'),
        ih hopening hclosing]

/-- The parentheses of a list that ends at its first closing parenthesis. -/
structure ClosesOnce (list : List Char) : Prop where
  closing : list.count ')' = 1
  opening : 1 ≤ list.count '('
  balanced : list.count '(' = 1 → Balanced list

theorem closesOnce_of_spells_list {accepts : Char → Bool} (haccepts : accepts ')' = false)
    {list : List Char}
    (h : (Pattern.seq blanks (.all [.char '(', .run accepts, .char ')'])).Spells list) :
    ClosesOnce list ∧ (accepts '(' = false → list.count '(' = 1) := by
  obtain ⟨space, inner, hspace, hinner, rfl⟩ := exists_of_spells_list h
  have hblank : ∀ x, isBlank x = false → x ∉ space := by
    intro x hx hmem
    rw [hspace x hmem] at hx
    cases hx
  have hopening : '(' ∉ space := hblank _ (by decide)
  have hclosing : ')' ∉ space := hblank _ (by decide)
  have hinside : ∀ x, accepts x = false → x ∉ inner := by
    intro x hx hmem
    rw [hinner x hmem] at hx
    cases hx
  have hend : ')' ∉ inner := hinside _ haccepts
  have hcount : (space ++ '(' :: inner ++ [')']).count '(' = inner.count '(' + 1 := by
    simp [List.count_eq_zero.mpr hopening]
  refine ⟨⟨?_, by omega, fun hone => ?_⟩, fun hflat => ?_⟩
  · simp [List.count_eq_zero.mpr hclosing, List.count_eq_zero.mpr hend]
  · have hflat : '(' ∉ inner := List.count_eq_zero.mp (by omega)
    rw [← settles_zero_iff, List.append_assoc, settles_append_of_notMem hopening hclosing,
      List.cons_append, settles, if_pos rfl, settles_append_of_notMem hflat hend]
    rfl
  · rw [hcount, List.count_eq_zero.mpr (hinside _ hflat)]

theorem closesOnce_of_mem_cuts {r : Rule} {accepts : Char → Bool}
    (htrail : r.trail = .seq blanks (.all [.char '(', .run accepts, .char ')']))
    (haccepts : accepts ')' = false) {text list : List Char} (h : list ∈ r.cuts text) :
    ClosesOnce list ∧ (accepts '(' = false → list.count '(' = 1) := by
  obtain ⟨hit, hhit, rfl⟩ := List.mem_map.mp h
  obtain ⟨-, hhere⟩ := Rule.exists_reads_of_mem_findAll hhit
  obtain ⟨lead, trail, -, -, hspells, -, -, hreads⟩ := Rule.exists_parts_of_hit? hhere
  rw [hreads.upTo_eq]
  exact closesOnce_of_spells_list haccepts (htrail ▸ hspells)

/-! ### Cleaning -/

theorem balanced_reduce_iff_of_flat {r : Rule} (hr : r ∈ listRules)
    (htrail : r.trail = .seq blanks flatList) (text : List Char) :
    (Balanced (r.reduce text) ↔ Balanced text) ∧
      (r.reduce text).count ')' + text.count '(' = (r.reduce text).count '(' + text.count ')' := by
  have hcut := cutOut_reduce hr text
  have hlists : ∀ list ∈ r.cuts text, ClosesOnce list ∧ list.count '(' = 1 := by
    intro list hlist
    obtain ⟨hcloses, hone⟩ := closesOnce_of_mem_cuts htrail rfl hlist
    exact ⟨hcloses, hone rfl⟩
  have hcount := hcut.count_closing fun list hlist => (hlists list hlist).1.closing
  have hflat := (count_flatten_eq_length_iff fun list hlist => (hlists list hlist).1.opening).mpr
    fun list hlist => (hlists list hlist).2
  have hbalanced := hcut.balanced_iff fun list hlist =>
    (hlists list hlist).1.balanced (hlists list hlist).2
  exact ⟨hbalanced.symm, by omega⟩

-- No parenthesis opens inside a column list, so taking the list out keeps the balance.
theorem balanced_dropInsertColumns_iff (text : List Char) :
    (Balanced (dropInsertColumns text) ↔ Balanced text) ∧
      (dropInsertColumns text).count ')' + text.count '(' =
        (dropInsertColumns text).count '(' + text.count ')' := by
  obtain ⟨hinsert, hinsertCount⟩ :=
    balanced_reduce_iff_of_flat (r := insertWithColumns) (by simp [listRules]) rfl text
  obtain ⟨hmerge, hmergeCount⟩ := balanced_reduce_iff_of_flat (r := mergeInsertWithColumns)
    (by simp [listRules]) rfl (insertWithColumns.reduce text)
  refine ⟨hmerge.trans hinsert, ?_⟩
  rw [dropInsertColumns]
  omega

def parameterLists (text : List Char) : List (List Char) :=
  typeWithParameters.cuts (dropCommentsAndLiterals text)

/-- If the parentheses are balanced when comments and literals are gone, they are balanced in the
cleaned script exactly if no parameter list has a parenthesis opened inside it.  Each one that is
opened inside a list leaves a closing parenthesis behind. -/
theorem balanced_clean_iff {text : List Char} (h : Balanced (dropCommentsAndLiterals text)) :
    (Balanced (clean text) ↔ ∀ list ∈ parameterLists text, list.count '(' = 1) ∧
      (clean text).count ')' + (parameterLists text).length =
        (clean text).count '(' + (parameterLists text).flatten.count '(' := by
  have hcut : CutOut (parameterLists text) (dropCommentsAndLiterals text)
      (dropTypeParameters (dropCommentsAndLiterals text)) :=
    cutOut_reduce (by simp [listRules]) _
  have hlists : ∀ list ∈ parameterLists text, ClosesOnce list := by
    intro list hlist
    exact (closesOnce_of_mem_cuts (r := typeWithParameters) rfl
      (by decide : ((')' : Char) != ')') = false) hlist).1
  have htypes := hcut.count_closing fun list hlist => (hlists list hlist).closing
  obtain ⟨hinserts, hcount⟩ :=
    balanced_dropInsertColumns_iff (dropTypeParameters (dropCommentsAndLiterals text))
  have hclosed := h.closed
  have hsurplus : (clean text).count ')' + (parameterLists text).length =
      (clean text).count '(' + (parameterLists text).flatten.count '(' := by
    rw [clean]
    omega
  refine ⟨⟨fun hbalanced => ?_, fun hone => ?_⟩, hsurplus⟩
  · -- Each list has an opening parenthesis, so the totals agree only if none has a second one.
    have heven := hbalanced.closed
    exact (count_flatten_eq_length_iff fun list hlist => (hlists list hlist).opening).mp (by omega)
  · exact hinserts.mpr ((hcut.balanced_iff fun list hlist =>
      (hlists list hlist).balanced (hone list hlist)).mp h)

theorem balanced_clean_iff_insert :
    let text := "INSERT INTO t (a, b) SELECT CAST(x AS DECIMAL (10,2)), f('(')".toList
    Balanced (dropCommentsAndLiterals text) ∧
      parameterLists text = [" (10,2)".toList] ∧ Balanced (clean text) := by
  intro text
  have h : Balanced (dropCommentsAndLiterals text) := by decide +kernel
  have hlists : parameterLists text = [" (10,2)".toList] := by decide +kernel
  refine ⟨h, hlists, (balanced_clean_iff h).1.mpr ?_⟩
  rw [hlists]
  decide

/-- A call inside the argument of a type that is also a function.  The derived table is taken to end
at the parenthesis that is left over, so its alias becomes a table. -/
theorem not_balanced_clean_nested :
    let view : DbObject := ⟨"v", .view, by decide⟩
    let text := "CREATE VIEW v AS SELECT a FROM (SELECT CHAR(ASCII(x)) c FROM t) d JOIN d"
    Balanced (dropCommentsAndLiterals text.toList) ∧ ¬ Balanced (clean text.toList) ∧
      parse text = .ok (some ⟨view, [⟨view, "t", .table, by decide⟩,
        ⟨view, "d", .table, by decide⟩]⟩) := by
  decide +kernel

end ScriptGraph.Script
