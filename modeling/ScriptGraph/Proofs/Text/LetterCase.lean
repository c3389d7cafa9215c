import Mathlib.Data.List.Basic
import ScriptGraph.Proofs.Text.Characters
import ScriptGraph.Text.UpperCase

/-!
# Texts in small letters

Writing the ASCII letters of a text small moves no place in it.  A pattern whose classes of
characters do not tell the two cases of a letter apart matches in the text with small letters at the
same places and in the same order, and so does a rule made of such patterns.
-/

namespace ScriptGraph.Text

/-! ### Characters -/

theorem isUpper_val_iff {c : Char} :
    (c.val ≥ 'A'.val ∧ c.val ≤ 'Z'.val) ↔ (65 ≤ c.toNat ∧ c.toNat ≤ 90) := by
  rw [ge_iff_le, UInt32.le_iff_toNat_le, UInt32.le_iff_toNat_le]
  rfl

theorem toLower_eq_self {c : Char} (h : ¬ (65 ≤ c.toNat ∧ c.toNat ≤ 90)) : c.toLower = c :=
  dif_neg (mt isUpper_val_iff.mp h)

theorem toLower_of_upper {c : Char} (h : 65 ≤ c.toNat ∧ c.toNat ≤ 90) :
    c.toLower = Char.ofNat (c.toNat + 32) := by
  refine (dif_pos (isUpper_val_iff.mpr h)).trans ?_
  apply Char.ext
  apply UInt32.toNat_inj.mp
  have hnat : (Char.ofNat (c.toNat + 32)).val.toNat = c.toNat + 32 :=
    toNat_ofNat_of_isValidChar (.inl (by omega))
  have hval : c.val.toNat = c.toNat := rfl
  have hshift : ('a'.val - 'A'.val).toNat = 32 := by decide
  rw [hnat, UInt32.toNat_add]
  omega

/-- A function that does not tell the two cases of an ASCII letter apart. -/
def IgnoresCase {α : Type} (f : Char → α) : Prop :=
  ∀ c : Char, f c.toLower = f c

theorem ignoresCase_of_letters {α : Type} {f : Char → α}
    (h : ∀ n < 26, f (Char.ofNat (n + 97)) = f (Char.ofNat (n + 65))) : IgnoresCase f := by
  intro c
  by_cases hupper : 65 ≤ c.toNat ∧ c.toNat ≤ 90
  · have hletter := h (c.toNat - 65) (by omega)
    have hlow : c.toNat - 65 + 97 = c.toNat + 32 := by omega
    have hhigh : c.toNat - 65 + 65 = c.toNat := by omega
    rw [hlow, hhigh, Char.ofNat_toNat] at hletter
    rw [toLower_of_upper hupper, hletter]
  · rw [toLower_eq_self hupper]

@[simp]
theorem ignoresCase_isWord : IgnoresCase isWord := ignoresCase_of_letters (by decide)

@[simp]
theorem ignoresCase_isBlank : IgnoresCase isBlank := ignoresCase_of_letters (by decide)

theorem ignoresCase_isAsciiLetter : IgnoresCase isAsciiLetter := ignoresCase_of_letters (by decide)

theorem ignoresCase_plainLetter : IgnoresCase plainLetter := ignoresCase_of_letters (by decide)

@[simp]
theorem ignoresCase_sameLetter (x : Char) : IgnoresCase (sameLetter x) := by
  intro c
  rw [sameLetter, sameLetter, ignoresCase_plainLetter]

theorem toLower_eq_iff {x : Char} (hx : x.isAlpha = false) (c : Char) : c.toLower = x ↔ c = x := by
  by_cases hupper : 65 ≤ c.toNat ∧ c.toNat ≤ 90
  · have hletter : c.isAlpha = true := by
      have hcapital : c.isUpper = true := decide_eq_true (isUpper_val_iff.mpr hupper)
      exact Bool.or_eq_true_iff.mpr (.inl hcapital)
    have hlow : c.toLower.isAlpha = true := by
      have hignores : IgnoresCase Char.isAlpha := ignoresCase_of_letters (by decide)
      rw [hignores, hletter]
    constructor
    · rintro rfl
      simp [hlow] at hx
    · rintro rfl
      simp [hletter] at hx
  · rw [toLower_eq_self hupper]

@[simp]
theorem beq_toLower {x : Char} (hx : x.isAlpha = false) (c : Char) :
    (c.toLower == x) = (c == x) := by
  rw [Bool.eq_iff_iff, beq_iff_eq, beq_iff_eq, toLower_eq_iff hx]

@[simp]
theorem bne_toLower {x : Char} (hx : x.isAlpha = false) (c : Char) :
    (c.toLower != x) = (c != x) :=
  congrArg (!·) (beq_toLower hx c)

theorem any_head?_toLower {accepts : Char → Bool} (h : IgnoresCase accepts)
    (text : List Char) : (text.map Char.toLower).head?.any accepts = text.head?.any accepts := by
  cases text with
  | nil => rfl
  | cons x rest => exact h x

/-! ### Texts -/

theorem exists_of_map_toLower_eq_cons {x : Char} (hx : x.isAlpha = false)
    {text later : List Char} (h : text.map Char.toLower = x :: later) :
    ∃ rest, text = x :: rest ∧ rest.map Char.toLower = later := by
  obtain ⟨y, rest, rfl, hy, hrest⟩ := List.map_eq_cons_iff.mp h
  obtain rfl := (toLower_eq_iff hx y).mp hy
  exact ⟨rest, rfl, hrest⟩

theorem map_toLower_eq_singleton {x : Char} (hx : x.isAlpha = false) (text : List Char) :
    text.map Char.toLower = [x] ↔ text = [x] := by
  constructor
  · intro h
    obtain ⟨rest, rfl, hrest⟩ := exists_of_map_toLower_eq_cons hx h
    rw [List.map_eq_nil_iff.mp hrest]
  · rintro rfl
    exact congrArg ([·]) ((toLower_eq_iff hx x).mpr rfl)

theorem getLast?_toLower {x : Char} (hx : x.isAlpha = false) (text : List Char) :
    ((text.map Char.toLower).getLast? == some x) = (text.getLast? == some x) := by
  rw [List.getLast?_map]
  cases text.getLast? with
  | none => rfl
  | some y => exact beq_toLower hx y

theorem dropWhile_toLower {accepts : Char → Bool} (h : IgnoresCase accepts)
    (text : List Char) :
    (text.map Char.toLower).dropWhile accepts = (text.dropWhile accepts).map Char.toLower := by
  induction text with
  | nil => rfl
  | cons x rest ih =>
      rw [List.map_cons, List.dropWhile_cons, List.dropWhile_cons, h]
      split
      · exact ih
      · rfl

theorem trimStart_toLower (text : List Char) :
    trimStart (text.map Char.toLower) = (trimStart text).map Char.toLower :=
  dropWhile_toLower ignoresCase_isBlank text

theorem trim_toLower (text : List Char) :
    trim (text.map Char.toLower) = (trim text).map Char.toLower := by
  rw [trim, trimStart_toLower, trimEnd, ← List.map_reverse,
    dropWhile_toLower ignoresCase_isBlank, ← List.map_reverse]
  rfl

theorem allBlank_toLower (text : List Char) : allBlank (text.map Char.toLower) = allBlank text := by
  rw [allBlank, List.all_map]
  exact congrArg text.all (funext ignoresCase_isBlank)

theorem lower_toLower (text : List Char) : lower (text.map Char.toLower) = lower text := by
  have hignores : IgnoresCase lowerChar := ignoresCase_of_letters (by decide)
  rw [lower, List.map_map]
  exact List.map_congr_left fun c _ => hignores c

theorem upper_toLower (text : List Char) : upper (text.map Char.toLower) = upper text := by
  have hignores : IgnoresCase upperChar := ignoresCase_of_letters (by decide)
  rw [upper, List.flatMap_map]
  exact List.flatMap_congr fun c _ => hignores c

theorem fold_toLower (text : List Char) : fold (text.map Char.toLower) = fold text := by
  have hignores : IgnoresCase foldChar := ignoresCase_of_letters (by decide)
  rw [fold, List.flatMap_map]
  exact List.flatMap_congr fun c _ => hignores c

/-! ### Places -/

namespace Cursor

/-- The same place in the text with small letters. -/
def toLower (c : Cursor) : Cursor := ⟨c.back.map Char.toLower, c.rest.map Char.toLower⟩

theorem toLower_start (text : List Char) :
    (start text).toLower = start (text.map Char.toLower) := rfl

@[simp] theorem offset_toLower (c : Cursor) : c.toLower.offset = c.offset := by
  simp [toLower, offset]

theorem skip_toLower (n : Nat) (c : Cursor) : c.toLower.skip n = (c.skip n).toLower := by
  fun_induction skip n c with
  | case1 n back x rest ih => exact ih
  | case2 n c hstop =>
      obtain ⟨back, rest⟩ := c
      cases n with
      | zero => rfl
      | succ n =>
          cases rest with
          | nil => rfl
          | cons x rest => exact (hstop n back x rest rfl rfl).elim

theorem upTo_toLower (c d : Cursor) : c.toLower.upTo d.toLower = (c.upTo d).map Char.toLower := by
  simp [upTo, toLower, List.map_take]

theorem endingAt_toLower (c d : Cursor) :
    c.toLower.endingAt d.toLower = (c.endingAt d).toLower := by
  rw [endingAt, upTo_toLower]
  rfl

end Cursor

/-! ### Patterns -/

namespace Pattern

/-- A pattern none of whose classes of characters tells the cases of a letter apart. -/
@[simp]
def Caseless : Pattern → Prop
  | empty => True
  | one accepts => IgnoresCase accepts
  | run accepts => IgnoresCase accepts
  | seq p q => p.Caseless ∧ q.Caseless
  | alt p q => p.Caseless ∧ q.Caseless
  | many p => p.Caseless
  | wordEdge => True
  | notAfter rejects => IgnoresCase rejects
  | notBefore p => p.Caseless
  | atEnd => True

@[simp]
theorem caseless_char {x : Char} (hx : x.isAlpha = false) : (char x).Caseless :=
  beq_toLower hx

@[simp]
theorem caseless_run1_iff (accepts : Char → Bool) :
    (run1 accepts).Caseless ↔ IgnoresCase accepts := by
  simp [run1]

@[simp]
theorem caseless_optional_iff (p : Pattern) : (optional p).Caseless ↔ p.Caseless := by
  simp [optional]

@[simp]
theorem caseless_all_iff (ps : List Pattern) : (all ps).Caseless ↔ ∀ p ∈ ps, p.Caseless := by
  fun_induction all ps with
  | case1 => simp
  | case2 p => simp
  | case3 p ps _ ih => simp [ih]

@[simp]
theorem caseless_any_iff (ps : List Pattern) : (any ps).Caseless ↔ ∀ p ∈ ps, p.Caseless := by
  fun_induction any ps with
  | case1 => simp
  | case2 p => simp
  | case3 p ps _ ih => simp [ih]

@[simp]
theorem caseless_word (letters : String) : (word letters).Caseless := by
  rw [word, caseless_all_iff]
  intro p hp
  obtain ⟨x, -, rfl⟩ := List.mem_map.mp hp
  exact ignoresCase_sameLetter x

@[simp]
theorem caseless_startingWord (letters : String) : (startingWord letters).Caseless :=
  ⟨trivial, caseless_word letters⟩

theorem runEnds_toLower {accepts : Char → Bool} (h : IgnoresCase accepts)
    (back rest : List Char) (nearer : List Cursor) :
    runEnds accepts (back.map Char.toLower) (rest.map Char.toLower) (nearer.map Cursor.toLower) =
      (runEnds accepts back rest nearer).map Cursor.toLower := by
  induction rest generalizing back nearer with
  | nil => rfl
  | cons x rest ih =>
      have hlater := ih (x :: back) (⟨back, x :: rest⟩ :: nearer)
      rw [List.map_cons, runEnds, runEnds, h]
      split
      · exact hlater
      · rfl

theorem manyEnds_toLower {step : Cursor → List Cursor}
    (h : ∀ c : Cursor, step c.toLower = (step c).map Cursor.toLower) (left : List Char)
    (c : Cursor) :
    manyEnds step (left.map Char.toLower) c.toLower =
      (manyEnds step left c).map Cursor.toLower := by
  induction left generalizing c with
  | nil => rfl
  | cons x left ih =>
      simp only [List.map_cons, manyEnds, h, List.map_append, List.flatMap_map, List.map_flatMap,
        ih]
      rfl

theorem isWordEdge_toLower (c : Cursor) : isWordEdge c.toLower = isWordEdge c := by
  simp only [isWordEdge, Cursor.toLower, any_head?_toLower ignoresCase_isWord]

theorem ends_toLower {p : Pattern} (h : p.Caseless) (c : Cursor) :
    p.ends c.toLower = (p.ends c).map Cursor.toLower := by
  induction p generalizing c with
  | empty => rfl
  | one accepts =>
      obtain ⟨back, rest⟩ := c
      cases rest with
      | nil => rfl
      | cons x rest =>
          simp only [Cursor.toLower, List.map_cons, ends, h x]
          split <;> rfl
  | run accepts => exact runEnds_toLower h c.back c.rest []
  | seq p q ihp ihq =>
      obtain ⟨hp, hq⟩ := h
      simp only [ends, ihp hp, List.flatMap_map, ihq hq, List.map_flatMap]
  | alt p q ihp ihq =>
      obtain ⟨hp, hq⟩ := h
      simp only [ends, ihp hp, ihq hq, List.map_append]
  | many p ih => exact manyEnds_toLower (ih h) c.rest c
  | wordEdge =>
      simp only [ends, isWordEdge_toLower]
      split <;> rfl
  | notAfter rejects =>
      have hback : c.toLower.back.head?.any rejects = c.back.head?.any rejects :=
        any_head?_toLower h c.back
      simp only [ends, hback]
      split <;> rfl
  | notBefore p ih =>
      simp only [ends, ih h, List.isEmpty_map]
      split <;> rfl
  | atEnd =>
      have hrest : c.toLower.rest.isEmpty = c.rest.isEmpty := List.isEmpty_map
      simp only [ends, hrest]
      split <;> rfl

theorem occursIn_toLower {p : Pattern} (h : p.Caseless) (text : List Char) :
    p.occursIn (text.map Char.toLower) = p.occursIn text := by
  have hfrom : ∀ back rest : List Char,
      p.occursFrom (back.map Char.toLower) (rest.map Char.toLower) = p.occursFrom back rest := by
    have hmatches : ∀ c : Cursor, p.matchesAt c.toLower = p.matchesAt c := by
      intro c
      simp only [matchesAt, ends_toLower h, List.isEmpty_map]
    intro back rest
    induction rest generalizing back with
    | nil => exact hmatches ⟨back, []⟩
    | cons x rest ih =>
        have hlater := ih (x :: back)
        simp only [List.map_cons] at hlater
        rw [List.map_cons, occursFrom, occursFrom, hlater]
        exact congrArg (· || _) (hmatches ⟨back, x :: rest⟩)
  exact hfrom [] text

end Pattern

/-! ### Rules -/

namespace Hit

def toLower (h : Hit) : Hit := ⟨h.start.toLower, h.left.toLower, h.right.toLower, h.stop.toLower⟩

theorem body_toLower (h : Hit) : h.toLower.body = h.body.map Char.toLower :=
  Cursor.upTo_toLower h.left h.right

end Hit

namespace Rule

/-- A rule none of whose classes of characters tells the cases of a letter apart. -/
structure Caseless (r : Rule) : Prop where
  lead : r.lead.Caseless
  body : r.body.Caseless
  trail : r.trail.Caseless

variable {r : Rule}

theorem hits_toLower (h : r.Caseless) (c : Cursor) :
    r.hits c.toLower = (r.hits c).map Hit.toLower := by
  simp only [hits, Pattern.ends_toLower h.lead, Pattern.ends_toLower h.body,
    Pattern.ends_toLower h.trail, List.flatMap_map, List.map_flatMap, List.map_map]
  rfl

theorem hit?_toLower (h : r.Caseless) (c : Cursor) :
    r.hit? c.toLower = (r.hit? c).map Hit.toLower := by
  rw [hit?, hits_toLower h, List.head?_map]
  rfl

theorem find?_toLower (h : r.Caseless) (c : Cursor) :
    r.find? c.toLower = (r.find? c).map Hit.toLower := by
  have hfrom : ∀ (left : List Char) (c : Cursor),
      r.findFrom (left.map Char.toLower) c.toLower = (r.findFrom left c).map Hit.toLower := by
    intro left
    induction left with
    | nil => exact hit?_toLower h
    | cons x left ih =>
        intro c
        rw [List.map_cons, findFrom, findFrom, hit?_toLower h]
        cases r.hit? c with
        | some hit => rfl
        | none =>
            simp only [Option.map_none, Cursor.skip_toLower]
            exact ih (c.skip 1)
  exact hfrom c.rest c

theorem findAll_toLower (h : r.Caseless) (c : Cursor) :
    r.findAll c.toLower = (r.findAll c).map Hit.toLower := by
  have hfrom : ∀ (left : List Char) (c : Cursor),
      r.findAllFrom (left.map Char.toLower) c.toLower = (r.findAllFrom left c).map Hit.toLower := by
    intro left
    induction left with
    | nil => intro c; rfl
    | cons x left ih =>
        intro c
        rw [List.map_cons, findAllFrom, findAllFrom, hit?_toLower h]
        cases r.hit? c with
        | some hit => exact congrArg (hit.toLower :: ·) (ih hit.stop)
        | none =>
            simp only [Option.map_none, Cursor.skip_toLower]
            exact ih (c.skip 1)
  exact hfrom c.rest c

theorem reduce_toLower (h : r.Caseless) (text : List Char) :
    r.reduce (text.map Char.toLower) = (r.reduce text).map Char.toLower := by
  have hfrom : ∀ (left : List Char) (c : Cursor),
      r.reduceFrom (left.map Char.toLower) c.toLower = (r.reduceFrom left c).map Char.toLower := by
    intro left
    induction left with
    | nil => intro c; rfl
    | cons y left ih =>
        rintro ⟨back, rest⟩
        rw [List.map_cons, reduceFrom, reduceFrom, hit?_toLower h]
        cases r.hit? ⟨back, rest⟩ with
        | some hit =>
            have hlater := ih hit.stop
            simp only [Option.map_some, Hit.body_toLower, List.map_append, ← hlater]
            rfl
        | none =>
            cases rest with
            | nil => rfl
            | cons x rest => exact congrArg (x.toLower :: ·) (ih ⟨x :: back, rest⟩)
  exact hfrom text (.start text)

end Rule

end ScriptGraph.Text
