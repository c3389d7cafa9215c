import ScriptGraph.Graph.DataGraph
import ScriptGraph.Proofs.Number.Double

/-!
# Values as keys

Two simple values are the same key exactly if they are numbers with one value, of whatever kinds, or
the same value.  So the names of nodes are compared by an equivalence relation, and a name counts as
present if another name for the same node does.
-/

namespace ScriptGraph

namespace Value

/-- The value of a finite number; truth values count as zero and one. -/
def number? : Value → Option ℚ
  | bool b => some (if b then 1 else 0)
  | int n => some n
  | float x => if x.isFinite then some x.value else none
  | _ => none

def isSimple : Value → Bool
  | list _ => false
  | map _ => false
  | _ => true

theorem number?_float_eq_some_iff {x : Double} {q : ℚ} :
    (float x).number? = some q ↔ x.isFinite = true ∧ x.value = q := by
  simp [number?]

theorem number?_bool (b : Bool) : (bool b).number? = some ((if b then 1 else 0 : Int) : ℚ) := by
  cases b <;> simp [number?]

theorem eqInt_iff {n : Int} {v : Value} : v.eqInt n = true ↔ v.number? = some (n : ℚ) := by
  cases v with
  | bool b =>
      rw [number?_bool, Option.some_inj, Int.cast_inj, eqInt, beq_iff_eq, eq_comm]
  | int m => rw [number?, Option.some_inj, Int.cast_inj, eqInt, beq_iff_eq, eq_comm]
  | float x => rw [number?_float_eq_some_iff, eqInt, Double.eqInt_iff]
  | _ => simp [eqInt, number?]

theorem exists_number?_iff {x : Double} {n : Int} {v : Value} (h : v.number? = some (n : ℚ)) :
    x.eqInt n = true ↔ ∃ q, (float x).number? = some q ∧ v.number? = some q := by
  simp only [h, Option.some_inj, exists_eq_right', number?_float_eq_some_iff, Double.eqInt_iff]

/-- What is the same key as a number has its value. -/
theorem same_as_number_iff {v w : Value} {q : ℚ} (h : v.number? = some q) :
    ((∃ q, v.number? = some q ∧ w.number? = some q) ∨ v.isSimple = true ∧ v = w) ↔
      w.number? = some q := by
  constructor
  · rintro (⟨q', hv, hw⟩ | ⟨-, rfl⟩)
    · rw [hw, ← hv, h]
    · exact h
  · intro hw
    exact .inl ⟨q, h, hw⟩

theorem sameKey_float_iff {x y : Double} :
    (float x).sameKey (float y) = true ↔
      (∃ q, (float x).number? = some q ∧ (float y).number? = some q) ∨ x = y := by
  simp only [sameKey, Bool.or_eq_true, beq_iff_eq, Double.eqValue_iff, number?_float_eq_some_iff]
  constructor
  · rintro (rfl | ⟨-, rfl | ⟨hx, hy, hvalue⟩⟩)
    · exact .inr rfl
    · exact .inr rfl
    · exact .inl ⟨_, ⟨hx, rfl⟩, hy, hvalue.symm⟩
  · rintro (⟨q, ⟨hx, rfl⟩, hy, hvalue⟩ | rfl)
    · exact .inr ⟨Double.isNaN_eq_false hx, .inr ⟨hx, hy, hvalue.symm⟩⟩
    · exact .inl rfl

/-- Values are the same key if they are numbers with one value or the same simple value. -/
theorem sameKey_iff {v w : Value} :
    v.sameKey w = true ↔
      (∃ q, v.number? = some q ∧ w.number? = some q) ∨ v.isSimple = true ∧ v = w := by
  cases v with
  | bool b =>
      have hsame : (bool b).sameKey w = w.eqInt (if b then 1 else 0) := by cases w <;> rfl
      rw [hsame, eqInt_iff, same_as_number_iff (number?_bool b)]
  | int n =>
      have hsame : (int n).sameKey w = w.eqInt n := by cases w <;> rfl
      rw [hsame, eqInt_iff, same_as_number_iff rfl]
  | float x =>
      cases w with
      | float y => simp [sameKey_float_iff, isSimple]
      | bool b => simpa [sameKey, eqDouble] using exists_number?_iff (number?_bool b)
      | int n => simpa [sameKey, eqDouble] using exists_number?_iff (v := int n) rfl
      | _ => simp [sameKey, eqDouble, number?]
  | null | text s | bytes data | ext code data | timestamp s n | list _ | map _ =>
      cases w <;> simp [sameKey, number?, isSimple]

theorem sameKey_symm {v w : Value} (h : v.sameKey w = true) : w.sameKey v = true := by
  rw [sameKey_iff] at h ⊢
  rcases h with ⟨q, hv, hw⟩ | ⟨hsimple, rfl⟩
  · exact .inl ⟨q, hw, hv⟩
  · exact .inr ⟨hsimple, rfl⟩

theorem sameKey_trans {u v w : Value} (h : u.sameKey v = true) (h' : v.sameKey w = true) :
    u.sameKey w = true := by
  rw [sameKey_iff] at h h' ⊢
  rcases h with ⟨q, hu, hv⟩ | ⟨hsimple, rfl⟩
  · rcases h' with ⟨q', hv', hw⟩ | ⟨-, rfl⟩
    · rw [hv] at hv'
      exact .inl ⟨q, hu, hv' ▸ hw⟩
    · exact .inl ⟨q, hu, hv⟩
  · exact h'

theorem sameKey_self {v : Value} (h : v.isSimple = true) : v.sameKey v = true :=
  sameKey_iff.mpr (.inr ⟨h, rfl⟩)

theorem isTruthy_of_number? {v : Value} {q : ℚ} (h : v.number? = some q) :
    v.isTruthy = !v.eqInt 0 := by
  cases v with
  | bool b => cases b <;> rfl
  | int n => simp [isTruthy, eqInt, bne, eq_comm]
  | float x => rfl
  | _ => simp [number?] at h

theorem isTruthy_congr {v w : Value} (h : v.sameKey w = true) : v.isTruthy = w.isTruthy := by
  rcases sameKey_iff.mp h with ⟨q, hv, hw⟩ | ⟨-, rfl⟩
  · rw [isTruthy_of_number? hv, isTruthy_of_number? hw, Bool.eq_iff_iff]
    simp only [Bool.not_eq_true', ← Bool.not_eq_true, eqInt_iff, hv, hw]
  · rfl

end Value

instance : PartialEquivBEq NodeId where
  symm := Value.sameKey_symm
  trans := Value.sameKey_trans

end ScriptGraph
