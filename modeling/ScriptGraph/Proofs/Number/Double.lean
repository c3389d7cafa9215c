import Mathlib
import ScriptGraph.Number.Double

/-!
# Values of doubles

A finite double has a rational value.  Comparing a double with an integer compares their values, and
two finite doubles with one value are the same double or two zeros.
-/

namespace ScriptGraph.Double

def value (x : Double) : ℚ :=
  (if x.isNegative then -1 else 1) * (x.magnitude.1 / x.magnitude.2)

theorem magnitude_den_pos (x : Double) : 0 < x.magnitude.2 := by
  unfold magnitude
  split
  · exact Nat.one_pos
  · exact Nat.pow_pos (by decide)

theorem magnitude_eq (x : Double) :
    (x.magnitude.1 / x.magnitude.2 : ℚ) = x.significand * 2 ^ x.power := by
  unfold magnitude
  split
  · rename_i hpower
    have hpow : (2 : ℚ) ^ x.power = 2 ^ x.power.toNat := by
      rw [← zpow_natCast, Int.toNat_of_nonneg hpower]
    simp [Nat.pow_eq, hpow]
  · rename_i hpower
    have hpow : (2 : ℚ) ^ x.power = (2 ^ (-x.power).toNat)⁻¹ := by
      rw [← zpow_natCast, Int.toNat_of_nonneg (by omega), zpow_neg, inv_inv]
    simp [Nat.pow_eq, hpow, div_eq_mul_inv]

theorem value_eq (x : Double) :
    x.value = (if x.isNegative then -1 else 1) * (x.significand * 2 ^ x.power) := by
  rw [value, magnitude_eq]

/-! ### Integers -/

theorem value_eq_intCast_iff {x : Double} {n : Int} :
    x.value = n ↔ (if x.isNegative then -1 else 1) * (x.magnitude.1 : Int) = n * x.magnitude.2 := by
  have hden : (x.magnitude.2 : ℚ) ≠ 0 := Nat.cast_ne_zero.mpr x.magnitude_den_pos.ne'
  rw [value, ← mul_div_assoc, div_eq_iff hden, ← @Int.cast_inj ℚ]
  split <;> push_cast <;> rfl

/-- A double is an integer exactly if it has the integer's value. -/
theorem eqInt_iff {x : Double} {n : Int} : x.eqInt n = true ↔ x.isFinite = true ∧ x.value = n := by
  have hden : (0 : Int) < x.magnitude.2 := by exact_mod_cast x.magnitude_den_pos
  have habs : ((n.natAbs * x.magnitude.2 : Nat) : Int) = |n| * x.magnitude.2 := by simp
  rw [value_eq_intCast_iff]
  simp only [eqInt, Bool.and_eq_true, Bool.or_eq_true, beq_iff_eq, and_congr_right_iff]
  intro _
  rw [← Int.natCast_inj, habs]
  rcases lt_trichotomy n 0 with hneg | rfl | hpos
  · have hprod : n * x.magnitude.2 < 0 := mul_neg_of_neg_of_pos hneg hden
    rw [abs_of_neg hneg, neg_mul]
    cases x.isNegative <;> simp [hneg, hneg.ne] <;> omega
  · cases x.isNegative <;> simp
  · have hprod : 0 < n * x.magnitude.2 := mul_pos hpos hden
    rw [abs_of_pos hpos]
    cases x.isNegative <;> simp [hpos.le, hpos.ne']
    omega

/-! ### One double for a value -/

theorem significand_lt (x : Double) : x.significand < 2 ^ 53 := by
  have hfraction : x.fractionField < 2 ^ 52 := Nat.mod_lt _ (by decide)
  unfold significand
  split <;> omega

theorem le_significand {x : Double} (h : x.exponentField ≠ 0) : 2 ^ 52 ≤ x.significand := by
  rw [significand, if_neg h]
  omega

theorem ext_fields {x y : Double} (hsign : x.isNegative = y.isNegative)
    (hexponent : x.exponentField = y.exponentField)
    (hfraction : x.fractionField = y.fractionField) : x = y := by
  have hx := x.word.toNat_lt
  have hy := y.word.toNat_lt
  have hword : x.word.toNat = y.word.toNat := by
    simp only [isNegative, exponentField, fractionField, decide_eq_decide] at *
    omega
  exact congrArg Double.mk (UInt64.toNat_inj.mp hword)

theorem value_eq_zero_iff {x : Double} : x.value = 0 ↔ x.significand = 0 := by
  have hsign : (if x.isNegative then -1 else 1 : ℚ) ≠ 0 := by split <;> norm_num
  have hpow : (2 : ℚ) ^ x.power ≠ 0 := zpow_ne_zero _ two_ne_zero
  rw [value_eq, mul_eq_zero, mul_eq_zero, or_iff_right hsign, or_iff_left hpow, Nat.cast_eq_zero]

theorem value_neg_iff {x : Double} (h : x.significand ≠ 0) :
    x.value < 0 ↔ x.isNegative = true := by
  have hpos : (0 : ℚ) < x.significand * 2 ^ x.power := by positivity
  rw [value_eq]
  cases x.isNegative
  · simpa using hpos.le
  · simpa using hpos

theorem abs_value (x : Double) : |x.value| = x.significand * 2 ^ x.power := by
  have hnonneg : (0 : ℚ) ≤ x.significand * 2 ^ x.power := by positivity
  rw [value_eq, abs_mul, abs_of_nonneg hnonneg]
  split <;> simp

/-- A significand is less than twice any significand of a greater power. -/
theorem power_le_of_magnitude_eq {x y : Double}
    (h : (x.significand * 2 ^ x.power : ℚ) = y.significand * 2 ^ y.power) : y.power ≤ x.power := by
  by_contra hlt
  obtain ⟨k, hk⟩ : ∃ k : Nat, y.power = x.power + (k + 1 : Nat) :=
    ⟨(y.power - x.power - 1).toNat, by omega⟩
  have hnormal : y.exponentField ≠ 0 := by
    simp only [power] at hlt
    omega
  have hpow : (2 : ℚ) ^ x.power ≠ 0 := zpow_ne_zero _ two_ne_zero
  have hscaled : (x.significand : ℚ) = y.significand * 2 ^ (k + 1) := by
    rw [hk, zpow_add₀ two_ne_zero, zpow_natCast, ← mul_assoc, mul_right_comm] at h
    exact mul_right_cancel₀ hpow h
  have hnat : x.significand = y.significand * 2 ^ (k + 1) := by exact_mod_cast hscaled
  have hlow := le_significand hnormal
  have hhigh := x.significand_lt
  have htwo : 2 ≤ 2 ^ (k + 1) := by
    have hone : 1 ≤ 2 ^ k := Nat.one_le_two_pow
    omega
  have hprod := Nat.mul_le_mul hlow htwo
  omega

theorem significand_eq_of_value_eq {x y : Double} (h : x.value = y.value) :
    x.power = y.power ∧ x.significand = y.significand := by
  have hmagnitude : (x.significand * 2 ^ x.power : ℚ) = y.significand * 2 ^ y.power := by
    rw [← abs_value, ← abs_value, h]
  have hpower : x.power = y.power :=
    le_antisymm (power_le_of_magnitude_eq hmagnitude.symm) (power_le_of_magnitude_eq hmagnitude)
  have hpow : (2 : ℚ) ^ y.power ≠ 0 := zpow_ne_zero _ two_ne_zero
  rw [hpower] at hmagnitude
  exact ⟨hpower, by exact_mod_cast mul_right_cancel₀ hpow hmagnitude⟩

theorem fields_eq_of_significand_eq {x y : Double} (hpower : x.power = y.power)
    (hsignificand : x.significand = y.significand) :
    x.exponentField = y.exponentField ∧ x.fractionField = y.fractionField := by
  have hx : x.fractionField < 2 ^ 52 := Nat.mod_lt _ (by decide)
  have hy : y.fractionField < 2 ^ 52 := Nat.mod_lt _ (by decide)
  simp only [power] at hpower
  unfold significand at hsignificand
  split at hsignificand <;> split at hsignificand <;> omega

/-- Two doubles with one value are the same, unless they are zeros. -/
theorem eq_of_value_eq {x y : Double} (h : x.value = y.value) (hx : x.significand ≠ 0) : x = y := by
  obtain ⟨hpower, hsignificand⟩ := significand_eq_of_value_eq h
  obtain ⟨hexponent, hfraction⟩ := fields_eq_of_significand_eq hpower hsignificand
  refine ext_fields ?_ hexponent hfraction
  rw [Bool.eq_iff_iff, ← value_neg_iff hx, h, value_neg_iff (hsignificand ▸ hx)]

theorem isNaN_eq_false {x : Double} (h : x.isFinite = true) : x.isNaN = false := by
  simp only [isFinite, decide_eq_true_eq] at h
  simp [isNaN, h.ne]

/-- Doubles other than a NaN are equal if they are the same or have one value. -/
theorem eqValue_iff {x y : Double} :
    x.eqValue y = true ↔ x.isNaN = false ∧
      (x = y ∨ x.isFinite = true ∧ y.isFinite = true ∧ x.value = y.value) := by
  simp only [eqValue, Bool.and_eq_true, Bool.or_eq_true, Bool.not_eq_true', beq_iff_eq, and_assoc]
  refine and_congr_right fun _ => ⟨Or.imp_right ?_, ?_⟩
  · rintro ⟨hx, hy, hzero, hzero'⟩
    exact ⟨hx, hy, by rw [value_eq_zero_iff.mpr hzero, value_eq_zero_iff.mpr hzero']⟩
  · rintro (rfl | ⟨hx, hy, hvalue⟩)
    · exact .inl rfl
    · by_cases hzero : x.significand = 0
      · exact .inr ⟨hx, hy, hzero, (significand_eq_of_value_eq hvalue).2 ▸ hzero⟩
      · exact .inl (eq_of_value_eq hvalue hzero)

end ScriptGraph.Double
