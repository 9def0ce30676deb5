import FormulaEditor.Proofs.Decimal.Layout
/-! Decimals in the order of their values. A decimal of few digits does not lie between neighbours
of more digits, and the point tells between which powers of ten a decimal lies. -/
namespace FormulaEditor

def withSign (negative : Bool) (x : ℚ) : ℚ := if negative then -x else x

@[simp] theorem abs_withSign (negative : Bool) (x : ℚ) : |withSign negative x| = |x| := by
  cases negative <;> simp [withSign]

theorem withSign_inj {negative : Bool} {x y : ℚ} :
    withSign negative x = withSign negative y ↔ x = y := by
  cases negative <;> simp [withSign]

namespace Decimal

/-- The number that is spelled by a sign, whole digits, a fraction and an exponent. -/
def spelledValue (negative : Bool) (whole fraction : List Char) (exponent : Option ℤ) : ℚ :=
  withSign negative
    (Nat.ofDigitChars 10 (whole ++ fraction) 0 * 10 ^ (exponent.getD 0 - fraction.length))

theorem spelledValue_eq (negative : Bool) (whole fraction : List Char) (exponent : Option ℤ) :
    spelledValue negative whole fraction exponent =
      withSign negative (ofSpelling whole fraction (exponent.getD 0)).value := rfl

def next (d : Decimal) : Decimal := ⟨d.coefficient + 1, d.exponent⟩

def halfway (d : Decimal) : ℚ := (d.value + d.next.value) / 2

variable {d : Decimal} {a b k : ℕ} {e f : ℤ}

theorem value_nonneg (d : Decimal) : 0 ≤ d.value := by
  unfold value
  positivity

theorem value_le_value_iff : value ⟨a, e⟩ ≤ value ⟨b, e⟩ ↔ a ≤ b := by
  have hpow : (0 : ℚ) < 10 ^ e := by positivity
  rw [value, value, mul_le_mul_iff_of_pos_right hpow, Nat.cast_le]

theorem value_lt_value_iff : value ⟨a, e⟩ < value ⟨b, e⟩ ↔ a < b := by
  rw [← not_le, value_le_value_iff, not_le]

theorem value_lt_next (d : Decimal) : d.value < d.next.value :=
  value_lt_value_iff.2 (Nat.lt_succ_self d.coefficient)

theorem value_one (e : ℤ) : value ⟨1, e⟩ = 10 ^ e := by simp [value]

/-- On a finer grid a decimal has zeros at its end. -/
theorem exists_value_eq_of_le (h : e ≤ d.exponent) :
    ∃ j : ℕ, d.value = value ⟨d.coefficient * 10 ^ j, e⟩ := by
  obtain ⟨j, hj⟩ := Int.eq_ofNat_of_zero_le (sub_nonneg.2 h)
  refine ⟨j, ?_⟩
  rw [value_zeros, show e + j = d.exponent by omega]

theorem value_lt_pow (h : d.coefficient < 10 ^ k) : d.value < 10 ^ (k + d.exponent) := by
  rw [zpow_add₀ (by norm_num), zpow_natCast]
  exact mul_lt_mul_of_pos_right (by exact_mod_cast h) (by positivity)

theorem pow_le_value (h : 10 ^ k ≤ d.coefficient) : (10 : ℚ) ^ (k + d.exponent) ≤ d.value := by
  rw [zpow_add₀ (by norm_num), zpow_natCast]
  exact mul_le_mul_of_nonneg_right (by exact_mod_cast h) (by positivity)

theorem pow_exponent_le_value (h : d.coefficient ≠ 0) : (10 : ℚ) ^ d.exponent ≤ d.value := by
  simpa using pow_le_value (k := 0) (Nat.pos_of_ne_zero h)

theorem pow_length_le_coefficient (h : d.coefficient ≠ 0) :
    10 ^ (d.digits.length - 1) ≤ d.coefficient := by
  rcases Nat.eq_zero_or_pos (d.digits.length - 1) with hlen | hlen
  · rw [hlen, pow_zero]
    exact Nat.pos_of_ne_zero h
  · refine Nat.le_of_not_lt fun hlt => ?_
    have hle := length_digits_le hlen hlt
    omega

/-- The point tells between which powers of ten a decimal lies. -/
theorem pow_le_value_iff (h : d.coefficient ≠ 0) {p : ℤ} :
    (10 : ℚ) ^ p ≤ d.value ↔ p < d.point := by
  have hpos := List.length_pos_iff.2 d.digits_ne_nil
  constructor
  · intro hle
    exact (zpow_lt_zpow_iff_right₀ (by norm_num)).1 (hle.trans_lt (value_lt_pow d.coefficient_lt))
  · intro hlt
    unfold point at hlt
    exact (zpow_le_zpow_right₀ (by norm_num) (by omega)).trans
      (pow_le_value (pow_length_le_coefficient h))

theorem toDigits_mul_pow {c k : ℕ} (h : c = 0 → k = 0) :
    Nat.toDigits 10 (c * 10 ^ k) = Nat.toDigits 10 c ++ List.replicate k '0' := by
  induction k with
  | zero => simp
  | succ k ih =>
    have hc : c ≠ 0 := fun hc => Nat.succ_ne_zero k (h hc)
    have hpos : 0 < c * 10 ^ k := Nat.mul_pos (Nat.pos_of_ne_zero hc) (by positivity)
    have hdigits := Nat.toDigits_append_toDigits (b := 10) (by omega) hpos (show 0 < 10 by omega)
    rw [ih fun h0 => absurd h0 hc] at hdigits
    rw [List.replicate_succ', ← List.append_assoc, pow_succ, ← mul_assoc, mul_comm _ 10]
    exact hdigits.symm

/-- Between neighbours of `k` digits or more there is nothing of at most `k` digits. -/
theorem value_le_or_le (hd : d.coefficient < 10 ^ k) (ha : 10 ^ k ≤ a * 10) :
    d.value ≤ value ⟨a, e⟩ ∨ value ⟨a + 1, e⟩ ≤ d.value := by
  by_cases he : e ≤ d.exponent
  · obtain ⟨j, hj⟩ := exists_value_eq_of_le he
    rw [hj, value_le_value_iff, value_le_value_iff]
    exact (Nat.lt_or_ge a _).symm
  · left
    have hzero : value ⟨a * 10, e - 1⟩ = value ⟨a, e⟩ := by
      rw [← pow_one 10, value_zeros, Nat.cast_one, sub_add_cancel]
    calc d.value ≤ 10 ^ (k + d.exponent) := (value_lt_pow hd).le
      _ ≤ 10 ^ (k + (e - 1)) := zpow_le_zpow_right₀ (by norm_num) (by omega)
      _ ≤ value ⟨a * 10, e - 1⟩ := pow_le_value (d := ⟨a * 10, e - 1⟩) ha
      _ = value ⟨a, e⟩ := hzero

end Decimal

end FormulaEditor
