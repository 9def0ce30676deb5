import FormulaEditor.Proofs.Binary64.Rounding
import FormulaEditor.Proofs.Decimal.Layout
import Mathlib.Tactic.NormNum
/-! The decimal that is found for a magnitude. Reading depends on the value of a decimal alone, and
the decimal that is found reads back. It has no more digits than a reader looks at. -/
namespace FormulaEditor
namespace Binary64

theorem tens_pos (q : ℤ) : 0 < tens q := Nat.pow_pos (by decide)

theorem tens_of_nonpos {q : ℤ} (h : q ≤ 0) : tens q = 1 := by
  rw [tens, Int.toNat_of_nonpos h, Nat.pow_eq, pow_zero]

theorem tens_natCast (n : ℕ) : tens n = 10 ^ n := rfl

theorem tens_div_tens (q : ℤ) : (tens q : ℚ) / tens (-q) = 10 ^ q := by
  obtain ⟨n, rfl | rfl⟩ := q.eq_nat_or_neg
  · rw [tens_of_nonpos (q := -n) (by omega), tens_natCast]
    simp
  · rw [tens_of_nonpos (q := -n) (by omega), neg_neg, tens_natCast]
    simp

theorem value_eq_div (d : Decimal) :
    d.value = (d.coefficient * tens d.exponent : ℕ) / (tens (-d.exponent) : ℕ) := by
  rw [Decimal.value, ← tens_div_tens]
  push_cast
  ring

theorem nearestDecimal_congr {d d' : Decimal} (h : d.value = d'.value) :
    nearestDecimal d = nearestDecimal d' := by
  have hpos (q : ℤ) : (tens q : ℚ) ≠ 0 := Nat.cast_ne_zero.2 (tens_pos q).ne'
  rw [value_eq_div, value_eq_div, div_eq_div_iff (hpos _) (hpos _)] at h
  exact nearest_congr (tens_pos _) (tens_pos _) (by exact_mod_cast h)

theorem nearestDecimal_of_value {d : Decimal} {n : ℕ} (h : d.value = units n / unitsPerOne) :
    nearestDecimal d = n := by
  have hpos (q : ℤ) : (tens q : ℚ) ≠ 0 := Nat.cast_ne_zero.2 (tens_pos q).ne'
  have hone : (unitsPerOne : ℚ) ≠ 0 := Nat.cast_ne_zero.2 unitsPerOne_pos.ne'
  rw [value_eq_div, div_eq_div_iff (hpos _) hone] at h
  exact nearest_of_eq (tens_pos _) (by exact_mod_cast h)

theorem nearestDecimal_of_coefficient {d : Decimal} (h : d.coefficient = 0) :
    nearestDecimal d = 0 := by
  refine nearestDecimal_of_value ?_
  rw [Decimal.value, h, units_zero, Nat.cast_zero, zero_mul, zero_div]

theorem unitsPerOne_eq : unitsPerOne = 2 ^ 1074 := by decide +kernel

theorem units_magnitudeCount : units magnitudeCount = 2 ^ 1024 * unitsPerOne := by decide +kernel

theorem magnitudeCount_le_nearestDecimal {d : Decimal} (hc : d.coefficient ≠ 0)
    (he : 310 ≤ d.exponent) : magnitudeCount ≤ nearestDecimal d := by
  obtain ⟨e, he'⟩ := Int.eq_ofNat_of_zero_le (show 0 ≤ d.exponent by omega)
  rw [nearestDecimal, tens_of_nonpos (q := -d.exponent) (by omega), he', tens_natCast]
  have hpow : 2 ^ 1024 ≤ 10 ^ e :=
    le_trans (by decide +kernel) (Nat.pow_le_pow_right (by omega) (show 310 ≤ e by omega))
  refine le_nearest Nat.one_pos ?_
  rw [units_magnitudeCount, mul_one]
  exact Nat.mul_le_mul_right _ (hpow.trans (Nat.le_mul_of_pos_left _ (Nat.pos_of_ne_zero hc)))

theorem nearestDecimal_eq_zero {d : Decimal} (he : d.exponent + d.coefficient.log2 < -330) :
    nearestDecimal d = 0 := by
  obtain ⟨j, hj⟩ := Int.eq_ofNat_of_zero_le (show 0 ≤ -d.exponent by omega)
  rw [nearestDecimal, tens_of_nonpos (q := d.exponent) (by omega), hj, tens_natCast, mul_one]
  refine nearest_eq_zero ?_
  have hc : d.coefficient < 2 ^ (d.coefficient.log2 + 1) := Nat.lt_log2_self
  calc 2 * (d.coefficient * unitsPerOne)
      < 2 * (2 ^ (d.coefficient.log2 + 1) * unitsPerOne) := by
        have := Nat.mul_lt_mul_of_pos_right hc unitsPerOne_pos
        omega
    _ = 2 ^ d.coefficient.log2 * 2 ^ 1076 := by
        rw [unitsPerOne_eq, ← pow_add, ← pow_succ', ← pow_add]
    _ ≤ 10 ^ d.coefficient.log2 * 10 ^ 331 :=
        Nat.mul_le_mul (Nat.pow_le_pow_left (by omega) _) (by decide +kernel)
    _ = 10 ^ (d.coefficient.log2 + 331) := (pow_add ..).symm
    _ ≤ 10 ^ j := Nat.pow_le_pow_right (by omega) (by omega)

/-- The answers given for very large and very small exponents are those of rounding. -/
theorem ofDecimal_eq (negative : Bool) (d : Decimal) :
    ofDecimal negative d = ofMagnitude negative (nearestDecimal d) := by
  unfold ofDecimal
  split
  · rename_i hc
    rw [nearestDecimal_of_coefficient hc]
  · rename_i hc
    split
    · rename_i he
      have hlarge := magnitudeCount_le_nearestDecimal hc he
      rw [ofMagnitude, dif_neg (by omega)]
    · split
      · rename_i he
        rw [nearestDecimal_eq_zero he]
      · rfl

theorem dvd_units_mul_tens {n k m : ℕ} {q : ℤ} (hn : units n = m * 2 ^ k) (hq : q ≤ 0)
    (hk : q + 1074 ≤ k) : unitsPerOne * tens q ∣ units n * tens (-q) := by
  obtain ⟨j, hj⟩ := Int.eq_ofNat_of_zero_le (show 0 ≤ -q by omega)
  have hfactor : units n * tens (-q) = 2 ^ (k + j) * (m * 5 ^ j) := by
    rw [hn, hj, tens_natCast, show 10 = 2 * 5 from rfl, mul_pow, pow_add]
    ring
  rw [tens_of_nonpos hq, mul_one, hfactor, unitsPerOne_eq]
  exact Dvd.dvd.mul_right (pow_dvd_pow 2 (by omega)) _

theorem nearestDecimal_floorMultiple {n : ℕ} {q : ℤ}
    (h : unitsPerOne * tens q ∣ units n * tens (-q)) :
    nearestDecimal ⟨floorMultiple n q, q⟩ = n := by
  refine nearest_of_eq (tens_pos _) ?_
  rw [mul_assoc, mul_comm (tens q)]
  exact Nat.div_mul_cancel h

/-- What is found on a grid reads back and is one of the two neighbours there. -/
theorem onGrid?_eq_some {tie : Tie} {n : ℕ} {q : ℤ} {d : Decimal} (h : onGrid? tie n q = some d) :
    nearestDecimal d = n ∧ d.exponent = q ∧ d.coefficient ≤ floorMultiple n q + 1 := by
  simp only [onGrid?] at h
  split at h
  · rename_i hlower
    obtain rfl := Option.some.inj h
    split
    · rename_i hupper
      exact ⟨hupper.1, rfl, Nat.le_refl _⟩
    · exact ⟨hlower, rfl, Nat.le_add_right _ 1⟩
  · split at h
    · rename_i hupper
      obtain rfl := Option.some.inj h
      exact ⟨hupper, rfl, Nat.le_refl _⟩
    · nomatch h

theorem onGrid?_ne_none {n : ℕ} {q : ℤ} (tie : Tie)
    (h : nearestDecimal ⟨floorMultiple n q, q⟩ = n) : onGrid? tie n q ≠ none := by
  simp [onGrid?, h]

/-- The search ends on a grid that is no finer than it need be for the magnitude to lie on it. -/
theorem search_spec {n k m : ℕ} (tie : Tie) (hn : units n = m * 2 ^ k) (fuel : ℕ) {q : ℤ}
    (hq : min 0 ((k : ℤ) - 1074) ≤ q) (hfuel : q - fuel ≤ -1074) :
    nearestDecimal (search tie n fuel q) = n ∧
      min 0 ((k : ℤ) - 1074) ≤ (search tie n fuel q).exponent ∧
      (search tie n fuel q).coefficient ≤ floorMultiple n (search tie n fuel q).exponent + 1 := by
  induction fuel generalizing q with
  | zero =>
    have hdvd := dvd_units_mul_tens hn (q := q) (by omega) (by omega)
    exact ⟨nearestDecimal_floorMultiple hdvd, hq, Nat.le_add_right _ 1⟩
  | succ fuel ih =>
    rw [search]
    cases hg : onGrid? tie n q with
    | some d =>
      obtain ⟨hnear, he, hle⟩ := onGrid?_eq_some hg
      exact ⟨hnear, he ▸ hq, he ▸ hle⟩
    | none =>
      -- the search goes on only from grids that the magnitude does not lie on
      have hne : q ≠ min 0 ((k : ℤ) - 1074) := by
        intro he
        have hdvd := dvd_units_mul_tens hn (q := q) (by omega) (by omega)
        exact onGrid?_ne_none tie (nearestDecimal_floorMultiple hdvd) hg
      exact ih (by omega) (by omega)

theorem units_lt_of_lt_magnitudeCount {n : ℕ} (h : n < magnitudeCount) :
    units n < 2 ^ 1024 * unitsPerOne := units_magnitudeCount ▸ units_strictMono h

theorem floorMultiple_lt {n k m : ℕ} {q : ℤ} (hn : units n = m * 2 ^ k) (hm : m < 2 * binade)
    (h : n < magnitudeCount) (hq : min 0 ((k : ℤ) - 1074) ≤ q) : floorMultiple n q < 10 ^ 767 := by
  have hden : 0 < unitsPerOne * tens q := Nat.mul_pos unitsPerOne_pos (tens_pos q)
  refine (Nat.div_lt_iff_lt_mul hden).2 ?_
  by_cases hneg : 0 ≤ q
  · rw [tens_of_nonpos (q := -q) (by omega), mul_one]
    calc units n < 2 ^ 1024 * unitsPerOne := units_lt_of_lt_magnitudeCount h
      _ ≤ 10 ^ 767 * unitsPerOne := Nat.mul_le_mul_right _ (by decide +kernel)
      _ ≤ 10 ^ 767 * (unitsPerOne * tens q) :=
        Nat.mul_le_mul_left _ (Nat.le_mul_of_pos_right _ (tens_pos q))
  · obtain ⟨j, hj⟩ := Int.eq_ofNat_of_zero_le (show 0 ≤ -q by omega)
    have hbinary : 2 ^ (k + j) ≤ 2 ^ 1074 := pow_le_pow_right₀ one_le_two (by omega)
    have hfive : m * 5 ^ j < 10 ^ 767 := by
      calc m * 5 ^ j ≤ 2 * binade * 5 ^ 1074 :=
          Nat.mul_le_mul hm.le (Nat.pow_le_pow_right (by omega) (by omega))
        _ < 10 ^ 767 := by decide +kernel
    rw [tens_of_nonpos (q := q) (by omega), mul_one, hj, tens_natCast, unitsPerOne_eq]
    calc units n * 10 ^ j = m * 5 ^ j * 2 ^ (k + j) := by
          rw [hn, show 10 = 2 * 5 from rfl, mul_pow, pow_add]
          ring
      _ ≤ m * 5 ^ j * 2 ^ 1074 := Nat.mul_le_mul_left _ hbinary
      _ < 10 ^ 767 * 2 ^ 1074 := Nat.mul_lt_mul_of_pos_right hfive (by positivity)

theorem le_widestGrid {n k m : ℕ} (hn : units n = m * 2 ^ k) (h0 : n ≠ 0) :
    min 0 ((k : ℤ) - 1074) ≤ widestGrid n := by
  have hpos : units n ≠ 0 := by
    have := units_strictMono (Nat.pos_of_ne_zero h0)
    omega
  have hm : 0 < m := by
    refine Nat.pos_of_ne_zero fun hm => hpos ?_
    rw [hn, hm, zero_mul]
  have hk : k ≤ (units n).log2 := by
    rw [Nat.le_log2 hpos, hn]
    exact Nat.le_mul_of_pos_left _ hm
  unfold widestGrid
  omega

theorem shortest_spec (tie : Tie) {n : ℕ} (h : n < magnitudeCount) :
    nearestDecimal (shortest tie n) = n ∧ (shortest tie n).coefficient < 10 ^ 768 := by
  unfold shortest
  split
  · rename_i h0
    rw [h0]
    exact ⟨nearestDecimal_of_coefficient rfl, by positivity⟩
  · rename_i h0
    obtain ⟨k, m, hm, hn, -⟩ := exists_units_eq n
    obtain ⟨hnear, he, hle⟩ := search_spec tie hn (widestGrid n + 1074).toNat
      (le_widestGrid hn h0) (by omega)
    have hlt := floorMultiple_lt hn hm h he
    exact ⟨hnear, hle.trans_lt (by omega)⟩

/-- The decimal that is found reads back. -/
theorem nearestDecimal_shortest (tie : Tie) {n : ℕ} (h : n < magnitudeCount) :
    nearestDecimal (shortest tie n) = n := (shortest_spec tie h).1

theorem coefficient_shortest_lt (tie : Tie) {n : ℕ} (h : n < magnitudeCount) :
    (shortest tie n).coefficient < 10 ^ 768 := (shortest_spec tie h).2

theorem exponent_shortest (tie : Tie) {n : ℕ} (h : n < magnitudeCount)
    (hc : (shortest tie n).coefficient = 0) : (shortest tie n).exponent = 0 := by
  have h0 : n = 0 := by
    rw [← nearestDecimal_shortest tie h, nearestDecimal_of_coefficient hc]
  simp [shortest, h0]

end Binary64

end FormulaEditor
