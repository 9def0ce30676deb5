import FormulaEditor.Proofs.Binary64.Midpoint
import FormulaEditor.Proofs.Decimal.Order
/-! The decimal that is found for a magnitude has the fewest digits. No coarser grid has a decimal
that reads back, so there are no zeros at its end and no power of ten between it and a shorter
one. -/
namespace FormulaEditor
namespace Binary64

open Decimal (value)

variable {n c : ℕ} {q e : ℤ} {d : Decimal}

theorem le_floorMultiple_iff : c ≤ floorMultiple n q ↔ value ⟨c, q⟩ ≤ magnitude n := by
  have hden : (0 : ℚ) < tens (-q) := Nat.cast_pos.2 (tens_pos _)
  rw [floorMultiple, Nat.le_div_iff_mul_le (Nat.mul_pos unitsPerOne_pos (tens_pos q)), value_eq_div,
    magnitude, div_le_div_iff₀ hden unitsPerOne_cast_pos, ← Nat.cast_mul, ← Nat.cast_mul,
    Nat.cast_le, mul_assoc, mul_comm (tens q)]

theorem onGrid?_ne_none_of (tie : Tie) (h : nearestDecimal ⟨c, q⟩ = n) :
    onGrid? tie n q ≠ none := by
  have hmag := nearestMagnitude_magnitude n
  have hc := Decimal.value_nonneg ⟨c, q⟩
  rw [nearestDecimal_eq] at h
  rcases Nat.lt_or_ge (floorMultiple n q) c with hlt | hle
  · have hupper : nearestDecimal ⟨floorMultiple n q + 1, q⟩ = n := by
      have habove : magnitude n ≤ value ⟨floorMultiple n q + 1, q⟩ :=
        (lt_of_not_ge (le_floorMultiple_iff.not.1 (Nat.not_succ_le_self _))).le
      rw [nearestDecimal_eq]
      exact nearestMagnitude_between (magnitude_nonneg n) habove (Decimal.value_le_value_iff.2 hlt)
        hmag h
    simp only [onGrid?, hupper]
    split <;> simp
  · have hlower : nearestDecimal ⟨floorMultiple n q, q⟩ = n := by
      rw [nearestDecimal_eq]
      exact nearestMagnitude_between hc (Decimal.value_le_value_iff.2 hle)
        (le_floorMultiple_iff.1 le_rfl) h hmag
    exact onGrid?_ne_none tie hlower

theorem le_exponent_search (tie : Tie) (h : nearestDecimal ⟨c, e⟩ = n) (fuel : ℕ) (hq : e ≤ q)
    (hfuel : q - fuel ≤ e) : e ≤ (search tie n fuel q).exponent := by
  induction fuel generalizing q with
  | zero => exact hq
  | succ fuel ih =>
    rw [search]
    cases hg : onGrid? tie n q with
    | some d => exact hq.trans_eq (onGrid?_eq_some hg).2.1.symm
    | none =>
      have hne : e ≠ q := by
        rintro rfl
        exact onGrid?_ne_none_of tie h hg
      exact ih (by omega) (by omega)

theorem pow_le_pow_of_ratio {x y i j a b : ℕ} (hx : 0 < x) (hj : j ≠ 0) (hxy : x ^ i ≤ y ^ j)
    (h : j * a ≤ i * b) : x ^ a ≤ y ^ b := by
  refine (Nat.pow_le_pow_iff_left hj).1 ?_
  calc (x ^ a) ^ j = x ^ (j * a) := by rw [← pow_mul, mul_comm]
    _ ≤ x ^ (i * b) := Nat.pow_le_pow_right hx h
    _ = (x ^ i) ^ b := pow_mul ..
    _ ≤ (y ^ j) ^ b := Nat.pow_le_pow_left hxy b
    _ = (y ^ b) ^ j := by rw [← pow_mul, ← pow_mul, mul_comm]

/-- The ratio in `widestGrid` is near enough to the logarithm for all exponents of doubles. -/
theorem two_zpow_le_ten_zpow {z : ℤ} (hlow : -1073 ≤ z) (hhigh : z ≤ 1024) :
    (2 : ℚ) ^ (z + 1) ≤ 10 ^ (z * 30103 / 100000 + 2) := by
  obtain ⟨t, ht⟩ : ∃ t, z * 30103 / 100000 + 2 = t := ⟨_, rfl⟩
  rw [ht]
  by_cases hz : 0 ≤ z + 1
  · obtain ⟨a, ha⟩ := Int.eq_ofNat_of_zero_le hz
    obtain ⟨b, rfl⟩ := Int.eq_ofNat_of_zero_le (show 0 ≤ t by omega)
    have hpow : 2 ^ a ≤ 10 ^ b := by
      refine pow_le_pow_of_ratio two_pos (show 28 ≠ 0 by omega) (i := 93) (by norm_num) ?_
      omega
    rw [ha]
    exact_mod_cast hpow
  · obtain ⟨a, ha⟩ := Int.eq_ofNat_of_zero_le (show 0 ≤ -(z + 1) by omega)
    by_cases ht0 : 0 ≤ t
    · exact (zpow_le_one_of_nonpos₀ one_le_two (by omega)).trans (one_le_zpow₀ (by norm_num) ht0)
    · obtain ⟨b, hb⟩ := Int.eq_ofNat_of_zero_le (show 0 ≤ -t by omega)
      have hpow : 10 ^ b ≤ 2 ^ a := by
        refine pow_le_pow_of_ratio (show 0 < 10 by omega) (show 196 ≠ 0 by omega) (i := 59)
          (by norm_num) ?_
        omega
      rw [← neg_neg (z + 1), ← neg_neg t, ha, hb, zpow_neg, zpow_neg, zpow_natCast, zpow_natCast]
      exact inv_anti₀ (by positivity) (by exact_mod_cast hpow)

theorem units_succ_le (h0 : n ≠ 0) : units (n + 1) ≤ 2 * units n := by
  obtain ⟨k, m, -, hn, hsucc⟩ := exists_units_eq n
  have hpos : 0 < m := by
    refine Nat.pos_of_ne_zero fun hm => h0 (units_strictMono.injective ?_)
    rw [hn, hm, zero_mul, units_zero]
  rw [hn, hsucc, ← mul_assoc]
  exact Nat.mul_le_mul_right _ (by omega)

theorem magnitude_succ_lt (h0 : n ≠ 0) :
    magnitude (n + 1) < 2 ^ (((units n).log2 : ℤ) - 1073 + 1) := by
  have hlt : units (n + 1) < 2 ^ ((units n).log2 + 2) := by
    have hlog : units n < 2 ^ ((units n).log2 + 1) := Nat.lt_log2_self
    have hsucc := units_succ_le h0
    rw [pow_succ]
    omega
  have hexponent : (2 : ℚ) ^ (((units n).log2 : ℤ) - 1073 + 1) * 2 ^ 1074 =
      2 ^ ((units n).log2 + 2) := by
    rw [← zpow_natCast, ← zpow_natCast, ← zpow_add₀ two_ne_zero]
    congr 1
    push_cast
    ring
  rw [magnitude, div_lt_iff₀ unitsPerOne_cast_pos, unitsPerOne_eq, Nat.cast_pow, Nat.cast_two,
    hexponent]
  exact_mod_cast hlt

theorem log2_units_lt (hn : n < magnitudeCount) (h0 : n ≠ 0) : (units n).log2 < 1024 + 1074 := by
  have hpos := units_strictMono (Nat.pos_of_ne_zero h0)
  have hlog {u a b : ℕ} (hu : u ≠ 0) (h : u < 2 ^ a * 2 ^ b) : u.log2 < a + b :=
    (Nat.log2_lt hu).2 (pow_add 2 a b ▸ h)
  have hunits := units_lt_of_lt_magnitudeCount hn
  rw [unitsPerOne_eq] at hunits
  exact hlog (Nat.ne_zero_of_lt hpos) hunits

/-- The search starts above every decimal that reads back. -/
theorem exponent_le_widestGrid (hn : n < magnitudeCount) (h0 : n ≠ 0) (h : nearestDecimal d = n) :
    d.exponent ≤ widestGrid n := by
  have hc : d.coefficient ≠ 0 := fun hc => h0 (h ▸ nearestDecimal_of_coefficient hc)
  have hpow := Decimal.pow_exponent_le_value hc
  have hvalue : d.value < magnitude (n + 1) := by
    rw [nearestDecimal_eq] at h
    exact (le_midpoint_of_le d.value_nonneg h.le).trans_lt (midpoint_lt_magnitude n)
  have hlog := log2_units_lt hn h0
  have hlt := (hpow.trans_lt hvalue).trans (magnitude_succ_lt h0)
  have hten := hlt.trans_le (two_zpow_le_ten_zpow (by omega) (by omega))
  have hexp := (zpow_lt_zpow_iff_right₀ (by norm_num)).1 hten
  unfold widestGrid
  omega

theorem exponent_le_exponent_shortest (tie : Tie) (hn : n < magnitudeCount) (h0 : n ≠ 0)
    (h : nearestDecimal d = n) : d.exponent ≤ (shortest tie n).exponent := by
  obtain ⟨k, m, -, hunits, -⟩ := exists_units_eq n
  have hspec := (search_spec tie hunits (widestGrid n + 1074).toNat
    (le_widestGrid hunits h0) (by omega)).2.1
  rw [shortest, if_neg h0]
  by_cases hlow : -1074 ≤ d.exponent
  · exact le_exponent_search tie h _ (exponent_le_widestGrid hn h0 h) (by omega)
  · omega

section

variable (tie : Tie) (hn : n < magnitudeCount)

include hn

theorem coefficient_shortest_mod_ten (h0 : n ≠ 0) : (shortest tie n).coefficient % 10 ≠ 0 := by
  intro hmod
  obtain ⟨c, hc⟩ := Nat.dvd_of_mod_eq_zero hmod
  have hvalue : value ⟨c, (shortest tie n).exponent + 1⟩ = (shortest tie n).value := by
    have hzeros := Decimal.value_zeros c 1 (shortest tie n).exponent
    rw [Nat.cast_one, pow_one, mul_comm, ← hc] at hzeros
    exact hzeros.symm
  have hread : nearestDecimal ⟨c, (shortest tie n).exponent + 1⟩ = n :=
    (nearestDecimal_congr hvalue).trans (nearestDecimal_shortest tie hn)
  have hle := exponent_le_exponent_shortest tie hn h0 hread
  simp only at hle
  omega

theorem coefficient_shortest_ne_zero (h0 : n ≠ 0) : (shortest tie n).coefficient ≠ 0 := fun h =>
  coefficient_shortest_mod_ten tie hn h0 (by rw [h])

/-- Between powers of ten it lies as the magnitude does, where these are rounded. -/
theorem pow_le_shortest_iff (h0 : n ≠ 0) (p : ℤ) :
    (10 : ℚ) ^ p ≤ (shortest tie n).value ↔ nearestDecimal ⟨1, p⟩ ≤ n := by
  have hshortest := nearestDecimal_shortest tie hn
  rw [nearestDecimal_eq] at hshortest
  have hpow := Decimal.value_one p
  rw [nearestDecimal_eq, hpow]
  constructor
  · intro h
    exact (nearestMagnitude_mono (by positivity) h).trans_eq hshortest
  · intro h
    by_contra hlt
    have hread : nearestDecimal ⟨1, p⟩ = n := by
      rw [nearestDecimal_eq, hpow]
      refine Nat.le_antisymm h ?_
      exact hshortest.symm.trans_le
        (nearestMagnitude_mono (Decimal.value_nonneg _) (not_le.1 hlt).le)
    have hle := exponent_le_exponent_shortest tie hn h0 hread
    refine hlt ((zpow_le_zpow_right₀ (by norm_num) hle).trans ?_)
    exact Decimal.pow_exponent_le_value (coefficient_shortest_ne_zero tie hn h0)

/-- No decimal that reads back has fewer digits. -/
theorem length_digits_shortest_le (h : nearestDecimal d = n) :
    (shortest tie n).digits.length ≤ d.digits.length := by
  have hpos := List.length_pos_iff.2 d.digits_ne_nil
  by_cases h0 : n = 0
  · have hone : (shortest tie n).digits.length = 1 := by
      rw [shortest, if_pos h0]
      rfl
    omega
  · refine Nat.le_of_not_lt fun hlt => ?_
    have hshortest := nearestDecimal_shortest tie hn
    have hexponent := exponent_le_exponent_shortest tie hn h0 h
    -- a power of ten lies between the two decimals, so it reads back from a coarser grid
    have hlow : d.value ≤ value ⟨1, d.digits.length + (shortest tie n).exponent⟩ := by
      rw [Decimal.value_one]
      exact (Decimal.value_lt_pow d.coefficient_lt).le.trans
        (zpow_le_zpow_right₀ (by norm_num) (by omega))
    have hhigh : value ⟨1, d.digits.length + (shortest tie n).exponent⟩ ≤
        (shortest tie n).value := by
      rw [Decimal.value_one]
      have hc := Decimal.pow_length_le_coefficient (coefficient_shortest_ne_zero tie hn h0)
      exact (zpow_le_zpow_right₀ (by norm_num) (by omega)).trans (Decimal.pow_le_value hc)
    have hread : nearestDecimal ⟨1, d.digits.length + (shortest tie n).exponent⟩ = n := by
      rw [nearestDecimal_eq] at h hshortest ⊢
      exact nearestMagnitude_between d.value_nonneg hlow hhigh h hshortest
    have hle := exponent_le_exponent_shortest tie hn h0 hread
    simp only at hle
    omega

end

/-- Ties are broken by comparing the magnitude with what is halfway between the neighbours. -/
theorem compare_eq_cmp_halfway (n c : ℕ) (q : ℤ) :
    compare (2 * (units n * tens (-q))) ((2 * c + 1) * (unitsPerOne * tens q)) =
      cmp (magnitude n) (Decimal.halfway ⟨c, q⟩) := by
  have hden : (0 : ℚ) < tens (-q) := Nat.cast_pos.2 (tens_pos _)
  have hone := unitsPerOne_cast_pos
  have hscale : (0 : ℚ) < 2 * (unitsPerOne * tens (-q)) := mul_pos two_pos (mul_pos hone hden)
  have hvalue : ((2 * (units n * tens (-q)) : ℕ) : ℚ) =
      magnitude n * (2 * (unitsPerOne * tens (-q))) := by
    rw [magnitude]
    generalize unitsPerOne = u at hone ⊢
    push_cast
    field_simp
  have hmiddle : (((2 * c + 1) * (unitsPerOne * tens q) : ℕ) : ℚ) =
      Decimal.halfway ⟨c, q⟩ * (2 * (unitsPerOne * tens (-q))) := by
    simp only [Decimal.halfway, Decimal.next, value_eq_div]
    generalize unitsPerOne = u at hone ⊢
    push_cast
    field_simp
    ring
  have hcast : StrictMono (Nat.cast : ℕ → ℚ) := Nat.strictMono_cast
  rw [← cmp_eq_compare, ← hcast.cmp_map_eq, hvalue, hmiddle, cmp_mul_pos_right hscale]

theorem prefersUpper_of_lt (tie : Tie) (h : magnitude n < Decimal.halfway ⟨c, q⟩) :
    tie.prefersUpper n c q = false := by
  have hcompare := (compare_eq_cmp_halfway n c q).trans ((cmp_eq_lt_iff ..).2 h)
  unfold Tie.prefersUpper
  dsimp only
  rw [hcompare]

theorem prefersUpper_of_gt (tie : Tie) (h : Decimal.halfway ⟨c, q⟩ < magnitude n) :
    tie.prefersUpper n c q = true := by
  have hcompare := (compare_eq_cmp_halfway n c q).trans ((cmp_eq_gt_iff ..).2 h)
  unfold Tie.prefersUpper
  dsimp only
  rw [hcompare]

theorem prefersUpper_of_eq (tie : Tie) (h : magnitude n = Decimal.halfway ⟨c, q⟩) :
    tie.prefersUpper n c q = (tie == .up || c % 2 == 1) := by
  have hcompare := (compare_eq_cmp_halfway n c q).trans ((cmp_eq_eq_iff ..).2 h)
  unfold Tie.prefersUpper
  dsimp only
  rw [hcompare]
  cases tie <;> rfl

theorem onGrid?_of_dvd (tie : Tie) (h : unitsPerOne * tens q ∣ units n * tens (-q)) :
    onGrid? tie n q = some ⟨floorMultiple n q, q⟩ := by
  have hread := nearestDecimal_floorMultiple h
  have hexact : magnitude n = value ⟨floorMultiple n q, q⟩ := by
    have hden : (tens (-q) : ℚ) ≠ 0 := Nat.cast_ne_zero.2 (tens_pos _).ne'
    have hmul : floorMultiple n q * (unitsPerOne * tens q) = units n * tens (-q) :=
      Nat.div_mul_cancel h
    rw [magnitude, value_eq_div, div_eq_div_iff unitsPerOne_cast_pos.ne' hden, ← Nat.cast_mul,
      ← Nat.cast_mul, Nat.cast_inj, ← hmul, mul_assoc, mul_comm (tens q)]
  have hlower : tie.prefersUpper n (floorMultiple n q) q = false := by
    have hnext := Decimal.value_lt_next ⟨floorMultiple n q, q⟩
    refine prefersUpper_of_lt tie ?_
    rw [hexact, Decimal.halfway]
    linarith
  simp only [onGrid?, hread, hlower, if_true, Bool.false_eq_true, and_false, if_false]

theorem onGrid?_search {k m : ℕ} (tie : Tie) (hn : units n = m * 2 ^ k) (fuel : ℕ)
    (hq : min 0 ((k : ℤ) - 1074) ≤ q) (hfuel : q - fuel ≤ -1074) :
    onGrid? tie n (search tie n fuel q).exponent = some (search tie n fuel q) := by
  induction fuel generalizing q with
  | zero =>
    have hdvd := dvd_units_mul_tens hn (q := q) (by omega) (by omega)
    exact onGrid?_of_dvd tie hdvd
  | succ fuel ih =>
    rw [search]
    cases hg : onGrid? tie n q with
    | some d =>
      rw [Option.getD_some, (onGrid?_eq_some hg).2.1]
      exact hg
    | none =>
      have hne : q ≠ min 0 ((k : ℤ) - 1074) := by
        intro he
        have hdvd := dvd_units_mul_tens hn (q := q) (by omega) (by omega)
        rw [onGrid?_of_dvd tie hdvd] at hg
        exact Option.some_ne_none _ hg
      exact ih (by omega) (by omega)

theorem onGrid?_shortest (tie : Tie) (h0 : n ≠ 0) :
    onGrid? tie n (shortest tie n).exponent = some (shortest tie n) := by
  obtain ⟨k, m, -, hunits, -⟩ := exists_units_eq n
  rw [shortest, if_neg h0]
  exact onGrid?_search tie hunits _ (le_widestGrid hunits h0) (by omega)

/-- The two ways of breaking ties agree on a grid, unless the magnitude lies halfway between two
decimals of which the smaller is even. -/
theorem onGrid?_up_eq_or {u v : Decimal} (hu : onGrid? .up n q = some u)
    (hv : onGrid? .even n q = some v) :
    u = v ∨ u = v.next ∧ v.coefficient % 2 = 0 ∧ magnitude n = v.halfway := by
  by_cases hboth : nearestDecimal ⟨floorMultiple n q, q⟩ = n ∧
      nearestDecimal ⟨floorMultiple n q + 1, q⟩ = n
  · obtain ⟨hlower, hupper⟩ := hboth
    simp only [onGrid?, hlower, hupper, if_true, true_and, Option.some.injEq] at hu hv
    rcases lt_trichotomy (magnitude n) (Decimal.halfway ⟨floorMultiple n q, q⟩) with h | h | h
    · rw [prefersUpper_of_lt _ h] at hu hv
      exact .inl (hu.symm.trans hv)
    · rw [prefersUpper_of_eq _ h] at hu hv
      by_cases hodd : floorMultiple n q % 2 = 1
      · simp only [hodd] at hu hv
        exact .inl (hu.symm.trans hv)
      · simp [hodd] at hu hv
        right
        subst hu hv
        exact ⟨rfl, by simpa using hodd, h⟩
    · rw [prefersUpper_of_gt _ h] at hu hv
      exact .inl (hu.symm.trans hv)
  · left
    have hsame : onGrid? .up n q = onGrid? .even n q := by
      by_cases hlower : nearestDecimal ⟨floorMultiple n q, q⟩ = n
      · have hupper := not_and.1 hboth hlower
        simp only [onGrid?, hlower, hupper, if_true, false_and, if_false]
      · simp only [onGrid?, hlower, if_false]
    exact Option.some.inj (hu.symm.trans (hsame.trans hv))

theorem exponent_shortest_eq (hn : n < magnitudeCount) (h0 : n ≠ 0) :
    (shortest .up n).exponent = (shortest .even n).exponent :=
  le_antisymm (exponent_le_exponent_shortest .even hn h0 (nearestDecimal_shortest .up hn))
    (exponent_le_exponent_shortest .up hn h0 (nearestDecimal_shortest .even hn))

theorem shortest_up_eq_or (hn : n < magnitudeCount) :
    shortest .up n = shortest .even n ∨ shortest .up n = (shortest .even n).next ∧
      (shortest .even n).coefficient % 2 = 0 ∧ magnitude n = (shortest .even n).halfway := by
  by_cases h0 : n = 0
  · left
    simp [shortest, h0]
  · have hup := onGrid?_shortest .up h0
    rw [exponent_shortest_eq hn h0] at hup
    exact onGrid?_up_eq_or hup (onGrid?_shortest .even h0)

/-- Halfway between two decimals that both read back the larger one is found upwards. -/
theorem shortest_up_of_tie (h0 : n ≠ 0) (hn : n < magnitudeCount)
    (htie : magnitude n = (shortest .even n).halfway)
    (hread : nearestDecimal (shortest .even n).next = n) :
    shortest .up n = (shortest .even n).next := by
  have hup := onGrid?_shortest .up h0
  rw [exponent_shortest_eq hn h0] at hup
  have heven := nearestDecimal_shortest .even hn
  generalize shortest .even n = d at htie hread heven hup
  have hnext := d.value_lt_next
  have hfloor : floorMultiple n d.exponent = d.coefficient := by
    refine Nat.le_antisymm (Nat.le_of_not_lt fun h => ?_) (le_floorMultiple_iff.2 ?_)
    · have hle : d.next.value ≤ magnitude n := le_floorMultiple_iff.1 h
      rw [htie, Decimal.halfway] at hle
      linarith
    · change d.value ≤ magnitude n
      rw [htie, Decimal.halfway]
      linarith
  have hlower : nearestDecimal ⟨d.coefficient, d.exponent⟩ = n := heven
  have hupper : nearestDecimal ⟨d.coefficient + 1, d.exponent⟩ = n := hread
  simp only [onGrid?, hfloor, hlower, hupper, prefersUpper_of_eq .up htie, if_true, true_and,
    beq_self_eq_true, Bool.true_or, Option.some.injEq] at hup
  exact hup.symm

theorem exists_magnitude_eq {N : ℕ} (h : N ≤ 2 ^ 53) : ∃ k, magnitude k = N := by
  by_cases h0 : N = 0
  · exact ⟨0, by simp [h0]⟩
  · obtain ⟨j, hj⟩ : ∃ j, 52 - N.log2 = j := ⟨_, rfl⟩
    have hlow : binade ≤ N * 2 ^ j := by
      calc binade ≤ 2 ^ (N.log2 + j) := Nat.pow_le_pow_right two_pos (by omega)
        _ = 2 ^ N.log2 * 2 ^ j := pow_add ..
        _ ≤ N * 2 ^ j := Nat.mul_le_mul_right _ (Nat.log2_self_le h0)
    have hhigh : N * 2 ^ j ≤ 2 * binade := by
      by_cases hlog : N.log2 ≤ 52
      · calc N * 2 ^ j ≤ 2 ^ (N.log2 + 1) * 2 ^ j := Nat.mul_le_mul_right _ Nat.lt_log2_self.le
          _ = 2 ^ (N.log2 + 1 + j) := (pow_add ..).symm
          _ = 2 * binade := by rw [show N.log2 + 1 + j = 53 by omega]; rfl
      · obtain rfl : j = 0 := by omega
        rw [pow_zero, mul_one]
        exact h
    refine ⟨(1074 - j) * binade + N * 2 ^ j, ?_⟩
    rw [magnitude_eq_natCast_iff, units_add hhigh (.inr hlow), unitsPerOne_eq, mul_assoc, ← pow_add,
      show j + (1074 - j) = 1074 by omega]

/-- No other integer is rounded to an integer of at most 53 bits. -/
theorem eq_of_magnitude_nearest {N N' : ℕ} (hN : N < 2 ^ 53)
    (h : magnitude (nearestMagnitude N') = N) : N' = N := by
  rcases le_or_gt N' (2 ^ 53) with hle | hlt
  · obtain ⟨k, hk⟩ := exists_magnitude_eq hle
    rw [← hk, nearestMagnitude_magnitude, hk] at h
    exact Nat.cast_injective h
  · exfalso
    obtain ⟨k, hk⟩ := exists_magnitude_eq le_rfl
    have hle : magnitude k ≤ N' := by
      rw [hk]
      exact_mod_cast hlt.le
    have hmono := nearestMagnitude_mono (magnitude_nonneg k) hle
    rw [nearestMagnitude_magnitude, ← magnitude_strictMono.le_iff_le, hk, h, Nat.cast_le] at hmono
    omega

theorem shortest_of_natCast (tie : Tie) (hn : n < magnitudeCount) {N : ℕ} (hN : N < 2 ^ 53)
    (h : magnitude n = N) :
    (shortest tie n).value = N ∧ 0 ≤ (shortest tie n).exponent := by
  by_cases h0 : n = 0
  · have hzero : (N : ℚ) = 0 := by rw [← h, h0, magnitude_zero]
    simp [shortest, h0, hzero, value]
  · have hexponent : 0 ≤ (shortest tie n).exponent := by
      refine exponent_le_exponent_shortest tie hn h0 (d := ⟨N, 0⟩) (nearestDecimal_of_value ?_)
      rw [← magnitude, h]
      simp [value]
    refine ⟨?_, hexponent⟩
    obtain ⟨e, he⟩ := Int.eq_ofNat_of_zero_le hexponent
    have hvalue : (shortest tie n).value = ((shortest tie n).coefficient * 10 ^ e : ℕ) := by
      rw [value, he, zpow_natCast]
      push_cast
      rfl
    have hread := nearestDecimal_shortest tie hn
    rw [nearestDecimal_eq] at hread
    rw [← hread, hvalue] at h
    rw [hvalue, eq_of_magnitude_nearest hN h]

end Binary64

end FormulaEditor
