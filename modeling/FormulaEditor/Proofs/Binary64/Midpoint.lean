import FormulaEditor.Proofs.Binary64.Shortest
/-! Rounding as a function of rational numbers. It goes on to the next magnitude halfway between the
two, so it keeps the order and gives the nearest magnitude, with an even number where two are
equally near. -/
namespace FormulaEditor
namespace Binary64

/-- The number that the magnitude numbered `n` stands for. -/
def magnitude (n : ℕ) : ℚ := units n / unitsPerOne

def midpoint (n : ℕ) : ℚ := (magnitude n + magnitude (n + 1)) / 2

def nearestMagnitude (x : ℚ) : ℕ := nearest x.num.natAbs x.den

theorem unitsPerOne_cast_pos : (0 : ℚ) < unitsPerOne := Nat.cast_pos.2 unitsPerOne_pos

theorem magnitude_eq_natCast_iff {n N : ℕ} : magnitude n = N ↔ units n = N * unitsPerOne := by
  rw [magnitude, div_eq_iff unitsPerOne_cast_pos.ne', ← Nat.cast_mul, Nat.cast_inj]

theorem magnitude_eq_div {n a b : ℕ} (hb : 0 < b) (h : units n * b = a * unitsPerOne) :
    magnitude n = (a : ℚ) / b := by
  rw [magnitude, div_eq_div_iff unitsPerOne_cast_pos.ne' (Nat.cast_ne_zero.2 hb.ne'),
    ← Nat.cast_mul, h, Nat.cast_mul]

theorem magnitude_strictMono : StrictMono magnitude := fun _ _ h =>
  div_lt_div_of_pos_right (Nat.cast_lt.2 (units_strictMono h)) unitsPerOne_cast_pos

@[simp] theorem magnitude_zero : magnitude 0 = 0 := by
  rw [magnitude, units_zero, Nat.cast_zero, zero_div]

theorem magnitude_pos {n : ℕ} (h0 : n ≠ 0) : 0 < magnitude n :=
  magnitude_zero ▸ magnitude_strictMono (Nat.pos_of_ne_zero h0)

theorem magnitude_nonneg (n : ℕ) : 0 ≤ magnitude n := by
  unfold magnitude
  positivity

theorem magnitude_lt_midpoint (n : ℕ) : magnitude n < midpoint n := by
  have h := magnitude_strictMono n.lt_succ_self
  unfold midpoint
  linarith

theorem midpoint_lt_magnitude (n : ℕ) : midpoint n < magnitude (n + 1) := by
  have h := magnitude_strictMono n.lt_succ_self
  unfold midpoint
  linarith

theorem midpoint_pos (n : ℕ) : 0 < midpoint n :=
  (magnitude_nonneg n).trans_lt (magnitude_lt_midpoint n)

theorem midpoint_strictMono : StrictMono midpoint :=
  strictMono_nat_of_lt_succ fun n => (midpoint_lt_magnitude n).trans (magnitude_lt_midpoint _)

theorem abs_midpoint_sub (n : ℕ) :
    |midpoint n - magnitude (n + 1)| = |midpoint n - magnitude n| := by
  rw [abs_sub_comm, midpoint]
  congr 1
  ring

theorem eq_or_eq_of_abs_midpoint_sub {m n : ℕ}
    (h : |midpoint n - magnitude m| = |midpoint n - magnitude n|) : m = n ∨ m = n + 1 := by
  rcases abs_eq_abs.1 h with h | h
  · exact .inl (magnitude_strictMono.injective (by linarith))
  · unfold midpoint at h
    exact .inr (magnitude_strictMono.injective (by linarith))

theorem midpoint_eq_div (n : ℕ) :
    midpoint n = (units n + units (n + 1) : ℕ) / (2 * unitsPerOne : ℕ) := by
  unfold midpoint magnitude
  push_cast
  ring

/-- The magnitudes that are left behind on the way to the nearest one. -/
theorem lt_nearest_iff {n num den : ℕ} (hden : 0 < den) :
    n < nearest num den ↔
      (units n + units (n + 1)) * den < 2 * (num * unitsPerOne) ∨
        (units n + units (n + 1)) * den = 2 * (num * unitsPerOne) ∧ n % 2 = 1 := by
  have hle : units (floorOfUnits (num * unitsPerOne / den)) * den ≤ num * unitsPerOne :=
    (Nat.le_div_iff_mul_le hden).1 (units_floorOfUnits_le _)
  have hlt : num * unitsPerOne < units (floorOfUnits (num * unitsPerOne / den) + 1) * den :=
    (Nat.div_lt_iff_lt_mul hden).1 (lt_units_floorOfUnits_succ _)
  simp only [nearest]
  generalize floorOfUnits (num * unitsPerOne / den) = f at hle hlt ⊢
  generalize num * unitsPerOne = u at hle hlt ⊢
  rcases lt_trichotomy n f with h | rfl | h
  · -- the quotient is at least the next magnitude
    have hn : units n * den < units f * den := Nat.mul_lt_mul_of_pos_right (units_strictMono h) hden
    have hsucc : units (n + 1) * den ≤ units f * den :=
      Nat.mul_le_mul_right _ (units_strictMono.monotone h)
    have hpast : (units n + units (n + 1)) * den < 2 * u := by
      rw [add_mul]
      omega
    refine iff_of_true ?_ (.inl hpast)
    split
    · exact h
    · split <;> omega
  · generalize (units n + units (n + 1)) * den = middle
    split
    · omega
    · split <;> omega
  · have hn : units (f + 1) * den ≤ units n * den :=
      Nat.mul_le_mul_right _ (units_strictMono.monotone h)
    have hsucc : units (f + 1) * den ≤ units (n + 1) * den :=
      Nat.mul_le_mul_right _ (units_strictMono.monotone (h.trans n.lt_succ_self))
    have hbefore : 2 * u < (units n + units (n + 1)) * den := by
      rw [add_mul]
      omega
    refine iff_of_false ?_ (by omega)
    split
    · omega
    · split <;> omega

theorem natAbs_num_div_den {x : ℚ} (hx : 0 ≤ x) : (x.num.natAbs : ℚ) / x.den = x := by
  rw [← Int.cast_natCast, Int.natAbs_of_nonneg (Rat.num_nonneg.2 hx), Rat.num_div_den]

theorem nearestMagnitude_div {num den : ℕ} (hden : 0 < den) :
    nearestMagnitude (num / den : ℚ) = nearest num den := by
  have hx : (0 : ℚ) ≤ num / den := by positivity
  have hq := natAbs_num_div_den hx
  rw [div_eq_div_iff (Nat.cast_ne_zero.2 (Rat.den_ne_zero _)) (Nat.cast_ne_zero.2 hden.ne')] at hq
  exact nearest_congr (Rat.den_pos _) hden (by exact_mod_cast hq)

theorem nearestMagnitude_natCast (n : ℕ) : nearestMagnitude n = nearest n 1 := by
  rw [← nearestMagnitude_div Nat.one_pos, Nat.cast_one, div_one]

theorem nearestDecimal_eq (d : Decimal) : nearestDecimal d = nearestMagnitude d.value := by
  rw [value_eq_div, nearestMagnitude_div (tens_pos _)]
  rfl

section

variable {n m : ℕ} {x y z : ℚ}

theorem lt_nearestMagnitude_iff (hx : 0 ≤ x) :
    n < nearestMagnitude x ↔ midpoint n < x ∨ midpoint n = x ∧ n % 2 = 1 := by
  have htwo : (0 : ℚ) < (2 * unitsPerOne : ℕ) :=
    Nat.cast_pos.2 (Nat.mul_pos two_pos unitsPerOne_pos)
  have hden : (0 : ℚ) < x.den := Nat.cast_pos.2 x.den_pos
  have hlt : midpoint n < x ↔
      (units n + units (n + 1)) * x.den < x.num.natAbs * (2 * unitsPerOne) := by
    conv_lhs => rw [midpoint_eq_div, ← natAbs_num_div_den hx, div_lt_div_iff₀ htwo hden]
    rw [← Nat.cast_mul, ← Nat.cast_mul, Nat.cast_lt]
  have heq : midpoint n = x ↔
      (units n + units (n + 1)) * x.den = x.num.natAbs * (2 * unitsPerOne) := by
    conv_lhs => rw [midpoint_eq_div, ← natAbs_num_div_den hx, div_eq_div_iff htwo.ne' hden.ne']
    rw [← Nat.cast_mul, ← Nat.cast_mul, Nat.cast_inj]
  rw [nearestMagnitude, lt_nearest_iff x.den_pos, hlt, heq, mul_left_comm]

theorem midpoint_le_of_lt (hx : 0 ≤ x) (h : n < nearestMagnitude x) : midpoint n ≤ x :=
  ((lt_nearestMagnitude_iff hx).1 h).elim le_of_lt fun h => h.1.le

theorem le_midpoint_of_le (hx : 0 ≤ x) (h : nearestMagnitude x ≤ n) : x ≤ midpoint n := by
  by_contra hlt
  exact absurd ((lt_nearestMagnitude_iff hx).2 (.inl (not_le.1 hlt))) (Nat.not_lt.2 h)

theorem nearestMagnitude_mono (hx : 0 ≤ x) (h : x ≤ y) :
    nearestMagnitude x ≤ nearestMagnitude y := by
  refine Nat.le_of_not_lt fun hlt => ?_
  have hpast : midpoint (nearestMagnitude y) < y ∨
      midpoint (nearestMagnitude y) = y ∧ nearestMagnitude y % 2 = 1 := by
    rcases (lt_nearestMagnitude_iff hx).1 hlt with hlt | ⟨heq, hodd⟩
    · exact .inl (hlt.trans_le h)
    · exact h.lt_or_eq.imp (heq ▸ ·) fun h => ⟨heq.trans h, hodd⟩
  exact absurd ((lt_nearestMagnitude_iff (hx.trans h)).2 hpast) (Nat.lt_irrefl _)

theorem nearestMagnitude_between (hx : 0 ≤ x) (hxy : x ≤ y) (hyz : y ≤ z)
    (hxn : nearestMagnitude x = n) (hzn : nearestMagnitude z = n) : nearestMagnitude y = n :=
  Nat.le_antisymm (hzn ▸ nearestMagnitude_mono (hx.trans hxy) hyz)
    (hxn ▸ nearestMagnitude_mono hx hxy)

@[simp] theorem nearestMagnitude_magnitude (n : ℕ) : nearestMagnitude (magnitude n) = n := by
  rw [magnitude, nearestMagnitude_div unitsPerOne_pos]
  exact nearest_of_eq unitsPerOne_pos rfl

/-- Halfway after a magnitude with an even number rounding stays with it. -/
theorem nearestMagnitude_midpoint (h : n % 2 = 0) : nearestMagnitude (midpoint n) = n := by
  have hx := (midpoint_pos n).le
  refine Nat.le_antisymm (Nat.le_of_not_lt fun hlt => ?_) (Nat.le_of_not_lt fun hlt => ?_)
  · rcases (lt_nearestMagnitude_iff hx).1 hlt with hlt | ⟨-, hodd⟩
    · exact lt_irrefl _ hlt
    · omega
  · exact absurd (le_midpoint_of_le hx le_rfl) (not_le.2 (midpoint_strictMono hlt))

/-- A smaller magnitude is at most as near, and as near only if it is the one before and odd. -/
theorem magnitude_add_le_of_lt (hx : 0 ≤ x) (h : m < nearestMagnitude x) :
    magnitude m + magnitude (nearestMagnitude x) ≤ 2 * x ∧
      (magnitude m + magnitude (nearestMagnitude x) = 2 * x →
        nearestMagnitude x = m + 1 ∧ m % 2 = 1) := by
  obtain ⟨k, hk⟩ := Nat.exists_eq_add_of_lt h
  have hmk : magnitude m ≤ magnitude (m + k) := magnitude_strictMono.monotone (Nat.le_add_right ..)
  have hlt : m + k < nearestMagnitude x := by omega
  have hpast := (lt_nearestMagnitude_iff hx).1 hlt
  have hmid := midpoint_le_of_lt hx hlt
  rw [hk]
  unfold midpoint at hpast hmid
  refine ⟨by linarith, fun heq => ?_⟩
  have hm : m = m + k := magnitude_strictMono.injective (by linarith)
  obtain ⟨-, hodd⟩ := hpast.resolve_left (by linarith)
  omega

/-- So it is with a larger magnitude, but then the nearest one is even. -/
theorem le_magnitude_add_of_lt (hx : 0 ≤ x) (h : nearestMagnitude x < m) :
    2 * x ≤ magnitude m + magnitude (nearestMagnitude x) ∧
      (magnitude m + magnitude (nearestMagnitude x) = 2 * x →
        m = nearestMagnitude x + 1 ∧ nearestMagnitude x % 2 = 0) := by
  have hm : magnitude (nearestMagnitude x + 1) ≤ magnitude m := magnitude_strictMono.monotone h
  have hnot := (lt_nearestMagnitude_iff hx).not.1 (Nat.lt_irrefl _)
  have hmid := le_midpoint_of_le hx le_rfl
  unfold midpoint at hnot hmid
  refine ⟨by linarith, fun heq => ⟨?_, ?_⟩⟩
  · exact magnitude_strictMono.injective (by linarith)
  · by_contra hodd
    exact hnot (.inr ⟨by linarith, by omega⟩)

theorem abs_sub_nearestMagnitude_le (hx : 0 ≤ x) (m : ℕ) :
    |x - magnitude (nearestMagnitude x)| ≤ |x - magnitude m| := by
  rcases lt_trichotomy m (nearestMagnitude x) with h | h | h
  · have hsum := (magnitude_add_le_of_lt hx h).1
    have hlt := magnitude_strictMono h
    exact abs_le.2 ⟨by linarith [le_abs_self (x - magnitude m)],
      by linarith [le_abs_self (x - magnitude m)]⟩
  · rw [h]
  · have hsum := (le_magnitude_add_of_lt hx h).1
    have hlt := magnitude_strictMono h
    exact abs_le.2 ⟨by linarith [neg_abs_le (x - magnitude m)],
      by linarith [neg_abs_le (x - magnitude m)]⟩

/-- Of two magnitudes that are equally near the one with an even number is taken. -/
theorem parity_of_tie (hx : 0 ≤ x) (hm : m ≠ nearestMagnitude x)
    (h : |x - magnitude m| ≤ |x - magnitude (nearestMagnitude x)|) :
    nearestMagnitude x % 2 = 0 ∧ m % 2 = 1 := by
  rcases Nat.lt_or_gt_of_ne hm with hlt | hlt
  · obtain ⟨hsum, htie⟩ := magnitude_add_le_of_lt hx hlt
    have hmag := magnitude_strictMono hlt
    have heq : magnitude m + magnitude (nearestMagnitude x) = 2 * x := by
      rcases abs_cases (x - magnitude (nearestMagnitude x)) with ⟨habs, -⟩ | ⟨habs, -⟩ <;>
        linarith [le_abs_self (x - magnitude m)]
    have := htie heq
    omega
  · obtain ⟨hsum, htie⟩ := le_magnitude_add_of_lt hx hlt
    have hmag := magnitude_strictMono hlt
    have heq : magnitude m + magnitude (nearestMagnitude x) = 2 * x := by
      rcases abs_cases (x - magnitude (nearestMagnitude x)) with ⟨habs, -⟩ | ⟨habs, -⟩ <;>
        linarith [neg_abs_le (x - magnitude m)]
    have := htie heq
    omega

end

/-- Numbers below this are nearer to the last magnitude than to what would come after it. -/
def roundingLimit : ℚ := 2 ^ 1024 - 2 ^ 970

theorem cast_pow_sub_pow {i j : ℕ} (h : j ≤ i) : ((2 ^ i - 2 ^ j : ℕ) : ℚ) = 2 ^ i - 2 ^ j := by
  rw [Nat.cast_sub (Nat.pow_le_pow_right two_pos h), Nat.cast_pow, Nat.cast_pow, Nat.cast_two]

theorem natCast_lt_roundingLimit_iff {n : ℕ} :
    (n : ℚ) < roundingLimit ↔ n < 2 ^ 1024 - 2 ^ 970 := by
  rw [roundingLimit, ← cast_pow_sub_pow (by omega), Nat.cast_lt]

theorem midpoint_of_units {n a : ℕ} (h : units n + units (n + 1) = a * (2 * unitsPerOne)) :
    midpoint n = a := by
  have hone := unitsPerOne_cast_pos
  unfold midpoint magnitude
  generalize unitsPerOne = u at h hone ⊢
  have hcast : (units n + units (n + 1) : ℚ) = a * (2 * u) := by exact_mod_cast h
  rw [← add_div, hcast]
  field_simp

theorem midpoint_last : midpoint (magnitudeCount - 1) = roundingLimit := by
  have hunits : units (magnitudeCount - 1) + units (magnitudeCount - 1 + 1) =
      (2 ^ 1024 - 2 ^ 970) * (2 * unitsPerOne) := by decide +kernel
  rw [midpoint_of_units hunits, cast_pow_sub_pow (by omega), roundingLimit]

theorem roundingLimit_pos : 0 < roundingLimit := midpoint_last ▸ midpoint_pos _

theorem nearestMagnitude_lt_iff {x : ℚ} (hx : 0 ≤ x) :
    nearestMagnitude x < magnitudeCount ↔ x < roundingLimit := by
  have hlast := lt_nearestMagnitude_iff (n := magnitudeCount - 1) hx
  have hodd : (magnitudeCount - 1) % 2 = 1 := by decide +kernel
  have hpos : 0 < magnitudeCount := by decide +kernel
  rw [midpoint_last] at hlast
  have hle : roundingLimit ≤ x ↔ magnitudeCount - 1 < nearestMagnitude x := by
    rw [hlast, le_iff_lt_or_eq]
    simp [hodd]
  rw [← not_le, ← not_le (b := x), hle]
  omega

theorem midpoint_of_significand {k m : ℕ} (hm : m < 2 * binade) (h : k = 0 ∨ binade ≤ m) :
    midpoint (k * binade + m) = (2 * m + 1 : ℕ) * 2 ^ k / 2 ^ 1075 := by
  have hunits : units (k * binade + m) + units (k * binade + m + 1) = (2 * m + 1) * 2 ^ k := by
    rw [Nat.add_assoc, units_add hm.le h, units_add hm (h.imp_right Nat.le_succ_of_le),
      Nat.succ_eq_add_one]
    ring
  rw [midpoint_eq_div, hunits, unitsPerOne_eq, ← pow_succ', Nat.cast_mul, Nat.cast_pow,
    Nat.cast_pow, Nat.cast_two]

/-- Halfway between finite magnitudes there is a decimal of at most 768 digits. -/
theorem exists_value_eq_midpoint {n : ℕ} (h : n < magnitudeCount) :
    ∃ d : Decimal, d.coefficient < 10 ^ 768 ∧ d.value = midpoint n := by
  obtain ⟨k, m, rfl, hm, hk⟩ := exists_significand n
  rcases Nat.le_total k 1075 with hle | hle
  · obtain ⟨j, hj⟩ := Nat.exists_eq_add_of_le hle
    have hpow : (10 : ℚ) ^ j = 5 ^ j * 2 ^ j := by rw [← mul_pow]; norm_num
    refine ⟨⟨(2 * m + 1) * 5 ^ j, -j⟩, ?_, ?_⟩
    · have hfive : 5 ^ j ≤ 5 ^ 1075 := pow_le_pow_right₀ (by norm_num) (by omega)
      calc (2 * m + 1) * 5 ^ j ≤ 2 ^ 54 * 5 ^ 1075 := by
            refine Nat.mul_le_mul ?_ hfive
            rw [binade_eq] at hm
            omega
        _ < 10 ^ 768 := by decide +kernel
    · have htwo : (2 : ℚ) ^ 1075 = 2 ^ k * 2 ^ j := by rw [hj, pow_add]
      rw [midpoint_of_significand hm hk, htwo, Decimal.value, zpow_neg, zpow_natCast, hpow,
        Nat.cast_mul, Nat.cast_pow, Nat.cast_ofNat]
      field_simp
  · obtain ⟨j, rfl⟩ := Nat.exists_eq_add_of_le hle
    have hvalue : Decimal.value ⟨(2 * m + 1) * 2 ^ j, 0⟩ = midpoint ((1075 + j) * binade + m) := by
      rw [midpoint_of_significand hm hk, Decimal.value, zpow_zero, mul_one, pow_add, mul_left_comm,
        mul_div_cancel_left₀ _ (pow_ne_zero _ two_ne_zero), Nat.cast_mul, Nat.cast_pow,
        Nat.cast_two]
    have hj : j ≤ 970 := by
      have hm' := hk.resolve_left (by omega)
      have hcount : magnitudeCount = 2047 * binade := rfl
      have hlt : (1075 + j + 1) * binade < 2047 * binade := by
        rw [add_mul, one_mul]
        omega
      have := Nat.lt_of_mul_lt_mul_right hlt
      omega
    have htwo : 2 ^ j ≤ 2 ^ 970 := pow_le_pow_right₀ one_le_two hj
    refine ⟨_, ?_, hvalue⟩
    calc (2 * m + 1) * 2 ^ j ≤ 2 ^ 54 * 2 ^ 970 := by
          refine Nat.mul_le_mul ?_ htwo
          rw [binade_eq] at hm
          omega
      _ < 10 ^ 768 := by decide +kernel

end Binary64

end FormulaEditor
