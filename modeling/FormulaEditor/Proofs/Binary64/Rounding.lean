import FormulaEditor.Binary64.Shortest
import Mathlib.Algebra.Order.Field.Power
import Mathlib.Order.Monotone.Basic
import Mathlib.Tactic.FieldSimp
import Mathlib.Tactic.Linarith
import Mathlib.Tactic.Positivity
import Mathlib.Tactic.Ring
/-! Rounding to the nearest magnitude. Magnitudes increase with their numbers, so every number of
units lies in one gap between neighbours, and what is rounded is a quotient, however it is given. -/
namespace FormulaEditor
namespace Binary64

theorem binade_eq : binade = 2 ^ 52 := rfl

theorem binade_pos : 0 < binade := by decide +kernel

/-- Significand and exponent of a magnitude. A full significand is the first of the next binade. -/
theorem units_add {k m : ℕ} (hm : m ≤ 2 * binade) (h : k = 0 ∨ binade ≤ m) :
    units (k * binade + m) = m * 2 ^ k := by
  by_cases hlt : m < binade
  · obtain rfl : k = 0 := h.resolve_right (by omega)
    simp [units, hlt]
  · obtain ⟨r, rfl⟩ := Nat.exists_eq_add_of_le (Nat.le_of_not_lt hlt)
    have hge : ¬ k * binade + (binade + r) < binade := by omega
    rw [units, if_neg hge]
    by_cases hr : r < binade
    · have hn : k * binade + (binade + r) = r + (k + 1) * binade := by ring
      rw [hn, Nat.add_mul_mod_self_right, Nat.add_mul_div_right _ _ binade_pos,
        Nat.mod_eq_of_lt hr, Nat.div_eq_of_lt hr, Nat.zero_add, Nat.add_sub_cancel, Nat.pow_eq]
    · obtain rfl : r = binade := by omega
      have hn : k * binade + (binade + binade) = (k + 2) * binade := by ring
      rw [hn, Nat.mul_mod_left, Nat.mul_div_cancel _ binade_pos, Nat.add_succ_sub_one, Nat.pow_eq]
      ring

theorem exists_significand (n : ℕ) :
    ∃ k m, n = k * binade + m ∧ m < 2 * binade ∧ (k = 0 ∨ binade ≤ m) := by
  have hdiv := Nat.div_add_mod n binade
  have hmod := Nat.mod_lt n binade_pos
  cases hq : n / binade with
  | zero =>
    rw [hq, Nat.mul_zero, Nat.zero_add] at hdiv
    exact ⟨0, n, by simp, by omega, .inl rfl⟩
  | succ k =>
    refine ⟨k, binade + n % binade, ?_, by omega, .inr (by omega)⟩
    rw [hq] at hdiv
    linarith

/-- The next magnitude has the next significand, with the same exponent. -/
theorem exists_units_eq (n : ℕ) :
    ∃ k m, m < 2 * binade ∧ units n = m * 2 ^ k ∧ units (n + 1) = (m + 1) * 2 ^ k := by
  obtain ⟨k, m, rfl, hm, hk⟩ := exists_significand n
  refine ⟨k, m, hm, units_add hm.le hk, ?_⟩
  rw [Nat.add_assoc, units_add hm (hk.imp_right Nat.le_succ_of_le)]

theorem units_strictMono : StrictMono units := by
  refine strictMono_nat_of_lt_succ fun n => ?_
  obtain ⟨k, m, -, hn, hsucc⟩ := exists_units_eq n
  rw [hn, hsucc]
  exact Nat.mul_lt_mul_of_pos_right m.lt_succ_self (by positivity)

@[simp] theorem units_zero : units 0 = 0 := by decide +kernel

@[simp] theorem units_one : units 1 = 1 := by decide +kernel

/-- The number of units that are left of `u` once its last bits are dropped. -/
theorem exists_floorOfUnits_eq (u : ℕ) :
    ∃ k m, floorOfUnits u = k * binade + m ∧ m < 2 * binade ∧ (k = 0 ∨ binade ≤ m) ∧
      m * 2 ^ k ≤ u ∧ u < (m + 1) * 2 ^ k := by
  refine ⟨u.log2 - 52, u / 2 ^ (u.log2 - 52), rfl, ?_, ?_, Nat.div_mul_le_self _ _, ?_⟩
  · rw [Nat.div_lt_iff_lt_mul (by positivity), binade_eq, ← pow_succ', ← pow_add]
    exact Nat.lt_of_lt_of_le Nat.lt_log2_self (Nat.pow_le_pow_right (by omega) (by omega))
  · by_cases h : u.log2 ≤ 52
    · exact .inl (Nat.sub_eq_zero_of_le h)
    · right
      rw [Nat.le_div_iff_mul_le (by positivity), binade_eq, ← pow_add]
      have hu : u ≠ 0 := by
        rintro rfl
        simp at h
      calc 2 ^ (52 + (u.log2 - 52)) = 2 ^ u.log2 := by congr 1; omega
        _ ≤ u := Nat.log2_self_le hu
  · rw [mul_comm]
    exact Nat.lt_mul_div_succ u (by positivity)

theorem units_floorOfUnits_le (u : ℕ) : units (floorOfUnits u) ≤ u := by
  obtain ⟨k, m, hf, hm, hk, hle, _⟩ := exists_floorOfUnits_eq u
  rwa [hf, units_add hm.le hk]

theorem lt_units_floorOfUnits_succ (u : ℕ) : u < units (floorOfUnits u + 1) := by
  obtain ⟨k, m, hf, hm, hk, _, hlt⟩ := exists_floorOfUnits_eq u
  rwa [hf, Nat.add_assoc, units_add hm (hk.imp_right Nat.le_succ_of_le)]

theorem le_floorOfUnits_iff {n u : ℕ} : n ≤ floorOfUnits u ↔ units n ≤ u := by
  constructor
  · intro h
    exact (units_strictMono.monotone h).trans (units_floorOfUnits_le u)
  · intro h
    have hlt : units n < units (floorOfUnits u + 1) := h.trans_lt (lt_units_floorOfUnits_succ u)
    exact Nat.lt_succ_iff.1 (units_strictMono.lt_iff_lt.1 hlt)

@[simp] theorem floorOfUnits_units (n : ℕ) : floorOfUnits (units n) = n := by
  refine Nat.le_antisymm ?_ (le_floorOfUnits_iff.2 le_rfl)
  exact units_strictMono.le_iff_le.1 (units_floorOfUnits_le _)

theorem unitsPerOne_pos : 0 < unitsPerOne := by decide +kernel

theorem le_nearest {n num den : ℕ} (hden : 0 < den) (h : units n * den ≤ num * unitsPerOne) :
    n ≤ nearest num den := by
  have hf : n ≤ floorOfUnits (num * unitsPerOne / den) :=
    le_floorOfUnits_iff.2 ((Nat.le_div_iff_mul_le hden).2 h)
  unfold nearest
  dsimp only
  split
  · exact hf
  · split
    · exact hf.trans (Nat.le_succ _)
    · exact hf.trans (Nat.le_add_right _ _)

theorem nearest_of_eq {n num den : ℕ} (hden : 0 < den) (h : num * unitsPerOne = units n * den) :
    nearest num den = n := by
  have hlt : 2 * (units n * den) < (units n + units (n + 1)) * den := by
    have hsucc := Nat.mul_lt_mul_of_pos_right (units_strictMono n.lt_succ_self) hden
    linarith
  simp [nearest, h, Nat.mul_div_cancel _ hden, hlt]

theorem nearest_eq_zero {num den : ℕ} (h : 2 * (num * unitsPerOne) < den) :
    nearest num den = 0 := by
  have hf : floorOfUnits (num * unitsPerOne / den) = 0 := by
    rw [Nat.div_eq_of_lt (by omega)]
    simpa using floorOfUnits_units 0
  simp [nearest, hf, h]

theorem nearest_mul_right {num den k : ℕ} (hk : 0 < k) :
    nearest (num * k) (den * k) = nearest num den := by
  have hu : num * k * unitsPerOne = num * unitsPerOne * k := by ring
  have hlow (a : ℕ) : 2 * (num * unitsPerOne * k) < a * (den * k) ↔
      2 * (num * unitsPerOne) < a * den := by
    rw [← mul_assoc 2 _ k, ← mul_assoc a, Nat.mul_lt_mul_right hk]
  have hhigh (a : ℕ) : a * (den * k) < 2 * (num * unitsPerOne * k) ↔
      a * den < 2 * (num * unitsPerOne) := by
    rw [← mul_assoc 2 _ k, ← mul_assoc a, Nat.mul_lt_mul_right hk]
  simp only [nearest, hu, Nat.mul_div_mul_right _ _ hk, hlow, hhigh]

theorem nearest_congr {a b c d : ℕ} (hb : 0 < b) (hd : 0 < d) (h : a * d = c * b) :
    nearest a b = nearest c d := by
  rw [← nearest_mul_right hd, h, mul_comm b d, nearest_mul_right hb]

theorem ofMagnitude_coe (negative : Bool) (m : Fin magnitudeCount) :
    ofMagnitude negative m = .finite negative m := dif_pos m.isLt

theorem units_of_whole?_eq {negative : Bool} {m : Fin magnitudeCount} {n : ℕ}
    (h : (finite negative m).whole? = some n) : units m = n * unitsPerOne := by
  simp only [whole?] at h
  split at h
  · rename_i hmod
    obtain rfl := Option.some.inj h
    exact (Nat.div_mul_cancel (Nat.dvd_of_mod_eq_zero hmod)).symm
  · nomatch h

theorem whole?_of_units {negative : Bool} {m : Fin magnitudeCount} {n : ℕ}
    (h : units m = n * unitsPerOne) : (finite negative m).whole? = some n := by
  have hmod : units m % unitsPerOne = 0 := by rw [h, Nat.mul_mod_left]
  rw [whole?, if_pos hmod, h, Nat.mul_div_cancel _ unitsPerOne_pos]

theorem pos_of_units {m : Fin magnitudeCount} {n : ℕ} (hm : units m = n * unitsPerOne)
    (h0 : finite true m ≠ negativeZero) : 0 < n := by
  refine Nat.pos_of_ne_zero ?_
  rintro rfl
  have hzero : (m : ℕ) = 0 := units_strictMono.injective (by rw [hm, zero_mul, units_zero])
  exact h0 (by rw [← ofMagnitude_coe, hzero, negativeZero])

theorem ofInt_of_units {negative : Bool} {m : Fin magnitudeCount} {n : ℕ}
    (hm : units m = n * unitsPerOne) (h0 : finite negative m ≠ negativeZero) :
    ofInt (if negative then -n else n) = finite negative m := by
  have hnearest : nearest n 1 = m := nearest_of_eq Nat.one_pos (by rw [hm, mul_one])
  cases negative with
  | false =>
    have hsign : ¬ (n : ℤ) < 0 := by omega
    simp [ofInt, hnearest, hsign, ofMagnitude_coe]
  | true =>
    have hpos := pos_of_units hm h0
    simp [ofInt, hnearest, hpos, ofMagnitude_coe]

end Binary64

end FormulaEditor
