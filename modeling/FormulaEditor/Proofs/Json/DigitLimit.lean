import FormulaEditor.Proofs.Json.Spelling
/-! Numbers with more digits than are looked at. What is read for such a number lies between the
same neighbours as the number itself, and no midpoint does. So it is rounded in the same way, unless
the number is itself a midpoint. -/
namespace FormulaEditor
namespace Json

open Decimal Binary64

namespace Spelling

def exact (s : Spelling) : Decimal := .ofSpelling s.whole s.fraction (s.exponent.getD 0)

theorem value_eq (s : Spelling) : s.value = withSign s.negative s.exact.value := rfl

theorem abs_value (s : Spelling) : |s.value| = s.exact.value := by
  rw [value_eq, abs_withSign, abs_of_nonneg s.exact.value_nonneg]

variable {s : Spelling} {n : ℕ}

theorem IsLong.pow_le (h : s.IsLong) : 10 ^ 768 ≤ digitsValue (s.whole ++ s.fraction) :=
  h _ 0 (Nat.zero_le _) (by simp [digitsValue])

theorem exists_significantFraction_eq (h : s.significantFraction ≠ []) :
    ∃ ds d, s.significantFraction = ds ++ [d] ∧ d ≠ '0' := by
  unfold significantFraction at h ⊢
  cases hdrop : s.fraction.reverse.dropWhile (· == '0') with
  | nil => simp [hdrop] at h
  | cons d ds =>
    have hnot := List.head_dropWhile_not (· == '0') (l := s.fraction.reverse) (by simp [hdrop])
    exact ⟨ds.reverse, d, by simp, by simpa [hdrop] using hnot⟩

theorem not_dvd_digitsValue (hd : AreDigits (s.whole ++ s.fraction))
    (h : s.significantFraction ≠ []) : ¬ 10 ∣ digitsValue s.digits := by
  obtain ⟨ds, d, hds, hne⟩ := exists_significantFraction_eq h
  obtain ⟨k, hk⟩ := s.exists_fraction_eq
  have hdigit : d.isDigit = true := hd d (by simp [hk, hds])
  have hpos : 10 ^ [].length ≤ digitsValue [d] := Decimal.pow_le_digitsValue hdigit hne
  rw [List.length_nil, pow_zero] at hpos
  have hlt : digitsValue [d] < 10 := digitsValue_lt (by simpa [AreDigits] using hdigit)
  rw [digitsValue_digits, hds, ← List.append_assoc, digitsValue_append, List.length_singleton,
    pow_one]
  omega

theorem pow_le_digitsValue_digits (hd : AreDigits (s.whole ++ s.fraction))
    (hlong : digitLimit < s.digits.length) : 10 ^ digitLimit ≤ digitsValue s.digits := by
  cases hcs : s.digits with
  | nil => simp [hcs] at hlong
  | cons d ds =>
    rw [hcs, List.length_cons] at hlong
    have hdigits : s.digits = d :: ds ++ [] := by rw [hcs, List.append_nil]
    exact (Nat.pow_le_pow_right (by decide) (Nat.le_of_lt_succ hlong)).trans
      (pow_le_digitsValue hd hdigits)

/-- Only zeros can be left out at the end, so the digits that count are never lost. -/
theorem digitsValue_digits_le (hd : AreDigits (s.whole ++ s.fraction)) {c k : ℕ}
    (hk : k ≤ s.fraction.length) (hc : digitsValue (s.whole ++ s.fraction) = c * 10 ^ k) :
    digitsValue s.digits ≤ c := by
  obtain ⟨k₀, hlen, hvalue⟩ := s.exists_digitsValue_eq
  rw [hvalue] at hc
  rcases Nat.lt_or_ge k₀ k with hlt | hle
  · obtain ⟨j, rfl⟩ := Nat.exists_eq_add_of_lt hlt
    have hne : s.significantFraction ≠ [] := by
      intro hnil
      rw [hnil, List.length_nil] at hlen
      omega
    have hmul : digitsValue s.digits = c * 10 ^ j * 10 :=
      Nat.eq_of_mul_eq_mul_right (Nat.pow_pos (by decide : 0 < 10) (n := k₀)) (by rw [hc]; ring)
    exact absurd ⟨_, hmul.trans (Nat.mul_comm ..)⟩ (not_dvd_digitsValue hd hne)
  · obtain ⟨j, rfl⟩ := Nat.exists_eq_add_of_le hle
    have hmul : c = digitsValue s.digits * 10 ^ j :=
      Nat.eq_of_mul_eq_mul_right (Nat.pow_pos (by decide : 0 < 10) (n := k)) (by rw [← hc]; ring)
    rw [hmul]
    exact Nat.le_mul_of_pos_right _ (Nat.pow_pos (by decide))

theorem isLong_iff (hd : AreDigits (s.whole ++ s.fraction)) :
    s.IsLong ↔ digitLimit < s.digits.length := by
  rw [IsLong, show 768 = digitLimit from rfl]
  constructor
  · intro h
    obtain ⟨k, hlen, hvalue⟩ := s.exists_digitsValue_eq
    have hpow := h _ k (by omega) hvalue
    have hlt := digitsValue_lt (areDigits_digits hd)
    exact (Nat.pow_lt_pow_iff_right (by decide)).1 (hpow.trans_lt hlt)
  · intro hlong c k hk hc
    exact (pow_le_digitsValue_digits hd hlong).trans (digitsValue_digits_le hd hk hc)

/-- The digits up to the limit say between which neighbours the number lies, and what is read for it
lies there, too. -/
theorem exists_neighbours (hd : AreDigits (s.whole ++ s.fraction))
    (hlong : digitLimit < s.digits.length) :
    ∃ a e, 10 ^ digitLimit ≤ a * 10 ∧
      (Decimal.value ⟨a, e⟩ ≤ s.exact.value ∧ s.exact.value < Decimal.value ⟨a + 1, e⟩) ∧
      Decimal.value ⟨a, e⟩ < s.decimal.value ∧ s.decimal.value < Decimal.value ⟨a + 1, e⟩ := by
  obtain ⟨e, he⟩ : ∃ e : ℤ, s.exponent.getD 0 - s.significantFraction.length = e := ⟨_, rfl⟩
  obtain ⟨k, hk⟩ := Nat.exists_eq_add_of_lt hlong
  obtain ⟨head, tail, hdigits, hhead⟩ : ∃ head tail, s.digits = head ++ tail ∧
      head.length = digitLimit :=
    ⟨_, _, (List.take_append_drop digitLimit _).symm, List.length_take_of_le hlong.le⟩
  have htail : tail.length = k + 1 := by
    rw [hdigits, List.length_append, hhead] at hk
    omega
  have hexact : s.exact.value =
      Decimal.value ⟨digitsValue head * 10 ^ (k + 1) + digitsValue tail, e⟩ := by
    rw [exact, ← value_digits, hdigits, digitsValue_append, htail, he]
  have hdecimal : s.decimal = ⟨digitsValue head * 10 + 1, e + k⟩ := by
    have hsurplus : s.digits.length - digitLimit = k + 1 := by omega
    have htake : s.digits.take digitLimit = head := by rw [hdigits, ← hhead, List.take_left]
    have hone : digitsValue (head ++ ['1']) = digitsValue head * 10 + 1 := digitsValue_append ..
    simp only [decimal, he, hsurplus, htake, hone, Nat.succ_ne_zero, if_false, Decimal.mk.injEq,
      true_and]
    push_cast
    ring
  have hzeros (a : ℕ) : Decimal.value ⟨a, e + (k + 1 : ℕ)⟩ = Decimal.value ⟨a * 10 ^ (k + 1), e⟩ :=
    (value_zeros ..).symm
  have hzero (a : ℕ) : Decimal.value ⟨a, e + (k + 1 : ℕ)⟩ = Decimal.value ⟨a * 10, e + k⟩ := by
    rw [← pow_one 10, value_zeros, Nat.cast_succ, Nat.cast_one, add_assoc]
  refine ⟨digitsValue head, e + (k + 1 : ℕ), ?_, ⟨?_, ?_⟩, ?_, ?_⟩
  · cases head with
    | nil => exact absurd hhead (by decide)
    | cons c cs =>
      rw [← hhead, List.length_cons, pow_succ]
      exact Nat.mul_le_mul_right _ (pow_le_digitsValue hd hdigits)
  · rw [hexact, hzeros, value_le_value_iff]
    exact Nat.le_add_right ..
  · have htail' : digitsValue tail < 10 ^ (k + 1) := by
      rw [← htail]
      refine digitsValue_lt fun c hc => areDigits_digits hd c ?_
      rw [hdigits]
      exact List.mem_append_right _ hc
    rw [hexact, hzeros, value_lt_value_iff, add_mul, one_mul]
    exact Nat.add_lt_add_left htail' _
  · rw [hdecimal, hzero, value_lt_value_iff]
    omega
  · rw [hdecimal, hzero, value_lt_value_iff]
    omega

/-- On its way through the midpoints the number that is read goes past those that the spelled number
goes past, and past the one that it is itself. -/
theorem lt_nearestMagnitude_decimal_iff (hd : AreDigits (s.whole ++ s.fraction))
    (hlong : digitLimit < s.digits.length) (hn : n < magnitudeCount) :
    n < nearestMagnitude s.decimal.value ↔ midpoint n ≤ s.exact.value := by
  obtain ⟨a, e, ha, ⟨hle, hlt⟩, hread, hread'⟩ := exists_neighbours hd hlong
  obtain ⟨d, hc, hmid⟩ := exists_value_eq_midpoint hn
  rw [show 768 = digitLimit from rfl] at hc
  have hside := value_le_or_le (e := e) hc ha
  rw [← hmid]
  constructor
  · intro h
    have hpast := midpoint_le_of_lt s.decimal.value_nonneg h
    rw [← hmid] at hpast
    rcases hside with h | h <;> linarith
  · intro h
    rw [lt_nearestMagnitude_iff s.decimal.value_nonneg, ← hmid]
    left
    rcases hside with h | h <;> linarith

/-- Unless the digit behind the limit makes the difference, the number that is read is rounded as
the one that is spelled. -/
theorem nearestMagnitude_decimal (hd : AreDigits (s.whole ++ s.fraction))
    (hlimit : s.exact.value < roundingLimit) (htie : ¬ s.IsLongTie) :
    nearestMagnitude s.decimal.value = nearestMagnitude s.exact.value := by
  have hx := s.exact.value_nonneg
  rcases Nat.lt_or_ge digitLimit s.digits.length with hlong | hshort
  · have hcount := (nearestMagnitude_lt_iff hx).2 hlimit
    have hiff (n : ℕ) (hn : n < magnitudeCount) :
        n < nearestMagnitude s.decimal.value ↔ n < nearestMagnitude s.exact.value := by
      rw [lt_nearestMagnitude_decimal_iff hd hlong hn, lt_nearestMagnitude_iff hx, le_iff_lt_or_eq]
      refine or_congr_right ⟨fun h => ⟨h, ?_⟩, fun h => h.1⟩
      by_contra heven
      exact htie ⟨(isLong_iff hd).2 hlong, n, by omega, by rw [abs_value, h]⟩
    have hle : ¬ nearestMagnitude s.exact.value < nearestMagnitude s.decimal.value := fun h =>
      absurd ((hiff _ hcount).1 h) (Nat.lt_irrefl _)
    have hge : ¬ nearestMagnitude s.decimal.value < nearestMagnitude s.exact.value := fun h =>
      absurd ((hiff _ (h.trans hcount)).2 h) (Nat.lt_irrefl _)
    omega
  · rw [s.value_decimal hshort]
    rfl

/-- There the other one of the two doubles is taken. -/
theorem nearestMagnitude_decimal_of_isLongTie (hd : AreDigits (s.whole ++ s.fraction))
    (hlimit : s.exact.value < roundingLimit) (htie : s.IsLongTie) :
    ∃ n, n % 2 = 0 ∧ n + 1 < magnitudeCount ∧ s.exact.value = midpoint n ∧
      nearestMagnitude s.exact.value = n ∧ nearestMagnitude s.decimal.value = n + 1 := by
  obtain ⟨hlong, n, heven, hmid⟩ := htie
  rw [isLong_iff hd] at hlong
  rw [abs_value] at hmid
  have hnearest : nearestMagnitude s.exact.value = n := by
    rw [hmid, nearestMagnitude_midpoint heven]
  have hcount : n < magnitudeCount :=
    hnearest ▸ (nearestMagnitude_lt_iff s.exact.value_nonneg).2 hlimit
  have hodd : (magnitudeCount - 1) % 2 = 1 := by decide +kernel
  refine ⟨n, heven, by omega, hmid, hnearest, ?_⟩
  have hpast := (lt_nearestMagnitude_decimal_iff hd hlong hcount).2 hmid.ge
  have hnext := (lt_nearestMagnitude_decimal_iff (n := n + 1) hd hlong (by omega)).not.2
    (not_le.2 (hmid.trans_lt (midpoint_strictMono n.lt_succ_self)))
  omega

theorem nearestMagnitude_decimal_lt_iff (hd : AreDigits (s.whole ++ s.fraction)) :
    nearestMagnitude s.decimal.value < magnitudeCount ↔ s.exact.value < roundingLimit := by
  rcases Nat.lt_or_ge digitLimit s.digits.length with hlong | hshort
  · have hpos : 0 < magnitudeCount := by decide +kernel
    have hlast := lt_nearestMagnitude_decimal_iff (n := magnitudeCount - 1) hd hlong (by omega)
    rw [midpoint_last] at hlast
    rw [← not_le (a := roundingLimit), ← hlast]
    omega
  · rw [s.value_decimal hshort]
    exact nearestMagnitude_lt_iff s.exact.value_nonneg

end Spelling

end Json

end FormulaEditor
