import FormulaEditor.Proofs.Json.DigitLimit
/-! Which numeral is read for a number. It is the one that the grammar says the number stands for:
an integer of 64 bits is kept, and everything else in range is rounded to a double. -/
namespace FormulaEditor
namespace Json

open Binary64 Decimal

theorem Numeral.ofDecimal?_eq_some_iff {negative : Bool} {d : Decimal} {n : Numeral} :
    ofDecimal? negative d = some n ↔
      ∃ m : Fin magnitudeCount, nearestMagnitude d.value = m ∧ n = .float negative m := by
  rw [ofDecimal?, ofDecimal_eq, nearestDecimal_eq, ofMagnitude]
  by_cases h : nearestMagnitude d.value < magnitudeCount
  · rw [dif_pos h, Option.some.injEq]
    constructor
    · rintro rfl
      exact ⟨⟨_, h⟩, rfl, rfl⟩
    · rintro ⟨m, hm, rfl⟩
      simp [hm]
  · rw [dif_neg h]
    refine iff_of_false (Option.some_ne_none n).symm ?_
    rintro ⟨m, hm, -⟩
    exact h (hm ▸ m.isLt)

theorem Numeral.ofInteger?_eq_integer_iff {negative : Bool} {n : ℕ} {i : ℤ} :
    ofInteger? negative n = some (.integer i) ↔
      withSign negative n = i ∧ -2 ^ 63 ≤ i ∧ i < 2 ^ 64 ∧ (negative = true → i < 0) := by
  have hdecimal : ofDecimal? negative ⟨n, 0⟩ ≠ some (.integer i) := by
    simp [ofDecimal?_eq_some_iff]
  have hcast : withSign negative n = i ↔ (if negative then -(n : ℤ) else n) = i := by
    cases negative <;> simp only [withSign, Bool.false_eq_true, if_true, if_false] <;> norm_cast
  rw [hcast]
  cases negative with
  | true =>
    simp only [ofInteger?, if_true, true_imp_iff]
    split <;> rename_i hn
    · simp only [Nat.pow_eq, Option.some.injEq, integer.injEq] at hn ⊢
      omega
    · simp only [hdecimal, false_iff, Nat.pow_eq] at hn ⊢
      omega
  | false =>
    simp only [ofInteger?, Bool.false_eq_true, if_false, false_imp_iff, and_true]
    split <;> rename_i hn
    · simp only [Nat.pow_eq, Option.some.injEq, integer.injEq] at hn ⊢
      omega
    · simp only [hdecimal, false_iff, Nat.pow_eq] at hn ⊢
      omega

theorem Numeral.ofInteger?_eq_ofDecimal? {negative : Bool} {n : ℕ}
    (h : ∀ i, ofInteger? negative n ≠ some (.integer i)) :
    ofInteger? negative n = ofDecimal? negative ⟨n, 0⟩ := by
  unfold ofInteger? at h ⊢
  split <;> split <;> simp_all

namespace Spelling

variable {s : Spelling}

theorem isRoundedTo_iff_of_isLongTie (hd : AreDigits (s.whole ++ s.fraction))
    (hlimit : s.exact.value < roundingLimit) (hlong : s.IsLongTie) {m : Fin magnitudeCount} :
    s.IsRoundedTo m ↔ nearestMagnitude s.decimal.value = m := by
  obtain ⟨n, heven, hn, hmid, hnear, hread⟩ := nearestMagnitude_decimal_of_isLongTie hd hlimit hlong
  rw [hread]
  constructor
  · rintro ⟨-, hnearest, htie⟩
    rw [abs_value, hmid] at hnearest htie
    have heq : |midpoint n - magnitude m| = |midpoint n - magnitude n| := by
      have hle := abs_sub_nearestMagnitude_le (midpoint_pos n).le m
      rw [nearestMagnitude_midpoint heven] at hle
      exact le_antisymm (hnearest ⟨n, by omega⟩) hle
    refine ((eq_or_eq_of_abs_midpoint_sub heq).resolve_left fun hm => ?_).symm
    -- the even one has the odd one beside it
    have hne : (⟨n + 1, hn⟩ : Fin magnitudeCount) ≠ m := fun h => by
      have hval : n + 1 = m := congrArg Fin.val h
      omega
    have hodd := (htie ⟨n + 1, hn⟩ hne (by rw [hm, abs_midpoint_sub])).2 hlong
    omega
  · intro hm
    refine ⟨by rwa [abs_value], fun k => ?_, fun k _ _ => iff_of_true (by omega) hlong⟩
    have hle := abs_sub_nearestMagnitude_le (midpoint_pos n).le k
    rwa [nearestMagnitude_midpoint heven, ← abs_midpoint_sub, hm, ← hmid, ← abs_value] at hle

theorem isRoundedTo_iff_of_not_isLongTie (hd : AreDigits (s.whole ++ s.fraction))
    (hlimit : s.exact.value < roundingLimit) (hlong : ¬ s.IsLongTie) {m : Fin magnitudeCount} :
    s.IsRoundedTo m ↔ nearestMagnitude s.decimal.value = m := by
  have hx := s.exact.value_nonneg
  rw [nearestMagnitude_decimal hd hlimit hlong]
  constructor
  · rintro ⟨-, hnearest, htie⟩
    rw [abs_value] at hnearest htie
    have hlt := (nearestMagnitude_lt_iff hx).2 hlimit
    have hle := hnearest ⟨_, hlt⟩
    by_contra hne
    obtain ⟨-, hodd⟩ := parity_of_tie hx (Ne.symm hne) hle
    have heq : |s.exact.value - magnitude (nearestMagnitude s.exact.value)| =
        |s.exact.value - magnitude m| := le_antisymm (abs_sub_nearestMagnitude_le hx m) hle
    exact hlong ((htie ⟨_, hlt⟩ (fun h => hne (congrArg Fin.val h)) heq).1 hodd)
  · intro hm
    refine ⟨by rwa [abs_value], fun k => ?_, fun k hk heq => ?_⟩
    · rw [abs_value, ← hm]
      exact abs_sub_nearestMagnitude_le hx k
    · rw [abs_value, ← hm] at heq
      have hne : (k : ℕ) ≠ nearestMagnitude s.exact.value := hm ▸ Fin.val_ne_of_ne hk
      obtain ⟨heven, -⟩ := parity_of_tie hx hne heq.le
      exact iff_of_false (by omega) hlong

theorem isRoundedTo_iff (hd : AreDigits (s.whole ++ s.fraction)) {m : Fin magnitudeCount} :
    s.IsRoundedTo m ↔ nearestMagnitude s.decimal.value = m := by
  by_cases hlimit : s.exact.value < roundingLimit
  · by_cases hlong : s.IsLongTie
    · exact isRoundedTo_iff_of_isLongTie hd hlimit hlong
    · exact isRoundedTo_iff_of_not_isLongTie hd hlimit hlong
  · refine iff_of_false (fun h => hlimit ?_) fun h => hlimit ?_
    · rw [← abs_value]
      exact h.inRange
    · exact (nearestMagnitude_decimal_lt_iff hd).1 (h ▸ m.isLt)

/-- A number that is spelled like an integer has few digits if it is in range. -/
theorem value_decimal_of_integer (hd : AreDigits (s.whole ++ s.fraction))
    (hlimit : s.exact.value < roundingLimit) (hfraction : s.fraction = [])
    (hexponent : s.exponent = none) :
    s.exact.value = digitsValue s.whole ∧ s.decimal.value = digitsValue s.whole := by
  have hexact : s.exact.value = digitsValue s.whole := by
    simp [exact, ofSpelling, Decimal.value, hfraction, hexponent]
  refine ⟨hexact, ?_⟩
  rw [← hexact]
  refine value_decimal (length_digits_le hd ?_)
  rw [hfraction, List.append_nil]
  have hpow : 2 ^ 1024 - 2 ^ 970 < 10 ^ digitLimit := by decide +kernel
  rw [hexact, natCast_lt_roundingLimit_iff] at hlimit
  exact hlimit.trans hpow

theorem isInteger_iff {i : ℤ} : s.IsInteger i ↔
    s.fraction = [] ∧ s.exponent = none ∧
      Numeral.ofInteger? s.negative (digitsValue s.whole) = some (.integer i) := by
  rw [Numeral.ofInteger?_eq_integer_iff]
  have hvalue (hfraction : s.fraction = []) (hexponent : s.exponent = none) :
      s.value = withSign s.negative (digitsValue s.whole) := by
    simp [value, spelledValue, digitsValue, hfraction, hexponent]
  constructor
  · rintro ⟨hfraction, hexponent, hi, hlower, hupper, hsign⟩
    rw [hvalue hfraction hexponent] at hi
    exact ⟨hfraction, hexponent, hi, hlower, hupper, hsign⟩
  · rintro ⟨hfraction, hexponent, hi, hlower, hupper, hsign⟩
    exact ⟨hfraction, hexponent, (hvalue hfraction hexponent).trans hi, hlower, hupper, hsign⟩

theorem IsInteger.eq {i j : ℤ} (hi : s.IsInteger i) (hj : s.IsInteger j) : i = j :=
  Int.cast_injective (hi.value.symm.trans hj.value)

theorem numeral?_of_isInteger {i : ℤ} (h : s.IsInteger i) : s.numeral? = some (.integer i) := by
  obtain ⟨hfraction, hexponent, hi⟩ := isInteger_iff.1 h
  simp only [numeral?, hfraction, hexponent, hi]

theorem exists_numeral?_eq_ofDecimal? (hd : AreDigits (s.whole ++ s.fraction))
    (h : ∀ i, ¬ s.IsInteger i) :
    ∃ d, s.numeral? = Numeral.ofDecimal? s.negative d ∧
      ∀ m : Fin magnitudeCount, nearestMagnitude d.value = m ↔ s.IsRoundedTo m := by
  by_cases hinteger : s.fraction = [] ∧ s.exponent = none
  · obtain ⟨hfraction, hexponent⟩ := hinteger
    have hread : s.numeral? = Numeral.ofInteger? s.negative (digitsValue s.whole) := by
      simp only [numeral?, hfraction, hexponent]
    rw [Numeral.ofInteger?_eq_ofDecimal? fun i hi =>
      h i (isInteger_iff.2 ⟨hfraction, hexponent, hi⟩)] at hread
    refine ⟨_, hread, fun m => ?_⟩
    have hvalue : Decimal.value ⟨digitsValue s.whole, 0⟩ = s.exact.value := by
      simp [exact, ofSpelling, hfraction, hexponent]
    rw [isRoundedTo_iff hd, hvalue]
    -- both are in range or neither is, and in range all digits are looked at
    have hsame (hlimit : s.exact.value < roundingLimit) : s.exact.value = s.decimal.value := by
      obtain ⟨hexact, hdecimal⟩ := value_decimal_of_integer hd hlimit hfraction hexponent
      rw [hexact, hdecimal]
    constructor
    · intro hm
      rwa [← hsame ((nearestMagnitude_lt_iff s.exact.value_nonneg).1 (hm ▸ m.isLt))]
    · intro hm
      rwa [hsame ((nearestMagnitude_decimal_lt_iff hd).1 (hm ▸ m.isLt))]
  · refine ⟨s.decimal, ?_, fun m => (isRoundedTo_iff hd).symm⟩
    unfold numeral?
    split
    · exact absurd ⟨‹_›, ‹_›⟩ hinteger
    · rfl

/-- A number is read as the numeral that it stands for. -/
theorem numeral?_eq_some_iff (hd : AreDigits (s.whole ++ s.fraction)) {n : Numeral} :
    s.numeral? = some n ↔ s.StandsFor n := by
  by_cases h : ∃ i, s.IsInteger i
  · obtain ⟨i, hi⟩ := h
    rw [numeral?_of_isInteger hi, Option.some.injEq]
    constructor
    · rintro rfl
      exact .integer hi
    · rintro (hj | ⟨hnot, -⟩)
      · rw [hi.eq hj]
      · exact absurd hi (hnot i)
  · have hnot := not_exists.1 h
    obtain ⟨d, hread, hd⟩ := exists_numeral?_eq_ofDecimal? hd hnot
    rw [hread, Numeral.ofDecimal?_eq_some_iff]
    constructor
    · rintro ⟨m, hm, rfl⟩
      exact .float hnot ((hd m).1 hm)
    · rintro (hi | ⟨-, hm⟩)
      · exact absurd hi (hnot _)
      · exact ⟨_, (hd _).2 hm, rfl⟩

/-- Every number in range stands for a numeral, integers and others alike. -/
theorem exists_standsFor (hd : AreDigits (s.whole ++ s.fraction))
    (hlimit : s.exact.value < roundingLimit) :
    ∃ n, s.StandsFor n ∧
      n.toBinary64 = ofMagnitude s.negative (nearestMagnitude s.decimal.value) := by
  by_cases h : ∃ i, s.IsInteger i
  · obtain ⟨i, hi⟩ := h
    obtain ⟨hexact, hdecimal⟩ := value_decimal_of_integer hd hlimit hi.fraction hi.exponent
    have habs : i.natAbs = digitsValue s.whole := by
      rw [← s.abs_value, hi.value] at hexact
      exact_mod_cast (Nat.cast_natAbs (α := ℚ) i).trans ((Int.cast_abs (R := ℚ)).trans hexact)
    have hsign : decide (i < 0) = s.negative := by
      cases hs : s.negative with
      | true => exact decide_eq_true (hi.sign hs)
      | false =>
        have hvalue := hi.value
        rw [value_eq, hs] at hvalue
        have hnonneg : (0 : ℚ) ≤ i := hvalue ▸ s.exact.value_nonneg
        exact decide_eq_false (not_lt.2 (by exact_mod_cast hnonneg))
    refine ⟨_, .integer hi, ?_⟩
    rw [Numeral.toBinary64, ofInt, hdecimal, nearestMagnitude_natCast, habs, hsign]
  · have hcount := (nearestMagnitude_decimal_lt_iff hd).2 hlimit
    have hm := (isRoundedTo_iff hd (m := ⟨_, hcount⟩)).2 rfl
    exact ⟨_, .float (not_exists.1 h) hm, (ofMagnitude_coe s.negative ⟨_, hcount⟩).symm⟩

end Spelling

end Json

end FormulaEditor
