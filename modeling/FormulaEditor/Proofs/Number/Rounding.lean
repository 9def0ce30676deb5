import FormulaEditor.Number.Basic
import FormulaEditor.Proofs.Binary64.Midpoint
import FormulaEditor.Proofs.Decimal.Order
/-! What it means for a literal to be a number correctly rounded: no literal is nearer, and of two
that are equally near it is the one with an even significand. There is one such literal for every
number below the limit, and at the limit the literals become infinite. -/
namespace FormulaEditor
open Binary64

def Json.Numeral.rational : Json.Numeral → ℚ
  | integer i => i
  | float negative m => withSign negative (magnitude m)

namespace Number

def rational? (a : Number) : Option ℚ :=
  match a.value with
  | .finite negative m => some (withSign negative (magnitude m))
  | _ => none

/-- No finite literal is nearer. -/
def IsNearest (a : Number) (q : ℚ) : Prop :=
  ∃ x, a.rational? = some x ∧ ∀ (b : Number) (y : ℚ), b.rational? = some y → |q - x| ≤ |q - y|

/-- The last bit is zero. -/
def IsEven (a : Number) : Prop := ∀ negative m, a.value = .finite negative m → (m : ℕ) % 2 = 0

/-- The literal is the number rounded to a double, with ties to even. What is not below the limit is
rounded to no finite double. -/
structure IsRounding (a : Number) (q : ℚ) : Prop where
  inRange : |q| < roundingLimit
  nearest : a.IsNearest q
  even : ∀ b ≠ a, b.IsNearest q → a.IsEven

/-- The double that a number is rounded to, be it in range or not. -/
inductive Approximates (a : Number) (q : ℚ) : Prop
  | rounded (h : a.IsRounding q)
  | overflow (hlimit : roundingLimit ≤ |q|) (h : a.value = .infinity (decide (q < 0)))

theorem rational?_eq_some_iff {a : Number} {x : ℚ} :
    a.rational? = some x ↔ ∃ negative m, a.value = .finite negative m ∧
      withSign negative (magnitude m) = x := by
  unfold rational?
  rcases a.value with _ | negative | ⟨negative, m⟩
  · simp
  · simp
  · constructor
    · exact fun h => ⟨negative, m, rfl, Option.some.inj h⟩
    · rintro ⟨negative', m', h, rfl⟩
      obtain ⟨rfl, rfl⟩ := Binary64.finite.inj h
      rfl

theorem ofBinary64_finite {negative : Bool} {m : Fin magnitudeCount} {a : Number}
    (h : a.value = .finite negative m) : ofBinary64 (ofMagnitude negative m) = a := by
  rw [ofMagnitude_coe, ← h, ofBinary64_value]

theorem ofBinary64_zero (negative : Bool) : ofBinary64 (ofMagnitude negative 0) = zero := by
  cases negative <;> decide +kernel

theorem eq_of_ofMagnitude_eq {negative negative' : Bool} {n : ℕ} {m : Fin magnitudeCount}
    (h : ofMagnitude negative n = .finite negative' m) : n = m := by
  unfold ofMagnitude at h
  split at h
  · exact congrArg Fin.val (Binary64.finite.inj h).2
  · nomatch h

/-- At most the sign of a magnitude changes when it becomes a literal, and only that of zero. -/
theorem exists_value_ofBinary64 (negative : Bool) (n : ℕ) :
    ∃ negative', (ofBinary64 (ofMagnitude negative n)).value = ofMagnitude negative' n ∧
      withSign negative' (magnitude n) = withSign negative (magnitude n) := by
  by_cases h0 : n = 0
  · refine ⟨false, ?_, ?_⟩
    · rw [h0, ofBinary64_zero]
      rfl
    · simp [withSign, h0]
  · have hne : ofMagnitude negative n ≠ negativeZero := by
      intro h
      rw [show negativeZero = .finite true ⟨0, by decide +kernel⟩ from rfl] at h
      exact h0 (eq_of_ofMagnitude_eq h)
    exact ⟨negative, by rw [ofBinary64, dif_neg hne], rfl⟩

theorem rational?_ofBinary64 (negative : Bool) {n : ℕ} (h : n < magnitudeCount) :
    (ofBinary64 (ofMagnitude negative n)).rational? = some (withSign negative (magnitude n)) := by
  obtain ⟨negative', hvalue, hsign⟩ := exists_value_ofBinary64 negative n
  exact rational?_eq_some_iff.2 ⟨negative', ⟨n, h⟩, by rw [hvalue, ofMagnitude, dif_pos h], hsign⟩

theorem eq_of_ofBinary64_eq {negative : Bool} {n k : ℕ} (hn : n < magnitudeCount)
    (hk : k < magnitudeCount)
    (h : ofBinary64 (ofMagnitude negative n) = ofBinary64 (ofMagnitude negative k)) : n = k := by
  have hrational := congrArg rational? h
  rw [rational?_ofBinary64 negative hn, rational?_ofBinary64 negative hk] at hrational
  have habs := congrArg abs (Option.some.inj hrational)
  rw [abs_withSign, abs_withSign, abs_of_nonneg (magnitude_nonneg n),
    abs_of_nonneg (magnitude_nonneg k)] at habs
  exact magnitude_strictMono.injective habs

section

variable {negative : Bool} {a b : Number} {x y : ℚ}

theorem abs_sub_le_abs_withSign_sub (negative negative' : Bool) (hx : 0 ≤ x) (hy : 0 ≤ y) :
    |x - y| ≤ |withSign negative x - withSign negative' y| := by
  have h := abs_abs_sub_abs_le (withSign negative x) (withSign negative' y)
  rwa [abs_withSign, abs_withSign, abs_of_nonneg hx, abs_of_nonneg hy] at h

theorem abs_sub_lt_abs_withSign_sub_not (negative : Bool) (hx : 0 < x) (hy : 0 < y) :
    |x - y| < |withSign negative x - withSign (!negative) y| := by
  have hsum : |withSign negative x - withSign (!negative) y| = x + y := by
    have hpos := (add_pos hx hy).le
    cases negative
    · simpa [withSign] using hpos
    · rw [← abs_neg]
      simpa [withSign, add_comm] using hpos
  rw [hsum, abs_sub_lt_iff]
  constructor <;> linarith

theorem abs_withSign_sub (negative : Bool) (x y : ℚ) :
    |withSign negative x - withSign negative y| = |x - y| := by
  cases negative
  · rfl
  · rw [withSign, withSign, if_pos rfl, if_pos rfl, neg_sub_neg, abs_sub_comm]

theorem isNearest_ofBinary64 (hx : 0 ≤ x) (hlimit : x < roundingLimit) :
    (ofBinary64 (ofMagnitude negative (nearestMagnitude x))).IsNearest (withSign negative x) := by
  refine ⟨_, rational?_ofBinary64 negative ((nearestMagnitude_lt_iff hx).2 hlimit), ?_⟩
  intro b y hb
  obtain ⟨negative', m, -, rfl⟩ := rational?_eq_some_iff.1 hb
  rw [abs_withSign_sub]
  exact (abs_sub_nearestMagnitude_le hx m).trans
    (abs_sub_le_abs_withSign_sub negative negative' hx (magnitude_nonneg m))

theorem isNearest_midpoint {n : ℕ} (heven : n % 2 = 0) (h : n + 1 < magnitudeCount) :
    (ofBinary64 (ofMagnitude negative (n + 1))).IsNearest (withSign negative (midpoint n)) := by
  have hx := (midpoint_pos n).le
  refine ⟨_, rational?_ofBinary64 negative h, fun b y hb => ?_⟩
  have hlimit : midpoint n < roundingLimit := by
    rw [← nearestMagnitude_lt_iff hx, nearestMagnitude_midpoint heven]
    omega
  have hnearest : (ofBinary64 (ofMagnitude negative (nearestMagnitude (midpoint n)))).IsNearest
      (withSign negative (midpoint n)) := isNearest_ofBinary64 hx hlimit
  obtain ⟨x, ha, hle⟩ := hnearest
  rw [nearestMagnitude_midpoint heven, rational?_ofBinary64 negative (by omega)] at ha
  obtain rfl := Option.some.inj ha
  rw [abs_withSign_sub, abs_midpoint_sub, ← abs_withSign_sub negative]
  exact hle b y hb

/-- Of two nearest literals the one that is not that with the nearest magnitude is odd. -/
theorem parity_of_isNearest (hx : 0 ≤ x) (hlimit : x < roundingLimit)
    (hb : b.IsNearest (withSign negative x))
    (hne : b ≠ ofBinary64 (ofMagnitude negative (nearestMagnitude x))) :
    nearestMagnitude x % 2 = 0 ∧ ¬ b.IsEven := by
  have hlt := (nearestMagnitude_lt_iff hx).2 hlimit
  obtain ⟨y, hy, hle⟩ := hb
  obtain ⟨negative', m, hm, rfl⟩ := rational?_eq_some_iff.1 hy
  have htie := hle _ _ (rational?_ofBinary64 negative hlt)
  rw [abs_withSign_sub] at htie
  by_cases hmn : (m : ℕ) = nearestMagnitude x
  · -- with the same magnitude it has the other sign, and then it is not nearest
    exfalso
    have hb := ofBinary64_finite hm
    rw [hmn] at htie hb
    have hsign : negative' = !negative := by
      refine Bool.eq_not.2 ?_
      rintro rfl
      exact hne hb.symm
    have h0 : nearestMagnitude x ≠ 0 := by
      intro h0
      rw [h0, ofBinary64_zero] at hne hb
      exact hne hb.symm
    have hx0 : x ≠ 0 := by
      rintro rfl
      exact h0 (by rw [← magnitude_zero, nearestMagnitude_magnitude])
    rw [hsign] at htie
    exact absurd htie (not_le.2
      (abs_sub_lt_abs_withSign_sub_not negative (hx.lt_of_ne' hx0) (magnitude_pos h0)))
  · obtain ⟨heven, hodd⟩ := parity_of_tie hx hmn
      ((abs_sub_le_abs_withSign_sub negative negative' hx (magnitude_nonneg m)).trans htie)
    refine ⟨heven, fun h => ?_⟩
    have heven' := h negative' m hm
    omega

theorem isRounding_withSign_iff (hx : 0 ≤ x) : a.IsRounding (withSign negative x) ↔
    x < roundingLimit ∧ ofBinary64 (ofMagnitude negative (nearestMagnitude x)) = a := by
  constructor
  · rintro ⟨hlimit, hnearest, heven⟩
    rw [abs_withSign, abs_of_nonneg hx] at hlimit
    refine ⟨hlimit, ?_⟩
    by_contra hne
    exact (parity_of_isNearest hx hlimit hnearest (Ne.symm hne)).2
      (heven _ hne (isNearest_ofBinary64 hx hlimit))
  · rintro ⟨hlimit, rfl⟩
    refine ⟨by rwa [abs_withSign, abs_of_nonneg hx], isNearest_ofBinary64 hx hlimit, ?_⟩
    intro b hb hnearest negative' m hm
    obtain ⟨_, hvalue, -⟩ := exists_value_ofBinary64 negative (nearestMagnitude x)
    rw [← eq_of_ofMagnitude_eq (hvalue ▸ hm)]
    exact (parity_of_isNearest hx hlimit hnearest hb).1

theorem nearestMagnitude_of_isRounding {negative' : Bool} {m : Fin magnitudeCount}
    (h : a.value = .finite negative' m) (hx : 0 ≤ x) (ha : a.IsRounding (withSign negative x)) :
    nearestMagnitude x = m := by
  obtain ⟨-, rfl⟩ := (isRounding_withSign_iff hx).1 ha
  obtain ⟨_, hvalue, -⟩ := exists_value_ofBinary64 negative (nearestMagnitude x)
  exact eq_of_ofMagnitude_eq (hvalue ▸ h)

theorem isRounding_iff_of_finite {m : Fin magnitudeCount} (h : a.value = .finite negative m)
    (hx : 0 ≤ x) : a.IsRounding (withSign negative x) ↔ nearestMagnitude x = m := by
  refine ⟨nearestMagnitude_of_isRounding h hx, fun hm => ?_⟩
  rw [isRounding_withSign_iff hx, ← nearestMagnitude_lt_iff hx, hm]
  exact ⟨m.isLt, ofBinary64_finite h⟩

theorem withSign_abs (q : ℚ) : withSign (decide (q < 0)) |q| = q := by
  by_cases hq : q < 0
  · simp [withSign, hq, abs_of_neg]
  · simp [withSign, hq, abs_of_nonneg (not_lt.1 hq)]

theorem approximates_withSign_iff (hx : 0 ≤ x) : a.Approximates (withSign negative x) ↔
    ofBinary64 (ofMagnitude negative (nearestMagnitude x)) = a := by
  rcases lt_or_ge x roundingLimit with hlimit | hlimit
  · constructor
    · rintro (h | ⟨hover, -⟩)
      · exact ((isRounding_withSign_iff hx).1 h).2
      · rw [abs_withSign, abs_of_nonneg hx] at hover
        exact absurd hlimit (not_lt.2 hover)
    · exact fun h => .rounded ((isRounding_withSign_iff hx).2 ⟨hlimit, h⟩)
  · have hover : ¬ nearestMagnitude x < magnitudeCount := fun h =>
      not_lt.2 hlimit ((nearestMagnitude_lt_iff hx).1 h)
    have hpos : 0 < x := roundingLimit_pos.trans_le hlimit
    have hsign : decide (withSign negative x < 0) = negative := by
      cases negative <;> simp [withSign, hpos, hx]
    rw [ofMagnitude, dif_neg hover]
    constructor
    · rintro (h | ⟨-, h⟩)
      · exact absurd ((isRounding_withSign_iff hx).1 h).1 (not_lt.2 hlimit)
      · rw [← ofBinary64_value a, h, hsign]
    · rintro rfl
      refine .overflow (by rwa [abs_withSign, abs_of_nonneg hx]) ?_
      rw [hsign]
      rfl

theorem exists_isRounding {q : ℚ} (hq : |q| < roundingLimit) :
    ∃ a : Number, ∀ b : Number, b.IsRounding q ↔ b = a := by
  refine ⟨ofBinary64 (ofMagnitude (decide (q < 0)) (nearestMagnitude |q|)), fun b => ?_⟩
  rw [← withSign_abs q, isRounding_withSign_iff (abs_nonneg q), withSign_abs, and_iff_right hq,
    eq_comm]

theorem approximates_rational_iff {n : Json.Numeral} :
    a.Approximates n.rational ↔ ofBinary64 n.toBinary64 = a := by
  cases n with
  | integer i =>
    have hi : (i : ℚ) = withSign (decide (i < 0)) (i.natAbs : ℕ) := by
      rw [← withSign_abs i, Nat.cast_natAbs, Int.cast_abs]
      simp
    rw [Json.Numeral.rational, hi, approximates_withSign_iff (Nat.cast_nonneg _),
      nearestMagnitude_natCast]
    rfl
  | float negative m =>
    rw [Json.Numeral.rational, approximates_withSign_iff (magnitude_nonneg m),
      nearestMagnitude_magnitude, ofMagnitude_coe]
    rfl

theorem approximates_spelledValue_iff {whole fraction : List Char} {e : Option ℤ} :
    a.Approximates (Decimal.spelledValue negative whole fraction e) ↔
      ofBinary64 (.ofDecimal negative (.ofSpelling whole fraction (e.getD 0))) = a := by
  rw [Decimal.spelledValue_eq, approximates_withSign_iff (Decimal.value_nonneg _), ofDecimal_eq,
    nearestDecimal_eq]

end

end Number

end FormulaEditor
