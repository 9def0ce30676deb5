import FormulaEditor.Decimal
import Mathlib.Algebra.Order.Field.Power
import Mathlib.Algebra.Order.Field.Rat
import Mathlib.Tactic.FieldSimp
import Mathlib.Tactic.Linarith
import Mathlib.Tactic.Positivity
import Mathlib.Tactic.Ring
/-! What a layout writes for a decimal is spelled by digits, and the spelling has the value of the
decimal. Readers are left with the digits. -/
namespace FormulaEditor
namespace Decimal

def value (d : Decimal) : ℚ := d.coefficient * 10 ^ d.exponent

theorem value_zeros (c k : ℕ) (e : ℤ) : value ⟨c * 10 ^ k, e⟩ = value ⟨c, e + k⟩ := by
  rw [value, value, zpow_add₀ (by norm_num), zpow_natCast]
  push_cast
  ring

theorem digitsValue_append (xs ys : List Char) :
    digitsValue (xs ++ ys) = digitsValue xs * 10 ^ ys.length + digitsValue ys := by
  rw [digitsValue, Nat.ofDigitChars_append, Nat.ofDigitChars_eq_ofDigitChars_zero, mul_comm]
  rfl

@[simp] theorem digitsValue_zero : digitsValue ['0'] = 0 := rfl

@[simp] theorem digitsValue_replicate (n : ℕ) : digitsValue (List.replicate n '0') = 0 := by
  simp [digitsValue]

@[simp] theorem digitsValue_toDigits (n : ℕ) : digitsValue (Nat.toDigits 10 n) = n :=
  Nat.ofDigitChars_ten_toDigits

@[simp] theorem digitsValue_digits (d : Decimal) : digitsValue d.digits = d.coefficient :=
  digitsValue_toDigits _

theorem digitsValue_cons (c : Char) (cs : List Char) :
    digitsValue (c :: cs) = (c.toNat - '0'.toNat) * 10 ^ cs.length + digitsValue cs := by
  rw [show c :: cs = [c] ++ cs from rfl, digitsValue_append]
  simp [digitsValue, Nat.ofDigitChars_cons]

def AreDigits (cs : List Char) : Prop := ∀ c ∈ cs, c.isDigit = true

theorem AreDigits.append {xs ys : List Char} (hx : AreDigits xs) (hy : AreDigits ys) :
    AreDigits (xs ++ ys) := fun c hc => (List.mem_append.1 hc).elim (hx c) (hy c)

theorem areDigits_replicate (n : ℕ) : AreDigits (List.replicate n '0') := by
  intro c hc
  obtain rfl := List.eq_of_mem_replicate hc
  decide

theorem areDigits_toDigits (n : ℕ) : AreDigits (Nat.toDigits 10 n) := fun _ hc =>
  Nat.isDigit_of_mem_toDigits (by decide) (by decide) hc

theorem digitsValue_lt {cs : List Char} (h : AreDigits cs) : digitsValue cs < 10 ^ cs.length := by
  induction cs with
  | nil => decide
  | cons c cs ih =>
    have hc := (Char.isDigit_iff_toNat.1 (h c List.mem_cons_self)).2
    have hcs := ih fun x hx => h x (List.mem_cons_of_mem _ hx)
    have hle : (c.toNat - '0'.toNat) * 10 ^ cs.length ≤ 9 * 10 ^ cs.length :=
      Nat.mul_le_mul_right _ (Nat.sub_le_sub_right hc _)
    rw [digitsValue_cons, List.length_cons, pow_succ]
    omega

theorem pow_le_digitsValue {c : Char} {cs : List Char} (h : c.isDigit = true) (h0 : c ≠ '0') :
    10 ^ cs.length ≤ digitsValue (c :: cs) := by
  have hc := (Char.isDigit_iff_toNat.1 h).1
  have hne : '0'.toNat ≠ c.toNat := fun h => h0 (Char.toNat_inj.1 h.symm)
  rw [digitsValue_cons]
  exact (Nat.le_mul_of_pos_left _ (by omega)).trans (Nat.le_add_right _ _)

theorem toDigits_ne_zero_cons (n : ℕ) (c : Char) (cs : List Char) :
    Nat.toDigits 10 n ≠ '0' :: c :: cs := by
  intro h
  have hdigits : AreDigits (c :: cs) := fun x hx =>
    areDigits_toDigits n x (h ▸ List.mem_cons_of_mem _ hx)
  have hn : n = digitsValue (c :: cs) := by
    rw [← digitsValue_toDigits n, h, digitsValue_cons]
    simp
  have hlen : (Nat.toDigits 10 n).length ≤ (c :: cs).length :=
    (Nat.length_toDigits_le_iff (by decide) (by simp)).2 (hn ▸ digitsValue_lt hdigits)
  rw [h] at hlen
  simp at hlen

theorem digits_ne_nil (d : Decimal) : d.digits ≠ [] := Nat.toDigits_ne_nil

theorem coefficient_lt (d : Decimal) : d.coefficient < 10 ^ d.digits.length := by
  have h := digitsValue_lt (areDigits_toDigits d.coefficient)
  rwa [digitsValue_toDigits] at h

theorem length_digits_le {d : Decimal} {k : ℕ} (hk : 0 < k) (h : d.coefficient < 10 ^ k) :
    d.digits.length ≤ k := (Nat.length_toDigits_le_iff (by decide) hk).2 h

namespace Layout

def spell (l : Layout) (whole fraction : List Char) (exponent : Option ℤ) : List Char :=
  whole ++ (if fraction = [] then [] else '.' :: fraction) ++ (exponent.map l.exponent).getD []

structure Spells (l : Layout) (d : Decimal) (whole fraction : List Char) (exponent : Option ℤ) :
    Prop where
  write : l.write d = l.spell whole fraction exponent
  whole_ne_nil : whole ≠ []
  digits : AreDigits (whole ++ fraction)
  /-- There are no zeros in front. -/
  whole_ne : ∀ c cs, whole ≠ '0' :: c :: cs
  value : (ofSpelling whole fraction (exponent.getD 0)).value = d.value
  /-- Digits are added only up to the last place of plain notation. -/
  lt : digitsValue (whole ++ fraction) < 10 ^ max d.digits.length (l.plainUpTo.toNat + 1)
  /-- With a mark for whole decimals no decimal is written like an integer. -/
  marked : l.wholeMark ≠ [] → fraction ≠ [] ∨ exponent ≠ none

variable {l : Layout} {d : Decimal}

theorem lt_pow_max {n : ℕ} (h : n = d.coefficient) :
    n < 10 ^ max d.digits.length (l.plainUpTo.toNat + 1) :=
  h ▸ d.coefficient_lt.trans_le (Nat.pow_le_pow_right (by decide) (le_max_left ..))

theorem value_ofSpelling {whole fraction : List Char} {e : ℤ}
    (hc : digitsValue (whole ++ fraction) = d.coefficient)
    (he : e - fraction.length = d.exponent) : (ofSpelling whole fraction e).value = d.value := by
  rw [ofSpelling, hc, he]

theorem spells_below_one (hplain : l.plainAbove < d.point ∧ d.point ≤ l.plainUpTo)
    (h : d.point ≤ 0) :
    l.Spells d ['0'] (List.replicate (-d.point).toNat '0' ++ d.digits) none := by
  have hc : digitsValue (['0'] ++ (List.replicate (-d.point).toNat '0' ++ d.digits)) =
      d.coefficient := by
    rw [digitsValue_append, digitsValue_append]
    simp
  refine ⟨?_, by simp, ?_, by simp, ?_, lt_pow_max hc, fun _ => .inl (by simp [d.digits_ne_nil])⟩
  · simp [write, hplain, plain, h, spell, d.digits_ne_nil]
  · exact (areDigits_replicate 1).append ((areDigits_replicate _).append (areDigits_toDigits _))
  · refine value_ofSpelling hc ?_
    simp only [Option.getD_none, List.length_append, List.length_replicate]
    unfold point at h ⊢
    omega

theorem spells_split (hplain : l.plainAbove < d.point ∧ d.point ≤ l.plainUpTo)
    (h : 0 < d.point) (hlt : d.point < d.digits.length) :
    l.Spells d (d.digits.take d.point.toNat) (d.digits.drop d.point.toNat) none := by
  have hc : digitsValue (d.digits.take d.point.toNat ++ d.digits.drop d.point.toNat) =
      d.coefficient := by
    rw [List.take_append_drop, digitsValue_digits]
  have hfraction : d.digits.drop d.point.toNat ≠ [] := by
    rw [Ne, List.drop_eq_nil_iff]
    omega
  refine ⟨?_, ?_, ?_, ?_, ?_, lt_pow_max hc, fun _ => .inl hfraction⟩
  · have hpos : ¬ d.point ≤ 0 := by omega
    have hshort : ¬ (d.digits.length : ℤ) ≤ d.point := by omega
    simp [write, hplain, plain, hpos, hshort, spell, hfraction]
  · have hpos : d.point.toNat ≠ 0 := by omega
    simp [hpos, d.digits_ne_nil]
  · rw [List.take_append_drop]
    exact areDigits_toDigits _
  · intro c cs heq
    refine toDigits_ne_zero_cons d.coefficient c (cs ++ d.digits.drop d.point.toNat) ?_
    rw [← List.cons_append, ← List.cons_append, ← heq, List.take_append_drop, digits]
  · refine value_ofSpelling hc ?_
    rw [Option.getD_none, List.length_drop]
    unfold point at h hlt ⊢
    omega

/-- A decimal without a fraction is filled up with zeros, and may be marked by one after a point. -/
theorem spells_whole (hplain : l.plainAbove < d.point ∧ d.point ≤ l.plainUpTo)
    (h : 0 < d.point) (hle : d.digits.length ≤ d.point) (h0 : d.coefficient = 0 → d.exponent = 0)
    (hmark : l.wholeMark = [] ∨ l.wholeMark = ['.', '0']) :
    l.Spells d (d.digits ++ List.replicate (d.point.toNat - d.digits.length) '0')
      (l.wholeMark.drop 1) none := by
  have hzeros : ((d.point.toNat - d.digits.length : ℕ) : ℤ) = d.exponent := by
    unfold point at hle ⊢
    omega
  have hdigits : AreDigits (d.digits ++ List.replicate (d.point.toNat - d.digits.length) '0') :=
    (areDigits_toDigits _).append (areDigits_replicate _)
  have hfraction : l.wholeMark.drop 1 = List.replicate (l.wholeMark.length - 1) '0' := by
    rcases hmark with hm | hm <;> rw [hm] <;> rfl
  refine ⟨?_, ?_, ?_, ?_, ?_, ?_, ?_⟩
  · have hpos : ¬ d.point ≤ 0 := by omega
    rcases hmark with hm | hm <;> simp [write, hplain, plain, hpos, hle, spell, hm]
  · simp [d.digits_ne_nil]
  · rw [hfraction]
    exact hdigits.append (areDigits_replicate _)
  · intro c cs heq
    have hd : d.digits = ['0'] := by
      cases hd : d.digits with
      | nil => exact absurd hd d.digits_ne_nil
      | cons x xs =>
        rw [hd, List.cons_append] at heq
        obtain ⟨rfl, -⟩ := List.cons.inj heq
        cases xs with
        | nil => rfl
        | cons y ys => exact absurd hd (toDigits_ne_zero_cons _ y ys)
    have hc : d.coefficient = 0 := by rw [← digitsValue_digits, hd, digitsValue_zero]
    have hnone : d.point.toNat - d.digits.length = 0 := by
      have := h0 hc
      omega
    rw [hnone, hd] at heq
    simp at heq
  · rw [hfraction, ofSpelling, digitsValue_append, digitsValue_replicate, Nat.add_zero,
      value_zeros, digitsValue_append, digitsValue_replicate, Nat.add_zero, digitsValue_digits,
      value_zeros]
    simp [hzeros]
  · refine (digitsValue_lt (hfraction ▸ hdigits.append (areDigits_replicate _))).trans_le ?_
    refine Nat.pow_le_pow_right (by decide) (le_trans ?_ (le_max_right ..))
    have hlen : (l.wholeMark.drop 1).length ≤ 1 := by rcases hmark with hm | hm <;> simp [hm]
    rw [List.length_append, List.length_append, List.length_replicate]
    omega
  · intro hm
    exact .inl (by rw [hmark.resolve_left hm]; simp)

theorem spells_scientific (hplain : ¬ (l.plainAbove < d.point ∧ d.point ≤ l.plainUpTo)) :
    l.Spells d (d.digits.take 1) (d.digits.drop 1) (some (d.point - 1)) := by
  have hc : digitsValue (d.digits.take 1 ++ d.digits.drop 1) = d.coefficient := by
    rw [List.take_append_drop, digitsValue_digits]
  refine ⟨?_, by simp [d.digits_ne_nil], ?_, ?_, ?_, lt_pow_max hc, fun _ => .inr (by simp)⟩
  · rw [write, if_neg hplain]
    cases hd : d.digits with
    | nil => exact absurd hd d.digits_ne_nil
    | cons x xs => cases xs <;> simp [scientific, spell]
  · rw [List.take_append_drop]
    exact areDigits_toDigits _
  · intro c cs heq
    have hlen := congrArg List.length heq
    simp only [List.length_take, List.length_cons] at hlen
    omega
  · refine value_ofSpelling hc ?_
    have hpos := List.length_pos_iff.2 d.digits_ne_nil
    rw [Option.getD_some, List.length_drop]
    unfold point
    omega

/-- Whatever a layout writes spells the decimal. -/
theorem exists_spells (hmark : l.wholeMark = [] ∨ l.wholeMark = ['.', '0'])
    (h0 : d.coefficient = 0 → d.exponent = 0) :
    ∃ whole fraction exponent, l.Spells d whole fraction exponent := by
  by_cases hplain : l.plainAbove < d.point ∧ d.point ≤ l.plainUpTo
  · by_cases hpos : d.point ≤ 0
    · exact ⟨_, _, _, spells_below_one hplain hpos⟩
    · by_cases hle : d.digits.length ≤ d.point
      · exact ⟨_, _, _, spells_whole hplain (by omega) hle h0 hmark⟩
      · exact ⟨_, _, _, spells_split hplain (by omega) (by omega)⟩
  · exact ⟨_, _, _, spells_scientific hplain⟩

end Layout

end Decimal

end FormulaEditor
