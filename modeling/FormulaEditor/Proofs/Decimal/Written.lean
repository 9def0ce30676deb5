import FormulaEditor.Proofs.Decimal.Order
/-! How a layout places digits around a point. Where digits are divided there are some on both
sides, and zeros are filled in by their number, so neither goes beyond what there is. Plain decimals
have no zeros in front of a digit before the point and none at the end of a fraction. -/
namespace FormulaEditor
namespace Decimal

/-- A way to write digits so that the point stands at some place, counted from the first digit. -/
inductive Written (l : Layout) (digits : List Char) : ℤ → List Char → Prop
  | whole (zeros : ℕ) :
    Written l digits (digits.length + zeros) (digits ++ List.replicate zeros '0' ++ l.wholeMark)
  | divided {before after : List Char} (hdigits : digits = before ++ after) (hbefore : before ≠ [])
    (hafter : after ≠ []) : Written l digits before.length (before ++ '.' :: after)
  | belowOne (zeros : ℕ) :
    Written l digits (-zeros) ('0' :: '.' :: List.replicate zeros '0' ++ digits)
  | scientific {first : Char} {rest : List Char} (hdigits : digits = first :: rest) (e : ℤ) :
    Written l digits (e + 1) (first :: (if rest = [] then [] else '.' :: rest) ++ l.exponent e)

/-- Plain, and without zeros that could be left out. -/
def IsTidy (cs : List Char) : Prop :=
  ∃ whole fraction, cs = whole ++ (if fraction = [] then [] else '.' :: fraction) ∧
    AreDigits (whole ++ fraction) ∧ whole ≠ [] ∧ (∀ c rest, whole ≠ '0' :: c :: rest) ∧
    fraction.getLast? ≠ some '0'

variable {l : Layout} {d : Decimal}

theorem written_plain (digits : List Char) (point : ℤ) :
    Written l digits point (l.plain digits point) := by
  unfold Layout.plain
  split
  · rename_i hpoint
    obtain ⟨zeros, hzeros⟩ := Int.eq_ofNat_of_zero_le (neg_nonneg.2 hpoint)
    have hwritten : Written l digits _ _ := .belowOne zeros
    rwa [show (-point).toNat = zeros by omega, show point = -zeros by omega]
  · rename_i hpoint
    obtain ⟨n, rfl⟩ := Int.eq_ofNat_of_zero_le (not_le.1 hpoint).le
    split
    · rename_i hle
      obtain ⟨zeros, rfl⟩ := Nat.exists_eq_add_of_le (Int.ofNat_le.1 hle)
      have hwritten : Written l digits _ _ := .whole zeros
      rwa [Int.toNat_natCast, Nat.add_sub_cancel_left, Nat.cast_add]
    · rename_i hlt
      have hlen : n < digits.length := by omega
      have hbefore : digits.take n ≠ [] := by
        refine List.ne_nil_of_length_pos ?_
        rw [List.length_take_of_le hlen.le]
        omega
      have hafter : digits.drop n ≠ [] := by
        rw [Ne, List.drop_eq_nil_iff]
        omega
      have hwritten := Written.divided (l := l) (List.take_append_drop n digits).symm hbefore hafter
      rwa [List.length_take_of_le hlen.le] at hwritten

theorem written_scientific {digits : List Char} (hne : digits ≠ []) (point : ℤ) :
    Written l digits point (l.scientific digits point) := by
  cases digits with
  | nil => exact absurd rfl hne
  | cons first rest =>
    have hwritten : Written l (first :: rest) _ _ := .scientific rfl (point - 1)
    rw [sub_add_cancel] at hwritten
    cases rest with
    | nil => exact hwritten
    | cons second rest => exact hwritten

theorem written_write (l : Layout) (d : Decimal) : Written l d.digits d.point (l.write d) := by
  unfold Layout.write
  split
  · exact written_plain d.digits d.point
  · exact written_scientific d.digits_ne_nil d.point

theorem write_of_exponent {k : ℕ} (hk : d.exponent = k)
    (hplain : l.plainAbove < d.point ∧ d.point ≤ l.plainUpTo) :
    l.write d = d.digits ++ List.replicate k '0' ++ l.wholeMark := by
  have hpos := List.length_pos_iff.2 d.digits_ne_nil
  have hpoint : d.point = (d.digits.length + k : ℕ) := by rw [point, hk, Nat.cast_add]
  rw [Layout.write, if_pos hplain, hpoint, Layout.plain, if_neg (by omega), if_pos (by omega),
    Int.toNat_natCast, Nat.add_sub_cancel_left]

theorem IsTidy.not_mem {cs : List Char} (h : IsTidy cs) : 'e' ∉ cs := by
  obtain ⟨whole, fraction, rfl, hd, -⟩ := h
  intro he
  have hdigit : 'e' ∈ whole ++ fraction := by
    rcases List.mem_append.1 he with h | h
    · exact List.mem_append_left _ h
    · refine List.mem_append_right _ ?_
      split at h
      · nomatch h
      · simpa using h
  exact absurd (hd _ hdigit) (by decide)

theorem getLast?_digits_ne (h : d.coefficient % 10 ≠ 0) : d.digits.getLast? ≠ some '0' := by
  intro hlast
  obtain ⟨cs, hcs⟩ := List.getLast?_eq_some_iff.1 hlast
  have hvalue := d.digitsValue_digits
  rw [hcs, digitsValue_append, digitsValue_zero] at hvalue
  simp only [List.length_singleton] at hvalue
  omega

theorem isTidy_of_spells {whole fraction : List Char} (h : l.Spells d whole fraction none)
    (hlast : fraction.getLast? ≠ some '0') : IsTidy (l.write d) :=
  ⟨whole, fraction, by simp [h.write, Layout.spell], h.digits, h.whole_ne_nil, h.whole_ne, hlast⟩

variable (hmark : l.wholeMark = []) (h0 : d.coefficient = 0 → d.exponent = 0)
  (hlast : d.coefficient ≠ 0 → d.coefficient % 10 ≠ 0)

include hmark h0 hlast

/-- Plain decimals are tidy if there are no zeros at the end of the digits. -/
theorem isTidy_write (hplain : l.plainAbove < d.point ∧ d.point ≤ l.plainUpTo) :
    IsTidy (l.write d) := by
  -- digits that go on behind the point are not those of zero
  have hdigits (hlt : d.point < d.digits.length) : d.digits.getLast? ≠ some '0' := by
    refine getLast?_digits_ne (hlast fun hc => ?_)
    have hexponent := h0 hc
    unfold point at hlt
    omega
  by_cases hpos : d.point ≤ 0
  · have hpos' := List.length_pos_iff.2 d.digits_ne_nil
    refine isTidy_of_spells (Layout.spells_below_one hplain hpos) ?_
    rw [List.getLast?_append_of_ne_nil _ d.digits_ne_nil]
    exact hdigits (by omega)
  · by_cases hle : d.digits.length ≤ d.point
    · refine isTidy_of_spells
        (Layout.spells_whole hplain (by omega) hle h0 (.inl hmark)) ?_
      simp [hmark]
    · refine isTidy_of_spells (Layout.spells_split hplain (by omega) (by omega)) ?_
      rw [List.getLast?_drop, if_neg (by omega)]
      exact hdigits (by omega)

theorem mem_write_iff :
    'e' ∈ l.write d ↔ ¬ (l.plainAbove < d.point ∧ d.point ≤ l.plainUpTo) := by
  constructor
  · intro he hplain
    exact (isTidy_write hmark h0 hlast hplain).not_mem he
  · intro hplain
    rw [Layout.write, if_neg hplain]
    rcases hd : d.digits with _ | ⟨first, _ | ⟨second, rest⟩⟩
    · exact absurd hd d.digits_ne_nil
    · simp [Layout.scientific, Layout.exponent]
    · simp [Layout.scientific, Layout.exponent]

end Decimal

end FormulaEditor
