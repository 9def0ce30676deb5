import FormulaEditor.Proofs.Binary64.Rounding
/-! The bits of a double tell the double. -/
namespace FormulaEditor
namespace Binary64

theorem toNat_signBit_add (negative : Bool) {n : ℕ} (hn : n < 2 ^ 63) :
    (toBits.signBit negative + UInt64.ofNat n).toNat = (if negative then 2 ^ 63 else 0) + n := by
  cases negative <;> simp [toBits.signBit] <;> omega

theorem ofBits_signBit_add (negative : Bool) {n : ℕ} (hn : n ≤ magnitudeCount) :
    ofBits (toBits.signBit negative + UInt64.ofNat n) = ofMagnitude negative n := by
  have hlt : n < 2 ^ 63 := Nat.lt_of_le_of_lt hn (by decide)
  have hpow : Nat.pow 2 63 = 2 ^ 63 := rfl
  simp only [ofBits, toNat_signBit_add negative hlt, hpow]
  cases negative with
  | false =>
    rw [if_neg Bool.false_ne_true, Nat.zero_add, Nat.mod_eq_of_lt hlt, if_pos hn,
      decide_eq_false (Nat.not_le.2 hlt)]
  | true =>
    rw [if_pos rfl, Nat.add_mod_left, Nat.mod_eq_of_lt hlt, if_pos hn,
      decide_eq_true (Nat.le_add_right ..)]

theorem ofBits_toBits (x : Binary64) : ofBits x.toBits = x := by
  cases x with
  | nan => decide
  | infinity negative =>
    rw [toBits, ofBits_signBit_add negative (Nat.le_refl _), ofMagnitude, dif_neg (Nat.lt_irrefl _)]
  | finite negative m => rw [toBits, ofBits_signBit_add negative m.isLt.le, ofMagnitude_coe]

theorem toBits_inj {x y : Binary64} : x.toBits = y.toBits ↔ x = y := by
  refine ⟨fun h => ?_, congrArg toBits⟩
  rw [← ofBits_toBits x, h, ofBits_toBits]

end Binary64

end FormulaEditor
