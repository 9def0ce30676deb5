import FormulaEditor.Number.Basic
import FormulaEditor.Number.Spelling
import FormulaEditor.Proofs.Json.Spelling
/-! What a number literal is written as stands for that literal alone. -/
namespace FormulaEditor
namespace Number

open Binary64 Json

theorem toValue_of_finite {a : Number} {negative : Bool} {m : Fin magnitudeCount}
    (h : a.value = .finite negative m) :
    (∃ n, n ≤ exactIntegers ∧ units m = n * unitsPerOne ∧
      a.toValue = .number (.integer (if negative then -n else n))) ∨
    (∀ n, n ≤ exactIntegers → units m ≠ n * unitsPerOne) ∧
      a.toValue = .number (.float negative m) := by
  by_cases hwhole : ∃ n, n ≤ exactIntegers ∧ units m = n * unitsPerOne
  · obtain ⟨n, hn, hm⟩ := hwhole
    refine .inl ⟨n, hn, hm, ?_⟩
    simp only [toValue, h, whole?_of_units hm, hn, if_true]
  · refine .inr ⟨fun n hn hm => hwhole ⟨n, hn, hm⟩, ?_⟩
    simp only [toValue, h]
    split
    · rename_i n hn
      rw [if_neg fun hle => hwhole ⟨n, hle, units_of_whole?_eq hn⟩]
    · rfl

theorem toValue_cases (a : Number) :
    (∃ n, a.toValue = .number n ∧ n.IsRegular ∧ ofBinary64 n.toBinary64 = a) ∨
      ∃ s, a.toValue = .string s ∧ ofText? s = some a := by
  obtain ⟨x, hx⟩ := a
  cases x with
  | nan => exact .inr ⟨"NaN", rfl, by decide +revert⟩
  | infinity negative =>
    cases negative
    · exact .inr ⟨"Infinity", rfl, by decide +revert⟩
    · exact .inr ⟨"-Infinity", rfl, by decide +revert⟩
  | finite negative m =>
    left
    have hself := ofBinary64_value ⟨.finite negative m, hx⟩
    rcases toValue_of_finite (a := ⟨.finite negative m, hx⟩) rfl with ⟨n, hn, hm, hv⟩ | ⟨-, hv⟩
    · refine ⟨_, hv, ?_, ?_⟩
      · have hlt : n < 2 ^ 53 := Nat.lt_of_le_of_lt hn (by decide)
        cases negative <;> simp [Numeral.IsRegular] <;> omega
      · rwa [Numeral.toBinary64, ofInt_of_units hm hx]
    · exact ⟨_, hv, trivial, hself⟩

end Number

end FormulaEditor
