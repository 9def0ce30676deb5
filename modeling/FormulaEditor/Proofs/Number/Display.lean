import FormulaEditor.Proofs.Number.Spelling
/-! The text a literal is drawn with spells that literal, so no two literals are drawn the same. -/
namespace FormulaEditor
namespace Number

open Decimal

theorem exists_signText_signed (negative : Bool) (cs : List Char) :
    ∃ text, SignText text negative ∧ signed negative cs = text ++ cs := by
  cases negative with
  | true => exact ⟨['-'], .minus, rfl⟩
  | false => exact ⟨[], .none, rfl⟩

theorem digitsText_layout {whole fraction : List Char} (hne : whole ≠ [])
    (hd : AreDigits (whole ++ fraction)) :
    DigitsText (whole ++ if fraction = [] then [] else '.' :: fraction) whole fraction := by
  have hwhole : AreDigits whole := fun c hc => hd c (List.mem_append_left _ hc)
  by_cases hf : fraction = []
  · subst hf
    simpa using DigitsText.plain hwhole hne
  · rw [if_neg hf]
    exact .pointed hwhole (fun c hc => hd c (List.mem_append_right _ hc)) fun h => hne h.1

theorem literalText_display (a : Number) : LiteralText a.display.toList a := by
  rcases hx : a.value with _ | negative | ⟨negative, m⟩
  · have hnan : a.display = "NaN" := by simp [display, hx]
    have hword : WordText false "NaN".toList a.value := by
      rw [hx]
      exact .nan rfl
    rw [hnan]
    exact .word .none hword
  · have hword : WordText negative "Infinity".toList a.value := by
      rw [hx]
      exact .infinity rfl
    cases negative with
    | true =>
      have hminus : a.display = "-Infinity" := by simp [display, hx]
      rw [hminus]
      exact .word .minus hword
    | false =>
      have hinf : a.display = "Infinity" := by simp [display, hx]
      rw [hinf]
      exact .word .none hword
  · obtain ⟨whole, fraction, exponent, hs⟩ := Layout.exists_spells (l := layout) (.inl rfl)
      (Binary64.exponent_shortest .up m.isLt)
    obtain ⟨sign, hsign, htext⟩ := exists_signText_signed negative
      (layout.spell whole fraction exponent)
    have hread : Binary64.ofDecimal negative (.ofSpelling whole fraction (exponent.getD 0)) =
        .finite negative m := by
      rw [Binary64.ofDecimal_eq, Binary64.nearestDecimal_congr hs.value,
        Binary64.nearestDecimal_shortest .up m.isLt, Binary64.ofMagnitude_coe]
    have ha : a.Approximates (spelledValue negative whole fraction exponent) := by
      rw [approximates_spelledValue_iff, hread, ← hx, ofBinary64_value]
    have hdisplay : a.display.toList = sign ++ layout.spell whole fraction exponent := by
      simp only [display, hx, String.toList_ofList, hs.write, htext]
    rw [hdisplay]
    exact .decimal hsign (digitsText_layout hs.whole_ne_nil hs.digits)
      (exponentText_layout (l := layout) (.inr rfl) exponent) ha

theorem ofText?_display (a : Number) : ofText? a.display = some a :=
  ofText?_eq_some_iff.2 a.literalText_display

theorem display_injective {a b : Number} (h : a.display = b.display) : a = b := by
  have hread := b.ofText?_display
  rw [← h, ofText?_display] at hread
  exact Option.some.inj hread

end Number

end FormulaEditor
