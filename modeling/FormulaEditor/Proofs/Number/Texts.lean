import FormulaEditor.Proofs.Binary64.Fewest
import FormulaEditor.Proofs.Decimal.Written
import FormulaEditor.Proofs.Number.Display
import FormulaEditor.Proofs.Number.Json
import FormulaEditor.Proofs.Number.Rounding
/-! The two texts of a literal, drawn and in JSON, as exact decimals. Both have the fewest digits,
and they are the same decimal, except that a tie between two is broken upwards in one of them and to
the even one in the other. -/
namespace FormulaEditor
namespace Number

open Binary64 Decimal Json

/-- The number that the digits of a text stand for, before it is rounded. -/
def exactly? (s : String) : Option ℚ :=
  (decimalText? (sign s.toList).2).map fun d => withSign (sign s.toList).1 d.value

theorem exactly?_of_texts {s : String} {text digits exponent whole fraction : List Char}
    {negative : Bool} {e : Option ℤ} (hsign : SignText text negative)
    (hdigits : DigitsText digits whole fraction) (hexponent : ExponentText exponent e)
    (hs : s.toList = text ++ (digits ++ exponent)) :
    exactly? s = some (withSign negative (ofSpelling whole fraction (e.getD 0)).value) := by
  have hread := decimalText?_eq_some_iff.2 ⟨_, _, _, _, _, hdigits, hexponent, rfl, rfl⟩
  rw [exactly?, hs, hsign.sign_append (hdigits.unsigned exponent), hread]
  rfl

theorem exactly?_write {l : Layout} (hwhole : l.wholeMark = [] ∨ l.wholeMark = ['.', '0'])
    (hexponent : l.exponentMark = [] ∨ l.exponentMark = ['+']) (negative : Bool) {d : Decimal}
    (h0 : d.coefficient = 0 → d.exponent = 0) :
    exactly? (String.ofList (signed negative (l.write d))) = some (withSign negative d.value) := by
  obtain ⟨whole, fraction, exponent, hs⟩ := Layout.exists_spells hwhole h0
  obtain ⟨text, hsign, htext⟩ := exists_signText_signed negative (l.write d)
  rw [← hs.value]
  refine exactly?_of_texts hsign (digitsText_layout hs.whole_ne_nil hs.digits)
    (exponentText_layout hexponent exponent) ?_
  rw [String.toList_ofList, htext, hs.write, Layout.spell]

variable {a : Number} {negative : Bool} {m : Fin magnitudeCount}

theorem toList_display (h : a.value = .finite negative m) :
    a.display.toList = signed negative (layout.write (shortest .up m)) := by
  simp only [display, h, String.toList_ofList]

theorem exactly?_display (h : a.value = .finite negative m) :
    exactly? a.display = some (withSign negative (shortest .up m).value) := by
  rw [← String.ofList_toList (s := a.display), toList_display h]
  exact exactly?_write (.inl rfl) (.inr rfl) negative (exponent_shortest .up m.isLt)

theorem exactly?_natural (negative : Bool) (n : ℕ) :
    exactly? (String.ofList (signed negative (Nat.toDigits 10 n))) =
      some (withSign negative n) := by
  obtain ⟨text, hsign, htext⟩ := exists_signText_signed negative (Nat.toDigits 10 n)
  have hdigits := DigitsText.plain (areDigits_toDigits n) Nat.toDigits_ne_nil
  rw [exactly?_of_texts hsign hdigits .none (by rw [String.toList_ofList, htext, List.append_nil])]
  simp [ofSpelling, Decimal.value]

theorem print_toValue_of_natCast (h : a.value = .finite negative m) {n : ℕ} (hn : n ≤ exactIntegers)
    (hm : magnitude m = n) :
    a.toValue.print = String.ofList (signed negative (Nat.toDigits 10 n)) := by
  rw [magnitude_eq_natCast_iff] at hm
  rcases toValue_of_finite h with ⟨k, -, hk, hv⟩ | ⟨hnone, -⟩
  · obtain rfl : n = k := Nat.eq_of_mul_eq_mul_right unitsPerOne_pos (hm.symm.trans hk)
    rw [hv, Value.print, Numeral.print, Numeral.digits]
    cases negative with
    | false =>
      have hsign : ¬ (n : ℤ) < 0 := by omega
      simp [hsign]
    | true =>
      have hpos := pos_of_units hm (h ▸ a.value_ne)
      simp [hpos]
  · exact absurd hm (hnone n hn)

theorem exactly?_print (h : a.value = .finite negative m) :
    exactly? a.toValue.print = some (withSign negative (shortest .even m).value) := by
  rcases toValue_of_finite h with ⟨n, hn, hm, -⟩ | ⟨-, hv⟩
  · rw [← magnitude_eq_natCast_iff] at hm
    have hlt : n < 2 ^ 53 := Nat.lt_of_le_of_lt hn (by decide)
    rw [print_toValue_of_natCast h hn hm, exactly?_natural,
      (shortest_of_natCast .even m.isLt hlt hm).1]
  · rw [hv, Value.print, Numeral.print, Numeral.digits]
    exact exactly?_write (.inr rfl) (.inl rfl) negative (exponent_shortest .even m.isLt)

theorem write_shortest_of_natCast {n : ℕ} (hn : n ≤ exactIntegers) (hm : magnitude m = n) :
    layout.write (shortest .up m) = Nat.toDigits 10 n := by
  have hlt : n < 2 ^ 53 := Nat.lt_of_le_of_lt hn (by decide)
  obtain ⟨hvalue, hexponent⟩ := shortest_of_natCast .up m.isLt hlt hm
  have hzero := exponent_shortest .up m.isLt
  generalize shortest .up m = d at hvalue hexponent hzero ⊢
  obtain ⟨k, hk⟩ := Int.eq_ofNat_of_zero_le hexponent
  have hdigits : Nat.toDigits 10 n = d.digits ++ List.replicate k '0' := by
    have hn' : n = d.coefficient * 10 ^ k := by
      rw [Decimal.value, hk, zpow_natCast] at hvalue
      exact_mod_cast hvalue.symm
    have hzeros (hc : d.coefficient = 0) : k = 0 := by
      have := hzero hc
      omega
    rw [hn', toDigits_mul_pow hzeros, digits]
  have hplain : layout.plainAbove < d.point ∧ d.point ≤ layout.plainUpTo := by
    have hlen : (Nat.toDigits 10 n).length ≤ 21 :=
      (Nat.length_toDigits_le_iff (by decide) (by omega)).2 (hlt.trans (by decide))
    have hpos := List.length_pos_iff.2 d.digits_ne_nil
    rw [hdigits, List.length_append, List.length_replicate] at hlen
    rw [point, hk]
    exact ⟨show (-6 : ℤ) < _ by omega, show _ ≤ (21 : ℤ) by omega⟩
  rw [write_of_exponent hk hplain, hdigits]
  exact List.append_nil _

theorem magnitude_ten_pow : magnitude (nearestMagnitude (10 ^ (21 : ℤ))) = 10 ^ (21 : ℤ) := by
  have hmag : magnitude (1091 * binade + 10 ^ 21 / 2 ^ 17) = (10 ^ 21 : ℕ) := by
    rw [magnitude_eq_natCast_iff]
    decide +kernel
  have hpow : (10 : ℚ) ^ (21 : ℤ) = (10 ^ 21 : ℕ) := by norm_num
  rw [hpow, ← hmag, nearestMagnitude_magnitude]

section Shortest

variable (tie : Tie) (m : Fin magnitudeCount)

theorem coefficient_mod_ten_of_ne (h : (shortest tie m).coefficient ≠ 0) :
    (shortest tie m).coefficient % 10 ≠ 0 := by
  refine coefficient_shortest_mod_ten tie m.isLt ?_
  intro h0
  simp [shortest, h0] at h

theorem mem_write_shortest_iff : 'e' ∈ layout.write (shortest tie m) ↔
    ¬ (-6 < (shortest tie m).point ∧ (shortest tie m).point ≤ 21) :=
  mem_write_iff rfl (exponent_shortest tie m.isLt) (coefficient_mod_ten_of_ne tie m)

/-- Plain notation goes from the double nearest to a millionth up to `10 ^ 21`. -/
theorem not_plain_iff : ¬ (-6 < (shortest tie m).point ∧ (shortest tie m).point ≤ 21) ↔
    (m : ℕ) ≠ 0 ∧
      (magnitude m < magnitude (nearestMagnitude (10 ^ (-6 : ℤ))) ∨ 10 ^ 21 ≤ magnitude m) := by
  by_cases h0 : (m : ℕ) = 0
  · have hpoint : (shortest tie m).point = 1 := by
      rw [shortest, if_pos h0]
      rfl
    rw [hpoint]
    simp [h0]
  · have hc := coefficient_shortest_ne_zero tie m.isLt h0
    have hlow := pow_le_shortest_iff tie m.isLt h0 (-6)
    have hhigh := pow_le_shortest_iff tie m.isLt h0 21
    rw [pow_le_value_iff hc, nearestDecimal_eq, value_one] at hlow hhigh
    have hten : nearestMagnitude (10 ^ (21 : ℤ)) ≤ m ↔ (10 : ℚ) ^ 21 ≤ magnitude m := by
      rw [← magnitude_strictMono.le_iff_le, magnitude_ten_pow]
      norm_num
    have hupTo : (shortest tie m).point ≤ 21 ↔ ¬ 21 < (shortest tie m).point := not_lt.symm
    rw [hupTo, hlow, hhigh, hten, not_and_or, not_not, not_le, magnitude_strictMono.lt_iff_lt]
    exact (and_iff_right h0).symm

end Shortest

/-- The text stands for the decimal, which is rounded to the literal, and no decimal of fewer digits
is. -/
structure IsShortest (a : Number) (text : String) (negative : Bool) (d : Decimal) : Prop where
  exactly : exactly? text = some (withSign negative d.value)
  rounded : a.IsRounding (withSign negative d.value)
  fewest : ∀ (negative' : Bool) (d' : Decimal), a.IsRounding (withSign negative' d'.value) →
    d.digits.length ≤ d'.digits.length

/-- The literal lies halfway between an even decimal and its neighbour, and the neighbour is rounded
to it as well. -/
structure IsHalfway (a : Number) (negative : Bool) (d : Decimal) : Prop where
  even : d.coefficient % 2 = 0
  halfway : a.rational? = some (withSign negative d.halfway)
  rounded : a.IsRounding (withSign negative d.next.value)

theorem isShortest_of_exactly {text : String} (tie : Tie) (h : a.value = .finite negative m)
    (hexactly : exactly? text = some (withSign negative (shortest tie m).value)) :
    a.IsShortest text negative (shortest tie m) where
  exactly := hexactly
  rounded := by
    rw [isRounding_iff_of_finite h (value_nonneg _), ← nearestDecimal_eq]
    exact nearestDecimal_shortest tie m.isLt
  fewest negative' d' hd := by
    refine length_digits_shortest_le tie m.isLt ?_
    rw [nearestDecimal_eq]
    exact nearestMagnitude_of_isRounding h d'.value_nonneg hd

/-- Halfway between two decimals the even one is written and the larger one is drawn. -/
theorem shortest_up_cases (h : a.value = .finite negative m) :
    ¬ a.IsHalfway negative (shortest .even m) ∧ shortest .up m = shortest .even m ∨
      a.IsHalfway negative (shortest .even m) ∧ shortest .up m = (shortest .even m).next := by
  have hrational : a.rational? = some (withSign negative (magnitude m)) :=
    rational?_eq_some_iff.2 ⟨negative, m, h, rfl⟩
  have hrounded : a.IsRounding (withSign negative (shortest .even m).next.value) ↔
      nearestDecimal (shortest .even m).next = m := by
    rw [isRounding_iff_of_finite h (value_nonneg _), nearestDecimal_eq]
  have hnext := (shortest .even m).value_lt_next
  rcases shortest_up_eq_or m.isLt with hsame | ⟨hup, heven, hhalfway⟩
  · refine .inl ⟨fun hhalf => ?_, hsame⟩
    have htie : magnitude m = (shortest .even m).halfway :=
      withSign_inj.1 (Option.some.inj (hrational.symm.trans hhalf.halfway))
    have h0 : (m : ℕ) ≠ 0 := by
      intro h0
      have hnonneg := (shortest .even m).value_nonneg
      rw [h0, magnitude_zero, halfway, ← h0] at htie
      linarith
    have hup := shortest_up_of_tie h0 m.isLt htie (hrounded.1 hhalf.rounded)
    rw [← hup, hsame] at hnext
    exact lt_irrefl _ hnext
  · refine .inr ⟨⟨heven, hhalfway ▸ hrational, hrounded.2 ?_⟩, hup⟩
    rw [← hup]
    exact nearestDecimal_shortest .up m.isLt

theorem display_eq_print (h : a.value = .finite negative m) {i : ℤ}
    (hi : withSign negative (magnitude m) = i) (hle : |i| ≤ 2 ^ 53 - 1) :
    a.display = a.toValue.print := by
  have hm : magnitude m = i.natAbs := by
    have habs := congrArg abs hi
    rwa [abs_withSign, abs_of_nonneg (magnitude_nonneg m), ← Int.cast_abs, Int.abs_eq_natAbs,
      Int.cast_natCast] at habs
  have hn : i.natAbs ≤ exactIntegers := by
    have hlimit : exactIntegers = 2 ^ 53 - 1 := rfl
    rw [Int.abs_eq_natAbs] at hle
    omega
  rw [print_toValue_of_natCast h hn hm, ← String.toList_inj, toList_display h,
    write_shortest_of_natCast hn hm, String.toList_ofList]

/-- The text drawn for a literal and the text written for it are the same decimal, unless the
literal lies halfway between two decimals of fewest digits: then the even one is written and the
other one is drawn. Integers of up to 53 bits have one text. An exponent is drawn exactly for what
is nearer to zero than the double nearest to a millionth, or from `10 ^ 21` on; what has none is
tidy. -/
theorem texts_are_decimals {a : Number} {x : ℚ} (h : a.rational? = some x) :
    ∃ (negative : Bool) (drawn written : Decimal),
      a.IsShortest a.display negative drawn ∧ a.IsShortest a.toValue.print negative written ∧
      (¬ a.IsHalfway negative written ∧ drawn = written ∨
        a.IsHalfway negative written ∧ drawn = written.next) ∧
      (∀ i : ℤ, x = i → |i| ≤ 2 ^ 53 - 1 → a.display = a.toValue.print) ∧
      ('e' ∈ a.display.toList ↔ x ≠ 0 ∧
        (|x| < magnitude (nearestMagnitude (10 ^ (-6 : ℤ))) ∨ 10 ^ 21 ≤ |x|)) ∧
      ∃ cs, a.display.toList = signed negative cs ∧ Written layout drawn.digits drawn.point cs ∧
        ('e' ∉ cs → IsTidy cs) := by
  obtain ⟨negative, m, hvalue, rfl⟩ := rational?_eq_some_iff.1 h
  refine ⟨negative, shortest .up m, shortest .even m,
    isShortest_of_exactly .up hvalue (exactly?_display hvalue),
    isShortest_of_exactly .even hvalue (exactly?_print hvalue), shortest_up_cases hvalue,
    fun i hi hle => display_eq_print hvalue hi hle, ?_,
    _, toList_display hvalue, written_write layout _, fun he => ?_⟩
  · have hmem : 'e' ∈ signed negative (layout.write (shortest .up m)) ↔
        'e' ∈ layout.write (shortest .up m) := by
      cases negative <;> simp [signed]
    have hzero : withSign negative (magnitude m) ≠ 0 ↔ (m : ℕ) ≠ 0 := by
      rw [← abs_ne_zero, abs_withSign, abs_ne_zero, ← magnitude_zero,
        magnitude_strictMono.injective.ne_iff]
    rw [toList_display hvalue, hmem, mem_write_shortest_iff, not_plain_iff, hzero, abs_withSign,
      abs_of_nonneg (magnitude_nonneg m)]
  · rw [mem_write_shortest_iff, not_not] at he
    exact isTidy_write rfl (exponent_shortest .up m.isLt) (coefficient_mod_ten_of_ne .up m) he

/-- The number `-120.5`. -/
def fractional : Number := ofBinary64 (ofMagnitude true (nearest 241 2))

/-- `2 ^ -25`, halfway between two decimals of seventeen digits. -/
def halfway : Number := ofBinary64 (ofMagnitude false (998 * binade))

theorem display_halfway : halfway.display = "2.9802322387695313e-8" := by decide +kernel

theorem print_halfway : halfway.toValue.print = "2.9802322387695312e-8" := by decide +kernel

theorem exactly?_of_decimalText? {s : String} {c : ℕ} {e : ℤ} (hsign : (sign s.toList).1 = false)
    (h : decimalText? (sign s.toList).2 = some ⟨c, e⟩) : exactly? s = some ((c : ℚ) * 10 ^ e) := by
  rw [exactly?, h, hsign]
  rfl

theorem exactly?_display_halfway :
    exactly? halfway.display = some (29802322387695313 * 10 ^ (-24 : ℤ)) := by
  rw [display_halfway]
  exact exactly?_of_decimalText? (by decide +kernel) (by decide +kernel)

theorem exactly?_print_halfway :
    exactly? halfway.toValue.print = some (29802322387695312 * 10 ^ (-24 : ℤ)) := by
  rw [print_halfway]
  exact exactly?_of_decimalText? (by decide +kernel) (by decide +kernel)

theorem exactly?_halfway_ne : exactly? halfway.display ≠ exactly? halfway.toValue.print := by
  rw [exactly?_display_halfway, exactly?_print_halfway, Ne, Option.some.injEq,
    mul_left_inj' (by positivity)]
  norm_num

theorem nearestMagnitude_millionth : nearestMagnitude (10 ^ (-6 : ℤ)) = nearest 1 (10 ^ 6) := by
  rw [← nearestMagnitude_div (by decide)]
  norm_num

theorem rational?_ofInt_neg : (ofInt (-120)).rational? = some (-120) := by
  have hunits : units (nearest 120 1) = 120 * unitsPerOne := by decide +kernel
  have hvalue := rational?_ofBinary64 true (n := nearest 120 1) (by decide +kernel)
  rwa [magnitude_eq_natCast_iff.2 hunits] at hvalue

theorem magnitude_fractional : magnitude (nearest 241 2) = 241 / 2 :=
  magnitude_eq_div (a := 241) (b := 2) (by decide) (by decide +kernel)

theorem rational?_fractional : fractional.rational? = some (-(241 / 2)) := by
  rw [← magnitude_fractional]
  exact rational?_ofBinary64 true (by decide +kernel)

theorem magnitude_halfway : magnitude (998 * binade) = 1 / 2 ^ 25 := by
  have hvalue := magnitude_eq_div (n := 998 * binade) (a := 1) (b := 2 ^ 25) (by decide)
    (by decide +kernel)
  rwa [Nat.cast_one, Nat.cast_pow, Nat.cast_ofNat] at hvalue

theorem rational?_halfway : halfway.rational? = some (1 / 2 ^ 25) := by
  rw [← magnitude_halfway]
  exact rational?_ofBinary64 false (by decide +kernel)

/-- An integer has one text, a number near one is drawn without an exponent, and a small one with an
exponent and, if it lies halfway between two decimals, as another decimal than it is written. -/
theorem texts_are_decimals_in_each_form :
    ((ofInt (-120)).rational? = some (-120) ∧
      (ofInt (-120)).display = (ofInt (-120)).toValue.print) ∧
    (fractional.rational? = some (-(241 / 2)) ∧ 'e' ∉ fractional.display.toList) ∧
    halfway.rational? = some (1 / 2 ^ 25) ∧ 'e' ∈ halfway.display.toList ∧
      ∃ negative written, halfway.IsShortest halfway.display negative written.next ∧
        halfway.IsShortest halfway.toValue.print negative written := by
  refine ⟨⟨rational?_ofInt_neg, ?_⟩, ⟨rational?_fractional, ?_⟩, rational?_halfway, ?_⟩
  · obtain ⟨_, _, _, _, _, _, hsame, _⟩ := texts_are_decimals rational?_ofInt_neg
    exact hsame (-120) (by norm_num) (by norm_num)
  · obtain ⟨_, _, _, _, _, _, _, hexponent, _⟩ := texts_are_decimals rational?_fractional
    rw [abs_neg, abs_of_pos (by norm_num), nearestMagnitude_millionth] at hexponent
    have hlow : magnitude (nearest 1 (10 ^ 6)) ≤ 241 / 2 := by
      rw [← magnitude_fractional]
      exact magnitude_strictMono.monotone (by decide +kernel)
    exact fun he => (hexponent.1 he).2.elim (not_lt.2 hlow) (not_le.2 (by norm_num))
  · obtain ⟨negative, drawn, written, hdrawn, hwritten, hcases, _, hexponent, _⟩ :=
      texts_are_decimals rational?_halfway
    rw [abs_of_pos (by norm_num), nearestMagnitude_millionth] at hexponent
    have hlow : 1 / 2 ^ 25 < magnitude (nearest 1 (10 ^ 6)) := by
      rw [← magnitude_halfway]
      exact magnitude_strictMono (by decide +kernel)
    have hnext : drawn = written.next := by
      rcases hcases with ⟨-, hsame⟩ | ⟨-, hnext⟩
      · rw [hsame] at hdrawn
        exact absurd (hdrawn.exactly.trans hwritten.exactly.symm) exactly?_halfway_ne
      · exact hnext
    exact ⟨hexponent.2 ⟨by norm_num, .inl hlow⟩, negative, written, hnext ▸ hdrawn, hwritten⟩

/-- The two texts of `2 ^ -25` are not the same decimal. -/
theorem halfway_texts_differ :
    exactly? halfway.display = some (29802322387695313 * 10 ^ (-24 : ℤ)) ∧
      exactly? halfway.toValue.print = some (29802322387695312 * 10 ^ (-24 : ℤ)) ∧
      exactly? halfway.display ≠ exactly? halfway.toValue.print :=
  ⟨exactly?_display_halfway, exactly?_print_halfway, exactly?_halfway_ne⟩

end Number

end FormulaEditor
