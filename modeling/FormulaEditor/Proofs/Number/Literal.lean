import FormulaEditor.Proofs.Json.DigitLimit
import FormulaEditor.Proofs.Number.Reader
import FormulaEditor.Proofs.Number.Rounding
/-! All ways of writing a number in JSON, with a point or an exponent, as an integer or longer than
any integer, between quotes or not, are read as the same literal: the number correctly rounded. -/
namespace FormulaEditor

open Binary64 Decimal Json

namespace Number

/-- The text of a value is read as the literal, both by itself and as the value of a number in a
formula. -/
structure IsReadAs (a : Number) (text : String) : Prop where
  alone : ofJson text = .ok a
  inFormula : Formula.ofJson ("\x7b\"type\":\"NUMBER\",\"value\":" ++ text ++ "\x7d") =
    .ok (.number a)

theorem valueText_tagged {v : Value} {cs : List Char} (h : ScalarText v cs) (depth : ℕ) :
    ValueText (depth + 1) (Formula.tagged .number [("value", v)])
      ("\x7b\"type\":\"NUMBER\",\"value\":".toList ++ (cs ++ ['}'])) := by
  have hmember (key : String) {v : Value} {cs : List Char} (h : ScalarText v cs) :
      MemberText (ValueText depth) (key, v) ((quote key).toList ++ ':' :: cs) := by
    have hvalue : ValueText depth v cs := by
      cases depth with
      | zero => exact h
      | succ depth => exact .inl h
    have htext := MemberText.mk (quotedText_quote key) blanks_nil blanks_nil hvalue
    exact htext
  have htype := hmember "type" (.string (quotedText_quote Tag.number.spelling))
  have hclosed : Items (MemberText (ValueText depth)) '}' false [] ['}'] := .closed blanks_nil
  have hitems := Items.item (.first blanks_nil) htype
    (.item (.later blanks_nil blanks_nil) (hmember "value" h) hclosed)
  have htext : "\x7b\"type\":\"NUMBER\",\"value\":".toList =
      '{' :: ((quote "type").toList ++ ':' :: (quote Tag.number.spelling).toList ++
        ',' :: ((quote "value").toList ++ [':'])) := by decide +kernel
  rw [htext]
  refine .inr ?_
  have hobject := ContainerText.object hitems
  simpa [Formula.tagged] using hobject

theorem isReadAs_of_scalarText {a : Number} {v : Value} {text : String}
    (h : ScalarText v text.toList) (ha : a.IsSpelledBy v) : a.IsReadAs text where
  alone := by
    refine ofJson_of_value ?_ ha
    have hends : EndsNumber [] := by simp [EndsNumber]
    have hread := value_append_of_scalarText 0 h hends
    rwa [List.append_nil] at hread
  inFormula := by
    refine Formula.ofJson_of_value ?_ (isSpelledAtRootBy_tagged ha)
    have hends : EndsNumber [] := by simp [EndsNumber]
    have hread := (recognizes_value depthLimit).complete blanks_nil (valueText_tagged h 126) hends
    simpa using hread

theorem digitsText_of_fractionText {whole text fraction : List Char} (hd : AreDigits whole)
    (hne : whole ≠ []) (h : FractionText text fraction) :
    DigitsText (whole ++ text) whole fraction := by
  cases h with
  | none => simpa using DigitsText.plain hd hne
  | some _ hd' => exact .pointed hd hd' fun h => hne h.1

theorem literalText_of_numberText {s : Spelling} {cs : List Char} {a : Number}
    (h : NumberText s cs) (ha : a.Approximates s.value) : LiteralText cs a := by
  cases h with
  | @mk fraction exponent hne hd hzero hfraction hexponent =>
    obtain ⟨sign, hsign, htext⟩ := exists_signText_signed s.negative
      (s.whole ++ (fraction ++ exponent))
    have hliteral :=
      LiteralText.decimal hsign (digitsText_of_fractionText hd hne hfraction) hexponent ha
    rwa [htext, ← List.append_assoc s.whole]

theorem isRounding_value_iff {s : Spelling} {a : Number} (hlimit : |s.value| < roundingLimit) :
    a.IsRounding s.value ↔
      ofBinary64 (ofMagnitude s.negative (nearestMagnitude s.exact.value)) = a := by
  rw [s.abs_value] at hlimit
  rw [Spelling.value_eq, isRounding_withSign_iff s.exact.value_nonneg]
  exact and_iff_right hlimit

theorem isReadAs_quote {s : Spelling} {text : String} {a : Number}
    (h : NumberText s text.toList) (ha : a.IsRounding s.value) : a.IsReadAs (quote text) :=
  isReadAs_of_scalarText (.string (quotedText_quote text))
    (literalText_of_numberText h (.rounded ha))

/-- A number is read as a literal of the magnitude that is nearest to the decimal read for it. -/
theorem isReadAs_of_numberText {s : Spelling} {text : String} (h : NumberText s text.toList)
    (hlimit : |s.value| < roundingLimit) :
    (ofBinary64 (ofMagnitude s.negative (nearestMagnitude s.decimal.value))).IsReadAs text := by
  rw [s.abs_value] at hlimit
  obtain ⟨n, hn, hvalue⟩ := Spelling.exists_standsFor h.areDigits hlimit
  refine isReadAs_of_scalarText (.number h hn) ?_
  exact approximates_rational_iff.2 (congrArg ofBinary64 hvalue)

/-- A tie with more digits than are looked at is read as the other one of the two nearest
literals. -/
theorem exists_isReadAs_of_isLongTie {s : Spelling} {text : String} {a : Number}
    (h : NumberText s text.toList) (ha : a.IsRounding s.value) (htie : s.IsLongTie) :
    ∃ b ≠ a, b.IsNearest s.value ∧ b.IsReadAs text := by
  have hlimit := ha.inRange
  have hread := isReadAs_of_numberText h hlimit
  obtain ⟨n, heven, hn, hmid, hnearest, hnext⟩ :=
    Spelling.nearestMagnitude_decimal_of_isLongTie h.areDigits (s.abs_value ▸ hlimit) htie
  have hvalue : s.value = withSign s.negative (midpoint n) := by rw [Spelling.value_eq, hmid]
  have hrounding := (isRounding_value_iff hlimit).1 ha
  rw [hnearest] at hrounding
  rw [hnext] at hread
  refine ⟨_, fun hsame => ?_, hvalue ▸ isNearest_midpoint heven hn, hread⟩
  rw [← hrounding] at hsame
  have hsucc : n + 1 = n := eq_of_ofBinary64_eq hn (by omega) hsame
  omega

/-- For every number in range there is one literal that it is rounded to, and every text that spells
the number is read as that literal: between quotes always, and as a number unless the number is a
tie with more digits than are looked at. Then the other one of the two nearest literals is read. -/
theorem texts_of_number_read_rounded {q : ℚ} (hq : |q| < roundingLimit) :
    ∃ a : Number, (∀ b : Number, b.IsRounding q ↔ b = a) ∧
      ∀ (s : Spelling) (text : String), NumberText s text.toList → s.value = q →
        a.IsReadAs (quote text) ∧ (¬ s.IsLongTie → a.IsReadAs text) ∧
          (s.IsLongTie → ∃ b ≠ a, b.IsNearest q ∧ b.IsReadAs text) := by
  obtain ⟨a, ha⟩ := exists_isRounding hq
  refine ⟨a, ha, ?_⟩
  rintro s text h rfl
  have hrounding := (ha a).2 rfl
  refine ⟨isReadAs_quote h hrounding, fun htie => ?_, exists_isReadAs_of_isLongTie h hrounding⟩
  have hread := isReadAs_of_numberText h hq
  rwa [Spelling.nearestMagnitude_decimal h.areDigits (s.abs_value ▸ hq) htie,
    (isRounding_value_iff hq).1 hrounding] at hread

/-- Halfway between two doubles, as an integer, with an exponent and between quotes. -/
theorem texts_of_number_read_rounded_tie :
    |(9007199254740993 : ℚ)| < roundingLimit ∧
      ∃ a : Number, (∀ b : Number, b.IsRounding 9007199254740993 ↔ b = a) ∧
        a.IsReadAs "9007199254740993" ∧ a.IsReadAs "9.007199254740993e15" ∧
        a.IsReadAs (quote "9.007199254740993e15") := by
  have hq : |(9007199254740993 : ℚ)| < roundingLimit := by
    rw [abs_of_pos (by norm_num)]
    exact_mod_cast natCast_lt_roundingLimit_iff.2 (by decide +kernel : 9007199254740993 < _)
  obtain ⟨a, ha, hread⟩ := texts_of_number_read_rounded hq
  have hinteger := hread ⟨false, "9007199254740993".toList, [], none⟩ "9007199254740993" ?_ ?_
  have hexponent := hread ⟨false, ['9'], "007199254740993".toList, some 15⟩
    "9.007199254740993e15" ?_ ?_
  · exact ⟨hq, a, ha, hinteger.2.1 fun h => absurd h.1.pow_le (by decide +kernel),
      hexponent.2.1 fun h => absurd h.1.pow_le (by decide +kernel), hexponent.1⟩
  · have htext : ExponentText ['e', '1', '5'] (some 15) :=
      .some (.inl rfl) .none (List.cons_ne_nil _ _) (by simp [AreDigits])
    simpa [signed] using NumberText.mk (s := ⟨false, ['9'], "007199254740993".toList, some 15⟩)
      (by simp) (by simp [AreDigits]) (by simp) (.some (by simp) (by simp [AreDigits])) htext
  · have hexact : Spelling.exact ⟨false, ['9'], "007199254740993".toList, some 15⟩ =
        ⟨9007199254740993, 0⟩ := by decide +kernel
    rw [Spelling.value_eq, hexact]
    simp [withSign, Decimal.value]
  · simpa [signed] using NumberText.mk (s := ⟨false, "9007199254740993".toList, [], none⟩)
      (by simp) (by simp [AreDigits]) (by simp) .none .none
  · have hexact : Spelling.exact ⟨false, "9007199254740993".toList, [], none⟩ =
        ⟨9007199254740993, 0⟩ := by decide +kernel
    rw [Spelling.value_eq, hexact]
    simp [withSign, Decimal.value]

/-- The same number with so many zeros behind it that the last of them is behind the limit. -/
def longTie : Spelling where
  negative := false
  whole := "9007199254740993".toList ++ List.replicate 753 '0'
  fraction := []
  exponent := some (-753)

def longTieText : String := String.ofList (longTie.whole ++ "e-753".toList)

theorem value_longTie : longTie.value = (9007199254740993 : ℕ) := by
  have hexact : longTie.exact = ⟨9007199254740993 * 10 ^ 753, -753⟩ := by decide +kernel
  rw [Spelling.value_eq, hexact, value_zeros, show longTie.negative = false from rfl]
  simp [withSign, Decimal.value]

theorem numberText_longTie : NumberText longTie longTieText.toList := by
  have hhead : longTie.whole.head? = some '9' := by decide +kernel
  have hne : longTie.whole ≠ [] := by
    intro h
    rw [h] at hhead
    nomatch hhead
  have hzero (c : Char) (cs : List Char) : longTie.whole ≠ '0' :: c :: cs := by
    intro h
    rw [h] at hhead
    simp at hhead
  have hwhole : AreDigits longTie.whole :=
    AreDigits.append (by simp [AreDigits]) (areDigits_replicate _)
  have hexponent : ExponentText ['e', '-', '7', '5', '3'] longTie.exponent :=
    .some (.inl rfl) .minus (List.cons_ne_nil _ _) (by simp [AreDigits])
  have htext := NumberText.mk hne hwhole hzero .none hexponent
  rwa [longTieText, String.toList_ofList]

theorem isLongTie_longTie : longTie.IsLongTie := by
  have hlong := (Spelling.isLong_iff numberText_longTie.areDigits).2 (by decide +kernel)
  refine ⟨hlong, 1076 * binade, by decide +kernel, ?_⟩
  rw [value_longTie, Nat.abs_cast]
  exact (midpoint_of_units (by decide +kernel)).symm

/-- As a number and between quotes it is not read as one literal. -/
theorem longTie_read_apart :
    NumberText longTie longTieText.toList ∧ |longTie.value| < roundingLimit ∧
      ¬ ∃ a : Number, a.IsReadAs longTieText ∧ a.IsReadAs (quote longTieText) := by
  have hq : |longTie.value| < roundingLimit := by
    rw [value_longTie, Nat.abs_cast, natCast_lt_roundingLimit_iff]
    decide +kernel
  refine ⟨numberText_longTie, hq, ?_⟩
  rintro ⟨c, hnumber, hquoted⟩
  obtain ⟨a, ha⟩ := exists_isRounding hq
  have hrounding := (ha a).2 rfl
  obtain ⟨b, hne, -, hread⟩ :=
    exists_isReadAs_of_isLongTie numberText_longTie hrounding isLongTie_longTie
  have hb : b = c := Except.ok.inj (hread.alone.symm.trans hnumber.alone)
  have ha' : a = c :=
    Except.ok.inj ((isReadAs_quote numberText_longTie hrounding).alone.symm.trans hquoted.alone)
  exact hne (hb.trans ha'.symm)

end Number

end FormulaEditor
