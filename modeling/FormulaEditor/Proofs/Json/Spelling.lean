import FormulaEditor.Proofs.Binary64.Shortest
import FormulaEditor.Proofs.Json.Grammar
import Mathlib.Data.List.TakeDrop
import Mathlib.Data.List.TakeWhile
/-! Numbers are read from the texts that spell them, and from no others. What follows a number must
not go on with it. What is written for a numeral spells that numeral. -/
namespace FormulaEditor
namespace Json

open Decimal

def continuesNumber (c : Char) : Bool := c.isDigit || c == '.' || c == 'e' || c == 'E'

/-- Nothing that would be read as a part of a number before it. -/
def EndsNumber (rest : List Char) : Prop := ∀ c, rest.head? = some c → continuesNumber c = false

theorem span_digits {ds rest : List Char} (hd : AreDigits ds)
    (hr : ∀ c, rest.head? = some c → c.isDigit = false) :
    (ds ++ rest).span Char.isDigit = (ds, rest) := by
  have hrest : rest.takeWhile Char.isDigit = [] ∧ rest.dropWhile Char.isDigit = rest := by
    cases rest with
    | nil => exact ⟨rfl, rfl⟩
    | cons c cs => simp [hr c rfl]
  rw [List.span_eq_takeWhile_dropWhile, List.takeWhile_append_of_pos hd,
    List.dropWhile_append_of_pos hd, hrest.1, hrest.2, List.append_nil]

theorem someDigits_append {early : SyntaxError} {ds rest : List Char} (hne : ds ≠ [])
    (hd : AreDigits ds) (hr : ∀ c, rest.head? = some c → c.isDigit = false) :
    someDigits early (ds ++ rest) = .ok (ds, rest) := by
  cases ds with
  | nil => exact absurd rfl hne
  | cons c cs => rw [someDigits, span_digits hd hr]

theorem wholeDigits_append {early : SyntaxError} {ds rest : List Char} (hne : ds ≠ [])
    (hd : AreDigits ds) (h0 : ∀ c cs, ds ≠ '0' :: c :: cs)
    (hr : ∀ c, rest.head? = some c → c.isDigit = false) :
    wholeDigits early (ds ++ rest) = .ok (ds, rest) := by
  simp only [wholeDigits, someDigits_append hne hd hr, bind, Except.bind]

theorem continuesNumber_eq_false {c : Char} (h : continuesNumber c = false) :
    c.isDigit = false ∧ c ≠ '.' ∧ c ≠ 'e' ∧ c ≠ 'E' := by
  simpa [continuesNumber, and_assoc] using h

theorem fractionDigits_append {early : SyntaxError} {text ds rest : List Char}
    (h : FractionText text ds) (hr : ∀ c, rest.head? = some c → c.isDigit = false ∧ c ≠ '.') :
    fractionDigits early (text ++ rest) = .ok (ds, rest) := by
  cases h with
  | none =>
    cases rest with
    | nil => rfl
    | cons c cs =>
      have hc := (hr c rfl).2
      simp [fractionDigits, hc]
  | some hne hd => exact someDigits_append hne hd fun c hc => (hr c hc).1

theorem exponentPart_append {early : SyntaxError} {text rest : List Char} {e : Option ℤ}
    (h : ExponentText text e) (hr : EndsNumber rest) :
    exponentPart early (text ++ rest) = .ok (e, rest) := by
  cases h with
  | none =>
    cases rest with
    | nil => rfl
    | cons c cs =>
      have hc := continuesNumber_eq_false (hr c rfl)
      simp [exponentPart, hc]
  | @some mark sign digits negative hmark hsign hne hd =>
    have hdigits : someDigits early (digits ++ rest) = .ok (digits, rest) :=
      someDigits_append hne hd fun c hc => (continuesNumber_eq_false (hr c hc)).1
    simp only [List.cons_append, List.append_assoc, exponentPart, hmark, if_true,
      hsign.sign_append (hd.unsigned hne rest), hdigits, digitsValue, bind, Except.bind]

theorem minus_signed (negative : Bool) {c : Char} (h : c.isDigit = true) (cs rest : List Char) :
    minus (signed negative (c :: cs) ++ rest) = (negative, c :: cs ++ rest) := by
  cases negative with
  | true => rfl
  | false =>
    have hc : c ≠ '-' := by rintro rfl; simp at h
    simp [signed, minus, hc]

theorem ends_fraction {exponent rest : List Char} {e : Option ℤ} (h : ExponentText exponent e)
    (hr : EndsNumber rest) :
    ∀ c, (exponent ++ rest).head? = some c → c.isDigit = false ∧ c ≠ '.' := by
  intro c hc
  cases h with
  | none =>
    have hc := continuesNumber_eq_false (hr c hc)
    exact ⟨hc.1, hc.2.1⟩
  | some hmark =>
    obtain rfl := Option.some.inj hc
    rcases hmark with rfl | rfl <;> decide

theorem ends_whole {text ds rest : List Char} (h : FractionText text ds)
    (hr : ∀ c, rest.head? = some c → c.isDigit = false ∧ c ≠ '.') :
    ∀ c, (text ++ rest).head? = some c → c.isDigit = false := by
  intro c hc
  cases h with
  | none => exact (hr c hc).1
  | some =>
    obtain rfl := Option.some.inj hc
    decide

theorem spelling_append {early : SyntaxError} {s : Spelling} {text rest : List Char}
    (h : NumberText s text) (hr : EndsNumber rest) :
    spelling early (text ++ rest) = .ok (s, rest) := by
  cases h with
  | @mk fraction exponent hne hd h0 hfraction hexponent =>
    have hends := ends_fraction hexponent hr
    have hwhole := ends_whole hfraction hends
    have hminus : minus (signed s.negative (s.whole ++ (fraction ++ exponent)) ++ rest) =
        (s.negative, s.whole ++ (fraction ++ (exponent ++ rest))) := by
      rcases hs : s.whole with _ | ⟨c, cs⟩
      · exact absurd hs hne
      · rw [List.cons_append, minus_signed s.negative (hd c (hs ▸ List.mem_cons_self))]
        simp
    simp only [spelling, hminus, wholeDigits_append hne hd h0 hwhole,
      fractionDigits_append hfraction hends, exponentPart_append hexponent hr, bind, Except.bind]

theorem of_someDigits {early : SyntaxError} {cs ds rest : List Char}
    (h : someDigits early cs = .ok (ds, rest)) : cs = ds ++ rest ∧ AreDigits ds ∧ ds ≠ [] := by
  unfold someDigits at h
  split at h
  · nomatch h
  · nomatch h
  · rename_i hnil hcons
    have hspan := Except.ok.inj h
    obtain ⟨hcs, hd⟩ := of_span_digits hspan
    refine ⟨hcs, hd, ?_⟩
    rintro rfl
    cases rest with
    | nil => exact hnil hspan
    | cons c rest => exact hcons c rest hspan

theorem of_wholeDigits {early : SyntaxError} {cs ds rest : List Char}
    (h : wholeDigits early cs = .ok (ds, rest)) :
    cs = ds ++ rest ∧ AreDigits ds ∧ ds ≠ [] ∧ ∀ d ds', ds ≠ '0' :: d :: ds' := by
  obtain ⟨⟨ds', rest'⟩, hdigits, h⟩ := bind_eq_ok_iff.1 h
  obtain ⟨hcs, hd, hne⟩ := of_someDigits hdigits
  dsimp only at h
  split at h
  · nomatch h
  · rename_i hzero
    obtain ⟨rfl, rfl⟩ := Prod.mk.inj (Except.ok.inj h)
    exact ⟨hcs, hd, hne, hzero⟩

theorem exists_fractionText {early : SyntaxError} {cs ds rest : List Char}
    (h : fractionDigits early cs = .ok (ds, rest)) :
    ∃ text, FractionText text ds ∧ cs = text ++ rest := by
  unfold fractionDigits at h
  split at h
  · obtain ⟨rfl, hd, hne⟩ := of_someDigits h
    exact ⟨_, .some hne hd, rfl⟩
  · obtain ⟨rfl, rfl⟩ := Prod.mk.inj (Except.ok.inj h)
    exact ⟨[], .none, rfl⟩

theorem exists_exponentText {early : SyntaxError} {cs rest : List Char} {e : Option ℤ}
    (h : exponentPart early cs = .ok (e, rest)) :
    ∃ text, ExponentText text e ∧ cs = text ++ rest := by
  cases cs with
  | nil =>
    obtain ⟨rfl, rfl⟩ := Prod.mk.inj (Except.ok.inj h)
    exact ⟨[], .none, rfl⟩
  | cons c cs =>
    by_cases hmark : c = 'e' ∨ c = 'E'
    · simp only [exponentPart, hmark, if_true] at h
      obtain ⟨sign, hsign, hcs⟩ := exists_signText cs
      obtain ⟨⟨ds, rest'⟩, hdigits, h⟩ := bind_eq_ok_iff.1 h
      obtain ⟨rfl, rfl⟩ := Prod.mk.inj (Except.ok.inj h)
      obtain ⟨hrest, hd, hne⟩ := of_someDigits hdigits
      refine ⟨_, .some hmark hsign hne hd, ?_⟩
      rw [List.cons_append, List.append_assoc, ← hrest, ← hcs]
    · simp only [exponentPart, hmark, if_false] at h
      obtain ⟨rfl, rfl⟩ := Prod.mk.inj (Except.ok.inj h)
      exact ⟨[], .none, rfl⟩

theorem signed_of_minus {cs rest : List Char} {negative : Bool}
    (h : minus cs = (negative, rest)) : cs = signed negative rest := by
  unfold minus at h
  split at h
  all_goals
    obtain ⟨rfl, rfl⟩ := Prod.mk.inj h
    rfl

theorem exists_numberText {early : SyntaxError} {cs rest : List Char} {s : Spelling}
    (h : spelling early cs = .ok (s, rest)) : ∃ text, NumberText s text ∧ cs = text ++ rest := by
  rcases hminus : minus cs with ⟨negative, cs₀⟩
  rw [spelling, hminus] at h
  obtain ⟨⟨whole, cs₁⟩, hwhole, h⟩ := bind_eq_ok_iff.1 h
  obtain ⟨⟨fraction, cs₂⟩, hfraction, h⟩ := bind_eq_ok_iff.1 h
  obtain ⟨⟨exponent, cs₃⟩, hexponent, h⟩ := bind_eq_ok_iff.1 h
  obtain ⟨rfl, rfl⟩ := Prod.mk.inj (Except.ok.inj h)
  obtain ⟨rfl, hd, hne, hzero⟩ := of_wholeDigits hwhole
  obtain ⟨text, htext, rfl⟩ := exists_fractionText hfraction
  obtain ⟨text', htext', rfl⟩ := exists_exponentText hexponent
  refine ⟨_, .mk hne hd hzero htext htext', ?_⟩
  rw [signed_of_minus hminus]
  cases negative <;> simp [signed]

theorem FractionText.areDigits {text fraction : List Char} (h : FractionText text fraction) :
    AreDigits fraction := by
  cases h with
  | none => simp [AreDigits]
  | some hne hd => exact hd

theorem NumberText.areDigits {s : Spelling} {cs : List Char} (h : NumberText s cs) :
    AreDigits (s.whole ++ s.fraction) := by
  cases h with
  | mk hne hd hzero hfraction => exact hd.append hfraction.areDigits

theorem number_append {s : Spelling} {n : Numeral} {text rest : List Char} (h : NumberText s text)
    (hn : s.numeral? = some n) (hr : EndsNumber rest) : number (text ++ rest) = .ok (n, rest) := by
  simp only [number, spelling_append h hr, hn, bind, Except.bind]

theorem exists_of_number {cs rest : List Char} {n : Numeral} (h : number cs = .ok (n, rest)) :
    ∃ s text, NumberText s text ∧ s.numeral? = some n ∧ cs = text ++ rest := by
  obtain ⟨⟨s, rest'⟩, hs, hnumeral⟩ := bind_eq_ok_iff.1 h
  obtain ⟨text, htext, rfl⟩ := exists_numberText hs
  dsimp only at hnumeral
  split at hnumeral
  · rename_i hn
    obtain ⟨rfl, rfl⟩ := Prod.mk.inj (Except.ok.inj hnumeral)
    exact ⟨s, text, htext, hn, rfl⟩
  · nomatch hnumeral

theorem numberText_spell {l : Layout} (hmark : l.exponentMark = [] ∨ l.exponentMark = ['+'])
    {s : Spelling} (hne : s.whole ≠ []) (hd : AreDigits (s.whole ++ s.fraction))
    (h0 : ∀ c cs, s.whole ≠ '0' :: c :: cs) :
    NumberText s (signed s.negative (l.spell s.whole s.fraction s.exponent)) := by
  have hwhole : AreDigits s.whole := fun c hc => hd c (List.mem_append_left _ hc)
  have hfraction : FractionText (if s.fraction = [] then [] else '.' :: s.fraction) s.fraction := by
    by_cases hf : s.fraction = []
    · simpa [hf] using FractionText.none
    · rw [if_neg hf]
      exact .some hf fun c hc => hd c (List.mem_append_right _ hc)
  have htext := NumberText.mk hne hwhole h0 hfraction (exponentText_layout hmark s.exponent)
  simpa [Layout.spell] using htext

theorem exists_zeros (cs : List Char) :
    ∃ k, cs = List.replicate k '0' ++ cs.dropWhile (· == '0') := by
  have hzeros : cs.takeWhile (· == '0') =
      List.replicate (cs.takeWhile (· == '0')).length '0' := by
    refine List.eq_replicate_iff.2 ⟨rfl, fun c hc => ?_⟩
    simpa using List.mem_takeWhile_imp hc
  exact ⟨_, by rw [← hzeros, List.takeWhile_append_dropWhile]⟩

theorem Spelling.exists_fraction_eq (s : Spelling) :
    ∃ k, s.fraction = s.significantFraction ++ List.replicate k '0' := by
  obtain ⟨k, hk⟩ := exists_zeros s.fraction.reverse
  exact ⟨k, by rw [significantFraction, ← List.reverse_replicate, ← List.reverse_append, ← hk,
    List.reverse_reverse]⟩

theorem Spelling.digitsValue_digits (s : Spelling) :
    digitsValue s.digits = digitsValue (s.whole ++ s.significantFraction) := by
  obtain ⟨j, hj⟩ := exists_zeros (s.whole ++ s.significantFraction)
  rw [digits, hj, digitsValue_append, digitsValue_replicate, ← hj]
  simp

/-- Neither the zeros in front nor those at the end of the fraction count. -/
theorem Spelling.exists_digitsValue_eq (s : Spelling) :
    ∃ k, s.fraction.length = s.significantFraction.length + k ∧
      digitsValue (s.whole ++ s.fraction) = digitsValue s.digits * 10 ^ k := by
  obtain ⟨k, hk⟩ := s.exists_fraction_eq
  refine ⟨k, by rw [hk, List.length_append, List.length_replicate], ?_⟩
  rw [hk, ← List.append_assoc, digitsValue_append, digitsValue_replicate, List.length_replicate,
    Nat.add_zero, s.digitsValue_digits]

theorem Spelling.value_digits (s : Spelling) :
    Decimal.value ⟨digitsValue s.digits, s.exponent.getD 0 - s.significantFraction.length⟩ =
      (ofSpelling s.whole s.fraction (s.exponent.getD 0)).value := by
  obtain ⟨k, hlen, hvalue⟩ := s.exists_digitsValue_eq
  rw [ofSpelling, hvalue, value_zeros, hlen]
  congr 2
  push_cast
  ring

theorem Spelling.areDigits_digits {s : Spelling} (hd : AreDigits (s.whole ++ s.fraction)) :
    AreDigits s.digits := by
  obtain ⟨k, hk⟩ := s.exists_fraction_eq
  rw [hk, ← List.append_assoc] at hd
  exact fun c hc => hd c (List.mem_append_left _ ((List.dropWhile_sublist _).subset hc))

theorem Spelling.pow_le_digitsValue {s : Spelling} {c : Char} {cs rest : List Char}
    (hd : AreDigits (s.whole ++ s.fraction)) (h : s.digits = c :: cs ++ rest) :
    10 ^ cs.length ≤ digitsValue (c :: cs) := by
  have hc : c.isDigit = true := areDigits_digits hd c (by simp [h])
  unfold digits at h
  have hnot := List.head_dropWhile_not (· == '0') (l := s.whole ++ s.significantFraction)
    (by simp [h])
  exact Decimal.pow_le_digitsValue hc (by simpa [h] using hnot)

theorem Spelling.length_digits_le {s : Spelling} {k : ℕ} (hd : AreDigits (s.whole ++ s.fraction))
    (hlt : digitsValue (s.whole ++ s.fraction) < 10 ^ k) : s.digits.length ≤ k := by
  obtain ⟨j, -, hvalue⟩ := s.exists_digitsValue_eq
  cases hcs : s.digits with
  | nil => exact Nat.zero_le _
  | cons c cs =>
    have hdigits : s.digits = c :: cs ++ [] := by rw [hcs, List.append_nil]
    have hpow := Spelling.pow_le_digitsValue hd hdigits
    have hle : digitsValue s.digits ≤ digitsValue (s.whole ++ s.fraction) :=
      hvalue ▸ Nat.le_mul_of_pos_right _ (by positivity)
    rw [hcs] at hle
    exact (Nat.pow_lt_pow_iff_right (by decide)).1 (hpow.trans_lt (hle.trans_lt hlt))

/-- With so few digits all are looked at, and the decimal has the value of the spelling. -/
theorem Spelling.value_decimal {s : Spelling} (h : s.digits.length ≤ digitLimit) :
    s.decimal.value = (ofSpelling s.whole s.fraction (s.exponent.getD 0)).value := by
  rw [← s.value_digits, decimal]
  simp only [Nat.sub_eq_zero_of_le h, if_true]

namespace Numeral

def IsRegular : Numeral → Prop
  | integer i => -(2 ^ 63) ≤ i ∧ i < 2 ^ 64
  | float .. => True

theorem ofInteger?_natAbs {i : ℤ} (h : (integer i).IsRegular) :
    ofInteger? (decide (i < 0)) i.natAbs = some (integer i) := by
  have hrange : -(2 ^ 63) ≤ i ∧ i < 2 ^ 64 := h
  by_cases hi : i < 0
  · have hpos : 0 < i.natAbs ∧ i.natAbs ≤ Nat.pow 2 63 := by
      simp only [Nat.pow_eq]
      omega
    have habs : -(i.natAbs : ℤ) = i := by omega
    simp only [ofInteger?, hi, decide_true, if_true, hpos, and_self, habs]
  · have hlt : i.natAbs < Nat.pow 2 64 := by
      simp only [Nat.pow_eq]
      omega
    have habs : (i.natAbs : ℤ) = i := by omega
    simp only [ofInteger?, hi, decide_false, Bool.false_eq_true, if_false, hlt, if_true, habs]

theorem ofDecimal?_of_nearest {negative : Bool} {d : Decimal} {m : Fin Binary64.magnitudeCount}
    (h : Binary64.nearestDecimal d = m) : ofDecimal? negative d = some (float negative m) := by
  rw [ofDecimal?, Binary64.ofDecimal_eq, h, Binary64.ofMagnitude_coe]

theorem exists_spelling {n : Numeral} (h : n.IsRegular) :
    ∃ s : Spelling, n.digits = signed s.negative (layout.spell s.whole s.fraction s.exponent) ∧
      s.whole ≠ [] ∧ AreDigits (s.whole ++ s.fraction) ∧ (∀ c cs, s.whole ≠ '0' :: c :: cs) ∧
      s.numeral? = some n := by
  cases n with
  | integer i =>
    refine ⟨⟨decide (i < 0), Nat.toDigits 10 i.natAbs, [], none⟩, ?_, Nat.toDigits_ne_nil, ?_,
      toDigits_ne_zero_cons _, ?_⟩
    · simp [digits, Layout.spell]
    · rw [List.append_nil]
      exact areDigits_toDigits _
    · simp only [Spelling.numeral?, digitsValue_toDigits, ofInteger?_natAbs h]
  | float negative m =>
    obtain ⟨whole, fraction, exponent, hs⟩ := Layout.exists_spells (l := layout) (.inr rfl)
      (Binary64.exponent_shortest .even m.isLt)
    have hlen : (Binary64.shortest .even m).digits.length ≤ 768 :=
      length_digits_le (by decide) (Binary64.coefficient_shortest_lt .even m.isLt)
    have hlt : digitsValue (whole ++ fraction) < 10 ^ digitLimit :=
      hs.lt.trans_le (Nat.pow_le_pow_right (by decide) (max_le hlen (by decide)))
    refine ⟨⟨negative, whole, fraction, exponent⟩, ?_, hs.whole_ne_nil, hs.digits, hs.whole_ne, ?_⟩
    · rw [digits, hs.write]
    · have hdecimal := Spelling.value_decimal (s := ⟨negative, whole, fraction, exponent⟩)
        (Spelling.length_digits_le hs.digits hlt)
      have hnearest : Binary64.nearestDecimal
          (Spelling.decimal ⟨negative, whole, fraction, exponent⟩) = m := by
        rw [Binary64.nearestDecimal_congr (hdecimal.trans hs.value),
          Binary64.nearestDecimal_shortest .even m.isLt]
      unfold Spelling.numeral?
      split
      · rename_i hf he
        rcases hs.marked (by decide) with hne | hne
        · exact absurd hf hne
        · exact absurd he hne
      · exact ofDecimal?_of_nearest hnearest

theorem exists_signed_spell_eq {l : Layout} (negative : Bool) {whole : List Char}
    (fraction : List Char) (exponent : Option ℤ) (hne : whole ≠ []) (hd : AreDigits whole) :
    ∃ c cs, signed negative (l.spell whole fraction exponent) = c :: cs ∧
      (c = '-' ∨ c.isDigit = true) := by
  cases negative with
  | true => exact ⟨_, _, rfl, .inl rfl⟩
  | false =>
    cases whole with
    | nil => exact absurd rfl hne
    | cons c cs => exact ⟨c, _, rfl, .inr (hd c List.mem_cons_self)⟩

theorem exists_digits_eq (n : Numeral) :
    ∃ c cs, n.digits = c :: cs ∧ (c = '-' ∨ c.isDigit = true) := by
  cases n with
  | integer i =>
    have hspell := exists_signed_spell_eq (l := layout) (decide (i < 0)) [] none
      Nat.toDigits_ne_nil (areDigits_toDigits i.natAbs)
    simpa [digits, Layout.spell] using hspell
  | float negative m =>
    obtain ⟨whole, fraction, exponent, hs⟩ := Layout.exists_spells (l := layout) (.inr rfl)
      (Binary64.exponent_shortest .even m.isLt)
    rw [digits, hs.write]
    exact exists_signed_spell_eq negative fraction exponent hs.whole_ne_nil fun c hc =>
      hs.digits c (List.mem_append_left _ hc)

end Numeral

/-- Every numeral is read back from its digits. -/
theorem number_digits {n : Numeral} (h : n.IsRegular) {rest : List Char} (hr : EndsNumber rest) :
    number (n.digits ++ rest) = .ok (n, rest) := by
  obtain ⟨s, hdigits, hne, hd, h0, hn⟩ := n.exists_spelling h
  rw [hdigits]
  exact number_append (numberText_spell (.inl rfl) hne hd h0) hn hr

end Json

end FormulaEditor
