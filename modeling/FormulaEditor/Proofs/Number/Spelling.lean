import FormulaEditor.Number.Spelling
import FormulaEditor.Proofs.Decimal.Spelling
import FormulaEditor.Proofs.Json.Spelling
import FormulaEditor.Proofs.Number.Rounding
/-! The texts that spell number literals, and that exactly these are read as literals. -/
namespace FormulaEditor
namespace Number

open Decimal

/-- Digits before and after a point, not both missing. Without a fraction the point may be left out,
too. -/
inductive DigitsText : List Char → List Char → List Char → Prop
  | plain {ds : List Char} (hd : AreDigits ds) (hne : ds ≠ []) : DigitsText ds ds []
  | pointed {ds fraction : List Char} (hd : AreDigits ds) (hfraction : AreDigits fraction)
    (hne : ¬ (ds = [] ∧ fraction = [])) : DigitsText (ds ++ '.' :: fraction) ds fraction

/-- The words for what is no decimal. Their case does not matter. -/
inductive WordText (negative : Bool) : List Char → Binary64 → Prop
  | inf {cs : List Char} (h : cs.map Char.toLower = ['i', 'n', 'f']) :
    WordText negative cs (.infinity negative)
  | infinity {cs : List Char} (h : cs.map Char.toLower = ['i', 'n', 'f', 'i', 'n', 'i', 't', 'y']) :
    WordText negative cs (.infinity negative)
  | nan {cs : List Char} (h : cs.map Char.toLower = ['n', 'a', 'n']) : WordText negative cs .nan

/-- A text that spells a literal. A number is rounded. -/
inductive LiteralText : List Char → Number → Prop
  | decimal {sign digits whole fraction exponent : List Char} {negative : Bool} {e : Option ℤ}
    {a : Number} (hsign : SignText sign negative) (hdigits : DigitsText digits whole fraction)
    (hexponent : ExponentText exponent e)
    (ha : a.Approximates (spelledValue negative whole fraction e)) :
    LiteralText (sign ++ (digits ++ exponent)) a
  | word {sign word : List Char} {negative : Bool} {a : Number} (hsign : SignText sign negative)
    (hword : WordText negative word a.value) : LiteralText (sign ++ word) a

theorem exists_exponentText {cs : List Char} {n : ℤ} (h : exponentText? cs = some n) :
    ∃ e, ExponentText cs e ∧ e.getD 0 = n := by
  cases cs with
  | nil => exact ⟨none, .none, Option.some.inj h⟩
  | cons c cs =>
    by_cases hmark : c = 'e' ∨ c = 'E'
    · obtain ⟨text, hsign, hcs⟩ := exists_signText cs
      simp only [exponentText?, hmark, if_true] at h
      split at h
      · nomatch h
      · rename_i hdigits
        obtain ⟨hne, hall⟩ := not_or.1 hdigits
        have hd : AreDigits (sign cs).2 := by simpa [AreDigits] using hall
        have he := ExponentText.some hmark hsign (by simpa using hne) hd
        rw [← hcs] at he
        exact ⟨_, he, Option.some.inj h⟩
    · simp [exponentText?, hmark] at h

theorem exponentText?_of_exponentText {cs : List Char} {e : Option ℤ} (h : ExponentText cs e) :
    exponentText? cs = some (e.getD 0) := by
  cases h with
  | none => rfl
  | @some mark sign digits negative hmark hsign hne hd =>
    have hs : Decimal.sign (sign ++ digits) = (negative, digits) := by
      have hu := hd.unsigned hne []
      rw [List.append_nil] at hu
      exact hsign.sign_append hu
    have hall : digits.all Char.isDigit = true := by simpa [AreDigits] using hd
    simp [exponentText?, hmark, hs, hne, hall, digitsValue]

def EndsDigits (rest : List Char) : Prop :=
  ∀ c, rest.head? = some c → c.isDigit = false ∧ c ≠ '.'

theorem endsDigits_of_exponentText {cs : List Char} {e : Option ℤ} (h : ExponentText cs e) :
    EndsDigits cs := by
  intro c hc
  cases h with
  | none => nomatch hc
  | some hmark =>
    obtain rfl := Option.some.inj hc
    rcases hmark with rfl | rfl <;> decide

theorem DigitsText.read {digits whole fraction rest : List Char}
    (h : DigitsText digits whole fraction) (hr : EndsDigits rest) :
    ∃ cs, (digits ++ rest).span Char.isDigit = (whole, cs) ∧ fractionText cs = (fraction, rest) ∧
      ¬ (whole = [] ∧ fraction = []) := by
  have hrest : ∀ c, rest.head? = some c → c.isDigit = false := fun c hc => (hr c hc).1
  cases h with
  | plain hd hne =>
    refine ⟨rest, Json.span_digits hd hrest, ?_, fun h => hne h.1⟩
    cases rest with
    | nil => rfl
    | cons c cs =>
      have hc := (hr c rfl).2
      simp [fractionText, hc]
  | pointed hd hfraction hne =>
    refine ⟨'.' :: (fraction ++ rest), ?_, Json.span_digits hfraction hrest, hne⟩
    rw [List.append_assoc]
    refine Json.span_digits hd fun c hc => ?_
    obtain rfl := Option.some.inj hc
    decide

theorem exists_digitsText {cs cs' whole fraction rest : List Char}
    (hspan : cs.span Char.isDigit = (whole, cs')) (hfraction : fractionText cs' = (fraction, rest))
    (hne : ¬ (whole = [] ∧ fraction = [])) :
    ∃ digits, DigitsText digits whole fraction ∧ cs = digits ++ rest := by
  obtain ⟨rfl, hd⟩ := of_span_digits hspan
  unfold fractionText at hfraction
  split at hfraction
  · obtain ⟨rfl, hf⟩ := of_span_digits hfraction
    exact ⟨_, .pointed hd hf hne, by simp⟩
  · obtain ⟨rfl, rfl⟩ := Prod.mk.inj hfraction
    exact ⟨whole, .plain hd (by simpa using hne), rfl⟩

theorem decimalText?_eq_some_iff {cs : List Char} {d : Decimal} :
    decimalText? cs = some d ↔ ∃ digits whole fraction exponent e,
      DigitsText digits whole fraction ∧ ExponentText exponent e ∧ cs = digits ++ exponent ∧
      .ofSpelling whole fraction (e.getD 0) = d := by
  constructor
  · intro h
    rcases hspan : cs.span Char.isDigit with ⟨whole, cs'⟩
    rcases hfraction : fractionText cs' with ⟨fraction, exponent⟩
    simp only [decimalText?, hspan, hfraction, List.isEmpty_iff] at h
    split at h
    · nomatch h
    · rename_i hne
      obtain ⟨n, hn, hd⟩ := Option.bind_eq_some_iff.1 h
      obtain ⟨e, he, rfl⟩ := exists_exponentText hn
      obtain ⟨digits, hdigits, hcs⟩ := exists_digitsText hspan hfraction hne
      exact ⟨digits, whole, fraction, exponent, e, hdigits, he, hcs, Option.some.inj hd⟩
  · rintro ⟨digits, whole, fraction, exponent, e, hdigits, he, rfl, rfl⟩
    obtain ⟨cs, hspan, hfraction, hne⟩ := hdigits.read (endsDigits_of_exponentText he)
    simp only [decimalText?, hspan, hfraction, List.isEmpty_iff, hne, if_false,
      exponentText?_of_exponentText he]
    rfl

theorem DigitsText.exists_cons {digits ds fraction : List Char}
    (h : DigitsText digits ds fraction) :
    ∃ c cs, digits = c :: cs ∧ (c.isDigit = true ∨ c = '.') := by
  cases h with
  | plain hd hne =>
    cases digits with
    | nil => exact absurd rfl hne
    | cons c cs => exact ⟨c, cs, rfl, .inl (hd c List.mem_cons_self)⟩
  | pointed hd =>
    cases ds with
    | nil => exact ⟨'.', fraction, rfl, .inr rfl⟩
    | cons c cs => exact ⟨c, _, rfl, .inl (hd c List.mem_cons_self)⟩

theorem DigitsText.unsigned {digits whole fraction : List Char}
    (h : DigitsText digits whole fraction) (rest : List Char) : Unsigned (digits ++ rest) := by
  obtain ⟨d, ds, rfl, hd⟩ := h.exists_cons
  intro c hc
  obtain rfl := Option.some.inj hc
  constructor <;> rintro rfl <;> simp at hd

theorem toLower_of_isDigit {c : Char} (h : c.isDigit = true) : c.toLower = c := by
  simp only [Char.isDigit, Bool.and_eq_true, decide_eq_true_eq] at h
  have hupper : ¬(65 ≤ c.val ∧ c.val ≤ 90) := by
    intro hc
    exact absurd (UInt32.le_trans hc.1 h.2) (by decide)
  exact dif_neg hupper

theorem word_head {word : List Char} {c : Char} (hc : (word.map Char.toLower).head? = some c)
    (h : c = 'i' ∨ c = 'n') : Unsigned word ∧ decimalText? word = none := by
  cases word with
  | nil => nomatch hc
  | cons w ws =>
    obtain rfl := Option.some.inj hc
    have hne (x : Char) (hx : x.toLower = x) (hxc : x ≠ 'i' ∧ x ≠ 'n') : w ≠ x := by
      rintro rfl
      rw [hx] at h
      exact h.elim hxc.1 hxc.2
    refine ⟨fun x hx => ?_, ?_⟩
    · obtain rfl := Option.some.inj hx
      exact ⟨hne '-' (by decide) (by decide), hne '+' (by decide) (by decide)⟩
    · refine Option.eq_none_iff_forall_ne_some.2 fun d hd => ?_
      obtain ⟨digits, whole, fraction, exponent, e, hdigits, _, hcs, _⟩ :=
        decimalText?_eq_some_iff.1 hd
      obtain ⟨x, xs, rfl, hx⟩ := hdigits.exists_cons
      obtain ⟨rfl, _⟩ := List.cons.inj hcs
      rcases hx with hx | hx
      · rw [toLower_of_isDigit hx] at h
        rcases h with rfl | rfl <;> simp at hx
      · exact hne '.' (by decide) (by decide) hx

theorem wordText?_eq_some_iff {negative : Bool} {cs : List Char} {x : Binary64} :
    wordText? negative cs = some x ↔ WordText negative cs x := by
  have hword (s : String) :
      String.ofList (cs.map Char.toLower) = s ↔ cs.map Char.toLower = s.toList := by
    rw [← String.toList_inj, String.toList_ofList]
  simp only [wordText?, hword]
  constructor
  · intro h
    split at h
    · rename_i hinf
      obtain rfl := Option.some.inj h
      exact hinf.elim .inf .infinity
    · split at h
      · rename_i hnan
        obtain rfl := Option.some.inj h
        exact .nan hnan
      · nomatch h
  · intro h
    cases h with
    | inf h => rw [if_pos (.inl h)]
    | infinity h => rw [if_pos (.inr h)]
    | nan h =>
      rw [h]
      rfl

theorem WordText.head {negative : Bool} {cs : List Char} {x : Binary64}
    (h : WordText negative cs x) : Unsigned cs ∧ decimalText? cs = none := by
  cases h with
  | inf h => exact word_head (congrArg List.head? h) (.inl rfl)
  | infinity h => exact word_head (congrArg List.head? h) (.inl rfl)
  | nan h => exact word_head (congrArg List.head? h) (.inr rfl)

theorem WordText.ofBinary64 {negative : Bool} {cs : List Char} {x : Binary64}
    (h : WordText negative cs x) : WordText negative cs (Number.ofBinary64 x).value := by
  have hx : (Number.ofBinary64 x).value = x := by
    cases h <;> rfl
  rwa [hx]

/-- A literal is read from the texts that spell it, and from no others. -/
theorem ofText?_eq_some_iff {s : String} {a : Number} :
    ofText? s = some a ↔ LiteralText s.toList a := by
  unfold ofText?
  constructor
  · intro h
    obtain ⟨sign, hsign, hs⟩ := exists_signText s.toList
    rw [hs]
    dsimp only at h
    split at h
    · rename_i d hd
      obtain ⟨digits, whole, fraction, exponent, e, hdigits, he, hcs, rfl⟩ :=
        decimalText?_eq_some_iff.1 hd
      rw [hcs]
      exact .decimal hsign hdigits he (approximates_spelledValue_iff.2 (Option.some.inj h))
    · obtain ⟨x, hx, rfl⟩ := Option.map_eq_some_iff.1 h
      exact .word hsign (wordText?_eq_some_iff.1 hx).ofBinary64
  · generalize s.toList = cs
    rintro (⟨hsign, hdigits, he, ha⟩ | ⟨hsign, hword⟩)
    · have hd := decimalText?_eq_some_iff.2 ⟨_, _, _, _, _, hdigits, he, rfl, rfl⟩
      simp [hsign.sign_append (hdigits.unsigned _), hd, approximates_spelledValue_iff.1 ha]
    · obtain ⟨hunsigned, hnone⟩ := hword.head
      simp [hsign.sign_append hunsigned, hnone, wordText?_eq_some_iff.2 hword]

end Number

end FormulaEditor
