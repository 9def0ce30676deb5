import FormulaEditor.Proofs.Decimal.Layout
import Mathlib.Data.List.TakeWhile
/-! The signs and exponents of spelled numbers, as they stand in a text. Both numbers in JSON and
number literals have them. -/
namespace FormulaEditor
namespace Decimal

inductive SignText : List Char → Bool → Prop
  | none : SignText [] false
  | plus : SignText ['+'] false
  | minus : SignText ['-'] true

inductive ExponentText : List Char → Option ℤ → Prop
  | none : ExponentText [] none
  | some {mark : Char} {sign digits : List Char} {negative : Bool} (hmark : mark = 'e' ∨ mark = 'E')
    (hsign : SignText sign negative) (hne : digits ≠ []) (hd : AreDigits digits) :
    ExponentText (mark :: (sign ++ digits))
      (some (if negative then -Nat.ofDigitChars 10 digits 0 else Nat.ofDigitChars 10 digits 0))

def Unsigned (cs : List Char) : Prop := ∀ c, cs.head? = some c → c ≠ '-' ∧ c ≠ '+'

theorem AreDigits.unsigned {ds : List Char} (h : AreDigits ds) (hne : ds ≠ []) (rest : List Char) :
    Unsigned (ds ++ rest) := by
  cases ds with
  | nil => exact absurd rfl hne
  | cons d ds =>
    intro c hc
    obtain rfl := Option.some.inj hc
    have hd := h d List.mem_cons_self
    constructor <;> rintro rfl <;> simp at hd

theorem of_span_digits {cs ds rest : List Char} (h : cs.span Char.isDigit = (ds, rest)) :
    cs = ds ++ rest ∧ AreDigits ds := by
  rw [List.span_eq_takeWhile_dropWhile] at h
  obtain ⟨rfl, rfl⟩ := Prod.mk.inj h
  exact ⟨List.takeWhile_append_dropWhile.symm, fun c hc => List.mem_takeWhile_imp hc⟩

theorem exists_signText (cs : List Char) :
    ∃ text, SignText text (sign cs).1 ∧ cs = text ++ (sign cs).2 := by
  unfold sign
  split
  · exact ⟨['-'], .minus, rfl⟩
  · exact ⟨['+'], .plus, rfl⟩
  · exact ⟨[], .none, rfl⟩

theorem SignText.sign_append {text : List Char} {negative : Bool} (h : SignText text negative)
    {rest : List Char} (hr : Unsigned rest) : sign (text ++ rest) = (negative, rest) := by
  cases h with
  | plus => rfl
  | minus => rfl
  | none =>
    cases rest with
    | nil => rfl
    | cons c cs =>
      have hc := hr c rfl
      simp [sign, hc.1, hc.2]

theorem exponentText_layout {l : Layout} (hmark : l.exponentMark = [] ∨ l.exponentMark = ['+'])
    (exponent : Option ℤ) : ExponentText ((exponent.map l.exponent).getD []) exponent := by
  cases exponent with
  | none => exact .none
  | some e =>
    have hsign : SignText (if e < 0 then ['-'] else l.exponentMark) (decide (e < 0)) := by
      by_cases he : e < 0
      · simpa [he] using SignText.minus
      · rcases hmark with hm | hm
        · simpa [he, hm] using SignText.none
        · simpa [he, hm] using SignText.plus
    have htext := ExponentText.some (.inl rfl) hsign Nat.toDigits_ne_nil
      (areDigits_toDigits e.natAbs)
    have hvalue : (if decide (e < 0) = true then -(e.natAbs : ℤ) else e.natAbs) = e := by
      split <;> rename_i h <;> simp at h <;> omega
    rw [Nat.ofDigitChars_ten_toDigits, hvalue] at htext
    simpa [Layout.exponent] using htext

end Decimal

end FormulaEditor
