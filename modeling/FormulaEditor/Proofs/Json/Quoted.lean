import FormulaEditor.Proofs.Json.Grammar
/-! Strings are read from the texts that may stand between quotes, and from no others. What is
written for a string is such a text. -/
namespace FormulaEditor
namespace Json

theorem hexDigit?_eq_some_iff {c : Char} {n : Nat} : hexDigit? c = some n ↔ HexDigit c n := by
  constructor
  · -- beyond `f` there are no digits
    have hsmall : ∀ k < 103, ∀ n ∈ hexDigit? (.ofNat k), HexDigit (.ofNat k) n := by
      unfold HexDigit
      decide
    intro h
    have hc : c.toNat < 103 := by
      by_contra hge
      have hlarge (d : Char) (hd : d.toNat < 103) : ¬ c ≤ d := fun hle =>
        hge (Nat.lt_of_le_of_lt (Char.le_def.1 hle) hd)
      simp [hexDigit?, hlarge '9' (by decide), hlarge 'f' (by decide), hlarge 'F' (by decide)] at h
    have hdigit := hsmall c.toNat hc
    rw [Char.ofNat_toNat] at hdigit
    exact hdigit n h
  · rintro ⟨hn, hc⟩
    have hboth : ∀ k < 16,
        hexDigit? k.digitChar = some k ∧ hexDigit? k.digitChar.toUpper = some k := by decide
    rcases hc with rfl | rfl
    · exact (hboth n hn).1
    · exact (hboth n hn).2

theorem hexText_iff {hex : List Char} {n : Nat} :
    HexText hex n ↔ ∃ a b c d, hex = [a, b, c, d] ∧ hexValue? a b c d = some n := by
  simp only [hexValue?, Option.bind_eq_bind, Option.bind_eq_some_iff, hexDigit?_eq_some_iff,
    Option.some.injEq]
  constructor
  · rintro ⟨ha, hb, hc, hd⟩
    exact ⟨_, _, _, _, rfl, _, ha, _, hb, _, hc, _, hd, by ring⟩
  · rintro ⟨a, b, c, d, rfl, w, ha, x, hb, y, hc, z, hd, rfl⟩
    rw [show (w * 16 + x) * 256 + (y * 16 + z) = w * 16 ^ 3 + x * 16 ^ 2 + y * 16 + z by ring]
    exact .mk ha hb hc hd

theorem HexText.lt {hex : List Char} {n : Nat} (h : HexText hex n) : n < 0x10000 := by
  obtain ⟨⟨hw, -⟩, ⟨hx, -⟩, ⟨hy, -⟩, ⟨hz, -⟩⟩ := h
  omega

theorem escaped?_eq_some_iff {e c : Char} : escaped? e = some c ↔ (e, c) ∈ letterEscapes := by
  constructor
  · intro h
    unfold escaped? at h
    split at h
    case h_9 => nomatch h
    all_goals
      obtain rfl := Option.some.inj h
      decide
  · intro h
    simp only [letterEscapes, List.mem_cons, Prod.mk.injEq, List.not_mem_nil, or_false] at h
    rcases h with ⟨rfl, rfl⟩ | ⟨rfl, rfl⟩ | ⟨rfl, rfl⟩ | ⟨rfl, rfl⟩ | ⟨rfl, rfl⟩ | ⟨rfl, rfl⟩ |
      ⟨rfl, rfl⟩ | ⟨rfl, rfl⟩ <;> rfl

theorem toNat_not_surrogate (c : Char) :
    isHighSurrogate c.toNat = false ∧ isLowSurrogate c.toNat = false := by
  have hc : c.toNat < 0xD800 ∨ 0xDFFF < c.toNat ∧ c.toNat < 0x110000 := c.valid
  simp [isHighSurrogate, isLowSurrogate]
  omega

theorem toNat_ofNat {n : Nat} (h : n.isValidChar) : (Char.ofNat n).toNat = n := by
  rw [Char.ofNat, dif_pos h]
  rfl

theorem paired_add (x y : Nat) :
    paired (0xD800 + x) (0xDC00 + y) = .ofNat (0x10000 + x * 0x400 + y) := by
  rw [paired, Nat.add_sub_cancel_left, Nat.add_sub_cancel_left]

theorem stringTail_append {cs s : List Char} (h : StringText cs s) (rest : List Char) :
    stringTail (cs ++ '"' :: rest) = .ok (s, rest) := by
  induction h with
  | nil => simp [stringTail]
  | @plain c cs s hquote hslash hcontrol h ih =>
    have hc : ¬ c.toNat < 32 := by omega
    simp [stringTail, hslash, hc, ih, bind, Except.bind]
  | @letter e c cs s he h ih =>
    have hu : e ≠ 'u' := by
      rintro rfl
      simp [letterEscapes] at he
    simp [stringTail, escaped?_eq_some_iff.2 he, ih, bind, Except.bind]
  | @unit c hex cs s hhex h ih =>
    obtain ⟨hhigh, hlow⟩ := toNat_not_surrogate c
    obtain ⟨_, _, _, _, rfl, hn⟩ := hexText_iff.1 hhex
    simp [stringTail, hn, hlow, hhigh, Char.ofNat_toNat, ih, bind, Except.bind]
  | @pair c x y high low cs s hx hy hc hhigh hlow h ih =>
    have high_isHigh : isHighSurrogate (0xD800 + x) = true := by simp [isHighSurrogate]; omega
    have high_notLow : isLowSurrogate (0xD800 + x) = false := by simp [isLowSurrogate]; omega
    have low_isLow : isLowSurrogate (0xDC00 + y) = true := by simp [isLowSurrogate]; omega
    have hpaired : paired (0xD800 + x) (0xDC00 + y) = c := by
      rw [paired_add, ← hc, Char.ofNat_toNat]
    obtain ⟨_, _, _, _, rfl, hn⟩ := hexText_iff.1 hhigh
    obtain ⟨_, _, _, _, rfl, hm⟩ := hexText_iff.1 hlow
    simp [stringTail, hn, high_isHigh, hm, low_isLow, high_notLow, hpaired, ih, bind, Except.bind]

theorem of_stringTail_cons {c : Char} {cs s rest : List Char}
    (h : (do let (text, rest) ← stringTail cs; .ok (c :: text, rest)) = .ok (s, rest)) :
    ∃ s', stringTail cs = .ok (s', rest) ∧ s = c :: s' := by
  obtain ⟨⟨s', rest'⟩, hread, hs⟩ := bind_eq_ok_iff.1 h
  obtain ⟨rfl, rfl⟩ := Prod.mk.inj (Except.ok.inj hs)
  exact ⟨s', hread, rfl⟩

theorem exists_stringText {cs s rest : List Char} (h : stringTail cs = .ok (s, rest)) :
    ∃ text, StringText text s ∧ cs = text ++ '"' :: rest := by
  fun_induction stringTail cs generalizing s rest
  case case2 cs =>
    obtain ⟨rfl, rfl⟩ := Prod.mk.inj (Except.ok.inj h)
    exact ⟨[], .nil, rfl⟩
  case case8 high hhigh _ high_isHigh _ _ _ _ _ low hlow low_isLow ih =>
    obtain ⟨s', hread, rfl⟩ := of_stringTail_cons h
    obtain ⟨text, htext, rfl⟩ := ih hread
    simp only [isHighSurrogate, isLowSurrogate, Bool.and_eq_true, decide_eq_true_eq]
      at high_isHigh low_isLow
    obtain ⟨x, rfl⟩ := Nat.exists_eq_add_of_le high_isHigh.1
    obtain ⟨y, rfl⟩ := Nat.exists_eq_add_of_le low_isLow.1
    have hvalid : (0x10000 + x * 0x400 + y).isValidChar := .inr (by omega)
    rw [paired_add]
    exact ⟨_, .pair (by omega) (by omega) (toNat_ofNat hvalid)
      (hexText_iff.2 ⟨_, _, _, _, rfl, hhigh⟩) (hexText_iff.2 ⟨_, _, _, _, rfl, hlow⟩) htext, rfl⟩
  case case12 n hn hlow hhigh ih =>
    obtain ⟨s', hread, rfl⟩ := of_stringTail_cons h
    obtain ⟨text, htext, rfl⟩ := ih hread
    have hhex := hexText_iff.2 ⟨_, _, _, _, rfl, hn⟩
    have hvalid : n.isValidChar := by
      have hlt := hhex.lt
      simp [isHighSurrogate, isLowSurrogate] at hlow hhigh
      unfold Nat.isValidChar
      omega
    rw [← toNat_ofNat hvalid] at hhex
    exact ⟨_, .unit hhex htext, rfl⟩
  case case15 e cs _ c he ih =>
    obtain ⟨s', hread, rfl⟩ := of_stringTail_cons h
    obtain ⟨text, htext, rfl⟩ := ih hread
    exact ⟨_, .letter (escaped?_eq_some_iff.1 he) htext, rfl⟩
  case case18 c cs hquote hu hend he hcontrol ih =>
    obtain ⟨s', hread, rfl⟩ := of_stringTail_cons h
    obtain ⟨text, htext, rfl⟩ := ih hread
    have hslash : c ≠ '\\' := by
      rintro rfl
      cases text with
      | nil => exact he _ _ rfl rfl
      | cons x text => exact he _ _ rfl rfl
    exact ⟨_, .plain hquote hslash (by omega) htext, rfl⟩
  all_goals nomatch h

/-- After its opening quote a string is read up to its closing one. -/
theorem string_eq_ok_iff {cs rest : List Char} {s : String} :
    string cs = .ok (s, rest) ↔ ∃ text, QuotedText s ('"' :: text) ∧ cs = text ++ rest := by
  constructor
  · intro h
    obtain ⟨⟨s', rest'⟩, hread, hs⟩ := bind_eq_ok_iff.1 h
    obtain ⟨rfl, rfl⟩ := Prod.mk.inj (Except.ok.inj hs)
    obtain ⟨text, htext, rfl⟩ := exists_stringText hread
    exact ⟨text ++ ['"'], .mk htext, by simp⟩
  · rintro ⟨text, htext, rfl⟩
    cases htext with
    | @mk cs s h =>
      have hread := stringTail_append h rest
      simp [string, hread, bind, Except.bind]

theorem hexText_escape {n : Nat} (h : n < 32) :
    HexText ['0', '0', (n / 16).digitChar, (n % 16).digitChar] n := by
  have h0 : HexDigit '0' 0 := ⟨by decide, .inl rfl⟩
  have htext := HexText.mk h0 h0 (y := n / 16) (z := n % 16) ⟨by omega, .inl rfl⟩
    ⟨by omega, .inl rfl⟩
  rwa [show 0 * 16 ^ 3 + 0 * 16 ^ 2 + n / 16 * 16 + n % 16 = n by omega] at htext

theorem stringText_escape_append {cs s : List Char} (h : StringText cs s) (c : Char) :
    StringText (escape c ++ cs) (c :: s) := by
  unfold escape
  split
  case h_8 =>
    split
    · rename_i hc
      exact .unit (hexText_escape hc) h
    · rename_i hquote hslash _ _ _ _ _ hc
      exact .plain hquote hslash (by omega) h
  all_goals exact .letter (by decide) h

theorem stringText_escape (s : List Char) : StringText (s.flatMap escape) s := by
  induction s with
  | nil => exact .nil
  | cons c s ih => exact stringText_escape_append ih c

theorem quotedText_quote (s : String) : QuotedText s (quote s).toList := by
  have htext := QuotedText.mk (stringText_escape s.toList)
  rw [String.ofList_toList] at htext
  simpa [quote] using htext

theorem string_quote (s : String) (rest : List Char) :
    string (s.toList.flatMap escape ++ '"' :: rest) = .ok (s, rest) := by
  refine string_eq_ok_iff.2 ⟨s.toList.flatMap escape ++ ['"'], ?_, by simp⟩
  simpa [quote] using quotedText_quote s

end Json

end FormulaEditor
