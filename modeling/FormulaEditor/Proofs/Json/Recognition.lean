import FormulaEditor.Proofs.Json.Items
import FormulaEditor.Proofs.Json.Numeral
/-! The reader of values accepts the texts of values up to a depth, and nothing else. -/
namespace FormulaEditor
namespace Json

theorem word_eq_ok_iff {ws cs rest : List Char} : word ws cs = .ok rest ↔ cs = ws ++ rest := by
  induction ws generalizing cs with
  | nil => simp [word]
  | cons w ws ih =>
    cases cs with
    | nil => simp [word]
    | cons c cs =>
      by_cases hc : w = c
      · simp [word, hc, ih]
      · simp [word, hc, Ne.symm hc]

theorem exists_scalarText {cs rest : List Char} {v : Value} (h : scalar cs = .ok (v, rest)) :
    ∃ text, ScalarText v text ∧ cs = text ++ rest := by
  unfold scalar at h
  split at h
  · nomatch h
  · obtain ⟨cs', hword, h⟩ := bind_eq_ok_iff.1 h
    obtain ⟨rfl, rfl⟩ := Prod.mk.inj (Except.ok.inj h)
    obtain rfl := word_eq_ok_iff.1 hword
    exact ⟨_, .null, rfl⟩
  · obtain ⟨cs', hword, h⟩ := bind_eq_ok_iff.1 h
    obtain ⟨rfl, rfl⟩ := Prod.mk.inj (Except.ok.inj h)
    obtain rfl := word_eq_ok_iff.1 hword
    exact ⟨_, .true, rfl⟩
  · obtain ⟨cs', hword, h⟩ := bind_eq_ok_iff.1 h
    obtain ⟨rfl, rfl⟩ := Prod.mk.inj (Except.ok.inj h)
    obtain rfl := word_eq_ok_iff.1 hword
    exact ⟨_, .false, rfl⟩
  · obtain ⟨⟨s, cs'⟩, hstring, h⟩ := bind_eq_ok_iff.1 h
    obtain ⟨rfl, rfl⟩ := Prod.mk.inj (Except.ok.inj h)
    obtain ⟨text, htext, rfl⟩ := string_eq_ok_iff.1 hstring
    exact ⟨_, .string htext, rfl⟩
  · split at h
    · obtain ⟨⟨n, cs'⟩, hnumber, h⟩ := bind_eq_ok_iff.1 h
      obtain ⟨rfl, rfl⟩ := Prod.mk.inj (Except.ok.inj h)
      obtain ⟨s, text, htext, hn, hcs⟩ := exists_of_number hnumber
      exact ⟨text, .number htext ((Spelling.numeral?_eq_some_iff htext.areDigits).1 hn), hcs⟩
    · nomatch h

theorem NumberText.exists_cons {s : Spelling} {text : List Char} (h : NumberText s text) :
    ∃ c cs, text = c :: cs ∧ (c = '-' ∨ c.isDigit = true) := by
  cases h with
  | mk hne hd =>
    rcases hs : s.whole with _ | ⟨c, cs⟩
    · exact absurd hs hne
    · cases s.negative with
      | true => exact ⟨_, _, rfl, .inl rfl⟩
      | false => exact ⟨_, _, rfl, .inr (hd c (hs ▸ List.mem_cons_self))⟩

theorem scalar_append {text rest : List Char} {v : Value} (h : ScalarText v text)
    (hr : EndsNumber rest) : scalar (text ++ rest) = .ok (v, rest) := by
  cases h with
  | null => rfl
  | true => rfl
  | false => rfl
  | string h =>
    obtain ⟨htext⟩ := h
    rw [List.cons_append]
    have hread : string (_ ++ rest) = .ok (_, rest) := string_eq_ok_iff.2 ⟨_, .mk htext, rfl⟩
    simp only [scalar, hread, bind, Except.bind]
  | number h hn =>
    have hread := number_append h ((Spelling.numeral?_eq_some_iff h.areDigits).2 hn) hr
    obtain ⟨c, cs, rfl, hc⟩ := h.exists_cons
    rw [List.cons_append] at hread ⊢
    rw [scalar_number hc, hread]
    rfl

/-- A reader of the texts of a grammar, which may stand after blanks. -/
structure Recognizes {α : Type} (read : Reader α) (text : α → List Char → Prop) : Prop where
  sound : ∀ {cs x rest}, read cs = .ok (x, rest) →
    ∃ blanks cs', Blanks blanks ∧ text x cs' ∧ cs = blanks ++ (cs' ++ rest)
  complete : ∀ {blanks x cs rest}, Blanks blanks → text x cs → EndsNumber rest →
    read (blanks ++ (cs ++ rest)) = .ok (x, rest)

section Containers

variable {α : Type} {text : α → List Char → Prop} {item : Reader α}

theorem readsItems_nextElement (h : Recognizes item text)
    (hstarts : ∀ {x cs}, text x cs → StartsItem ']' cs) : ReadsItems nextElement item ']' text where
  ends := by decide
  ne_nil hx := by
    obtain ⟨c, cs, rfl, _⟩ := hstarts hx
    exact List.cons_ne_nil c cs
  of_closed := of_nextElement_closed
  of_item hnext hitem := by
    obtain ⟨separator, hseparator, rfl⟩ := of_nextElement_item hnext
    obtain ⟨blanks, cs', hblanks, hx, rfl⟩ := h.sound hitem
    exact ⟨_, cs', hseparator.append_blanks hblanks, hx, by simp⟩
  closed first _ hblanks := nextElement_blanks_closed first hblanks
  item {_ _ x cs rest} hseparator hx hrest := by
    obtain ⟨c, cs', rfl, hc⟩ := hstarts hx
    exact ⟨_, nextElement_separator hseparator ⟨c, cs' ++ rest, rfl, hc⟩,
      h.complete blanks_nil hx hrest⟩

def entry {κ : Type} (key : Reader κ) (item : Reader α) : Reader (κ × α) := fun cs => do
  let (k, cs) ← key cs
  let (x, cs) ← item (← colon cs)
  .ok ((k, x), cs)

theorem members_eq_ok_iff {κ : Type} {next : Bool → List Char → Except Error Next} {key : Reader κ}
    {fuel : Nat} {first : Bool} {cs : List Char} {p : List (κ × α) × List Char} :
    members next key item fuel first cs = .ok p ↔
      elements next (entry key item) fuel first cs = .ok p := by
  induction fuel generalizing first cs p with
  | zero => simp [members, elements]
  | succ fuel ih =>
    rw [members, elements, bind_eq_ok_iff, bind_eq_ok_iff]
    refine exists_congr fun found => and_congr_right fun _ => ?_
    cases found with
    | closed rest => exact Iff.rfl
    | item mid => simp [bind_eq_ok_iff, entry, ih]

theorem QuotedText.exists_cons {s : String} {cs : List Char} (h : QuotedText s cs) :
    ∃ cs', cs = '"' :: cs' := by
  cases h with
  | mk => exact ⟨_, rfl⟩

theorem readsItems_nextKey (h : Recognizes item text) :
    ReadsItems nextKey (entry string item) '}' (MemberText text) where
  ends := by decide
  ne_nil hx := by
    cases hx with
    | mk hkey =>
      obtain ⟨ks, rfl⟩ := hkey.exists_cons
      exact List.cons_ne_nil _ _
  of_closed := of_nextKey_closed
  of_item hnext hitem := by
    obtain ⟨separator, hseparator, rfl⟩ := of_nextKey_item hnext
    obtain ⟨⟨key, cs₁⟩, hkey, hitem⟩ := bind_eq_ok_iff.1 hitem
    obtain ⟨cs₂, hcolon, hitem⟩ := bind_eq_ok_iff.1 hitem
    obtain ⟨⟨x, cs₃⟩, hvalue, hitem⟩ := bind_eq_ok_iff.1 hitem
    obtain ⟨rfl, rfl⟩ := Prod.mk.inj (Except.ok.inj hitem)
    obtain ⟨ks, hks, rfl⟩ := string_eq_ok_iff.1 hkey
    obtain ⟨before, hbefore, rfl⟩ := colon_eq_ok_iff.1 hcolon
    obtain ⟨after, cs', hafter, hx, rfl⟩ := h.sound hvalue
    exact ⟨separator, _, hseparator, .mk hks hbefore hafter hx, by simp⟩
  closed first _ hblanks := nextKey_blanks_closed first hblanks
  item {_ separator _ _ rest} hseparator hx hrest := by
    cases hx with
    | @mk key x _ before after cs hkey hbefore hafter hx =>
      obtain ⟨ks, rfl⟩ := hkey.exists_cons
      refine ⟨ks ++ (before ++ ':' :: (after ++ (cs ++ rest))), ?_, ?_⟩
      · rw [← nextKey_separator hseparator]
        simp
      · have hread (rest : List Char) : string (ks ++ rest) = .ok (key, rest) :=
          string_eq_ok_iff.2 ⟨ks, hkey, rfl⟩
        have hcolon (rest : List Char) : colon (before ++ ':' :: rest) = .ok rest :=
          colon_eq_ok_iff.2 ⟨before, hbefore, rfl⟩
        simp only [entry, hread, hcolon, h.complete hafter hx hrest, bind, Except.bind]

end Containers

theorem ScalarText.exists_cons {v : Value} {cs : List Char} (h : ScalarText v cs) :
    ∃ c cs', cs = c :: cs' ∧ startsValue c = Bool.true ∧ c ≠ '[' ∧ c ≠ '{' := by
  cases h with
  | null => exact ⟨_, _, rfl, by decide⟩
  | true => exact ⟨_, _, rfl, by decide⟩
  | false => exact ⟨_, _, rfl, by decide⟩
  | string h =>
    obtain ⟨cs', rfl⟩ := h.exists_cons
    exact ⟨_, _, rfl, by decide⟩
  | number h =>
    obtain ⟨c, cs', rfl, hc⟩ := h.exists_cons
    refine ⟨c, cs', rfl, startsValue_of_number hc, ?_, ?_⟩
    all_goals
      rintro rfl
      revert hc
      decide

theorem startsItem_of_valueText {depth : Nat} {v : Value} {cs : List Char}
    (h : ValueText depth v cs) : StartsItem ']' cs := by
  have hscalar (h : ScalarText v cs) : StartsItem ']' cs := by
    obtain ⟨c, cs', rfl, hc, _⟩ := h.exists_cons
    exact ⟨c, cs', rfl, startsValue_ne hc⟩
  cases depth with
  | zero => exact hscalar h
  | succ depth =>
    rcases h with h | h
    · exact hscalar h
    · cases h with
      | array => exact ⟨_, _, rfl, by decide⟩
      | object => exact ⟨_, _, rfl, by decide⟩

theorem value_blanks_append (depth : Nat) {blanks : List Char} (h : Blanks blanks)
    (cs : List Char) : value depth (blanks ++ cs) = value depth cs := by
  cases depth <;> simp only [value, skipBlanks_append h]

theorem value_append_of_scalarText (depth : Nat) {v : Value} {cs rest : List Char}
    (h : ScalarText v cs) (hrest : EndsNumber rest) : value depth (cs ++ rest) = .ok (v, rest) := by
  have hread := scalar_append h hrest
  obtain ⟨c, cs', rfl, hc, hlist, hobject⟩ := h.exists_cons
  rw [List.cons_append] at hread ⊢
  rw [value_of_scalar depth (startsValue_ne hc).1 hlist hobject, hread]

/-- Values are read from their texts up to a depth, and from nothing else. -/
theorem recognizes_value (depth : Nat) : Recognizes (value depth) (ValueText depth) := by
  induction depth with
  | zero =>
    refine ⟨fun {cs v rest} h => ?_, fun hblanks h hrest => ?_⟩
    · unfold value at h
      split at h
      · nomatch h
      · nomatch h
      · obtain ⟨cs', htext, hskip⟩ := exists_scalarText h
        obtain ⟨blanks, hblanks, hcs⟩ := exists_blanks hskip
        exact ⟨blanks, cs', hblanks, htext, hcs⟩
    · rw [value_blanks_append 0 hblanks]
      exact value_append_of_scalarText 0 h hrest
  | succ depth ih =>
    -- the values inside a list or an object are read with one level less
    have hitems := readsItems_nextElement ih startsItem_of_valueText
    have hmembers := readsItems_nextKey ih
    refine ⟨fun {cs v rest} h => ?_, fun {blanks v cs rest} hblanks h hrest => ?_⟩
    · unfold value at h
      split at h
      · rename_i hskip
        obtain ⟨⟨items, rest'⟩, hread, h⟩ := bind_eq_ok_iff.1 h
        obtain ⟨rfl, rfl⟩ := Prod.mk.inj (Except.ok.inj h)
        obtain ⟨cs', htext, rfl⟩ := hitems.sound hread
        obtain ⟨blanks, hblanks, hcs⟩ := exists_blanks hskip
        exact ⟨blanks, _, hblanks, .inr (.array htext), hcs⟩
      · rename_i hskip
        obtain ⟨⟨members, rest'⟩, hread, h⟩ := bind_eq_ok_iff.1 h
        obtain ⟨rfl, rfl⟩ := Prod.mk.inj (Except.ok.inj h)
        obtain ⟨cs', htext, rfl⟩ := hmembers.sound (members_eq_ok_iff.1 hread)
        obtain ⟨blanks, hblanks, hcs⟩ := exists_blanks hskip
        exact ⟨blanks, _, hblanks, .inr (.object htext), hcs⟩
      · obtain ⟨cs', htext, hskip⟩ := exists_scalarText h
        obtain ⟨blanks, hblanks, hcs⟩ := exists_blanks hskip
        exact ⟨blanks, cs', hblanks, .inl htext, hcs⟩
    · rw [value_blanks_append _ hblanks]
      rcases h with h | h
      · exact value_append_of_scalarText _ h hrest
      · cases h with
        | array h =>
          rw [List.cons_append, value_array, Nat.add_sub_cancel, hitems.complete_length h rest]
          rfl
        | object h =>
          have hread := members_eq_ok_iff.2 (hmembers.complete_length h rest)
          rw [List.cons_append, value_object, Nat.add_sub_cancel, hread]
          rfl

/-- The reader of a value and of blanks to the end accepts whole texts. -/
theorem wholeText_iff {depth : Nat} {v : Value} {cs : List Char} :
    WholeText depth v cs ↔ ∃ rest, value depth cs = .ok (v, rest) ∧ endOfText rest = .ok () := by
  have hend (rest : List Char) : endOfText rest = .ok () ↔ Blanks rest := by
    simp [endOfText, skipBlanks, blanks_iff]
  constructor
  · rintro ⟨hbefore, h, hafter⟩
    have hread := (recognizes_value depth).complete hbefore h (endsNumber_blanks hafter)
    exact ⟨_, hread, (hend _).2 hafter⟩
  · rintro ⟨rest, hread, hrest⟩
    obtain ⟨before, cs', hbefore, h, rfl⟩ := (recognizes_value depth).sound hread
    exact ⟨hbefore, h, (hend rest).1 hrest⟩

end Json

end FormulaEditor
