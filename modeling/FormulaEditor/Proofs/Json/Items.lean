import FormulaEditor.Proofs.Json.Reader
/-! Reading lists and objects item by item. The way from one item to the next and the reader of an
item make a reader of all items up to the closing bracket, so lists and objects need one proof. -/
namespace FormulaEditor
namespace Json

section Items

variable {α : Type} {text : α → List Char → Prop} {closing : Char}

/-- The way from one item to the next and the reader of an item go together: they accept a separator
and the text of an item, or the closing bracket after blanks. -/
structure ReadsItems (next : Bool → List Char → Except Error Next) (item : Reader α)
    (closing : Char) (text : α → List Char → Prop) : Prop where
  ends : continuesNumber closing = false
  ne_nil : ∀ {x cs}, text x cs → cs ≠ []
  of_closed : ∀ {first cs rest}, next first cs = .ok (.closed rest) →
    ∃ blanks, Blanks blanks ∧ cs = blanks ++ closing :: rest
  of_item : ∀ {first cs mid x rest}, next first cs = .ok (.item mid) → item mid = .ok (x, rest) →
    ∃ separator cs', Separator first separator ∧ text x cs' ∧ cs = separator ++ (cs' ++ rest)
  closed : ∀ first {blanks}, Blanks blanks → ∀ rest,
    next first (blanks ++ closing :: rest) = .ok (.closed rest)
  item : ∀ {first separator x cs rest}, Separator first separator → text x cs → EndsNumber rest →
    ∃ mid, next first (separator ++ (cs ++ rest)) = .ok (.item mid) ∧ item mid = .ok (x, rest)

theorem Blanks.continuesNumber {blanks : List Char} (h : Blanks blanks) {c : Char}
    (hc : c ∈ blanks) : continuesNumber c = false := by
  rcases h c hc with rfl | rfl | rfl | rfl <;> decide

theorem endsNumber_blanks {blanks : List Char} (h : Blanks blanks) : EndsNumber blanks :=
  fun _ hc => h.continuesNumber (List.mem_of_head? hc)

theorem endsNumber_blanks_append {blanks : List Char} (h : Blanks blanks) {c : Char}
    (hc : continuesNumber c = false) (rest : List Char) : EndsNumber (blanks ++ c :: rest) := by
  cases blanks with
  | nil => exact endsNumber_cons hc rest
  | cons b blanks =>
    exact endsNumber_cons (h.continuesNumber List.mem_cons_self) _

theorem Items.endsNumber {xs : List α} {cs : List Char} (h : Items text closing false xs cs)
    (hclosing : continuesNumber closing = false) (rest : List Char) : EndsNumber (cs ++ rest) := by
  cases h with
  | closed h =>
    rw [List.append_assoc]
    exact endsNumber_blanks_append h hclosing rest
  | item hseparator =>
    cases hseparator with
    | later hbefore =>
      rw [List.append_assoc, List.append_assoc]
      exact endsNumber_blanks_append hbefore (by decide) _

theorem Items.length_lt {first : Bool} {xs : List α} {cs : List Char}
    (h : Items text closing first xs cs) (hne : ∀ {x cs}, text x cs → cs ≠ []) :
    xs.length < cs.length := by
  induction h with
  | closed => simp
  | item _ hx _ ih =>
    have hpos := List.length_pos_iff.2 (hne hx)
    simp only [List.length_append, List.length_cons]
    omega

variable {next : Bool → List Char → Except Error Next} {item : Reader α}

theorem ReadsItems.sound (h : ReadsItems next item closing text) {fuel : Nat} {first : Bool}
    {cs rest : List Char} {xs : List α} (hxs : elements next item fuel first cs = .ok (xs, rest)) :
    ∃ cs', Items text closing first xs cs' ∧ cs = cs' ++ rest := by
  induction fuel generalizing first cs xs with
  | zero => nomatch hxs
  | succ fuel ih =>
    obtain ⟨found, hnext, hxs⟩ := bind_eq_ok_iff.1 hxs
    cases found with
    | closed rest' =>
      obtain ⟨rfl, rfl⟩ := Prod.mk.inj (Except.ok.inj hxs)
      obtain ⟨blanks, hblanks, rfl⟩ := h.of_closed hnext
      exact ⟨_, .closed hblanks, by simp⟩
    | item mid =>
      obtain ⟨⟨x, cs₁⟩, hitem, hxs⟩ := bind_eq_ok_iff.1 hxs
      obtain ⟨⟨ys, cs₂⟩, hlater, hxs⟩ := bind_eq_ok_iff.1 hxs
      obtain ⟨rfl, rfl⟩ := Prod.mk.inj (Except.ok.inj hxs)
      obtain ⟨separator, cs', hseparator, hx, rfl⟩ := h.of_item hnext hitem
      obtain ⟨cs'', hys, rfl⟩ := ih hlater
      exact ⟨_, .item hseparator hx hys, by simp⟩

theorem ReadsItems.complete (h : ReadsItems next item closing text) {fuel : Nat} {first : Bool}
    {cs : List Char} {xs : List α} (hxs : Items text closing first xs cs) (hfuel : xs.length < fuel)
    (rest : List Char) : elements next item fuel first (cs ++ rest) = .ok (xs, rest) := by
  induction hxs generalizing fuel with
  | closed hblanks =>
    obtain ⟨fuel, rfl⟩ : ∃ k, fuel = k + 1 := ⟨fuel - 1, by omega⟩
    have hnext := h.closed ‹_› hblanks rest
    simp only [elements, List.append_assoc, List.singleton_append, hnext, bind, Except.bind]
  | item hseparator hx hlater ih =>
    obtain ⟨fuel, rfl⟩ : ∃ k, fuel = k + 1 := ⟨fuel - 1, by omega⟩
    have hlength : _ < fuel := Nat.lt_of_succ_lt_succ hfuel
    have hread := ih hlength
    obtain ⟨mid, hnext, hitem⟩ := h.item hseparator hx (hlater.endsNumber h.ends rest)
    simp only [elements, List.append_assoc, hnext, hitem, hread, bind, Except.bind]

theorem ReadsItems.complete_length (h : ReadsItems next item closing text) {first : Bool}
    {cs : List Char} {xs : List α} (hxs : Items text closing first xs cs) (rest : List Char) :
    elements next item (cs ++ rest).length first (cs ++ rest) = .ok (xs, rest) := by
  refine h.complete hxs ?_ rest
  have hlen := hxs.length_lt h.ne_nil
  rw [List.length_append]
  omega

theorem ReadsItems.of_fuel (h : ReadsItems next item closing text) {fuel : Nat} {first : Bool}
    {cs rest : List Char} {xs : List α} (hxs : elements next item fuel first cs = .ok (xs, rest)) :
    elements next item cs.length first cs = .ok (xs, rest) := by
  obtain ⟨cs', htext, rfl⟩ := h.sound hxs
  exact h.complete_length htext rest

end Items

end Json

end FormulaEditor
