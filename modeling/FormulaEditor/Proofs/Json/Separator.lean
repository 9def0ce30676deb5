import FormulaEditor.Json.Reader
import FormulaEditor.Proofs.Json.Grammar
import Mathlib.Data.List.TakeWhile
/-! What stands between the items of lists and objects: blanks, commas and closing brackets. The way
from one item to the next goes over a separator of the grammar and over nothing else. -/
namespace FormulaEditor
namespace Json

theorem skipBlanks_cons {c : Char} (h : isBlank c = false) (cs : List Char) :
    skipBlanks (c :: cs) = c :: cs := by
  simp [skipBlanks, h]

theorem blanks_iff {cs : List Char} : Blanks cs ↔ ∀ c ∈ cs, isBlank c = true := by
  simp [Blanks, isBlank, or_assoc]

theorem skipBlanks_append {blanks : List Char} (h : Blanks blanks) (cs : List Char) :
    skipBlanks (blanks ++ cs) = skipBlanks cs := List.dropWhile_append_of_pos (blanks_iff.1 h)

theorem exists_blanks {cs rest : List Char} (h : skipBlanks cs = rest) :
    ∃ blanks, Blanks blanks ∧ cs = blanks ++ rest := by
  subst h
  exact ⟨cs.takeWhile isBlank, blanks_iff.2 fun _ h => List.mem_takeWhile_imp h,
    List.takeWhile_append_dropWhile.symm⟩

theorem Blanks.append {cs ds : List Char} (h : Blanks cs) (h' : Blanks ds) : Blanks (cs ++ ds) :=
  fun c hc => (List.mem_append.1 hc).elim (h c) (h' c)

theorem blanks_nil : Blanks [] := fun _ h => nomatch h

theorem Separator.append_blanks {first : Bool} {separator blanks : List Char}
    (h : Separator first separator) (hblanks : Blanks blanks) :
    Separator first (separator ++ blanks) := by
  cases h with
  | first h => exact .first (h.append hblanks)
  | later hbefore hafter =>
    rw [List.append_assoc, List.cons_append]
    exact .later hbefore (hafter.append hblanks)

theorem exists_separator_first {cs rest : List Char} (h : skipBlanks cs = rest) :
    ∃ separator, Separator true separator ∧ cs = separator ++ rest := by
  obtain ⟨blanks, hblanks, hcs⟩ := exists_blanks h
  exact ⟨blanks, .first hblanks, hcs⟩

theorem exists_separator_later {cs cs' rest : List Char} (h : skipBlanks cs = ',' :: cs')
    (h' : skipBlanks cs' = rest) :
    ∃ separator, Separator false separator ∧ cs = separator ++ rest := by
  obtain ⟨before, hbefore, rfl⟩ := exists_blanks h
  obtain ⟨after, hafter, rfl⟩ := exists_blanks h'
  exact ⟨before ++ ',' :: after, .later hbefore hafter, by simp⟩

def StartsItem (closing : Char) (cs : List Char) : Prop :=
  ∃ c rest, cs = c :: rest ∧ isBlank c = false ∧ c ≠ closing

section Next

theorem of_nextElement_closed {first : Bool} {cs rest : List Char}
    (h : nextElement first cs = .ok (.closed rest)) :
    ∃ blanks, Blanks blanks ∧ cs = blanks ++ ']' :: rest := by
  unfold nextElement at h
  split at h
  · nomatch h
  · rename_i hskip
    obtain rfl := Next.closed.inj (Except.ok.inj h)
    exact exists_blanks hskip
  · split at h
    · nomatch h
    · split at h
      · split at h <;> nomatch h
      · nomatch h

theorem of_nextElement_item {first : Bool} {cs rest : List Char}
    (h : nextElement first cs = .ok (.item rest)) :
    ∃ separator, Separator first separator ∧ cs = separator ++ rest := by
  unfold nextElement at h
  split at h
  · nomatch h
  · nomatch h
  · rename_i c cs' _ hskip
    cases first with
    | true =>
      obtain rfl := Next.item.inj (Except.ok.inj h)
      exact exists_separator_first hskip
    | false =>
      simp only [Bool.false_eq_true, if_false] at h
      split at h
      · rename_i hcomma
        subst hcomma
        split at h
        · nomatch h
        · nomatch h
        · obtain rfl := Next.item.inj (Except.ok.inj h)
          exact exists_separator_later hskip rfl
      · nomatch h

theorem nextElement_blanks_closed (first : Bool) {blanks : List Char} (h : Blanks blanks)
    (rest : List Char) : nextElement first (blanks ++ ']' :: rest) = .ok (.closed rest) := by
  simp [nextElement, skipBlanks_append h, skipBlanks_cons (c := ']') (by decide)]

theorem nextElement_separator {first : Bool} {separator rest : List Char}
    (h : Separator first separator) (hrest : StartsItem ']' rest) :
    nextElement first (separator ++ rest) = .ok (.item rest) := by
  obtain ⟨c, cs, rfl, hblank, hclosing⟩ := hrest
  cases h with
  | first h => simp [nextElement, skipBlanks_append h, skipBlanks_cons hblank]
  | later hbefore hafter =>
    simp [nextElement, skipBlanks_append hbefore, skipBlanks_append hafter,
      skipBlanks_cons (c := ',') (by decide), skipBlanks_cons hblank, hclosing]

theorem of_openKey {cs : List Char} {next : Next} (h : openKey cs = .ok next) :
    ∃ rest, next = .item rest ∧ cs = '"' :: rest := by
  unfold openKey at h
  split at h
  · exact ⟨_, (Except.ok.inj h).symm, rfl⟩
  · nomatch h

theorem of_nextKey_closed {first : Bool} {cs rest : List Char}
    (h : nextKey first cs = .ok (.closed rest)) :
    ∃ blanks, Blanks blanks ∧ cs = blanks ++ '}' :: rest := by
  have hopen (ds : List Char) (hds : openKey ds = .ok (.closed rest)) : False := by
    obtain ⟨_, hnext, _⟩ := of_openKey hds
    nomatch hnext
  unfold nextKey at h
  split at h
  · nomatch h
  · rename_i hskip
    obtain rfl := Next.closed.inj (Except.ok.inj h)
    exact exists_blanks hskip
  · split at h
    · exact (hopen _ h).elim
    · split at h
      · split at h
        · nomatch h
        · nomatch h
        · exact (hopen _ h).elim
      · nomatch h

theorem of_nextKey_item {first : Bool} {cs rest : List Char}
    (h : nextKey first cs = .ok (.item rest)) :
    ∃ separator, Separator first separator ∧ cs = separator ++ '"' :: rest := by
  have hopen {ds : List Char} (hds : openKey ds = .ok (.item rest)) : ds = '"' :: rest := by
    obtain ⟨_, hnext, hds⟩ := of_openKey hds
    rwa [← Next.item.inj hnext] at hds
  unfold nextKey at h
  split at h
  · nomatch h
  · nomatch h
  · rename_i c cs' _ hskip
    cases first with
    | true => exact exists_separator_first (hskip.trans (hopen h))
    | false =>
      simp only [Bool.false_eq_true, if_false] at h
      split at h
      · rename_i hcomma
        subst hcomma
        split at h
        · nomatch h
        · nomatch h
        · exact exists_separator_later hskip (hopen h)
      · nomatch h

theorem nextKey_blanks_closed (first : Bool) {blanks : List Char} (h : Blanks blanks)
    (rest : List Char) : nextKey first (blanks ++ '}' :: rest) = .ok (.closed rest) := by
  simp [nextKey, skipBlanks_append h, skipBlanks_cons (c := '}') (by decide)]

theorem nextKey_separator {first : Bool} {separator : List Char} (h : Separator first separator)
    (rest : List Char) : nextKey first (separator ++ '"' :: rest) = .ok (.item rest) := by
  cases h with
  | first h =>
    simp [nextKey, skipBlanks_append h, skipBlanks_cons (c := '"') (by decide), openKey]
  | later hbefore hafter =>
    simp [nextKey, skipBlanks_append hbefore, skipBlanks_append hafter,
      skipBlanks_cons (c := ',') (by decide), skipBlanks_cons (c := '"') (by decide), openKey]

theorem colon_eq_ok_iff {cs rest : List Char} :
    colon cs = .ok rest ↔ ∃ blanks, Blanks blanks ∧ cs = blanks ++ ':' :: rest := by
  constructor
  · intro h
    unfold colon at h
    split at h
    · nomatch h
    · rename_i hskip
      obtain rfl := Except.ok.inj h
      exact exists_blanks hskip
    · nomatch h
  · rintro ⟨blanks, hblanks, rfl⟩
    simp [colon, skipBlanks_append hblanks, skipBlanks_cons (c := ':') (by decide)]

end Next

end Json

end FormulaEditor
