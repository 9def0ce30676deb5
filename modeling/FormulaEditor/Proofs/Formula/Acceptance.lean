import FormulaEditor.Formula.Reader
import FormulaEditor.Proofs.Formula.Recognition
import FormulaEditor.Proofs.Json.Recognition
/-! Which texts are accepted, and as which formulas. The outermost value is read as it goes along,
but it is taken for a formula exactly when the whole value spells that formula. -/
namespace FormulaEditor
namespace Formula

open Json

theorem value_eq_ok_string_iff {depth : Nat} {cs rest : List Char} {s : String} :
    value depth cs = .ok (.string s, rest) ↔ scalar (skipBlanks cs) = .ok (.string s, rest) := by
  have hlist (cs : List Char) : scalar ('[' :: cs) ≠ .ok (.string s, rest) := by simp [scalar]
  have hobject (cs : List Char) : scalar ('{' :: cs) ≠ .ok (.string s, rest) := by simp [scalar]
  cases depth
  all_goals
    unfold value
    split
    · rename_i hskip
      simp [hskip, hlist, bind_eq_ok_iff]
    · rename_i hskip
      simp [hskip, hobject, bind_eq_ok_iff]
    · simp

theorem rootTag_eq_ok_iff (depth : Nat) {cs rest : List Char} {u : Tag} :
    rootTag cs = .ok (u, rest) ↔
      ∃ s, value depth cs = .ok (.string s, rest) ∧ Tag.ofSpelling s = u := by
  simp only [value_eq_ok_string_iff]
  unfold rootTag glance
  split
  · rename_i hskip
    simp [hskip, scalar, bind, Except.bind]
  · rename_i hskip
    simp [hskip, scalar, bind, Except.bind]
  · rcases scalar (skipBlanks cs) with fault | ⟨v, cs'⟩
    · simp [bind, Except.bind]
    · cases v <;> simp [Value.shape, bind, Except.bind, and_comm]

theorem exists_members_of_rootMembers {fuel : Nat} {first : Bool} {t : Option Tag} {u : Tag}
    {cs rest : List Char} {entries : List (String × Value)}
    (h : rootMembers fuel first t cs = .ok ((some u, entries), rest)) :
    ∃ ms, members nextKey string (value (depthLimit - 1)) fuel first cs = .ok (ms, rest) ∧
      Completes "type" Tag.IsNamedByText t u ms ∧ entries = ms.filter (·.1 ≠ "type") := by
  induction fuel generalizing first t cs entries with
  | zero => nomatch h
  | succ fuel ih =>
    obtain ⟨found, hnext, h⟩ := bind_eq_ok_iff.1 h
    cases found with
    | closed rest' =>
      obtain ⟨hp, rfl⟩ := Prod.mk.inj (Except.ok.inj h)
      obtain ⟨rfl, rfl⟩ := Prod.mk.inj hp
      exact ⟨[], by simp [members, hnext, bind, Except.bind], ⟨rfl, rfl⟩, rfl⟩
    | item mid =>
      obtain ⟨⟨key, cs₁⟩, hkey, h⟩ := bind_eq_ok_iff.1 h
      by_cases htype : key = "type"
      · subst htype
        -- a tag that was found before makes this one the second
        cases t with
        | some t => simp at h
        | none =>
          simp only [if_true, Option.isSome_none, Bool.false_eq_true, if_false] at h
          obtain ⟨cs₂, hcolon, h⟩ := bind_eq_ok_iff.1 h
          obtain ⟨⟨t, cs₃⟩, htag, h⟩ := bind_eq_ok_iff.1 h
          obtain ⟨s, hvalue, hs⟩ := (rootTag_eq_ok_iff (depthLimit - 1)).1 htag
          obtain ⟨ms, hms, hu, rfl⟩ := ih h
          refine ⟨("type", .string s) :: ms, ?_, ?_, ?_⟩
          · simp [members, hnext, hkey, hcolon, hvalue, hms, bind, Except.bind]
          · exact completes_cons_none.2 ⟨t, ⟨ofSpelling_eq_iff.1 hs, s, rfl⟩, hu⟩
          · simp
      · simp only [htype, if_false] at h
        obtain ⟨cs₂, hcolon, h⟩ := bind_eq_ok_iff.1 h
        obtain ⟨⟨v, cs₃⟩, hvalue, h⟩ := bind_eq_ok_iff.1 h
        obtain ⟨⟨⟨t', entries'⟩, cs₄⟩, hlater, h⟩ := bind_eq_ok_iff.1 h
        obtain ⟨hp, rfl⟩ := Prod.mk.inj (Except.ok.inj h)
        obtain ⟨rfl, rfl⟩ := Prod.mk.inj hp
        obtain ⟨ms, hms, hu, rfl⟩ := ih hlater
        refine ⟨(key, v) :: ms, ?_, (completes_cons_of_ne htype _ _).2 hu, ?_⟩
        · simp [members, hnext, hkey, hcolon, hvalue, hms, bind, Except.bind]
        · simp [htype]

theorem rootMembers_of_members {fuel : Nat} {first : Bool} {t : Option Tag} {u : Tag}
    {cs rest : List Char} {ms : List (String × Value)}
    (h : members nextKey string (value (depthLimit - 1)) fuel first cs = .ok (ms, rest))
    (hu : Completes "type" Tag.IsNamedByText t u ms) :
    rootMembers fuel first t cs = .ok ((some u, ms.filter (·.1 ≠ "type")), rest) := by
  induction fuel generalizing first t cs ms with
  | zero => nomatch h
  | succ fuel ih =>
    obtain ⟨found, hnext, h⟩ := bind_eq_ok_iff.1 h
    cases found with
    | closed rest' =>
      obtain ⟨rfl, rfl⟩ := Prod.mk.inj (Except.ok.inj h)
      cases t with
      | none => simp [Completes, Once] at hu
      | some t =>
        obtain ⟨rfl, _⟩ := hu
        simp [rootMembers, hnext, bind, Except.bind]
    | item mid =>
      obtain ⟨⟨key, cs₁⟩, hkey, h⟩ := bind_eq_ok_iff.1 h
      obtain ⟨cs₂, hcolon, h⟩ := bind_eq_ok_iff.1 h
      obtain ⟨⟨v, cs₃⟩, hvalue, h⟩ := bind_eq_ok_iff.1 h
      obtain ⟨⟨later, cs₄⟩, hlater, h⟩ := bind_eq_ok_iff.1 h
      obtain ⟨rfl, rfl⟩ := Prod.mk.inj (Except.ok.inj h)
      by_cases htype : key = "type"
      · subst htype
        cases t with
        | some t => exact absurd hu not_completes_cons_some
        | none =>
          obtain ⟨t, ⟨ht, s, rfl⟩, hlaterTag⟩ := completes_cons_none.1 hu
          have htag := (rootTag_eq_ok_iff _).2 ⟨s, hvalue, ofSpelling_eq_iff.2 ht⟩
          have hrest := ih hlater hlaterTag
          simp [rootMembers, hnext, hkey, hcolon, htag, hrest, bind, Except.bind]
      · have hrest := ih hlater ((completes_cons_of_ne htype _ _).1 hu)
        simp [rootMembers, hnext, hkey, hcolon, hvalue, htype, hrest, bind, Except.bind]

theorem ofBody_eq_ok_iff {u : Tag} {body : Body} {t : Formula} :
    ofBody u body = .ok t ↔ ofTagged u body = .ok t := by
  unfold ofBody
  cases ofTagged u body <;> simp [Except.mapError]

theorem readsItems_value (depth : Nat) :
    ReadsItems nextElement (value depth) ']' (ValueText depth) :=
  readsItems_nextElement (recognizes_value depth) startsItem_of_valueText

theorem root_object_eq_ok_iff {text cs rest : List Char} {t : Formula}
    (htext : skipBlanks text = '{' :: cs) : root text = .ok (t, rest) ↔
      ∃ ms, members nextKey string (value (depthLimit - 1)) cs.length true cs = .ok (ms, rest) ∧
        t.IsSpelledAtRootBy (.object ms) := by
  have hfields (ms : List (String × Value)) :
      HasFields t.fieldSpellings (.object (ms.filter (·.1 ≠ "type"))) ↔
        HasFields t.fieldSpellings (.object ms) :=
    forall₂_congr fun f hf => once_filter_ne (key_ne_of_mem_fieldSpellings hf)
  unfold root
  rw [htext]
  refine bind_eq_ok_iff.trans ?_
  constructor
  · rintro ⟨⟨⟨_ | u, entries⟩, cs'⟩, hroot, h⟩
    · nomatch h
    · obtain ⟨t', hbody, h⟩ := bind_eq_ok_iff.1 h
      obtain ⟨rfl, rfl⟩ := Prod.mk.inj (Except.ok.inj h)
      obtain ⟨ms, hms, hu, rfl⟩ := exists_members_of_rootMembers hroot
      obtain ⟨rfl, hrest⟩ := ofTagged_members_eq_ok_iff.1 (ofBody_eq_ok_iff.1 hbody)
      exact ⟨ms, hms, List.forall_mem_cons.2 ⟨hu, (hfields ms).1 hrest⟩⟩
  · rintro ⟨ms, hms, h⟩
    obtain ⟨hu, h⟩ := List.forall_mem_cons.1 h
    have hbody := ofTagged_members_eq_ok_iff.2 ⟨rfl, (hfields ms).2 h⟩
    refine ⟨((some t.tag, _), rest), rootMembers_of_members hms hu, ?_⟩
    exact bind_eq_ok_iff.2 ⟨t, ofBody_eq_ok_iff.2 hbody, rfl⟩

theorem root_array_eq_ok_iff {text cs rest : List Char} {t : Formula}
    (htext : skipBlanks text = '[' :: cs) : root text = .ok (t, rest) ↔
      ∃ vs, elements nextElement (value (depthLimit - 1)) cs.length true cs = .ok (vs, rest) ∧
        t.IsSpelledAtRootBy (.array vs) := by
  have hitems := readsItems_value (depthLimit - 1)
  unfold root
  rw [htext]
  refine bind_eq_ok_iff.trans ?_
  constructor
  · rintro ⟨found, hnext, h⟩
    cases found with
    | closed => cases h
    | item mid =>
      obtain ⟨⟨u, cs₁⟩, htag, h⟩ := bind_eq_ok_iff.1 h
      obtain ⟨⟨vs, cs₂⟩, hread, h⟩ := bind_eq_ok_iff.1 h
      obtain ⟨t', hbody, h⟩ := bind_eq_ok_iff.1 h
      obtain ⟨rfl, rfl⟩ := Prod.mk.inj (Except.ok.inj h)
      obtain ⟨s, hvalue, hs⟩ := (rootTag_eq_ok_iff (depthLimit - 1)).1 htag
      obtain ⟨rfl, hfields⟩ := ofTagged_items_eq_ok_iff.1 (ofBody_eq_ok_iff.1 hbody)
      -- read as a value, the list has the text of the tag for its first item
      have hlist : elements nextElement (value (depthLimit - 1)) (cs₁.length + 1) true cs =
          .ok (.string s :: vs, cs₂) := by
        simp only [elements, hnext, hvalue, hread, bind, Except.bind]
      exact ⟨_, hitems.of_fuel hlist, .cons ⟨ofSpelling_eq_iff.1 hs, s, rfl⟩ hfields⟩
  · rintro ⟨vs, hread, h⟩
    obtain ⟨fuel, hfuel⟩ : ∃ fuel, cs.length = fuel + 1 := by
      cases cs with
      | nil => simp [elements] at hread
      | cons c cs => exact ⟨_, rfl⟩
    rw [hfuel] at hread
    obtain ⟨found, hnext, hread⟩ := bind_eq_ok_iff.1 hread
    refine ⟨found, hnext, ?_⟩
    cases found with
    | closed =>
      obtain ⟨rfl, rfl⟩ := Prod.mk.inj (Except.ok.inj hread)
      cases h
    | item mid =>
      obtain ⟨⟨v, cs₁⟩, hvalue, hread⟩ := bind_eq_ok_iff.1 hread
      obtain ⟨⟨later, cs₂⟩, hlater, hread⟩ := bind_eq_ok_iff.1 hread
      obtain ⟨rfl, rfl⟩ := Prod.mk.inj (Except.ok.inj hread)
      obtain ⟨⟨ht, s, rfl⟩, hfields⟩ := List.forall₂_cons.1 h
      have htag := (rootTag_eq_ok_iff _).2 ⟨s, hvalue, ofSpelling_eq_iff.2 ht⟩
      have hbody := ofBody_eq_ok_iff.2 (ofTagged_items_eq_ok_iff.2 ⟨rfl, hfields⟩)
      simp only [htag, hitems.of_fuel hlater, hbody, bind, Except.bind]

/-- What the reader of the outermost value takes is what the reader of values takes, if that spells
a formula. -/
theorem root_eq_ok_iff {cs rest : List Char} {t : Formula} :
    root cs = .ok (t, rest) ↔
      ∃ v, value depthLimit cs = .ok (v, rest) ∧ t.IsSpelledAtRootBy v := by
  rw [show depthLimit = depthLimit - 1 + 1 from rfl]
  unfold value
  split
  · rename_i htext
    refine (root_array_eq_ok_iff htext).trans ⟨?_, ?_⟩
    · rintro ⟨vs, hvs, h⟩
      exact ⟨_, bind_eq_ok_iff.2 ⟨_, hvs, rfl⟩, h⟩
    · rintro ⟨v, hv, h⟩
      obtain ⟨⟨vs, cs'⟩, hvs, hv⟩ := bind_eq_ok_iff.1 hv
      obtain ⟨rfl, rfl⟩ := Prod.mk.inj (Except.ok.inj hv)
      exact ⟨vs, hvs, h⟩
  · rename_i htext
    refine (root_object_eq_ok_iff htext).trans ⟨?_, ?_⟩
    · rintro ⟨ms, hms, h⟩
      exact ⟨_, bind_eq_ok_iff.2 ⟨_, hms, rfl⟩, h⟩
    · rintro ⟨v, hv, h⟩
      obtain ⟨⟨ms, cs'⟩, hms, hv⟩ := bind_eq_ok_iff.1 hv
      obtain ⟨rfl, rfl⟩ := Prod.mk.inj (Except.ok.inj hv)
      exact ⟨ms, hms, h⟩
  · rename_i hlist hobject
    constructor
    · intro h
      unfold root at h
      split at h
      · exact (hobject _ ‹_›).elim
      · exact (hlist _ ‹_›).elim
      · obtain ⟨_, _, h⟩ := bind_eq_ok_iff.1 h
        nomatch h
    · rintro ⟨v, hv, h⟩
      obtain ⟨_, htext, _⟩ := exists_scalarText hv
      cases htext <;> nomatch h

theorem exists_wholeText_of_ofJson {text : String} {t : Formula} (h : ofJson text = .ok t) :
    ∃ v, WholeText depthLimit v text.toList ∧ t.IsSpelledAtRootBy v := by
  obtain ⟨⟨t', rest⟩, hroot, h⟩ := bind_eq_ok_iff.1 h
  obtain ⟨_, hend, h⟩ := bind_eq_ok_iff.1 h
  obtain rfl := Except.ok.inj h
  obtain ⟨v, hvalue, ht⟩ := root_eq_ok_iff.1 hroot
  exact ⟨v, wholeText_iff.2 ⟨rest, hvalue, hend⟩, ht⟩

/-- A text is accepted as a formula exactly when it is the text of a value that spells the formula,
with at most 127 lists and objects inside one another. -/
theorem ofJson_eq_ok_iff (text : String) (t : Formula) :
    ofJson text = .ok t ↔
      ∃ v, WholeText 127 v text.toList ∧ t.IsSpelledAtRootBy v := by
  constructor
  · exact exists_wholeText_of_ofJson
  · rintro ⟨v, htext, ht⟩
    obtain ⟨rest, hvalue, hend⟩ := wholeText_iff.1 htext
    have hroot := root_eq_ok_iff.2 ⟨v, hvalue, ht⟩
    simp only [ofJson, hroot, hend, bind, Except.bind]

end Formula

end FormulaEditor
