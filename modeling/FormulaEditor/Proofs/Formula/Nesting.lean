import FormulaEditor.Proofs.Formula.Acceptance
import FormulaEditor.Proofs.Formula.Deletion
import FormulaEditor.Proofs.Formula.Reader
/-! How deep formulas get. One that is read is nested no deeper than its text, whichever way the
text spells it, and a deletion nests nothing deeper than it was. -/
namespace FormulaEditor

namespace Json
namespace Value

theorem depthOfItems_le_iff {vs : List Value} {d : Nat} :
    depthOfItems vs ≤ d ↔ ∀ v ∈ vs, v.depth ≤ d := by
  induction vs with
  | nil => simp [depthOfItems]
  | cons v vs ih => simp [depthOfItems, ih]

theorem depthOfMembers_le_iff {ms : List (String × Value)} {d : Nat} :
    depthOfMembers ms ≤ d ↔ ∀ m ∈ ms, m.2.depth ≤ d := by
  induction ms with
  | nil => simp [depthOfMembers]
  | cons m ms ih => simp [depthOfMembers, ih]

end Value

theorem Items.exists_text {α : Type} {text : α → List Char → Prop} {closing : Char} {first : Bool}
    {xs : List α} {cs : List Char} (h : Items text closing first xs cs) :
    ∀ x ∈ xs, ∃ cs, text x cs := by
  induction h with
  | closed => simp
  | item _ hx _ ih => exact List.forall_mem_cons.2 ⟨⟨_, hx⟩, ih⟩

theorem depth_le_of_valueText {d : Nat} {v : Value} {cs : List Char} (h : ValueText d v cs) :
    v.depth ≤ d := by
  have hscalar {d : Nat} {v : Value} {cs : List Char} (h : ScalarText v cs) : v.depth ≤ d := by
    cases h <;> exact Nat.zero_le _
  induction d generalizing v cs with
  | zero => exact hscalar h
  | succ d ih =>
    rcases h with h | h
    · exact hscalar h
    · cases h with
      | array h =>
        refine Nat.succ_le_succ (Value.depthOfItems_le_iff.2 fun v hv => ?_)
        obtain ⟨cs, htext⟩ := h.exists_text v hv
        exact ih htext
      | object h =>
        refine Nat.succ_le_succ (Value.depthOfMembers_le_iff.2 fun m hm => ?_)
        obtain ⟨_, htext⟩ := h.exists_text m hm
        cases htext with
        | mk _ _ _ hx => exact ih hx

theorem depth_le_of_wholeText {d : Nat} {v : Value} {cs : List Char} (h : WholeText d v cs) :
    v.depth ≤ d := by
  cases h with
  | mk _ h => exact depth_le_of_valueText h

end Json

open Json

theorem exists_mem_of_forall₂ {α β : Type} {R : α → β → Prop} {as : List α} {bs : List β}
    (h : List.Forall₂ R as bs) : ∀ a ∈ as, ∃ b ∈ bs, R a b := by
  induction h with
  | nil => simp
  | cons hab _ ih =>
    refine List.forall_mem_cons.2 ⟨⟨_, List.mem_cons_self, hab⟩, fun a ha => ?_⟩
    obtain ⟨b, hb, hR⟩ := ih a ha
    exact ⟨b, List.mem_cons_of_mem _ hb, hR⟩

theorem HasFields.exists_lt {fields : List (String × (Value → Prop))} {v : Value}
    (h : HasFields fields v) : ∀ f ∈ fields, ∃ w, f.2 w ∧ w.depth < v.depth := by
  intro f hf
  cases v with
  | object ms =>
    obtain ⟨w, hfilter, hw⟩ := h f hf
    have hmem : (f.1, w) ∈ ms := List.mem_of_mem_filter (hfilter ▸ List.mem_singleton_self _)
    exact ⟨w, hw, Nat.lt_succ_of_le (Value.depthOfMembers_le_iff.1 le_rfl _ hmem)⟩
  | array vs =>
    obtain ⟨w, hmem, hw⟩ := exists_mem_of_forall₂ h f hf
    exact ⟨w, hw, Nat.lt_succ_of_le (Value.depthOfItems_le_iff.1 le_rfl w hmem)⟩
  | _ => exact h.elim

theorem HasFields.depth_pos {fields : List (String × (Value → Prop))} {v : Value}
    (h : HasFields fields v) : 0 < v.depth := by
  cases v with
  | object ms => exact Nat.succ_pos _
  | array vs => exact Nat.succ_pos _
  | _ => exact h.elim

namespace Formula

theorem nestingOfArguments_le_iff {as : List Formula} {d : Nat} :
    nestingOfArguments as ≤ d ↔ ∀ a ∈ as, a.nesting ≤ d := by
  induction as with
  | nil => simp [nestingOfArguments]
  | cons a as ih => simp [nestingOfArguments, ih]

theorem nestingOfArguments_le_of_areSpelledBy {as : List Formula} {vs : List Value}
    (ih : ∀ a ∈ as, ∀ v, a.IsSpelledBy v → a.nesting ≤ v.depth) (h : AreSpelledBy as vs) :
    nestingOfArguments as ≤ Value.depthOfItems vs := by
  induction as generalizing vs with
  | nil => exact Nat.zero_le _
  | cons a as iha =>
    cases vs with
    | nil => exact h.elim
    | cons v vs =>
      have ha := ih a List.mem_cons_self v h.1
      have has := iha (fun b hb => ih b (List.mem_cons_of_mem a hb)) h.2
      rw [nestingOfArguments, Value.depthOfItems]
      omega

/-- However a value spells a formula, it is as deep as the canonical one at least. -/
theorem nesting_le_of_fieldSpellings {t : Formula} {v : Value} {holdsTag : Value → Prop}
    (h : HasFields (("type", holdsTag) :: t.fieldSpellings) v) : t.nesting ≤ v.depth := by
  induction t generalizing v holdsTag with
  | negation a ih | paren a ih =>
    obtain ⟨w, hw, hlt⟩ := h.exists_lt _ (.tail _ (.head _))
    exact (Nat.succ_le_succ (ih hw)).trans hlt
  | power a x iha ihx =>
    obtain ⟨w, hw, hlt⟩ := h.exists_lt _ (.tail _ (.head _))
    obtain ⟨w', hw', hlt'⟩ := h.exists_lt _ (.tail _ (.tail _ (.head _)))
    have ha := iha hw
    have hx := ihx hw'
    rw [nesting]
    omega
  | binary o l r ihl ihr =>
    obtain ⟨w, hw, hlt⟩ := h.exists_lt _ (.tail _ (.head _))
    obtain ⟨w', hw', hlt'⟩ := h.exists_lt _ (.tail _ (.tail _ (.head _)))
    have hl := ihl hw
    have hr := ihr hw'
    rw [nesting]
    omega
  | call name as ih =>
    obtain ⟨_, ⟨vs, rfl, hvs⟩, hlt⟩ := h.exists_lt _ (.tail _ (.tail _ (.head _)))
    have has := nestingOfArguments_le_of_areSpelledBy (fun a ha v hv => ih a ha hv) hvs
    rw [Value.depth] at hlt
    rw [nesting]
    omega
  | _ => exact h.depth_pos

/-- No text is read as a formula that is nested beyond the limit. -/
theorem nesting_le_of_ofJson {text : String} {t : Formula} (h : ofJson text = .ok t) :
    t.nesting ≤ depthLimit := by
  obtain ⟨v, htext, ht⟩ := exists_wholeText_of_ofJson h
  exact (nesting_le_of_fieldSpellings ht).trans (depth_le_of_wholeText htext)

/-- A formula gets no deeper if a child is replaced by one that is no deeper, nor does a call that
is left with one argument. -/
theorem isHereditary_nesting_le : IsHereditary fun u t => u.nesting ≤ t.nesting where
  ofChild {t u c w s} hc hu hw := by
    cases t <;> cases s <;> simp only [child?, reduceCtorEq, Option.some.injEq] at hc
    case call.argument name as i =>
      have hi := (List.getElem?_eq_some_iff.1 hc).1
      obtain rfl : call name (as.set i w) = u := by simpa [setChild?, hi] using hu
      refine Nat.add_le_add_right (nestingOfArguments_le_iff.2 fun a ha => ?_) 2
      have hle := nestingOfArguments_le_iff.1 (le_refl (nestingOfArguments as))
      rcases List.mem_or_eq_of_mem_set ha with ha | rfl
      · exact hle a ha
      · exact hw.trans (hle c (List.mem_of_getElem? hc))
    all_goals
      subst hc
      obtain rfl := Option.some.inj hu
      simp only [nesting]
      omega
  ofArgument {name as c w} hc hw := by
    have has := nestingOfArguments_le_iff.1 le_rfl c hc
    simp only [nesting, nestingOfArguments]
    omega

theorem nesting_le_of_kept? {n k : Formula} {side : Side} (h : n.kept? side = some k) :
    k.nesting ≤ n.nesting := by
  cases n <;> cases side <;> simp only [kept?, reduceCtorEq, Option.some.injEq] at h
  all_goals
    subst h
    rw [nesting]
    omega

theorem nesting_deleteOperand_le (t : Formula) (operators : List Path) (id : Nat) (side : Side)
    (collapse : Collapse) : (t.deleteOperand operators id side collapse).nesting ≤ t.nesting := by
  unfold deleteOperand
  cases hdelete : operators[id]?.bind fun p => t.deleteAt? p side collapse with
  | none => exact le_rfl
  | some u =>
    obtain ⟨p, _, hp⟩ := Option.bind_eq_some_iff.1 hdelete
    obtain ⟨n, hn, hp⟩ := Option.bind_eq_some_iff.1 hp
    obtain ⟨kept, hk, hu⟩ := Option.bind_eq_some_iff.1 hp
    obtain ⟨u', hu', hcollapse⟩ := exists_collapseInto? hn kept collapse
    obtain rfl := Option.some.inj (hu'.symm.trans hu)
    exact isHereditary_nesting_le.of_isCollapse hn (nesting_le_of_kept? hk) hcollapse

end Formula

end FormulaEditor
