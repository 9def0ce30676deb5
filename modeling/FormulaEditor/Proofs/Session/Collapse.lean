import FormulaEditor.Proofs.Formula.Collapse
import FormulaEditor.Proofs.Session.Pruning
/-! Sessions that differ only in their settings. They stay alike until an operand is deleted from an
operation that is one of several arguments, and that deletion parts them. -/
namespace FormulaEditor
namespace Session

def withSettings (s : Session) (settings : Settings) : Session := { s with settings }

@[simp] theorem withSettings_formula (s : Session) (x : Settings) :
    (s.withSettings x).formula = s.formula := rfl

@[simp] theorem withSettings_json (s : Session) (x : Settings) :
    (s.withSettings x).json = s.json := rfl

@[simp] theorem withSettings_drawing (s : Session) (x : Settings) :
    (s.withSettings x).drawing = s.drawing := rfl

@[simp] theorem withSettings_selection (s : Session) (x : Settings) :
    (s.withSettings x).selection = s.selection := rfl

@[simp] theorem withSettings_drawCount (s : Session) (x : Settings) :
    (s.withSettings x).drawCount = s.drawCount := rfl

@[simp] theorem withSettings_settings (s : Session) (x : Settings) :
    (s.withSettings x).settings = x := rfl

@[simp] theorem withSettings_self (s : Session) : s.withSettings s.settings = s := rfl

@[simp] theorem withSettings_withSettings (s : Session) (x y : Settings) :
    (s.withSettings x).withSettings y = s.withSettings y := rfl

@[simp] theorem withFormula_withSettings (s : Session) (x : Settings) (t : Formula) :
    (s.withSettings x).withFormula t = (s.withFormula t).withSettings x := rfl

@[simp] theorem clearSelection_withSettings (s : Session) (x : Settings) :
    (s.withSettings x).clearSelection = s.clearSelection.withSettings x := rfl

/-- The command deletes an operand from an operation that is one of several arguments. -/
def DeletesAmongArguments (s : Session) (c : Command) : Prop :=
  ∃ id side d t, (s.step c).1 = .ok (.deletion (.operand id side)) ∧ s.drawing = some d ∧
    s.formula = some t ∧ t.LeadsAmongArguments d.operators id

variable (s : Session) (x : Settings)

theorem setFormula_withSettings (t : Formula) :
    (s.withSettings x).setFormula t = ((s.setFormula t).1, (s.setFormula t).2.withSettings x) := by
  unfold setFormula
  by_cases h : s.formula.isSome ∧ t.canonicalJson = s.json
  · simp [h]
  · simp only [withSettings_formula, withSettings_json, h, if_false, withFormula_withSettings]

theorem setJson_withSettings (text : String) :
    (s.withSettings x).setJson text = ((s.setJson text).1, (s.setJson text).2.withSettings x) := by
  unfold setJson
  cases Formula.ofJson text with
  | ok t => simp only [setFormula_withSettings]
  | error e => rfl

theorem select_withSettings (p : Box.Path) :
    (s.withSettings x).select p = ((s.select p).1, (s.select p).2.withSettings x) := by
  have hselectable : (s.withSettings x).selectable p = s.selectable p := rfl
  unfold select
  rw [hselectable]
  cases s.selectable p <;> rfl

theorem delete_withSettings :
    (∃ (r : Except SessionError Deletion) (u : Session),
      (∀ id side, r ≠ .ok (.operand id side)) ∧
        ∀ x, (s.withSettings x).delete = (r, u.withSettings x)) ∨
    ∃ d t id side, s.drawing = some d ∧ s.formula = some t ∧
      ∀ x, (s.withSettings x).delete = (.ok (.operand id side),
        (s.withFormula (t.deleteOperand d.operators id side x.collapse)).withSettings x) := by
  cases hp : s.selection with
  | none => exact .inl ⟨.ok .nothing, s, by simp, fun x => by simp [delete, hp]⟩
  | some p =>
    cases hd : s.drawing with
    | none =>
      exact .inl ⟨.error .noFormula, s.clearSelection, by simp, fun x => by simp [delete, hp, hd]⟩
    | some d =>
      cases ht : s.formula with
      | none =>
        exact .inl ⟨.error .noFormula, s.clearSelection, by simp,
          fun x => by simp [delete, hp, hd, ht]⟩
      | some t =>
        cases ho : d.box.nearestOperator? p with
        | none =>
          exact .inl ⟨.error .noOperator, s.clearSelection, by simp,
            fun x => by simp [delete, hp, hd, ht, ho]⟩
        | some o =>
          exact .inr ⟨d, t, o.id, o.side p, rfl, rfl, fun x => by simp [delete, hp, hd, ht, ho]⟩

/-- A command that does not make arguments collapse does the same whatever the settings are. -/
theorem step_withSettings {c : Command} (h : ¬ s.DeletesAmongArguments c) :
    (s.withSettings x).step c = ((s.step c).1, (s.step c).2.withSettings x) := by
  cases c with
  | setFormula t => simp only [step, setFormula_withSettings]
  | setJson text => simp only [step, setJson_withSettings]
  | select p => simp only [step, select_withSettings]
  | clearSelection => rfl
  | delete =>
    rcases s.delete_withSettings with ⟨r, u, _, hdelete⟩ | ⟨d, t, id, side, hd, ht, hdelete⟩
    · have hown := hdelete s.settings
      rw [withSettings_self] at hown
      simp [step, hdelete x, hown]
    · have hown := hdelete s.settings
      rw [withSettings_self] at hown
      have hleads : ¬ t.LeadsAmongArguments d.operators id := by
        intro hleads
        exact h ⟨id, side, d, t, by simp [step, hown, Except.map], hd, ht, hleads⟩
      have hsame :=
        (Formula.deleteOperand_collapse_iff side x.collapse s.settings.collapse).2 (.inr hleads)
      simp [step, hdelete x, hown, hsame]

/-- Where arguments collapse the answers agree, but the formulas that are left do not. -/
theorem step_withSettings_of_deletesAmongArguments {c : Command}
    (h : s.DeletesAmongArguments c) (hx : x.collapse ≠ s.settings.collapse) :
    ((s.withSettings x).step c).1 = (s.step c).1 ∧
      ((s.withSettings x).step c).2.formula ≠ (s.step c).2.formula := by
  obtain ⟨id, side, d, t, hanswer, hd, ht, hleads⟩ := h
  obtain rfl := eq_delete_of_removes (s := s) (by rw [hanswer]; rfl)
  rcases s.delete_withSettings with ⟨r, u, hr, hdelete⟩ | ⟨d', t', id', side', hd', ht', hdelete⟩
  all_goals
    have hown := hdelete s.settings
    rw [withSettings_self] at hown
  · rw [step_delete, hown] at hanswer
    cases r with
    | error e => nomatch hanswer
    | ok r =>
      obtain rfl := Answer.deletion.inj (Except.ok.inj hanswer)
      exact absurd rfl (hr id side)
  · rw [step_delete, hown] at hanswer
    obtain ⟨rfl, rfl⟩ := Deletion.operand.inj (Answer.deletion.inj (Except.ok.inj hanswer))
    obtain rfl := Option.some.inj (hd.symm.trans hd')
    obtain rfl := Option.some.inj (ht.symm.trans ht')
    refine ⟨by simp [step, hdelete x, hown], ?_⟩
    simp only [step, hdelete x, hown, withSettings_formula, withFormula_formula, ne_eq,
      Option.some.injEq]
    rw [Formula.deleteOperand_collapse_iff, not_or, not_not]
    exact ⟨hx, hleads⟩

theorem run_withSettings {cs : List Command}
    (h : ∀ before c after, cs = before ++ c :: after → ¬ (s.run before).DeletesAmongArguments c) :
    (s.withSettings x).answers cs = s.answers cs ∧
      (s.withSettings x).run cs = (s.run cs).withSettings x := by
  induction cs generalizing s with
  | nil => exact ⟨rfl, rfl⟩
  | cons c cs ih =>
    have hstep := s.step_withSettings x (h [] c cs rfl)
    have hrest := ih (s.step c).2 fun before d after hcs =>
      h (c :: before) d after (by rw [hcs, List.cons_append])
    rw [answers, answers, run_cons, run_cons, hstep]
    exact ⟨by rw [hrest.1], hrest.2⟩

/-- The setting decides what a deletion leaves exactly for the operations that are one of several
arguments. So sessions that differ only in their settings answer the same commands alike and differ
in nothing else as long as no operand of such an operation is deleted, and with another choice in
the settings that deletion leaves another formula. -/
theorem collapse_matters_iff :
    (∀ (t : Formula) operators id side,
      t.deleteOperand operators id side .replaceAll =
          t.deleteOperand operators id side .replaceMatched ↔
        ¬ t.LeadsAmongArguments operators id) ∧
    (∀ (s : Session) x cs,
      (∀ before c after, cs = before ++ c :: after →
        ¬ (s.run before).DeletesAmongArguments c) →
      (s.withSettings x).answers cs = s.answers cs ∧
        (s.withSettings x).run cs = (s.run cs).withSettings x) ∧
    ∀ (s : Session) x c, s.DeletesAmongArguments c → x.collapse ≠ s.settings.collapse →
      ((s.withSettings x).step c).1 = (s.step c).1 ∧
        ((s.withSettings x).step c).2.formula ≠ (s.step c).2.formula :=
  ⟨Formula.deleteOperand_eq_iff, fun s x _ => s.run_withSettings x,
    fun s x _ => s.step_withSettings_of_deletesAmongArguments x⟩

end Session

end FormulaEditor
