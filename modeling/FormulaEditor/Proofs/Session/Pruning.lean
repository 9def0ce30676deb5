import FormulaEditor.Proofs.Formula.Nesting
import FormulaEditor.Proofs.Formula.Pruning
import FormulaEditor.Proofs.Session.Deletion
/-! Deletions take away. Each one that goes through leaves a pruned formula, so the operators of a
formula bound how many can follow until another formula is set. -/
namespace FormulaEditor
namespace Session

def operatorCount (s : Session) : Nat := (s.formula.map Formula.operatorCount).getD 0

@[simp] theorem operatorCount_withFormula (s : Session) (t : Formula) :
    (s.withFormula t).operatorCount = t.operatorCount := rfl

@[simp] theorem operatorCount_clearSelection (s : Session) :
    s.clearSelection.operatorCount = s.operatorCount := rfl

def Answer.removes : Except SessionError Answer → Bool
  | .ok (.deletion (.operand ..)) => true
  | _ => false

theorem RemovesOperand.isPruned {s : Session} {t n : Formula} {p : Box.Path} {o : OperatorPlace}
    {q : Formula.Path} {ms : List Box} (h : s.RemovesOperand t p o q n ms) :
    ∃ u, (s.step .delete).2.formula = some u ∧ u.IsPruned t ∧ u.nesting ≤ t.nesting := by
  refine ⟨_, by rw [h.result, withFormula_formula], ?_, t.nesting_deleteOperand_le _ _ _ _⟩
  obtain ⟨x, _, hx, _⟩ := h.group.operand .left
  have hop : n.isOperation = true := (Formula.exists_operand?_iff .left).1 ⟨x, hx⟩
  exact Formula.isPruned_deleteOperand h.group.entry h.operation hop _ _

theorem redraws_iff {a : Except SessionError Answer} :
    Answer.redraws a = true ↔ a = .ok (.changed true) ∨ Answer.removes a = true := by
  rcases a with e | (changed | done | deletion)
  · simp [Answer.redraws, Answer.removes]
  · cases changed <;> simp [Answer.redraws, Answer.removes]
  · simp [Answer.redraws, Answer.removes]
  · cases deletion <;> simp [Answer.redraws, Answer.removes]

theorem eq_delete_of_removes {s : Session} {c : Command} (h : Answer.removes (s.step c).1 = true) :
    c = .delete := by
  cases c with
  | setFormula t => simp [step, Answer.removes] at h
  | setJson text =>
    cases ht : (s.setJson text).1 <;> simp [step, ht, Except.map, Answer.removes] at h
  | select p => cases hp : (s.select p).1 <;> simp [step, hp, Except.map, Answer.removes] at h
  | clearSelection => simp [step, Answer.removes] at h
  | delete => rfl

theorem exists_operand_of_removes {a : Except SessionError Answer} (h : Answer.removes a = true) :
    ∃ id side, a = .ok (.deletion (.operand id side)) := by
  unfold Answer.removes at h
  split at h
  · exact ⟨_, _, rfl⟩
  · nomatch h

/-- Unless a command sets another formula no operator comes in, and a deletion that goes through
costs one at least. -/
theorem Consistent.step_operatorCount {settings : Settings} {s : Session}
    (h : Consistent settings s) {c : Command} (hc : (s.step c).1 ≠ .ok (.changed true)) :
    (s.step c).2.operatorCount + (if Answer.removes (s.step c).1 then 1 else 0) ≤
      s.operatorCount := by
  by_cases hremoves : Answer.removes (s.step c).1 = true
  · obtain rfl := eq_delete_of_removes hremoves
    obtain ⟨id, side, hanswer⟩ := exists_operand_of_removes hremoves
    obtain ⟨t, p, o, q, n, ms, hgoes, _⟩ := h.removesOperand hanswer
    obtain ⟨u, hu, hpruned, _⟩ := hgoes.isPruned
    have hfewer := hpruned.fewer
    simp only [operatorCount, hu, hgoes.formula, hremoves, Option.map_some, Option.getD_some,
      if_true]
    omega
  · have hredraws : Answer.redraws (s.step c).1 = false := by
      rw [Bool.eq_false_iff, ne_eq, redraws_iff]
      exact not_or_intro hc hremoves
    have hsame : (s.step c).2.operatorCount = s.operatorCount := by
      rcases s.step_cases c with ⟨hs, _⟩ | ⟨hs, _⟩ | ⟨_, _, _, hs, _⟩ | ⟨_, _, ha⟩
      · rw [hs]
      · rw [hs, operatorCount_clearSelection]
      · rw [hs]
        rfl
      · rw [hredraws] at ha
        nomatch ha
    simp [hsame, hremoves]

theorem Consistent.countP_removes_le {settings : Settings} {s : Session}
    (h : Consistent settings s) {cs : List Command}
    (hcs : ∀ a ∈ s.answers cs, a ≠ .ok (.changed true)) :
    (s.run cs).operatorCount + (s.answers cs).countP Answer.removes ≤ s.operatorCount := by
  induction cs generalizing s with
  | nil => exact Nat.le_refl _
  | cons c cs ih =>
    rw [answers] at hcs
    have hstep := h.step_operatorCount (hcs _ List.mem_cons_self)
    have hrest := ih (h.step c) fun a ha => hcs a (List.mem_cons_of_mem _ ha)
    rw [run_cons, answers, List.countP_cons]
    omega

/-- A deletion that goes through leaves fewer operators, no label that was not there, in another
order or more often, and no deeper text. Until another formula is set, no more deletions go through
than the formula has operators. -/
theorem deletions_prune (settings : Settings) (commands : List Command) :
    let s := (new settings).run commands
    (∀ id side, (s.step .delete).1 = .ok (.deletion (.operand id side)) →
      ∃ t u, s.formula = some t ∧ (s.step .delete).2.formula = some u ∧
        u.operatorCount < t.operatorCount ∧ u.labels.Sublist t.labels ∧ u.labels ≠ t.labels ∧
        u.toValue.depth ≤ t.toValue.depth) ∧
    ∀ t cs, s.formula = some t → (∀ a ∈ s.answers cs, a ≠ .ok (.changed true)) →
      (s.answers cs).countP Answer.removes ≤ t.operatorCount := by
  intro s
  have hs : Consistent settings s := (Consistent.new settings).run commands
  constructor
  · intro id side hanswer
    obtain ⟨t, p, o, q, n, ms, hgoes, _⟩ := hs.removesOperand hanswer
    obtain ⟨u, hu, hpruned, hnesting⟩ := hgoes.isPruned
    refine ⟨t, u, hgoes.formula, hu, hpruned.fewer, hpruned.sublist, hpruned.labels_ne, ?_⟩
    rwa [Formula.depth_toValue, Formula.depth_toValue]
  · intro t cs ht hcs
    have hbound := hs.countP_removes_le hcs
    have hcount : s.operatorCount = t.operatorCount := by
      rw [operatorCount, ht, Option.map_some, Option.getD_some]
    omega

end Session

end FormulaEditor
