import FormulaEditor.Proofs.Box.Nearest
import FormulaEditor.Proofs.Formula.OperatorTable
import FormulaEditor.Proofs.Session.Invariant
/-! Deletions that go through. The operator that is found is that of an operation of the formula,
and one of the operands of this operation goes. -/
namespace FormulaEditor
namespace Session

theorem step_delete (s : Session) :
    s.step .delete = (s.delete.1.map Answer.deletion, s.delete.2) := rfl

/-- A deletion goes through in `s`: the operator `o` is found for the selection `p`, and it is that
of the operation `n` at `q`, in whose group `ms` it stands. -/
structure RemovesOperand (s : Session) (t : Formula) (p : Box.Path) (o : OperatorPlace)
    (q : Formula.Path) (n : Formula) (ms : List Box) : Prop where
  formula : s.formula = some t
  selection : s.selection = some p
  nearest : t.drawing.box.nearestOperator? p = some o
  operation : t.get? q = some n
  group : t.IsOperatorGroup n q o.id ms
  place : o.path = (t.place q).path.child ((t.place q).depth + 1)
  result : (s.step .delete).2 =
    s.withFormula (t.deleteOperand t.operators o.id (o.side p) s.settings.collapse)

/-- The table leads from every operator that is found to an operation, so no deletion goes through
without effect. -/
theorem Consistent.removesOperand {settings : Settings} {s : Session} (h : Consistent settings s)
    {id : Nat} {side : Side} (hd : (s.step .delete).1 = .ok (.deletion (.operand id side))) :
    ∃ t p o q n ms, s.RemovesOperand t p o q n ms ∧ o.id = id ∧ o.side p = side := by
  rw [step_delete] at hd
  rcases h.delete_spec with ⟨_, hs⟩ | ⟨t, p, ht, hp, ⟨_, hs⟩ | ⟨o, ho, hs⟩⟩
  · rw [hs] at hd
    nomatch hd
  · rw [hs] at hd
    nomatch hd
  · have hanswer : o.id = id ∧ o.side p = side := by
      simpa [hs, Except.map] using hd
    obtain ⟨g, i, rfl, hsome⟩ := Box.exists_child_of_nearestOperator? ho
    obtain ⟨haround, _⟩ := Box.nearestOperator?_spec hsome ho
    obtain ⟨symbol, hfound⟩ := haround.found
    obtain ⟨q, n, ms, hn, hgroup, _, hplace⟩ := Formula.exists_isOperatorGroup_of_get? hfound
    have hresult := congrArg Prod.snd hs
    exact ⟨t, _, o, q, n, ms, ⟨ht, hp, ho, hn, hgroup, hplace, hresult⟩, hanswer⟩

end Session

end FormulaEditor
