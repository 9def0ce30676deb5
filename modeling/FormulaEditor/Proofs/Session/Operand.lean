import FormulaEditor.Proofs.Box.Nearest
import FormulaEditor.Proofs.Formula.Deletion
import FormulaEditor.Proofs.Session.Invariant
/-! Deleting an operand that is selected as such. The boxes that can be selected beside an operator
are the operands of its operation, and deleting one of them removes that operand and no other. -/
namespace FormulaEditor
namespace Session

/-- The member at `i` of the group at `g` can be selected and has an operator in its group. -/
structure IsBesideOperator (root : Box) (g : Box.Path) (ms : List Box) (i : Nat) : Prop where
  group : root.get? g = some (.group ms)
  selectable : ∃ b, ms[i]? = some b ∧ b.isSelectable = true
  operator : ∃ symbol id, .operator symbol id ∈ ms

/-- The operator that is found for an operand is that of its operation, and the operand stands on
its own side of it. -/
theorem nearestOperator?_operand {t n : Formula} {p : Formula.Path} {id : Nat} {ms : List Box}
    (h : t.IsOperatorGroup n p id ms) (side : Side) :
    ∃ o, t.drawing.box.nearestOperator? ((t.place p).path.child ((t.place p).depth + side.index)) =
        some o ∧ o.id = id ∧
      o.side ((t.place p).path.child ((t.place p).depth + side.index)) = side := by
  obtain ⟨x, first, _, hbox⟩ := h.operand side
  obtain ⟨symbol, hop⟩ := h.operator
  have hlen := (List.getElem?_eq_some_iff.1 hbox).1
  have hne : (t.place p).depth + side.index ≠ (t.place p).depth + 1 := by
    cases side <;> simp [Side.index]
  have hnear := Box.nearestOperator?_child h.found hlen hop hne fun k b => h.eq_of_operatorId?
  refine ⟨_, hnear, rfl, ?_⟩
  rw [OperatorPlace.side_child]
  cases side with
  | left => exact if_neg (by simp only [Side.index]; omega)
  | right => exact if_pos (by simp only [Side.index]; omega)

theorem IsBesideOperator.exists_operand {t : Formula} {g : Box.Path} {ms : List Box} {i : Nat}
    (h : IsBesideOperator t.drawing.box g ms i) :
    ∃ p n id side, t.get? p = some n ∧ g = (t.place p).path ∧
      i = (t.place p).depth + Side.index side ∧ t.IsOperatorGroup n p id ms := by
  obtain ⟨symbol, id, hm⟩ := h.operator
  obtain ⟨b, hi, hb⟩ := h.selectable
  obtain ⟨p, n, id, hp, _, hg, hgroup⟩ := Formula.exists_isOperatorGroup_of_mem h.group hm
  obtain ⟨side, hside⟩ := hgroup.exists_side_of_isSelectable hi hb
  exact ⟨p, n, id, side, hp, hg.symm, hside, hgroup⟩

end Session

end FormulaEditor
