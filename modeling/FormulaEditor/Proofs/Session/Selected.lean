import FormulaEditor.Proofs.Session.Deletion
import FormulaEditor.Proofs.Session.Operand
/-! Whether a deletion deletes what is selected. It does so where an operator stands in the group of
the selection. In any other group the search goes down into the boxes around the selection, and the
operand that goes is one of theirs. -/
namespace FormulaEditor

namespace Formula

/-- The box at `r` is drawn for the operand on the given side of the operation whose operator has
the number `id`, and it stands on that side of the operator. -/
structure IsOperandBox (t : Formula) (id : Nat) (side : Side) (r : Box.Path) : Prop where
  drawn : ∃ q n x first, t.drawing.operators[id]? = some q ∧ t.get? q = some n ∧
    n.operand? side = some x ∧ t.drawing.box.get? r = some (x.box first)
  beside : ∃ (g : Box.Path) (i : Nat) (symbol : String), r = g.child (i + side.index) ∧
    t.drawing.box.get? (g.child (i + 1)) = some (.operator symbol id)

theorem IsOperatorGroup.isOperandBox {t n : Formula} {p : Path} {id : Nat} {ms : List Box}
    (h : t.IsOperatorGroup n p id ms) (hp : t.get? p = some n) (side : Side) :
    t.IsOperandBox id side ((t.place p).path.child ((t.place p).depth + side.index)) := by
  obtain ⟨x, first, hx, hbox⟩ := h.operand side
  obtain ⟨symbol, hop⟩ := h.operator
  exact ⟨⟨p, n, x, first, h.entry, hp, hx, h.get?_child hbox⟩, _, _, symbol, rfl, h.get?_child hop⟩

theorem IsOperandBox.unique {t : Formula} {id : Nat} {side : Side} {r r' : Box.Path}
    (h : t.IsOperandBox id side r) (h' : t.IsOperandBox id side r') : r = r' := by
  obtain ⟨_, _, _, _, hentry, _⟩ := h.drawn
  obtain ⟨g, i, symbol, rfl, hop⟩ := h.beside
  obtain ⟨g', i', symbol', rfl, hop'⟩ := h'.beside
  have hid : id < t.operators.length := (List.getElem?_eq_some_iff.1 hentry).1
  have htoken : g.child (i + 1) = g'.child (i' + 1) :=
    (t.existsUnique_operator hid).unique ⟨symbol, hop⟩ ⟨symbol', hop'⟩
  obtain ⟨rfl, hi⟩ := Box.Path.child_injective htoken
  rw [Nat.succ.inj hi]

end Formula

namespace Session

def SelectsBesideOperator (t : Formula) (p : Box.Path) : Prop :=
  ∃ g ms i, p = g.child i ∧ IsBesideOperator t.drawing.box g ms i

/-- If a deletion goes through in `s`, the selection lies in the box of the operand that goes. -/
def DeletesSelected (s : Session) : Prop :=
  ∀ t p id side, s.formula = some t → s.selection = some p →
    (s.step .delete).1 = .ok (.deletion (.operand id side)) →
    ∃ r, t.IsOperandBox id side r ∧ r <+: p

section

variable {settings : Settings} {s : Session} {t n : Formula} {p : Box.Path} {o : OperatorPlace}
  {q : Formula.Path} {ms : List Box}

theorem RemovesOperand.isOperandBox (h : s.RemovesOperand t p o q n ms) :
    t.IsOperandBox o.id (o.side p)
      ((t.place q).path.child ((t.place q).depth + (o.side p).index)) :=
  h.group.isOperandBox h.operation _

/-- Beside an operator it is the selected box itself that goes. -/
theorem RemovesOperand.eq_of_selectsBesideOperator (h : s.RemovesOperand t p o q n ms)
    (hbeside : SelectsBesideOperator t p) :
    (t.place q).path.child ((t.place q).depth + (o.side p).index) = p := by
  obtain ⟨g, ms', i, rfl, hbeside⟩ := hbeside
  obtain ⟨q', n', id, side, hq', rfl, rfl, hgroup⟩ := hbeside.exists_operand
  obtain ⟨o', ho', rfl, hside⟩ := nearestOperator?_operand hgroup side
  obtain rfl : o = o' := Option.some.inj (h.nearest.symm.trans ho')
  obtain rfl : q = q' := Option.some.inj (h.group.entry.symm.trans hgroup.entry)
  rw [hside]

/-- In any other group the operator that is found stands further down, and so does the operand. -/
theorem RemovesOperand.apart_of_not_selectsBesideOperator (hs : Consistent settings s)
    (h : s.RemovesOperand t p o q n ms) (hbeside : ¬ SelectsBesideOperator t p) :
    let r := (t.place q).path.child ((t.place q).depth + (o.side p).index)
    ¬ r <+: p ∧ ¬ p <+: r := by
  obtain ⟨g, i, rfl, hsome⟩ := Box.exists_child_of_nearestOperator? h.nearest
  obtain ⟨j, rest, hij, hpath⟩ := (Box.nearestOperator?_spec hsome h.nearest).1.exists_member
  -- in the group of the selection the operator would stand beside the selection
  have hne : (t.place q).path ≠ g := by
    intro hg
    apply hbeside
    obtain ⟨t', b, ht', hget, hselectable⟩ := hs.exists_of_selection h.selection
    obtain rfl : t = t' := Option.some.inj (h.formula.symm.trans ht')
    have hfound : t.drawing.box.get? g = some (.group ms) := hg ▸ h.group.found
    rw [Box.get?_child hfound] at hget
    obtain ⟨symbol, hop⟩ := h.group.operator
    exact ⟨g, ms, i, rfl, hfound, ⟨b, hget, hselectable⟩, symbol, o.id, List.mem_of_getElem? hop⟩
  exact Box.Path.apart_of_member hij (h.place.symm.trans hpath) hne _

end

/-- A deletion that goes through deletes what is selected exactly if the selection stands beside an
operator, and then it is the operand that goes. Otherwise the operand that goes and the selection
have nothing in common. -/
theorem deletesSelected_iff (settings : Settings) (commands : List Command) {t : Formula}
    {p : Box.Path} {id : Nat} {side : Side}
    (ht : ((new settings).run commands).formula = some t)
    (hp : ((new settings).run commands).selection = some p)
    (hd : (((new settings).run commands).step .delete).1 = .ok (.deletion (.operand id side))) :
    (((new settings).run commands).DeletesSelected ↔ SelectsBesideOperator t p) ∧
    ∃ r, t.IsOperandBox id side r ∧ (SelectsBesideOperator t p → r = p) ∧
      (¬ SelectsBesideOperator t p → ¬ r <+: p ∧ ¬ p <+: r) := by
  have hs : Consistent settings _ := (Consistent.new settings).run commands
  obtain ⟨t', p', o, q, n, ms, hgoes, rfl, hside⟩ := hs.removesOperand hd
  obtain rfl : t' = t := Option.some.inj (hgoes.formula.symm.trans ht)
  obtain rfl : p' = p := Option.some.inj (hgoes.selection.symm.trans hp)
  subst hside
  have hbox := hgoes.isOperandBox
  constructor
  · constructor
    · intro hdeletes
      by_contra hbeside
      obtain ⟨r, hr, hprefix⟩ := hdeletes _ _ _ _ ht hp hd
      -- the operand that goes has no other box that the selection could lie in
      obtain rfl := hr.unique hbox
      exact (hgoes.apart_of_not_selectsBesideOperator hs hbeside).1 hprefix
    · intro hbeside t₂ p₂ id₂ side₂ ht₂ hp₂ hd₂
      obtain rfl : t₂ = t' := Option.some.inj (ht₂.symm.trans ht)
      obtain rfl : p₂ = p' := Option.some.inj (hp₂.symm.trans hp)
      obtain ⟨rfl, rfl⟩ : o.id = id₂ ∧ o.side p₂ = side₂ := by simpa [hd] using hd₂
      refine ⟨_, hbox, ?_⟩
      rw [hgoes.eq_of_selectsBesideOperator hbeside]
  · exact ⟨_, hbox, hgoes.eq_of_selectsBesideOperator,
      hgoes.apart_of_not_selectsBesideOperator hs⟩

/-- `f(x + y, z)` -/
def sumInCall : Formula :=
  .call "f" [.binary .addition (.var "x") (.var "y"), .var "z"]

theorem deletesSelected_iff_sumInCall :
    let s := (new {}).run [.setFormula sumInCall, .select [2, 0]]
    s.formula = some sumInCall ∧ s.selection = some [2, 0] ∧
      (s.step .delete).1 = .ok (.deletion (.operand 0 .left)) ∧
      (s.DeletesSelected ↔ SelectsBesideOperator sumInCall [2, 0]) ∧
      ∃ r, sumInCall.IsOperandBox 0 .left r ∧
        (SelectsBesideOperator sumInCall [2, 0] → r = [2, 0]) ∧
        (¬ SelectsBesideOperator sumInCall [2, 0] → ¬ r <+: [2, 0] ∧ ¬ [2, 0] <+: r) :=
  ⟨rfl, rfl, rfl,
    deletesSelected_iff {} [.setFormula sumInCall, .select [2, 0]] rfl rfl rfl⟩

/-- With `z` selected, it is `y` that a deletion takes out of `f(x + y, z)`, and `z` stays. -/
theorem not_deletesSelected_sumInCall :
    let s := (new { collapse := .replaceMatched }).run [.setFormula sumInCall, .select [3]]
    (s.step .delete).1 = .ok (.deletion (.operand 0 .right)) ∧
      (s.step .delete).2.formula = some (.call "f" [.var "x", .var "z"]) ∧
      ¬ s.DeletesSelected := by
  refine ⟨rfl, rfl, fun hdeletes => ?_⟩
  have hy : sumInCall.IsOperandBox 0 .right [2, 2] :=
    ⟨⟨[.argument 0], _, _, 0, rfl, rfl, rfl, rfl⟩, [2], 0, "+", rfl, rfl⟩
  obtain ⟨r, hr, hprefix⟩ := hdeletes sumInCall [3] 0 .right rfl rfl rfl
  obtain rfl := hr.unique hy
  exact absurd hprefix (by decide)

end Session

end FormulaEditor
