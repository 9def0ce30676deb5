import FormulaEditor.Box.Nearest
import FormulaEditor.Formula.Path
/-! Deleting an operand. The operator goes with it, and the other operand takes its place. -/
namespace FormulaEditor

/-- What becomes of the other arguments of a call when an operand is deleted from an operation that
is one of its arguments. -/
inductive Collapse
  /-- They go, and the call is left with the operand that stays. -/
  | replaceAll
  | replaceMatched
  deriving DecidableEq

namespace Formula

def kept? : Formula → Side → Option Formula
  | power a _, .right => some a
  | power _ x, .left => some x
  | binary _ l _, .right => some l
  | binary _ _ r, .left => some r
  | _, _ => none

@[simp] theorem isSome_kept? (t : Formula) (side : Side) :
    (t.kept? side).isSome = t.isOperation := by
  cases t <;> cases side <;> rfl

/-- Puts a formula in the place that a path leads to. In place of an argument it replaces all
arguments of the call if `collapse` says so. -/
def collapseInto? (t w : Formula) (p : Path) (collapse : Collapse) : Option Formula :=
  match collapse, p.parent? with
  | .replaceAll, some (q, .argument _) =>
    match t.get? q with
    | some (call name _) => t.set? (call name [w]) q
    | _ => none
  | _, _ => t.set? w p

def deleteAt? (t : Formula) (p : Path) (side : Side) (collapse : Collapse) : Option Formula := do
  t.collapseInto? (← (← t.get? p).kept? side) p collapse

/-- Deletes the operand on the given side of the operation whose path has the number `id` in a table
of operators. If there is no such operation the formula stays as it is. -/
def deleteOperand (t : Formula) (operators : List Path) (id : Nat) (side : Side)
    (collapse : Collapse) : Formula :=
  (operators[id]?.bind fun p => t.deleteAt? p side collapse).getD t

end Formula

end FormulaEditor
