import FormulaEditor.Box.Path
/-! The walk over the boxes of a drawing, as the sequence of calls that a front end gets: every box
is drawn once, in order, and the members of a group between its opening and its closing. -/
namespace FormulaEditor

structure Mark where
  selectable : Bool
  selected : Bool
  deriving DecidableEq

inductive DrawCall
  /-- Prepare for a new drawing. -/
  | init
  | token (box : Box) (mark : Mark)
  | openGroup (mark : Mark)
  | closeGroup (mark : Mark)
  deriving DecidableEq

namespace Box

def mark (b : Box) (cursor : Option Cursor) : Mark := ⟨b.isSelectable, cursor.any Cursor.isHere⟩

mutual

def layout (cursor : Option Cursor) : Box → List DrawCall
  | group bs =>
    .openGroup ((group bs).mark cursor) :: layoutFrom cursor 0 bs
      ++ [.closeGroup ((group bs).mark cursor)]
  | b => [.token b (b.mark cursor)]

def layoutFrom (cursor : Option Cursor) (i : Nat) : List Box → List DrawCall
  | [] => []
  | b :: bs => b.layout (cursor.bind (·.into? i)) ++ layoutFrom cursor (i + 1) bs

end

/-- The calls for a whole drawing, in which the box that `selection` leads to is selected. -/
def calls (root : Box) (selection : Option Path) : List DrawCall :=
  .init :: root.layout (selection.map Cursor.ofPath)

end Box

end FormulaEditor
