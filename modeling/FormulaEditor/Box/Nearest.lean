import FormulaEditor.Box.Path
/-! The operator that a selected box belongs to: the nearest one, looked for layer by layer from the
boxes beside the selection down. -/
namespace FormulaEditor

inductive Side
  | left
  | right
  deriving DecidableEq

def Side.text : Side → String
  | left => "left"
  | right => "right"

structure OperatorPlace where
  id : Nat
  path : Box.Path
  deriving DecidableEq

/-- The side of the operator that a selection stands on, in the order of drawing. -/
def OperatorPlace.side (o : OperatorPlace) (selected : Box.Path) : Side :=
  if o.path < selected then .right else .left

namespace Box

/-- Boxes that are equally far down, from left to right, each with its path. -/
abbrev Layer := List (Path × Box)

namespace Layer

def ofMembers (p : Path) (bs : List Box) : Layer := bs.zipIdx.map fun (b, i) => (p.child i, b)

def operator? (l : Layer) : Option OperatorPlace :=
  l.findSome? fun (p, b) => b.operatorId?.map fun id => ⟨id, p⟩

def below (l : Layer) : Layer := l.flatMap fun (p, b) => ofMembers p (b.members?.getD [])

def search : Nat → Layer → Option OperatorPlace
  | 0, _ => none
  | fuel + 1, l => l.operator? <|> search fuel l.below

end Layer

def beside? (root : Box) (selected : Path) : Option Layer := do
  let _ ← root.get? selected
  let (p, i) ← selected.parent?
  let bs ← (← root.get? p).members?
  some ((Layer.ofMembers p bs).eraseIdx i)

/-- The operator nearest to a selected box. There is none for the outermost box, for a path that
leads nowhere, and where no operator stands beside the selection or further down from there. No box
has more layers below it than its height. -/
def nearestOperator? (root : Box) (selected : Path) : Option OperatorPlace := do
  (← root.beside? selected).search root.height

end Box

end FormulaEditor
