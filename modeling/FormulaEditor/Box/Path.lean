import FormulaEditor.Box.Basic
import FormulaEditor.Text
/-! Addresses of boxes. A path lists the places to go down through from the outermost box, and the
order of paths is the order in which the boxes are drawn. -/
namespace FormulaEditor
namespace Box

/-- From the outermost box down, counting the members of each group from zero. -/
abbrev Path := List Nat

namespace Path

def text (p : Path) : String :=
  "[" ++ ", ".intercalate (p.map Text.natural) ++ "]"

def child (p : Path) (i : Nat) : Path := p ++ [i]

def parent? (p : Path) : Option (Path × Nat) := p.getLast?.map fun i => (p.dropLast, i)

@[simp] theorem parent?_child (p : Path) (i : Nat) : parent? (p.child i) = some (p, i) := by
  simp [child, parent?]

theorem eq_child_of_parent? {p q : Path} {i : Nat} (h : parent? p = some (q, i)) :
    p = q.child i := by
  obtain ⟨j, hj, he⟩ := Option.map_eq_some_iff.1 h
  obtain ⟨rfl, rfl⟩ := Prod.mk.inj he
  obtain ⟨r, rfl⟩ := List.getLast?_eq_some_iff.1 hj
  simp [child]

end Path

def get? (b : Box) : Path → Option Box
  | [] => some b
  | i :: p => do (← (← b.members?)[i]?).get? p

@[simp] theorem get?_nil (b : Box) : b.get? [] = some b := rfl

@[simp] theorem get?_cons (b : Box) (i : Nat) (p : Path) :
    b.get? (i :: p) = b.members?.bind fun bs => bs[i]?.bind (·.get? p) := rfl

theorem get?_cons_eq_some_iff {b c : Box} {i : Nat} {p : Path} :
    b.get? (i :: p) = some c ↔
      ∃ bs d, b = group bs ∧ bs[i]? = some d ∧ d.get? p = some c := by
  simp [Option.bind_eq_some_iff, members?_eq_some_iff]

theorem get?_append (b : Box) (p q : Path) : b.get? (p ++ q) = (b.get? p).bind (·.get? q) := by
  induction p generalizing b with
  | nil => rfl
  | cons i p ih => simp [ih, Option.bind_assoc]

mutual

/-- All boxes from a box down with their paths, a group before its members. -/
def boxes : Box → List (Path × Box)
  | group bs => ([], group bs) :: boxesFrom 0 bs
  | b => [([], b)]

def boxesFrom (i : Nat) : List Box → List (Path × Box)
  | [] => []
  | b :: bs => b.boxes.map (fun x => (i :: x.1, x.2)) ++ boxesFrom (i + 1) bs

end

end Box

/-- A place on the way along a path: what is left of the path, or `none` past its end. -/
structure Cursor where
  rest : Option Box.Path
  deriving DecidableEq

namespace Cursor

def ofPath (p : Box.Path) : Cursor := ⟨some p⟩

def next? (c : Cursor) : Option Nat := c.rest.bind List.head?

def isHere (c : Cursor) : Bool := c.rest = some []

def step (c : Cursor) : Cursor := ⟨c.rest.bind List.tail?⟩

def into? (c : Cursor) (i : Nat) : Option Cursor := if c.next? = some i then some c.step else none

@[simp] theorem isHere_ofPath (p : Box.Path) : (ofPath p).isHere = true ↔ p = [] := by
  simp [isHere, ofPath]

@[simp] theorem into?_ofPath_nil (i : Nat) : (ofPath []).into? i = none := by
  simp [into?, ofPath, next?]

@[simp] theorem into?_ofPath_cons (i j : Nat) (p : Box.Path) :
    (ofPath (j :: p)).into? i = if j = i then some (ofPath p) else none := by
  simp [into?, ofPath, next?, step]

end Cursor

end FormulaEditor
