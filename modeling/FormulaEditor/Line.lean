import FormulaEditor.Box.Layout
/-! A drawing as one line of text. Tokens that can be selected stand in brackets, the selected one
in braces; a selected group has braces around all its members, as in `{[1] + [2]} * [x]`. -/
namespace FormulaEditor

/-- The pieces of the groups that are open, innermost first, and the line as far as it is drawn. The
last of the groups is the line itself. -/
structure Line where
  groups : List (List String)
  text : String
  deriving DecidableEq

namespace Line

def blank : Line := ⟨[], ""⟩

def braced (s : String) : String := "\x7b" ++ s ++ "\x7d"

def bracketed (s : String) : String := "[" ++ s ++ "]"

def joined (pieces : List String) : String := " ".intercalate pieces

/-- Puts a piece into the innermost group. An empty piece leaves no trace, nor does any piece while
no group is there. -/
def put (piece : String) : List (List String) → List (List String)
  | [] => []
  | g :: groups => if piece = "" then g :: groups else (g ++ [piece]) :: groups

def ofGroups (groups : List (List String)) : Line := ⟨groups, joined (groups.getLast?.getD [])⟩

def piece (b : Box) (mark : Mark) : String :=
  let text := b.text?.getD ""
  if mark.selected then braced text
  else if mark.selectable then bracketed text
  else text

def groupPiece (members : List String) (mark : Mark) : String :=
  if mark.selected ∧ joined members ≠ "" then braced (joined members) else joined members

/-- Takes the innermost group away and puts its piece into the next one. When none is left the piece
starts a new line. -/
def close (mark : Mark) : List (List String) → List (List String)
  | [] => put (groupPiece [] mark) [[]]
  | [g] => put (groupPiece g mark) [[]]
  | g :: h :: groups => put (groupPiece g mark) (h :: groups)

def apply (l : Line) : DrawCall → Line
  | .init => ⟨[[]], ""⟩
  | .token b mark => ofGroups (put (piece b mark) l.groups)
  | .openGroup _ => ⟨[] :: l.groups, l.text⟩
  | .closeGroup mark => ofGroups (close mark l.groups)

@[simp] theorem apply_init (l : Line) : l.apply .init = ⟨[[]], ""⟩ := rfl

@[simp] theorem apply_token (l : Line) (b : Box) (mark : Mark) :
    l.apply (.token b mark) = ofGroups (put (piece b mark) l.groups) := rfl

@[simp] theorem apply_openGroup (l : Line) (mark : Mark) :
    l.apply (.openGroup mark) = ⟨[] :: l.groups, l.text⟩ := rfl

@[simp] theorem apply_closeGroup (l : Line) (mark : Mark) :
    l.apply (.closeGroup mark) = ofGroups (close mark l.groups) := rfl

def run (l : Line) (calls : List DrawCall) : Line := calls.foldl apply l

@[simp] theorem run_nil (l : Line) : l.run [] = l := rfl

@[simp] theorem run_cons (l : Line) (c : DrawCall) (cs : List DrawCall) :
    l.run (c :: cs) = (l.apply c).run cs := rfl

@[simp] theorem run_append (l : Line) (cs ds : List DrawCall) :
    l.run (cs ++ ds) = (l.run cs).run ds := List.foldl_append

end Line

def Box.line (root : Box) (selection : Option Box.Path) : String :=
  (Line.blank.run (root.calls selection)).text

end FormulaEditor
