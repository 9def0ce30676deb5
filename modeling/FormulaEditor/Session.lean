import FormulaEditor.Formula.Deletion
import FormulaEditor.Formula.Drawing
import FormulaEditor.Formula.Encode
import FormulaEditor.Formula.Reader
import FormulaEditor.Line
import FormulaEditor.Settings.Basic
/-! A session holds one formula with its drawing and lets a user select boxes and delete them. Each
operation gives its result together with the session after it. -/
namespace FormulaEditor

def version : String := "0.1.0"

inductive SessionError
  /-- No operator goes with the selection, and without it there might be no formula left. -/
  | noOperator
  | noSuchBox (path : Box.Path)
  | notSelectable (path : Box.Path)
  /-- There is nothing to select from or to delete from yet. -/
  | noFormula
  | json (error : Json.Error)
  deriving DecidableEq

def SessionError.message : SessionError → String
  | noOperator => "Delete not allowed for the selected node, formula may become invalid"
  | noSuchBox p => "no part at " ++ p.text ++ " in the current render"
  | notSelectable p => "part at " ++ p.text ++ " cannot be selected"
  | noFormula => "no syntax tree has been rendered yet"
  | json e => "malformed syntax tree JSON: " ++ e.message

inductive Deletion
  | nothing
  /-- The operator is one of the drawing before the deletion, and the operand is gone. -/
  | operand (operator : Nat) (side : Side)
  deriving DecidableEq

structure Session where
  formula : Option Formula
  /-- The canonical text of the formula, empty as long as there is none. -/
  json : String
  drawing : Option Drawing
  /-- The path of the selected box in the drawing. -/
  selection : Option Box.Path
  drawCount : Nat
  settings : Settings
  deriving DecidableEq

namespace Session

def new (settings : Settings) : Session where
  formula := none
  json := ""
  drawing := none
  selection := none
  drawCount := 0
  settings := settings

/-- The session with another formula, drawn anew and with nothing selected. -/
def withFormula (s : Session) (t : Formula) : Session :=
  { s with
    formula := some t, json := t.canonicalJson, drawing := some t.drawing, selection := none,
    drawCount := s.drawCount + 1 }

@[simp] theorem withFormula_formula (s : Session) (t : Formula) :
    (s.withFormula t).formula = some t := rfl

@[simp] theorem withFormula_json (s : Session) (t : Formula) :
    (s.withFormula t).json = t.canonicalJson := rfl

@[simp] theorem withFormula_drawing (s : Session) (t : Formula) :
    (s.withFormula t).drawing = some t.drawing := rfl

@[simp] theorem withFormula_selection (s : Session) (t : Formula) :
    (s.withFormula t).selection = none := rfl

@[simp] theorem withFormula_drawCount (s : Session) (t : Formula) :
    (s.withFormula t).drawCount = s.drawCount + 1 := rfl

@[simp] theorem withFormula_settings (s : Session) (t : Formula) :
    (s.withFormula t).settings = s.settings := rfl

/-- Tells whether the formula is another one than before. If it is not, nothing changes. -/
def setFormula (s : Session) (t : Formula) : Bool × Session :=
  if s.formula.isSome ∧ t.canonicalJson = s.json then (false, s) else (true, s.withFormula t)

def setJson (s : Session) (text : String) : Except SessionError Bool × Session :=
  match Formula.ofJson text with
  | .ok t => let (changed, s) := s.setFormula t; (.ok changed, s)
  | .error e => (.error (.json e), s)

def clearSelection (s : Session) : Session := { s with selection := none }

@[simp] theorem clearSelection_selection (s : Session) : s.clearSelection.selection = none := rfl

def selectable (s : Session) (p : Box.Path) : Except SessionError Box :=
  match s.drawing with
  | none => .error .noFormula
  | some d =>
    match d.box.get? p with
    | none => .error (.noSuchBox p)
    | some b => if b.isSelectable then .ok b else .error (.notSelectable p)

/-- Selects the box at `p`. If that is not possible nothing stays selected. -/
def select (s : Session) (p : Box.Path) : Except SessionError Unit × Session :=
  match s.selectable p with
  | .ok _ => (.ok (), { s with selection := some p })
  | .error e => (.error e, s.clearSelection)

/-- Deletes what is selected together with the operator that goes with it. Afterwards nothing is
selected. -/
def delete (s : Session) : Except SessionError Deletion × Session :=
  match s.selection with
  | none => (.ok .nothing, s)
  | some p =>
    match s.drawing, s.formula with
    | some d, some t =>
      match d.box.nearestOperator? p with
      | none => (.error .noOperator, s.clearSelection)
      | some o =>
        let t := t.deleteOperand d.operators o.id (o.side p) s.settings.collapse
        (.ok (.operand o.id (o.side p)), s.withFormula t)
    | _, _ => (.error .noFormula, s.clearSelection)

def text (s : Session) : String := (s.drawing.map Drawing.text).getD ""

def selectedBox? (s : Session) : Option Box := do (← s.drawing).box.get? (← s.selection)

/-- The drawing as a line of text, with the selection marked. -/
def line? (s : Session) : Option String := s.drawing.map fun d => d.box.line s.selection

inductive Command
  | setFormula (t : Formula)
  | setJson (text : String)
  | select (p : Box.Path)
  | clearSelection
  | delete

inductive Answer
  | changed (changed : Bool)
  | done
  | deletion (deletion : Deletion)
  deriving DecidableEq

def step (s : Session) : Command → Except SessionError Answer × Session
  | .setFormula t => let (changed, s) := s.setFormula t; (.ok (.changed changed), s)
  | .setJson text => let (r, s) := s.setJson text; (r.map .changed, s)
  | .select p => let (r, s) := s.select p; (r.map fun _ => .done, s)
  | .clearSelection => (.ok .done, s.clearSelection)
  | .delete => let (r, s) := s.delete; (r.map .deletion, s)

def run (s : Session) (commands : List Command) : Session :=
  commands.foldl (fun s c => (s.step c).2) s

def answers (s : Session) : List Command → List (Except SessionError Answer)
  | [] => []
  | c :: cs => (s.step c).1 :: (s.step c).2.answers cs

@[simp] theorem run_nil (s : Session) : s.run [] = s := rfl

@[simp] theorem run_cons (s : Session) (c : Command) (cs : List Command) :
    s.run (c :: cs) = (s.step c).2.run cs := rfl

theorem run_append (s : Session) (cs ds : List Command) : s.run (cs ++ ds) = (s.run cs).run ds :=
  List.foldl_append

end Session

end FormulaEditor
