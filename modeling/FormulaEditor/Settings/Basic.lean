import FormulaEditor.Formula.Deletion
import FormulaEditor.Json.Value
/-! The settings of a session. -/
namespace FormulaEditor

structure Settings where
  collapse : Collapse := .replaceAll
  deriving DecidableEq

namespace Collapse

def name : Collapse → String
  | replaceAll => "replace_all"
  | replaceMatched => "replace_matched"

def all : List Collapse := [replaceAll, replaceMatched]

def ofName? (s : String) : Option Collapse := all.find? fun c => c.name = s

@[simp] theorem ofName?_name (c : Collapse) : ofName? c.name = some c := by
  cases c <;> decide

end Collapse

namespace Settings

def collapseKey : String := "argument_collapse"

def toJson (s : Settings) : String :=
  (Json.Value.object [(collapseKey, .string s.collapse.name)]).print

end Settings

end FormulaEditor
